import TptErp.Lib.AssocMap
import TptErp.Lib.Run

/-!
# The plugin registry

Publishers are trusted by name and key, and a plugin is stored when its publisher's key verifies its signature.
Ed25519 verification is a parameter.

The registry keeps the plugins it has when a publisher's name gets another key.  So what it stores was verified
once, under the key of that time (`Verified`), and `verify_all` looks at the key a plugin carries.
`onlyTrusted_iff`: what can be fetched verifies under the key its publisher has now, throughout a sequence of calls,
exactly when every key that is registered verifies the plugins stored under that publisher's name.
-/

namespace TptErp.Wasm

inductive RegistryError
  | unknownPublisher (publisherName : String)
  | invalidSignature (name : String)
  | alreadyExists (name : String)
deriving DecidableEq

structure PluginPublisher (K : Type) where
  name : String
  verifyingKey : K

structure SignedPlugin (K S : Type) where
  name : String
  publisherName : String
  wasm : List UInt8
  publisher : K
  signature : S

structure PluginRegistry (K S : Type) where
  publishers : AssocMap String K := ∅
  plugins : AssocMap String (SignedPlugin K S) := ∅

section
variable {K S : Type} (ed25519 : K → List UInt8 → S → Bool)

/-- The plugin's signature under the key it carries. -/
def SignedPlugin.verify (p : SignedPlugin K S) : Bool := ed25519 p.publisher p.wasm p.signature

namespace PluginRegistry

def registerPublisher (r : PluginRegistry K S) (publisher : PluginPublisher K) : PluginRegistry K S :=
  { r with publishers := r.publishers.insert publisher.name publisher.verifyingKey }

def publish [DecidableEq K] (r : PluginRegistry K S) (plugin : SignedPlugin K S) :
    PluginRegistry K S × Except RegistryError Unit :=
  match r.publishers.lookup plugin.publisherName with
  | none => (r, .error (.unknownPublisher plugin.publisherName))
  | some trusted =>
    if plugin.publisher ≠ trusted then (r, .error (.invalidSignature plugin.name))
    else if ed25519 trusted plugin.wasm plugin.signature = false then (r, .error (.invalidSignature plugin.name))
    else if (r.plugins.lookup plugin.name).isSome then (r, .error (.alreadyExists plugin.name))
    else ({ r with plugins := r.plugins.insert plugin.name plugin }, .ok ())

def fetch (r : PluginRegistry K S) (name : String) : Option (SignedPlugin K S) := r.plugins.lookup name

def verifyAll (r : PluginRegistry K S) : Bool := r.plugins.entries.all fun e => e.2.verify ed25519

end PluginRegistry

/-! ## What the registry keeps -/

/-- A fetched plugin goes by its name, and it verifies under the key it carries. -/
def Verified (r : PluginRegistry K S) : Prop :=
  ∀ name p, r.fetch name = some p → p.name = name ∧ p.verify ed25519 = true

theorem verified_new : Verified ed25519 ({} : PluginRegistry K S) := fun _ _ h => nomatch h

theorem verifyAll_iff (r : PluginRegistry K S) :
    r.verifyAll ed25519 = true ↔ ∀ name p, r.fetch name = some p → p.verify ed25519 = true := by
  unfold PluginRegistry.verifyAll
  rw [List.all_eq_true]
  constructor
  · intro h name p hp
    exact h ⟨name, p⟩ ((List.mem_dlookup_iff r.plugins.nodupKeys).mp hp)
  · rintro h ⟨name, p⟩ hp
    exact h name p ((List.mem_dlookup_iff r.plugins.nodupKeys).mpr hp)

/-- The integrity sweep never finds anything. -/
theorem Verified.verifyAll {r : PluginRegistry K S} (h : Verified ed25519 r) : r.verifyAll ed25519 = true :=
  (verifyAll_iff ed25519 r).mpr fun name p hp => (h name p hp).2

/-! ## Trust -/

/-- The plugin verifies under the key that its publisher's name has now. -/
def TrustedNow (r : PluginRegistry K S) (p : SignedPlugin K S) : Prop :=
  ∃ key, r.publishers.lookup p.publisherName = some key ∧ ed25519 key p.wasm p.signature = true

/-- Only trusted code can be fetched, under its own name, and `verify_all` says whether that is so. -/
structure OnlyTrusted (r : PluginRegistry K S) : Prop where
  fetched : ∀ name p, r.fetch name = some p → p.name = name ∧ TrustedNow ed25519 r p
  sweep : r.verifyAll ed25519 = true ↔ ∀ name p, r.fetch name = some p → TrustedNow ed25519 r p

theorem onlyTrusted_iff_of_verified {r : PluginRegistry K S} (h : Verified ed25519 r) :
    OnlyTrusted ed25519 r ↔ ∀ name p, r.fetch name = some p → TrustedNow ed25519 r p := by
  constructor
  · intro ho name p hp
    exact (ho.fetched name p hp).2
  · intro ht
    exact ⟨fun name p hp => ⟨(h name p hp).1, ht name p hp⟩, iff_of_true h.verifyAll ht⟩

theorem onlyTrusted_new : OnlyTrusted ed25519 ({} : PluginRegistry K S) :=
  (onlyTrusted_iff_of_verified ed25519 (verified_new ed25519)).mpr fun _ _ h => nomatch h

/-! ## One call -/

inductive RegistryCall (K S : Type)
  | registerPublisher (publisher : PluginPublisher K)
  | publish (plugin : SignedPlugin K S)

variable [DecidableEq K]

def registryStep (r : PluginRegistry K S) : RegistryCall K S → Option (PluginRegistry K S)
  | .registerPublisher publisher => some (r.registerPublisher publisher)
  | .publish plugin => some (r.publish ed25519 plugin).1

/-- **What `publish` does**: nothing, or it stores a plugin that verifies under its publisher's key. -/
theorem publish_cases (r : PluginRegistry K S) (plugin : SignedPlugin K S) :
    ((∃ e, (r.publish ed25519 plugin).2 = .error e) ∧ (r.publish ed25519 plugin).1 = r) ∨
      (r.publish ed25519 plugin = ({ r with plugins := r.plugins.insert plugin.name plugin }, .ok ()) ∧
        r.fetch plugin.name = none ∧ r.publishers.lookup plugin.publisherName = some plugin.publisher ∧
        plugin.verify ed25519 = true) := by
  unfold PluginRegistry.publish
  split
  · exact Or.inl ⟨⟨_, rfl⟩, rfl⟩
  · next trusted htrusted =>
    by_cases hkey : plugin.publisher = trusted
    · subst hkey
      rw [if_neg (not_not.mpr rfl)]
      split
      · exact Or.inl ⟨⟨_, rfl⟩, rfl⟩
      · next hverify =>
        split
        · exact Or.inl ⟨⟨_, rfl⟩, rfl⟩
        · next hnew =>
          exact Or.inr ⟨rfl, by simpa [PluginRegistry.fetch] using hnew, htrusted,
            by simpa [SignedPlugin.verify] using hverify⟩
    · rw [if_pos hkey]
      exact Or.inl ⟨⟨_, rfl⟩, rfl⟩

theorem verified_step {r t : PluginRegistry K S} {c : RegistryCall K S} (h : Verified ed25519 r)
    (ht : registryStep ed25519 r c = some t) : Verified ed25519 t := by
  cases c with
  | registerPublisher publisher =>
    cases ht
    exact h
  | publish plugin =>
    cases ht
    rcases publish_cases ed25519 r plugin with ⟨-, he⟩ | ⟨he, -, -, hverify⟩
    · rw [he]
      exact h
    · rw [he]
      intro name p hp
      change AList.lookup name (r.plugins.insert plugin.name plugin) = some p at hp
      rw [AssocMap.lookup_insert_eq] at hp
      split at hp
      · next hname =>
        cases hp
        exact ⟨hname.symm, hverify⟩
      · exact h name p hp

/-! ## Every sequence of calls -/

/-- A call that is rejected leaves the registry as it is. -/
def RejectedUnchanged (r : PluginRegistry K S) : RegistryCall K S → Prop
  | .registerPublisher _ => True
  | .publish plugin => ∀ e, (r.publish ed25519 plugin).2 = .error e → (r.publish ed25519 plugin).1 = r

theorem rejectedUnchanged (r : PluginRegistry K S) (c : RegistryCall K S) : RejectedUnchanged ed25519 r c := by
  cases c with
  | registerPublisher publisher => trivial
  | publish plugin =>
    intro e he
    rcases publish_cases ed25519 r plugin with ⟨-, h⟩ | ⟨h, -⟩
    · exact h
    · rw [h] at he
      cases he

/-- A key that is registered verifies the plugins stored under its publisher's name. -/
def KeyFits (r : PluginRegistry K S) : RegistryCall K S → Prop
  | .registerPublisher publisher =>
    ∀ name p, r.fetch name = some p → p.publisherName = publisher.name →
      ed25519 publisher.verifyingKey p.wasm p.signature = true
  | .publish _ => True

/-- A call keeps the registry trusted exactly when the key it registers fits. -/
theorem onlyTrusted_step {r t : PluginRegistry K S} {c : RegistryCall K S} (h : Verified ed25519 r)
    (ho : OnlyTrusted ed25519 r) (ht : registryStep ed25519 r c = some t) :
    OnlyTrusted ed25519 t ↔ KeyFits ed25519 r c := by
  rw [onlyTrusted_iff_of_verified ed25519 (verified_step ed25519 h ht)]
  cases c with
  | registerPublisher publisher =>
    cases ht
    show (∀ name p, r.fetch name = some p → ∃ key, AList.lookup p.publisherName (r.publishers.insert _ _) = some key ∧
      ed25519 key p.wasm p.signature = true) ↔ _
    constructor
    · intro hall name p hp hname
      obtain ⟨key, hkey, hverify⟩ := hall name p hp
      rw [AssocMap.lookup_insert_eq, if_pos hname] at hkey
      cases hkey
      exact hverify
    · intro hfits name p hp
      rw [AssocMap.lookup_insert_eq]
      split
      · next hname => exact ⟨_, rfl, hfits name p hp hname⟩
      · exact (ho.fetched name p hp).2
  | publish plugin =>
    cases ht
    refine iff_of_true ?_ trivial
    rcases publish_cases ed25519 r plugin with ⟨-, he⟩ | ⟨he, -, hkey, hverify⟩
    · rw [he]
      exact fun name p hp => (ho.fetched name p hp).2
    · rw [he]
      intro name p hp
      change AList.lookup name (r.plugins.insert plugin.name plugin) = some p at hp
      rw [AssocMap.lookup_insert_eq] at hp
      split at hp
      · cases hp
        exact ⟨_, hkey, hverify⟩
      · exact (ho.fetched name p hp).2

/-- **Only currently trusted code can be fetched**, throughout a sequence of calls, exactly when every key that is
registered fits. -/
theorem onlyTrusted_iff (calls : List (RegistryCall K S)) :
    (LabelledRun.AllStates (registryStep ed25519) (OnlyTrusted ed25519) {} calls ∧
        LabelledRun.AllSteps (registryStep ed25519) (RejectedUnchanged ed25519) {} calls) ↔
      LabelledRun.AllSteps (registryStep ed25519) (KeyFits ed25519) {} calls := by
  have hrejected : LabelledRun.AllSteps (registryStep ed25519) (RejectedUnchanged ed25519) {} calls :=
    LabelledRun.allSteps_of_allStates _ (fun r c _ => rejectedUnchanged ed25519 r c)
      (LabelledRun.allStates_of_step _ (fun _ _ _ h ht => verified_step ed25519 h ht) calls (verified_new ed25519))
  rw [and_iff_left hrejected]
  refine LabelledRun.allStates_iff_allSteps_of_none (registryStep ed25519) (Verified ed25519)
    (fun r c t h _ _ ht => verified_step ed25519 h ht) (fun r c t h ho ht => onlyTrusted_step ed25519 h ho ht) ?_
    (verified_new ed25519) (onlyTrusted_new ed25519)
  intro r c hnone
  cases c with
  | registerPublisher publisher => cases hnone
  | publish plugin => cases hnone

end

/-- A signature scheme whose signatures are the keys. -/
def plainKeys (key : Nat) (_wasm : List UInt8) (signature : Nat) : Bool := key == signature

theorem fetched_under_old_key :
    ¬ LabelledRun.AllStates (registryStep plainKeys) (OnlyTrusted plainKeys) {}
      [.registerPublisher { name := "acme", verifyingKey := 1 },
        .publish
          { name := "acme/pricing", publisherName := "acme", wasm := [9, 9, 9], publisher := 1, signature := 1 },
        .registerPublisher { name := "acme", verifyingKey := 2 }] := by
  intro h
  have hlast := h.last _ rfl
  obtain ⟨-, key, hkey, hverify⟩ := hlast.fetched "acme/pricing" _ rfl
  cases hkey
  exact absurd hverify (by decide)

end TptErp.Wasm
