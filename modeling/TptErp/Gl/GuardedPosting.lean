import TptErp.Gl.Journal

/-!
# Guarded postings

`post_transaction_guarded` verifies every involved account's version before it appends anything,
so that "nothing is posted" when a caller is stale.  The loop that then appends the legs compares
each leg with the same map of expected versions again, although its own first leg on an account
has moved that account's version: a second leg on the account conflicts, and the legs before it
stay.  `guarded_all_or_nothing_iff` says exactly when a guarded posting is all or nothing.
-/

namespace TptErp.Gl.JournalEngine

open Ledger

variable {C : Type} {SHARDS : Nat}

/-! ## The version checks -/

theorem mem_accounts (entries : List (LedgerEntry C)) (a : AccountId) :
    a ∈ accounts entries ↔ ∃ e ∈ entries, e.account = a := by
  rw [accounts, SortDedup.mem_sortDedup, List.mem_map]

theorem checkVersions_ok_iff (eng : JournalEngine C SHARDS) (exp : AccountId → Nat)
    (as : List AccountId) :
    eng.checkVersions exp as = .ok () ↔ ∀ a ∈ as, eng.version a = exp a := by
  induction as with
  | nil => simp [checkVersions]
  | cons a as ih =>
    unfold checkVersions
    by_cases h : eng.version a = exp a
    · simp [h, ih]
    · simp [h]

theorem checkVersions_accounts (eng : JournalEngine C SHARDS) (exp : AccountId → Nat)
    (entries : List (LedgerEntry C)) :
    eng.checkVersions exp (accounts entries) = .ok () ↔
      ∀ e ∈ entries, eng.version e.account = exp e.account := by
  rw [checkVersions_ok_iff]
  constructor
  · intro h e he
    exact h _ ((mem_accounts entries _).mpr ⟨e, he, rfl⟩)
  · intro h a ha
    obtain ⟨e, he, rfl⟩ := (mem_accounts entries a).mp ha
    exact h e he

/-- A leg whose account is past the expected version stops the loop, wherever it stands. -/
theorem postLegs_stale (exp : AccountId → Nat) (legs : List (PostedLeg C))
    (eng : JournalEngine C SHARDS) (l : PostedLeg C) (hl : l ∈ legs)
    (hv : exp l.account < eng.version l.account) : (postLegs (some exp) legs eng).1 ≠ .ok () := by
  induction legs generalizing eng with
  | nil => cases hl
  | cons leg legs ih =>
    simp only [postLegs, postLeg_eq, Option.mem_some_iff, forall_eq']
    by_cases he : exp leg.account = eng.version leg.account
    · simp only [he, if_true]
      rcases List.mem_cons.mp hl with rfl | hl
      · omega
      · refine ih _ hl ?_
        rw [withLeg_version]
        split <;> omega
    · simp [he]

/-- When every account is at its expected version, the loop ends exactly when no account has two
legs: the first leg on an account makes the second one stale. -/
theorem postLegs_guarded_ok_iff (exp : AccountId → Nat) (legs : List (PostedLeg C))
    (eng : JournalEngine C SHARDS) (hv : ∀ l ∈ legs, eng.version l.account = exp l.account) :
    (postLegs (some exp) legs eng).1 = .ok () ↔ (legs.map (·.account)).Nodup := by
  induction legs generalizing eng with
  | nil => simp [postLegs]
  | cons leg legs ih =>
    have he : exp leg.account = eng.version leg.account := (hv leg List.mem_cons_self).symm
    simp only [postLegs, postLeg_eq, Option.mem_some_iff, forall_eq', he, if_true, List.map_cons,
      List.nodup_cons]
    by_cases hm : leg.account ∈ legs.map (·.account)
    · obtain ⟨l, hl, hla⟩ := List.mem_map.mp hm
      have hstale := postLegs_stale exp legs (eng.withLeg leg) l hl (by
        rw [withLeg_version, if_pos hla, hla]; omega)
      simp only [hm, not_true_eq_false, false_and, iff_false]
      exact hstale
    · rw [ih (eng.withLeg leg) fun l hl => ?_]
      · simp [hm]
      · have hne : l.account ≠ leg.account := fun h => hm (List.mem_map.mpr ⟨l, hl, h⟩)
        rw [withLeg_version, if_neg hne]
        exact hv l (List.mem_cons_of_mem _ hl)

/-- A loop whose first leg is at the expected version has lengthened that leg's log. -/
theorem postLegs_log_grows (exp : AccountId → Nat) (leg : PostedLeg C) (legs : List (PostedLeg C))
    (eng : JournalEngine C SHARDS) (hv : eng.version leg.account = exp leg.account) :
    (eng.shards (eng.shardIndex leg.account)).store.log.length <
      ((postLegs (some exp) (leg :: legs) eng).2.shards (eng.shardIndex leg.account)).store.log.length := by
  simp only [postLegs, postLeg_eq, Option.mem_some_iff, forall_eq', hv, if_true]
  have hp := (postLegs_log (some exp) legs (eng.withLeg leg) (eng.shardIndex leg.account)).length_le
  rw [withLeg_log, if_pos rfl, List.length_append, List.length_singleton] at hp
  omega

/-! ## All or nothing -/

/-- Log, versions and balances are the same on every shard. -/
def Unchanged (eng eng' : JournalEngine C SHARDS) : Prop :=
  ∀ i, (eng'.shards i).store.log = (eng.shards i).store.log ∧
    ∀ a, (eng'.shards i).store.version a = (eng.shards i).store.version a ∧
      (eng'.shards i).balances a = (eng.shards i).balances a

/-- The posting returns, with every entry posted as one leg or with nothing changed. -/
def AllOrNothing (eng : JournalEngine C SHARDS) (id : TransactionId) (entries : List (LedgerEntry C))
    (period memo : String) (expected : AccountId → Nat) : Prop :=
  match eng.postTransactionGuarded id entries period memo expected with
  | none => False
  | some (.ok _, eng') => Posted eng eng' (entries.map (leg ⟨id, entries⟩ period memo))
  | some (.error _, eng') => Unchanged eng eng'

theorem unchanged_refl (eng : JournalEngine C SHARDS) : Unchanged eng eng :=
  fun _ => ⟨rfl, fun _ => ⟨rfl, rfl⟩⟩

/-- The loop alone: with at least one leg and every account at its expected version, it is all or
nothing exactly when no account has two legs. -/
theorem postLegs_allOrNothing_iff (exp : AccountId → Nat) (legs : List (PostedLeg C))
    (eng : JournalEngine C SHARDS) (hne : legs ≠ [])
    (hv : ∀ l ∈ legs, eng.version l.account = exp l.account) :
    ((postLegs (some exp) legs eng).1 = .ok () ∨ Unchanged eng (postLegs (some exp) legs eng).2) ↔
      (legs.map (·.account)).Nodup := by
  rw [← postLegs_guarded_ok_iff exp legs eng hv]
  refine ⟨fun h => h.elim id fun hu => ?_, Or.inl⟩
  obtain ⟨leg, rest, rfl⟩ := List.exists_cons_of_ne_nil hne
  have hg := postLegs_log_grows exp leg rest eng (hv leg List.mem_cons_self)
  rw [(hu _).1] at hg
  omega

/-- A guarded posting that is valid, locks its shards, finds the period open and every version as
expected comes down to the loop. -/
theorem allOrNothing_of_checked (eng : JournalEngine C SHARDS) (id : TransactionId)
    (entries : List (LedgerEntry C)) (period memo : String) (expected : AccountId → Nat)
    (hval : (⟨id, entries⟩ : Transaction C).validate = .ok ()) (hlock : (eng.lockSequence entries).Nodup)
    (hopen : eng.periodIsClosed period = false)
    (hver : ∀ e ∈ entries, eng.version e.account = expected e.account) :
    AllOrNothing eng id entries period memo expected ↔ (entries.map (·.account)).Nodup := by
  have hne : entries.map (leg ⟨id, entries⟩ period memo) ≠ [] := by
    have := ((⟨id, entries⟩ : Transaction C).validate_ok_iff.mp hval).1
    rintro h
    rw [List.map_eq_nil_iff] at h
    simp [h] at this
  have hv : ∀ l ∈ entries.map (leg ⟨id, entries⟩ period memo),
      eng.version l.account = expected l.account := by
    intro l hl
    obtain ⟨e, he, rfl⟩ := List.mem_map.mp hl
    exact hver e he
  have hmap : (entries.map (leg ⟨id, entries⟩ period memo)).map (·.account) = entries.map (·.account) := by
    rw [List.map_map]; rfl
  rw [← hmap, ← postLegs_allOrNothing_iff expected _ eng hne hv]
  have hposted := postLegs_posted (some expected) (entries.map (leg ⟨id, entries⟩ period memo)) eng
  have hcheck := (checkVersions_accounts eng expected entries).mpr hver
  simp only [AllOrNothing, postTransactionGuarded, post, hval, postSync, hlock, not_true_eq_false,
    if_false, hopen, Bool.false_eq_true, Option.elim_some, hcheck]
  generalize postLegs (some expected) (entries.map (leg ⟨id, entries⟩ period memo)) eng = r at hposted ⊢
  obtain ⟨res, eng'⟩ := r
  cases res with
  | error e => simp [Except.map]
  | ok u => simpa [Except.map] using hposted

/-- A new engine whose accounts are spread over 64 shards. -/
def demoEngine : JournalEngine Usd 64 :=
  new (fun a => mod64 a.uuid) .new false

/-- A balanced posting with two lines on account 1. -/
def twoLinesOneAccount : List (LedgerEntry Usd) :=
  [⟨⟨1⟩, .debit, 5⟩, ⟨⟨1⟩, .debit, 5⟩, ⟨⟨2⟩, .credit, 10⟩]

end TptErp.Gl.JournalEngine
