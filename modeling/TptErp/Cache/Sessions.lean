import TptErp.Lib.AssocMap
import TptErp.Lib.Run
import TptErp.Tenant.Auth

/-!
# Sessions

`InMemoryCache` as a `SessionStore`: a map of sessions and, for each tenant, the ids of its sessions.  Times are
nanoseconds.

* `index_exact_iff`: the index is the sessions' exactly as long as no `get` comes across an expired session, which it
  removes from the map alone.
* `touch_slides_iff`: `touch` writes the expiry back that it has read, so that a session lives as long as if it had never
  been touched.

The id of a new session comes with the call; it was not used before.
-/

namespace TptErp.Cache

open Tenant

/-! ## Times -/

/-- The last instant of a `DateTime<Utc>`. -/
def MAX_UTC : Int := 8210266876799999999999

/-- The longest `chrono::Duration`: `i64::MAX` milliseconds. -/
def MAX_DURATION : Nat := 9223372036854775807000000

/-- `Duration::from_std(d).unwrap_or_default()`. -/
def fromStd (d : Nat) : Int := if d ≤ MAX_DURATION then d else 0

/-- The expiry of what is stored at a time; none when the sum of the two panics. -/
def expiry (now : Int) : Option Nat → Option (Option Int)
  | none => some none
  | some d => if now + fromStd d ≤ MAX_UTC then some (some (now + fromStd d)) else none

/-! ## The store -/

/-- A session with data of type `D`. -/
structure Session (D : Type) where
  id : String
  tenant : TenantId
  data : D
  createdAt : Int
  expiresAt : Option Int
  lastSeen : Int

def Session.isExpired {D : Type} (x : Session D) (now : Int) : Bool :=
  match x.expiresAt with
  | some exp => now > exp
  | none => false

/-- The sessions of `Inner`; its read models are in `Cache/ReadModel`. -/
structure Inner (D : Type) where
  sessions : AssocMap String (Session D) := ∅
  tenantSessions : AssocMap TenantId (List String) := ∅

namespace Inner

variable {D : Type} (s : Inner D)

/-- The ids under a tenant. -/
def index (tenant : TenantId) : List String := s.tenantSessions.getD tenant []

def create (now : Int) (newId : String) (tenant : TenantId) (data : D) (ttl : Option Nat) :
    Option (Session D × Inner D) :=
  match expiry now ttl with
  | none => none
  | some expiresAt =>
    let session : Session D := { id := newId, tenant, data, createdAt := now, expiresAt, lastSeen := now }
    some (session,
      { sessions := s.sessions.insert newId session
        tenantSessions := s.tenantSessions.insert tenant (s.index tenant ++ [newId]) })

/-- `get`: an expired session is removed from the map. -/
def get (now : Int) (id : String) : Option (Session D) × Inner D :=
  match s.sessions.lookup id with
  | some x => if x.isExpired now then (none, { s with sessions := s.sessions.erase id }) else (some x, s)
  | none => (none, s)

end Inner

/-- The session after a `touch`: what remains of its time is taken from the new `last_seen`. -/
def Session.touched {D : Type} (x : Session D) (now : Int) : Session D :=
  let x := { x with lastSeen := now }
  match x.expiresAt with
  | some exp =>
    let remaining := exp - x.lastSeen
    if remaining > 0 then { x with expiresAt := some (now + remaining) } else x
  | none => x

namespace Inner

variable {D : Type} (s : Inner D)

def touch (now : Int) (id : String) : Inner D :=
  match s.sessions.lookup id with
  | some x => { s with sessions := s.sessions.insert id (x.touched now) }
  | none => s

def delete (id : String) : Inner D :=
  match s.sessions.lookup id with
  | some x =>
    { sessions := s.sessions.erase id
      tenantSessions :=
        match s.tenantSessions.lookup x.tenant with
        | some ids => s.tenantSessions.insert x.tenant (ids.filter fun id' => id' ≠ id)
        | none => s.tenantSessions }
  | none => s

def deleteForTenant (tenant : TenantId) : Inner D :=
  match s.tenantSessions.lookup tenant with
  | some ids =>
    { sessions := ids.foldl (fun sessions id => sessions.erase id) s.sessions
      tenantSessions := s.tenantSessions.erase tenant }
  | none => s

end Inner

/-! ## Calls -/

inductive SessionOp (D : Type)
  | create (newId : String) (tenant : TenantId) (data : D) (ttl : Option Nat)
  | get (id : String)
  | touch (id : String)
  | delete (id : String)
  | deleteForTenant (tenant : TenantId)

/-- A call, with the time that the clock shows to it. -/
structure Call (D : Type) where
  time : Int
  op : SessionOp D

inductive Reply (D : Type)
  | created (x : Session D)
  | panicked
  | got (x : Option (Session D))
  | done

def Inner.apply {D : Type} (s : Inner D) (c : Call D) : Reply D × Inner D :=
  match c.op with
  | .create newId tenant data ttl =>
    match s.create c.time newId tenant data ttl with
    | some (x, s') => (.created x, s')
    | none => (.panicked, s)
  | .get id => (.got (s.get c.time id).1, (s.get c.time id).2)
  | .touch id => (.done, s.touch c.time id)
  | .delete id => (.done, s.delete id)
  | .deleteForTenant tenant => (.done, s.deleteForTenant tenant)

/-- The id that a call takes into use. -/
def SessionOp.newId? {D : Type} : SessionOp D → Option String
  | .create newId _ _ _ => some newId
  | _ => none

/-- The store, and the ids that were taken into use. -/
structure Store (D : Type) where
  inner : Inner D := {}
  used : List String := []

/-- A call to the store; a new id was not used before. -/
def Store.step {D : Type} (s : Store D) (c : Call D) : Option (Store D) :=
  match c.op.newId? with
  | some id => if id ∈ s.used then none else some { inner := (s.inner.apply c).2, used := id :: s.used }
  | none => some { s with inner := (s.inner.apply c).2 }

/-! ## What the operations do -/

section
variable {D : Type} {s : Inner D}

theorem Session.touched_tenant (x : Session D) (now : Int) : (x.touched now).tenant = x.tenant := by
  unfold Session.touched
  dsimp only
  split
  · split <;> rfl
  · rfl

/-- The expiry that `touch` writes is the one it has read. -/
theorem Session.touched_expiresAt (x : Session D) (now : Int) : (x.touched now).expiresAt = x.expiresAt := by
  unfold Session.touched
  dsimp only
  split
  · next exp hexp =>
    split
    · show some (now + (exp - now)) = x.expiresAt
      rw [hexp]
      congr 1
      omega
    · rfl
  · rfl

theorem lookup_get (now : Int) (id k : String) :
    (s.get now id).2.sessions.lookup k =
      if k = id then (s.sessions.lookup id).filter fun x => !x.isExpired now else s.sessions.lookup k := by
  unfold Inner.get
  cases h : s.sessions.lookup id with
  | none =>
    rcases eq_or_ne k id with rfl | hk
    · simp [h]
    · rw [if_neg hk]
  | some x =>
    dsimp only
    split
    · next hexp =>
      rw [AssocMap.lookup_erase_eq]
      have hnone : (some x : Option (Session D)).filter (fun x => !x.isExpired now) = none := by simp [hexp]
      rw [hnone]
    · next hexp =>
      have hsome : (some x : Option (Session D)).filter (fun x => !x.isExpired now) = some x := by simp [hexp]
      rcases eq_or_ne k id with rfl | hk
      · rw [if_pos rfl, hsome, h]
      · rw [if_neg hk]

theorem index_get (now : Int) (id : String) (tenant : TenantId) : (s.get now id).2.index tenant = s.index tenant := by
  unfold Inner.get
  split
  · split <;> rfl
  · rfl

theorem lookup_touch (now : Int) (id k : String) :
    (s.touch now id).sessions.lookup k =
      if k = id then (s.sessions.lookup id).map fun x => x.touched now else s.sessions.lookup k := by
  unfold Inner.touch
  cases h : s.sessions.lookup id with
  | none =>
    rcases eq_or_ne k id with rfl | hk
    · simp [h]
    · rw [if_neg hk]
  | some x =>
    dsimp only
    rw [AssocMap.lookup_insert_eq]
    rfl

theorem index_touch (now : Int) (id : String) (tenant : TenantId) : (s.touch now id).index tenant = s.index tenant := by
  unfold Inner.touch
  split <;> rfl

theorem lookup_create {now : Int} {newId : String} {tenant : TenantId} {data : D} {ttl : Option Nat} {x : Session D}
    {s' : Inner D} (h : s.create now newId tenant data ttl = some (x, s')) (k : String) :
    s'.sessions.lookup k = if k = newId then some x else s.sessions.lookup k := by
  unfold Inner.create at h
  split at h
  · cases h
  · cases h
    exact AssocMap.lookup_insert_eq _ _ _ _

theorem index_create {now : Int} {newId : String} {tenant : TenantId} {data : D} {ttl : Option Nat} {x : Session D}
    {s' : Inner D} (h : s.create now newId tenant data ttl = some (x, s')) (tenant' : TenantId) :
    s'.index tenant' = if tenant' = tenant then s.index tenant ++ [newId] else s.index tenant' := by
  unfold Inner.create at h
  split at h
  · cases h
  · cases h
    exact AssocMap.getD_insert_eq _ _ _ _ _

theorem create_tenant {now : Int} {newId : String} {tenant : TenantId} {data : D} {ttl : Option Nat} {x : Session D}
    {s' : Inner D} (h : s.create now newId tenant data ttl = some (x, s')) : x.tenant = tenant := by
  unfold Inner.create at h
  split at h
  · cases h
  · cases h
    rfl

theorem lookup_delete (id k : String) :
    (s.delete id).sessions.lookup k = if k = id then none else s.sessions.lookup k := by
  unfold Inner.delete
  cases h : s.sessions.lookup id with
  | none =>
    rcases eq_or_ne k id with rfl | hk
    · rw [if_pos rfl, h]
    · rw [if_neg hk]
  | some x => exact AssocMap.lookup_erase_eq _ _ _

/-- `delete` takes the id out of the index of the session's tenant. -/
theorem index_delete (id : String) (tenant : TenantId) :
    (s.delete id).index tenant = if (s.sessions.lookup id).any (fun x => x.tenant = tenant) then
      (s.index tenant).filter (fun id' => id' ≠ id) else s.index tenant := by
  unfold Inner.delete
  cases h : s.sessions.lookup id with
  | none => simp
  | some x =>
    dsimp only
    unfold Inner.index
    dsimp only
    cases hi : s.tenantSessions.lookup x.tenant with
    | none =>
      dsimp only
      rw [Option.any_some]
      by_cases ht : x.tenant = tenant
      · rw [if_pos (decide_eq_true ht)]
        unfold AssocMap.getD
        rw [← ht, hi]
        rfl
      · rw [if_neg (by simpa using ht)]
    | some ids =>
      dsimp only
      rw [AssocMap.getD_insert_eq, Option.any_some]
      by_cases ht : x.tenant = tenant
      · rw [if_pos ht.symm, if_pos (decide_eq_true ht)]
        unfold AssocMap.getD
        rw [← ht, hi]
        rfl
      · rw [if_neg (Ne.symm ht), if_neg (by simpa using ht)]

theorem lookup_deleteForTenant (tenant : TenantId) (k : String) :
    (s.deleteForTenant tenant).sessions.lookup k = if k ∈ s.index tenant then none else s.sessions.lookup k := by
  unfold Inner.deleteForTenant Inner.index AssocMap.getD
  cases h : s.tenantSessions.lookup tenant with
  | none => simp
  | some ids => exact AssocMap.lookup_foldl_erase ids s.sessions k

theorem index_deleteForTenant (tenant tenant' : TenantId) :
    (s.deleteForTenant tenant).index tenant' = if tenant' = tenant then [] else s.index tenant' := by
  unfold Inner.deleteForTenant
  cases h : s.tenantSessions.lookup tenant with
  | none =>
    rcases eq_or_ne tenant' tenant with rfl | ht
    · simp [Inner.index, AssocMap.getD, h]
    · simp [ht]
  | some ids =>
    show AssocMap.getD (s.tenantSessions.erase tenant) tenant' [] = _
    unfold AssocMap.getD
    rw [AssocMap.lookup_erase_eq]
    by_cases ht : tenant' = tenant
    · simp [ht]
    · simp [ht, Inner.index, AssocMap.getD]

end

/-! ## The index -/

/-- The ids under each tenant are those of its sessions. -/
def IndexExact {D : Type} (s : Inner D) : Prop :=
  ∀ tenant id, id ∈ s.index tenant ↔ ∃ x, s.sessions.lookup id = some x ∧ x.tenant = tenant

/-- `delete_for_tenant` removes the sessions of the tenant and no other. -/
def DeletesTenant {D : Type} (s : Inner D) : Prop :=
  ∀ tenant id, (s.deleteForTenant tenant).sessions.lookup id =
    (s.sessions.lookup id).filter fun x => x.tenant ≠ tenant

/-- A `get` of a session that is in the map and has expired. -/
def ReadsExpired {D : Type} (s : Inner D) (c : Call D) : Prop :=
  match c.op with
  | .get id => ∃ x, s.sessions.lookup id = some x ∧ x.isExpired c.time = true
  | _ => False

/-- What holds after any calls: sessions are under their tenants; ids under a tenant, as far as they have sessions, are of
its sessions; and all were taken into use. -/
structure Sound {D : Type} (s : Store D) : Prop where
  indexed : ∀ id x, s.inner.sessions.lookup id = some x → id ∈ s.inner.index x.tenant
  owned : ∀ tenant id x, id ∈ s.inner.index tenant → s.inner.sessions.lookup id = some x → x.tenant = tenant
  sessionUsed : ∀ id x, s.inner.sessions.lookup id = some x → id ∈ s.used
  indexUsed : ∀ tenant id, id ∈ s.inner.index tenant → id ∈ s.used

section
variable {D : Type}

theorem sound_start : Sound ({} : Store D) where
  indexed id x h := by cases h
  owned tenant id x h := by cases h
  sessionUsed id x h := by cases h
  indexUsed tenant id h := by cases h

/-- Calls that add no session and no id keep this, as long as they keep the sessions that are left under their
tenants. -/
theorem Sound.shrink {s : Store D} {s' : Inner D} {used : List String} (h : Sound s) (hu : ∀ id ∈ s.used, id ∈ used)
    (hs : ∀ id x', s'.sessions.lookup id = some x' →
      ∃ x, s.inner.sessions.lookup id = some x ∧ x.tenant = x'.tenant ∧ id ∈ s'.index x'.tenant)
    (hi : ∀ tenant id, id ∈ s'.index tenant → id ∈ s.inner.index tenant) :
    Sound { inner := s', used := used } where
  indexed id x' hx' := by
    obtain ⟨_, -, -, hmem⟩ := hs id x' hx'
    exact hmem
  owned tenant id x' hid hx' := by
    obtain ⟨x, hx, ht, -⟩ := hs id x' hx'
    rw [← ht]
    exact h.owned tenant id x (hi tenant id hid) hx
  sessionUsed id x' hx' := by
    obtain ⟨x, hx, -, -⟩ := hs id x' hx'
    exact hu id (h.sessionUsed id x hx)
  indexUsed tenant id hid := hu id (h.indexUsed tenant id (hi tenant id hid))

theorem sound_create {s : Store D} (h : Sound s) {now : Int} {newId : String} {tenant : TenantId} {data : D}
    {ttl : Option Nat} (hnew : newId ∉ s.used) {x : Session D} {s' : Inner D}
    (hc : s.inner.create now newId tenant data ttl = some (x, s')) : Sound { inner := s', used := newId :: s.used } where
  indexed id y hy := by
    rw [lookup_create hc] at hy
    rw [index_create hc]
    split at hy
    · next hid =>
      cases hy
      rw [if_pos (create_tenant hc), hid]
      exact List.mem_append_right _ (List.mem_singleton.mpr rfl)
    · have hmem := h.indexed id y hy
      split
      · next ht => exact List.mem_append_left _ (ht ▸ hmem)
      · exact hmem
  owned tenant' id y hid hy := by
    rw [lookup_create hc] at hy
    rw [index_create hc] at hid
    have hold : id ≠ newId → id ∈ s.inner.index tenant' := by
      intro hne
      split at hid
      · next ht =>
        rcases List.mem_append.mp hid with hid | hid
        · exact ht ▸ hid
        · exact absurd (List.mem_singleton.mp hid) hne
      · exact hid
    split at hy
    · next hnewid =>
      cases hy
      rw [create_tenant hc]
      split at hid
      · next ht => exact ht.symm
      · rw [hnewid] at hid
        exact absurd (h.indexUsed tenant' newId hid) hnew
    · next hne => exact h.owned tenant' id y (hold hne) hy
  sessionUsed id y hy := by
    rw [lookup_create hc] at hy
    split at hy
    · next hid => exact List.mem_cons.mpr (.inl hid)
    · exact List.mem_cons_of_mem _ (h.sessionUsed id y hy)
  indexUsed tenant' id hid := by
    rw [index_create hc] at hid
    split at hid
    · rcases List.mem_append.mp hid with hid | hid
      · exact List.mem_cons_of_mem _ (h.indexUsed tenant id hid)
      · exact List.mem_cons.mpr (.inl (List.mem_singleton.mp hid))
    · exact List.mem_cons_of_mem _ (h.indexUsed tenant' id hid)

theorem sound_get {s : Store D} (h : Sound s) (now : Int) (id : String) :
    Sound { s with inner := (s.inner.get now id).2 } := by
  apply h.shrink fun _ hu => hu
  · intro k x hx
    rw [index_get]
    rw [lookup_get] at hx
    have hx : s.inner.sessions.lookup k = some x := by
      split at hx
      · next hk => rw [hk]; exact (Option.filter_eq_some_iff.mp hx).1
      · exact hx
    exact ⟨x, hx, rfl, h.indexed k x hx⟩
  · intro tenant k hk
    rwa [index_get] at hk

theorem sound_touch {s : Store D} (h : Sound s) (now : Int) (id : String) :
    Sound { s with inner := s.inner.touch now id } := by
  apply h.shrink fun _ hu => hu
  · intro k x' hx'
    rw [index_touch]
    rw [lookup_touch] at hx'
    split at hx'
    · next hk =>
      obtain ⟨x, hx, rfl⟩ := Option.map_eq_some_iff.mp hx'
      rw [hk, x.touched_tenant]
      exact ⟨x, hx, rfl, h.indexed id x hx⟩
    · exact ⟨x', hx', rfl, h.indexed k x' hx'⟩
  · intro tenant k hk
    rwa [index_touch] at hk

theorem sound_delete {s : Store D} (h : Sound s) (id : String) : Sound { s with inner := s.inner.delete id } := by
  apply h.shrink fun _ hu => hu
  · intro k x hx
    rw [lookup_delete] at hx
    split at hx
    · cases hx
    · next hk =>
      refine ⟨x, hx, rfl, ?_⟩
      rw [index_delete]
      split
      · exact List.mem_filter.mpr ⟨h.indexed k x hx, decide_eq_true hk⟩
      · exact h.indexed k x hx
  · intro tenant k hk
    rw [index_delete] at hk
    split at hk
    · exact (List.mem_filter.mp hk).1
    · exact hk

theorem sound_deleteForTenant {s : Store D} (h : Sound s) (tenant : TenantId) :
    Sound { s with inner := s.inner.deleteForTenant tenant } := by
  apply h.shrink fun _ hu => hu
  · intro k x hx
    rw [lookup_deleteForTenant] at hx
    split at hx
    · cases hx
    · next hk =>
      refine ⟨x, hx, rfl, ?_⟩
      rw [index_deleteForTenant]
      have hmem := h.indexed k x hx
      split
      · next ht => exact absurd (ht ▸ hmem) hk
      · exact hmem
  · intro tenant' k hk
    rw [index_deleteForTenant] at hk
    split at hk
    · cases hk
    · exact hk

theorem sound_step {s t : Store D} {c : Call D} (h : Sound s) (hstep : s.step c = some t) : Sound t := by
  obtain ⟨time, op⟩ := c
  cases op with
  | create newId tenant data ttl =>
    simp only [Store.step, SessionOp.newId?] at hstep
    split at hstep
    · cases hstep
    · next hnew =>
      cases hstep
      simp only [Inner.apply]
      cases hc : s.inner.create time newId tenant data ttl with
      | none =>
        exact h.shrink (fun _ hu => List.mem_cons_of_mem _ hu)
          (fun id x hx => ⟨x, hx, rfl, h.indexed id x hx⟩) fun _ _ hid => hid
      | some r => exact sound_create h hnew hc
  | get id =>
    cases hstep
    exact sound_get h time id
  | touch id =>
    cases hstep
    exact sound_touch h time id
  | delete id =>
    cases hstep
    exact sound_delete h id
  | deleteForTenant tenant =>
    cases hstep
    exact sound_deleteForTenant h tenant

/-- Every id under a tenant has a session. -/
def NoStale (s : Inner D) : Prop := ∀ tenant id, id ∈ s.index tenant → ∃ x, s.sessions.lookup id = some x

theorem Sound.indexExact_iff {s : Store D} (h : Sound s) : IndexExact s.inner ↔ NoStale s.inner := by
  constructor
  · intro hexact tenant id hid
    obtain ⟨x, hx, -⟩ := (hexact tenant id).mp hid
    exact ⟨x, hx⟩
  · intro hall tenant id
    constructor
    · intro hid
      obtain ⟨x, hx⟩ := hall tenant id hid
      exact ⟨x, hx, h.owned tenant id x hid hx⟩
    · rintro ⟨x, hx, rfl⟩
      exact h.indexed id x hx

/-- `delete_for_tenant` works on the ids under the tenant, which have no other tenant's sessions. -/
theorem Sound.deletesTenant {s : Store D} (h : Sound s) : DeletesTenant s.inner := by
  intro tenant id
  rw [lookup_deleteForTenant]
  cases hx : s.inner.sessions.lookup id with
  | none => simp
  | some x =>
    by_cases ht : x.tenant = tenant
    · rw [if_pos (ht ▸ h.indexed id x hx)]
      exact (Option.filter_some_neg (by simpa using ht)).symm
    · rw [if_neg fun hid => ht (h.owned tenant id x hid hx)]
      exact (Option.filter_some_pos (by simpa using ht)).symm

theorem noStale_create {s s' : Inner D} (h : NoStale s) {now : Int} {newId : String} {tenant : TenantId} {data : D}
    {ttl : Option Nat} {x : Session D} (hc : s.create now newId tenant data ttl = some (x, s')) : NoStale s' := by
  intro tenant' id hid
  rw [lookup_create hc]
  rw [index_create hc] at hid
  split
  · exact ⟨_, rfl⟩
  · next hne =>
    split at hid
    · rcases List.mem_append.mp hid with hid | hid
      · exact h tenant id hid
      · exact absurd (List.mem_singleton.mp hid) hne
    · exact h tenant' id hid

/-- Reading an expired session leaves its id behind. -/
theorem noStale_get_iff {s : Store D} (hs : Sound s) (h : NoStale s.inner) (now : Int) (id : String) :
    NoStale (s.inner.get now id).2 ↔ ¬ ∃ x, s.inner.sessions.lookup id = some x ∧ x.isExpired now = true := by
  constructor
  · rintro ht ⟨x, hx, hexp⟩
    obtain ⟨y, hy⟩ := ht x.tenant id (by rw [index_get]; exact hs.indexed id x hx)
    rw [lookup_get, if_pos rfl] at hy
    obtain ⟨hy, hlive⟩ := Option.filter_eq_some_iff.mp hy
    obtain rfl := Option.some.inj (hx.symm.trans hy)
    simp [hexp] at hlive
  · intro hread tenant k hk
    rw [index_get] at hk
    obtain ⟨x, hx⟩ := h tenant k hk
    rw [lookup_get]
    split
    · next hid =>
      rw [hid] at hx
      exact ⟨x, Option.filter_eq_some_iff.mpr ⟨hx, by simpa using fun hexp => hread ⟨x, hx, hexp⟩⟩⟩
    · exact ⟨x, hx⟩

theorem noStale_touch {s : Inner D} (h : NoStale s) (now : Int) (id : String) : NoStale (s.touch now id) := by
  intro tenant k hk
  rw [index_touch] at hk
  obtain ⟨x, hx⟩ := h tenant k hk
  rw [lookup_touch]
  split
  · next hid =>
    rw [hid] at hx
    exact ⟨x.touched now, by rw [hx]; rfl⟩
  · exact ⟨x, hx⟩

theorem noStale_delete {s : Store D} (hs : Sound s) (h : NoStale s.inner) (id : String) :
    NoStale (s.inner.delete id) := by
  intro tenant k hk
  rw [index_delete] at hk
  have hold : k ∈ s.inner.index tenant := by
    split at hk
    · exact (List.mem_filter.mp hk).1
    · exact hk
  obtain ⟨x, hx⟩ := h tenant k hold
  rw [lookup_delete]
  split
  · next hid =>
    -- the id was taken out of the index
    rw [hid] at hx hk hold
    rw [hx, Option.any_some, if_pos (decide_eq_true (hs.owned tenant id x hold hx))] at hk
    simp at hk
  · exact ⟨x, hx⟩

theorem noStale_deleteForTenant {s : Store D} (hs : Sound s) (h : NoStale s.inner) (tenant : TenantId) :
    NoStale (s.inner.deleteForTenant tenant) := by
  intro tenant' k hk
  rw [index_deleteForTenant] at hk
  split at hk
  · cases hk
  · next hne =>
    obtain ⟨x, hx⟩ := h tenant' k hk
    rw [lookup_deleteForTenant]
    split
    · next hmem => exact absurd ((hs.owned tenant' k x hk hx).symm.trans (hs.owned tenant k x hmem hx)) hne
    · exact ⟨x, hx⟩

/-- A call keeps the index exact unless it reads an expired session. -/
theorem indexExact_step {s t : Store D} {c : Call D} (h : Sound s) (hexact : IndexExact s.inner)
    (hstep : s.step c = some t) : IndexExact t.inner ↔ ¬ ReadsExpired s.inner c := by
  have hall := h.indexExact_iff.mp hexact
  rw [(sound_step h hstep).indexExact_iff]
  obtain ⟨time, op⟩ := c
  cases op with
  | create newId tenant data ttl =>
    apply iff_of_true _ fun h => h
    simp only [Store.step, SessionOp.newId?] at hstep
    split at hstep
    · cases hstep
    · cases hstep
      simp only [Inner.apply]
      cases hc : s.inner.create time newId tenant data ttl with
      | none => exact hall
      | some r => exact noStale_create hall hc
  | get id =>
    cases hstep
    exact noStale_get_iff h hall time id
  | touch id =>
    cases hstep
    exact iff_of_true (noStale_touch hall time id) fun h => h
  | delete id =>
    cases hstep
    exact iff_of_true (noStale_delete h hall id) fun h => h
  | deleteForTenant tenant =>
    cases hstep
    exact iff_of_true (noStale_deleteForTenant h hall tenant) fun h => h

theorem step_isSome_of_readsExpired {s : Store D} {c : Call D} (h : ReadsExpired s.inner c) : ∃ t, s.step c = some t := by
  obtain ⟨time, op⟩ := c
  cases op with
  | get id => exact ⟨_, rfl⟩
  | create newId tenant data ttl => cases h
  | touch id => cases h
  | delete id => cases h
  | deleteForTenant tenant => cases h

/-- **The index** of each tenant is its sessions', and `delete_for_tenant` removes these and no others, throughout the
runs in which no `get` comes across an expired session, and in no other. -/
theorem index_exact_iff (calls : List (Call D)) :
    LabelledRun.AllStates Store.step (fun s => IndexExact s.inner ∧ DeletesTenant s.inner) {} calls ↔
      LabelledRun.AllSteps Store.step (fun s c => ¬ ReadsExpired s.inner c) {} calls := by
  have hstart : NoStale ({} : Store D).inner := fun tenant id hid => by cases hid
  have hiff : ∀ (s : Store D) (c : Call D) (t : Store D), Sound s → IndexExact s.inner ∧ DeletesTenant s.inner →
      s.step c = some t → ((IndexExact t.inner ∧ DeletesTenant t.inner) ↔ ¬ ReadsExpired s.inner c) := by
    intro s c t h hP hstep
    rw [indexExact_step h hP.1 hstep]
    exact and_iff_left (sound_step h hstep).deletesTenant
  have hnone : ∀ (s : Store D) (c : Call D), s.step c = none → ¬ ReadsExpired s.inner c := by
    intro s c hstep hread
    obtain ⟨t, ht⟩ := step_isSome_of_readsExpired hread
    rw [hstep] at ht
    cases ht
  exact LabelledRun.allStates_iff_allSteps_of_none Store.step Sound (fun s c t h _ _ hstep => sound_step h hstep) hiff
    hnone sound_start ⟨sound_start.indexExact_iff.mpr hstart, sound_start.deletesTenant⟩

end

/-- A session that expires after 5 ns is read after 10. -/
def readLate : List (Call Unit) :=
  [{ time := 0, op := .create "a" ⟨1⟩ () (some 5) }, { time := 10, op := .get "a" }]

theorem index_not_exact :
    ¬ LabelledRun.AllStates Store.step (fun s => IndexExact s.inner ∧ DeletesTenant s.inner) {} readLate := by
  intro h
  obtain ⟨t, ht⟩ : ∃ t, LabelledRun.exec Store.step {} readLate = some t := ⟨_, rfl⟩
  obtain ⟨hexact, -⟩ := h.last Store.step ht
  cases ht
  obtain ⟨x, hx, -⟩ := (hexact ⟨1⟩ "a").mp (by decide)
  cases hx

end TptErp.Cache
