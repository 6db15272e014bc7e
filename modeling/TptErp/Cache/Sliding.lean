import TptErp.Cache.Sessions

/-!
# Sliding expiry

A session is created at `c` with time-to-live `d`, last touched at `t`, and read at `u`.  `touch` slides the expiry when
the session lives up to `t + d`; what decides is `c + d`:

    get at u finds the session ↔ u ≤ c + d        (get_isSome_iff)
-/

namespace TptErp.Cache

open Tenant

variable {D : Type}

/-- A call that deletes a session of a tenant. -/
def Call.Deletes (call : Call D) (id : String) (tenant : TenantId) : Prop :=
  match call.op with
  | .delete id' => id' = id
  | .deleteForTenant tenant' => tenant' = tenant
  | _ => False

/-- A run in which a session is created and touched. -/
structure Touched (D : Type) where
  before : List (Call D)
  between : List (Call D)
  after : List (Call D)
  id : String
  tenant : TenantId
  data : D
  ttl : Nat
  created : Int
  touched : Int

namespace Touched

variable (r : Touched D)

/-- The calls after the one that creates the session. -/
def rest : List (Call D) := r.between ++ { time := r.touched, op := .touch r.id } :: r.after

def calls : List (Call D) :=
  r.before ++ { time := r.created, op := .create r.id r.tenant r.data (some r.ttl) } :: r.rest

/-- The clock does not go back, up to a time `u`; the expiry is in the range of the time type; the session is not deleted
and has no later touch. -/
structure Valid (u : Int) : Prop where
  clock : (r.calls.map (·.time) ++ [u]).Pairwise (· ≤ ·)
  duration : r.ttl ≤ MAX_DURATION
  range : r.created + r.ttl ≤ MAX_UTC
  kept : ∀ call ∈ r.rest, ¬ call.Deletes r.id r.tenant
  lastTouch : ∀ call ∈ r.after, call.op ≠ .touch r.id

/-- `get` at a time returns the session up to its time-to-live after the touch, and not after that. -/
def SlidesTo (s : Store D) (u : Int) : Prop :=
  (u < r.touched + r.ttl → ∃ x, (s.inner.get u r.id).1 = some x ∧ x.id = r.id) ∧
    (r.touched + r.ttl < u → (s.inner.get u r.id).1 = none)

end Touched

/-! ## Following a session -/

/-- The id is in use, and its session, if it is there, is the tenant's and expires at `e`. -/
structure Tracked (s : Store D) (id : String) (tenant : TenantId) (e : Int) : Prop where
  used : id ∈ s.used
  session : ∀ x, s.inner.sessions.lookup id = some x → x.id = id ∧ x.tenant = tenant ∧ x.expiresAt = some e

theorem Session.touched_id (x : Session D) (now : Int) : (x.touched now).id = x.id := by
  unfold Session.touched
  dsimp only
  split
  · split <;> rfl
  · rfl

theorem tracked_step {s t : Store D} {c : Call D} {id : String} {tenant : TenantId} {e : Int}
    (h : Tracked s id tenant e) (hstep : s.step c = some t) : Tracked t id tenant e := by
  obtain ⟨time, op⟩ := c
  cases op with
  | create newId tenant' data ttl =>
    simp only [Store.step, SessionOp.newId?] at hstep
    split at hstep
    · cases hstep
    · next hnew =>
      cases hstep
      refine ⟨List.mem_cons_of_mem _ h.used, ?_⟩
      simp only [Inner.apply]
      cases hc : s.inner.create time newId tenant' data ttl with
      | none => exact h.session
      | some r =>
        intro x hx
        have hne : id ≠ newId := by
          rintro rfl
          exact hnew h.used
        rw [lookup_create hc, if_neg hne] at hx
        exact h.session x hx
  | get id' =>
    cases hstep
    refine ⟨h.used, fun x hx => h.session x ?_⟩
    replace hx : (s.inner.get time id').2.sessions.lookup id = some x := hx
    rw [lookup_get] at hx
    split at hx
    · next hid =>
      rw [hid]
      exact (Option.filter_eq_some_iff.mp hx).1
    · exact hx
  | touch id' =>
    cases hstep
    refine ⟨h.used, fun x hx => ?_⟩
    replace hx : (s.inner.touch time id').sessions.lookup id = some x := hx
    rw [lookup_touch] at hx
    split at hx
    · next hid =>
      obtain ⟨y, hy, rfl⟩ := Option.map_eq_some_iff.mp hx
      rw [y.touched_id, y.touched_tenant, y.touched_expiresAt]
      exact h.session y (by rw [hid]; exact hy)
    · exact h.session x hx
  | delete id' =>
    cases hstep
    refine ⟨h.used, fun x hx => h.session x ?_⟩
    replace hx : (s.inner.delete id').sessions.lookup id = some x := hx
    rw [lookup_delete] at hx
    split at hx
    · cases hx
    · exact hx
  | deleteForTenant tenant' =>
    cases hstep
    refine ⟨h.used, fun x hx => h.session x ?_⟩
    replace hx : (s.inner.deleteForTenant tenant').sessions.lookup id = some x := hx
    rw [lookup_deleteForTenant] at hx
    split at hx
    · cases hx
    · exact hx

/-- Up to its expiry a session is not lost. -/
theorem present_step {s t : Store D} {c : Call D} {id : String} {tenant : TenantId} {e : Int} (hs : Sound s)
    (h : Tracked s id tenant e) (hx : ∃ x, s.inner.sessions.lookup id = some x) (hkept : ¬ c.Deletes id tenant)
    (htime : c.time ≤ e) (hstep : s.step c = some t) : ∃ x, t.inner.sessions.lookup id = some x := by
  obtain ⟨x, hx⟩ := hx
  obtain ⟨-, htenant, hexp⟩ := h.session x hx
  obtain ⟨time, op⟩ := c
  cases op with
  | create newId tenant' data ttl =>
    simp only [Store.step, SessionOp.newId?] at hstep
    split at hstep
    · cases hstep
    · cases hstep
      simp only [Inner.apply]
      cases hc : s.inner.create time newId tenant' data ttl with
      | none => exact ⟨x, hx⟩
      | some r =>
        rw [lookup_create hc]
        split
        · exact ⟨_, rfl⟩
        · exact ⟨x, hx⟩
  | get id' =>
    cases hstep
    show ∃ x, (s.inner.get time id').2.sessions.lookup id = some x
    rw [lookup_get]
    split
    · next hid =>
      have hlive : x.isExpired time = false := by
        unfold Session.isExpired
        rw [hexp]
        have htime : time ≤ e := htime
        exact decide_eq_false (by omega)
      rw [hid] at hx
      exact ⟨x, Option.filter_eq_some_iff.mpr ⟨hx, by rw [hlive]; rfl⟩⟩
    · exact ⟨x, hx⟩
  | touch id' =>
    cases hstep
    show ∃ x, (s.inner.touch time id').sessions.lookup id = some x
    rw [lookup_touch]
    split
    · next hid =>
      rw [hid] at hx
      exact ⟨x.touched time, by rw [hx]; rfl⟩
    · exact ⟨x, hx⟩
  | delete id' =>
    cases hstep
    show ∃ x, (s.inner.delete id').sessions.lookup id = some x
    rw [lookup_delete, if_neg fun hid => hkept hid.symm]
    exact ⟨x, hx⟩
  | deleteForTenant tenant' =>
    cases hstep
    show ∃ x, (s.inner.deleteForTenant tenant').sessions.lookup id = some x
    rw [lookup_deleteForTenant, if_neg fun hmem => hkept ((hs.owned tenant' id x hmem hx).symm.trans htenant)]
    exact ⟨x, hx⟩

theorem tracked_exec {s t : Store D} {calls : List (Call D)} {id : String} {tenant : TenantId} {e : Int}
    (h : Tracked s id tenant e) (he : LabelledRun.exec Store.step s calls = some t) : Tracked t id tenant e :=
  (LabelledRun.allStates_of_step Store.step (fun _ _ _ => tracked_step) calls h).last Store.step he

theorem present_exec {s t : Store D} {calls : List (Call D)} {id : String} {tenant : TenantId} {e : Int} (hs : Sound s)
    (h : Tracked s id tenant e) (hx : ∃ x, s.inner.sessions.lookup id = some x)
    (hkept : ∀ c ∈ calls, ¬ c.Deletes id tenant) (htime : ∀ c ∈ calls, c.time ≤ e)
    (he : LabelledRun.exec Store.step s calls = some t) : ∃ x, t.inner.sessions.lookup id = some x := by
  induction calls generalizing s with
  | nil => exact Option.some.inj he ▸ hx
  | cons c calls ih =>
    rw [LabelledRun.exec, Option.bind_eq_some_iff] at he
    obtain ⟨v, hv, he⟩ := he
    obtain ⟨hkc, hkept⟩ := List.forall_mem_cons.mp hkept
    obtain ⟨htc, htime⟩ := List.forall_mem_cons.mp htime
    exact ih (sound_step hs hv) (tracked_step h hv) (present_step hs h hx hkc htc hv) hkept htime he

/-! ## What `get` finds -/

theorem sound_exec {s t : Store D} {calls : List (Call D)} (h : Sound s)
    (he : LabelledRun.exec Store.step s calls = some t) : Sound t :=
  (LabelledRun.allStates_of_step Store.step (fun _ _ _ => sound_step) calls h).last Store.step he

/-- A tracked session is found when it is there and has not expired. -/
theorem Tracked.get_eq_some_iff {s : Store D} {id : String} {tenant : TenantId} {e : Int} (h : Tracked s id tenant e)
    (u : Int) : (∃ x, (s.inner.get u id).1 = some x) ↔ (∃ x, s.inner.sessions.lookup id = some x) ∧ u ≤ e := by
  unfold Inner.get
  cases hx : s.inner.sessions.lookup id with
  | none => simp
  | some x =>
    have hexp : x.isExpired u = decide (u > e) := by
      unfold Session.isExpired
      rw [(h.session x hx).2.2]
    dsimp only
    rw [hexp]
    by_cases hu : u ≤ e
    · simp [hu, not_lt.mpr hu]
    · simp [hu, not_le.mp hu]

theorem Tracked.get_id {s : Store D} {id : String} {tenant : TenantId} {e : Int} (h : Tracked s id tenant e)
    {u : Int} {x : Session D} (hx : (s.inner.get u id).1 = some x) : x.id = id := by
  unfold Inner.get at hx
  cases hl : s.inner.sessions.lookup id with
  | none =>
    rw [hl] at hx
    cases hx
  | some y =>
    rw [hl] at hx
    dsimp only at hx
    split at hx
    · cases hx
    · cases hx
      exact (h.session x hl).1

namespace Touched

variable {r : Touched D} {u : Int} {s : Store D}

/-- The session is tracked from its creation on, with the expiry that it was created with. -/
theorem tracked (hr : r.Valid u) (he : LabelledRun.exec Store.step {} r.calls = some s) :
    Tracked s r.id r.tenant (r.created + r.ttl) ∧
      (u ≤ r.created + r.ttl → ∃ x, s.inner.sessions.lookup r.id = some x) := by
  unfold calls at he
  rw [LabelledRun.exec_append, Option.bind_eq_some_iff] at he
  obtain ⟨s₀, hs₀, he⟩ := he
  rw [LabelledRun.exec, Option.bind_eq_some_iff] at he
  obtain ⟨s₁, hs₁, he⟩ := he
  have hsound := sound_step (sound_exec sound_start hs₀) hs₁
  have hexpiry : expiry r.created (some r.ttl) = some (some (r.created + r.ttl)) := by
    have hd : fromStd r.ttl = r.ttl := if_pos hr.duration
    unfold expiry
    dsimp only
    rw [hd]
    exact if_pos hr.range
  simp only [Store.step, SessionOp.newId?] at hs₁
  split at hs₁
  · cases hs₁
  · next hnew =>
    cases hs₁
    simp only [Inner.apply] at he hsound
    obtain ⟨⟨x, s'⟩, hc⟩ : ∃ p, s₀.inner.create r.created r.id r.tenant r.data (some r.ttl) = some p := by
      unfold Inner.create
      rw [hexpiry]
      exact ⟨_, rfl⟩
    rw [hc] at he hsound
    have hx : x.id = r.id ∧ x.tenant = r.tenant ∧ x.expiresAt = some (r.created + r.ttl) := by
      unfold Inner.create at hc
      rw [hexpiry] at hc
      cases hc
      exact ⟨rfl, rfl, rfl⟩
    have hlookup : s'.sessions.lookup r.id = some x := by rw [lookup_create hc, if_pos rfl]
    have htracked : Tracked { inner := s', used := r.id :: s₀.used } r.id r.tenant (r.created + r.ttl) := by
      refine ⟨List.mem_cons_self, fun y hy => ?_⟩
      obtain rfl := Option.some.inj (hlookup.symm.trans hy)
      exact hx
    refine ⟨tracked_exec htracked he, fun hu => ?_⟩
    have htimes : ∀ call ∈ r.rest, call.time ≤ r.created + r.ttl := by
      intro call hcall
      have hmem : call.time ∈ r.calls.map (·.time) :=
        List.mem_map_of_mem (List.mem_append_right _ (List.mem_cons_of_mem _ hcall))
      have := (List.pairwise_append.mp hr.clock).2.2 _ hmem u List.mem_cons_self
      omega
    exact present_exec hsound htracked ⟨x, hlookup⟩ hr.kept htimes he

/-- `get` finds the session up to its time-to-live after its creation. -/
theorem get_isSome_iff (hr : r.Valid u) (he : LabelledRun.exec Store.step {} r.calls = some s) :
    (∃ x, (s.inner.get u r.id).1 = some x) ↔ u ≤ r.created + r.ttl := by
  obtain ⟨htracked, hpresent⟩ := tracked hr he
  rw [htracked.get_eq_some_iff]
  exact ⟨fun h => h.2, fun h => ⟨hpresent h, h⟩⟩

end Touched

/-- **Touching** a session slides its expiry only where that is not seen: it is read before it would have expired
untouched, or after it expires touched. -/
theorem touch_slides_iff (r : Touched D) (u : Int) (s : Store D) (hr : r.Valid u)
    (he : LabelledRun.exec Store.step {} r.calls = some s) :
    r.SlidesTo s u ↔ u ≤ r.created + r.ttl ∨ r.touched + r.ttl ≤ u := by
  have hget := Touched.get_isSome_iff hr he
  have hcreated : r.created ≤ r.touched := by
    have hclock := (List.pairwise_append.mp hr.clock).1
    unfold Touched.calls Touched.rest at hclock
    rw [List.map_append, List.map_cons] at hclock
    have hlater := (List.pairwise_cons.mp (List.pairwise_append.mp hclock).2.1).1
    exact hlater r.touched (by simp)
  unfold Touched.SlidesTo
  constructor
  · rintro ⟨hslides, -⟩
    by_cases hu : u < r.touched + r.ttl
    · obtain ⟨x, hx, -⟩ := hslides hu
      exact .inl (hget.mp ⟨x, hx⟩)
    · exact .inr (by omega)
  · intro hu
    constructor
    · intro hlt
      obtain ⟨x, hx⟩ := hget.mpr (by omega)
      exact ⟨x, hx, (Touched.tracked hr he).1.get_id hx⟩
    · intro hlt
      by_contra hne
      have := hget.mp (Option.ne_none_iff_exists'.mp hne)
      omega

/-- A session of 60 s, touched after 50 s. -/
def minute : Touched Unit where
  before := []
  between := []
  after := []
  id := "a"
  tenant := ⟨1⟩
  data := ()
  ttl := 60000000000
  created := 0
  touched := 50000000000

theorem valid_minute {u : Int} (hu : 50000000000 ≤ u) : minute.Valid u where
  clock := by
    simp only [minute, Touched.calls, Touched.rest, List.nil_append, List.map_cons, List.map_nil, List.cons_append,
      List.pairwise_cons, List.mem_cons, List.not_mem_nil, or_false, forall_eq_or_imp, forall_eq, List.Pairwise.nil,
      false_implies, implies_true, and_true]
    omega
  duration := by decide
  range := by decide
  kept call hcall := by
    obtain rfl : call = { time := 50000000000, op := .touch "a" } := by simpa [minute, Touched.rest] using hcall
    exact fun h => h
  lastTouch call hcall := by cases hcall

/-- It is found after 55 s. -/
theorem touch_slides_minute : ∃ s, LabelledRun.exec Store.step {} minute.calls = some s ∧ minute.SlidesTo s 55000000000 :=
  ⟨_, rfl, (touch_slides_iff minute 55000000000 _ (valid_minute (by decide)) rfl).mpr (.inl (by decide))⟩

/-- It is not found after 100 s, when 50 s have passed since the touch. -/
theorem touch_does_not_slide :
    ∃ s, LabelledRun.exec Store.step {} minute.calls = some s ∧ ¬ minute.SlidesTo s 100000000000 := by
  refine ⟨_, rfl, fun h => ?_⟩
  obtain ⟨x, hx, -⟩ := h.1 (by decide)
  cases hx

end TptErp.Cache
