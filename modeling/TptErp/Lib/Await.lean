import Mathlib.Logic.Basic

/-!
# Tasks that may be dropped

A task runs until it returns, or is dropped at one of its awaits.  `(m s).2` is the state that it leaves
behind either way, and `(m s).1` is none when it was dropped.  The outcome of a call is what the task sees of
it, and, when that is not a success, whether the call was carried out all the same.

A resource that is leased to one job after another comes back fresh from every lease if, and only if, it
comes back fresh from every job that is given a fresh one (`leases_iff`).
-/

namespace Await

/-- What the task sees of a call. -/
inductive Reply
  | ok
  | error
  | cancelled
deriving DecidableEq

structure Outcome where
  reply : Reply
  /-- The call was carried out, though it has not succeeded. -/
  done : Bool := false
deriving DecidableEq

def Task (σ α : Type) : Type := σ → Option α × σ

variable {σ α β : Type}

instance : Monad (Task σ) where
  pure a := fun s => (some a, s)
  bind m k := fun s =>
    match m s with
    | (some a, s) => k a s
    | (none, s) => (none, s)

/-- The task is dropped here. -/
def drop : Task σ α := fun s => (none, s)

def update (f : σ → σ) : Task σ Unit := fun s => (some (), f s)

def call (effect : σ → σ) (o : Outcome) : Task σ Bool := fun s =>
  match o.reply with
  | .ok => (some true, effect s)
  | .error => (some false, if o.done then effect s else s)
  | .cancelled => (none, if o.done then effect s else s)

theorem pure_run (a : α) (s : σ) : (pure a : Task σ α) s = (some a, s) := rfl

theorem bind_run (m : Task σ α) (k : α → Task σ β) (s : σ) :
    (m >>= k) s = match m s with
      | (some a, s) => k a s
      | (none, s) => (none, s) := rfl

/-- A task whose first part returns. -/
theorem bind_some {m : Task σ α} {s s' : σ} {a : α} (h : m s = (some a, s')) (k : α → Task σ β) :
    (m >>= k) s = k a s' := by
  rw [bind_run, h]

/-- A task whose first part is dropped. -/
theorem bind_none {m : Task σ α} {s s' : σ} (h : m s = (none, s')) (k : α → Task σ β) :
    (m >>= k) s = (none, s') := by
  rw [bind_run, h]

/-- What is returned makes no difference to the state. -/
theorem bind_pure_snd (m : Task σ α) (f : α → β) (s : σ) : ((m >>= fun a => pure (f a)) s).2 = (m s).2 := by
  rw [bind_run]
  rcases m s with ⟨_ | a, s'⟩
  · rfl
  · rfl

/-! ## Leases -/

section Leases

variable {R J : Type} (use : R → J → R) (fresh : R) (Good : R → J → Prop) (Safe : J → Prop)

/-- **Leases, one after another.** -/
theorem leases_iff (h : ∀ job, (Good fresh job ∧ use fresh job = fresh) ↔ Safe job) (jobs : List J) :
    (∀ before job after, jobs = before ++ job :: after →
      Good (before.foldl use fresh) job ∧ use (before.foldl use fresh) job = fresh) ↔ ∀ job ∈ jobs, Safe job := by
  constructor
  · intro hgood
    induction jobs with
    | nil => exact fun job hjob => absurd hjob List.not_mem_nil
    | cons first jobs ih =>
      have hfirst := hgood [] first jobs rfl
      refine List.forall_mem_cons.mpr ⟨(h first).mp hfirst, ih ?_⟩
      -- the first lease leaves the resource fresh for the others
      rintro before job after rfl
      have hlater := hgood (first :: before) job after rfl
      have hback : use fresh first = fresh := hfirst.2
      rwa [List.foldl_cons, hback] at hlater
  · rintro hsafe before job after rfl
    have hfresh : before.foldl use fresh = fresh := by
      have hbefore := fun j hj => hsafe j (List.mem_append_left _ hj)
      clear hsafe
      induction before with
      | nil => rfl
      | cons first before ih =>
        obtain ⟨hfirst, hrest⟩ := List.forall_mem_cons.mp hbefore
        rw [List.foldl_cons, ((h first).mpr hfirst).2]
        exact ih hrest
    rw [hfresh]
    exact (h job).mpr (hsafe job (List.mem_append_right before List.mem_cons_self))

end Leases

end Await
