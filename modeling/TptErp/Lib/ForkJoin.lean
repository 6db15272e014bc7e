import TptErp.Lib.Run
import Mathlib.Data.List.Perm.Basic

/-!
# Forked tasks

A task updates a shared state, in one atomic step, and forks further tasks.  Any task that is
pending may be the next one: the label of a step is the position of the task that runs.  When
`all t` lists the tasks below `t`, itself first, a run that leaves nothing pending has applied the
update of every task exactly once, in some order:

    exec (step upd fork) (ts, s) is = some ([], s')  →
      s' = order.foldl upd s,  order ~ ts.flatMap all      (foldl_of_complete)

No run gets stuck (`exists_complete`).
-/

namespace ForkJoin

open LabelledRun

variable {T σ : Type} (upd : σ → T → σ) (fork : T → List T)

/-- The pending task at position `i` runs. -/
def step (w : List T × σ) (i : Nat) : Option (List T × σ) :=
  w.1[i]?.map fun t => (w.1.eraseIdx i ++ fork t, upd w.2 t)

/-- `all t` is `t` with the tasks below it. -/
def Lists (all : T → List T) : Prop := ∀ t, all t = t :: (fork t).flatMap all

variable {upd fork} {all : T → List T}

theorem step_some {w w' : List T × σ} {i : Nat} (h : step upd fork w i = some w') :
    ∃ t, w.1[i]? = some t ∧ w' = (w.1.eraseIdx i ++ fork t, upd w.2 t) := by
  obtain ⟨t, ht, rfl⟩ := Option.map_eq_some_iff.mp h
  exact ⟨t, ht, rfl⟩

/-- A step takes one task out of those still to be done. -/
theorem step_perm (hall : Lists fork all) {w w' : List T × σ} {i : Nat} (h : step upd fork w i = some w') :
    ∃ t, w'.2 = upd w.2 t ∧ (t :: w'.1.flatMap all).Perm (w.1.flatMap all) := by
  obtain ⟨t, ht, rfl⟩ := step_some h
  refine ⟨t, rfl, ?_⟩
  obtain ⟨hi, rfl⟩ := List.getElem?_eq_some_iff.mp ht
  have hp : (w.1.flatMap all).Perm ((w.1[i] :: w.1.eraseIdx i).flatMap all) :=
    (List.getElem_cons_eraseIdx_perm hi).symm.flatMap_right all
  refine List.Perm.trans ?_ hp.symm
  rw [List.flatMap_cons, hall, List.flatMap_append, List.cons_append]
  exact List.perm_append_comm.cons _

/-- The updates of a run, and what is left to do. -/
theorem exec_perm (hall : Lists fork all) {w w' : List T × σ} {is : List Nat}
    (h : exec (step upd fork) w is = some w') :
    ∃ order : List T, w'.2 = order.foldl upd w.2 ∧ (order ++ w'.1.flatMap all).Perm (w.1.flatMap all) := by
  induction is generalizing w with
  | nil =>
    obtain rfl := Option.some.inj h
    exact ⟨[], rfl, List.Perm.refl _⟩
  | cons i is ih =>
    simp only [exec, Option.bind_eq_some_iff] at h
    obtain ⟨u, hu, h⟩ := h
    obtain ⟨order, hs, hp⟩ := ih h
    obtain ⟨t, ht, hpt⟩ := step_perm hall hu
    refine ⟨t :: order, ?_, ?_⟩
    · rw [hs, ht, List.foldl_cons]
    · exact (hp.cons t).trans hpt

/-- **Every task runs exactly once**, whatever the order. -/
theorem foldl_of_complete (hall : Lists fork all) {ts : List T} {s s' : σ} {is : List Nat}
    (h : exec (step upd fork) (ts, s) is = some ([], s')) :
    ∃ order : List T, order.Perm (ts.flatMap all) ∧ s' = order.foldl upd s := by
  obtain ⟨order, hs, hp⟩ := exec_perm hall h
  rw [List.flatMap_nil, List.append_nil] at hp
  exact ⟨order, hp, hs⟩

/-- What is pending can be brought to an end, by the tasks in the order of their forks. -/
theorem exists_complete (hall : Lists fork all) (ts : List T) (s : σ) :
    ∃ is s', exec (step upd fork) (ts, s) is = some ([], s') := by
  -- the tasks still to be done get fewer with each step
  induction hn : (ts.flatMap all).length generalizing ts s with
  | zero =>
    cases ts with
    | nil => exact ⟨[], s, rfl⟩
    | cons t ts =>
      rw [List.flatMap_cons, hall] at hn
      cases hn
  | succ n ih =>
    cases ts with
    | nil => cases hn
    | cons t ts =>
      have hst : step upd fork (t :: ts, s) 0 = some (ts ++ fork t, upd s t) := rfl
      obtain ⟨t', -, hp⟩ := step_perm hall hst
      have hlen := hp.length_eq
      rw [List.length_cons, hn] at hlen
      obtain ⟨is, s', his⟩ := ih (ts ++ fork t) (upd s t) (Nat.succ.inj hlen)
      refine ⟨0 :: is, s', ?_⟩
      rw [exec, hst]
      exact his

end ForkJoin
