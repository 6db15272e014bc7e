import TptErp.Lib.Select
import Mathlib.Data.List.Nodup
import Mathlib.Order.Lattice
import Mathlib.Logic.Function.Basic

/-!
# Greedy tours

`firstMin cost l` is the first of the cheapest items of `l`, found in one pass (the `min_by` of an
iterator).  In a `Tour` of the candidates each item is a cheapest one among those not visited yet,
seen from where the tour stands:

    Tour cost pos p cands tour → tour ~ cands                                            (Tour.perm)
    tour = before ++ a :: after → cost (stand p before) a ≤ cost (stand p before) b      (Tour.least_at)
      for every b of after

and the search that takes the first cheapest one in each round makes such a tour (`visit_tour`).
-/

namespace Greedy

variable {α P D : Type} [LinearOrder D]

/-! ## The first minimum -/

/-- One item of the pass: a strictly cheaper one takes the place of the best so far. -/
def better (cost : α → D) : Option α → α → Option α := Select.better fun b a => decide (cost a < cost b)

def firstMin (cost : α → D) (l : List α) : Option α := l.foldl (better cost) none

theorem better_some (cost : α → D) (b a : α) : better cost (some b) a = if cost a < cost b then some a else some b := by
  rw [better, Select.better]
  simp only [decide_eq_true_eq]

theorem exists_firstMin (cost : α → D) {l : List α} (h : l ≠ []) : ∃ a, firstMin cost l = some a := Select.exists_pick h

theorem firstMin_some {cost : α → D} {l : List α} {a : α} (h : firstMin cost l = some a) :
    a ∈ l ∧ ∀ b ∈ l, cost a ≤ cost b := by
  refine @Select.pick_some α (fun b a => decide (cost a < cost b)) (fun a b => cost a ≤ cost b)
    (fun a => le_refl (cost a)) (fun _ _ _ => le_trans) (fun b a => ?_) l a h
  by_cases hlt : cost a < cost b
  · rw [if_pos (decide_eq_true hlt)]
    exact le_of_lt hlt
  · rw [if_neg (by simpa using hlt)]
    exact not_lt.mp hlt

/-! ## Candidates not visited -/

/-- The candidates that are not marked. -/
def unvisited (cands : List α) (visited : α → Bool) : List α := cands.filter fun a => !visited a

/-- A loop that passes over the marked candidates and carries more than the best so far. -/
theorem foldl_carry {S : Type} {visited : α → Bool} {f : S → α → S} {cost : α → D} (carry : Option α → S)
    (hskip : ∀ s a, visited a = true → f s a = s)
    (htake : ∀ best a, visited a = false → f (carry best) a = carry (better cost best a)) (l : List α)
    (best : Option α) : l.foldl f (carry best) = carry ((unvisited l visited).foldl (better cost) best) := by
  unfold unvisited
  induction l generalizing best with
  | nil => rfl
  | cons a l ih =>
    rw [List.foldl_cons]
    cases hv : visited a with
    | true => rw [List.filter_cons_of_neg (by simp [hv]), hskip _ a hv, ih]
    | false => rw [List.filter_cons_of_pos (by simp [hv]), List.foldl_cons, htake best a hv, ih]

/-- Marking a candidate takes it out. -/
theorem unvisited_update [DecidableEq α] {cands : List α} (h : cands.Nodup) (visited : α → Bool) (a : α) :
    unvisited cands (Function.update visited a true) = (unvisited cands visited).erase a := by
  unfold unvisited
  rw [(h.filter _).erase_eq_filter, List.filter_filter]
  apply List.filter_congr
  intro b _
  by_cases hb : b = a
  · subst hb
    simp
  · simp [hb]

/-! ## Tours -/

/-- Each item of the tour is a cheapest one of the candidates left, from the position of the item
before it. -/
inductive Tour [DecidableEq α] (cost : P → α → D) (pos : α → P) : P → List α → List α → Prop
  | nil (p : P) : Tour cost pos p [] []
  | cons {p : P} {cands rest : List α} {a : α} (mem : a ∈ cands) (least : ∀ b ∈ cands, cost p a ≤ cost p b)
      (tail : Tour cost pos (pos a) (cands.erase a) rest) : Tour cost pos p cands (a :: rest)

/-- Where a tour from `p` stands after these items. -/
def stand (pos : α → P) (p : P) : List α → P
  | [] => p
  | a :: rest => stand pos (pos a) rest

variable [DecidableEq α] {cost : P → α → D} {pos : α → P}

/-- A greedy tour visits every candidate once. -/
theorem Tour.perm {p : P} {cands tour : List α} (h : Tour cost pos p cands tour) : tour.Perm cands := by
  induction h with
  | nil p => exact List.Perm.refl _
  | cons mem least tail ih => exact (ih.cons _).trans (List.perm_cons_erase mem).symm

/-- At every step nothing that is left is nearer. -/
theorem Tour.least_at {p : P} {cands before after : List α} {a : α}
    (h : Tour cost pos p cands (before ++ a :: after)) :
    ∀ b ∈ after, cost (stand pos p before) a ≤ cost (stand pos p before) b := by
  induction before generalizing p cands with
  | nil =>
    cases h with
    | cons mem least tail =>
      intro b hb
      exact least b (List.mem_of_mem_erase (tail.perm.mem_iff.mp hb))
  | cons c before ih =>
    cases h with
    | cons mem least tail => exact ih tail

/-- The greedy search, for so many rounds. -/
def visit (cost : P → α → D) (pos : α → P) : Nat → List α → P → List α
  | 0, _, _ => []
  | rounds + 1, cands, p =>
    match firstMin (cost p) cands with
    | none => []
    | some a => a :: visit cost pos rounds (cands.erase a) (pos a)

/-- One round for each candidate makes a greedy tour. -/
theorem visit_tour (cands : List α) (p : P) : Tour cost pos p cands (visit cost pos cands.length cands p) := by
  induction hn : cands.length generalizing cands p with
  | zero =>
    rw [List.eq_nil_of_length_eq_zero hn]
    exact .nil p
  | succ n ih =>
    have hne : cands ≠ [] := by
      intro he
      rw [he] at hn
      cases hn
    obtain ⟨a, ha⟩ := exists_firstMin (cost p) hne
    obtain ⟨hmem, hleast⟩ := firstMin_some ha
    rw [visit, ha]
    refine .cons hmem hleast (ih _ _ ?_)
    rw [List.length_erase_of_mem hmem, hn]
    rfl

end Greedy
