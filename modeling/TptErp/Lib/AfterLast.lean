import Mathlib.Data.List.DropRight
import Mathlib.Algebra.BigOperators.Group.List.Basic
import Mathlib.Algebra.GroupWithZero.Nat

/-!
# What comes after the last reset

A backward scan that stops at an element with `p` sees what comes after the last one, `afterLast p xs`, and adds up
`w` over it, `tally p w xs`.  It is not seen whether a list was put in front of another one when that has a reset, or the
list in front adds nothing (`tally_append_eq_iff`).
-/

namespace AfterLast

variable {α : Type} (p : α → Bool) (w : α → Nat)

/-- The elements after the last one with `p`. -/
def afterLast (xs : List α) : List α := xs.rtakeWhile fun x => !p x

def tally (xs : List α) : Nat := ((afterLast p xs).map w).sum

theorem afterLast_append (xs ys : List α) :
    afterLast p (xs ++ ys) = if ys.any p then afterLast p ys else afterLast p xs ++ ys := by
  induction ys using List.reverseRecOn with
  | nil => simp
  | append_singleton ys y ih =>
    unfold afterLast at ih ⊢
    rw [← List.append_assoc, List.rtakeWhile_concat, List.rtakeWhile_concat, List.any_append, ih]
    by_cases hy : p y = true
    · simp [hy]
    · by_cases hys : ys.any p = true
      · simp [hy, hys]
      · simp [hy, hys]

theorem tally_eq_zero_iff (xs : List α) : tally p w xs = 0 ↔ ∀ x ∈ afterLast p xs, w x = 0 := by
  unfold tally
  rw [List.sum_eq_zero_iff_forall_eq_nat, List.forall_mem_map]

theorem tally_append (xs ys : List α) :
    tally p w (xs ++ ys) = if ys.any p then tally p w ys else tally p w xs + (ys.map w).sum := by
  unfold tally
  rw [afterLast_append]
  split
  · rfl
  · rw [List.map_append, List.sum_append]

/-- Without a reset, all of the list is added up. -/
theorem tally_of_not_any {ys : List α} (h : ¬ ys.any p = true) : tally p w ys = (ys.map w).sum := by
  have := tally_append p w [] ys
  rw [if_neg h, List.nil_append] at this
  rw [this]
  exact Nat.zero_add _

/-- **A list put in front** of another one is not seen exactly when that has a reset or the list adds nothing. -/
theorem tally_append_eq_iff (xs ys : List α) :
    tally p w (xs ++ ys) = tally p w ys ↔ ys.any p = true ∨ tally p w xs = 0 := by
  rw [tally_append]
  by_cases h : ys.any p = true
  · simp [h]
  · rw [if_neg h, tally_of_not_any p w h]
    simp [h]

end AfterLast
