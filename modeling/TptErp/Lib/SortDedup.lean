import Mathlib.Data.List.Sort
import Mathlib.Data.List.Destutter

/-!
# Sorting and removing adjacent repeats

`sortDedup l` is `l` sorted with its adjacent repeats removed: the members of `l`, each once, in
strictly increasing order.
-/

namespace SortDedup

variable {α : Type} [LinearOrder α]

def sortDedup (l : List α) : List α := (l.insertionSort (· ≤ ·)).destutter (· ≠ ·)

/-- In a sorted list the repeats are adjacent, so that removing them leaves each member once. -/
theorem destutter'_spec (l : List α) (a : α) (h : (a :: l).Pairwise (· ≤ ·)) :
    (l.destutter' (· ≠ ·) a).Pairwise (· < ·) ∧ ∀ b, b ∈ l.destutter' (· ≠ ·) a ↔ b ∈ a :: l := by
  induction l generalizing a with
  | nil => simp
  | cons c l ih =>
    obtain ⟨hac, hcl⟩ := List.pairwise_cons.mp h
    rw [List.destutter'_cons]
    split
    · next hne =>
      obtain ⟨hp, hm⟩ := ih c hcl
      have hlt : a < c := lt_of_le_of_ne (hac c List.mem_cons_self) hne
      refine ⟨List.pairwise_cons.mpr ⟨fun b hb => ?_, hp⟩, fun b => by rw [List.mem_cons, hm b]; simp⟩
      rcases List.mem_cons.mp ((hm b).mp hb) with rfl | hb
      · exact hlt
      · exact lt_of_lt_of_le hlt ((List.pairwise_cons.mp hcl).1 b hb)
    · next heq =>
      have heq : a = c := not_not.mp heq
      subst heq
      obtain ⟨hp, hm⟩ := ih a hcl
      exact ⟨hp, fun b => by rw [hm b]; simp⟩

theorem sortDedup_spec (l : List α) :
    (sortDedup l).Pairwise (· < ·) ∧ ∀ a, a ∈ sortDedup l ↔ a ∈ l := by
  have hs := List.pairwise_insertionSort (· ≤ ·) l
  have hm : ∀ a, a ∈ l.insertionSort (· ≤ ·) ↔ a ∈ l := fun a =>
    (List.perm_insertionSort (· ≤ ·) l).mem_iff
  unfold sortDedup
  cases hl : l.insertionSort (· ≤ ·) with
  | nil =>
    rw [hl] at hm
    exact ⟨List.Pairwise.nil, hm⟩
  | cons a t =>
    rw [hl] at hs hm
    obtain ⟨hp, hd⟩ := destutter'_spec t a hs
    exact ⟨hp, fun b => (hd b).trans (hm b)⟩

theorem sortDedup_pairwise (l : List α) : (sortDedup l).Pairwise (· < ·) := (sortDedup_spec l).1

theorem mem_sortDedup (l : List α) (a : α) : a ∈ sortDedup l ↔ a ∈ l := (sortDedup_spec l).2 a

/-- Only the members matter. -/
theorem sortDedup_congr {l l' : List α} (h : ∀ a, a ∈ l ↔ a ∈ l') : sortDedup l = sortDedup l' := by
  have hnodup : ∀ l : List α, (sortDedup l).Nodup := fun l => (sortDedup_pairwise l).imp ne_of_lt
  refine List.Perm.eq_of_pairwise ?_ (sortDedup_pairwise l) (sortDedup_pairwise l') ?_
  · exact fun a b _ _ hab hba => absurd hab (lt_asymm hba)
  · apply (List.perm_ext_iff_of_nodup (hnodup l) (hnodup l')).mpr
    intro a
    rw [mem_sortDedup, mem_sortDedup, h]

end SortDedup
