import Mathlib.Algebra.BigOperators.Group.Finset.Basic
import Mathlib.Data.List.Forall2

/-!
# Places in a list

A list's items by their places: what changing the item at one place does to a pointwise relation
(`forall₂_modify`) and to a sum (`sum_map_modify`), and the sum over the items that pass a test as a sum
over their places (`sum_places`).
-/

namespace Places

variable {α β M : Type}

/-! ## Changing one item -/

section
variable {R : α → α → Prop}

theorem forall₂_modify (hrefl : ∀ a, R a a) {l : List α} {i : Nat} {f : α → α}
    (h : ∀ a, l[i]? = some a → R a (f a)) : List.Forall₂ R l (l.modify i f) := by
  induction l generalizing i with
  | nil =>
    rw [List.modify_nil]
    exact .nil
  | cons a l ih =>
    cases i with
    | zero =>
      rw [List.modify_zero_cons]
      exact .cons (h a rfl) (List.forall₂_same.mpr fun b _ => hrefl b)
    | succ i =>
      rw [List.modify_succ_cons]
      exact .cons (hrefl a) (ih fun b hb => h b hb)

theorem forall₂_trans (htrans : ∀ a b c, R a b → R b c → R a c) {l₁ l₂ l₃ : List α} (h₁ : List.Forall₂ R l₁ l₂)
    (h₂ : List.Forall₂ R l₂ l₃) : List.Forall₂ R l₁ l₃ := by
  induction h₁ generalizing l₃ with
  | nil => exact h₂
  | cons hab _ ih =>
    cases h₂ with
    | cons hbc h₂ => exact .cons (htrans _ _ _ hab hbc) (ih h₂)

end

theorem map_modify_eq {f : α → β} {g : α → α} (hg : ∀ a, f (g a) = f a) (l : List α) (i : Nat) :
    (l.modify i g).map f = l.map f := by
  induction l generalizing i with
  | nil => rw [List.modify_nil]
  | cons b l ih =>
    cases i with
    | zero => rw [List.modify_zero_cons, List.map_cons, List.map_cons, hg]
    | succ i => rw [List.modify_succ_cons, List.map_cons, List.map_cons, ih]

variable [AddCommMonoid M]

/-- Changing one item by a fixed amount changes the sum by it. -/
theorem sum_map_modify {f : α → M} {g : α → α} {d : M} (hg : ∀ a, f (g a) = f a + d) {l : List α} {i : Nat}
    (h : i < l.length) : ((l.modify i g).map f).sum = (l.map f).sum + d := by
  induction l generalizing i with
  | nil => cases h
  | cons b l ih =>
    cases i with
    | zero =>
      rw [List.modify_zero_cons, List.map_cons, List.sum_cons, List.map_cons, List.sum_cons, hg]
      exact add_right_comm ..
    | succ i =>
      rw [List.modify_succ_cons, List.map_cons, List.sum_cons, List.map_cons, List.sum_cons,
        ih (Nat.lt_of_succ_lt_succ h)]
      exact (add_assoc ..).symm

theorem sum_modify_add {l : List M} {i : Nat} (h : i < l.length) (u : M) : (l.modify i (· + u)).sum = l.sum + u := by
  have hsum := sum_map_modify (f := id) (g := (· + u)) (fun _ => rfl) h
  rwa [List.map_id, List.map_id] at hsum

/-! ## The places of the items that pass a test -/

variable {p : α → Bool} {l : List α}

def places (p : α → Bool) (l : List α) : Finset Nat :=
  (Finset.range (l.map p).length).filter fun i => (l.map p)[i]? = some true

theorem mem_places {i : Nat} : i ∈ places p l ↔ ∃ a, l[i]? = some a ∧ p a = true := by
  rw [places, Finset.mem_filter, Finset.mem_range, List.getElem?_map, Option.map_eq_some_iff]
  refine ⟨And.right, fun h => ⟨?_, h⟩⟩
  obtain ⟨a, ha, -⟩ := h
  rw [List.length_map]
  exact (List.getElem?_eq_some_iff.mp ha).1

/-- Lists that answer the test alike have the same places. -/
theorem places_congr {l' : List α} (h : l'.map p = l.map p) : places p l' = places p l := by
  rw [places, places, h]

theorem sum_places (f : α → M) : ∑ i ∈ places p l, (l[i]?.map f).getD 0 = ((l.filter p).map f).sum := by
  unfold places
  rw [Finset.sum_filter]
  induction l with
  | nil => rfl
  | cons a l ih =>
    rw [List.map_cons, List.length_cons, Finset.sum_range_succ']
    have hrest : ∀ i, (if (p a :: l.map p)[i + 1]? = some true then ((a :: l)[i + 1]?.map f).getD 0 else 0) =
        if (l.map p)[i]? = some true then (l[i]?.map f).getD 0 else 0 := fun _ => rfl
    rw [Finset.sum_congr rfl fun i _ => hrest i, ih]
    cases hp : p a with
    | true =>
      rw [List.filter_cons_of_pos hp, List.map_cons, List.sum_cons, add_comm]
      rfl
    | false =>
      rw [List.filter_cons_of_neg (by rw [hp]; exact Bool.false_ne_true)]
      exact add_zero _

end Places
