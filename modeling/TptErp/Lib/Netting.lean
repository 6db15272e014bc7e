import Mathlib.Algebra.BigOperators.Group.Finset.Basic
import Mathlib.Algebra.Order.BigOperators.Group.Finset
import Mathlib.Algebra.Order.Group.MinMax
import Mathlib.Tactic.Abel

/-!
# Netting balances

Balances under keys, and a list of pairs of keys.  A pair is netted by taking what its two balances have
in common off both; the pairs are netted one after the other.

A balance never grows, never becomes negative and stays at zero (`netAll_le`, `netAll_nonneg`,
`netAll_zero`), and once a pair is netted one of its two is at zero.  So where several keys are paired
with one hub, and with nothing else, the netting takes off the hub and off the keys together what the hub
and their sum have in common, in whatever order (`netAll_star`).
-/

namespace Netting

variable {K α : Type} [AddCommGroup α] [LinearOrder α]

/-- What the two balances of a pair have in common: nothing, unless both are positive. -/
def overlap (b : K → α) (p : K × K) : α := max 0 (min (b p.1) (b p.2))

variable {b : K → α} {p : K × K} {ps : List (K × K)} {k hub : K} {S : Finset K}

theorem overlap_nonneg (b : K → α) (p : K × K) : 0 ≤ overlap b p := le_max_left ..

theorem overlap_le (hk : k = p.1 ∨ k = p.2) (h : 0 ≤ b k) : overlap b p ≤ b k := by
  refine max_le h ?_
  rcases hk with rfl | rfl
  · exact min_le_left ..
  · exact min_le_right ..

variable [DecidableEq K]

def net (b : K → α) (p : K × K) : K → α := fun k => if k = p.1 ∨ k = p.2 then b k - overlap b p else b k

def netAll (b : K → α) (ps : List (K × K)) : K → α := ps.foldl net b

/-! ## One pair -/

theorem net_of_ne (h₁ : k ≠ p.1) (h₂ : k ≠ p.2) : net b p k = b k := if_neg (not_or.mpr ⟨h₁, h₂⟩)

/-- One of the two is at zero afterwards. -/
theorem net_touched (h₁ : 0 ≤ b p.1) (h₂ : 0 ≤ b p.2) : net b p p.1 = 0 ∨ net b p p.2 = 0 := by
  have hmin : overlap b p = min (b p.1) (b p.2) := max_eq_right (le_min h₁ h₂)
  unfold net
  rw [if_pos (Or.inl rfl), if_pos (Or.inr rfl), hmin, sub_eq_zero, sub_eq_zero]
  rcases le_total (b p.1) (b p.2) with h | h
  · exact Or.inl (min_eq_left h).symm
  · exact Or.inr (min_eq_right h).symm

/-- A key that no pair names keeps its balance. -/
theorem netAll_of_ne (h : ∀ p ∈ ps, k ≠ p.1 ∧ k ≠ p.2) : netAll b ps k = b k := by
  induction ps generalizing b with
  | nil => rfl
  | cons p ps ih =>
    obtain ⟨hp, h⟩ := List.forall_mem_cons.mp h
    exact (ih h).trans (net_of_ne hp.1 hp.2)

/-! ## A hub and its keys -/

/-- The pairs on the keys of `S` are those with the hub, and no other pair touches either. -/
structure Star (ps : List (K × K)) (hub : K) (S : Finset K) : Prop where
  left : ∀ p ∈ ps, p.1 ≠ hub
  right : ∀ p ∈ ps, p.2 ∉ S
  own : ∀ p ∈ ps, p.1 ∈ S ↔ p.2 = hub

/-- What a pair takes off the hub it takes off the keys. -/
theorem net_conserved (h₁ : p.1 ≠ hub) (h₂ : p.2 ∉ S) (hown : p.1 ∈ S ↔ p.2 = hub) :
    (∑ k ∈ S, net b p k) - net b p hub = (∑ k ∈ S, b k) - b hub := by
  by_cases hS : p.1 ∈ S
  · have hsum : ∑ k ∈ S, net b p k = (∑ k ∈ S, b k) - overlap b p := by
      rw [← Finset.add_sum_erase S _ hS, ← Finset.add_sum_erase S b hS]
      have hrest : ∑ k ∈ S.erase p.1, net b p k = ∑ k ∈ S.erase p.1, b k := by
        refine Finset.sum_congr rfl fun k hk => net_of_ne (Finset.ne_of_mem_erase hk) ?_
        rintro rfl
        exact h₂ (Finset.mem_of_mem_erase hk)
      rw [hrest, net, if_pos (Or.inl rfl)]
      abel
    have hhubnet : net b p hub = b hub - overlap b p := if_pos (Or.inr (hown.mp hS).symm)
    rw [hsum, hhubnet]
    abel
  · have hsum : ∑ k ∈ S, net b p k = ∑ k ∈ S, b k := by
      refine Finset.sum_congr rfl fun k hk => net_of_ne ?_ ?_
      · rintro rfl
        exact hS hk
      · rintro rfl
        exact h₂ hk
    rw [hsum, net_of_ne h₁.symm fun h => hS (hown.mpr h.symm)]

theorem netAll_conserved (h : Star ps hub S) :
    (∑ k ∈ S, netAll b ps k) - netAll b ps hub = (∑ k ∈ S, b k) - b hub := by
  obtain ⟨hl, hr, ho⟩ := h
  induction ps generalizing b with
  | nil => rfl
  | cons p ps ih =>
    obtain ⟨hlp, hl⟩ := List.forall_mem_cons.mp hl
    obtain ⟨hrp, hr⟩ := List.forall_mem_cons.mp hr
    obtain ⟨hop, ho⟩ := List.forall_mem_cons.mp ho
    exact (ih hl hr ho).trans (net_conserved hlp hrp hop)

/-! ## Bounds -/

variable [IsOrderedAddMonoid α]

theorem net_le (b : K → α) (p : K × K) (k : K) : net b p k ≤ b k := by
  unfold net
  split
  · exact sub_le_self _ (overlap_nonneg b p)
  · exact le_rfl

theorem net_nonneg (h : 0 ≤ b k) : 0 ≤ net b p k := by
  unfold net
  split
  · next hk => exact sub_nonneg.mpr (overlap_le hk h)
  · exact h

theorem netAll_le (b : K → α) (ps : List (K × K)) (k : K) : netAll b ps k ≤ b k := by
  induction ps generalizing b with
  | nil => exact le_rfl
  | cons p ps ih => exact (ih (net b p)).trans (net_le b p k)

theorem netAll_nonneg (h : 0 ≤ b k) : 0 ≤ netAll b ps k := by
  induction ps generalizing b with
  | nil => exact h
  | cons p ps ih => exact ih (net_nonneg h)

theorem netAll_zero (h : b k = 0) : netAll b ps k = 0 :=
  le_antisymm ((netAll_le b ps k).trans h.le) (netAll_nonneg h.ge)

theorem netAll_touched (hp : p ∈ ps) (h₁ : 0 ≤ b p.1) (h₂ : 0 ≤ b p.2) :
    netAll b ps p.1 = 0 ∨ netAll b ps p.2 = 0 := by
  induction ps generalizing b with
  | nil => cases hp
  | cons q ps ih =>
    rcases List.mem_cons.mp hp with rfl | hp
    · show netAll (net b p) ps p.1 = 0 ∨ netAll (net b p) ps p.2 = 0
      exact (net_touched h₁ h₂).imp netAll_zero netAll_zero
    · exact ih hp (net_nonneg h₁) (net_nonneg h₂)

/-- **The netting of a star.**  With every key of `S` paired with the hub, the hub loses what it has in common with
the keys together, and so do they. -/
theorem netAll_star (h : Star ps hub S) (hcover : ∀ k ∈ S, (k, hub) ∈ ps) (hb : ∀ k ∈ S, 0 ≤ b k) (hh : 0 ≤ b hub) :
    netAll b ps hub = b hub - min (∑ k ∈ S, b k) (b hub) ∧
      ∑ k ∈ S, netAll b ps k = (∑ k ∈ S, b k) - min (∑ k ∈ S, b k) (b hub) := by
  have hcons := netAll_conserved (b := b) h
  have hsum : 0 ≤ ∑ k ∈ S, netAll b ps k := Finset.sum_nonneg fun k hk => netAll_nonneg (hb k hk)
  have hhub : 0 ≤ netAll b ps hub := netAll_nonneg hh
  -- either the hub is used up or all of the keys are
  have hend : netAll b ps hub = 0 ∨ ∑ k ∈ S, netAll b ps k = 0 := by
    by_cases h0 : netAll b ps hub = 0
    · exact Or.inl h0
    · exact Or.inr (Finset.sum_eq_zero fun k hk => (netAll_touched (hcover k hk) (hb k hk) hh).resolve_right h0)
  rcases hend with h0 | h0
  · rw [h0, sub_zero] at hcons
    have hle : b hub ≤ ∑ k ∈ S, b k := by
      rw [hcons, sub_nonneg] at hsum
      exact hsum
    rw [h0, min_eq_right hle, sub_self]
    exact ⟨rfl, hcons⟩
  · rw [h0, zero_sub, neg_eq_iff_eq_neg, neg_sub] at hcons
    have hle : ∑ k ∈ S, b k ≤ b hub := by
      rw [hcons, sub_nonneg] at hhub
      exact hhub
    rw [h0, min_eq_left hle, sub_self]
    exact ⟨hcons, rfl⟩

end Netting
