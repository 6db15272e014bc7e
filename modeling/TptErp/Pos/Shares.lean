import TptErp.Pos.Returns

/-!
# What an allocation adds up to

`allocate` cuts every share off after the cents and gives the cents left over one each to the largest remainders.
The shares add up to the amount exactly when there are cents left over for some of them, not more than there are
shares and not less than none (`allocate_sum_iff`).  That is always so when the ratios' sum does not wrap
(`addsUp_of_lt`).
-/

namespace TptErp.Pos

/-! ## The shares in cents -/

/-- The cents of the shares of `t` cents, cut off. -/
def cutOff (t : Int) (ratios : List Nat) : Int := (ratios.map fun w : Nat => (t * w).tdiv (sumU64 ratios : Nat)).sum

/-- The cents left over are not more than the shares and not less than none. -/
def AddsUp (t : Int) (ratios : List Nat) : Prop := cutOff t ratios ≤ t ∧ t ≤ cutOff t ratios + ratios.length

instance (t : Int) (ratios : List Nat) : Decidable (AddsUp t ratios) := inferInstanceAs (Decidable (_ ∧ _))

theorem allocate_sum (t : Int) {ratios : List Nat} (hs : sumU64 ratios ≠ 0) :
    ∃ parts, Money.allocate (C := Usd) ((t : ℚ) / 100) ratios = .ok parts ∧ parts.length = ratios.length ∧
      parts.sum = ((cutOff t ratios + max 0 (min (t - cutOff t ratios) ratios.length) : Int) : ℚ) / 100 := by
  have h := Money.allocate_sum (C := Usd) (t := t) (Nat.pos_of_ne_zero hs)
  rw [Money.minorUnit_usd, mul_one_div, mul_one_div] at h
  exact h

/-- The shares add up exactly when the cents left over do. -/
theorem allocate_sum_iff (t : Int) {ratios : List Nat} {parts : List (Money Usd)}
    (h : Money.allocate (C := Usd) ((t : ℚ) / 100) ratios = .ok parts) :
    parts.length = ratios.length ∧ (List.sum (α := ℚ) parts = (t : ℚ) / 100 ↔ AddsUp t ratios) := by
  have hne : ratios ≠ [] := by
    rintro rfl
    cases h
  have hs : sumU64 ratios ≠ 0 := by
    intro hs
    unfold Money.allocate at h
    rw [if_neg hne] at h
    dsimp only at h
    rw [if_pos (by exact_mod_cast hs)] at h
    cases h
  obtain ⟨parts', he, hlen, hsum⟩ := allocate_sum t hs
  rw [h] at he
  cases he
  refine ⟨hlen, ?_⟩
  rw [hsum, div_left_inj' (by norm_num)]
  unfold AddsUp
  rw [Int.cast_inj]
  omega

/-- When the ratios' sum does not wrap, the shares of a non-negative amount add up. -/
theorem addsUp_of_lt {t : Int} {ratios : List Nat} (ht : 0 ≤ t) (hpos : 0 < ratios.sum) (hlt : ratios.sum < 2 ^ 64) :
    AddsUp t ratios := by
  have hs : sumU64 ratios = ratios.sum := Nat.mod_eq_of_lt hlt
  have h := Money.left_units_bounds ht hpos
  rw [← hs] at h
  change 0 ≤ t - cutOff t ratios ∧ t - cutOff t ratios ≤ ratios.length at h
  unfold AddsUp
  omega

end TptErp.Pos
