import TptErp.Primitives
import Mathlib.Algebra.Order.Ring.Int
import Mathlib.Algebra.Ring.Int.Parity
import Mathlib.Tactic.Linarith
import Mathlib.Tactic.Ring

/-!
# A percentage off

`amount - amount * pct / 100` in `i64`, as the plugins that price compute it.  They are built for release, so the
product and the difference wrap.

For an amount that is not negative and a percentage below 100 the difference never does (`lessPercent_eq`).  The
product may; then less is taken off, or nothing (`percentOf_le`).
-/

namespace TptErp

/-- `amount * pct / 100`. -/
def percentOf (amount pct : Int) : Int := (wrapI64 (amount * pct)).tdiv 100

/-- `amount - amount * pct / 100`. -/
def lessPercent (amount pct : Int) : Int := wrapI64 (amount - percentOf amount pct)

variable {amount pct : Int}

/-- Wrapping does not add to what is not negative. -/
theorem wrapI64_le {x : Int} (h : 0 ≤ x) : wrapI64 x ≤ x := by
  rw [wrapI64, Int.bmod_def]
  split <;> omega

theorem wrapI64_eq_sub (x : Int) : ∃ m, wrapI64 x = x - 2 ^ 64 * m := by
  refine ⟨Int.bdiv x (2 ^ 64), ?_⟩
  have := Int.bmod_add_bdiv x (2 ^ 64)
  unfold wrapI64
  omega

theorem tdiv_eq_ediv {x : Int} (h : 0 ≤ x) : x.tdiv 100 = x / 100 := Int.tdiv_eq_ediv_of_nonneg h

theorem tdiv_eq_neg {x : Int} (h : x ≤ 0) : x.tdiv 100 = -(-x / 100) := by
  rw [← tdiv_eq_ediv (by omega), Int.neg_tdiv, neg_neg]

/-- The share that is taken is at most the exact one. -/
theorem percentOf_le (h0 : 0 ≤ amount) (hp : 0 ≤ pct) : percentOf amount pct ≤ amount * pct / 100 := by
  have hx : 0 ≤ amount * pct := mul_nonneg h0 hp
  have hle := wrapI64_le hx
  unfold percentOf
  generalize amount * pct = x at hx hle
  rcases le_or_gt 0 (wrapI64 x) with hw | hw
  · rw [tdiv_eq_ediv hw]
    omega
  · rw [tdiv_eq_neg hw.le]
    omega

/-- A product that fits is taken as it is. -/
theorem percentOf_eq (h0 : 0 ≤ amount) (hp : 0 ≤ pct) (hlt : amount * pct < 2 ^ 63) :
    percentOf amount pct = amount * pct / 100 := by
  have hx : 0 ≤ amount * pct := mul_nonneg h0 hp
  rw [percentOf, wrapI64_of_lt (by omega) hlt, tdiv_eq_ediv hx]

/-- **The difference does not wrap.**  A share that has wrapped to a negative number is one of an amount that is far
enough from the largest. -/
theorem percentOf_fits (h0 : 0 ≤ amount) (h1 : amount < 2 ^ 63) (hp0 : 0 ≤ pct) (hp : pct < 100) :
    -2 ^ 63 ≤ amount - percentOf amount pct ∧ amount - percentOf amount pct < 2 ^ 63 := by
  -- what is missing to the largest amount, and its product with the percentage
  obtain ⟨k, hk⟩ : ∃ k, amount = 2 ^ 63 - k := ⟨2 ^ 63 - amount, by omega⟩
  have hmissing : pct * k ≤ 99 * k := by nlinarith
  have hproduct : amount * pct = 2 ^ 63 * pct - pct * k := by
    rw [hk]
    ring
  have hpk : 0 ≤ pct * k := mul_nonneg hp0 (by omega)
  have hlow := le_wrapI64 (amount * pct)
  obtain ⟨m, hm⟩ := wrapI64_eq_sub (amount * pct)
  unfold percentOf
  rcases le_or_gt 0 (wrapI64 (amount * pct)) with hw | hw
  · have hhigh := wrapI64_lt (amount * pct)
    rw [tdiv_eq_ediv hw]
    omega
  · rw [tdiv_eq_neg hw.le]
    rcases Int.even_or_odd' pct with ⟨j, hj | hj⟩
    · omega
    · -- an odd percentage is at least one
      have hk1 : k ≤ pct * k := le_mul_of_one_le_left (by omega) (by omega)
      omega

theorem lessPercent_eq (h0 : 0 ≤ amount) (h1 : amount < 2 ^ 63) (hp0 : 0 ≤ pct) (hp : pct < 100) :
    lessPercent amount pct = amount - percentOf amount pct := by
  obtain ⟨hlow, hhigh⟩ := percentOf_fits h0 h1 hp0 hp
  exact wrapI64_of_lt hlow hhigh

/-- What is left is not negative. -/
theorem lessPercent_nonneg (h0 : 0 ≤ amount) (h1 : amount < 2 ^ 63) (hp0 : 0 ≤ pct) (hp : pct < 100) :
    0 ≤ lessPercent amount pct := by
  have hle := percentOf_le h0 hp0
  have hshare : amount * pct / 100 ≤ amount := by
    have hmul : amount * pct ≤ amount * 100 := by nlinarith
    omega
  rw [lessPercent_eq h0 h1 hp0 hp]
  omega

/-- What is taken off, if anything, is no more than the percentage. -/
theorem cut_lessPercent_le (h0 : 0 ≤ amount) (h1 : amount < 2 ^ 63) (hp0 : 0 ≤ pct) (hp : pct < 100) :
    100 * max 0 (amount - lessPercent amount pct) ≤ amount * pct := by
  have hle := percentOf_le h0 hp0
  have hx : 0 ≤ amount * pct := mul_nonneg h0 hp0
  rw [lessPercent_eq h0 h1 hp0 hp, sub_sub_cancel]
  generalize amount * pct = x at hle hx
  omega

end TptErp
