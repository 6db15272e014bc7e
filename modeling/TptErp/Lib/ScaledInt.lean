import Mathlib.Algebra.Order.Field.Rat
import Mathlib.Algebra.BigOperators.Group.List.Basic
import Mathlib.Data.Rat.Cast.Order
import Mathlib.Tactic.FieldSimp
import Mathlib.Tactic.Positivity
import Mathlib.Tactic.Ring

/-!
# Scaled integers

A `ScaledInt M S` is a decimal number: an integer mantissa below `M` in size, and a scale of at most `S`
digits after the point.  A sum is exact when it fits; else it is rounded, half to even, to the most digits
that fit, and there is none when even the integer part does not fit.

`add_exact_iff`: a sum is exact exactly when the exact sum is representable.  `sum_exact` is the same for
sums over a list, when all partial sums are representable (`SumsFit`).
-/

structure ScaledInt (M S : Nat) where
  mantissa : Int
  scale : Nat
  mantissa_lt : mantissa.natAbs < M
  scale_le : scale ≤ S
deriving DecidableEq

namespace ScaledInt

variable {M S : Nat}

def value (a : ScaledInt M S) : ℚ := a.mantissa / 10 ^ a.scale

/-- The number is a scaled integer's value. -/
def Representable (M S : Nat) (x : ℚ) : Prop := ∃ a : ScaledInt M S, a.value = x

def zero (h : 0 < M) : ScaledInt M S := ⟨0, 0, h, Nat.zero_le S⟩

def ofInt (n : Int) (h : n.natAbs < M) : ScaledInt M S := ⟨n, 0, h, Nat.zero_le S⟩

@[simp] theorem value_zero (h : 0 < M) : (zero h : ScaledInt M S).value = 0 := by simp [zero, value]

/-- The same number: the comparison at a common scale. -/
def same (a b : ScaledInt M S) : Bool := a.mantissa * 10 ^ b.scale = b.mantissa * 10 ^ a.scale

theorem same_iff (a b : ScaledInt M S) : a.same b = true ↔ a.value = b.value := by
  have ha : (10 : ℚ) ^ a.scale ≠ 0 := by positivity
  have hb : (10 : ℚ) ^ b.scale ≠ 0 := by positivity
  unfold same value
  rw [decide_eq_true_iff, div_eq_div_iff ha hb]
  exact_mod_cast Iff.rfl

def neg (a : ScaledInt M S) : ScaledInt M S :=
  ⟨-a.mantissa, a.scale, by rw [Int.natAbs_neg]; exact a.mantissa_lt, a.scale_le⟩

@[simp] theorem value_neg (a : ScaledInt M S) : a.neg.value = -a.value := by
  simp [neg, value, neg_div]

/-! ## Sums -/

/-- The nearest integer to `n / d`, midpoints to the even neighbour. -/
def roundHalfEven (n : Int) (d : Nat) : Int :=
  let f := n / d
  let r := n % d
  if 2 * r < d then f
  else if d < 2 * r then f + 1
  else if f % 2 = 0 then f
  else f + 1

theorem roundHalfEven_mul (q : Int) {d : Nat} (h : 0 < d) : roundHalfEven (q * d) d = q := by
  have hd : (d : Int) ≠ 0 := by omega
  unfold roundHalfEven
  simp only [Int.mul_ediv_cancel q hd, Int.mul_emod_left]
  rw [if_pos (by omega)]

/-- `m` over ten to the digits `s` and `dropped`, with the dropped digits rounded off; more are dropped while
the mantissa does not fit. -/
def reduce (m : Int) : (dropped s : Nat) → s ≤ S → Option (ScaledInt M S)
  | dropped, 0, hs =>
    if h : (roundHalfEven m (10 ^ dropped)).natAbs < M then some ⟨_, 0, h, hs⟩ else none
  | dropped, s + 1, hs =>
    if h : (roundHalfEven m (10 ^ dropped)).natAbs < M then some ⟨_, s + 1, h, hs⟩
    else reduce m (dropped + 1) s (Nat.le_of_succ_le hs)

/-- The sum; none when it overflows. -/
def add (a b : ScaledInt M S) : Option (ScaledInt M S) :=
  let s := max a.scale b.scale
  reduce (a.mantissa * 10 ^ (s - a.scale) + b.mantissa * 10 ^ (s - b.scale)) 0 s (max_le a.scale_le b.scale_le)

def sub (a b : ScaledInt M S) : Option (ScaledInt M S) := a.add b.neg

/-- Nothing is lost when the digits that have to be dropped are zeros. -/
theorem reduce_exact {m : Int} {dropped s : Nat} (hs : s ≤ S) {j : Nat} {q : Int} (hj : j ≤ s)
    (hm : m = q * 10 ^ (dropped + j)) (hq : q.natAbs < M) :
    ∃ c : ScaledInt M S, reduce m dropped s hs = some c ∧ c.value = m / 10 ^ (dropped + s) := by
  induction s generalizing dropped j with
  | zero =>
    obtain rfl : j = 0 := by omega
    have hround : roundHalfEven m (10 ^ dropped) = q := by
      rw [hm, Nat.add_zero, show (10 : Int) ^ dropped = ((10 ^ dropped : Nat) : Int) by push_cast; rfl]
      exact roundHalfEven_mul q (by positivity)
    unfold reduce
    rw [dif_pos (by rw [hround]; exact hq)]
    refine ⟨_, rfl, ?_⟩
    unfold value
    simp only [hround]
    rw [hm]
    push_cast
    field_simp
  | succ s ih =>
    unfold reduce
    split
    · -- the digits dropped so far are zeros, too
      have hround : roundHalfEven m (10 ^ dropped) = q * 10 ^ j := by
        rw [hm, pow_add, mul_comm (10 ^ dropped), ← mul_assoc,
          show (10 : Int) ^ dropped = ((10 ^ dropped : Nat) : Int) by push_cast; rfl]
        exact roundHalfEven_mul _ (by positivity)
      refine ⟨_, rfl, ?_⟩
      unfold value
      simp only [hround]
      rw [hm]
      push_cast
      field_simp
      ring
    · next hlt =>
      have hpos : j ≠ 0 := by
        rintro rfl
        apply hlt
        rw [hm, Nat.add_zero, show (10 : Int) ^ dropped = ((10 ^ dropped : Nat) : Int) by push_cast; rfl,
          roundHalfEven_mul q (by positivity)]
        exact hq
      obtain ⟨i, rfl⟩ := Nat.exists_eq_succ_of_ne_zero hpos
      have hnext := @ih (dropped + 1) (Nat.le_of_succ_le hs) i (by omega) (by rw [hm]; congr 2; omega)
      rw [show dropped + (s + 1) = dropped + 1 + s by omega]
      exact hnext

/-- **Exact sums.**  A sum is exact exactly when the exact sum is representable. -/
theorem add_exact_iff (a b : ScaledInt M S) :
    (∃ c, a.add b = some c ∧ c.value = a.value + b.value) ↔ Representable M S (a.value + b.value) := by
  constructor
  · rintro ⟨c, -, hc⟩
    exact ⟨c, hc⟩
  · rintro ⟨c, hc⟩
    let s := max a.scale b.scale
    let m := a.mantissa * 10 ^ (s - a.scale) + b.mantissa * 10 ^ (s - b.scale)
    have hvalue : a.value + b.value = m / 10 ^ s := by
      have ha : (10 : ℚ) ^ s = 10 ^ (s - a.scale) * 10 ^ a.scale := by
        rw [← pow_add, Nat.sub_add_cancel (le_max_left ..)]
      have hb : (10 : ℚ) ^ s = 10 ^ (s - b.scale) * 10 ^ b.scale := by
        rw [← pow_add, Nat.sub_add_cancel (le_max_right ..)]
      have hm : (m : ℚ) = a.mantissa * 10 ^ (s - a.scale) + b.mantissa * 10 ^ (s - b.scale) := by
        show ((a.mantissa * 10 ^ (s - a.scale) + b.mantissa * 10 ^ (s - b.scale) : Int) : ℚ) = _
        push_cast
        rfl
      rw [hm, add_div]
      congr 1
      · rw [ha, mul_comm, mul_div_mul_left _ _ (by positivity)]
        rfl
      · rw [hb, mul_comm, mul_div_mul_left _ _ (by positivity)]
        rfl
    have hcross : m * 10 ^ c.scale = c.mantissa * 10 ^ s := by
      have h : (c.mantissa : ℚ) / 10 ^ c.scale = m / 10 ^ s := by rw [← hvalue, ← hc]; rfl
      rw [div_eq_div_iff (by positivity) (by positivity)] at h
      exact_mod_cast h.symm
    rw [hvalue]
    by_cases hle : c.scale ≤ s
    · -- the digits after the scale of `c` are zeros
      have hm : m = c.mantissa * 10 ^ (0 + (s - c.scale)) := by
        have hpos : (10 : Int) ^ c.scale ≠ 0 := by positivity
        apply mul_right_cancel₀ hpos
        rw [hcross, mul_assoc, ← pow_add]
        congr 2
        omega
      have h := reduce_exact (S := S) (max_le a.scale_le b.scale_le) (Nat.sub_le s c.scale) hm c.mantissa_lt
      rw [Nat.zero_add] at h
      exact h
    · -- the mantissa of `c` has more digits
      have hc : c.mantissa = m * 10 ^ (c.scale - s) := by
        have hpos : (10 : Int) ^ s ≠ 0 := by positivity
        apply mul_right_cancel₀ hpos
        rw [← hcross, mul_assoc, ← pow_add]
        congr 2
        omega
      have hlt : m.natAbs < M := by
        apply lt_of_le_of_lt _ c.mantissa_lt
        rw [hc, Int.natAbs_mul]
        apply Nat.le_mul_of_pos_right
        rw [Int.natAbs_pow]
        positivity
      have hm : m = m * 10 ^ (0 + 0) := by simp
      have h := reduce_exact (S := S) (max_le a.scale_le b.scale_le) (Nat.zero_le s) hm hlt
      rw [Nat.zero_add] at h
      exact h

/-- All partial sums, starting from a number, are representable. -/
def SumsFit (M S : Nat) : ℚ → List ℚ → Prop
  | _, [] => True
  | x, y :: ys => Representable M S (x + y) ∧ SumsFit M S (x + y) ys

theorem sumsFit_append (x : ℚ) (ys zs : List ℚ) :
    SumsFit M S x (ys ++ zs) ↔ SumsFit M S x ys ∧ SumsFit M S (x + ys.sum) zs := by
  induction ys generalizing x with
  | nil => simp [SumsFit]
  | cons y ys ih => simp only [List.cons_append, SumsFit, ih, List.sum_cons, add_assoc, and_assoc]

/-- A sum over a list is exact when the partial sums are representable. -/
theorem sum_exact (a : ScaledInt M S) (ds : List (ScaledInt M S)) (h : SumsFit M S a.value (ds.map value)) :
    ∃ c, ds.foldlM (fun acc d => acc.add d) a = some c ∧ c.value = a.value + (ds.map value).sum := by
  induction ds generalizing a with
  | nil => exact ⟨a, rfl, (add_zero _).symm⟩
  | cons d ds ih =>
    obtain ⟨hd, hrest⟩ := h
    obtain ⟨b, hb, hvalue⟩ := (add_exact_iff a d).mpr hd
    rw [← hvalue] at hrest
    obtain ⟨c, hc, hsum⟩ := ih b hrest
    refine ⟨c, ?_, ?_⟩
    · rw [List.foldlM_cons, hb]
      exact hc
    · rw [hsum, hvalue, List.map_cons, List.sum_cons, add_assoc]

end ScaledInt
