import Mathlib.Algebra.BigOperators.Group.List.Lemmas
import Mathlib.Algebra.CharZero.Defs
import Mathlib.Algebra.Order.BigOperators.Group.List
import Mathlib.Algebra.Order.Field.Basic
import Mathlib.Data.List.Perm.Basic
import Mathlib.Tactic.FieldSimp
import Mathlib.Tactic.LinearCombination
import Mathlib.Tactic.Ring

/-!
# Running moments

The mean and the sum of squared deviations of a stream, kept by Welford's update of one sample at a time:

    (xs.foldl push start) = batch xs        (foldl_push)

with `batch` the two-pass definition.  The update is written over any type with the operations, so that it runs
on floating-point numbers as well; the equation is about fields of characteristic zero.
-/

namespace TptErp

/-- What is kept of a stream of samples. -/
structure Moments (K : Type) where
  n : Nat
  mean : K
  m2 : K

namespace Moments

/-- One more sample; `ofNat` is the conversion of the count. -/
def push {K : Type} [Add K] [Sub K] [Mul K] [Div K] (ofNat : Nat → K) (m : Moments K) (x : K) : Moments K :=
  let n := m.n + 1
  let delta := x - m.mean
  let mean := m.mean + delta / ofNat n
  let delta2 := x - mean
  { n := n, mean := mean, m2 := m.m2 + delta * delta2 }

/-- No samples yet. -/
def start {K : Type} [Zero K] : Moments K := { n := 0, mean := 0, m2 := 0 }

end Moments

/-! ## In two passes -/

section Field

variable {K : Type} [Field K]

def average (xs : List K) : K := xs.sum / xs.length

/-- The sum of the squared distances from `c`. -/
def squaresAbout (c : K) (xs : List K) : K := (xs.map fun x => (x - c) ^ 2).sum

/-- The sum of the squared deviations from the average. -/
def spread (xs : List K) : K := squaresAbout (average xs) xs

def Moments.batch (xs : List K) : Moments K := { n := xs.length, mean := average xs, m2 := spread xs }

@[simp] theorem squaresAbout_nil (c : K) : squaresAbout c [] = 0 := rfl

theorem squaresAbout_append (c : K) (xs ys : List K) :
    squaresAbout c (xs ++ ys) = squaresAbout c xs + squaresAbout c ys := by
  unfold squaresAbout
  rw [List.map_append, List.sum_append]

@[simp] theorem squaresAbout_singleton (c x : K) : squaresAbout c [x] = (x - c) ^ 2 := by
  simp [squaresAbout]

/-- The squares about another center. -/
theorem squaresAbout_eq (c d : K) (xs : List K) :
    squaresAbout d xs = squaresAbout c xs + 2 * (c - d) * (xs.sum - xs.length * c) + xs.length * (c - d) ^ 2 := by
  induction xs with
  | nil => simp
  | cons x xs ih =>
    have hcons : ∀ e : K, squaresAbout e (x :: xs) = (x - e) ^ 2 + squaresAbout e xs := fun _ => rfl
    rw [hcons, hcons, ih, List.sum_cons, List.length_cons, Nat.cast_succ]
    ring

variable [CharZero K]

theorem length_mul_average (xs : List K) : xs.length * average xs = xs.sum := by
  cases xs with
  | nil => simp
  | cons x xs =>
    have hpos : ((x :: xs).length : K) ≠ 0 := by simp [Nat.cast_add_one_ne_zero]
    exact mul_div_cancel₀ _ hpos

/-- About the average the squares are least, by the squared distance of the centers for each sample. -/
theorem squaresAbout_eq_spread (c : K) (xs : List K) :
    squaresAbout c xs = spread xs + xs.length * (average xs - c) ^ 2 := by
  unfold spread
  rw [squaresAbout_eq (average xs) c, length_mul_average, sub_self, mul_zero, add_zero]

/-- The average moves towards the new sample. -/
theorem average_append (xs : List K) (x : K) :
    average (xs ++ [x]) = average xs + (x - average xs) / (xs.length + 1 : Nat) := by
  have hpos : ((xs.length + 1 : Nat) : K) ≠ 0 := Nat.cast_ne_zero.mpr (by omega)
  have hsum := length_mul_average xs
  rw [show average (xs ++ [x]) = (xs ++ [x]).sum / (xs ++ [x]).length from rfl, List.sum_append, List.sum_singleton,
    List.length_append, List.length_singleton, ← hsum]
  field_simp
  push_cast
  ring

/-- The spread grows by the product of the distances from the old and from the new average. -/
theorem spread_append (xs : List K) (x : K) :
    spread (xs ++ [x]) = spread xs + (x - average xs) * (x - average (xs ++ [x])) := by
  have hpos : ((xs.length + 1 : Nat) : K) ≠ 0 := Nat.cast_ne_zero.mpr (by omega)
  have hmove : ((xs.length + 1 : Nat) : K) * (average (xs ++ [x]) - average xs) = x - average xs := by
    rw [average_append, add_sub_cancel_left]
    exact mul_div_cancel₀ _ hpos
  show squaresAbout _ _ = _
  rw [squaresAbout_append, squaresAbout_singleton, squaresAbout_eq_spread]
  push_cast at hmove
  linear_combination (average (xs ++ [x]) - average xs) * hmove

namespace Moments

/-- **One sample** takes the two-pass moments to the two-pass moments. -/
theorem push_batch (xs : List K) (x : K) : (batch xs).push Nat.cast x = batch (xs ++ [x]) := by
  have hmean : (batch xs).mean + (x - (batch xs).mean) / ((xs.length + 1 : Nat) : K) = average (xs ++ [x]) :=
    (average_append xs x).symm
  show Moments.mk (xs.length + 1) _ _ = _
  rw [show (batch xs).n = xs.length from rfl, hmean]
  unfold batch
  rw [List.length_append, List.length_singleton, spread_append]

/-- **The stream**: the running moments are the two-pass ones. -/
theorem foldl_push (xs : List K) : xs.foldl (push Nat.cast) start = batch xs := by
  suffices ∀ seen rest : List K, rest.foldl (push Nat.cast) (batch seen) = batch (seen ++ rest) by
    have hstart : (start : Moments K) = batch [] := by simp [start, batch, average, spread]
    rw [hstart]
    exact this [] xs
  intro seen rest
  induction rest generalizing seen with
  | nil => rw [List.append_nil]; rfl
  | cons x rest ih =>
    rw [List.foldl_cons, push_batch, ih, List.append_assoc, List.singleton_append]

omit [CharZero K] in
/-- The order of the samples does not matter. -/
theorem batch_perm {xs ys : List K} (h : xs.Perm ys) : batch xs = batch ys := by
  have haverage : average xs = average ys := by
    unfold average
    rw [h.sum_eq, h.length_eq]
  unfold batch spread squaresAbout
  rw [h.length_eq, haverage, (h.map _).sum_eq]

end Moments

end Field

/-! ## Order -/

section Order

variable {K : Type} [Field K] [LinearOrder K] [IsStrictOrderedRing K]

theorem squaresAbout_nonneg (c : K) (xs : List K) : 0 ≤ squaresAbout c xs := by
  apply List.sum_nonneg
  intro y hy
  obtain ⟨x, -, rfl⟩ := List.mem_map.mp hy
  exact sq_nonneg _

theorem squaresAbout_eq_zero_iff (c : K) (xs : List K) : squaresAbout c xs = 0 ↔ ∀ x ∈ xs, x = c := by
  induction xs with
  | nil => simp
  | cons x xs ih =>
    have hcons : squaresAbout c (x :: xs) = (x - c) ^ 2 + squaresAbout c xs := rfl
    rw [hcons, add_eq_zero_iff_of_nonneg (sq_nonneg _) (squaresAbout_nonneg c xs), ih, List.forall_mem_cons]
    simp [sub_eq_zero]

theorem spread_nonneg (xs : List K) : 0 ≤ spread xs := squaresAbout_nonneg _ xs

/-- There is no spread exactly when all samples are equal. -/
theorem spread_eq_zero_iff (xs : List K) : spread xs = 0 ↔ ∀ x ∈ xs, ∀ y ∈ xs, x = y := by
  unfold spread
  rw [squaresAbout_eq_zero_iff]
  constructor
  · intro h x hx y hy
    rw [h x hx, h y hy]
  · intro h x hx
    have hsum : xs.sum = xs.length * x := by
      rw [List.eq_replicate_of_mem fun y hy => h y hy x hx, List.sum_replicate, List.length_replicate, nsmul_eq_mul]
    have hpos : (xs.length : K) ≠ 0 := Nat.cast_ne_zero.mpr (List.length_pos_of_mem hx).ne'
    rw [average, hsum, mul_div_cancel_left₀ _ hpos]

end Order

end TptErp
