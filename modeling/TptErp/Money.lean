import TptErp.Primitives
import Mathlib.Algebra.Order.Floor.Defs
import Mathlib.Data.Rat.Floor
import Mathlib.Data.List.Sort

/-!
# Money

Decimal arithmetic and `Money::allocate`.  Amounts are exact decimals (the 28-digit limit of
`Decimal` is not modelled); `toI64` and the rounding modes follow `rust_decimal`.

`allocate` splits an amount over ratios: every part is its exact share cut off after the minor
digits, and the units left over go one each to the largest remainders.
-/

namespace TptErp

/-- A currency marker. -/
class Currency (C : Type) where
  /-- Number of minor digits. -/
  MINOR_UNITS : Nat

instance : Currency Usd := ⟨2⟩

/-- The integer part, towards zero. -/
def trunc (x : ℚ) : Int := if 0 ≤ x then ⌊x⌋ else ⌈x⌉

/-- `Decimal::to_i64`: the integer part, when it fits. -/
def toI64 (x : ℚ) : Option Int :=
  let n := trunc x
  if -2 ^ 63 ≤ n ∧ n < 2 ^ 63 then some n else none

/-- `round_dp_with_strategy(dp, ToZero)`. -/
def roundToZero (dp : Nat) (x : ℚ) : ℚ := trunc (x * 10 ^ dp) / 10 ^ dp

/-- `round_dp(dp)`: to the nearest, midpoints to the even neighbour. -/
def roundDp (dp : Nat) (x : ℚ) : ℚ :=
  let y := x * 10 ^ dp
  let f := ⌊y⌋
  let n :=
    if y - f < 1 / 2 then f
    else if 1 / 2 < y - f then f + 1
    else if f % 2 = 0 then f
    else f + 1
  n / 10 ^ dp

inductive MoneyError
  | emptyRatios
  | zeroTotalRatio
deriving DecidableEq

/-- A sum of `u64` values, which wraps. -/
def sumU64 (xs : List Nat) : Nat := xs.sum % 2 ^ 64

namespace Money

variable {C : Type} [Currency C]

/-- One minor unit. -/
def minorUnit (C : Type) [Currency C] : ℚ := 1 / 10 ^ Currency.MINOR_UNITS C

/-- A ratio's share of the amount, cut off after the minor digits, and what the cut left over
(times the sum of the ratios). -/
def share (amount : Money C) (totalRatio : ℚ) (r : Nat) : ℚ × ℚ :=
  let share := amount * r
  let whole := roundToZero (Currency.MINOR_UNITS C) (share / totalRatio)
  (whole, share - whole * totalRatio)

/-- One unit for each remainder in turn, while there is a unit left. -/
def giveLeftover (unit : ℚ) : List (Nat × ℚ) → List ℚ → ℚ → List ℚ
  | [], parts, _ => parts
  | (i, _) :: rest, parts, leftover =>
    if unit ≤ leftover then giveLeftover unit rest (parts.modify i (· + unit)) (leftover - unit)
    else giveLeftover unit rest parts leftover

/-- `Money::allocate`, the largest-remainder method. -/
def allocate (amount : Money C) (ratios : List Nat) : Except MoneyError (List (Money C)) :=
  if ratios = [] then .error .emptyRatios
  else
    let totalRatio : ℚ := sumU64 ratios
    if totalRatio = 0 then .error .zeroTotalRatio
    else
      let shares := ratios.map (share amount totalRatio)
      let parts := shares.map (·.1)
      let leftover := amount - parts.foldl (· + ·) 0
      let remainders := (shares.map (·.2)).zipIdx.map fun p => (p.2, p.1)
      -- largest remainder first; equal ones keep their order
      let order := remainders.insertionSort fun a b => b.2 ≤ a.2
      .ok (giveLeftover (minorUnit C) order parts leftover)

end Money

end TptErp
