import Mathlib.Algebra.Order.Field.Rat
import Mathlib.Order.Lattice

/-!
# Primitives

`Id<T>`, `Money<C>` and the machine integers of the source.

* An `Id` is a UUID tagged with the entity it names; ids are compared as the source compares the
  UUIDs.  A new id (`Id::new()`, version 4) is modelled by a number that was not used before.
* A `Money` amount is an exact decimal; the currency is a tag.
* `i64` sums wrap: `wrapI64`.  `x as u32` keeps the low 32 bits: `asU32`.
-/

namespace TptErp

/-- A UUID tagged with the kind of entity it names. -/
structure Id (T : Type) where
  uuid : Nat

namespace Id

variable {T : Type}

theorem uuid_injective : Function.Injective (uuid : Id T → Nat) := by
  rintro ⟨a⟩ ⟨b⟩ h
  exact congrArg Id.mk h

instance : DecidableEq (Id T) := fun a b =>
  decidable_of_iff (a.uuid = b.uuid) uuid_injective.eq_iff

instance : LinearOrder (Id T) :=
  { LinearOrder.lift' (uuid : Id T → Nat) uuid_injective with
    toDecidableEq := inferInstance }

end Id

/-- An amount of money in the currency `C`. -/
abbrev Money (_C : Type) := ℚ

/-- The currency marker of the demo applications (two minor digits). -/
inductive Usd

/-- The values of type `i64`. -/
abbrev I64 := { x : Int // -2 ^ 63 ≤ x ∧ x < 2 ^ 63 }

/-- The values of type `i32`. -/
abbrev I32 := { x : Int // -2 ^ 31 ≤ x ∧ x < 2 ^ 31 }

instance : DecidableLE I32 := fun a b => inferInstanceAs (Decidable (a.val ≤ b.val))

instance : DecidableLT I32 := fun a b => inferInstanceAs (Decidable (a.val < b.val))

/-- The values of type `u32`. -/
abbrev U32 := { n : Nat // n < 2 ^ 32 }

/-- The value an `i64` holds after an addition or subtraction whose exact result is `x`. -/
def wrapI64 (x : Int) : Int := Int.bmod x (2 ^ 64)

/-- `x as u32`. -/
def asU32 (x : Int) : Nat := (x % 2 ^ 32).toNat

theorem wrapI64_of_lt {x : Int} (h1 : -2 ^ 63 ≤ x) (h2 : x < 2 ^ 63) : wrapI64 x = x := by
  unfold wrapI64
  exact Int.bmod_eq_of_le (by omega) (by omega)

theorem wrapI64_lt (x : Int) : wrapI64 x < 2 ^ 63 := by
  unfold wrapI64
  have := @Int.bmod_lt x (2 ^ 64) (by omega)
  omega

theorem le_wrapI64 (x : Int) : -2 ^ 63 ≤ wrapI64 x := by
  unfold wrapI64
  have := @Int.le_bmod x (2 ^ 64) (by omega)
  omega

/-- A sum of two non-negative `i64` values that overflows wraps to a negative value. -/
theorem wrapI64_neg {x : Int} (h1 : 2 ^ 63 ≤ x) (h2 : x < 2 ^ 64) : wrapI64 x < 0 := by
  rw [wrapI64, Int.bmod_def]
  split <;> omega

/-- Wrapping a summand before the sum wraps makes no difference. -/
theorem wrapI64_add_wrapI64 (a b : Int) : wrapI64 (a + wrapI64 b) = wrapI64 (a + b) := by
  unfold wrapI64
  exact Int.add_bmod_bmod

/-- An `i64` value. -/
def i64 (x : Int) : I64 := ⟨wrapI64 x, le_wrapI64 x, wrapI64_lt x⟩

/-- A `u32` value. -/
def u32 (n : Nat) : U32 := ⟨n % 2 ^ 32, Nat.mod_lt n (by decide)⟩

/-- The number of a UUID modulo 64. -/
def mod64 (n : Nat) : Fin 64 := ⟨n % 64, Nat.mod_lt n (by decide)⟩

end TptErp
