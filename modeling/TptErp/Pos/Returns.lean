import TptErp.Pos.Tender
import TptErp.Pos.Txn
import TptErp.Allocation
import Mathlib.Tactic.LinearCombination
import Mathlib.Tactic.Linarith

/-!
# Returns

What a return is worth and how it is split over the tenders of the sale.  The refund is the first
part of the total allocated over the returned merchandise and the rest of the subtotal; on a total
of whole cents that is a rounded fraction (`allocate_pair`).
-/

namespace TptErp.Pos

/-- A captured sale. -/
structure SaleRecord where
  id : Id PosTxn
  status : TxnStatus
  subtotal : Money Usd
  discount : Money Usd
  tax : Money Usd
  total : Money Usd
  tenders : List Tender
  lines : List LineItem

structure ReturnLine where
  item : Id PosItem
  qty : U32

structure RefundSplit where
  refundAmount : Money Usd
  tenders : List Tender

inductive ReturnError
  | notReturnable (status : TxnStatus)
  | overReturn
  | tender (e : TenderError)

/-- The value of the lines asked for, at their price before the discount. -/
def merchandiseOf (record : SaleRecord) (returns : List ReturnLine) : Money Usd :=
  if returns = [] then record.subtotal
  else
    returns.foldl
      (fun sum r =>
        sum + (((record.lines.filter fun l => l.item = r.item).map fun l => l.unitPrice * (r.qty.1 : ℚ)).foldl
          (fun a b => a + b) 0))
      0

/-- An empty list returns the whole sale. -/
def returnedMerchandise (record : SaleRecord) (returns : List ReturnLine) :
    Except ReturnError (Money Usd) :=
  let total := merchandiseOf record returns
  if record.subtotal < total then .error .overReturn else .ok total

def computeRefund (record : SaleRecord) (returned : Money Usd) : Except ReturnError RefundSplit :=
  if record.subtotal < returned then .error .overReturn
  else
    let rW := weight returned
    let sW := weight record.subtotal
    match Money.allocate record.total [rW, sW - rW] with
    | .error _ => .error (.tender .emptyTenders)
    | .ok parts =>
      let refundAmount := parts.getD 0 0
      match splitTotal refundAmount record.tenders with
      | .error e => .error (.tender e)
      | .ok applied =>
        .ok
          { refundAmount
            tenders := (record.tenders.zip applied).map fun p => { kind := p.1.kind, amount := p.2 } }

/-! ## Two parts -/

/-- `r` of `s` parts of `t` cents: rounded to the nearest cent, halves up; cut off when `t` is
negative. -/
def roundedShare (t : Int) (r s : Nat) : Int :=
  if 0 ≤ t then (2 * t * r + s) / (2 * s) else (t * r).tdiv s

/-- The two parts of `t` cents cut off, in cents, and `s` times what they leave over. -/
theorem share_eq (t : Int) (r s : Nat) (hs : 0 < s) :
    Money.share (C := Usd) ((t : ℚ) / 100) (s : ℚ) r =
      ((((t * r).tdiv s : Int) : ℚ) / 100, (((t * r).tmod s : Int) : ℚ) / 100) := by
  have h := Money.share_units (C := Usd) t r s hs
  rw [Money.minorUnit_usd, mul_one_div, mul_one_div, mul_one_div] at h
  exact h

/-- What cutting off two parts of `t` cents leaves over: nothing, or one cent; less than nothing when `t`
is negative. -/
theorem leftover_cases (t : Int) (r q : Nat) (hs : 0 < r + q) :
    (0 ≤ t ∧ 0 ≤ (t * r).tmod (r + q : Nat) ∧ 0 ≤ (t * q).tmod (r + q : Nat) ∧
      ((t - (t * r).tdiv (r + q : Nat) - (t * q).tdiv (r + q : Nat) = 0 ∧
          (t * r).tmod (r + q : Nat) + (t * q).tmod (r + q : Nat) = 0) ∨
        (t - (t * r).tdiv (r + q : Nat) - (t * q).tdiv (r + q : Nat) = 1 ∧
          (t * r).tmod (r + q : Nat) + (t * q).tmod (r + q : Nat) = (r + q : Nat)))) ∨
    (t < 0 ∧ t - (t * r).tdiv (r + q : Nat) - (t * q).tdiv (r + q : Nat) ≤ 0) := by
  have hr := Int.mul_tdiv_add_tmod (t * r) (r + q : Nat)
  have hq := Int.mul_tdiv_add_tmod (t * q) (r + q : Nat)
  have hS : (0 : Int) < (r + q : Nat) := by exact_mod_cast hs
  have hsum : t * r + t * q = (r + q : Nat) * t := by push_cast; ring
  generalize ((r + q : Nat) : Int) = S at *
  have hleft : S * (t - (t * r).tdiv S - (t * q).tdiv S) = (t * r).tmod S + (t * q).tmod S := by
    linear_combination -hr - hq - hsum
  by_cases ht : 0 ≤ t
  · have hx0 := Int.tmod_nonneg S (show 0 ≤ t * r by positivity)
    have hy0 := Int.tmod_nonneg S (show 0 ≤ t * q by positivity)
    have hx1 := Int.tmod_lt_of_pos (t * r) hS
    have hy1 := Int.tmod_lt_of_pos (t * q) hS
    have hL0 : 0 ≤ t - (t * r).tdiv S - (t * q).tdiv S := by nlinarith
    have hL1 : t - (t * r).tdiv S - (t * q).tdiv S ≤ 1 := by nlinarith
    refine Or.inl ⟨ht, hx0, hy0, ?_⟩
    rcases (show t - (t * r).tdiv S - (t * q).tdiv S = 0 ∨ t - (t * r).tdiv S - (t * q).tdiv S = 1 by omega)
      with hL | hL
    · rw [hL] at hleft
      exact Or.inl ⟨hL, by omega⟩
    · rw [hL] at hleft
      exact Or.inr ⟨hL, by omega⟩
  · have hneg : ∀ n : Nat, (t * n).tmod S ≤ 0 := by
      intro n
      have h0 : 0 ≤ -(t * n) := by nlinarith [Int.natCast_nonneg n]
      have := Int.tmod_nonneg S h0
      rw [Int.neg_tmod] at this
      omega
    exact Or.inr ⟨by omega, by nlinarith [hneg r, hneg q]⟩

/-- The first of two parts gets the cent left over when at least half a cent was cut off. -/
theorem roundedShare_eq (t : Int) (r q : Nat) (hs : 0 < r + q) :
    roundedShare t r (r + q) = (t * r).tdiv (r + q : Nat) +
      if 1 ≤ t - (t * r).tdiv (r + q : Nat) - (t * q).tdiv (r + q : Nat) ∧
          (t * q).tmod (r + q : Nat) ≤ (t * r).tmod (r + q : Nat) then 1 else 0 := by
  have hr := Int.mul_tdiv_add_tmod (t * r) (r + q : Nat)
  have hc := leftover_cases t r q hs
  have hS : (0 : Int) < (r + q : Nat) := by exact_mod_cast hs
  unfold roundedShare
  generalize ((r + q : Nat) : Int) = S at *
  generalize (t * r).tdiv S = A at *
  generalize (t * q).tdiv S = B at *
  generalize (t * r).tmod S = x at *
  generalize (t * q).tmod S = y at *
  rcases hc with ⟨ht, hx, hy, hc⟩ | ⟨ht, hL⟩
  · have hn : 2 * t * r + S = 2 * S * A + (2 * x + S) := by linear_combination -2 * hr
    have hS2 : (0 : Int) < 2 * S := by omega
    rw [if_pos ht, hn, Int.add_comm, Int.add_mul_ediv_left _ _ hS2.ne', Int.add_comm]
    congr 1
    rcases hc with ⟨hL, hxy⟩ | ⟨hL, hxy⟩
    · rw [if_neg (by omega)]
      exact Int.ediv_eq_zero_of_lt (by omega) (by omega)
    · by_cases hle : y ≤ x
      · rw [if_pos ⟨hL.ge, hle⟩, show 2 * x + S = (2 * x - S) + 2 * S * 1 by ring,
          Int.add_mul_ediv_left _ _ hS2.ne', Int.ediv_eq_zero_of_lt (by omega) (by omega)]
        rfl
      · rw [if_neg (fun hc => hle hc.2)]
        exact Int.ediv_eq_zero_of_lt (by omega) (by omega)
  · rw [if_neg (by omega), if_neg (by omega), add_zero]

/-- Allocating `t` cents over two weights: the first part. -/
theorem allocate_pair (t : Int) (r q : Nat) (hs : 0 < r + q) (hw : r + q < 2 ^ 64) :
    ∃ rest : ℚ, Money.allocate (C := Usd) ((t : ℚ) / 100) [r, q] =
      .ok [(roundedShare t r (r + q) : ℚ) / 100, rest] := by
  have hsum : sumU64 [r, q] = r + q := by
    show (r + (q + 0)) % 2 ^ 64 = r + q
    rw [Nat.mod_eq_of_lt (by omega)]
    rfl
  have hne : ((r + q : Nat) : ℚ) ≠ 0 := by exact_mod_cast hs.ne'
  have hL : t - (t * r).tdiv (r + q : Nat) - (t * q).tdiv (r + q : Nat) ≤ 1 := by
    rcases leftover_cases t r q hs with ⟨-, -, -, h | h⟩ | h
    · omega
    · omega
    · omega
  rw [roundedShare_eq t r q hs]
  unfold Money.allocate
  rw [if_neg (List.cons_ne_nil _ _), hsum]
  dsimp only
  rw [if_neg hne]
  simp only [List.map_cons, List.map_nil, share_eq t _ _ hs, List.zipIdx, List.foldl, List.insertionSort,
    List.foldr, List.orderedInsert]
  generalize (t * r).tdiv (r + q : Nat) = A at *
  generalize (t * q).tdiv (r + q : Nat) = B at *
  generalize (t * r).tmod (r + q : Nat) = x
  generalize (t * q).tmod (r + q : Nat) = y
  have hle : ((y : ℚ) / 100 ≤ (x : ℚ) / 100) ↔ y ≤ x := by
    rw [div_le_div_iff_of_pos_right (by norm_num)]
    exact_mod_cast Iff.rfl
  have hlo : ∀ n : Int, ((1 : ℚ) / 100 ≤ (n : ℚ) / 100) ↔ 1 ≤ n := by
    intro n
    rw [div_le_div_iff_of_pos_right (by norm_num)]
    exact_mod_cast Iff.rfl
  have hleft : (t : ℚ) / 100 - (0 + (A : ℚ) / 100 + (B : ℚ) / 100) = ((t - A - B : Int) : ℚ) / 100 := by
    push_cast
    ring
  have hrest : ((t - A - B : Int) : ℚ) / 100 - 1 / 100 = ((t - A - B - 1 : Int) : ℚ) / 100 := by
    push_cast
    ring
  rw [Money.minorUnit_usd, hleft]
  by_cases h1 : 1 ≤ t - A - B
  · -- a cent is left over, and goes to one of the two
    have h2 : ¬ 1 ≤ t - A - B - 1 := by omega
    by_cases hxy : y ≤ x
    · rw [if_pos (hle.mpr hxy), if_pos ⟨h1, hxy⟩]
      refine ⟨(B : ℚ) / 100, ?_⟩
      simp only [Money.giveLeftover, if_pos ((hlo _).mpr h1), hrest, if_neg (fun h => h2 ((hlo _).mp h))]
      have hA : ((A + 1 : Int) : ℚ) / 100 = A / 100 + 1 / 100 := by push_cast; ring
      rw [hA]
      rfl
    · rw [if_neg (fun h => hxy (hle.mp h)), if_neg (fun h => hxy h.2), add_zero]
      refine ⟨(B : ℚ) / 100 + 1 / 100, ?_⟩
      simp only [Money.giveLeftover, if_pos ((hlo _).mpr h1), hrest, if_neg (fun h => h2 ((hlo _).mp h))]
      rfl
  · rw [if_neg (fun h : 1 ≤ t - A - B ∧ y ≤ x => h1 h.1), add_zero]
    refine ⟨(B : ℚ) / 100, ?_⟩
    split
    · simp only [Money.giveLeftover, if_neg (fun h => h1 ((hlo _).mp h))]
    · simp only [Money.giveLeftover, if_neg (fun h => h1 ((hlo _).mp h))]

/-! ## Refunds in cents -/

theorem amountToU64_lt (m : Money Usd) : amountToU64 m < 2 ^ 63 := by
  unfold amountToU64 toI64
  dsimp only
  split
  · next h => simp only [Option.getD_some]; omega
  · simp

/-- The tenders can be charged `total`. -/
def Splits (total : Money Usd) (tenders : List Tender) : Prop :=
  tenders ≠ [] ∧ total ≤ offeredSum tenders ∧ sumU64 (tenders.map fun t => amountToU64 t.amount) ≠ 0

instance (total : Money Usd) (tenders : List Tender) : Decidable (Splits total tenders) :=
  decidable_of_iff (tenders.isEmpty = false ∧ total ≤ offeredSum tenders ∧
    sumU64 (tenders.map fun t => amountToU64 t.amount) ≠ 0) (by unfold Splits; simp)

theorem splitTotal_cases (total : Money Usd) (tenders : List Tender) :
    (Splits total tenders ∧ ∃ applied, splitTotal total tenders = .ok applied) ∨
    (¬ Splits total tenders ∧ ∃ e, splitTotal total tenders = .error e) := by
  unfold Splits splitTotal
  by_cases h0 : tenders = []
  · rw [if_pos h0]
    exact Or.inr ⟨fun h => h.1 h0, _, rfl⟩
  · rw [if_neg h0]
    dsimp only
    by_cases h1 : offeredSum tenders < total
    · rw [if_pos h1]
      exact Or.inr ⟨fun h => not_le.mpr h1 h.2.1, _, rfl⟩
    · rw [if_neg h1]
      unfold Money.allocate
      rw [if_neg (by simpa using h0)]
      dsimp only
      by_cases h2 : sumU64 (tenders.map fun t => amountToU64 t.amount) = 0
      · rw [if_pos (by exact_mod_cast h2)]
        exact Or.inr ⟨fun h => h.2.2 h2, _, rfl⟩
      · rw [if_neg (by exact_mod_cast h2)]
        exact Or.inl ⟨⟨h0, not_lt.mp h1, h2⟩, _, rfl⟩

namespace SaleRecord

variable (record : SaleRecord)

/-- The total in cents. -/
def totalCents : Int := trunc (record.total * 100)

/-- The total is a whole number of cents. -/
def WholeCents : Prop := record.total = (record.totalCents : ℚ) / 100

/-- The share of the total, in cents, that goes with merchandise of that value. -/
def refundCents (returned : Money Usd) : Int :=
  roundedShare record.totalCents (weight returned) (max (weight returned) (weight record.subtotal))

/-- The merchandise can be returned: it was bought, it has a share, and the tenders can take it. -/
def Refundable (returned : Money Usd) : Prop :=
  returned ≤ record.subtotal ∧ 0 < max (weight returned) (weight record.subtotal) ∧
    Splits ((record.refundCents returned : ℚ) / 100) record.tenders

instance (returned : Money Usd) : Decidable (record.Refundable returned) :=
  inferInstanceAs (Decidable (_ ∧ _ ∧ _))

end SaleRecord

theorem computeRefund_cases {record : SaleRecord} (h : record.WholeCents) (returned : Money Usd) :
    (record.Refundable returned ∧ ∃ split, computeRefund record returned = .ok split ∧
      split.refundAmount = (record.refundCents returned : ℚ) / 100) ∨
    (¬ record.Refundable returned ∧ ∃ e, computeRefund record returned = .error e) := by
  have hr := amountToU64_lt returned
  have hs := amountToU64_lt record.subtotal
  have hmax : max (weight returned) (weight record.subtotal) =
      weight returned + (weight record.subtotal - weight returned) := by omega
  unfold computeRefund SaleRecord.Refundable
  by_cases h0 : record.subtotal < returned
  · rw [if_pos h0]
    exact Or.inr ⟨fun hf => not_le.mpr h0 hf.1, _, rfl⟩
  · rw [if_neg h0]
    dsimp only
    by_cases h1 : 0 < weight returned + (weight record.subtotal - weight returned)
    · obtain ⟨parts, ha, hp⟩ : ∃ parts, Money.allocate record.total
          [weight returned, weight record.subtotal - weight returned] = .ok parts ∧
            parts.getD 0 0 = (record.refundCents returned : ℚ) / 100 := by
        obtain ⟨rest, ha⟩ := allocate_pair record.totalCents _ _ h1 (by unfold weight; omega)
        rw [← h, ← hmax] at ha
        exact ⟨_, ha, rfl⟩
      rw [ha]
      dsimp only
      rw [hp]
      rw [← hmax] at h1
      rcases splitTotal_cases ((record.refundCents returned : ℚ) / 100) record.tenders with
        ⟨hok, applied, he⟩ | ⟨hno, e, he⟩
      · rw [he]
        exact Or.inl ⟨⟨not_lt.mp h0, h1, hok⟩, _, rfl, rfl⟩
      · rw [he]
        exact Or.inr ⟨fun hf => hno hf.2.2, _, rfl⟩
    · have hz : sumU64 [weight returned, weight record.subtotal - weight returned] = 0 := by
        show (weight returned + (weight record.subtotal - weight returned + 0)) % 2 ^ 64 = 0
        omega
      unfold Money.allocate
      rw [if_neg (List.cons_ne_nil _ _), hz]
      dsimp only
      rw [if_pos (by norm_num)]
      exact Or.inr ⟨fun hf => h1 (hmax ▸ hf.2.1), _, rfl⟩

end TptErp.Pos
