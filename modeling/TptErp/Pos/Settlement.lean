import TptErp.Pos.Exchange
import Mathlib.Algebra.BigOperators.Ring.Finset

/-!
# Settling a sale

What the tenders of a sale that goes through come to.  The credit is pushed in front of the shares when it is
positive, and the tenders share what it leaves of the total, by weights that are truncated to whole cents and
added up in 64 bits.  `ringSale_settles_iff`: the sale is settled exactly when nothing is negative and what the
credit leaves is a whole number of cents that the weights can carry (`Settleable`).
-/

namespace TptErp.Pos

/-! ## Weights -/

/-- The weights of the tenders. -/
def weightsOf (tenders : List SaleTender) : List Nat := tenders.map fun t => amountToU64 t.toTender.amount

/-- A tender weighs what it offers in cents, or nothing: when that is negative, or not an `i64`. -/
theorem weight_eq (t : SaleTender) :
    amountToU64 t.toTender.amount = if 100 * t.amount.1 < 2 ^ 63 then (100 * t.amount.1).toNat else 0 := by
  have hcents : t.toTender.amount * 10 ^ Currency.MINOR_UNITS Usd = ((100 * t.amount.1 : Int) : ℚ) / (1 : Nat) := by
    show (t.amount.1 : ℚ) * 10 ^ 2 = _
    push_cast
    ring
  have htrunc : trunc (t.toTender.amount * 10 ^ Currency.MINOR_UNITS Usd) = 100 * t.amount.1 := by
    rw [hcents, trunc_div]
    exact Int.tdiv_one _
  unfold amountToU64 toI64
  rw [htrunc]
  dsimp only
  by_cases h1 : 100 * t.amount.1 < 2 ^ 63
  · rw [if_pos h1]
    by_cases h2 : -2 ^ 63 ≤ 100 * t.amount.1
    · rw [if_pos ⟨h2, h1⟩, Option.getD_some]
    · rw [if_neg (fun h => h2 h.1), Option.getD_none]
      omega
  · rw [if_neg (fun h => h1 h.2), if_neg h1]
    rfl

theorem dvd_weight {tenders : List SaleTender} {w : Nat} (h : w ∈ weightsOf tenders) : 100 ∣ w := by
  obtain ⟨t, -, rfl⟩ := List.mem_map.mp h
  rw [weight_eq]
  split
  · exact Int.natCast_dvd_natCast.mp (by omega)
  · exact dvd_zero 100

/-- When the sum of the weights wraps and the shares still add up, there is little to share. -/
theorem le_sumU64_of_addsUp {c : Int} {ratios : List Nat} (hc : 0 ≤ c) (hdvd : ∀ w ∈ ratios, 100 ∣ w)
    (hpos : 0 < sumU64 ratios) (hwrap : 2 ^ 64 ≤ ratios.sum) (h : AddsUp c ratios) : c ≤ sumU64 ratios := by
  have hs : (0 : Int) < sumU64 ratios := by exact_mod_cast hpos
  have hlt : sumU64 ratios < 2 ^ 64 := Nat.mod_lt _ (by norm_num)
  -- a share that is cut weighs at least a hundred
  have hrest : 100 * Money.cutRest c (sumU64 ratios) ratios ≤ sumU64 ratios * ratios.sum := by
    have hle : ∀ xs : List Nat, (∀ w ∈ xs, 100 ∣ w) →
        100 * Money.cutRest c (sumU64 ratios) xs ≤ sumU64 ratios * (xs.sum : Nat) := by
      intro xs hxs
      unfold Money.cutRest
      induction xs with
      | nil => simp
      | cons w xs ih =>
        obtain ⟨hw, hxs⟩ := List.forall_mem_cons.mp hxs
        have ih := ih hxs
        rw [List.map_cons, List.sum_cons, List.sum_cons, Nat.cast_add, mul_add, mul_add]
        have hr : 100 * (c * w).tmod (sumU64 ratios) ≤ sumU64 ratios * (w : Int) := by
          obtain ⟨v, rfl⟩ := hw
          have hm := Int.tmod_lt_of_pos (c * (100 * v : Nat)) hs
          by_cases hv : v = 0
          · subst hv
            simp
          · have hv1 : (1 : Int) ≤ v := by omega
            push_cast at hm ⊢
            nlinarith
        omega
    exact hle ratios hdvd
  have hsum := Money.wholeUnits_add_cutRest c (sumU64 ratios) ratios
  have hcut : Money.wholeUnits c (sumU64 ratios) ratios ≤ c := h.1
  have hS : (2 : Int) * sumU64 ratios ≤ ratios.sum := by
    have hmod := Nat.div_add_mod ratios.sum (2 ^ 64)
    have hdiv : 1 ≤ ratios.sum / 2 ^ 64 := (Nat.one_le_div_iff (by norm_num)).mpr hwrap
    unfold sumU64 at *
    omega
  generalize Money.wholeUnits c (sumU64 ratios) ratios = whole at *
  generalize Money.cutRest c (sumU64 ratios) ratios = rest at *
  generalize hx : ((sumU64 ratios : Nat) : Int) = s at *
  generalize hy : ((ratios.sum : Nat) : Int) = S at *
  -- `s * whole + rest = c * S` with `whole ≤ c` and `100 * rest ≤ s * S`
  by_contra hlt
  have h1 : s * whole ≤ s * c := mul_le_mul_of_nonneg_left hcut hs.le
  have h2 : 100 * (c * (S - s)) ≤ s * S := by linarith
  have h3 : s * (S - s) < c * (S - s) := mul_lt_mul_of_pos_right (by omega) (by omega)
  nlinarith

/-! ## Shares -/

/-- A share in cents, of an amount that is not negative. -/
theorem share_cents {c : Int} (hc : 0 ≤ c) {tenders : List SaleTender} {shares : List (Money Usd)}
    (h : Money.allocate (C := Usd) ((c : ℚ) / 100) (weightsOf tenders) = .ok shares) {t : SaleTender} {a : Money Usd}
    (hm : (t, a) ∈ tenders.zip shares) :
    ∃ n : Int, a = (n : ℚ) / 100 ∧ 0 ≤ n ∧ (amountToU64 t.toTender.amount = 0 → n = 0) ∧
      (c ≤ sumU64 (weightsOf tenders) → n ≤ amountToU64 t.toTender.amount) := by
  have hpos := Money.sumU64_pos_of_allocate h
  have hs : (0 : Int) < sumU64 (weightsOf tenders) := by exact_mod_cast hpos
  obtain ⟨i, hi⟩ := List.mem_iff_getElem?.mp hm
  obtain ⟨ht, ha⟩ := List.getElem?_zip_eq_some.mp hi
  have hw : (weightsOf tenders)[i]? = some (amountToU64 t.toTender.amount) := by
    unfold weightsOf
    rw [List.getElem?_map, ht]
    rfl
  have hunit : (c : ℚ) / 100 = c * Money.minorUnit Usd := by
    rw [Money.minorUnit_usd, mul_one_div]
  rw [hunit] at h
  have hparts := Money.allocate_parts hpos (Or.inl hc) h hw
  rw [ha, Money.minorUnit_usd, mul_one_div, mul_one_div, Option.some.injEq, Option.some.injEq] at hparts
  generalize amountToU64 t.toTender.amount = w at *
  generalize ((sumU64 (weightsOf tenders) : Nat) : Int) = s at *
  have hdiv := Int.mul_tdiv_add_tmod (c * w) s
  have h0 := Int.tdiv_nonneg (show 0 ≤ c * w by positivity) hs.le
  have hm0 := Int.tmod_nonneg s (show 0 ≤ c * w by positivity)
  have hle : c ≤ s → c * w ≤ s * w := fun h => mul_le_mul_of_nonneg_right h (by positivity)
  have hzero : w = 0 → (c * w).tdiv s = 0 ∧ (c * w).tmod s = 0 := by
    rintro rfl
    simp
  rcases hparts with he | ⟨he, hr⟩
  · refine ⟨_, he, h0, fun hw0 => (hzero hw0).1, fun hcs => ?_⟩
    refine le_of_mul_le_mul_left ?_ hs
    linarith [hle hcs]
  · refine ⟨_, he, by omega, fun hw0 => absurd (hzero hw0).2 hr.ne', fun hcs => ?_⟩
    -- it was cut, so it is below the weight
    refine Int.add_one_le_iff.mpr (lt_of_mul_lt_mul_left ?_ hs.le)
    linarith [hle hcs]

/-- The shares are within what the tenders offer exactly when no tender offers a negative amount and the weights
can carry the amount. -/
theorem shares_within_iff {c : Int} (hc : 0 ≤ c) {tenders : List SaleTender} {shares : List (Money Usd)}
    (h : Money.allocate (C := Usd) ((c : ℚ) / 100) (weightsOf tenders) = .ok shares)
    (hadd : AddsUp c (weightsOf tenders)) :
    List.Forall₂ (fun (t : SaleTender) a => 0 ≤ a ∧ a ≤ t.toTender.amount) tenders shares ↔
      (∀ t ∈ tenders, 0 ≤ t.amount.1) ∧ c ≤ sumU64 (weightsOf tenders) := by
  obtain ⟨hlen, hsum⟩ := allocate_sum_iff c h
  rw [show (weightsOf tenders).length = tenders.length from List.length_map _] at hlen
  have hcents : ∀ (n m : Int), (n : ℚ) / 100 ≤ (m : ℚ) / 100 ↔ n ≤ m := by
    intro n m
    rw [div_le_div_iff_of_pos_right (by norm_num), Int.cast_le]
  have hoffer : ∀ t : SaleTender, t.toTender.amount = ((100 * t.amount.1 : Int) : ℚ) / 100 := by
    intro t
    show (t.amount.1 : ℚ) = _
    push_cast
    ring
  have hzero : (0 : ℚ) = ((0 : Int) : ℚ) / 100 := by simp
  constructor
  · intro hf
    have hnonneg : ∀ t ∈ tenders, 0 ≤ t.amount.1 := by
      have := (List.forall₂_and_left (p := fun t : SaleTender => 0 ≤ t.amount.1) (R := fun _ _ => True) _ _).mp
        (hf.imp fun t a hta => ⟨by
          have := hta.1.trans hta.2
          rw [hzero, hoffer, hcents] at this
          omega, trivial⟩)
      exact this.1
    refine ⟨hnonneg, ?_⟩
    by_cases hwrap : (weightsOf tenders).sum < 2 ^ 64
    · -- the shares add up to the amount, and each is within its weight
      have hle : List.Forall₂ (fun (a b : ℚ) => a ≤ b) shares
          ((weightsOf tenders).map fun w : Nat => (w : ℚ) * (1 / 100)) := by
        unfold weightsOf
        rw [List.map_map, List.forall₂_map_right_iff]
        refine List.Forall₂.flip (List.forall₂_iff_zip.mpr ⟨hlen.symm, fun {t a} hm => ?_⟩)
        obtain ⟨n, rfl, -, hn, -⟩ := share_cents hc h hm
        have hta := (List.forall₂_iff_zip.mp hf).2 hm
        rw [hoffer, hcents] at hta
        show (n : ℚ) / 100 ≤ ((amountToU64 t.toTender.amount : Nat) : ℚ) * (1 / 100)
        rw [mul_one_div, ← Int.cast_natCast (R := ℚ), hcents]
        rw [weight_eq] at hn ⊢
        split
        · exact hta.2.trans (by omega)
        · next hbig =>
          rw [hn (if_neg hbig)]
          exact le_rfl
      have htotal := hle.sum_le_sum
      rw [hsum.mpr hadd] at htotal
      have hcast : ((weightsOf tenders).map fun w : Nat => (w : ℚ) * (1 / 100)).sum =
          (((weightsOf tenders).sum : Nat) : ℚ) / 100 := by
        rw [List.sum_map_mul_right, ← Nat.cast_list_sum, mul_one_div]
      rw [hcast, ← Int.cast_natCast (R := ℚ), hcents] at htotal
      unfold sumU64
      rw [Nat.mod_eq_of_lt hwrap]
      exact htotal
    · exact le_sumU64_of_addsUp hc (fun w hw => dvd_weight hw) (Money.sumU64_pos_of_allocate h) (not_lt.mp hwrap) hadd
  · rintro ⟨hnonneg, hcs⟩
    refine List.forall₂_iff_zip.mpr ⟨hlen.symm, fun {t a} hm => ?_⟩
    obtain ⟨n, rfl, h0, -, hn⟩ := share_cents hc h hm
    have ht := hnonneg t (List.of_mem_zip hm).1
    have hn := hn hcs
    rw [hzero, hoffer, hcents, hcents]
    refine ⟨h0, hn.trans ?_⟩
    rw [weight_eq]
    split
    · omega
    · omega

/-! ## Settled sales -/

/-- A sale is settled exactly: the applied tenders come to the total, every share is within what its tender offers,
and the credit in front of them is what the total takes of it. -/
structure SettlesExactly (tenders : List SaleTender) (credit : Money Usd) (out : RingOutcome) : Prop where
  sum : (out.appliedTenders.map (·.amount)).sum = out.total
  shares : List.Forall₂ (fun (t : SaleTender) (a : Tender) => 0 ≤ a.amount ∧ a.amount ≤ t.toTender.amount) tenders
    (out.appliedTenders.drop (out.appliedTenders.length - tenders.length))
  credit : ((out.appliedTenders.take (out.appliedTenders.length - tenders.length)).map (·.amount)).sum =
    min out.total credit

/-- A total in cents, a credit and tenders: nothing is negative, and what the credit leaves is a whole number of
cents that the weights can carry. -/
def Settleable (total : Int) (credit : Money Usd) (tenders : List SaleTender) : Prop :=
  0 ≤ total ∧ 0 ≤ credit ∧ (∀ t ∈ tenders, 0 ≤ t.amount.1) ∧
    (credit < (total : ℚ) / 100 → ∃ c : Int, (total : ℚ) / 100 - credit = (c : ℚ) / 100 ∧
      c ≤ sumU64 (weightsOf tenders) ∧ AddsUp c (weightsOf tenders))

/-- The credit in front of the shares: what the total takes of it, unless that is negative. -/
theorem settles_iff_shares {total credit subtotal : Money Usd} {tenders : List SaleTender} {out : RingOutcome}
    (htotal : out.total = total)
    (h : applyTenders total credit subtotal (tenders.map (·.toTender)) = .ok out.appliedTenders) :
    ∃ shares : List (Money Usd),
      (if credit < total then Money.allocate (total - credit) (weightsOf tenders) = .ok shares
        else shares = List.replicate tenders.length 0) ∧
      (SettlesExactly tenders credit out ↔
        0 ≤ min credit total ∧ shares.sum = total - min credit total ∧
          List.Forall₂ (fun (t : SaleTender) a => 0 ≤ a ∧ a ≤ t.toTender.amount) tenders shares) := by
  obtain ⟨shares, hshares, hcredit, hdrop⟩ := applyTenders_parts h
  refine ⟨shares, hshares, ?_⟩
  have hmax : max 0 (min credit total) = min total credit ↔ 0 ≤ min credit total := by
    rw [min_comm total, max_eq_right_iff]
  have hsum : (out.appliedTenders.map (·.amount)).sum = max 0 (min credit total) + shares.sum := by
    rw [← List.take_append_drop (out.appliedTenders.length - tenders.length) out.appliedTenders, List.map_append,
      List.sum_append, hcredit, hdrop]
  constructor
  · intro hs
    have h3 := hmax.mp (by rw [← hcredit, hs.credit, htotal])
    have h1 := hs.sum
    rw [hsum, max_eq_right h3, htotal] at h1
    refine ⟨h3, by linarith, ?_⟩
    rw [← hdrop, List.forall₂_map_right_iff]
    exact hs.shares
  · rintro ⟨h3, h1, h2⟩
    refine ⟨?_, ?_, ?_⟩
    · rw [hsum, max_eq_right h3, htotal]
      linarith
    · rw [← hdrop, List.forall₂_map_right_iff] at h2
      exact h2
    · rw [hcredit, htotal, hmax]
      exact h3

theorem forall₂_replicate_zero (tenders : List SaleTender) :
    List.Forall₂ (fun (t : SaleTender) (a : Money Usd) => 0 ≤ a ∧ a ≤ t.toTender.amount) tenders
      (List.replicate tenders.length 0) ↔ ∀ t ∈ tenders, 0 ≤ t.amount.1 := by
  induction tenders with
  | nil => simp
  | cons t tenders ih =>
    rw [List.length_cons, List.replicate_succ, List.forall₂_cons, ih, List.forall_mem_cons]
    show (0 ≤ (0 : ℚ) ∧ (0 : ℚ) ≤ (t.amount.1 : ℚ)) ∧ _ ↔ _
    rw [Int.cast_nonneg_iff]
    exact and_congr_left fun _ => and_iff_right le_rfl

namespace PosApp

/-- **When a sale is settled exactly.**  For every register and all arguments: the tenders of a sale that goes through
settle it exactly when its total, credit and tenders can be. -/
theorem ringSale_settles_iff {app app' : PosApp} {lines : List SaleLine} {tenders : List SaleTender}
    {customer : Option (Id PosCustomer)} {redeem exchangeCredit : Money Usd} {out : RingOutcome}
    (h : app.ringSale lines tenders customer redeem exchangeCredit = (.ok out, app')) :
    SettlesExactly tenders (redeem + exchangeCredit) out ↔
      Settleable (app.centsOf lines customer) (redeem + exchangeCredit) tenders := by
  obtain ⟨htotal, ⟨subtotal, happ⟩, -⟩ := ringSale_ok h
  rw [totalOf_cents] at htotal happ
  generalize app.centsOf lines customer = total at *
  generalize redeem + exchangeCredit = credit at *
  obtain ⟨shares, hshares, hiff⟩ := settles_iff_shares htotal happ
  have hcents0 : (0 : ℚ) ≤ (total : ℚ) / 100 ↔ 0 ≤ total := by
    rw [le_div_iff₀ (by norm_num), zero_mul, Int.cast_nonneg_iff]
  rw [hiff, le_min_iff, hcents0]
  unfold Settleable
  by_cases hc : credit < (total : ℚ) / 100
  · -- the tenders share what the credit leaves
    rw [if_pos hc] at hshares
    rw [min_eq_left hc.le]
    have hpos : ∀ c : Int, (total : ℚ) / 100 - credit = (c : ℚ) / 100 → 0 ≤ c := by
      intro c hcent
      have h0 : (0 : ℚ) < (c : ℚ) / 100 := hcent ▸ sub_pos.mpr hc
      have hc0 : (0 : ℚ) < c := by linarith
      exact (Int.cast_pos.mp hc0).le
    constructor
    · rintro ⟨⟨hcredit, htot⟩, hsum, hf⟩
      obtain ⟨c, hcent⟩ := Money.isMinor_sum_of_allocate hshares
      rw [Money.minorUnit_usd, mul_one_div, hsum] at hcent
      rw [hcent] at hshares hsum
      have hadd := (allocate_sum_iff c hshares).2.mp hsum
      obtain ⟨hnonneg, hle⟩ := (shares_within_iff (hpos c hcent) hshares hadd).mp hf
      exact ⟨htot, hcredit, hnonneg, fun _ => ⟨c, hcent, hle, hadd⟩⟩
    · rintro ⟨htot, hcredit, hnonneg, hrest⟩
      obtain ⟨c, hcent, hle, hadd⟩ := hrest hc
      rw [hcent] at hshares ⊢
      exact ⟨⟨hcredit, htot⟩, (allocate_sum_iff c hshares).2.mpr hadd,
        (shares_within_iff (hpos c hcent) hshares hadd).mpr ⟨hnonneg, hle⟩⟩
  · rw [if_neg hc] at hshares
    rw [min_eq_right (not_lt.mp hc), hshares, forall₂_replicate_zero, sub_self, List.sum_replicate, nsmul_zero]
    constructor
    · rintro ⟨⟨hcredit, htot⟩, -, hnonneg⟩
      exact ⟨htot, hcredit, hnonneg, fun h => absurd h hc⟩
    · rintro ⟨htot, hcredit, hnonneg, -⟩
      exact ⟨⟨hcredit, htot⟩, rfl, hnonneg⟩

/-- A mug for $10, paid with a redeemed point and two tenders. -/
theorem settles_one_mug : ∃ out app',
    (new ⟨0⟩).ringSale [mugs 1] [{ kind := .cash, amount := i64 6 }, { kind := .card, amount := i64 6 }] none 0 1 =
        (.ok out, app') ∧
      SettlesExactly [{ kind := .cash, amount := i64 6 }, { kind := .card, amount := i64 6 }] (0 + 1) out := by
  have hok : (((new ⟨0⟩).ringSale [mugs 1] [{ kind := .cash, amount := i64 6 }, { kind := .card, amount := i64 6 }]
      none 0 1).1.toOption).isSome = true := by
    decide +kernel
  have hcents : (new ⟨0⟩).centsOf [mugs 1] none = 1000 := by decide +kernel
  rcases hr : (new ⟨0⟩).ringSale [mugs 1] [{ kind := .cash, amount := i64 6 }, { kind := .card, amount := i64 6 }]
    none 0 1 with ⟨e | out, app'⟩
  · rw [hr] at hok
    cases hok
  · refine ⟨out, app', rfl, (ringSale_settles_iff hr).mpr ?_⟩
    rw [hcents]
    exact ⟨by decide, by norm_num, by decide, fun _ => ⟨900, by norm_num, by decide +kernel, by decide +kernel⟩⟩

/-- Less than nothing is redeemed on a sale of $10, and $15 are taken. -/
theorem redeem_below_zero :
    ¬ ∀ (app app' : PosApp) (lines : List SaleLine) (tenders : List SaleTender) (customer : Option (Id PosCustomer))
      (redeem exchangeCredit : Money Usd) (out : RingOutcome),
      app.ringSale lines tenders customer redeem exchangeCredit = (.ok out, app') →
        SettlesExactly tenders (redeem + exchangeCredit) out := by
  intro h
  have hx : (((new ⟨0⟩).ringSale [mugs 1] [{ kind := .cash, amount := i64 20 }] (some ⟨1⟩) (-5) 0).1.toOption).map
      (fun out => decide ((out.appliedTenders.map (·.amount)).sum = out.total)) = some false := by
    decide +kernel
  rcases hr : (new ⟨0⟩).ringSale [mugs 1] [{ kind := .cash, amount := i64 20 }] (some ⟨1⟩) (-5) 0
    with ⟨e | out, app'⟩
  · rw [hr] at hx
    cases hx
  · rw [hr] at hx
    exact of_decide_eq_false (Option.some.inj hx) (h _ _ _ _ _ _ _ _ hr).sum

end PosApp

end TptErp.Pos
