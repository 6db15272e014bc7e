import TptErp.Oms.Checkout
import TptErp.Percent
import Mathlib.Algebra.BigOperators.Ring.List

/-!
# The promo plugin

The plugin that ships with the shop: a ladder of percentages over the stock, five more for five units or more.  It
reads the stock live from the reservation engine, where other orders are at work between its runs, and any of its
runs may fail.  So what its runs meet is a list: for each run the engine at that time, or none when it fails.

`checkout_exact`: below the prices whose product with the percentage overflows, a line is charged the whole cents of
its price less the percentage of the ladder, or the whole cents when the run fails.  `checkout_fifth`: at no price,
overflow or not, is more than a fifth taken off, nor less than nothing.
-/

namespace TptErp.Oms

variable {SHARDS GLS : Nat}

/-! ## Host and guest -/

/-- `PromoHost::stock_level`: the units, `as u64`. -/
def stockLevel (engine : ReservationEngine SHARDS) (sku : SkuId) : Nat :=
  ((engine.stateOf sku).available % 2 ^ 64).toNat

/-- The stock that the guest sees: the same, `as i64`. -/
def guestStock (engine : ReservationEngine SHARDS) (sku : SkuId) : Int := wrapI64 (stockLevel engine sku)

/-- `discount_pct`. -/
def discountPct (stock : Int) (qty : Nat) : Int :=
  (if 100 ≤ stock then 15 else if 20 ≤ stock then 5 else 0) + if 5 ≤ qty then 5 else 0

/-- `final_price` of the guest's `run`. -/
def finalPrice (stock : Int) (qty : Nat) (unitPrice : Int) : Int :=
  max 0 (lessPercent unitPrice (discountPct stock qty))

/-- What a run answers for a line, by what it meets. -/
def answer (sku : SkuId) (qty : Nat) (unitCents : Int) (run : Option (ReservationEngine SHARDS)) : Option I64 :=
  run.map fun engine => i64 (finalPrice (guestStock engine sku) qty unitCents)

/-- The plugin, over what its runs will meet; when nothing more is said they fail. -/
def promoGuest : PromoPlugin (List (Option (ReservationEngine SHARDS))) := fun runs sku qty unitCents =>
  (answer sku qty unitCents runs.head?.join, runs.tail)

/-! ## What it takes off -/

theorem discountPct_nonneg (stock : Int) (qty : Nat) : 0 ≤ discountPct stock qty := by
  unfold discountPct
  split_ifs <;> omega

theorem discountPct_le (stock : Int) (qty : Nat) : discountPct stock qty ≤ 20 := by
  unfold discountPct
  split_ifs <;> omega

theorem guestStock_eq (engine : ReservationEngine SHARDS) (sku : SkuId) :
    guestStock engine sku = wrapI64 (engine.stateOf sku).available := by
  have hnonneg : 0 ≤ (engine.stateOf sku).available % 2 ^ 64 := Int.emod_nonneg _ (by decide)
  unfold guestStock stockLevel wrapI64
  rw [Int.toNat_of_nonneg hnonneg]
  exact Int.emod_bmod ..

/-- The percentage off a unit, by what the run meets: none, or the ladder over the stock. -/
def percentOff (l : CheckoutLine) : Option (ReservationEngine SHARDS) → Int
  | none => 0
  | some engine => discountPct (wrapI64 (engine.stateOf l.sku).available) l.qty.1

section
variable {l : CheckoutLine}

theorem unitCents_nonneg (h : 0 ≤ l.unitPrice) : 0 ≤ l.unitCents := by
  rcases l.unitCents_eq with hc | ⟨hc, -⟩
  · exact hc.ge
  · rw [hc, trunc, if_pos (by positivity)]
    exact Int.floor_nonneg.mpr (by positivity)

theorem cut_some (c : I64) : l.cut (some c) = max 0 (l.unitCents - c.1) := rfl

theorem unitCents_lt (l : CheckoutLine) : l.unitCents < 2 ^ 63 := by
  rcases l.unitCents_eq with hc | ⟨-, -, hlt⟩
  · rw [hc]
    decide
  · exact hlt

/-- The guest's price of a line, which an `i64` holds. -/
theorem finalPrice_eq (h : 0 ≤ l.unitPrice) (stock : Int) (qty : Nat) :
    (i64 (finalPrice stock qty l.unitCents)).1 = lessPercent l.unitCents (discountPct stock qty) := by
  have hle := discountPct_le stock qty
  have hnonneg := lessPercent_nonneg (unitCents_nonneg h) (unitCents_lt l) (discountPct_nonneg stock qty) (by omega)
  unfold finalPrice
  rw [max_eq_right hnonneg]
  exact wrapI64_of_lt (by omega) (wrapI64_lt _)

/-- A run takes off no more than the percentage of its ladder. -/
theorem cut_answer_le (h : 0 ≤ l.unitPrice) (run : Option (ReservationEngine SHARDS)) :
    100 * l.cut (answer l.sku l.qty.1 l.unitCents run) ≤ l.unitCents * percentOff l run := by
  cases run with
  | none =>
    rw [percentOff, mul_zero]
    exact (Int.mul_zero _).le
  | some engine =>
    have hle := discountPct_le (guestStock engine l.sku) l.qty.1
    have hcut := cut_lessPercent_le (unitCents_nonneg h) (unitCents_lt l)
      (discountPct_nonneg (guestStock engine l.sku) l.qty.1) (by omega)
    rwa [answer, Option.map_some, cut_some, finalPrice_eq h, percentOff, ← guestStock_eq]

/-- Where the product does not overflow, a run takes off that percentage. -/
theorem cut_answer (h : 0 ≤ l.unitPrice) (hlt : l.unitCents * 20 < 2 ^ 63) (run : Option (ReservationEngine SHARDS)) :
    l.cut (answer l.sku l.qty.1 l.unitCents run) = l.unitCents * percentOff l run / 100 := by
  cases run with
  | none =>
    rw [percentOff, mul_zero]
    rfl
  | some engine =>
    have hc := unitCents_nonneg h
    have hle := discountPct_le (guestStock engine l.sku) l.qty.1
    have hpct := discountPct_nonneg (guestStock engine l.sku) l.qty.1
    have hproduct : l.unitCents * discountPct (guestStock engine l.sku) l.qty.1 < 2 ^ 63 :=
      lt_of_le_of_lt (mul_le_mul_of_nonneg_left hle hc) hlt
    rw [answer, Option.map_some, cut_some, finalPrice_eq h, lessPercent_eq hc (unitCents_lt l) hpct (by omega),
      sub_sub_cancel, percentOf_eq hc hpct hproduct, percentOff, ← guestStock_eq]
    exact max_eq_right (Int.ediv_nonneg (mul_nonneg hc hpct) (by decide))

theorem percentOff_le (l : CheckoutLine) (run : Option (ReservationEngine SHARDS)) : percentOff l run ≤ 20 := by
  cases run with
  | none => exact (by decide : (0 : Int) ≤ 20)
  | some engine => exact discountPct_le _ _

end

/-! ## A checkout with the promo plugin -/

/-- The lines, each with what its run meets. -/
def met : List CheckoutLine → List (Option (ReservationEngine SHARDS)) →
    List (CheckoutLine × Option (ReservationEngine SHARDS))
  | [], _ => []
  | l :: lines, runs => (l, runs.head?.join) :: met lines runs.tail

theorem asked_promo (lines : List CheckoutLine) (runs : List (Option (ReservationEngine SHARDS))) :
    asked lines { handle := some promoGuest, memory := runs } =
      (met lines runs).map fun q => (q.1, answer q.1.sku q.1.qty.1 q.1.unitCents q.2) := by
  induction lines generalizing runs with
  | nil => rfl
  | cons l lines ih => exact congrArg (_ :: ·) (ih runs.tail)

theorem mem_met {lines : List CheckoutLine} {runs : List (Option (ReservationEngine SHARDS))}
    {q : CheckoutLine × Option (ReservationEngine SHARDS)} (h : q ∈ met lines runs) : q.1 ∈ lines := by
  induction lines generalizing runs with
  | nil => cases h
  | cons l lines ih =>
    rcases List.mem_cons.mp h with rfl | h
    · exact List.mem_cons_self
    · exact List.mem_cons_of_mem _ (ih h)

/-- The whole cents of the lines. -/
def wholeCents (lines : List CheckoutLine) : Int := (lines.map fun l => l.unitCents * (l.qty.1 : Int)).sum

theorem centsOf_asked {S : Type} (lines : List CheckoutLine) (promo : PromoEngine S) :
    centsOf (asked lines promo) = wholeCents lines := by
  unfold centsOf wholeCents
  conv_rhs => rw [← asked_map_fst lines promo, List.map_map]
  rfl

/-- What a line is charged, in cents. -/
def chargedCents (q : CheckoutLine × Option (ReservationEngine SHARDS)) : Int :=
  (q.1.unitCents - q.1.unitCents * percentOff q.1 q.2 / 100) * (q.1.qty.1 : Int)

variable {lines : List CheckoutLine} {runs : List (Option (ReservationEngine SHARDS))}
  {app app' : OmsApp (List (Option (ReservationEngine SHARDS)))} {w w' : World SHARDS GLS} {o : CheckoutOutcome}

/-- The answers leave the charged cents, where no product overflows. -/
theorem centsOf_sub_cutOf {qs : List (CheckoutLine × Option (ReservationEngine SHARDS))}
    (hp : ∀ q ∈ qs, 0 ≤ q.1.unitPrice ∧ q.1.unitCents * 20 < 2 ^ 63) :
    centsOf (qs.map fun q => (q.1, answer q.1.sku q.1.qty.1 q.1.unitCents q.2)) -
      cutOf (qs.map fun q => (q.1, answer q.1.sku q.1.qty.1 q.1.unitCents q.2)) = (qs.map chargedCents).sum := by
  induction qs with
  | nil => rfl
  | cons q qs ih =>
    obtain ⟨⟨h0, hlt⟩, hp⟩ := List.forall_mem_cons.mp hp
    rw [List.map_cons, List.map_cons, List.sum_cons, ← ih hp, chargedCents, ← cut_answer h0 hlt, sub_mul]
    unfold centsOf cutOf
    rw [List.map_cons, List.map_cons, List.sum_cons, List.sum_cons, add_sub_add_comm]

/-- **What a checkout charges under the promo plugin**: each line the percentage of the stock its run has met, for
prices whose product with it fits. -/
theorem OmsApp.checkout_exact (hpromo : app.promo = { handle := some promoGuest, memory := runs })
    (hp : ∀ l ∈ lines, 0 ≤ l.unitPrice ∧ l.unitCents * 20 < 2 ^ 63)
    (h : app.checkout lines w = some (.ok o, app', w')) :
    o.total = (((met lines runs).map chargedCents).sum : Int) / 100 := by
  obtain ⟨-, htotal, -, -⟩ := OmsApp.checkout_ok h
  rw [htotal, hpromo, asked_promo]
  rw [← centsOf_sub_cutOf fun q hq => hp q.1 (mem_met hq)]
  push_cast
  rfl

/-- The shop whose promo plugin will have one run, and find 120 units. -/
def clearance : OmsApp (List (Option (ReservationEngine 64))) where
  coa := { accountsReceivable := ⟨1⟩, salesRevenue := ⟨2⟩ }
  promo := { handle := some promoGuest, memory := [some (openShop.core.engine.receive ⟨7⟩ 110)] }

def twoUnits : List CheckoutLine := [⟨⟨7⟩, u32 2, 1999 / 100⟩]

theorem clearance_ok : ∃ o app' w', clearance.checkout twoUnits openShop = some (.ok o, app', w') := by
  have hrun : (clearance.checkout twoUnits openShop).map (fun r => r.1.isOk) = some true := by
    decide +kernel
  obtain ⟨⟨result, app', w'⟩, hr, hok⟩ := Option.map_eq_some_iff.mp hrun
  cases result with
  | error e => exact nomatch hok
  | ok o => exact ⟨o, app', w', hr⟩

theorem clearance_prices : ∀ l ∈ twoUnits, 0 ≤ l.unitPrice ∧ l.unitCents * 20 < 2 ^ 63 := by
  intro l hl
  obtain rfl := List.mem_singleton.mp hl
  exact ⟨by norm_num, by decide +kernel⟩

/-- Two units at 19.99, sold at 17.00. -/
theorem checkout_exact_two_units : ∃ o app' w',
    clearance.checkout twoUnits openShop = some (.ok o, app', w') ∧ o.total = (3400 : Int) / 100 := by
  obtain ⟨o, app', w', hr⟩ := clearance_ok
  refine ⟨o, app', w', hr, ?_⟩
  rw [OmsApp.checkout_exact rfl clearance_prices hr]
  exact congrArg (fun c : Int => (c : ℚ) / 100) (by decide +kernel)

/-- What is charged under a promotion of at most a fifth. -/
structure CheckoutOutcome.FifthOff (o : CheckoutOutcome) (lines : List CheckoutLine) : Prop where
  most : o.total ≤ (wholeCents lines : ℚ) / 100
  least : 4 * (wholeCents lines : ℚ) / 100 ≤ 5 * o.total
  discount_nonneg : 0 ≤ o.discount
  discount_le : (∀ l ∈ lines, 0 < l.qty.1 → l.WholeCents) → 5 * o.discount ≤ o.subtotal

/-- A run takes off a fifth at most. -/
theorem cutOf_fifth {qs : List (CheckoutLine × Option (ReservationEngine SHARDS))} (hp : ∀ q ∈ qs, 0 ≤ q.1.unitPrice) :
    5 * cutOf (qs.map fun q => (q.1, answer q.1.sku q.1.qty.1 q.1.unitCents q.2)) ≤
      centsOf (qs.map fun q => (q.1, answer q.1.sku q.1.qty.1 q.1.unitCents q.2)) := by
  unfold cutOf centsOf
  rw [List.map_map, List.map_map, ← List.sum_map_mul_left]
  refine List.sum_le_sum fun q hq => ?_
  have hcents := unitCents_nonneg (hp q hq)
  have hcut : 5 * q.1.cut (answer q.1.sku q.1.qty.1 q.1.unitCents q.2) ≤ q.1.unitCents := by
    have hle := cut_answer_le (hp q hq) q.2
    have hpct := mul_le_mul_of_nonneg_left (percentOff_le q.1 q.2) hcents
    omega
  have := mul_le_mul_of_nonneg_right hcut (Int.natCast_nonneg q.1.qty.1)
  show 5 * (q.1.cut _ * _) ≤ q.1.unitCents * _
  rwa [← mul_assoc]

/-- **Never more than a fifth off**, whatever the runs meet and whether or not the guest's product overflows. -/
theorem OmsApp.checkout_fifth (hpromo : app.promo = { handle := some promoGuest, memory := runs })
    (hp : ∀ l ∈ lines, 0 ≤ l.unitPrice) (h : app.checkout lines w = some (.ok o, app', w')) : o.FifthOff lines := by
  obtain ⟨hsubtotal, htotal, hdiscount, -⟩ := OmsApp.checkout_ok h
  have hlines : ∀ q ∈ asked lines app.promo, q.1 ∈ lines := by
    intro q hq
    rw [← asked_map_fst lines app.promo]
    exact List.mem_map_of_mem hq
  have hfifth : 5 * cutOf (asked lines app.promo) ≤ centsOf (asked lines app.promo) := by
    rw [hpromo, asked_promo]
    exact cutOf_fifth fun q hq => hp q.1 (mem_met hq)
  have hfifth' : 5 * (cutOf (asked lines app.promo) : ℚ) ≤ centsOf (asked lines app.promo) := by exact_mod_cast hfifth
  have hcut : (0 : ℚ) ≤ cutOf (asked lines app.promo) := Int.cast_nonneg (cutOf_nonneg _)
  have hbelow := belowCents_nonneg fun q hq => hp q.1 (hlines q hq)
  rw [centsOf_asked] at hsubtotal htotal hfifth'
  refine ⟨?_, ?_, ?_, fun hwhole => ?_⟩
  · rw [htotal]
    linarith
  · rw [htotal]
    linarith
  · rw [hdiscount, hsubtotal, htotal]
    linarith
  · have hzero := (belowCents_eq_zero_iff fun q hq => hp q.1 (hlines q hq)).mpr fun q hq => hwhole q.1 (hlines q hq)
    rw [hdiscount, hsubtotal, htotal, hzero]
    linarith

theorem checkout_fifth_two_units : ∃ o app' w',
    clearance.checkout twoUnits openShop = some (.ok o, app', w') ∧
      o.FifthOff twoUnits := by
  obtain ⟨o, app', w', hr⟩ := clearance_ok
  exact ⟨o, app', w', hr, OmsApp.checkout_fifth rfl (fun l hl => (clearance_prices l hl).1) hr⟩

end TptErp.Oms
