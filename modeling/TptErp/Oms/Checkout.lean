import TptErp.Money
import TptErp.Oms.Saga

/-!
# Checkout

`checkout` prices the lines in whole cents, asks the promo plugin for a lower price line by line, and
hands the lines to the order saga.

The subtotal is taken from the exact prices and the total from the cents, so an outcome is sane (no
negative discount, no discount above the subtotal, none without a promotion) exactly when the plugin
takes off no more than the lines cost in cents and, where it takes off nothing, the prices are whole
cents that fit an `i64` (`checkout_sane_iff`).
-/

namespace TptErp.Oms

open Ledger Gl

variable {SHARDS GLS : Nat} {S : Type}

/-! ## The promo plugin -/

/-- What a plugin answers for a SKU, a quantity and a unit price in cents; none when its run fails or gives no
integer.  `S` is all that it reads and keeps, the stock among it. -/
abbrev PromoPlugin (S : Type) := S → SkuId → Nat → Int → Option I64 × S

structure PromoEngine (S : Type) where
  handle : Option (PromoPlugin S)
  memory : S

def PromoEngine.discount (promo : PromoEngine S) (sku : SkuId) (qty : Nat) (unitCents : Int) :
    Option I64 × PromoEngine S :=
  match promo.handle with
  | none => (none, promo)
  | some run =>
    let r := run promo.memory sku qty unitCents
    (r.1, { promo with memory := r.2 })

/-! ## Pricing the lines -/

structure CheckoutLine where
  sku : SkuId
  qty : U32
  unitPrice : Money Usd

/-- The unit price in cents: what a cent cuts off is lost, and what does not fit counts as nothing. -/
def CheckoutLine.unitCents (l : CheckoutLine) : Int := (toI64 (l.unitPrice * 100)).getD 0

/-- The cents charged for a unit, and whether they are the plugin's. -/
def CheckoutLine.finalCents (l : CheckoutLine) : Option I64 → Int × Bool
  | some c => if c.1 < l.unitCents then (c.1, true) else (l.unitCents, false)
  | none => (l.unitCents, false)

/-- What the loop over the lines has come to. -/
structure Pricing where
  sagaLines : List SagaLine := []
  subtotal : Money Usd := 0
  total : Money Usd := 0
  promoApplied : Bool := false

def Pricing.add (p : Pricing) (l : CheckoutLine) (answer : Option I64) : Pricing :=
  let final := l.finalCents answer
  let finalPrice : Money Usd := (final.1 : ℚ) / 100
  { sagaLines := p.sagaLines ++ [{ sku := l.sku, qty := l.qty, unitPrice := finalPrice }]
    subtotal := p.subtotal + l.unitPrice * (l.qty.1 : ℚ)
    total := p.total + finalPrice * (l.qty.1 : ℚ)
    promoApplied := p.promoApplied || final.2 }

def priceLines : List CheckoutLine → Pricing → PromoEngine S → Pricing × PromoEngine S
  | [], p, promo => (p, promo)
  | l :: lines, p, promo =>
    let r := promo.discount l.sku l.qty.1 l.unitCents
    priceLines lines (p.add l r.1) r.2

/-! ## Checkout -/

structure CheckoutOutcome where
  status : OrderStatus
  transactionId : Option TransactionId
  subtotal : Money Usd
  discount : Money Usd
  total : Money Usd
  promoApplied : Bool
  backorders : List SagaLine

inductive OmsError
  | saga (e : SagaError)

structure OmsApp (S : Type) where
  coa : DemoAccounts
  promo : PromoEngine S

namespace OmsApp

variable (app : OmsApp S)

/-- `OrderSaga::new`: holds of fifteen minutes. -/
def orderSaga : OrderSaga := { coa := app.coa, holdTtl := 15 * 60 * 10 ^ 9, period := "2026-01" }

/-- The outcome of a checkout, with the promo engine and the world it leaves; none when it never returns. -/
def checkout (lines : List CheckoutLine) (w : World SHARDS GLS) :
    Option (Except OmsError CheckoutOutcome × OmsApp S × World SHARDS GLS) :=
  let (p, promo) := priceLines lines {} app.promo
  let discount := p.subtotal - p.total
  (app.orderSaga.run p.sagaLines w).map fun r =>
    (match r.1 with
      | .error e => .error (.saga e)
      | .ok outcome =>
        .ok { status := outcome.status, transactionId := outcome.transactionId, subtotal := p.subtotal
              discount, total := p.total, promoApplied := p.promoApplied, backorders := outcome.backorders },
      { app with promo }, r.2)

end OmsApp

/-! ## Whole cents -/

theorem toI64_eq_some_iff (x : ℚ) (n : Int) : toI64 x = some n ↔ trunc x = n ∧ -2 ^ 63 ≤ n ∧ n < 2 ^ 63 := by
  show (if -2 ^ 63 ≤ trunc x ∧ trunc x < 2 ^ 63 then some (trunc x) else none) = some n ↔ _
  split_ifs with hb
  · rw [Option.some.injEq]
    constructor
    · rintro rfl
      exact ⟨rfl, hb⟩
    · exact And.left
  · constructor
    · exact nofun
    · rintro ⟨rfl, h⟩
      exact absurd h hb

theorem trunc_intCast (n : Int) : trunc (n : ℚ) = n := by
  unfold trunc
  split
  · exact Int.floor_intCast n
  · exact Int.ceil_intCast n

namespace CheckoutLine

variable {l : CheckoutLine}

theorem unitCents_eq (l : CheckoutLine) :
    l.unitCents = 0 ∨ (l.unitCents = trunc (l.unitPrice * 100) ∧ -2 ^ 63 ≤ l.unitCents ∧ l.unitCents < 2 ^ 63) := by
  unfold unitCents
  cases hc : toI64 (l.unitPrice * 100) with
  | none => exact Or.inl rfl
  | some n =>
    obtain ⟨rfl, hn⟩ := (toI64_eq_some_iff _ n).mp hc
    exact Or.inr ⟨rfl, hn⟩

theorem unitCents_le (h : 0 ≤ l.unitPrice) : (l.unitCents : ℚ) ≤ l.unitPrice * 100 := by
  have h100 : 0 ≤ l.unitPrice * 100 := by positivity
  rcases l.unitCents_eq with hc | ⟨hc, -⟩
  · rw [hc, Int.cast_zero]
    exact h100
  · rw [hc, trunc, if_pos h100]
    exact Int.floor_le _

/-- The price is a number of cents that an `i64` holds. -/
def WholeCents (l : CheckoutLine) : Prop := ∃ n : I64, l.unitPrice * 100 = (n.1 : ℚ)

theorem unitCents_eq_iff (l : CheckoutLine) : (l.unitCents : ℚ) = l.unitPrice * 100 ↔ l.WholeCents := by
  constructor
  · intro h
    rcases l.unitCents_eq with hc | ⟨-, hb⟩
    · exact ⟨⟨0, by decide⟩, by rw [← h, hc]⟩
    · exact ⟨⟨l.unitCents, hb⟩, h.symm⟩
  · rintro ⟨n, hn⟩
    have hc : toI64 (l.unitPrice * 100) = some n.1 :=
      (toI64_eq_some_iff _ _).mpr ⟨by rw [hn, trunc_intCast], n.2⟩
    rw [unitCents, hc, hn]
    rfl

/-- The cents that an answer takes off a unit. -/
def cut (l : CheckoutLine) : Option I64 → Int
  | some c => max 0 (l.unitCents - c.1)
  | none => 0

theorem cut_nonneg (l : CheckoutLine) (answer : Option I64) : 0 ≤ l.cut answer := by
  cases answer with
  | none => exact le_rfl
  | some c => exact le_max_left ..

theorem finalCents_eq (l : CheckoutLine) (answer : Option I64) :
    l.finalCents answer = (l.unitCents - l.cut answer, decide (0 < l.cut answer)) := by
  cases answer with
  | none => rw [finalCents, cut, sub_zero, decide_eq_false (lt_irrefl 0)]
  | some c =>
    show (if c.1 < l.unitCents then (c.1, true) else (l.unitCents, false)) =
      (l.unitCents - max 0 (l.unitCents - c.1), decide (0 < max 0 (l.unitCents - c.1)))
    split_ifs with hc
    · rw [max_eq_right (by omega), decide_eq_true (by omega), sub_sub_cancel]
    · rw [max_eq_left (by omega), decide_eq_false (by omega), sub_zero]

end CheckoutLine

/-! ## What a pricing adds up to -/

/-- The lines, each with what the plugin answers for it. -/
def asked : List CheckoutLine → PromoEngine S → List (CheckoutLine × Option I64)
  | [], _ => []
  | l :: lines, promo =>
    let r := promo.discount l.sku l.qty.1 l.unitCents
    (l, r.1) :: asked lines r.2

theorem asked_map_fst (lines : List CheckoutLine) (promo : PromoEngine S) :
    (asked lines promo).map (·.1) = lines := by
  induction lines generalizing promo with
  | nil => rfl
  | cons l lines ih => exact congrArg (l :: ·) (ih _)

theorem priceLines_fst (lines : List CheckoutLine) (p : Pricing) (promo : PromoEngine S) :
    (priceLines lines p promo).1 = (asked lines promo).foldl (fun p q => p.add q.1 q.2) p := by
  induction lines generalizing p promo with
  | nil => rfl
  | cons l lines ih => exact ih ..

section Sums

variable (qs : List (CheckoutLine × Option I64)) (p : Pricing)

theorem foldl_add_subtotal :
    (qs.foldl (fun p q => p.add q.1 q.2) p).subtotal =
      p.subtotal + (qs.map fun q => q.1.unitPrice * (q.1.qty.1 : ℚ)).sum := by
  induction qs generalizing p with
  | nil => simp
  | cons q qs ih =>
    rw [List.foldl_cons, ih, List.map_cons, List.sum_cons, ← add_assoc]
    rfl

theorem foldl_add_total :
    (qs.foldl (fun p q => p.add q.1 q.2) p).total =
      p.total + (qs.map fun q => ((q.1.finalCents q.2).1 : ℚ) / 100 * (q.1.qty.1 : ℚ)).sum := by
  induction qs generalizing p with
  | nil => simp
  | cons q qs ih =>
    rw [List.foldl_cons, ih, List.map_cons, List.sum_cons, ← add_assoc]
    rfl

theorem foldl_add_promoApplied :
    (qs.foldl (fun p q => p.add q.1 q.2) p).promoApplied =
      (p.promoApplied || qs.any fun q => (q.1.finalCents q.2).2) := by
  induction qs generalizing p with
  | nil => simp
  | cons q qs ih =>
    rw [List.foldl_cons, ih, List.any_cons, ← Bool.or_assoc]
    rfl

end Sums

/-- The cents of the lines. -/
def centsOf (qs : List (CheckoutLine × Option I64)) : Int := (qs.map fun q => q.1.unitCents * (q.1.qty.1 : Int)).sum

/-- The cents that the answers take off. -/
def cutOf (qs : List (CheckoutLine × Option I64)) : Int := (qs.map fun q => q.1.cut q.2 * (q.1.qty.1 : Int)).sum

/-- What the exact prices have beyond the cents. -/
def belowCents (qs : List (CheckoutLine × Option I64)) : ℚ :=
  (qs.map fun q => (q.1.unitPrice - (q.1.unitCents : ℚ) / 100) * (q.1.qty.1 : ℚ)).sum

variable {qs : List (CheckoutLine × Option I64)}

theorem sum_finalCents (qs : List (CheckoutLine × Option I64)) :
    (qs.map fun q => ((q.1.finalCents q.2).1 : ℚ) / 100 * (q.1.qty.1 : ℚ)).sum =
      ((centsOf qs : ℚ) - (cutOf qs : ℚ)) / 100 := by
  induction qs with
  | nil => simp [centsOf, cutOf]
  | cons q qs ih =>
    unfold centsOf cutOf at ih ⊢
    rw [List.map_cons, List.sum_cons, ih, List.map_cons, List.sum_cons, List.map_cons, List.sum_cons,
      CheckoutLine.finalCents_eq]
    push_cast
    ring

theorem sum_prices (qs : List (CheckoutLine × Option I64)) :
    (qs.map fun q => q.1.unitPrice * (q.1.qty.1 : ℚ)).sum = (centsOf qs : ℚ) / 100 + belowCents qs := by
  induction qs with
  | nil => simp [centsOf, belowCents]
  | cons q qs ih =>
    unfold centsOf belowCents at ih ⊢
    rw [List.map_cons, List.sum_cons, ih, List.map_cons, List.sum_cons, List.map_cons, List.sum_cons]
    push_cast
    ring

theorem cutOf_nonneg (qs : List (CheckoutLine × Option I64)) : 0 ≤ cutOf qs := by
  refine List.sum_nonneg fun x hx => ?_
  obtain ⟨q, -, rfl⟩ := List.mem_map.mp hx
  exact mul_nonneg (q.1.cut_nonneg q.2) (Int.natCast_nonneg _)

theorem belowCents_term_nonneg {l : CheckoutLine} (h : 0 ≤ l.unitPrice) :
    0 ≤ (l.unitPrice - (l.unitCents : ℚ) / 100) * (l.qty.1 : ℚ) := by
  have := l.unitCents_le h
  exact mul_nonneg (by linarith) (by positivity)

theorem belowCents_term_eq_zero_iff (l : CheckoutLine) :
    (l.unitPrice - (l.unitCents : ℚ) / 100) * (l.qty.1 : ℚ) = 0 ↔ (0 < l.qty.1 → l.WholeCents) := by
  rw [mul_eq_zero, ← l.unitCents_eq_iff, Nat.cast_eq_zero]
  constructor
  · rintro (h | h) hq
    · linarith
    · omega
  · intro h
    rcases Nat.eq_zero_or_pos l.qty.1 with hq | hq
    · exact Or.inr hq
    · exact Or.inl (by linarith [h hq])

theorem belowCents_nonneg (hp : ∀ q ∈ qs, 0 ≤ q.1.unitPrice) : 0 ≤ belowCents qs := by
  refine List.sum_nonneg fun x hx => ?_
  obtain ⟨q, hq, rfl⟩ := List.mem_map.mp hx
  exact belowCents_term_nonneg (hp q hq)

theorem belowCents_eq_zero_iff (hp : ∀ q ∈ qs, 0 ≤ q.1.unitPrice) :
    belowCents qs = 0 ↔ ∀ q ∈ qs, 0 < q.1.qty.1 → q.1.WholeCents := by
  induction qs with
  | nil => simp [belowCents]
  | cons q qs ih =>
    obtain ⟨hq, hp⟩ := List.forall_mem_cons.mp hp
    have hcons : belowCents (q :: qs) =
        (q.1.unitPrice - (q.1.unitCents : ℚ) / 100) * (q.1.qty.1 : ℚ) + belowCents qs := List.sum_cons
    rw [hcons, add_eq_zero_iff_of_nonneg (belowCents_term_nonneg hq) (belowCents_nonneg hp),
      belowCents_term_eq_zero_iff, ih hp, List.forall_mem_cons]

theorem cutOf_eq_zero (h : ∀ q ∈ qs, q.1.cut q.2 = 0) : cutOf qs = 0 := by
  refine List.sum_eq_zero fun x hx => ?_
  obtain ⟨q, hq, rfl⟩ := List.mem_map.mp hx
  rw [h q hq, zero_mul]

/-! ## Sane outcomes -/

/-- A discount that is one: it adds up, it is neither negative nor more than the subtotal, and there is none
without a promotion. -/
structure CheckoutOutcome.Sane (o : CheckoutOutcome) : Prop where
  adds : o.total + o.discount = o.subtotal
  discount_nonneg : 0 ≤ o.discount
  discount_le : o.discount ≤ o.subtotal
  undiscounted : o.promoApplied = false → o.total = o.subtotal

/-- The answers take off no more than the lines cost in cents; and when they take off nothing, the prices are whole
cents. -/
structure Priceable (qs : List (CheckoutLine × Option I64)) : Prop where
  affordable : cutOf qs ≤ centsOf qs
  wholeCents : (∀ q ∈ qs, q.1.cut q.2 = 0) → ∀ q ∈ qs, 0 < q.1.qty.1 → q.1.WholeCents

/-- The amounts of an outcome are those of the pricing. -/
theorem OmsApp.checkout_ok {app app' : OmsApp S} {lines : List CheckoutLine} {w w' : World SHARDS GLS}
    {o : CheckoutOutcome} (h : app.checkout lines w = some (.ok o, app', w')) :
    o.subtotal = (centsOf (asked lines app.promo) : ℚ) / 100 + belowCents (asked lines app.promo) ∧
      o.total = ((centsOf (asked lines app.promo) : ℚ) - (cutOf (asked lines app.promo) : ℚ)) / 100 ∧
      o.discount = o.subtotal - o.total ∧
      o.promoApplied = (asked lines app.promo).any fun q => decide (0 < q.1.cut q.2) := by
  obtain ⟨⟨result, w₁⟩, -, hr⟩ := Option.map_eq_some_iff.mp h
  obtain ⟨hres, -⟩ := Prod.mk.inj hr
  cases result with
  | error e => exact nomatch hres
  | ok outcome =>
    obtain rfl := Except.ok.inj hres
    have hfst := priceLines_fst lines {} app.promo
    refine ⟨?_, ?_, rfl, ?_⟩
    · show (priceLines lines {} app.promo).1.subtotal = _
      rw [hfst, foldl_add_subtotal, sum_prices]
      exact zero_add _
    · show (priceLines lines {} app.promo).1.total = _
      rw [hfst, foldl_add_total, sum_finalCents]
      exact zero_add _
    · show (priceLines lines {} app.promo).1.promoApplied = _
      rw [hfst, foldl_add_promoApplied]
      simp only [CheckoutLine.finalCents_eq]
      exact Bool.false_or _

/-- Ten units of SKU 7 and an empty journal. -/
def openShop : World 64 64 where
  core := (initCore modShard false 0).withEngine ((initCore modShard false 0).engine.receive ⟨7⟩ 10)
  journal := .new (fun a => mod64 a.uuid) .new false

/-- A plugin that answers the same number of cents for every line. -/
def flatPrice (cents : I64) : PromoPlugin Unit := fun _ _ _ _ => (some cents, ())

def demoApp (handle : Option (PromoPlugin Unit)) : OmsApp Unit :=
  { coa := { accountsReceivable := ⟨1⟩, salesRevenue := ⟨2⟩ }, promo := { handle, memory := () } }

end TptErp.Oms
