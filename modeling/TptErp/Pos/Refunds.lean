import TptErp.Pos.App

/-!
# Refunds over many returns

Every return is computed from the sale as it was recorded; nothing remembers the returns before it.
What the accepted calls pay back together is the sum of their rounded shares of the total
(`refunded_eq_due`), and that is the exact condition for it to stay within the total.
-/

namespace TptErp.Pos

/-! ## The pieces of a sale -/

/-- A transaction with the lines of a request, not yet settled. -/
def cartOf (id : Id PosTxn) (lines : List SaleLine) : Transaction := { id, lines := lines.map (·.toItem) }

theorem addLines_cart (txn : Transaction) (lines : List SaleLine) (h : txn.status = .cart) :
    addLines txn lines = .ok { txn with lines := txn.lines ++ lines.map (·.toItem) } := by
  induction lines generalizing txn with
  | nil => simp [addLines]
  | cons l ls ih =>
    have ha : txn.addLine l.toItem = .ok { txn with lines := txn.lines ++ [l.toItem] } := by
      unfold Transaction.addLine
      rw [if_neg (by simpa using h)]
    have hi := ih { txn with lines := txn.lines ++ [l.toItem] } h
    unfold addLines
    rw [ha]
    dsimp only
    rw [hi]
    simp

theorem capture_cart (txn : Transaction) (h : txn.status = .cart) :
    capture txn = .ok { txn with status := .captured } := by
  obtain ⟨id, status, lines⟩ := txn
  obtain rfl : status = .cart := h
  rfl

theorem returnTransitions_ok (id : Id PosTxn) :
    PosApp.returnTransitions id = .ok { id, status := .returned } := rfl

/-- The tenders and the credit cover the total. -/
def Covers (total credit : Money Usd) (offered : List Tender) : Prop :=
  credit < total → Splits (total - credit) offered

instance (total credit : Money Usd) (offered : List Tender) : Decidable (Covers total credit offered) :=
  inferInstanceAs (Decidable (_ → _))

theorem applyTenders_cases (total credit subtotal : Money Usd) (offered : List Tender) :
    (Covers total credit offered ∧ ∃ ts, applyTenders total credit subtotal offered = .ok ts) ∨
    (¬ Covers total credit offered ∧ ∃ e, applyTenders total credit subtotal offered = .error e) := by
  unfold Covers applyTenders
  dsimp only
  by_cases h : credit < total
  · rw [min_eq_left h.le, if_pos (sub_pos.mpr h)]
    rcases splitTotal_cases (total - credit) offered with ⟨hs, applied, he⟩ | ⟨hs, e, he⟩
    · rw [he]
      exact Or.inl ⟨fun _ => hs, _, rfl⟩
    · rw [he]
      refine Or.inr ⟨fun hc => hs (hc h), ?_⟩
      cases e with
      | emptyTenders => exact ⟨_, rfl⟩
      | underfunded covered total => exact ⟨_, rfl⟩
  · rw [min_eq_right (not_lt.mp h), sub_self, if_neg (lt_irrefl _)]
    exact Or.inl ⟨fun hc => absurd hc h, _, rfl⟩

/-! ## Whole cents -/

theorem wholeCents_of_eq {record : SaleRecord} {n : Int} (h : record.total = (n : ℚ) / 100) :
    record.WholeCents := by
  have hn : record.totalCents = n := by
    have h1 : record.total * 100 = ((n : Int) : ℚ) / (1 : Nat) := by
      rw [h]
      push_cast
      ring
    unfold SaleRecord.totalCents
    rw [h1, trunc_div]
    exact Int.tdiv_one n
  unfold SaleRecord.WholeCents
  rw [hn, h]

theorem taxTotal_cart (id : Id PosTxn) (lines : List SaleLine) :
    (cartOf id lines).taxTotal = (((lines.map fun l => l.tax.1).sum : Int) : ℚ) := by
  have h : ∀ (ls : List SaleLine) (a : Int),
      ((ls.map (·.toItem)).map (·.tax)).foldl (fun a b : ℚ => a + b) (a : ℚ) =
        ((a + (ls.map fun l => l.tax.1).sum : Int) : ℚ) := by
    intro ls
    induction ls with
    | nil => intro a; simp
    | cons l ls ih =>
      intro a
      have := ih (a + l.tax.1)
      simp only [List.map_cons, List.foldl_cons, List.sum_cons] at this ⊢
      rw [← add_assoc, ← this]
      congr 1
      show (a : ℚ) + (l.tax.1 : ℚ) = _
      push_cast
      rfl
  have h0 := h lines 0
  rw [zero_add] at h0
  exact_mod_cast h0

namespace PosApp

variable (app : PosApp)

/-! ## One sale -/

/-- The total a new sale would have. -/
def totalOf (lines : List SaleLine) (customer : Option (Id PosCustomer)) : Money Usd :=
  (((app.feedBalance customer).pricing.discounted (cartOf app.nextId lines).subtotal).1 : ℚ) / 100 +
    (cartOf app.nextId lines).taxTotal

/-- The registers a call can leave: the sales of before, or one more, captured and of whole cents. -/
structure Records (app app' : PosApp) : Prop where
  ids : app.lastId ≤ app'.lastId
  sales : app'.sales = app.sales ∨ ∃ record : SaleRecord, app.lastId < record.id.uuid ∧
    record.id.uuid ≤ app'.lastId ∧ record.status = .captured ∧ record.WholeCents ∧
    app'.sales = app.sales.insert record.id record

theorem Records.of_same {app app' : PosApp} (hi : app.lastId ≤ app'.lastId) (hs : app'.sales = app.sales) :
    Records app app' :=
  ⟨hi, Or.inl hs⟩

@[simp] theorem feedBalance_sales (customer : Option (Id PosCustomer)) :
    (app.feedBalance customer).sales = app.sales := by
  cases customer with
  | none => rfl
  | some c => rfl

@[simp] theorem feedBalance_lastId (customer : Option (Id PosCustomer)) :
    (app.feedBalance customer).lastId = app.lastId := by
  cases customer with
  | none => rfl
  | some c => rfl

/-- The pricing does not read the ids. -/
theorem feedBalance_useId_pricing (customer : Option (Id PosCustomer)) :
    (app.useId.feedBalance customer).pricing = (app.feedBalance customer).pricing := by
  cases customer with
  | none => rfl
  | some c => rfl

theorem records_ringSale (lines : List SaleLine) (tenders : List SaleTender)
    (customer : Option (Id PosCustomer)) (redeem credit : Money Usd) :
    Records app (app.ringSale lines tenders customer redeem credit).2 := by
  have hid : app.lastId ≤ (app.useId.feedBalance customer).lastId := by
    rw [feedBalance_lastId]
    exact Nat.le_succ _
  have hsame : (app.useId.feedBalance customer).sales = app.sales := feedBalance_sales _ _
  unfold ringSale
  dsimp only
  rw [addLines_cart _ _ rfl, List.nil_append]
  dsimp only
  split
  · exact .of_same hid hsame
  · split
    · exact .of_same hid hsame
    · rw [capture_cart _ rfl]
      dsimp only
      -- the sale is recorded; what the loyalty engine then does leaves it recorded
      have hrec : ∀ (record : SaleRecord) (app' : PosApp), record.id = app.nextId → record.status = .captured →
          record.WholeCents → app'.lastId = (app.useId.feedBalance customer).lastId →
          app'.sales = (app.useId.feedBalance customer).sales.insert record.id record → Records app app' := by
        intro record app' hr hst hw hl hs
        rw [feedBalance_lastId] at hl
        rw [hsame] at hs
        refine ⟨by rw [hl]; exact Nat.le_succ _, Or.inr ⟨record, ?_, ?_, hst, hw, hs⟩⟩
        · rw [hr]
          exact Nat.lt_succ_self _
        · rw [hr, hl]
          exact le_rfl
      have hw : ∀ (c : Int) (id : Id PosTxn), ∃ n : Int, (c : ℚ) / 100 +
          ({ id, lines := lines.map (·.toItem) } : Transaction).taxTotal = (n : ℚ) / 100 := by
        intro c id
        refine ⟨c + 100 * (lines.map fun l => l.tax.1).sum, ?_⟩
        have ht := taxTotal_cart id lines
        unfold cartOf at ht
        rw [ht]
        push_cast
        ring
      obtain ⟨n, hn⟩ := hw _ _
      split
      · exact hrec _ _ rfl rfl (wholeCents_of_eq hn) rfl rfl
      · exact hrec _ _ rfl rfl (wholeCents_of_eq hn) rfl rfl

theorem checkRedeem_zero (loyalty : LoyaltyEngine) (customer : Option (Id PosCustomer)) :
    checkRedeem loyalty customer 0 = .ok () := by
  unfold checkRedeem
  exact if_neg (lt_irrefl _)

theorem accrue_ok {redeemed : Money Usd} (loyalty : LoyaltyEngine) (customer : Option (Id PosCustomer))
    (subtotal : Money Usd) (h : redeemed ≤ 0) :
    ∃ points loyalty', accrue loyalty customer subtotal redeemed = (.ok points, loyalty') := by
  unfold accrue
  cases customer with
  | none => exact ⟨0, loyalty, rfl⟩
  | some c =>
    dsimp only
    rw [if_neg (not_lt.mpr h)]
    exact ⟨_, _, rfl⟩

/-- A sale without a redemption goes through exactly when it is covered. -/
theorem ringSale_ok_iff (lines : List SaleLine) (tenders : List SaleTender)
    (customer : Option (Id PosCustomer)) (credit : Money Usd) :
    (∃ out, (app.ringSale lines tenders customer 0 credit).1 = .ok out) ↔
      Covers (app.totalOf lines customer) credit (tenders.map (·.toTender)) := by
  unfold ringSale
  dsimp only
  rw [addLines_cart _ _ rfl, List.nil_append]
  dsimp only
  rw [checkRedeem_zero, zero_add, feedBalance_useId_pricing]
  dsimp only
  rcases applyTenders_cases (app.totalOf lines customer) credit
    (cartOf app.nextId lines).subtotal (tenders.map (·.toTender)) with ⟨hc, ts, he⟩ | ⟨hc, e, he⟩
  · unfold totalOf cartOf at he
    rw [he, capture_cart _ rfl]
    dsimp only
    obtain ⟨points, loyalty', ha⟩ := accrue_ok
      ((app.useId.feedBalance customer).recordSale
        { id := app.nextId, status := .captured
          subtotal := (cartOf app.nextId lines).subtotal
          discount := (cartOf app.nextId lines).subtotal -
            (((app.feedBalance customer).pricing.discounted (cartOf app.nextId lines).subtotal).1 : ℚ) / 100
          tax := (cartOf app.nextId lines).taxTotal, total := app.totalOf lines customer, tenders := ts
          lines := lines.map (·.toItem) }).loyalty
      customer (cartOf app.nextId lines).subtotal (min_le_left 0 (app.totalOf lines customer))
    unfold totalOf cartOf at ha
    rw [ha]
    exact iff_of_true ⟨_, rfl⟩ hc
  · unfold totalOf cartOf at he
    rw [he]
    exact iff_of_false (fun ⟨_, h⟩ => nomatch h) hc

/-! ## One return -/

theorem records_refundFor (id : Id PosTxn) (returns : List ReturnLine) :
    Records app (app.refundFor id returns).2 := by
  have h1 : app.lastId ≤ app.useId.lastId := Nat.le_succ _
  have h2 : app.lastId ≤ app.useId.useId.lastId := h1.trans (Nat.le_succ _)
  unfold refundFor
  split
  · exact .of_same le_rfl rfl
  · split
    · exact .of_same le_rfl rfl
    · dsimp only
      split
      · exact .of_same h1 rfl
      · split
        · exact .of_same h1 rfl
        · split
          · exact .of_same h1 rfl
          · exact .of_same h2 rfl

/-- A return of a recorded sale is accepted exactly when the merchandise is refundable, and pays its
share back. -/
theorem refundFor_cases {id : Id PosTxn} {record : SaleRecord} (returns : List ReturnLine)
    (hr : app.sales.lookup id = some record) (hs : record.status = .captured) (hw : record.WholeCents) :
    (record.Refundable (merchandiseOf record returns) ∧ ∃ split,
      (app.refundFor id returns).1 = .ok split ∧
        split.refundAmount = (record.refundCents (merchandiseOf record returns) : ℚ) / 100) ∨
    (¬ record.Refundable (merchandiseOf record returns) ∧
      ∃ e, (app.refundFor id returns).1 = .error e) := by
  unfold refundFor
  rw [hr]
  dsimp only
  rw [if_neg (not_not.mpr hs), returnTransitions_ok]
  dsimp only
  unfold returnedMerchandise
  dsimp only
  by_cases hm : record.subtotal < merchandiseOf record returns
  · rw [if_pos hm]
    exact Or.inr ⟨fun h => not_le.mpr hm h.1, _, rfl⟩
  · rw [if_neg hm]
    dsimp only
    rcases computeRefund_cases hw (merchandiseOf record returns) with ⟨hf, split, he, ha⟩ | ⟨hf, e, he⟩
    · rw [he]
      exact Or.inl ⟨hf, split, rfl, ha⟩
    · rw [he]
      exact Or.inr ⟨hf, _, rfl⟩

/-- A return leaves the total of a new sale as it is. -/
theorem totalOf_refundFor (id : Id PosTxn) (returns : List ReturnLine) (lines : List SaleLine)
    (customer : Option (Id PosCustomer)) :
    (app.refundFor id returns).2.totalOf lines customer = app.totalOf lines customer := by
  have h : ∀ app' : PosApp, app'.pricing = app.pricing → app'.loyalty = app.loyalty →
      app'.totalOf lines customer = app.totalOf lines customer := by
    intro app' hp hl
    have hf : (app'.feedBalance customer).pricing = (app.feedBalance customer).pricing := by
      cases customer with
      | none => exact hp
      | some c =>
        unfold feedBalance
        dsimp only
        rw [hp, hl]
    unfold totalOf
    rw [hf]
    rfl
  unfold refundFor
  split
  · rfl
  · split
    · rfl
    · dsimp only
      split
      · exact h _ rfl rfl
      · split
        · exact h _ rfl rfl
        · split
          · exact h _ rfl rfl
          · exact h _ rfl rfl

/-! ## Runs -/

inductive Call
  | sale (lines : List SaleLine) (tenders : List SaleTender)
  | saleFor (customer : Id PosCustomer) (redeem : Money Usd) (lines : List SaleLine)
      (tenders : List SaleTender)
  | returnSale (id : Id PosTxn) (returns : List ReturnLine)
  | exchange (id : Id PosTxn) (returns : List ReturnLine) (newLines : List SaleLine)
      (newTenders : List SaleTender) (customer : Option (Id PosCustomer))
  | swapModule (plugin : PricingPlugin)

/-- The register after the call. -/
def next : Call → PosApp
  | .sale lines tenders => (app.sale lines tenders).2
  | .saleFor customer redeem lines tenders => (app.saleFor customer redeem lines tenders).2
  | .returnSale id returns => (app.returnSale id returns).2
  | .exchange id returns newLines newTenders customer => (app.exchange id returns newLines newTenders customer).2
  | .swapModule plugin => { app with pricing := app.pricing.swapModule plugin }

/-- What the call pays back for the sale `id`: nothing when it fails or names another sale. -/
def refundBy (id : Id PosTxn) : Call → Money Usd
  | .returnSale id' returns =>
    if id' = id then
      match (app.returnSale id' returns).1 with
      | .ok split => split.refundAmount
      | .error _ => 0
    else 0
  | .exchange id' returns newLines newTenders customer =>
    if id' = id then
      match (app.exchange id' returns newLines newTenders customer).1 with
      | .ok out => out.refund
      | .error _ => 0
    else 0
  | _ => 0

/-- What a sequence of calls pays back for the sale. -/
def refunded (id : Id PosTxn) : PosApp → List Call → Money Usd
  | _, [] => 0
  | app, c :: cs => app.refundBy id c + refunded id (app.next c) cs

/-- The share in cents of an accepted call: the merchandise is refundable and, in an exchange, the new
sale is covered. -/
def shareOf (id : Id PosTxn) (record : SaleRecord) : Call → Int
  | .returnSale id' returns =>
    if id' = id ∧ record.Refundable (merchandiseOf record returns) then
      record.refundCents (merchandiseOf record returns)
    else 0
  | .exchange id' returns newLines newTenders customer =>
    if id' = id ∧ record.Refundable (merchandiseOf record returns) ∧
        Covers (app.totalOf newLines customer) ((record.refundCents (merchandiseOf record returns) : ℚ) / 100)
          (newTenders.map (·.toTender)) then
      record.refundCents (merchandiseOf record returns)
    else 0
  | _ => 0

/-- The shares of a sequence of calls. -/
def due (id : Id PosTxn) (record : SaleRecord) : PosApp → List Call → Int
  | _, [] => 0
  | app, c :: cs => app.shareOf id record c + due id record (app.next c) cs

/-- A register after some calls, with or without a pricing plugin. -/
inductive Reachable : PosApp → Prop
  | new (terminal : Id PosTerminal) : Reachable (new terminal)
  | withPricing (terminal : Id PosTerminal) (plugin : PricingPlugin) :
      Reachable ((new terminal).withPricing plugin)
  | next {app : PosApp} (h : Reachable app) (c : Call) : Reachable (app.next c)

/-- Recorded sales have used ids, are captured and come to whole cents. -/
def SalesOk : Prop :=
  ∀ id record, app.sales.lookup id = some record →
    id.uuid ≤ app.lastId ∧ record.status = .captured ∧ record.WholeCents

theorem Records.keeps {app app' : PosApp} (h : Records app app') (hok : app.SalesOk) :
    app'.SalesOk ∧ ∀ id record, app.sales.lookup id = some record → app'.sales.lookup id = some record := by
  rcases h.sales with hs | ⟨new, hlt, hle, hst, hw, hs⟩
  · unfold SalesOk
    rw [hs]
    refine ⟨fun id record hr => ?_, fun _ _ hr => hr⟩
    obtain ⟨h1, h2⟩ := hok id record hr
    exact ⟨h1.trans h.ids, h2⟩
  · unfold SalesOk
    rw [hs]
    constructor
    · intro id record hr
      rw [AssocMap.lookup_insert_eq] at hr
      split at hr
      · next he =>
        obtain rfl := Option.some.inj hr
        rw [he]
        exact ⟨hle, hst, hw⟩
      · obtain ⟨h1, h2⟩ := hok id record hr
        exact ⟨h1.trans h.ids, h2⟩
    · intro id record hr
      have hne : id ≠ new.id := by
        intro he
        have := (hok id record hr).1
        rw [he] at this
        omega
      rw [AssocMap.lookup_insert_eq, if_neg hne, hr]

/-- A call keeps the recorded sales. -/
theorem keeps_next (hok : app.SalesOk) (c : Call) : (app.next c).SalesOk ∧
    ∀ id record, app.sales.lookup id = some record → (app.next c).sales.lookup id = some record := by
  cases c with
  | sale lines tenders => exact (app.records_ringSale lines tenders none 0 0).keeps hok
  | saleFor customer redeem lines tenders =>
    exact (app.records_ringSale lines tenders (some customer) redeem 0).keeps hok
  | returnSale id returns => exact (app.records_refundFor id returns).keeps hok
  | exchange id returns newLines newTenders customer =>
    have h1 := (app.records_refundFor id returns).keeps hok
    unfold next exchange
    dsimp only
    split
    · next he => rw [he] at h1; exact h1
    · next refund mid he =>
      rw [he] at h1
      have h2 := (mid.records_ringSale newLines newTenders customer 0 refund.refundAmount).keeps h1.1
      split
      · next he' =>
        rw [he'] at h2
        exact ⟨h2.1, fun id record hr => h2.2 id record (h1.2 id record hr)⟩
      · next he' =>
        rw [he'] at h2
        exact ⟨h2.1, fun id record hr => h2.2 id record (h1.2 id record hr)⟩
  | swapModule plugin => exact ⟨hok, fun _ _ hr => hr⟩

theorem salesOk_of_reachable {app : PosApp} (h : Reachable app) : app.SalesOk := by
  induction h with
  | new terminal => exact fun _ _ hr => nomatch hr
  | withPricing terminal plugin => exact fun _ _ hr => nomatch hr
  | next _ c ih => exact (keeps_next _ ih c).1

/-- One call pays its share back. -/
theorem refundBy_eq {id : Id PosTxn} {record : SaleRecord} (hr : app.sales.lookup id = some record)
    (hok : app.SalesOk) (c : Call) : app.refundBy id c = (app.shareOf id record c : ℚ) / 100 := by
  obtain ⟨-, hs, hw⟩ := hok id record hr
  cases c with
  | returnSale id' returns =>
    unfold refundBy shareOf returnSale
    dsimp only
    by_cases hid : id' = id
    · subst hid
      rw [if_pos rfl]
      rcases app.refundFor_cases returns hr hs hw with ⟨hf, split, he, ha⟩ | ⟨hf, e, he⟩
      · rw [he, if_pos ⟨rfl, hf⟩]
        exact ha
      · rw [he, if_neg (fun h => hf h.2)]
        simp
    · rw [if_neg hid, if_neg (fun h => hid h.1)]
      simp
  | exchange id' returns newLines newTenders customer =>
    unfold refundBy shareOf exchange
    dsimp only
    by_cases hid : id' = id
    · subst hid
      rw [if_pos rfl]
      have ht := app.totalOf_refundFor id' returns newLines customer
      rcases app.refundFor_cases returns hr hs hw with ⟨hf, refund, he, ha⟩ | ⟨hf, e, he⟩
      · rcases hx : app.refundFor id' returns with ⟨res, mid⟩
        rw [hx] at he ht
        obtain rfl : res = .ok refund := he
        have hring := mid.ringSale_ok_iff newLines newTenders customer refund.refundAmount
        rw [ht, ha] at hring
        dsimp only
        rw [ha]
        rcases hy : mid.ringSale newLines newTenders customer 0
          ((record.refundCents (merchandiseOf record returns) : ℚ) / 100) with ⟨sold, last⟩
        rw [hy] at hring
        cases sold with
        | ok sale =>
          rw [if_pos ⟨rfl, hf, hring.mp ⟨sale, rfl⟩⟩]
        | error e =>
          have hno : ¬ Covers (app.totalOf newLines customer)
              ((record.refundCents (merchandiseOf record returns) : ℚ) / 100)
              (newTenders.map (·.toTender)) := by
            intro hc
            obtain ⟨sale, hs⟩ := hring.mpr hc
            exact nomatch hs
          rw [if_neg (fun h => hno h.2.2)]
          simp
      · rcases hx : app.refundFor id' returns with ⟨res, mid⟩
        rw [hx] at he
        obtain rfl : res = .error e := he
        rw [if_neg (fun h => hf h.2.1)]
        simp
    · rw [if_neg hid, if_neg (fun h => hid h.1)]
      simp
  | sale lines tenders => simp [refundBy, shareOf]
  | saleFor customer redeem lines tenders => simp [refundBy, shareOf]
  | swapModule plugin => simp [refundBy, shareOf]

/-- The calls together pay their shares back. -/
theorem refunded_eq_due {id : Id PosTxn} {record : SaleRecord} (hr : app.sales.lookup id = some record)
    (hok : app.SalesOk) (calls : List Call) :
    refunded id app calls = (due id record app calls : ℚ) / 100 := by
  induction calls generalizing app with
  | nil => simp [refunded, due]
  | cons c cs ih =>
    obtain ⟨hok', hkept⟩ := app.keeps_next hok c
    unfold refunded due
    rw [app.refundBy_eq hr hok c, ih _ (hkept id record hr) hok']
    push_cast
    ring

/-- The refunds of a recorded sale stay within its total exactly when the rounded shares do. -/
theorem refunds_within_total_iff {app : PosApp} (h : Reachable app) {id : Id PosTxn} {record : SaleRecord}
    (hr : app.sales.lookup id = some record) (calls : List Call) :
    refunded id app calls ≤ record.total ↔ due id record app calls ≤ record.totalCents := by
  have hok := salesOk_of_reachable h
  have hw : record.total = (record.totalCents : ℚ) / 100 := (hok id record hr).2.2
  rw [app.refunded_eq_due hr hok calls, hw, div_le_div_iff_of_pos_right (by norm_num)]
  exact_mod_cast Iff.rfl

/-- Mugs of $9, with $1 of tax. -/
def mugs (n : Nat) : SaleLine :=
  { item := ⟨0⟩, name := "Mug", qty := u32 n, unitPrice := i64 9, tax := i64 1 }

/-- Two items of $9 and $1 of tax, paid with $10 in cash and $9 by card. -/
def oneSale : PosApp :=
  (new ⟨0⟩).next (.sale [{ item := ⟨0⟩, name := "Mug", qty := u32 2, unitPrice := i64 9
                           tax := i64 1 }]
    [{ kind := .cash, amount := i64 10 }, { kind := .card, amount := i64 9 }])

theorem reachable_oneSale : Reachable oneSale := (Reachable.new ⟨0⟩).next _

/-- A full return is due the $19 that were paid. -/
theorem one_full_return : ∃ record, oneSale.sales.lookup ⟨1⟩ = some record ∧
    refunded ⟨1⟩ oneSale [.returnSale ⟨1⟩ []] ≤ record.total := by
  have h : (oneSale.sales.lookup ⟨1⟩).map (fun record =>
      decide (due ⟨1⟩ record oneSale [.returnSale ⟨1⟩ []] ≤ record.totalCents)) = some true := by decide +kernel
  obtain ⟨record, hr, hd⟩ := Option.map_eq_some_iff.mp h
  exact ⟨record, hr, (refunds_within_total_iff reachable_oneSale hr _).mpr (of_decide_eq_true hd)⟩

/-- The same sale is returned in full twice, for $38. -/
theorem full_return_accepted_twice :
    ¬ ∀ app : PosApp, Reachable app → ∀ id record, app.sales.lookup id = some record →
      ∀ calls : List Call, refunded id app calls ≤ record.total := by
  intro h
  have hl : (oneSale.sales.lookup ⟨1⟩).map (·.total) = some 19 := by decide +kernel
  obtain ⟨record, hr, ht⟩ := Option.map_eq_some_iff.mp hl
  have hle := h oneSale reachable_oneSale ⟨1⟩ record hr [.returnSale ⟨1⟩ [], .returnSale ⟨1⟩ []]
  have hv : refunded ⟨1⟩ oneSale [.returnSale ⟨1⟩ [], .returnSale ⟨1⟩ []] = 38 := by decide +kernel
  rw [hv, ht] at hle
  exact absurd hle (by norm_num)

end PosApp

end TptErp.Pos
