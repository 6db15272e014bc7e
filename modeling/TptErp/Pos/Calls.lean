import TptErp.Lib.Threads
import TptErp.Pos.Refunds

/-!
# The register's calls

Each call as its sections under one lock, between which other calls can run: the loyalty engine, the pricing
engine, the sales, the local log and the pending sales each have a lock of their own.

What a section goes on to is one step, with everything the call has computed so far.  A call that has ended
keeps its result (`returned`).  `runs_call`: alone, a call does what the register's function does.
-/

namespace TptErp.Pos

/-- The arguments of `ring_sale`. -/
structure Ringing where
  lines : List SaleLine
  tenders : List SaleTender
  customer : Option (Id PosCustomer)
  loyaltyRedeem : Money Usd := 0
  exchangeCredit : Money Usd := 0
  /-- The refund, for the sale of an exchange. -/
  refund : Option (Money Usd) := none

/-- What pricing comes to. -/
structure Priced where
  subtotal : Money Usd
  tax : Money Usd
  discount : Money Usd
  total : Money Usd
  pricingApplied : Bool

def Priced.record (priced : Priced) (txn : Transaction) (applied : List Tender) : SaleRecord where
  id := txn.id
  status := txn.status
  subtotal := priced.subtotal
  discount := priced.discount
  tax := priced.tax
  total := priced.total
  tenders := applied
  lines := txn.lines

def Priced.out (priced : Priced) (txn : Transaction) (applied : List Tender) (earnedPoints : ℚ) : RingOutcome where
  txnId := txn.id
  subtotal := priced.subtotal
  tax := priced.tax
  discount := priced.discount
  total := priced.total
  status := txn.status
  appliedTenders := applied
  pricingApplied := priced.pricingApplied
  earnedPoints := earnedPoints

inductive Outcome
  | ring (out : RingOutcome)
  | refund (split : RefundSplit)
  | exchange (out : ExchangeOutcome)
  | swapped

/-- The sections of the calls. -/
inductive PosStep
  | start (r : Ringing)
  | readBalance (r : Ringing) (txn : Transaction) (c : Id PosCustomer)
  /-- The host's balance is set. -/
  | feed (r : Ringing) (txn : Transaction) (balance : WasmMoney)
  /-- The plugin is asked for a discount; `own` is the balance that the call has fed, the initial one for a
  sale without a customer. -/
  | price (r : Ringing) (txn : Transaction) (own : WasmMoney)
  | checkPoints (r : Ringing) (txn : Transaction) (priced : Priced) (c : Id PosCustomer)
  | insertSale (r : Ringing) (txn : Transaction) (priced : Priced) (applied : List Tender)
  | earn (r : Ringing) (out : RingOutcome) (c : Id PosCustomer)
  | redeem (r : Ringing) (out : RingOutcome) (c : Id PosCustomer)
  /-- A return; then the sale of an exchange. -/
  | lookup (id : Id PosTxn) (returns : List ReturnLine) (sale : Option Ringing)
  /-- The two sections of `record_offline`. -/
  | appendLocal (e : SaleEvent) (next : PosStep)
  | pushPending (e : SaleEvent) (next : PosStep)
  | swap (plugin : PricingPlugin)
  | returned (result : Except PosError Outcome)

def Ringing.outcome (r : Ringing) (out : RingOutcome) : Outcome :=
  match r.refund with
  | none => .ring out
  | some refund => .exchange { refund, sale := out }

/-- The balance of a new host. -/
def initialBalance : WasmMoney := { major := 0, minor := 0 }

/-- From the tenders to the captured transaction: no lock is taken. -/
def Ringing.settle (r : Ringing) (txn : Transaction) (priced : Priced) : PosStep :=
  match applyTenders priced.total (r.loyaltyRedeem + r.exchangeCredit) priced.subtotal
      (r.tenders.map (·.toTender)) with
  | .error e => .returned (.error e)
  | .ok applied =>
    match capture txn with
    | .error e => .returned (.error (.txn e))
    | .ok txn => .insertSale r txn priced applied

theorem Ringing.settle_cases (r : Ringing) (txn : Transaction) (priced : Priced) :
    (∃ e, r.settle txn priced = .returned (.error e)) ∨
      ∃ captured applied, r.settle txn priced = .insertSale r captured priced applied := by
  unfold Ringing.settle
  split
  · exact Or.inl ⟨_, rfl⟩
  · split
    · exact Or.inl ⟨_, rfl⟩
    · exact Or.inr ⟨_, _, rfl⟩

def RingOutcome.event (out : RingOutcome) (terminal : Id PosTerminal) : SaleEvent where
  txnId := .txn out.txnId
  terminal := terminal
  kind := .sale
  total := out.total
  tenders := out.appliedTenders.map fun t : Tender => (t.kind, t.amount)

/-- The event of a sale is recorded, and the call returns. -/
def Ringing.finish (r : Ringing) (terminal : Id PosTerminal) (out : RingOutcome) : PosStep :=
  .appendLocal (out.event terminal) (.returned (.ok (r.outcome out)))

/-- The sale of an exchange gets the refund as a credit. -/
def Ringing.credited (r : Ringing) (refund : Money Usd) : Ringing :=
  { r with loyaltyRedeem := 0, exchangeCredit := refund, refund := some refund }

namespace PosSync

def appendLocal (s : PosSync) (sale : SaleEvent) : PosSync :=
  { s with
    localLog :=
      (s.localLog.append { aggregateId := s.terminal, eventType := "sale-recorded", payload := sale }).2 }

def pushPending (s : PosSync) (sale : SaleEvent) : PosSync := { s with pending := s.pending ++ [sale] }

end PosSync

namespace PosApp

variable (app : PosApp)

def priced (txn : Transaction) : Priced :=
  let subtotal := txn.subtotal
  let tax := txn.taxTotal
  let priced := app.pricing.discounted subtotal
  let discountedSubtotal : Money Usd := (priced.1 : ℚ) / 100
  { subtotal, tax, discount := subtotal - discountedSubtotal, total := discountedSubtotal + tax
    pricingApplied := priced.2 }

/-- One section: the register afterwards, and what the call goes on with. -/
def act : PosStep → Option (PosApp × PosStep)
  | .start r =>
    match addLines { id := app.nextId } r.lines with
    | .error e => some (app.useId, .returned (.error (.txn e)))
    | .ok txn =>
      match r.customer with
      | none => some (app.useId, .price r txn initialBalance)
      | some c => some (app.useId, .readBalance r txn c)
  | .readBalance r txn c => some (app, .feed r txn (pointsToWasmMoney (app.loyalty.balance c).points))
  | .feed r txn balance => some ({ app with pricing := app.pricing.setBalance balance }, .price r txn balance)
  | .price r txn _ =>
    if 0 < r.loyaltyRedeem then
      match r.customer with
      | none => some (app, .returned (.error (.loyalty (.insufficient 0 r.loyaltyRedeem))))
      | some c => some (app, .checkPoints r txn (app.priced txn) c)
    else some (app, r.settle txn (app.priced txn))
  | .checkPoints r txn priced c =>
    if (app.loyalty.balance c).points < r.loyaltyRedeem then
      some (app, .returned (.error (.loyalty (.insufficient (app.loyalty.balance c).points r.loyaltyRedeem))))
    else some (app, r.settle txn priced)
  | .insertSale r txn priced applied =>
    match r.customer with
    | none => some (app.recordSale (priced.record txn applied), r.finish app.sync.terminal (priced.out txn applied 0))
    | some c => some (app.recordSale (priced.record txn applied), .earn r (priced.out txn applied 0) c)
  | .earn r out c =>
    let (b, loyalty) := app.loyalty.earn c out.subtotal
    let out := { out with earnedPoints := b.points }
    if 0 < min r.loyaltyRedeem out.total then some ({ app with loyalty }, .redeem r out c)
    else some ({ app with loyalty }, r.finish app.sync.terminal out)
  | .redeem r out c =>
    match app.loyalty.redeem c (min r.loyaltyRedeem out.total) with
    | (.error e, loyalty) => some ({ app with loyalty }, .returned (.error (.loyalty e)))
    | (.ok b, loyalty) => some ({ app with loyalty }, r.finish app.sync.terminal { out with earnedPoints := b.points })
  | .lookup id returns sale =>
    match app.sales.lookup id with
    | none => some (app, .returned (.error (.noSuchSale id)))
    | some record =>
      if record.status ≠ .captured then some (app, .returned (.error (.ret (.notReturnable record.status))))
      else
        match returnTransitions app.nextId with
        | .error e => some (app.useId, .returned (.error (.txn e)))
        | .ok _ =>
          match returnedMerchandise record returns with
          | .error e => some (app.useId, .returned (.error (.ret e)))
          | .ok returned =>
            match computeRefund record returned with
            | .error e => some (app.useId, .returned (.error (.ret e)))
            | .ok split =>
              let next : PosStep :=
                match sale with
                | none => .returned (.ok (.refund split))
                | some r => .start (r.credited split.refundAmount)
              some (app.useId.useId, .appendLocal
                { txnId := .ret app.useId.nextId, terminal := app.sync.terminal, kind := .ret
                  total := split.refundAmount, tenders := split.tenders.map fun t : Tender => (t.kind, t.amount) }
                next)
  | .appendLocal e next => some ({ app with sync := app.sync.appendLocal e }, .pushPending e next)
  | .pushPending e next => some ({ app with sync := app.sync.pushPending e }, next)
  | .swap plugin => some ({ app with pricing := app.pricing.swapModule plugin }, .returned (.ok .swapped))
  | .returned _ => none

attribute [simp] act

/-- **The sections**, one case for each way a section can go. -/
inductive Acts : PosStep → PosApp → PosStep → Prop
  | lineRejected {r : Ringing} {e : TxnError} (lines : addLines { id := app.nextId } r.lines = .error e) :
      Acts (.start r) app.useId (.returned (.error (.txn e)))
  | startAnonymous {r : Ringing} {txn : Transaction} (lines : addLines { id := app.nextId } r.lines = .ok txn)
      (customer : r.customer = none) : Acts (.start r) app.useId (.price r txn initialBalance)
  | startFor {r : Ringing} {txn : Transaction} {c : Id PosCustomer}
      (lines : addLines { id := app.nextId } r.lines = .ok txn) (customer : r.customer = some c) :
      Acts (.start r) app.useId (.readBalance r txn c)
  | readBalance (r : Ringing) (txn : Transaction) (c : Id PosCustomer) :
      Acts (.readBalance r txn c) app (.feed r txn (pointsToWasmMoney (app.loyalty.balance c).points))
  | feed (r : Ringing) (txn : Transaction) (balance : WasmMoney) :
      Acts (.feed r txn balance) { app with pricing := app.pricing.setBalance balance } (.price r txn balance)
  | nobodysPoints {r : Ringing} {txn : Transaction} {own : WasmMoney} (redeem : 0 < r.loyaltyRedeem)
      (customer : r.customer = none) :
      Acts (.price r txn own) app (.returned (.error (.loyalty (.insufficient 0 r.loyaltyRedeem))))
  | price {r : Ringing} {txn : Transaction} {own : WasmMoney} {c : Id PosCustomer} (redeem : 0 < r.loyaltyRedeem)
      (customer : r.customer = some c) :
      Acts (.price r txn own) app (.checkPoints r txn (app.priced txn) c)
  | priceSettle {r : Ringing} {txn : Transaction} {own : WasmMoney} (redeem : ¬ 0 < r.loyaltyRedeem) :
      Acts (.price r txn own) app (r.settle txn (app.priced txn))
  | pointsMissing {r : Ringing} {c : Id PosCustomer} (txn : Transaction) (priced : Priced)
      (points : (app.loyalty.balance c).points < r.loyaltyRedeem) :
      Acts (.checkPoints r txn priced c) app
        (.returned (.error (.loyalty (.insufficient (app.loyalty.balance c).points r.loyaltyRedeem))))
  | checkPoints {r : Ringing} {c : Id PosCustomer} (txn : Transaction) (priced : Priced)
      (points : ¬ (app.loyalty.balance c).points < r.loyaltyRedeem) :
      Acts (.checkPoints r txn priced c) app (r.settle txn priced)
  | insertSale {r : Ringing} (txn : Transaction) (priced : Priced) (applied : List Tender)
      (customer : r.customer = none) :
      Acts (.insertSale r txn priced applied) (app.recordSale (priced.record txn applied))
        (r.finish app.sync.terminal (priced.out txn applied 0))
  | insertSaleFor {r : Ringing} {c : Id PosCustomer} (txn : Transaction) (priced : Priced) (applied : List Tender)
      (customer : r.customer = some c) :
      Acts (.insertSale r txn priced applied) (app.recordSale (priced.record txn applied))
        (.earn r (priced.out txn applied 0) c)
  | earn {r : Ringing} {out : RingOutcome} {c : Id PosCustomer} (redeem : ¬ 0 < min r.loyaltyRedeem out.total) :
      Acts (.earn r out c) { app with loyalty := (app.loyalty.earn c out.subtotal).2 }
        (r.finish app.sync.terminal { out with earnedPoints := (app.loyalty.earn c out.subtotal).1.points })
  | earnRedeem {r : Ringing} {out : RingOutcome} {c : Id PosCustomer} (redeem : 0 < min r.loyaltyRedeem out.total) :
      Acts (.earn r out c) { app with loyalty := (app.loyalty.earn c out.subtotal).2 }
        (.redeem r { out with earnedPoints := (app.loyalty.earn c out.subtotal).1.points } c)
  | redeemFailed {r : Ringing} {out : RingOutcome} {c : Id PosCustomer} {e : LoyaltyError} {loyalty : LoyaltyEngine}
      (redeem : app.loyalty.redeem c (min r.loyaltyRedeem out.total) = (.error e, loyalty)) :
      Acts (.redeem r out c) { app with loyalty } (.returned (.error (.loyalty e)))
  | redeem {r : Ringing} {out : RingOutcome} {c : Id PosCustomer} {b : LoyaltyBalance} {loyalty : LoyaltyEngine}
      (redeem : app.loyalty.redeem c (min r.loyaltyRedeem out.total) = (.ok b, loyalty)) :
      Acts (.redeem r out c) { app with loyalty }
        (r.finish app.sync.terminal { out with earnedPoints := b.points })
  | returnRejected {id : Id PosTxn} {returns : List ReturnLine} {sale : Option Ringing} {app' : PosApp}
      (e : PosError) (same : app' = app ∨ app' = app.useId) :
      Acts (.lookup id returns sale) app' (.returned (.error e))
  | lookup {id : Id PosTxn} {returns : List ReturnLine} {sale : Option Ringing} {record : SaleRecord}
      {returned : Money Usd} {split : RefundSplit} (found : app.sales.lookup id = some record)
      (captured : record.status = .captured) (merchandise : returnedMerchandise record returns = .ok returned)
      (refund : computeRefund record returned = .ok split) :
      Acts (.lookup id returns sale) app.useId.useId
        (.appendLocal
          { txnId := .ret app.useId.nextId, terminal := app.sync.terminal, kind := .ret
            total := split.refundAmount, tenders := split.tenders.map fun t : Tender => (t.kind, t.amount) }
          (match sale with
            | none => .returned (.ok (.refund split))
            | some r => .start (r.credited split.refundAmount)))
  | appendLocal (e : SaleEvent) (next : PosStep) :
      Acts (.appendLocal e next) { app with sync := app.sync.appendLocal e } (.pushPending e next)
  | pushPending (e : SaleEvent) (next : PosStep) :
      Acts (.pushPending e next) { app with sync := app.sync.pushPending e } next
  | swap (plugin : PricingPlugin) :
      Acts (.swap plugin) { app with pricing := app.pricing.swapModule plugin } (.returned (.ok .swapped))

theorem acts_of_act {app app' : PosApp} {i next : PosStep} (h : app.act i = some (app', next)) :
    app.Acts i app' next := by
  cases i with
  | start r =>
    simp only [act] at h
    split at h
    · next hl => cases h; exact .lineRejected hl
    · next hl =>
      split at h
      · next hc => cases h; exact .startAnonymous hl hc
      · next hc => cases h; exact .startFor hl hc
  | readBalance r txn c => cases h; exact .readBalance r txn c
  | feed r txn balance => cases h; exact .feed r txn balance
  | price r txn own =>
    simp only [act] at h
    split at h
    · next hr =>
      split at h
      · next hc => cases h; exact .nobodysPoints hr hc
      · next hc => cases h; exact .price hr hc
    · next hr => cases h; exact .priceSettle hr
  | checkPoints r txn priced c =>
    simp only [act] at h
    split at h
    · next hp => cases h; exact .pointsMissing txn priced hp
    · next hp => cases h; exact .checkPoints txn priced hp
  | insertSale r txn priced applied =>
    simp only [act] at h
    split at h
    · next hc => cases h; exact .insertSale txn priced applied hc
    · next hc => cases h; exact .insertSaleFor txn priced applied hc
  | earn r out c =>
    simp only [act] at h
    split at h
    · next hr => cases h; exact .earnRedeem hr
    · next hr => cases h; exact .earn hr
  | redeem r out c =>
    simp only [act] at h
    split at h
    · next hd => cases h; exact .redeemFailed hd
    · next hd => cases h; exact .redeem hd
  | lookup id returns sale =>
    simp only [act] at h
    split at h
    · cases h; exact .returnRejected _ (Or.inl rfl)
    · next hl =>
      split at h
      · cases h; exact .returnRejected _ (Or.inl rfl)
      · next hs =>
        split at h
        · cases h; exact .returnRejected _ (Or.inr rfl)
        · split at h
          · cases h; exact .returnRejected _ (Or.inr rfl)
          · next hm =>
            split at h
            · cases h; exact .returnRejected _ (Or.inr rfl)
            · next hf => cases h; exact .lookup hl (not_not.mp hs) hm hf
  | appendLocal e next => cases h; exact .appendLocal e next
  | pushPending e next => cases h; exact .pushPending e next
  | swap plugin => cases h; exact .swap plugin
  | returned result => cases h

end PosApp

/-- A call's first section. -/
def Call.prog : PosApp.Call → List PosStep
  | .sale lines tenders => [.start { lines, tenders, customer := none }]
  | .saleFor customer redeem lines tenders =>
    [.start { lines, tenders, customer := some customer, loyaltyRedeem := redeem }]
  | .returnSale id returns => [.lookup id returns none]
  | .exchange id returns newLines newTenders customer =>
    [.lookup id returns (some { lines := newLines, tenders := newTenders, customer })]
  | .swapModule plugin => [.swap plugin]

/-- The register's calls; a sync run clears the pending sales in between. -/
def calls : Machine PosApp PosStep Unit PosApp.Call Unit where
  prog := Call.prog
  instr app i _ := (app.act i).map fun r => (r.1, [r.2])
  env app _ := { app with sync := app.sync.clear }

theorem act_of_instr {app core : PosApp} {i : PosStep} {k : Unit} {more : List PosStep}
    (h : calls.instr app i k = some (core, more)) : ∃ next, more = [next] ∧ app.act i = some (core, next) := by
  obtain ⟨⟨core', next⟩, ha, he⟩ := Option.map_eq_some_iff.mp h
  cases he
  exact ⟨next, rfl, ha⟩

/-! ## A call alone -/

namespace PosApp

variable (app : PosApp)

theorem runs_act {app app₁ app' : PosApp} {i next : PosStep} {prog : List PosStep}
    (ha : app.act i = some (app₁, next)) (h : calls.RunsTo app₁ [next] app' prog) :
    calls.RunsTo app [i] app' prog := by
  refine calls.runsTo_cons () app₁ [next] ?_ h
  show (app.act i).map (fun r => (r.1, [r.2])) = _
  rw [ha]
  rfl

/-- The two sections of `record_offline`. -/
theorem runs_record {app' : PosApp} {e : SaleEvent} {next : PosStep} {prog : List PosStep}
    (h : calls.RunsTo (app.recordOffline e) [next] app' prog) :
    calls.RunsTo app [.appendLocal e next] app' prog :=
  runs_act rfl (runs_act rfl h)

theorem act_redeem_error (r : Ringing) (out : RingOutcome) (c : Id PosCustomer) {e : LoyaltyError}
    {loyalty : LoyaltyEngine} (h : app.loyalty.redeem c (min r.loyaltyRedeem out.total) = (.error e, loyalty)) :
    app.act (.redeem r out c) = some ({ app with loyalty }, .returned (.error (.loyalty e))) := by
  simp only [act, h]

theorem act_redeem_ok (r : Ringing) (out : RingOutcome) (c : Id PosCustomer) {b : LoyaltyBalance}
    {loyalty : LoyaltyEngine} (h : app.loyalty.redeem c (min r.loyaltyRedeem out.total) = (.ok b, loyalty)) :
    app.act (.redeem r out c) =
      some ({ app with loyalty }, r.finish app.sync.terminal { out with earnedPoints := b.points }) := by
  simp only [act, h]

/-- What `ring_sale` does once the sale is priced. -/
def settled (r : Ringing) (txn : Transaction) (priced : Priced) : Except PosError RingOutcome × PosApp :=
  match applyTenders priced.total (r.loyaltyRedeem + r.exchangeCredit) priced.subtotal
      (r.tenders.map (·.toTender)) with
  | .error e => (.error e, app)
  | .ok applied =>
    match capture txn with
    | .error e => (.error (.txn e), app)
    | .ok txn =>
      match accrue app.loyalty r.customer priced.subtotal (min r.loyaltyRedeem priced.total) with
      | (.error e, loyalty) => (.error (.loyalty e), { app.recordSale (priced.record txn applied) with loyalty })
      | (.ok earnedPoints, loyalty) =>
        (.ok (priced.out txn applied earnedPoints),
          PosApp.recordOffline { app.recordSale (priced.record txn applied) with loyalty }
            ((priced.out txn applied earnedPoints).event app.sync.terminal))

theorem ringSale_eq (r : Ringing) :
    app.ringSale r.lines r.tenders r.customer r.loyaltyRedeem r.exchangeCredit =
      match addLines { id := app.nextId } r.lines with
      | .error e => (.error (.txn e), app.useId)
      | .ok txn =>
        match checkRedeem (app.useId.feedBalance r.customer).loyalty r.customer r.loyaltyRedeem with
        | .error e => (.error (.loyalty e), app.useId.feedBalance r.customer)
        | .ok () => (app.useId.feedBalance r.customer).settled r txn ((app.useId.feedBalance r.customer).priced txn) :=
  rfl

theorem runs_insertSale (r : Ringing) (txn : Transaction) (priced : Priced) (applied : List Tender) :
    calls.RunsTo app [.insertSale r txn priced applied]
      (match accrue app.loyalty r.customer priced.subtotal (min r.loyaltyRedeem priced.total) with
        | (.error _, loyalty) => { app.recordSale (priced.record txn applied) with loyalty }
        | (.ok earnedPoints, loyalty) =>
          PosApp.recordOffline { app.recordSale (priced.record txn applied) with loyalty }
            ((priced.out txn applied earnedPoints).event app.sync.terminal))
      [.returned
        (match accrue app.loyalty r.customer priced.subtotal (min r.loyaltyRedeem priced.total) with
          | (.error e, _) => .error (.loyalty e)
          | (.ok earnedPoints, _) => .ok (r.outcome (priced.out txn applied earnedPoints)))] := by
  unfold accrue
  cases hc : r.customer with
  | none =>
    have ha : app.act (.insertSale r txn priced applied) = some (app.recordSale (priced.record txn applied),
        r.finish app.sync.terminal (priced.out txn applied 0)) := by
      simp only [act, hc]
    exact runs_act ha (runs_record _ (calls.runsTo_refl _ _))
  | some c =>
    have ha : app.act (.insertSale r txn priced applied) = some (app.recordSale (priced.record txn applied),
        .earn r (priced.out txn applied 0) c) := by
      simp only [act, hc]
    refine runs_act ha ?_
    dsimp only
    by_cases hr : 0 < min r.loyaltyRedeem priced.total
    · rw [if_pos hr]
      refine runs_act (if_pos hr) ?_
      rcases hd : (app.loyalty.earn c priced.subtotal).2.redeem c (min r.loyaltyRedeem priced.total) with
        ⟨e | b, loyalty⟩
      · exact runs_act (act_redeem_error _ r _ c hd) (calls.runsTo_refl _ _)
      · exact runs_act (act_redeem_ok _ r _ c hd) (runs_record _ (calls.runsTo_refl _ _))
    · rw [if_neg hr]
      refine runs_act (if_neg hr) ?_
      exact runs_record _ (calls.runsTo_refl _ _)

theorem runs_settle (r : Ringing) (txn : Transaction) (priced : Priced) :
    calls.RunsTo app [r.settle txn priced] (app.settled r txn priced).2
      [.returned ((app.settled r txn priced).1.map r.outcome)] := by
  unfold Ringing.settle settled
  split
  · exact calls.runsTo_refl _ _
  · split
    · exact calls.runsTo_refl _ _
    · next txn _ =>
      convert app.runs_insertSale r txn priced _ using 1
      · split
        · rfl
        · rfl
      · split
        · rfl
        · rfl

/-- From the first section to pricing. -/
theorem runs_start {app app' : PosApp} {r : Ringing} {txn : Transaction} {prog : List PosStep}
    (ht : addLines { id := app.nextId } r.lines = .ok txn)
    (h : ∀ own, calls.RunsTo (app.useId.feedBalance r.customer) [.price r txn own] app' prog) :
    calls.RunsTo app [.start r] app' prog := by
  cases hc : r.customer with
  | none =>
    rw [hc] at h
    have ha : app.act (.start r) = some (app.useId, .price r txn initialBalance) := by
      simp only [act, ht, hc]
    exact runs_act ha (h initialBalance)
  | some c =>
    rw [hc] at h
    have ha : app.act (.start r) = some (app.useId, .readBalance r txn c) := by
      simp only [act, ht, hc]
    exact runs_act ha (runs_act rfl (runs_act rfl (h _)))

/-- Pricing and the check of the points. -/
theorem runs_price {app app' : PosApp} {r : Ringing} {txn : Transaction} {own : WasmMoney} {prog : List PosStep}
    (h : calls.RunsTo app
      [match checkRedeem app.loyalty r.customer r.loyaltyRedeem with
        | .error e => .returned (.error (.loyalty e))
        | .ok () => r.settle txn (app.priced txn)] app' prog) :
    calls.RunsTo app [.price r txn own] app' prog := by
  unfold checkRedeem at h
  by_cases hr : 0 < r.loyaltyRedeem
  · rw [if_pos hr] at h
    cases hc : r.customer with
    | none =>
      rw [hc] at h
      exact runs_act (by simp only [act, if_pos hr, hc]) h
    | some c =>
      rw [hc] at h
      dsimp only at h
      have ha : app.act (.price r txn own) = some (app, .checkPoints r txn (app.priced txn) c) := by
        simp only [act, if_pos hr, hc]
      refine runs_act ha ?_
      by_cases hp : (app.loyalty.balance c).points < r.loyaltyRedeem
      · rw [if_pos hp] at h
        exact runs_act (if_pos hp) h
      · rw [if_neg hp] at h
        exact runs_act (if_neg hp) h
  · rw [if_neg hr] at h
    exact runs_act (by simp only [act, if_neg hr]) h

/-- A sale alone, also that of an exchange. -/
theorem runs_ring (r : Ringing) :
    calls.RunsTo app [.start r]
      (app.ringSale r.lines r.tenders r.customer r.loyaltyRedeem r.exchangeCredit).2
      [.returned ((app.ringSale r.lines r.tenders r.customer r.loyaltyRedeem r.exchangeCredit).1.map r.outcome)] := by
  rw [ringSale_eq]
  rcases ht : addLines { id := app.nextId } r.lines with e | txn
  · have ha : app.act (.start r) = some (app.useId, .returned (.error (.txn e))) := by
      simp only [act, ht]
    exact runs_act ha (calls.runsTo_refl _ _)
  · refine runs_start ht fun own => runs_price ?_
    dsimp only
    split
    · exact calls.runsTo_refl _ _
    · exact runs_settle _ _ _ _

/-- A return, up to its result or the sale of the exchange. -/
theorem runs_lookup (id : Id PosTxn) (returns : List ReturnLine) (sale : Option Ringing) :
    calls.RunsTo app [.lookup id returns sale] (app.refundFor id returns).2
      [match (app.refundFor id returns).1 with
        | .error e => .returned (.error e)
        | .ok split =>
          match sale with
          | none => .returned (.ok (.refund split))
          | some r => .start (r.credited split.refundAmount)] := by
  unfold refundFor
  rcases hl : app.sales.lookup id with _ | record
  · have ha : app.act (.lookup id returns sale) = some (app, .returned (.error (.noSuchSale id))) := by
      simp only [act, hl]
    exact runs_act ha (calls.runsTo_refl _ _)
  · dsimp only
    by_cases hs : record.status ≠ .captured
    · rw [if_pos hs]
      have ha : app.act (.lookup id returns sale) =
          some (app, .returned (.error (.ret (.notReturnable record.status)))) := by
        simp only [act, hl, if_pos hs]
      exact runs_act ha (calls.runsTo_refl _ _)
    · rw [if_neg hs, returnTransitions_ok]
      dsimp only
      rcases hm : returnedMerchandise record returns with e | returned
      · have ha : app.act (.lookup id returns sale) = some (app.useId, .returned (.error (.ret e))) := by
          simp only [act, hl, if_neg hs, returnTransitions_ok, hm]
        exact runs_act ha (calls.runsTo_refl _ _)
      · dsimp only
        rcases hf : computeRefund record returned with e | split
        · have ha : app.act (.lookup id returns sale) = some (app.useId, .returned (.error (.ret e))) := by
            simp only [act, hl, if_neg hs, returnTransitions_ok, hm, hf]
          exact runs_act ha (calls.runsTo_refl _ _)
        · have ha := fun next (hn : next = (match sale with
              | none => .returned (.ok (.refund split))
              | some r => .start (r.credited split.refundAmount) : PosStep)) =>
            show app.act (.lookup id returns sale) = some (app.useId.useId, .appendLocal
                { txnId := .ret app.useId.nextId, terminal := app.sync.terminal, kind := .ret
                  total := split.refundAmount, tenders := split.tenders.map fun t : Tender => (t.kind, t.amount) }
                next) by
              simp only [act, hl, if_neg hs, returnTransitions_ok, hm, hf, hn]
          exact runs_act (ha _ rfl) (runs_record _ (calls.runsTo_refl _ _))

/-- What the call returns. -/
def result : Call → Except PosError Outcome
  | .sale lines tenders => (app.sale lines tenders).1.map .ring
  | .saleFor customer redeem lines tenders => (app.saleFor customer redeem lines tenders).1.map .ring
  | .returnSale id returns => (app.returnSale id returns).1.map .refund
  | .exchange id returns newLines newTenders customer =>
    (app.exchange id returns newLines newTenders customer).1.map .exchange
  | .swapModule _ => .ok .swapped

/-- **Alone, a call does what the register's function does.** -/
theorem runs_call (c : Call) : calls.RunsTo app (Call.prog c) (app.next c) [.returned (app.result c)] := by
  cases c with
  | sale lines tenders => exact app.runs_ring { lines, tenders, customer := none }
  | saleFor customer redeem lines tenders =>
    exact app.runs_ring { lines, tenders, customer := some customer, loyaltyRedeem := redeem }
  | returnSale id returns =>
    have h := app.runs_lookup id returns none
    show calls.RunsTo app _ (app.refundFor id returns).2 [.returned ((app.refundFor id returns).1.map .refund)]
    rcases hr : (app.refundFor id returns).1 with e | split
    · rw [hr] at h
      exact h
    · rw [hr] at h
      exact h
  | exchange id returns newLines newTenders customer =>
    have h := app.runs_lookup id returns (some { lines := newLines, tenders := newTenders, customer })
    show calls.RunsTo app _ (app.exchange id returns newLines newTenders customer).2
      [.returned ((app.exchange id returns newLines newTenders customer).1.map .exchange)]
    unfold exchange
    rcases hr : app.refundFor id returns with ⟨e | split, mid⟩
    · rw [hr] at h
      exact h
    · rw [hr] at h
      have hs := mid.runs_ring
        (({ lines := newLines, tenders := newTenders, customer } : Ringing).credited split.refundAmount)
      refine calls.runsTo_trans h ?_
      dsimp only
      rcases hx : mid.ringSale newLines newTenders customer 0 split.refundAmount with ⟨e | sale, last⟩
      · dsimp only [Ringing.credited] at hs
        rw [hx] at hs
        exact hs
      · dsimp only [Ringing.credited] at hs
        rw [hx] at hs
        exact hs
  | swapModule plugin => exact runs_act rfl (calls.runsTo_refl _ _)

end PosApp

end TptErp.Pos
