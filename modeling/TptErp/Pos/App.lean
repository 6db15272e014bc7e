import TptErp.Lib.AssocMap
import TptErp.Pos.Returns
import TptErp.Pos.Sync

/-!
# The register

`ring_sale` prices the lines, applies the credits, splits what remains over the tenders, captures
the transaction and records it; `return_sale` and `exchange` look a recorded sale up again.

A call returns its result and the register it leaves, on the error paths too.  A new id is one above
the last one used.  The pricing plugin is any function of the balance it reads, the account and the
amount; it may be swapped.  Appending to the local log does not fail, its events being typed.
-/

namespace TptErp.Pos

/-! ## Loyalty -/

structure LoyaltyBalance where
  points : ℚ := 0
  credit : Money Usd := 0

structure LoyaltyEngine where
  balances : AssocMap (Id PosCustomer) LoyaltyBalance := ∅
  earnRate : ℚ := 1

inductive LoyaltyError
  | insufficient (have_ : ℚ) (want : Money Usd)

namespace LoyaltyEngine

variable (e : LoyaltyEngine) (customer : Id PosCustomer)

def balance : LoyaltyBalance := AssocMap.getD e.balances customer {}

/-- Points for a sale, rounded to four digits. -/
def earn (subtotal : Money Usd) : LoyaltyBalance × LoyaltyEngine :=
  let b := e.balance customer
  let b := { b with points := b.points + roundDp 4 (subtotal * e.earnRate) }
  (b, { e with balances := e.balances.insert customer b })

def redeem (amount : Money Usd) : Except LoyaltyError LoyaltyBalance × LoyaltyEngine :=
  let b := e.balance customer
  if b.points < amount then (.error (.insufficient b.points amount), e)
  else
    let b : LoyaltyBalance := { points := b.points - amount, credit := b.credit + amount }
    (.ok b, { e with balances := e.balances.insert customer b })

end LoyaltyEngine

/-! ## Pricing -/

/-- The plugin's money: major units and ten-thousandths. -/
structure WasmMoney where
  major : Int
  minor : Int

def pointsToWasmMoney (points : ℚ) : WasmMoney :=
  { major := (toI64 (trunc points)).getD 0
    minor := (toI64 (trunc ((points - trunc points) * 10000))).getD 0 }

/-- The amount a plugin answers; none when its run fails or gives no amount. -/
abbrev PricingPlugin := WasmMoney → String → Int → Option I64

structure PosPricingEngine where
  storeBalance : WasmMoney := { major := 0, minor := 0 }
  handle : Option PricingPlugin := none

namespace PosPricingEngine

variable (e : PosPricingEngine)

def setBalance (balance : WasmMoney) : PosPricingEngine := { e with storeBalance := balance }

/-- Only an engine with a plugin can swap it. -/
def swapModule (plugin : PricingPlugin) : PosPricingEngine :=
  if e.handle.isSome then { e with handle := some plugin } else e

def discount (account : String) (amountCents : Int) : Option I64 :=
  e.handle.bind fun run => run e.storeBalance account amountCents

/-- The subtotal in cents after the discount, and whether there is one. -/
def discounted (subtotal : Money Usd) : Int × Bool :=
  let subtotalCents := (toI64 (subtotal * 100)).getD 0
  match e.discount "store-1" subtotalCents with
  | some c => if c.1 < subtotalCents then (c.1, true) else (subtotalCents, false)
  | none => (subtotalCents, false)

end PosPricingEngine

/-! ## Sales -/

/-- A line of a request, in major units. -/
structure SaleLine where
  item : Id PosItem
  name : String
  qty : U32
  unitPrice : I64
  tax : I64

structure SaleTender where
  kind : TenderKind
  amount : I64

structure RingOutcome where
  txnId : Id PosTxn
  subtotal : Money Usd
  tax : Money Usd
  discount : Money Usd
  total : Money Usd
  status : TxnStatus
  appliedTenders : List Tender
  pricingApplied : Bool
  earnedPoints : ℚ

structure ExchangeOutcome where
  refund : Money Usd
  sale : RingOutcome

inductive PosError
  | underfunded (covered total : Money Usd)
  | txn (e : TxnError)
  | noSuchSale (id : Id PosTxn)
  | ret (e : ReturnError)
  | loyalty (e : LoyaltyError)

structure PosApp where
  pricing : PosPricingEngine := {}
  sync : PosSync
  sales : AssocMap (Id PosTxn) SaleRecord := ∅
  loyalty : LoyaltyEngine := {}
  lastId : Nat := 0

def SaleLine.toItem (l : SaleLine) : LineItem :=
  { item := l.item, name := l.name, qty := l.qty.1, unitPrice := (l.unitPrice.1 : ℚ), tax := (l.tax.1 : ℚ) }

def SaleTender.toTender (t : SaleTender) : Tender := { kind := t.kind, amount := (t.amount.1 : ℚ) }

def addLines (txn : Transaction) : List SaleLine → Except TxnError Transaction
  | [] => .ok txn
  | l :: ls =>
    match txn.addLine l.toItem with
    | .error e => .error e
    | .ok txn => addLines txn ls

/-- From the cart to a settled sale. -/
def capture (txn : Transaction) : Except TxnError Transaction := do
  let txn ← txn.advance .tendering
  let txn ← txn.advance .authorized
  txn.advance .captured

/-- The points must cover what is to be redeemed. -/
def checkRedeem (loyalty : LoyaltyEngine) (customer : Option (Id PosCustomer)) (redeem : Money Usd) :
    Except LoyaltyError Unit :=
  if 0 < redeem then
    match customer with
    | none => .error (.insufficient 0 redeem)
    | some c =>
      if (loyalty.balance c).points < redeem then .error (.insufficient (loyalty.balance c).points redeem)
      else .ok ()
  else .ok ()

/-- The credit first, up to the total; the tenders share what remains. -/
def applyTenders (total credit subtotal : Money Usd) (offered : List Tender) : Except PosError (List Tender) :=
  let appliedCredit := min credit total
  let remaining := total - appliedCredit
  let applied : Except PosError (List (Money Usd)) :=
    if 0 < remaining then
      match splitTotal remaining offered with
      | .ok applied => .ok applied
      | .error (.underfunded covered total) => .error (.underfunded covered total)
      | .error .emptyTenders => .error (.underfunded 0 subtotal)
    else .ok (List.replicate offered.length 0)
  match applied with
  | .error e => .error e
  | .ok applied =>
    let rest := (offered.zip applied).map fun p => { kind := p.1.kind, amount := p.2 }
    .ok (if 0 < appliedCredit then { kind := .storeCredit, amount := appliedCredit } :: rest else rest)

/-- Points for the sale, less the redeemed ones. -/
def accrue (loyalty : LoyaltyEngine) (customer : Option (Id PosCustomer)) (subtotal redeemed : Money Usd) :
    Except LoyaltyError ℚ × LoyaltyEngine :=
  match customer with
  | none => (.ok 0, loyalty)
  | some c =>
    let (b, loyalty) := loyalty.earn c subtotal
    if 0 < redeemed then
      match loyalty.redeem c redeemed with
      | (.error e, loyalty) => (.error e, loyalty)
      | (.ok b, loyalty) => (.ok b.points, loyalty)
    else (.ok b.points, loyalty)

namespace PosApp

variable (app : PosApp)

def new (terminal : Id PosTerminal) : PosApp := { sync := { terminal } }

/-- Load the pricing plugin, at a balance of zero. -/
def withPricing (plugin : PricingPlugin) : PosApp := { app with pricing := { handle := some plugin } }

def nextId : Id PosTxn := ⟨app.lastId + 1⟩

def useId : PosApp := { app with lastId := app.lastId + 1 }

/-- The host reads the customer's points. -/
def feedBalance (customer : Option (Id PosCustomer)) : PosApp :=
  match customer with
  | none => app
  | some c =>
    { app with pricing := app.pricing.setBalance (pointsToWasmMoney (app.loyalty.balance c).points) }

def recordSale (record : SaleRecord) : PosApp := { app with sales := app.sales.insert record.id record }

def recordOffline (e : SaleEvent) : PosApp := { app with sync := app.sync.recordOffline e }

def ringSale (lines : List SaleLine) (tenders : List SaleTender) (customer : Option (Id PosCustomer))
    (loyaltyRedeem exchangeCredit : Money Usd) : Except PosError RingOutcome × PosApp :=
  let id := app.nextId
  let app := app.useId
  match addLines { id } lines with
  | .error e => (.error (.txn e), app)
  | .ok txn =>
    let subtotal := txn.subtotal
    let tax := txn.taxTotal
    let app := app.feedBalance customer
    let priced := app.pricing.discounted subtotal
    let discountedSubtotal : Money Usd := (priced.1 : ℚ) / 100
    let discount := subtotal - discountedSubtotal
    let total := discountedSubtotal + tax
    match checkRedeem app.loyalty customer loyaltyRedeem with
    | .error e => (.error (.loyalty e), app)
    | .ok () =>
      match applyTenders total (loyaltyRedeem + exchangeCredit) subtotal (tenders.map (·.toTender)) with
      | .error e => (.error e, app)
      | .ok appliedTenders =>
        match capture txn with
        | .error e => (.error (.txn e), app)
        | .ok txn =>
          let app := app.recordSale
            { id := txn.id, status := txn.status, subtotal, discount, tax, total
              tenders := appliedTenders, lines := txn.lines }
          match accrue app.loyalty customer subtotal (min loyaltyRedeem total) with
          | (.error e, loyalty) => (.error (.loyalty e), { app with loyalty })
          | (.ok earnedPoints, loyalty) =>
            (.ok { txnId := txn.id, subtotal, tax, discount, total, status := txn.status
                   appliedTenders, pricingApplied := priced.2, earnedPoints },
              { app with loyalty }.recordOffline
                { txnId := .txn txn.id, terminal := app.sync.terminal, kind := .sale, total
                  tenders := appliedTenders.map fun t : Tender => (t.kind, t.amount) })

def sale (lines : List SaleLine) (tenders : List SaleTender) : Except PosError RingOutcome × PosApp :=
  app.ringSale lines tenders none 0 0

def saleFor (customer : Id PosCustomer) (redeem : Money Usd) (lines : List SaleLine)
    (tenders : List SaleTender) : Except PosError RingOutcome × PosApp :=
  app.ringSale lines tenders (some customer) redeem 0

/-- A new transaction is taken through the legal transitions of a return. -/
def returnTransitions (id : Id PosTxn) : Except TxnError Transaction := do
  let t ← capture { id }
  t.advance .returned

/-- What the sale, the transitions and the lines of a return come to.  Nothing is written to the
record. -/
def refundFor (txnId : Id PosTxn) (returns : List ReturnLine) : Except PosError RefundSplit × PosApp :=
  match app.sales.lookup txnId with
  | none => (.error (.noSuchSale txnId), app)
  | some record =>
    if record.status ≠ .captured then (.error (.ret (.notReturnable record.status)), app)
    else
      let id := app.nextId
      let app := app.useId
      match returnTransitions id with
      | .error e => (.error (.txn e), app)
      | .ok _ =>
        match returnedMerchandise record returns with
        | .error e => (.error (.ret e), app)
        | .ok returned =>
          match computeRefund record returned with
          | .error e => (.error (.ret e), app)
          | .ok split =>
            let ret := app.nextId
            let app := app.useId
            (.ok split, app.recordOffline
              { txnId := .ret ret, terminal := app.sync.terminal, kind := .ret, total := split.refundAmount
                tenders := split.tenders.map fun t : Tender => (t.kind, t.amount) })

def returnSale (txnId : Id PosTxn) (returns : List ReturnLine) : Except PosError RefundSplit × PosApp :=
  app.refundFor txnId returns

/-- A return whose value is a credit on a new sale. -/
def exchange (originalTxnId : Id PosTxn) (returns : List ReturnLine) (newLines : List SaleLine)
    (newTenders : List SaleTender) (customer : Option (Id PosCustomer)) :
    Except PosError ExchangeOutcome × PosApp :=
  match app.refundFor originalTxnId returns with
  | (.error e, app) => (.error e, app)
  | (.ok refund, app) =>
    match app.ringSale newLines newTenders customer 0 refund.refundAmount with
    | (.error e, app) => (.error e, app)
    | (.ok sale, app) => (.ok { refund := refund.refundAmount, sale }, app)

end PosApp

end TptErp.Pos
