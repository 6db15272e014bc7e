import TptErp.Gl.Journal
import TptErp.Oms.Calls

/-!
# The order saga

`run` takes an order through `Reserve -> Pay -> Fulfill -> Ship` and compensates what it did when a
step fails; `fulfill_backorders` finishes an order whose lines were backordered.  Both are made of the
reservation engine's calls, each run to its end, and of postings to the journal.

Before each of its steps others can release holds, and time can pass: a `Gap` for each step, in the
order of the steps.  A posting that never returns (two of its accounts on one shard) leaves the saga
waiting, which is the result `none`.  Events on the bus are left out.
-/

namespace TptErp.Oms

open Ledger Gl

variable {SHARDS GLS : Nat}

/-! ## Engine calls that run alone -/

namespace Core

variable (c : Core SHARDS)

def dropIndexes (hold : HoldId) : Core SHARDS :=
  c.withEngine ((c.engine.indexRemove hold).cacheInvalidate hold)

def confirm (sku : SkuId) (hold : HoldId) : Except ReservationError (Core SHARDS) :=
  match c.engine.confirm sku hold with
  | .ok engine => .ok ((c.withEngine engine).dropIndexes hold)
  | .error e => .error e

def release (sku : SkuId) (hold : HoldId) : Except ReservationError (Core SHARDS) :=
  match c.engine.release sku hold with
  | .ok engine => .ok ((c.withEngine engine).dropIndexes hold)
  | .error e => .error e

/-- `let _ = release(..)`. -/
def tryRelease (sku : SkuId) (hold : HoldId) : Core SHARDS :=
  match c.release sku hold with
  | .ok c' => c'
  | .error _ => c

/-- Collect the candidates of all shards, then release those that are found expired. -/
def sweepExpired : Core SHARDS :=
  ((List.finRange SHARDS).flatMap c.engine.candidates).foldl
    (fun c p =>
      if c.engine.isExpired c.now p.2 then
        match c.release p.1 p.2 with
        | .ok c => c.withEngine c.engine.countReleased
        | .error _ => c
      else c)
    c

/-- Hold `qty` units under a new id, unless there is nothing to hold. -/
def holdUnits (sku : SkuId) (qty : Nat) (expires : Int) : Core SHARDS :=
  if 0 < qty then c.withNewId (c.engine.insertHold sku c.newId qty expires) else c

/-- Put what falls short of `qty` on backorder. -/
def backorderUnits (sku : SkuId) (reserved qty : Nat) : Core SHARDS :=
  if reserved < qty then c.withNewId (c.engine.placeBackorder sku c.newId (qty - reserved)) else c

/-- Enter a hold into the expiry index and the cache, when there is one. -/
def indexUnits (hold : HoldId) (qty : Nat) (expires : Int) (ttl : Nat) : Core SHARDS :=
  if 0 < qty then c.withEngine ((c.engine.indexInsert hold expires).cachePut hold (c.now + ttl)) else c

/-- What was reserved, what was put on backorder, and the core it leaves. -/
def reserveOrBackorder (sku : SkuId) (qty : U32) (ttl : Nat) :
    (Option (HoldId × U32) × Option (HoldId × U32)) × Core SHARDS :=
  let swept := c.sweepExpired
  let expires := swept.now + chronoTtl ttl
  let reservedQty : U32 := ⟨swept.engine.reservable sku qty.1, lt_of_le_of_lt (Nat.min_le_right _ _) qty.2⟩
  let boQty : U32 := ⟨qty.1 - reservedQty.1, lt_of_le_of_lt (Nat.sub_le _ _) qty.2⟩
  let touched := swept.withEngine (swept.engine.touch sku)
  let held := touched.holdUnits sku reservedQty.1 expires
  let placed := held.backorderUnits sku reservedQty.1 qty.1
  ((if 0 < reservedQty.1 then some (touched.newId, reservedQty) else none,
      if reservedQty.1 < qty.1 then some (held.newId, boQty) else none),
    placed.indexUnits touched.newId reservedQty.1 expires ttl)

end Core

/-- The orders in which hash maps are iterated: of a shard's SKUs, and of a SKU's backorders. -/
structure HashOrder (SHARDS : Nat) where
  skus : Core SHARDS → Fin SHARDS → List SkuId
  skus_perm : ∀ c i, (skus c i).Perm (skusOf c.engine i)
  backorders : Core SHARDS → SkuId → List HoldId
  backorders_perm : ∀ c sku, (backorders c sku).Perm (c.stateOf sku).backorders.keys

namespace Core

/-- The first backorder that the pool covers. -/
def pick (order : HashOrder SHARDS) (c : Core SHARDS) (sku : SkuId) : Option HoldId :=
  (order.backorders c sku).find? fun bo =>
    ((c.stateOf sku).backorders.lookup bo).any fun qty => (qty : Int) ≤ (c.stateOf sku).available

/-- A backorder becomes a hold. -/
def fill (c : Core SHARDS) (sku : SkuId) (bo : HoldId) (qty : Nat) : Core SHARDS :=
  c.withNewId (c.engine.fill sku bo c.newId qty (c.now + hundredYears))

/-- The loop of `fulfill_backorders_for`; every round takes a backorder out, so as many rounds as
there are backorders are enough. -/
def fillLoop (order : HashOrder SHARDS) (sku : SkuId) : Nat → Core SHARDS → List (HoldId × Nat) × Core SHARDS
  | 0, c => ([], c)
  | fuel + 1, c =>
    match c.pick order sku with
    | none => ([], c)
    | some bo =>
      let qty := AssocMap.getD (c.stateOf sku).backorders bo 0
      let r := fillLoop order sku fuel (c.fill sku bo qty)
      ((c.newId, qty) :: r.1, r.2)

def fulfillBackordersFor (order : HashOrder SHARDS) (sku : SkuId) (c : Core SHARDS) :
    List (HoldId × Nat) × Core SHARDS :=
  fillLoop order sku (c.stateOf sku).backorders.entries.length c

/-- The new holds of a list of SKUs. -/
def fulfillSkus (order : HashOrder SHARDS) :
    List SkuId → Core SHARDS → List (SkuId × HoldId × Nat) × Core SHARDS
  | [], c => ([], c)
  | sku :: skus, c =>
    let r := c.fulfillBackordersFor order sku
    let rest := fulfillSkus order skus r.2
    (r.1.map (fun p => (sku, p.1, p.2)) ++ rest.1, rest.2)

/-- The new holds of a list of shards. -/
def fulfillShards (order : HashOrder SHARDS) :
    List (Fin SHARDS) → Core SHARDS → List (SkuId × HoldId × Nat) × Core SHARDS
  | [], c => ([], c)
  | i :: shards, c =>
    let r := fulfillSkus order (order.skus c i) c
    let rest := fulfillShards order shards r.2
    (r.1 ++ rest.1, rest.2)

def fulfillBackorders (order : HashOrder SHARDS) (c : Core SHARDS) :
    List (SkuId × HoldId × Nat) × Core SHARDS :=
  fulfillShards order (List.finRange SHARDS) c

end Core

/-! ## The saga -/

structure SagaLine where
  sku : SkuId
  qty : U32
  unitPrice : Money Usd

inductive SagaStage
  | reserved
  | paid
  | fulfilled

/-- The statuses of an order that a saga ends in. -/
inductive OrderStatus
  | shipped
  | backordered
deriving DecidableEq

structure SagaOutcome where
  status : OrderStatus
  transactionId : Option TransactionId
  total : Money Usd
  backorders : List SagaLine

inductive SagaError
  | reserve (e : ReservationError)
  | pay (e : JournalError Usd)
  | fulfill (e : ReservationError)

structure OrderSaga where
  coa : DemoAccounts
  holdTtl : Nat
  period : String

/-- What happens before a step of the saga: others release holds, and time passes. -/
structure Gap where
  released : List (SkuId × HoldId) := []
  elapsed : Nat := 0

/-- The reservation engine, the journal, and what is still to happen between the saga's steps. -/
structure World (SHARDS GLS : Nat) where
  core : Core SHARDS
  journal : JournalEngine Usd GLS
  nextTx : Nat := 0
  gaps : List Gap := []

namespace World

variable (w : World SHARDS GLS)

def stateOf (sku : SkuId) : SkuState := w.core.stateOf sku

def withCore (core : Core SHARDS) : World SHARDS GLS := { w with core }

/-- The next gap. -/
def wait : World SHARDS GLS :=
  match w.gaps with
  | [] => w
  | gap :: gaps =>
    { w with
      core := (gap.released.foldl (fun c p => c.tryRelease p.1 p.2) w.core).tick gap.elapsed
      gaps }

/-- A posting under a new transaction id. -/
def post (entries : List (LedgerEntry Usd)) (period memo : String) :
    Option (Except (JournalError Usd) TransactionId × World SHARDS GLS) :=
  (w.journal.postTransaction ⟨w.nextTx⟩ entries period memo).map fun r =>
    (r.1, { w with journal := r.2, nextTx := w.nextTx + 1 })

/-- Release the holds one after the other, whatever each release answers. -/
def releaseAll : List (SkuId × HoldId) → World SHARDS GLS → World SHARDS GLS
  | [], w => w
  | (sku, hold) :: holds, w =>
    let w := w.wait
    releaseAll holds (w.withCore (w.core.tryRelease sku hold))

/-- Confirm the holds one after the other, up to the first that is gone. -/
def confirmAll : List (SkuId × HoldId) → World SHARDS GLS → Except ReservationError Unit × World SHARDS GLS
  | [], w => (.ok (), w)
  | (sku, hold) :: holds, w =>
    let w := w.wait
    match w.core.confirm sku hold with
    | .error e => (.error e, w)
    | .ok core => confirmAll holds (w.withCore core)

end World

/-- What the first step has come to. -/
structure Reserving where
  holds : List (SkuId × HoldId) := []
  backorders : List SagaLine := []
  total : Money Usd := 0

namespace Reserving

def addHold (r : Reserving) (line : SagaLine) : Option (HoldId × U32) → Reserving
  | some (hold, qty) =>
    { r with holds := r.holds ++ [(line.sku, hold)], total := r.total + line.unitPrice * (qty.1 : ℚ) }
  | none => r

def addBackorder (r : Reserving) (line : SagaLine) : Option (HoldId × U32) → Reserving
  | some (_, qty) => { r with backorders := r.backorders ++ [{ line with qty }] }
  | none => r

end Reserving

namespace OrderSaga

variable (saga : OrderSaga)

def saleEntries (total : Money Usd) : List (LedgerEntry Usd) :=
  [{ account := saga.coa.accountsReceivable, side := .debit, amount := total },
    { account := saga.coa.salesRevenue, side := .credit, amount := total }]

def refundEntries (total : Money Usd) : List (LedgerEntry Usd) :=
  [{ account := saga.coa.accountsReceivable, side := .credit, amount := total },
    { account := saga.coa.salesRevenue, side := .debit, amount := total }]

def postSale (total : Money Usd) (w : World SHARDS GLS) :
    Option (Except (JournalError Usd) TransactionId × World SHARDS GLS) :=
  w.post (saga.saleEntries total) saga.period "oms sale"

/-- Best effort: what the posting answers is ignored. -/
def refund (total : Money Usd) (w : World SHARDS GLS) : Option (World SHARDS GLS) :=
  (w.post (saga.refundEntries total) saga.period "oms refund").map (·.2)

def compensate (stage : SagaStage) (holds : List (SkuId × HoldId)) (txId : Option TransactionId)
    (total : Money Usd) (w : World SHARDS GLS) : Option (World SHARDS GLS) :=
  match stage with
  | .paid | .fulfilled =>
    let refunded := if txId.isSome then saga.refund total w.wait else some w
    refunded.map (World.releaseAll holds)
  | .reserved => some (World.releaseAll holds w)

/-- One line of the first step. -/
def reserveLine (line : SagaLine) (r : Reserving) (w : World SHARDS GLS) : Reserving × World SHARDS GLS :=
  let w := w.wait
  let res := w.core.reserveOrBackorder line.sku line.qty saga.holdTtl
  ((r.addHold line res.1.1).addBackorder line res.1.2, w.withCore res.2)

def reserveLines : List SagaLine → Reserving → World SHARDS GLS → Reserving × World SHARDS GLS
  | [], r, w => (r, w)
  | line :: lines, r, w =>
    let next := saga.reserveLine line r w
    reserveLines lines next.1 next.2

/-- What the saga returns, with the world it leaves; none when it never returns. -/
abbrev Run (SHARDS GLS : Nat) := Option (Except SagaError SagaOutcome × World SHARDS GLS)

def run (lines : List SagaLine) (w : World SHARDS GLS) : Run SHARDS GLS :=
  if lines = [] then some (.error (.reserve (.insufficientStock ⟨w.core.nextId⟩ 0 1)), w)
  else
    let (r, w) := saga.reserveLines lines {} w
    if r.holds = [] then
      some (.ok { status := .backordered, transactionId := none, total := 0, backorders := r.backorders }, w)
    else
      match saga.postSale r.total w.wait with
      | none => none
      | some (.error e, w) => (saga.compensate .reserved r.holds none r.total w).map fun w => (.error (.pay e), w)
      | some (.ok id, w) =>
        match World.confirmAll r.holds w with
        | (.error e, w) =>
          (saga.compensate .paid r.holds (some id) r.total w).map fun w => (.error (.fulfill e), w)
        | (.ok (), w) =>
          some (.ok { status := if r.backorders = [] then .shipped else .backordered
                      transactionId := some id, total := r.total, backorders := r.backorders }, w)

/-- The price of a SKU: that of the last line that has it, 0 when none does. -/
def priceFor (backorders : List SagaLine) (sku : SkuId) : Money Usd :=
  ((backorders.reverse.find? fun l => l.sku = sku).map (·.unitPrice)).getD 0

def fulfillBackorders (order : HashOrder SHARDS) (backorders : List SagaLine) (w : World SHARDS GLS) :
    Run SHARDS GLS :=
  if backorders = [] then some (.error (.reserve (.insufficientStock ⟨w.core.nextId⟩ 0 0)), w)
  else
    let (filled, core) := w.core.fulfillBackorders order
    let w := w.withCore core
    if filled = [] then some (.error (.reserve (.insufficientStock ⟨w.core.nextId⟩ 0 1)), w)
    else
      let holds := filled.map fun f => (f.1, f.2.1)
      let total : Money Usd := filled.foldl (fun total f => total + priceFor backorders f.1 * (f.2.2 : ℚ)) 0
      match saga.postSale total w.wait with
      | none => none
      | some (.error e, w) => some (.error (.pay e), World.releaseAll holds w)
      | some (.ok id, w) =>
        match World.confirmAll holds w with
        | (.error e, w) =>
          (saga.compensate .paid holds (some id) total w).map fun w => (.error (.fulfill e), w)
        | (.ok (), w) =>
          some (.ok { status := .shipped, transactionId := some id, total, backorders := [] }, w)

end OrderSaga

end TptErp.Oms
