import TptErp.Bus.InMemory
import TptErp.Oms.Reservation
import TptErp.Wms.StockLog
import TptErp.Gl.Books

/-!
# The cross-vertical flow

`run_flow_on` places an order, subscribes a WMS, a TMS and a GL handler to the subjects of a bus that it may share
with other flows, publishes the order, and waits for the report:

    oms.order.created  → WMS picks         → wms.pick.done
    wms.pick.done      → TMS plans a route → tms.dispatch.done
    tms.dispatch.done  → GL posts the cost → gl.posted, and the report

Each handler takes the first message of its subscription that is of the kind it handles.  Every flow has engines of
its own.  A step is one operation on the bus, or one handling of a message.

Payloads are typed: their JSON is not modelled, nor is the distance of a route.
-/

namespace TptErp.Flow

open Bus Ledger

/-- The verticals of a flow: `oms` is the task of `run_flow_on` itself, the others are the handlers. -/
inductive Vertical
  | oms
  | wms
  | tms
  | gl
deriving DecidableEq

structure OrderCreated where
  orderId : Id Oms.Sku
  sku : Id Wms.Sku
  bin : Id Wms.Bin
  qty : U32

structure PickDone where
  sku : Id Wms.Sku
  bin : Id Wms.Bin
  qty : U32

structure DispatchDone where
  qty : U32
  stops : Nat

structure GlPosted where
  tx : TransactionId

inductive Event
  | orderCreated (e : OrderCreated)
  | pickDone (e : PickDone)
  | dispatchDone (e : DispatchDone)
  | glPosted (e : GlPosted)

def SUBJECT_ORDER_CREATED : String := "oms.order.created"
def SUBJECT_PICK_DONE : String := "wms.pick.done"
def SUBJECT_DISPATCH_DONE : String := "tms.dispatch.done"
def SUBJECT_GL_POSTED : String := "gl.posted"

/-- The subject that an event is published on. -/
def Event.subject : Event → String
  | .orderCreated _ => SUBJECT_ORDER_CREATED
  | .pickDone _ => SUBJECT_PICK_DONE
  | .dispatchDone _ => SUBJECT_DISPATCH_DONE
  | .glPosted _ => SUBJECT_GL_POSTED

/-- The subject that a handler subscribes to. -/
def Vertical.listensTo : Vertical → Option String
  | .oms => none
  | .wms => some SUBJECT_ORDER_CREATED
  | .tms => some SUBJECT_PICK_DONE
  | .gl => some SUBJECT_DISPATCH_DONE

/-- An event with the number of the flow whose order it is about, which no handler looks at. -/
structure Envelope where
  order : Nat
  event : Event

structure FlowReport where
  picked : U32
  routeStops : Nat
  postedTx : TransactionId
  postedAmount : Money Usd
deriving DecidableEq

/-- What `run_flow_on` is called with, and the ids that it makes. -/
structure Order where
  qty : U32
  unitCost : Money Usd
  omsSku : Oms.SkuId
  hold : Oms.HoldId
  /-- The end of the hold's 600 seconds. -/
  expires : Int
  orderId : Id Oms.Sku
  sku : Id Wms.Sku
  bin : Id Wms.Bin
  coa : Gl.ChartOfAccounts
  cogs : AccountId
  inventory : AccountId
  tx : TransactionId

/-- The hashes of ids, modulo the number of shards. -/
structure Hashes where
  oms : Oms.SkuId → Fin 64
  wms : Wms.StockKey → Fin 64
  gl : AccountId → Fin 64

/-- A task of a flow: `leaving` has its `publish` behind it, with the report it still has to hand over. -/
inductive Task
  | unborn
  | subscribing (todo : List Vertical)
  | waiting
  | ready (msg : Envelope) (report : Option FlowReport)
  | publishing (p : Publication Envelope) (report : Option FlowReport)
  | leaving (report : Option FlowReport)
  | gone

/-- One `run_flow_on`: its engines, the channels and tasks of its verticals, the completion channel, and what it
has returned (`none` is the error). -/
structure RunFlow where
  order : Order
  wms : Wms.InventoryEngine 64
  gl : Gl.JournalEngine Usd 64
  channels : Vertical → Option Nat := fun _ => none
  tasks : Vertical → Task
  done : Option FlowReport := none
  returned : Option (Option FlowReport) := none

/-! ## The verticals -/

/-- Receive, reserve and confirm; the sweep of `reserve` finds no holds. -/
def placeOrder (hash : Hashes) (o : Order) : Except Oms.ReservationError (Oms.ReservationEngine 64) :=
  let oms := (Oms.ReservationEngine.new hash.oms false).receive o.omsSku o.qty.1
  match oms.reserve o.omsSku o.hold o.qty.1 o.expires with
  | .error e => .error e
  | .ok oms => oms.confirm o.omsSku o.hold

/-- 2026-01-01. -/
def asOf : Int := 20454

/-- The handler of WMS does not look at the results. -/
def receiveAndPick (wms : Wms.InventoryEngine 64) (key : Wms.StockKey) (qty : U32) : Wms.InventoryEngine 64 :=
  let wms := (wms.receiveLot key ⟨"LOT-FLOW"⟩ qty none []).2
  (wms.pick key qty asOf).2

def cogsEntries (o : Order) (total : Money Usd) : List (LedgerEntry Usd) :=
  [⟨o.cogs, .debit, total⟩, ⟨o.inventory, .credit, total⟩]

/-- The cost of units at a flow's unit cost. -/
def Order.total (o : Order) (qty : U32) : Money Usd := o.unitCost * (qty.1 : ℚ)

def Order.key (o : Order) : Wms.StockKey := ⟨o.bin, o.sku⟩

/-- What a handler does with a message. -/
inductive Outcome
  | skips
  | panics (fl : RunFlow)
  | publishes (fl : RunFlow) (event : Event) (report : Option FlowReport)

/-- The body of a handler's loop; `none` when the posting never returns. -/
def RunFlow.handle (fl : RunFlow) : Vertical → Event → Option Outcome
  | .wms, .orderCreated oc =>
    some (.publishes { fl with wms := receiveAndPick fl.wms ⟨oc.bin, oc.sku⟩ oc.qty }
      (.pickDone { sku := oc.sku, bin := oc.bin, qty := oc.qty }) none)
  -- the depot and three drops
  | .tms, .pickDone pd => some (.publishes fl (.dispatchDone { qty := pd.qty, stops := 4 }) none)
  | .gl, .dispatchDone dd =>
    let total := fl.order.total dd.qty
    match fl.gl.postTransaction fl.order.tx (cogsEntries fl.order total) "2026-01" "flow: COGS on dispatch" with
    | none => none
    -- `expect("balanced post")`
    | some (.error _, gl) => some (.panics { fl with gl })
    | some (.ok tx, gl) =>
      some (.publishes { fl with gl } (.glPosted { tx })
        (some { picked := dd.qty, routeStops := dd.stops, postedTx := tx, postedAmount := total }))
  | _, _ => some .skips

/-! ## Flows on a bus -/

/-- A handler has handled a message about an order: its vertical, the order and the handler's flow. -/
structure Handled where
  vertical : Vertical
  order : Nat
  flow : Nat
deriving DecidableEq

/-- The bus, the flows, and what was handled so far. -/
structure World where
  bus : InMemoryBus Envelope := {}
  flows : List RunFlow := []
  log : List Handled := []

inductive Label
  | start (o : Order)
  | run (f : Nat) (v : Vertical)

/-- A new call of `run_flow_on`. -/
def RunFlow.new (hash : Hashes) (o : Order) : RunFlow :=
  { order := o
    wms := .new hash.wms
    gl := .new hash.gl o.coa false
    tasks := fun v =>
      if v = .oms then if (placeOrder hash o).toBool then .subscribing [.wms, .tms, .gl] else .gone else .unborn
    returned := if (placeOrder hash o).toBool then none else some none }

def RunFlow.setTask (fl : RunFlow) (v : Vertical) (t : Task) : RunFlow := { fl with tasks := Function.update fl.tasks v t }

/-- The handlers are spawned, and the order is to be published. -/
def RunFlow.spawn (f : Nat) (fl : RunFlow) : RunFlow :=
  let oc : OrderCreated :=
    { orderId := fl.order.orderId, sku := fl.order.sku, bin := fl.order.bin, qty := fl.order.qty }
  { fl with tasks := fun v => if v = .oms then .ready ⟨f, .orderCreated oc⟩ none else .waiting }

/-- The next step of one task. -/
def World.runTask (w : World) (f : Nat) (fl : RunFlow) (v : Vertical) : Option World :=
  match fl.tasks v with
  | .unborn | .gone => none
  | .subscribing [] => some { w with flows := w.flows.set f (fl.spawn f) }
  | .subscribing (u :: todo) =>
    match u.listensTo with
    | none => none
    | some subject =>
      let r := w.bus.subscribe subject
      let fl := { fl with channels := Function.update fl.channels u (some r.1) }
      some { w with bus := r.2, flows := w.flows.set f (fl.setTask v (.subscribing todo)) }
  | .waiting =>
    match fl.channels v with
    | none => none
    | some tx =>
      match w.bus.recv tx with
      | none => none
      | some (msg, bus) =>
        match fl.handle v msg.event with
        | none => none
        | some .skips => some { w with bus }
        | some (.panics fl) => some { w with bus := bus.dropReceiver tx, flows := w.flows.set f (fl.setTask v .gone) }
        | some (.publishes fl event report) =>
          some { bus, flows := w.flows.set f (fl.setTask v (.ready ⟨msg.order, event⟩ report)),
                 log := w.log ++ [⟨v, msg.order, f⟩] }
  | .ready msg report =>
    let p : Publication Envelope := { msg, targets := w.bus.targets msg.event.subject }
    some { w with flows := w.flows.set f (fl.setTask v (.publishing p report)) }
  | .publishing p report =>
    (p.next w.bus).map fun r =>
      let task := match r.2 with
        | some p => .publishing p report
        | none => .leaving report
      { w with bus := r.1, flows := w.flows.set f (fl.setTask v task) }
  | .leaving report =>
    match v, report with
    | .oms, _ =>
      match fl.done, fl.tasks .gl with
      | some r, _ => some { w with flows := w.flows.set f { fl.setTask v .gone with returned := some (some r) } }
      -- the sender was dropped
      | none, .gone => some { w with flows := w.flows.set f { fl.setTask v .gone with returned := some none } }
      | none, _ => none
    | _, some r => some { w with flows := w.flows.set f { fl.setTask v (.leaving none) with done := some r } }
    | _, none =>
      match fl.channels v with
      | none => none
      | some tx => some { w with bus := w.bus.dropReceiver tx, flows := w.flows.set f (fl.setTask v .gone) }

def step (hash : Hashes) (w : World) : Label → Option World
  | .start o => some { w with flows := w.flows ++ [.new hash o] }
  | .run f v =>
    match w.flows[f]? with
    | none => none
    | some fl => w.runTask f fl v

/-! ## The goods of one order -/

section
open Wms InventoryEngine

variable {eng : InventoryEngine 64} {key : StockKey} {qty : U32}

theorem receiveLot_nothing (h0 : qty.1 = 0) : (eng.receiveLot key ⟨"LOT-FLOW"⟩ qty none []).2 = eng := by
  unfold receiveLot
  rw [if_pos h0]

theorem pick_nothing (h0 : qty.1 = 0) (day : Int) : (eng.pick key qty day).2 = eng := by
  unfold pick
  rw [if_pos h0]

/-- The engine after the receipt. -/
def afterReceipt (eng : InventoryEngine 64) (key : StockKey) (qty : U32) : InventoryEngine 64 :=
  ((eng.move key (.received qty.1) qty.1).setLots key [⟨⟨"LOT-FLOW"⟩, none, qty.1, []⟩]).logLot key
    (.received ⟨"LOT-FLOW"⟩ qty.1 none [])

theorem receiveLot_fresh (h0 : qty.1 ≠ 0) (hq : eng.onHand key = 0) (hl : eng.lots key = []) :
    (eng.receiveLot key ⟨"LOT-FLOW"⟩ qty none []).2 = afterReceipt eng key qty := by
  have hlt := qty.2
  have hwrap : wrapI64 (eng.onHand key + (Movement.received qty.1).delta) = qty.1 := by
    show wrapI64 (eng.onHand key + (qty.1 : Int)) = _
    rw [hq, Int.zero_add, wrapI64_of_lt (by omega) (by omega)]
  simp only [receiveLot]
  rw [if_neg h0, if_neg (by simp)]
  rcases eng.append_cases key (.received qty.1) with ⟨hn, -⟩ | ⟨-, he⟩
  · omega
  · rw [hwrap] at he
    simp only [List.find?_nil]
    rw [he]
    dsimp only
    rw [lots_move, hl]
    rfl

/-- The plan for the only lot, when all of it is wanted. -/
theorem buildPickPlan_only (h0 : qty.1 ≠ 0) (lot : LotNumber) (day : Int) :
    buildPickPlan [⟨lot, none, qty.1, []⟩] qty.1 day key = .ok [(0, qty.1)] := by
  have hc : pickCandidates [⟨lot, none, qty.1, []⟩] day = [(⟨lot, none, qty.1, []⟩, 0)] := rfl
  simp only [buildPickPlan]
  rw [hc]
  simp [planLoop, h0]

/-- The engine after the pick of all that was received. -/
def afterPick (eng : InventoryEngine 64) (key : StockKey) (qty : U32) : InventoryEngine 64 :=
  (((eng.setLots key [⟨⟨"LOT-FLOW"⟩, none, 0, []⟩]).move key (.picked qty.1) 0).logLot key
    (.picked ⟨"LOT-FLOW"⟩ qty.1 [])).setLots key []

theorem pick_received (h0 : qty.1 ≠ 0) (hq : eng.onHand key = qty.1)
    (hl : eng.lots key = [⟨⟨"LOT-FLOW"⟩, none, qty.1, []⟩]) (day : Int) :
    (eng.pick key qty day).2 = afterPick eng key qty := by
  have hlt := qty.2
  have htake : takePlan [⟨⟨"LOT-FLOW"⟩, none, qty.1, []⟩] [(0, qty.1)] =
      ([⟨⟨"LOT-FLOW"⟩, none, 0, []⟩], [⟨⟨"LOT-FLOW"⟩, qty.1, []⟩]) := by
    simp [takePlan, LotDetail.take, LotDetail.takenSerials]
  have hwrap : wrapI64 ((eng.setLots key [⟨⟨"LOT-FLOW"⟩, none, 0, []⟩]).onHand key +
      (Movement.picked qty.1).delta) = 0 := by
    show wrapI64 ((eng.setLots key _).onHand key + -(qty.1 : Int)) = _
    rw [onHand_setLots, hq, Int.add_right_neg, wrapI64_of_lt (by omega) (by omega)]
  simp only [pick]
  rw [if_neg h0, hl, buildPickPlan_only h0]
  dsimp only
  rw [htake]
  dsimp only
  rcases (eng.setLots key [⟨⟨"LOT-FLOW"⟩, none, 0, []⟩]).append_cases key (.picked qty.1) with ⟨hn, -⟩ | ⟨-, he⟩
  · omega
  · rw [hwrap] at he
    simp only [pickEvents]
    rw [he]
    dsimp only
    rw [lots_logLot, lots_move, lots_setLots, if_pos rfl]
    rfl

theorem movements_new (shardIndex : StockKey → Fin 64) (key : StockKey) :
    (InventoryEngine.new shardIndex).movements key = [] := by
  unfold movements
  rw [stream_eq_loggedEvents (logKept_new shardIndex)]
  rfl

/-- **What a new engine has logged after the handler of WMS**: a receipt and a pick of the units, if there are any. -/
theorem movements_receiveAndPick (shardIndex : StockKey → Fin 64) (key : StockKey) (qty : U32) :
    (receiveAndPick (.new shardIndex) key qty).movements key =
      if qty.1 = 0 then [] else [.received qty.1, .picked qty.1] := by
  unfold receiveAndPick
  dsimp only
  split
  · next h0 =>
    rw [receiveLot_nothing h0, pick_nothing h0, movements_new]
  · next h0 =>
    have hnew := logKept_new shardIndex
    have hmove := InventoryEngine.logKept_move _ key (.received qty.1) qty.1 hnew
    have hlots := InventoryEngine.logKept_setLots _ key [⟨⟨"LOT-FLOW"⟩, none, qty.1, []⟩] hmove
    have hreceipt : LogKept (afterReceipt (.new shardIndex) key qty) := InventoryEngine.logKept_logLot _ key _ hlots
    have hset := InventoryEngine.logKept_setLots _ key [⟨⟨"LOT-FLOW"⟩, none, 0, []⟩] hreceipt
    have hpick := InventoryEngine.logKept_move _ key (.picked qty.1) 0 hset
    rw [receiveLot_fresh h0 rfl rfl, pick_received h0]
    · unfold afterPick
      rw [movements_setLots, movements_logLot _ _ _ hpick, movements_move _ _ _ _ hset, if_pos rfl, movements_setLots]
      unfold afterReceipt
      rw [movements_logLot _ _ _ hlots, movements_setLots, movements_move _ _ _ _ hnew, if_pos rfl, movements_new]
      rfl
    · unfold afterReceipt
      rw [onHand_logLot, onHand_setLots, onHand_move, if_pos rfl]
    · unfold afterReceipt
      rw [lots_logLot, lots_setLots, if_pos rfl]

end

/-! ## The cost of one order -/

/-- The legs of a flow's posting. -/
def cogsLegs (o : Order) : List (Gl.PostedLeg Usd) :=
  (cogsEntries o (o.total o.qty)).map
    (Gl.JournalEngine.leg ⟨o.tx, cogsEntries o (o.total o.qty)⟩ "2026-01" "flow: COGS on dispatch")

theorem validate_cogsEntries (o : Order) (total : Money Usd) :
    (⟨o.tx, cogsEntries o total⟩ : Transaction Usd).validate = .ok () := by
  rw [Transaction.validate_ok_iff]
  refine ⟨le_rfl, ?_⟩
  unfold Transaction.debits Transaction.credits
  rw [Transaction.total_eq_sum, Transaction.total_eq_sum]
  simp [cogsEntries]

/-- A posting of the order's own units that is Ok leaves its two legs, and has the order's transaction id. -/
theorem posted_cogs {hash : AccountId → Fin 64} {o : Order} {tx : TransactionId} {gl : Gl.JournalEngine Usd 64}
    (h : (Gl.JournalEngine.new hash o.coa false).postTransaction o.tx (cogsEntries o (o.total o.qty)) "2026-01"
      "flow: COGS on dispatch" = some (.ok tx, gl)) : gl.legs.Perm (cogsLegs o) := by
  rcases Gl.JournalEngine.postTransaction_cases _ _ _ _ _ (validate_cogsEntries o (o.total o.qty)) with
    ⟨-, he⟩ | ⟨-, -, he⟩ | ⟨-, -, gl', he, hposted⟩
  · rw [he] at h
    cases h
  · rw [he] at h
    cases h
  · rw [he] at h
    cases h
    have hperm := hposted.legs_perm
    rw [Gl.JournalEngine.legs_new, List.nil_append] at hperm
    exact hperm

end TptErp.Flow
