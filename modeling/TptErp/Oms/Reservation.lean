import TptErp.Primitives
import TptErp.Lib.AssocMap
import TptErp.Ledger.EventStore
import Mathlib.Algebra.Order.BigOperators.Group.List

/-!
# The reservation engine

Stock holds per SKU, sharded by SKU: a shard has a log of `ReserveEvent`s and the live state of its
SKUs.  Beside the shards there are two indexes of the holds' deadlines, the expiry index and, when
one is attached, a cache whose entries live until their deadline.

The functions here are the sections that hold one shard's lock (or one index's); how the engine's
calls are made of them is in `TptErp.Oms.Calls`.  Stock is an `i64` and wraps; committed and held
quantities are exact sums.  Times are counted in nanoseconds.
-/

namespace TptErp.Oms

open Ledger

/-- Marker of stock-keeping units. -/
inductive Sku

/-- Marker of holds and backorders. -/
inductive Hold

abbrev SkuId := Id Sku
abbrev HoldId := Id Hold

inductive ReserveEvent
  | received (qty : Int)
  | hold (reservation : HoldId) (qty : Nat)
  | capture (reservation : HoldId)
  | release (reservation : HoldId)
  | backorderPlaced (reservation : HoldId) (qty : Nat)
  | backorderFilled (reservation : HoldId) (qty : Nat)
  | ret (qty : Int)
deriving DecidableEq

inductive ReservationError
  | insufficientStock (sku : SkuId) (available requested : Int)
  | unknownHold (hold : HoldId)
deriving DecidableEq

/-- The live state of one SKU. -/
structure SkuState where
  onHand : Int := 0
  committed : Int := 0
  holds : AssocMap HoldId Nat := ∅
  expiresAt : AssocMap HoldId Int := ∅
  backorders : AssocMap HoldId Nat := ∅

structure Shard where
  store : InMemoryEventStore SkuId ReserveEvent := {}
  states : AssocMap SkuId SkuState := ∅

structure ReservationEngine (SHARDS : Nat) where
  /-- The hash of a SKU id, modulo the number of shards. -/
  shardIndex : SkuId → Fin SHARDS
  shards : Fin SHARDS → Shard
  /-- The deadlines of the cached holds, when a cache is attached. -/
  cache : Option (AssocMap HoldId Int)
  expiryIndex : AssocMap HoldId Int := ∅
  releasedJobs : Nat := 0

/-! ## One SKU -/

namespace SkuState

def held (st : SkuState) : Int := AssocMap.sumOf (fun q : Nat => (q : Int)) st.holds

/-- Units currently sellable.  The subtraction is exact: that of the source overflows its `i64` once `on_hand` is within
the outstanding units of `i64::MIN`, which is left out. -/
def available (st : SkuState) : Int := st.onHand - st.committed - st.held

/-- Stock received or returned. -/
def addStock (st : SkuState) (qty : Int) : SkuState := { st with onHand := wrapI64 (st.onHand + qty) }

def insertHold (st : SkuState) (hold : HoldId) (qty : Nat) (expires : Int) : SkuState :=
  { st with holds := st.holds.insert hold qty, expiresAt := st.expiresAt.insert hold expires }

def placeBackorder (st : SkuState) (bo : HoldId) (qty : Nat) : SkuState :=
  { st with backorders := st.backorders.insert bo qty }

/-- A backorder is taken out and a hold put in for it. -/
def fill (st : SkuState) (bo hold : HoldId) (qty : Nat) (expires : Int) : SkuState :=
  ({ st with backorders := st.backorders.erase bo } : SkuState).insertHold hold qty expires

def dropHold (st : SkuState) (hold : HoldId) : SkuState :=
  { st with holds := st.holds.erase hold, expiresAt := st.expiresAt.erase hold }

/-- A hold of `qty` units becomes committed. -/
def capture (st : SkuState) (hold : HoldId) (qty : Nat) : SkuState :=
  { st.dropHold hold with committed := st.committed + qty }

/-- The pool covers this backorder. -/
def Satisfiable (st : SkuState) (bo : HoldId) (qty : Nat) : Prop :=
  st.backorders.lookup bo = some qty ∧ (qty : Int) ≤ st.available

theorem held_nonneg (st : SkuState) : 0 ≤ st.held := by
  refine List.sum_nonneg fun x hx => ?_
  obtain ⟨e, -, rfl⟩ := List.mem_map.mp hx
  exact Int.natCast_nonneg e.2

theorem available_addStock (st : SkuState) (qty : Int) :
    (st.addStock qty).available = wrapI64 (st.onHand + qty) - st.committed - st.held := rfl

/-- A new hold takes its quantity out of the pool. -/
theorem available_insertHold {st : SkuState} {hold : HoldId} (qty : Nat) (expires : Int)
    (h : st.holds.lookup hold = none) :
    (st.insertHold hold qty expires).available = st.available - qty := by
  have hs := AssocMap.sumOf_insert_of_notMem (fun q : Nat => (q : Int)) qty h
  show st.onHand - st.committed - AssocMap.sumOf _ (st.holds.insert hold qty) = _
  rw [hs]
  show _ = st.onHand - st.committed - AssocMap.sumOf _ st.holds - qty
  omega

theorem available_fill {st : SkuState} (bo : HoldId) {hold : HoldId} (qty : Nat) (expires : Int)
    (h : st.holds.lookup hold = none) :
    (st.fill bo hold qty expires).available = st.available - qty := by
  have hb : ({ st with backorders := st.backorders.erase bo } : SkuState).holds.lookup hold = none := h
  exact available_insertHold qty expires hb

/-- A released hold gives its quantity back. -/
theorem available_dropHold {st : SkuState} {hold : HoldId} {qty : Nat}
    (h : st.holds.lookup hold = some qty) : (st.dropHold hold).available = st.available + qty := by
  have hs := AssocMap.sumOf_erase (fun q : Nat => (q : Int)) h
  show st.onHand - st.committed - AssocMap.sumOf _ (st.holds.erase hold) = _
  show _ = st.onHand - st.committed - AssocMap.sumOf _ st.holds + qty
  omega

/-- Confirming a hold leaves the pool as it is. -/
theorem available_capture {st : SkuState} {hold : HoldId} {qty : Nat}
    (h : st.holds.lookup hold = some qty) : (st.capture hold qty).available = st.available := by
  have hd := available_dropHold h
  show st.onHand - (st.committed + qty) - (st.dropHold hold).held = _
  have : (st.dropHold hold).available = st.onHand - st.committed - (st.dropHold hold).held := rfl
  omega

end SkuState

/-! ## The engine's sections -/

namespace ReservationEngine

variable {SHARDS : Nat} (eng : ReservationEngine SHARDS)

def new (shardIndex : SkuId → Fin SHARDS) (withCache : Bool) : ReservationEngine SHARDS :=
  { shardIndex, shards := fun _ => {}, cache := if withCache then some ∅ else none }

/-- The state of a SKU; one that was never touched has none, which reads as the default. -/
def stateOf (sku : SkuId) : SkuState := (eng.shards (eng.shardIndex sku)).states.getD sku {}

def setShard (i : Fin SHARDS) (s : Shard) : ReservationEngine SHARDS :=
  { eng with shards := Function.update eng.shards i s }

/-- `states.entry(sku).or_default()`. -/
def touch (sku : SkuId) : ReservationEngine SHARDS :=
  let shard := eng.shards (eng.shardIndex sku)
  eng.setShard (eng.shardIndex sku) { shard with states := shard.states.insert sku (eng.stateOf sku) }

/-- Under the SKU's shard lock: append an event and write the SKU's new state. -/
def record (sku : SkuId) (eventType : String) (ev : ReserveEvent) (st : SkuState) :
    ReservationEngine SHARDS :=
  let shard := eng.shards (eng.shardIndex sku)
  eng.setShard (eng.shardIndex sku)
    { store := (shard.store.append { aggregateId := sku, eventType, payload := ev }).2
      states := shard.states.insert sku st }

def receive (sku : SkuId) (qty : Int) : ReservationEngine SHARDS :=
  eng.record sku "received" (.received qty) ((eng.stateOf sku).addStock qty)

def returnStock (sku : SkuId) (qty : Int) : ReservationEngine SHARDS :=
  eng.record sku "return" (.ret qty) ((eng.stateOf sku).addStock qty)

/-- `reserve`'s section: check the pool and insert the hold. -/
def reserve (sku : SkuId) (hold : HoldId) (qty : Nat) (expires : Int) :
    Except ReservationError (ReservationEngine SHARDS) :=
  let st := eng.stateOf sku
  if st.available < qty then .error (.insufficientStock sku st.available qty)
  else .ok (eng.record sku "hold" (.hold hold qty) (st.insertHold hold qty expires))

/-- The quantity that `reserve_or_backorder` will reserve, by its first section. -/
def reservable (sku : SkuId) (qty : Nat) : Nat := min (asU32 (eng.stateOf sku).available) qty

/-- The second section of `reserve_or_backorder`, which does not look at the pool again. -/
def insertHold (sku : SkuId) (hold : HoldId) (qty : Nat) (expires : Int) : ReservationEngine SHARDS :=
  eng.record sku "hold" (.hold hold qty) ((eng.stateOf sku).insertHold hold qty expires)

def placeBackorder (sku : SkuId) (bo : HoldId) (qty : Nat) : ReservationEngine SHARDS :=
  eng.record sku "backorder_placed" (.backorderPlaced bo qty) ((eng.stateOf sku).placeBackorder bo qty)

/-- The second section of `fulfill_backorders_for`: the event names the new hold. -/
def fill (sku : SkuId) (bo hold : HoldId) (qty : Nat) (expires : Int) : ReservationEngine SHARDS :=
  eng.record sku "backorder_filled" (.backorderFilled hold qty) ((eng.stateOf sku).fill bo hold qty expires)

def confirm (sku : SkuId) (hold : HoldId) : Except ReservationError (ReservationEngine SHARDS) :=
  match (eng.stateOf sku).holds.lookup hold with
  | some qty => .ok (eng.record sku "capture" (.capture hold) ((eng.stateOf sku).capture hold qty))
  | none => .error (.unknownHold hold)

/-- The section of `release_internal`. -/
def release (sku : SkuId) (hold : HoldId) : Except ReservationError (ReservationEngine SHARDS) :=
  match (eng.stateOf sku).holds.lookup hold with
  | some _ => .ok (eng.record sku "release" (.release hold) ((eng.stateOf sku).dropHold hold))
  | none => .error (.unknownHold hold)

/-- The holds that a sweep collects from one shard. -/
def candidates (i : Fin SHARDS) : List (SkuId × HoldId) :=
  (eng.shards i).states.entries.flatMap fun e => e.2.holds.keys.map fun h => (e.1, h)

/-- With a cache, a hold is expired when its entry is gone; without one, when the expiry index says
so or does not know it. -/
def isExpired (now : Int) (hold : HoldId) : Bool :=
  match eng.cache with
  | some cache =>
    match cache.lookup hold with
    | some deadline => ¬ now < deadline
    | none => true
  | none =>
    match eng.expiryIndex.lookup hold with
    | some e => e ≤ now
    | none => true

def indexInsert (hold : HoldId) (expires : Int) : ReservationEngine SHARDS :=
  { eng with expiryIndex := eng.expiryIndex.insert hold expires }

def indexRemove (hold : HoldId) : ReservationEngine SHARDS :=
  { eng with expiryIndex := eng.expiryIndex.erase hold }

def cachePut (hold : HoldId) (deadline : Int) : ReservationEngine SHARDS :=
  { eng with cache := eng.cache.map fun c => c.insert hold deadline }

def cacheInvalidate (hold : HoldId) : ReservationEngine SHARDS :=
  { eng with cache := eng.cache.map fun c => c.erase hold }

def countReleased : ReservationEngine SHARDS := { eng with releasedJobs := eng.releasedJobs + 1 }

/-! ## Reading the state back -/

theorem stateOf_setShard (sku : SkuId) (st : SkuState) (store : InMemoryEventStore SkuId ReserveEvent)
    (k : SkuId) :
    (eng.setShard (eng.shardIndex sku)
      { store, states := (eng.shards (eng.shardIndex sku)).states.insert sku st }).stateOf k =
      if k = sku then st else eng.stateOf k := by
  simp only [stateOf, setShard, Function.update_apply]
  by_cases hi : eng.shardIndex k = eng.shardIndex sku
  · rw [if_pos hi, AssocMap.getD_insert_eq, hi]
  · have hk : k ≠ sku := fun h => hi (by rw [h])
    rw [if_neg hi, if_neg hk]

/-- An event changes the state of its own SKU only. -/
theorem stateOf_record (sku : SkuId) (eventType : String) (ev : ReserveEvent) (st : SkuState) (k : SkuId) :
    (eng.record sku eventType ev st).stateOf k = if k = sku then st else eng.stateOf k :=
  stateOf_setShard ..

/-- What an event leaves of its own SKU's state is left of every SKU's. -/
theorem left_record {α : Type} (f : SkuState → α) (sku : SkuId) (eventType : String) (ev : ReserveEvent)
    {st : SkuState} (h : f st = f (eng.stateOf sku)) (k : SkuId) :
    f ((eng.record sku eventType ev st).stateOf k) = f (eng.stateOf k) := by
  rw [stateOf_record]
  split
  · next hk => rw [hk, h]
  · rfl

@[simp] theorem stateOf_touch (sku k : SkuId) : (eng.touch sku).stateOf k = eng.stateOf k := by
  rw [touch, stateOf_setShard]
  split
  · next h => rw [h]
  · rfl

/-- The payloads of the log of one shard after an event. -/
theorem log_record (sku : SkuId) (eventType : String) (ev : ReserveEvent) (st : SkuState) (i : Fin SHARDS) :
    (((eng.record sku eventType ev st).shards i).store.log).map (fun e => (e.aggregateId, e.payload)) =
      ((eng.shards i).store.log).map (fun e => (e.aggregateId, e.payload)) ++
        if i = eng.shardIndex sku then [(sku, ev)] else [] := by
  simp only [record, setShard, Function.update_apply]
  split
  · next h =>
    subst h
    simp [InMemoryEventStore.stored]
  · simp

end ReservationEngine

end TptErp.Oms
