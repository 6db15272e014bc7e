import TptErp.Primitives
import TptErp.Lib.AssocMap
import TptErp.Ledger.EventStore
import Mathlib.Data.List.Sort

/-!
# The inventory engine

Stock per SKU and bin (`StockKey`), sharded by key: a shard has a log of movements and lot events,
the running on-hand quantity of its keys and their lots.  Beside the shards there are the registry
of serial numbers and the pallets.

A call returns its result together with the engine as it leaves it, on the error paths too: what a
call has done before it fails stays done.  On-hand quantities are `i64` and wrap, lot quantities
are `u32` and wrap.  An entry of 0 (or an empty list of lots) that a failed call leaves behind for
a key reads like a missing one, and is not modelled; nor are the replenishment jobs and the cache,
which a call writes last, when it has succeeded.
-/

namespace TptErp.Wms

open Ledger

/-- Marker of stock-keeping units. -/
inductive Sku

/-- Marker of bins. -/
inductive Bin

/-- Marker of pallets. -/
inductive Lpn

abbrev LpnId := Id Lpn

/-- One SKU in one bin. -/
structure StockKey where
  bin : Id Bin
  sku : Id Sku
deriving DecidableEq

inductive Reason
  | receipt
  | pick
  | transfer
  | cycleCount
  | damage
  | found
  | manual
deriving DecidableEq

inductive Movement
  | received (qty : Nat)
  | picked (qty : Nat)
  | adjusted (delta : I64)
  | adjustment (delta : I64) (reason : Reason)
deriving DecidableEq

/-- The signed change of the on-hand quantity. -/
def Movement.delta : Movement → Int
  | .received q => q
  | .picked q => -q
  | .adjusted d => d.1
  | .adjustment d _ => d.1

structure LotNumber where
  text : String
deriving DecidableEq

structure SerialNumber where
  text : String
deriving DecidableEq

/-- The stock of one lot at a key; `expiry` counts days. -/
structure LotDetail where
  lot : LotNumber
  expiry : Option Int
  onHand : Nat
  serials : List SerialNumber
deriving DecidableEq

inductive LotEvent
  | received (lot : LotNumber) (qty : Nat) (expiry : Option Int) (serials : List SerialNumber)
  | picked (lot : LotNumber) (qty : Nat) (serials : List SerialNumber)
  | transferred (lot : LotNumber) (qty : Nat) (fromBin toBin : Id Bin) (serials : List SerialNumber)
deriving DecidableEq

/-- The payload of a stored event. -/
inductive InventoryEvent
  | movement (m : Movement)
  | lot (e : LotEvent)
deriving DecidableEq

structure LotConsumption where
  lot : LotNumber
  qty : Nat
  serials : List SerialNumber
deriving DecidableEq

structure PalletLine where
  sku : Id Sku
  lot : LotNumber
  qty : U32
deriving DecidableEq

structure Pallet where
  id : LpnId
  location : Id Bin
  lines : List PalletLine
deriving DecidableEq

structure CountTask where
  bin : Id Bin
  lines : List (Id Sku)

structure AdjustmentResult where
  key : StockKey
  expected : Int
  counted : Int
  delta : Int
  reason : Reason
  newOnHand : Int

inductive InventoryError
  | conflict (key : StockKey) (expected current : Nat)
  | insufficientStock (key : StockKey) (have_ need : Int)
  | expiredLot (key : StockKey) (lot : LotNumber)
  | zeroQuantity (key : StockKey)
  | serialCountMismatch (key : StockKey) (have_ need : Nat)
  | duplicateSerial (sn : SerialNumber)
  | lotNotFound (key : StockKey) (lot : LotNumber)
  | overLotQuantity (key : StockKey) (lot : LotNumber) (have_ need : Int)
  | palletNotFound (lpn : LpnId)
  | palletLineShort (lpn : LpnId) (lot : LotNumber) (have_ need : Nat)
deriving DecidableEq

structure Shard where
  store : InMemoryEventStore StockKey InventoryEvent := {}
  onHand : AssocMap StockKey Int := ∅
  lots : AssocMap StockKey (List LotDetail) := ∅

structure InventoryEngine (SHARDS : Nat) where
  /-- The hash of a stock key, modulo the number of shards. -/
  shardIndex : StockKey → Fin SHARDS
  shards : Fin SHARDS → Shard := fun _ => {}
  serials : AssocMap SerialNumber (StockKey × LotNumber) := ∅
  pallets : AssocMap LpnId Pallet := ∅

/-- What a call returns, with the engine it leaves. -/
abbrev Call (SHARDS : Nat) (R : Type) := Except InventoryError R × InventoryEngine SHARDS

/-! ## Lots -/

/-- Change the first lot of that number. -/
def updateLot (lot : LotNumber) (f : LotDetail → LotDetail) : List LotDetail → List LotDetail
  | [] => []
  | ld :: lots => if ld.lot = lot then f ld :: lots else ld :: updateLot lot f lots

def findLot (lots : List LotDetail) (lot : LotNumber) : Option LotDetail :=
  lots.find? fun ld => ld.lot = lot

/-- The quantity of a lot, 0 when there is none. -/
def lotOnHand (lots : List LotDetail) (lot : LotNumber) : Nat :=
  ((findLot lots lot).map (·.onHand)).getD 0

/-- Add a receipt to its lot, or as a new lot. -/
def addToLot (lots : List LotDetail) (lot : LotNumber) (qty : Nat) (expiry : Option Int)
    (serials : List SerialNumber) : List LotDetail :=
  match findLot lots lot with
  | some _ =>
    updateLot lot
      (fun ld =>
        { ld with
          onHand := (ld.onHand + qty) % 2 ^ 32
          serials := ld.serials ++ serials
          expiry := if expiry.isSome then expiry else ld.expiry })
      lots
  | none => lots ++ [{ lot, expiry, onHand := qty, serials }]

/-- Take `qty` units and their serials out of a lot. -/
def LotDetail.take (ld : LotDetail) (qty : Nat) : LotDetail :=
  { ld with serials := ld.serials.drop (min ld.serials.length qty), onHand := ld.onHand - qty }

/-- The serials that go with `qty` units of a lot. -/
def LotDetail.takenSerials (ld : LotDetail) (qty : Nat) : List SerialNumber :=
  ld.serials.take (min ld.serials.length qty)

/-- The order of `Option<NaiveDate>`: no date comes before every date. -/
def expiryLe : Option Int → Option Int → Bool
  | none, _ => true
  | some _, none => false
  | some a, some b => a ≤ b

/-- What to take from each candidate, and what remains to be taken in the end. -/
def planLoop : List (LotDetail × Nat) → Nat → List (Nat × Nat) × Nat
  | [], remaining => ([], remaining)
  | (ld, i) :: candidates, remaining =>
    if remaining = 0 then ([], remaining)
    else
      let take := min ld.onHand remaining
      if take = 0 then planLoop candidates remaining
      else
        let r := planLoop candidates (remaining - take)
        ((i, take) :: r.1, r.2)

/-- The candidates of a pick, with their places: the lots that are not expired, by expiry. -/
def pickCandidates (lots : List LotDetail) (asOf : Int) : List (LotDetail × Nat) :=
  (lots.zipIdx.filter fun p => p.1.expiry.all fun e => asOf ≤ e).insertionSort fun a b =>
    expiryLe a.1.expiry b.1.expiry

/-- The lot of least expiry, the first one of several. -/
def minExpiry : List LotDetail → Option LotDetail
  | [] => none
  | ld :: lots =>
    match minExpiry lots with
    | none => some ld
    | some best => if expiryLe ld.expiry best.expiry then some ld else some best

def buildPickPlan (lots : List LotDetail) (qty : Nat) (asOf : Int) (key : StockKey) :
    Except InventoryError (List (Nat × Nat)) :=
  let r := planLoop (pickCandidates lots asOf) qty
  if 0 < r.2 then
    match minExpiry (lots.filter fun l => l.expiry.any fun e => e < asOf) with
    | some ld => .error (.expiredLot key ld.lot)
    | none => .error (.insufficientStock key ((qty - r.2 : Nat) : Int) (r.2 : Int))
  else .ok r.1

/-- Carry a plan out on the lots, one lot after the other. -/
def takePlan (lots : List LotDetail) : List (Nat × Nat) → List LotDetail × List LotConsumption
  | [] => (lots, [])
  | (i, qty) :: plan =>
    match lots[i]? with
    | some ld =>
      let r := takePlan (lots.set i (ld.take qty)) plan
      (r.1, { lot := ld.lot, qty, serials := ld.takenSerials qty } :: r.2)
    | none => takePlan lots plan

/-! ## Sections -/

namespace InventoryEngine

variable {SHARDS : Nat} (eng : InventoryEngine SHARDS)

def new (shardIndex : StockKey → Fin SHARDS) : InventoryEngine SHARDS := { shardIndex }

def shardOf (key : StockKey) : Shard := eng.shards (eng.shardIndex key)

def setShard (i : Fin SHARDS) (s : Shard) : InventoryEngine SHARDS :=
  { eng with shards := Function.update eng.shards i s }

def onHand (key : StockKey) : Int := (eng.shardOf key).onHand.getD key 0

def version (key : StockKey) : Nat := (eng.shardOf key).store.version key

/-- Snapshot of the lots of a key. -/
def lots (key : StockKey) : List LotDetail := (eng.shardOf key).lots.getD key []

def serialLocation (sn : SerialNumber) : Option (StockKey × LotNumber) := eng.serials.lookup sn

def pallet (lpn : LpnId) : Option Pallet := eng.pallets.lookup lpn

/-- Append a movement and write the key's new on-hand quantity. -/
def move (key : StockKey) (m : Movement) (newQty : Int) : InventoryEngine SHARDS :=
  let shard := eng.shardOf key
  eng.setShard (eng.shardIndex key)
    { shard with
      store := (shard.store.append { aggregateId := key, eventType := "movement", payload := .movement m }).2
      onHand := shard.onHand.insert key newQty }

/-- Append a lot event. -/
def logLot (key : StockKey) (e : LotEvent) : InventoryEngine SHARDS :=
  let shard := eng.shardOf key
  eng.setShard (eng.shardIndex key)
    { shard with
      store := (shard.store.append { aggregateId := key, eventType := "lot", payload := .lot e }).2 }

def setLots (key : StockKey) (lots : List LotDetail) : InventoryEngine SHARDS :=
  let shard := eng.shardOf key
  eng.setShard (eng.shardIndex key) { shard with lots := shard.lots.insert key lots }

/-- Register serials at a key and lot. -/
def putSerials (sns : List SerialNumber) (key : StockKey) (lot : LotNumber) : InventoryEngine SHARDS :=
  { eng with serials := sns.foldl (fun m sn => m.insert sn (key, lot)) eng.serials }

def removeSerials (sns : List SerialNumber) : InventoryEngine SHARDS :=
  { eng with serials := sns.foldl (fun m sn => m.erase sn) eng.serials }

def putPallet (lpn : LpnId) (p : Pallet) : InventoryEngine SHARDS :=
  { eng with pallets := eng.pallets.insert lpn p }

/-- The floor check, then the movement. -/
def appendMovementLocked (key : StockKey) (m : Movement) : Call SHARDS Int :=
  let current := eng.onHand key
  let newQty := wrapI64 (current + m.delta)
  if newQty < 0 then (.error (.insufficientStock key current (wrapI64 (-m.delta))), eng)
  else (.ok newQty, eng.move key m newQty)

/-! ## Calls -/

def apply (key : StockKey) (m : Movement) : Call SHARDS Int := eng.appendMovementLocked key m

def applyVersioned (key : StockKey) (m : Movement) (expectedVersion : Nat) : Call SHARDS Int :=
  let current := eng.onHand key
  let newQty := wrapI64 (current + m.delta)
  if newQty < 0 then (.error (.insufficientStock key current (wrapI64 (-m.delta))), eng)
  else
    let shard := eng.shardOf key
    match shard.store.appendVersioned
        { aggregateId := key, eventType := "movement", payload := .movement m } expectedVersion with
    | .ok (_, store) =>
      (.ok newQty, eng.setShard (eng.shardIndex key)
        { shard with store, onHand := shard.onHand.insert key newQty })
    | .error _ => (.error (.conflict key expectedVersion (eng.version key)), eng)

def receiveLot (key : StockKey) (lot : LotNumber) (qty : U32) (expiry : Option Int)
    (serials : List SerialNumber) : Call SHARDS Int :=
  if qty.1 = 0 then (.error (.zeroQuantity key), eng)
  else if serials ≠ [] ∧ serials.length % 2 ^ 32 ≠ qty.1 then
    (.error (.serialCountMismatch key (serials.length % 2 ^ 32) qty.1), eng)
  else
    match serials.find? fun sn => (eng.serials.lookup sn).isSome with
    | some sn => (.error (.duplicateSerial sn), eng)
    | none =>
      match eng.appendMovementLocked key (.received qty.1) with
      | (.error e, eng) => (.error e, eng)
      | (.ok newQty, eng) =>
        let eng := eng.setLots key (addToLot (eng.lots key) lot qty.1 expiry serials)
        let eng := eng.logLot key (.received lot qty.1 expiry serials)
        (.ok newQty, eng.putSerials serials key lot)

/-- A movement and a lot event for each consumption; the first that fails the floor check ends the
loop. -/
def pickEvents (key : StockKey) : List LotConsumption → InventoryEngine SHARDS → Call SHARDS Unit
  | [], eng => (.ok (), eng)
  | c :: cs, eng =>
    match eng.appendMovementLocked key (.picked c.qty) with
    | (.error e, eng) => (.error e, eng)
    | (.ok _, eng) => pickEvents key cs (eng.logLot key (.picked c.lot c.qty c.serials))

/-- Pick from the lots of nearest expiry.  The lots are changed before the floor is checked. -/
def pick (key : StockKey) (qty : U32) (asOf : Int) : Call SHARDS (List LotConsumption) :=
  if qty.1 = 0 then (.error (.zeroQuantity key), eng)
  else
    match buildPickPlan (eng.lots key) qty.1 asOf key with
    | .error e => (.error e, eng)
    | .ok plan =>
      let r := takePlan (eng.lots key) plan
      match pickEvents key r.2 (eng.setLots key r.1) with
      | (.error e, eng) => (.error e, eng)
      | (.ok (), eng) =>
        let eng := eng.setLots key ((eng.lots key).filter fun l => 0 < l.onHand)
        (.ok r.2, eng.removeSerials (r.2.flatMap (·.serials)))

def pickFromLot (key : StockKey) (lot : LotNumber) (qty : U32) (asOf : Int) :
    Call SHARDS (List LotConsumption) :=
  if qty.1 = 0 then (.error (.zeroQuantity key), eng)
  else
    match findLot (eng.lots key) lot with
    | none => (.error (.lotNotFound key lot), eng)
    | some ld =>
      if ld.expiry.any fun e => e < asOf then (.error (.expiredLot key lot), eng)
      else if ld.onHand < qty.1 then (.error (.overLotQuantity key lot ld.onHand qty.1), eng)
      else
        let serials := ld.takenSerials qty.1
        match eng.appendMovementLocked key (.picked qty.1) with
        | (.error e, eng) => (.error e, eng)
        | (.ok _, eng) =>
          let eng := eng.logLot key (.picked lot qty.1 serials)
          let eng := eng.setLots key (updateLot lot (fun ld => ld.take qty.1) (eng.lots key))
          (.ok [{ lot, qty := qty.1, serials }], eng.removeSerials serials)

/-- The first line that the lots of its key do not cover. -/
def createPallet (location : Id Bin) (lines : List PalletLine) (id : LpnId) : Call SHARDS LpnId :=
  match lines.find? fun line => lotOnHand (eng.lots ⟨location, line.sku⟩) line.lot < line.qty.1 with
  | some line =>
    (.error (.palletLineShort id line.lot (lotOnHand (eng.lots ⟨location, line.sku⟩) line.lot) line.qty.1), eng)
  | none => (.ok id, eng.putPallet id { id, location, lines })

/-- Move units of a lot to another bin.  The source lot is changed before the floor is checked. -/
def transferLot (key : StockKey) (lot : LotNumber) (qty : U32) (fromBin toBin : Id Bin) : Call SHARDS Unit :=
  if qty.1 = 0 then (.error (.zeroQuantity key), eng)
  else
    match findLot (eng.lots key) lot with
    | none => (.error (.lotNotFound key lot), eng)
    | some ld =>
      if ld.onHand < qty.1 then (.error (.overLotQuantity key lot ld.onHand qty.1), eng)
      else
        let serials := ld.takenSerials qty.1
        let eng := eng.setLots key (updateLot lot (fun ld => ld.take qty.1) (eng.lots key))
        match eng.appendMovementLocked key (.picked qty.1) with
        | (.error e, eng) => (.error e, eng)
        | (.ok _, eng) =>
          let eng := eng.logLot key (.transferred lot qty.1 fromBin toBin serials)
          let dest : StockKey := { bin := toBin, sku := key.sku }
          let eng := eng.putSerials serials dest lot
          match eng.appendMovementLocked dest (.received qty.1) with
          | (.error e, eng) => (.error e, eng)
          | (.ok _, eng) =>
            let eng := eng.setLots dest (addToLot (eng.lots dest) lot qty.1 ld.expiry serials)
            (.ok (), eng.logLot dest (.received lot qty.1 ld.expiry serials))

/-- The loop over the lines of a pallet; the lines moved before one that fails stay moved. -/
def transferLines (location toBin : Id Bin) : List PalletLine → InventoryEngine SHARDS → Call SHARDS Unit
  | [], eng => (.ok (), eng)
  | line :: lines, eng =>
    match eng.transferLot ⟨location, line.sku⟩ line.lot line.qty location toBin with
    | (.error e, eng) => (.error e, eng)
    | (.ok (), eng) => transferLines location toBin lines eng

def movePallet (lpn : LpnId) (toBin : Id Bin) : Call SHARDS Unit :=
  match eng.pallet lpn with
  | none => (.error (.palletNotFound lpn), eng)
  | some p =>
    if p.location = toBin then (.ok (), eng)
    else
      match transferLines p.location toBin p.lines eng with
      | (.error e, eng) => (.error e, eng)
      | (.ok (), eng) => (.ok (), eng.putPallet lpn { p with location := toBin })

/-- Take units off the first pallet line of that SKU and lot. -/
def takeLine (sku : Id Sku) (lot : LotNumber) (qty : Nat) : List PalletLine → List PalletLine
  | [] => []
  | l :: ls =>
    if l.sku = sku ∧ l.lot = lot then
      { l with qty := ⟨l.qty.1 - qty, lt_of_le_of_lt (Nat.sub_le _ _) l.qty.2⟩ } :: ls
    else l :: takeLine sku lot qty ls

/-- Pick what a pallet line holds.  The line is changed before the pick. -/
def pickFromPallet (lpn : LpnId) (sku : Id Sku) (lot : LotNumber) (qty : U32) (asOf : Int) :
    Call SHARDS (List LotConsumption) :=
  match eng.pallet lpn with
  | none => (.error (.palletNotFound lpn), eng)
  | some p =>
    match p.lines.find? fun l => l.sku = sku ∧ l.lot = lot with
    | none => (.error (.lotNotFound ⟨p.location, sku⟩ lot), eng)
    | some line =>
      if line.qty.1 < qty.1 then (.error (.palletLineShort lpn lot line.qty.1 qty.1), eng)
      else
        (eng.putPallet lpn { p with lines := takeLine sku lot qty.1 p.lines }).pick ⟨p.location, sku⟩ qty asOf

/-- The loop over the SKUs of a count task; `counted` is 0 for a key that was not counted. -/
def reconcileLines (bin : Id Bin) (counted : StockKey → I64) (reason : Reason) :
    List (Id Sku) → InventoryEngine SHARDS → Call SHARDS (List AdjustmentResult)
  | [], eng => (.ok [], eng)
  | sku :: lines, eng =>
    let key : StockKey := { bin, sku }
    let expected := eng.onHand key
    let delta := wrapI64 ((counted key).1 - expected)
    if delta = 0 then reconcileLines bin counted reason lines eng
    else
      match eng.apply key (.adjustment ⟨delta, le_wrapI64 _, wrapI64_lt _⟩ reason) with
      | (.error e, eng) => (.error e, eng)
      | (.ok newOnHand, eng) =>
        match reconcileLines bin counted reason lines eng with
        | (.error e, eng) => (.error e, eng)
        | (.ok results, eng) =>
          (.ok ({ key, expected, counted := (counted key).1, delta, reason, newOnHand } :: results), eng)

def reconcileCount (task : CountTask) (counted : StockKey → I64) (reason : Reason) :
    Call SHARDS (List AdjustmentResult) :=
  reconcileLines task.bin counted reason task.lines eng

/-! ## Reading the engine back -/

theorem shardOf_setShard (key : StockKey) (s : Shard) (k : StockKey) :
    (eng.setShard (eng.shardIndex key) s).shardOf k =
      if eng.shardIndex k = eng.shardIndex key then s else eng.shardOf k := by
  simp only [shardOf, setShard, Function.update_apply]

theorem onHand_move (key : StockKey) (m : Movement) (q : Int) (k : StockKey) :
    (eng.move key m q).onHand k = if k = key then q else eng.onHand k := by
  simp only [onHand, move, shardOf_setShard]
  by_cases hi : eng.shardIndex k = eng.shardIndex key
  · rw [if_pos hi, AssocMap.getD_insert_eq, shardOf, shardOf, hi]
  · have hk : k ≠ key := fun h => hi (by rw [h])
    rw [if_neg hi, if_neg hk]

theorem lots_setLots (key : StockKey) (ls : List LotDetail) (k : StockKey) :
    (eng.setLots key ls).lots k = if k = key then ls else eng.lots k := by
  simp only [lots, setLots, shardOf_setShard]
  by_cases hi : eng.shardIndex k = eng.shardIndex key
  · rw [if_pos hi, AssocMap.getD_insert_eq, shardOf, shardOf, hi]
  · have hk : k ≠ key := fun h => hi (by rw [h])
    rw [if_neg hi, if_neg hk]

@[simp] theorem lots_move (key : StockKey) (m : Movement) (q : Int) (k : StockKey) :
    (eng.move key m q).lots k = eng.lots k := by
  simp only [lots, move, shardOf_setShard]
  split
  · next hi => rw [shardOf, shardOf, hi]
  · rfl

@[simp] theorem lots_logLot (key : StockKey) (e : LotEvent) (k : StockKey) :
    (eng.logLot key e).lots k = eng.lots k := by
  simp only [lots, logLot, shardOf_setShard]
  split
  · next hi => rw [shardOf, shardOf, hi]
  · rfl

@[simp] theorem onHand_logLot (key : StockKey) (e : LotEvent) (k : StockKey) :
    (eng.logLot key e).onHand k = eng.onHand k := by
  simp only [onHand, logLot, shardOf_setShard]
  split
  · next hi => rw [shardOf, shardOf, hi]
  · rfl

@[simp] theorem onHand_setLots (key : StockKey) (ls : List LotDetail) (k : StockKey) :
    (eng.setLots key ls).onHand k = eng.onHand k := by
  simp only [onHand, setLots, shardOf_setShard]
  split
  · next hi => rw [shardOf, shardOf, hi]
  · rfl

@[simp] theorem onHand_putSerials (sns : List SerialNumber) (key : StockKey) (lot : LotNumber)
    (k : StockKey) : (eng.putSerials sns key lot).onHand k = eng.onHand k := rfl

@[simp] theorem lots_putSerials (sns : List SerialNumber) (key : StockKey) (lot : LotNumber)
    (k : StockKey) : (eng.putSerials sns key lot).lots k = eng.lots k := rfl

@[simp] theorem onHand_putPallet (lpn : LpnId) (p : Pallet) (k : StockKey) :
    (eng.putPallet lpn p).onHand k = eng.onHand k := rfl

@[simp] theorem lots_putPallet (lpn : LpnId) (p : Pallet) (k : StockKey) :
    (eng.putPallet lpn p).lots k = eng.lots k := rfl

/-- A movement passes the floor check, or nothing happens. -/
theorem append_cases (key : StockKey) (m : Movement) :
    (wrapI64 (eng.onHand key + m.delta) < 0 ∧
      eng.appendMovementLocked key m = (.error (.insufficientStock key (eng.onHand key) (wrapI64 (-m.delta))), eng)) ∨
    (0 ≤ wrapI64 (eng.onHand key + m.delta) ∧
      eng.appendMovementLocked key m =
        (.ok (wrapI64 (eng.onHand key + m.delta)), eng.move key m (wrapI64 (eng.onHand key + m.delta)))) := by
  simp only [appendMovementLocked]
  split
  · next h => exact Or.inl ⟨h, rfl⟩
  · next h => exact Or.inr ⟨not_lt.mp h, rfl⟩

/-! ## Sections one after the other -/

/-- One section of a call: a movement to a quantity that fits, a lot event, new lots, or a change
of the serials or the pallets. -/
inductive Section (eng : InventoryEngine SHARDS) : InventoryEngine SHARDS → Prop
  | move (key : StockKey) (m : Movement) (q : Int) (floor : 0 ≤ q) (fits : q < 2 ^ 63) :
      Section eng (eng.move key m q)
  | logLot (key : StockKey) (e : LotEvent) : Section eng (eng.logLot key e)
  | setLots (key : StockKey) (ls : List LotDetail) : Section eng (eng.setLots key ls)
  | putSerials (sns : List SerialNumber) (key : StockKey) (lot : LotNumber) :
      Section eng (eng.putSerials sns key lot)
  | removeSerials (sns : List SerialNumber) : Section eng (eng.removeSerials sns)
  | putPallet (lpn : LpnId) (p : Pallet) : Section eng (eng.putPallet lpn p)

/-- The second engine is left by sections run on the first. -/
abbrev Sections (eng eng' : InventoryEngine SHARDS) : Prop := Relation.ReflTransGen Section eng eng'

/-- On-hand quantities are not negative, and fit. -/
def FloorKept (eng : InventoryEngine SHARDS) : Prop := ∀ key, 0 ≤ eng.onHand key ∧ eng.onHand key < 2 ^ 63

/-- No log is shorter. -/
def LogLe (eng eng' : InventoryEngine SHARDS) : Prop :=
  ∀ i, (eng.shards i).store.log.length ≤ (eng'.shards i).store.log.length

theorem floorKept_section {eng eng' : InventoryEngine SHARDS} (h : FloorKept eng) (hs : Section eng eng') :
    FloorKept eng' := by
  intro k
  cases hs with
  | move key m q floor fits =>
    rw [onHand_move]
    split
    · exact ⟨floor, fits⟩
    · exact h k
  | logLot key e => rw [onHand_logLot]; exact h k
  | setLots key ls => rw [onHand_setLots]; exact h k
  | putSerials => exact h k
  | removeSerials => exact h k
  | putPallet => exact h k

theorem floorKept_sections {eng eng' : InventoryEngine SHARDS} (h : FloorKept eng) (hs : Sections eng eng') :
    FloorKept eng' := by
  induction hs with
  | refl => exact h
  | tail _ h1 ih => exact floorKept_section ih h1

theorem log_move (key : StockKey) (m : Movement) (q : Int) (i : Fin SHARDS) :
    ((eng.move key m q).shards i).store.log.length =
      (eng.shards i).store.log.length + if i = eng.shardIndex key then 1 else 0 := by
  simp only [move, setShard, shardOf, Function.update_apply]
  split
  · next h => subst h; simp
  · rfl

theorem log_logLot (key : StockKey) (e : LotEvent) (i : Fin SHARDS) :
    ((eng.logLot key e).shards i).store.log.length =
      (eng.shards i).store.log.length + if i = eng.shardIndex key then 1 else 0 := by
  simp only [logLot, setShard, shardOf, Function.update_apply]
  split
  · next h => subst h; simp
  · rfl

theorem log_setLots (key : StockKey) (ls : List LotDetail) (i : Fin SHARDS) :
    ((eng.setLots key ls).shards i).store = (eng.shards i).store := by
  simp only [setLots, setShard, shardOf, Function.update_apply]
  split
  · next h => rw [h]
  · rfl

theorem logLe_sections {eng eng' : InventoryEngine SHARDS} (hs : Sections eng eng') : LogLe eng eng' := by
  induction hs with
  | refl => exact fun i => le_rfl
  | tail _ h1 ih =>
    intro i
    refine (ih i).trans ?_
    cases h1 with
    | move key m q => rw [log_move]; omega
    | logLot key e => rw [log_logLot]; omega
    | setLots key ls => rw [log_setLots]
    | putSerials => exact le_rfl
    | removeSerials => exact le_rfl
    | putPallet => exact le_rfl

theorem sections_append (key : StockKey) (m : Movement) : Sections eng (eng.appendMovementLocked key m).2 := by
  rcases eng.append_cases key m with ⟨-, he⟩ | ⟨h0, he⟩
  · rw [he]
  · rw [he]
    exact .single (.move key m _ h0 (wrapI64_lt _))

theorem sections_pickEvents (key : StockKey) (cs : List LotConsumption) :
    Sections eng (pickEvents key cs eng).2 := by
  induction cs generalizing eng with
  | nil => exact .refl
  | cons c cs ih =>
    have ha := eng.sections_append key (.picked c.qty)
    unfold pickEvents
    split
    · next he => rw [he] at ha; exact ha
    · next he =>
      rw [he] at ha
      exact (ha.tail (.logLot key _)).trans (ih _)

theorem sections_pick (key : StockKey) (qty : U32) (asOf : Int) : Sections eng (eng.pick key qty asOf).2 := by
  simp only [pick]
  split
  · exact .refl
  · split
    · exact .refl
    · next plan _ =>
      have hp := (eng.setLots key (takePlan (eng.lots key) plan).1).sections_pickEvents key
        (takePlan (eng.lots key) plan).2
      have hl : Sections eng (eng.setLots key (takePlan (eng.lots key) plan).1) := .single (.setLots key _)
      split
      · next he => rw [he] at hp; exact hl.trans hp
      · next he =>
        rw [he] at hp
        exact ((hl.trans hp).tail (.setLots key _)).tail (.removeSerials _)

theorem sections_transferLot (key : StockKey) (lot : LotNumber) (qty : U32) (fromBin toBin : Id Bin) :
    Sections eng (eng.transferLot key lot qty fromBin toBin).2 := by
  simp only [transferLot]
  split
  · exact .refl
  · split
    · exact .refl
    · next ld _ =>
      split
      · exact .refl
      · have hl : Sections eng (eng.setLots key (updateLot lot (fun ld => ld.take qty.1) (eng.lots key))) :=
          .single (.setLots key _)
        have ha := (eng.setLots key (updateLot lot (fun ld => ld.take qty.1) (eng.lots key))).sections_append
          key (.picked qty.1)
        split
        · next he => rw [he] at ha; exact hl.trans ha
        · next n mid he =>
          rw [he] at ha
          have hm := ((hl.trans ha).tail
            (.logLot key (.transferred lot qty.1 fromBin toBin (ld.takenSerials qty.1)))).tail
            (.putSerials (ld.takenSerials qty.1) { bin := toBin, sku := key.sku } lot)
          have hb := ((mid.logLot key (.transferred lot qty.1 fromBin toBin (ld.takenSerials qty.1))).putSerials
            (ld.takenSerials qty.1) { bin := toBin, sku := key.sku } lot).sections_append
            { bin := toBin, sku := key.sku } (.received qty.1)
          split
          · next he' => rw [he'] at hb; exact hm.trans hb
          · next he' =>
            rw [he'] at hb
            exact ((hm.trans hb).tail (.setLots _ _)).tail (.logLot _ _)

theorem sections_transferLines (location toBin : Id Bin) (lines : List PalletLine) :
    Sections eng (transferLines location toBin lines eng).2 := by
  induction lines generalizing eng with
  | nil => exact .refl
  | cons line lines ih =>
    have ht := eng.sections_transferLot ⟨location, line.sku⟩ line.lot line.qty location toBin
    unfold transferLines
    split
    · next he => rw [he] at ht; exact ht
    · next he => rw [he] at ht; exact ht.trans (ih _)

theorem sections_reconcileLines (bin : Id Bin) (counted : StockKey → I64) (reason : Reason)
    (lines : List (Id Sku)) : Sections eng (reconcileLines bin counted reason lines eng).2 := by
  induction lines generalizing eng with
  | nil => exact .refl
  | cons sku lines ih =>
    simp only [reconcileLines]
    split
    · exact ih eng
    · have ha := eng.sections_append ⟨bin, sku⟩
        (.adjustment ⟨wrapI64 ((counted ⟨bin, sku⟩).1 - eng.onHand ⟨bin, sku⟩), le_wrapI64 _, wrapI64_lt _⟩ reason)
      split
      · next he => rw [apply] at he; rw [he] at ha; exact ha
      · next n mid he =>
        rw [apply] at he
        rw [he] at ha
        have hr := ih mid
        split
        · next he' => rw [he'] at hr; exact ha.trans hr
        · next he' => rw [he'] at hr; exact ha.trans hr

end InventoryEngine

end TptErp.Wms
