import TptErp.Wms.Sections
import TptErp.Lib.GroupBy
import TptErp.Ledger.EventStoreRuns

/-!
# Stock read back from the log

Every section is made of a few edits of the engine (`Edit`, `edits_does`), and an edit that changes a
quantity logs the movement.  So the log tells the quantities: `EventSourced` holds in every state that
interleaved calls reach (`stock_event_sourced`), and the version of a key tells whether its quantity
has changed (`optimistic_stock`).
-/

namespace TptErp.Wms

open Ledger

/-- The type tag an event is stored under. -/
def InventoryEvent.eventType : InventoryEvent → String
  | .movement _ => "movement"
  | .lot _ => "lot"

/-- `serde_json::from_value::<Movement>`. -/
def InventoryEvent.movement? : InventoryEvent → Option Movement
  | .movement m => some m
  | .lot _ => none

/-- `serde_json::from_value::<LotEvent>`. -/
def InventoryEvent.lot? : InventoryEvent → Option LotEvent
  | .movement _ => none
  | .lot e => some e

/-- The read model of on-hand quantities. -/
structure InventoryProjection where
  onHand : AssocMap StockKey Int := ∅

def InventoryProjection.apply (proj : InventoryProjection) (event : StockKey × Movement) : InventoryProjection :=
  { onHand := proj.onHand.insert event.1 (wrapI64 (AssocMap.getD proj.onHand event.1 0 + event.2.delta)) }

namespace InventoryEngine

variable {SHARDS : Nat}

section
variable (eng : InventoryEngine SHARDS)

/-- The logs of the shards, one after the other. -/
def allEvents : List (StoredEvent StockKey InventoryEvent) :=
  (List.finRange SHARDS).flatMap fun i => (eng.shards i).store.log

/-- The events of a type, read as that type (`none`: a payload could not be read). -/
def readEvents {P : Type} (eventType : String) (read : InventoryEvent → Option P)
    (events : List (StoredEvent StockKey InventoryEvent)) : Option (List (StockKey × P)) :=
  (events.filter fun e => e.eventType = eventType).mapM fun e =>
    (read e.payload).map fun p => (e.aggregateId, p)

def rebuildReadModels : Option (AssocMap StockKey Int) :=
  (readEvents "movement" InventoryEvent.movement? eng.allEvents).map fun events =>
    (events.foldl InventoryProjection.apply {}).onHand

/-- The logged events of a key. -/
def loggedEvents (key : StockKey) : List (StoredEvent StockKey InventoryEvent) :=
  eng.allEvents.filter fun e => e.aggregateId = key

/-- The logged movements of a key. -/
def movements (key : StockKey) : List Movement := (eng.loggedEvents key).filterMap fun e => e.payload.movement?

/-- The logged lot events of a key. -/
def lotEvents (key : StockKey) : List LotEvent := (eng.loggedEvents key).filterMap fun e => e.payload.lot?

/-- The sum of the deltas, wrapping after each of them. -/
def wrappingSum (ms : List Movement) : Int := ms.foldl (fun q m => wrapI64 (q + m.delta)) 0

/-- **Stock is event-sourced**: a key's quantity is not negative, it is the sum of the key's logged
deltas and what the replay of the log gives, and the key's version counts its events. -/
structure EventSourced : Prop where
  floor : ∀ key, 0 ≤ eng.onHand key
  sum : ∀ key, eng.onHand key = wrappingSum (eng.movements key)
  replay : ∃ proj, eng.rebuildReadModels = some proj ∧ ∀ key, AssocMap.getD proj key 0 = eng.onHand key
  version : ∀ key, eng.version key = (eng.loggedEvents key).length

end

/-! ## The log -/

/-- Every event is in the shard of its key, under the tag of its payload, and the events of a key are
numbered. -/
structure LogKept (eng : InventoryEngine SHARDS) : Prop where
  home : ∀ i, ∀ e ∈ (eng.shards i).store.log, eng.shardIndex e.aggregateId = i
  typed : ∀ i, ∀ e ∈ (eng.shards i).store.log, e.eventType = e.payload.eventType
  numbered : ∀ i, (eng.shards i).store.Numbered

theorem logKept_new (shardIndex : StockKey → Fin SHARDS) : LogKept (new shardIndex) := by
  refine ⟨?_, ?_, fun i => InMemoryEventStore.numbered_new⟩
  · intro i
    exact List.forall_mem_nil _
  · intro i
    exact List.forall_mem_nil _

theorem stream_eq_loggedEvents {eng : InventoryEngine SHARDS} (h : LogKept eng) (key : StockKey) :
    eng.loggedEvents key = (eng.shardOf key).store.stream key := by
  unfold loggedEvents allEvents
  rw [List.filter_flatMap]
  apply GroupBy.flatMap_eq_of_single (List.nodup_finRange SHARDS) (List.mem_finRange (eng.shardIndex key))
  intro j _ hj
  rw [List.filter_eq_nil_iff]
  intro e he hk
  apply hj
  rw [← h.home j e he, of_decide_eq_true hk]

theorem version_eq_length {eng : InventoryEngine SHARDS} (h : LogKept eng) (key : StockKey) :
    eng.version key = (eng.loggedEvents key).length := by
  rw [stream_eq_loggedEvents h]
  exact (InMemoryEventStore.length_stream (h.numbered _) key).symm

/-- Reading the events of a type never fails, and finds exactly these. -/
theorem readEvents_eq {P : Type} {eventType : String} {read : InventoryEvent → Option P}
    (hread : ∀ p, (read p).isSome ↔ p.eventType = eventType) {events : List (StoredEvent StockKey InventoryEvent)}
    (ht : ∀ e ∈ events, e.eventType = e.payload.eventType) :
    readEvents eventType read events =
      some (events.filterMap fun e => (read e.payload).map fun p => (e.aggregateId, p)) := by
  unfold readEvents
  induction events with
  | nil => rfl
  | cons e events ih =>
    have hrest := ih fun e' he' => ht e' (List.mem_cons_of_mem _ he')
    have he := ht e List.mem_cons_self
    cases hp : read e.payload with
    | none =>
      have hn : ¬ e.eventType = eventType := by
        intro h
        have hs := (hread e.payload).mpr (he.symm.trans h)
        rw [hp] at hs
        cases hs
      rw [List.filter_cons_of_neg (by simpa using hn), hrest, List.filterMap_cons, hp]
      rfl
    | some p =>
      have hy : e.eventType = eventType := he.trans ((hread e.payload).mp (by rw [hp]; rfl))
      rw [List.filter_cons_of_pos (by simpa using hy), List.mapM_cons, hrest, List.filterMap_cons, hp]
      rfl

/-- The events read for a key. -/
theorem filter_filterMap_read {P : Type} (read : InventoryEvent → Option P)
    (events : List (StoredEvent StockKey InventoryEvent)) (key : StockKey) :
    (events.filterMap fun e => (read e.payload).map fun p => (e.aggregateId, p)).filter (fun x => x.1 = key) =
      ((events.filter fun e => e.aggregateId = key).filterMap fun e => read e.payload).map fun p => (key, p) := by
  induction events with
  | nil => rfl
  | cons e events ih =>
    rw [List.filterMap_cons]
    by_cases hk : e.aggregateId = key
    · rw [List.filter_cons_of_pos (by simpa using hk), List.filterMap_cons]
      cases hp : read e.payload with
      | none => exact ih
      | some p =>
        simp only [Option.map_some, List.map_cons]
        rw [List.filter_cons_of_pos (by simpa using hk), ih, hk]
    · rw [List.filter_cons_of_neg (by simpa using hk)]
      cases hp : read e.payload with
      | none => exact ih
      | some p =>
        simp only [Option.map_some]
        rw [List.filter_cons_of_neg (by simpa using hk), ih]

theorem mem_allEvents {eng : InventoryEngine SHARDS} {e : StoredEvent StockKey InventoryEvent} :
    e ∈ eng.allEvents ↔ ∃ i, e ∈ (eng.shards i).store.log := by
  simp [allEvents]

theorem typed_allEvents {eng : InventoryEngine SHARDS} (h : LogKept eng) :
    ∀ e ∈ eng.allEvents, e.eventType = e.payload.eventType := by
  intro e he
  obtain ⟨i, hi⟩ := mem_allEvents.mp he
  exact h.typed i e hi

theorem isSome_movement? (p : InventoryEvent) : p.movement?.isSome ↔ p.eventType = "movement" := by
  cases p with
  | movement m => exact iff_of_true rfl rfl
  | lot e => exact iff_of_false (by simp [InventoryEvent.movement?]) (by simp [InventoryEvent.eventType])

theorem isSome_lot? (p : InventoryEvent) : p.lot?.isSome ↔ p.eventType = "lot" := by
  cases p with
  | movement m => exact iff_of_false (by simp [InventoryEvent.lot?]) (by simp [InventoryEvent.eventType])
  | lot e => exact iff_of_true rfl rfl

theorem onHand_foldl_apply (events : List (StockKey × Movement)) (proj : InventoryProjection) (key : StockKey) :
    AssocMap.getD (events.foldl InventoryProjection.apply proj).onHand key 0 =
      (events.filter fun e => e.1 = key).foldl (fun q e => wrapI64 (q + e.2.delta))
        (AssocMap.getD proj.onHand key 0) := by
  have hm : (events.foldl InventoryProjection.apply proj).onHand =
      events.foldl (fun m e => m.insert e.1 (wrapI64 (AssocMap.getD m e.1 0 + e.2.delta))) proj.onHand := by
    induction events generalizing proj with
    | nil => rfl
    | cons e events ih => exact ih _
  rw [hm]
  exact AssocMap.getD_foldl_insert (fun e : StockKey × Movement => e.1)
    (fun q e => wrapI64 (q + e.2.delta)) 0 events proj.onHand key

/-- The replay gives each key the sum of its logged deltas. -/
theorem rebuildReadModels_eq {eng : InventoryEngine SHARDS} (h : LogKept eng) :
    ∃ proj, eng.rebuildReadModels = some proj ∧
      ∀ key, AssocMap.getD proj key 0 = wrappingSum (eng.movements key) := by
  unfold rebuildReadModels
  rw [readEvents_eq isSome_movement? (typed_allEvents h)]
  refine ⟨_, rfl, ?_⟩
  intro key
  dsimp only
  rw [onHand_foldl_apply, filter_filterMap_read, List.foldl_map]
  rfl

/-! ## Edits -/

/-- One edit.  A movement is logged with the `i64` of its delta. -/
inductive Edit (w : Int → Int) (eng : InventoryEngine SHARDS) : InventoryEngine SHARDS → Prop
  | move (key : StockKey) (m : Movement) (delta : Int) (logged : wrapI64 m.delta = wrapI64 delta)
      (floor : 0 ≤ w (eng.onHand key + delta)) : Edit w eng (eng.move key m (w (eng.onHand key + delta)))
  | logLot (key : StockKey) (e : LotEvent) : Edit w eng (eng.logLot key e)
  | setLots (key : StockKey) (ls : List LotDetail) : Edit w eng (eng.setLots key ls)
  | putSerials (sns : List SerialNumber) (key : StockKey) (lot : LotNumber) :
      Edit w eng (eng.putSerials sns key lot)
  | removeSerials (sns : List SerialNumber) : Edit w eng (eng.removeSerials sns)
  | putPallet (lpn : LpnId) (p : Pallet) : Edit w eng (eng.putPallet lpn p)

/-- The second engine is left by edits of the first. -/
abbrev Edits (w : Int → Int) (eng eng' : InventoryEngine SHARDS) : Prop :=
  Relation.ReflTransGen (Edit w) eng eng'

theorem stocked_edit {w : Int → Int} (hw : QuantityArith w) {eng eng' : InventoryEngine SHARDS}
    (h : Stocked w eng) (he : Edit w eng eng') : Stocked w eng' := by
  intro k
  cases he with
  | move key m delta logged floor =>
    rw [onHand_move]
    split
    · exact ⟨floor, hw.idem _⟩
    · exact h k
  | logLot key e =>
    rw [onHand_logLot]
    exact h k
  | setLots key ls =>
    rw [onHand_setLots]
    exact h k
  | putSerials => exact h k
  | removeSerials => exact h k
  | putPallet => exact h k

theorem stocked_edits {w : Int → Int} (hw : QuantityArith w) {eng eng' : InventoryEngine SHARDS}
    (h : Stocked w eng) (he : Edits w eng eng') : Stocked w eng' := by
  induction he with
  | refl => exact h
  | tail _ h1 ih => exact stocked_edit hw ih h1

theorem edits_picked {w : Int → Int} {key : StockKey} {cs : List LotConsumption}
    {eng eng' : InventoryEngine SHARDS} (h : Picked w key cs eng eng') : Edits w eng eng' := by
  induction h with
  | nil eng => exact .refl
  | cons c floor rest ih =>
    exact (Relation.ReflTransGen.head (.move key (.picked c.qty) _ rfl floor) (.single (.logLot key _))).trans ih

/-- **Every section is made of edits.** -/
theorem edits_does {w : Int → Int} {eng eng' : InventoryEngine SHARDS} {i : Instr} {more : List Instr}
    (h : Does w eng i eng' more) : Edits w eng eng' := by
  cases h with
  | stop => exact .refl
  | goOn => exact .refl
  | pallet lpn p more => exact .single (.putPallet lpn p)
  | blind _ _ logged _ floor => exact .single (.move _ _ _ logged floor)
  | receiptRefused => exact .refl
  | @received key lot qty expiry serials floor =>
    have hm : Edits w eng (eng.moveBy w key (.received qty.1) qty.1) := .single (.move key _ _ rfl floor)
    exact (hm.tail (.setLots key _)).tail (.logLot key _)
  | pickRefused => exact .refl
  | @picked key qty asOf mid enough picked =>
    have hl : Edits w eng (eng.setLots key (eng.pickTakes key qty.1 asOf).1) := .single (.setLots key _)
    exact (hl.trans (edits_picked picked)).tail (.setLots key _)
  | @pickGivenUp key qty asOf mid first c rest enough split picked floor =>
    have hl : Edits w eng (eng.setLots key (eng.pickTakes key qty.1 asOf).1) := .single (.setLots key _)
    exact hl.trans (edits_picked picked)
  | lotPickRefused => exact .refl
  | @lotPicked key lot qty asOf ld floor pickable =>
    have hm : Edits w eng (eng.moveBy w key (.picked qty.1) (-(qty.1 : Int))) := .single (.move key _ _ rfl floor)
    exact (hm.tail (.logLot key _)).tail (.setLots key _)
  | departureRefused ld found enough floor => exact .single (.setLots _ _)
  | @departed lpn location toBin line todo ld found enough floor =>
    have hf : (eng.setLots ⟨location, line.sku⟩ (updateLot line.lot (fun ld => ld.take line.qty.1)
        (eng.lots ⟨location, line.sku⟩))).Floor w ⟨location, line.sku⟩ (-(line.qty.1 : Int)) := by
      rw [Floor, onHand_setLots]
      exact floor
    exact ((Relation.ReflTransGen.single (.setLots _ _)).tail (.move _ _ _ rfl hf)).tail (.logLot _ _)
  | arrivalRefused => exact .refl
  | @arrived lpn location toBin line expiry serials todo floor =>
    have hm : Edits w eng (eng.moveBy w ⟨toBin, line.sku⟩ (.received line.qty.1) line.qty.1) :=
      .single (.move _ _ _ rfl floor)
    exact (hm.tail (.setLots _ _)).tail (.logLot _ _)
  | putSerials serials key lot => exact .single (.putSerials serials key lot)
  | removeSerials serials => exact .single (.removeSerials serials)
  | registerMoved => exact .single (.putSerials _ _ _)

/-! ## What an edit logs -/

section
variable (eng : InventoryEngine SHARDS)

theorem shards_setShard (i : Fin SHARDS) (s : Shard) (j : Fin SHARDS) :
    (eng.setShard i s).shards j = if j = i then s else eng.shards j :=
  Function.update_apply _ _ _ _

/-- The event that is stored next for a key. -/
def nextEvent (key : StockKey) (p : InventoryEvent) : StoredEvent StockKey InventoryEvent :=
  (eng.shardOf key).store.stored { aggregateId := key, eventType := p.eventType, payload := p }

/-- The shard's log with one more event of the key. -/
def Logs (key : StockKey) (p : InventoryEvent) (s : Shard) : Prop :=
  s.store = ((eng.shardOf key).store.append { aggregateId := key, eventType := p.eventType, payload := p }).2

theorem logKept_setShard {key : StockKey} {p : InventoryEvent} {s : Shard} (h : LogKept eng)
    (hs : eng.Logs key p s) : LogKept (eng.setShard (eng.shardIndex key) s) := by
  have hlog : s.store.log = (eng.shardOf key).store.log ++ [eng.nextEvent key p] := by
    rw [hs, InMemoryEventStore.append_log]
    rfl
  constructor
  · intro i e he
    rw [shards_setShard] at he
    show eng.shardIndex e.aggregateId = i
    split at he
    · next hi =>
      rw [hlog, List.mem_append, List.mem_singleton] at he
      rcases he with he | rfl
      · rw [hi]
        exact h.home _ e he
      · exact hi.symm
    · exact h.home i e he
  · intro i e he
    rw [shards_setShard] at he
    split at he
    · rw [hlog, List.mem_append, List.mem_singleton] at he
      rcases he with he | rfl
      · exact h.typed _ e he
      · rfl
    · exact h.typed i e he
  · intro i
    rw [shards_setShard]
    split
    · rw [hs]
      exact InMemoryEventStore.numbered_append (h.numbered _) _
    · exact h.numbered i

theorem loggedEvents_setShard {key : StockKey} {p : InventoryEvent} {s : Shard} (h : LogKept eng)
    (hs : eng.Logs key p s) (k : StockKey) :
    (eng.setShard (eng.shardIndex key) s).loggedEvents k =
      if k = key then eng.loggedEvents k ++ [eng.nextEvent key p] else eng.loggedEvents k := by
  rw [stream_eq_loggedEvents (eng.logKept_setShard h hs), stream_eq_loggedEvents h, shardOf_setShard]
  by_cases hi : eng.shardIndex k = eng.shardIndex key
  · have hk : eng.shardOf k = eng.shardOf key := by rw [shardOf, shardOf, hi]
    rw [if_pos hi, hs, InMemoryEventStore.stream_append, hk]
    rfl
  · have hk : k ≠ key := fun hk => hi (by rw [hk])
    rw [if_neg hi, if_neg hk]

theorem version_setShard {key : StockKey} {p : InventoryEvent} {s : Shard} (hs : eng.Logs key p s) (k : StockKey) :
    (eng.setShard (eng.shardIndex key) s).version k = if k = key then eng.version k + 1 else eng.version k := by
  simp only [version, shardOf_setShard]
  by_cases hi : eng.shardIndex k = eng.shardIndex key
  · have hk : eng.shardOf k = eng.shardOf key := by rw [shardOf, shardOf, hi]
    rw [if_pos hi, hs, InMemoryEventStore.append_version, hk]
  · have hk : k ≠ key := fun hk => hi (by rw [hk])
    rw [if_neg hi, if_neg hk]

theorem allEvents_setLots (key : StockKey) (ls : List LotDetail) :
    (eng.setLots key ls).allEvents = eng.allEvents := by
  unfold allEvents
  simp only [log_setLots]

theorem logKept_setLots (key : StockKey) (ls : List LotDetail) (h : LogKept eng) :
    LogKept (eng.setLots key ls) := by
  constructor
  · intro i e he
    rw [log_setLots] at he
    exact h.home i e he
  · intro i e he
    rw [log_setLots] at he
    exact h.typed i e he
  · intro i
    rw [log_setLots]
    exact h.numbered i

theorem version_setLots (key : StockKey) (ls : List LotDetail) (k : StockKey) :
    (eng.setLots key ls).version k = eng.version k := by
  show ((eng.setLots key ls).shards (eng.shardIndex k)).store.version k = _
  rw [log_setLots]
  rfl

theorem logKept_move (key : StockKey) (m : Movement) (q : Int) (h : LogKept eng) : LogKept (eng.move key m q) :=
  eng.logKept_setShard (p := .movement m) h rfl

theorem logKept_logLot (key : StockKey) (e : LotEvent) (h : LogKept eng) : LogKept (eng.logLot key e) :=
  eng.logKept_setShard (p := .lot e) h rfl

theorem logKept_edit {w : Int → Int} {eng eng' : InventoryEngine SHARDS} (h : LogKept eng)
    (he : Edit w eng eng') : LogKept eng' := by
  cases he with
  | move key m delta => exact eng.logKept_move key m _ h
  | logLot key e => exact eng.logKept_logLot key e h
  | setLots key ls => exact eng.logKept_setLots key ls h
  | putSerials => exact ⟨h.home, h.typed, h.numbered⟩
  | removeSerials => exact ⟨h.home, h.typed, h.numbered⟩
  | putPallet => exact ⟨h.home, h.typed, h.numbered⟩

theorem loggedEvents_move (key : StockKey) (m : Movement) (q : Int) (h : LogKept eng) (k : StockKey) :
    (eng.move key m q).loggedEvents k =
      if k = key then eng.loggedEvents k ++ [eng.nextEvent key (.movement m)] else eng.loggedEvents k := by
  apply eng.loggedEvents_setShard h
  rfl

theorem loggedEvents_logLot (key : StockKey) (e : LotEvent) (h : LogKept eng) (k : StockKey) :
    (eng.logLot key e).loggedEvents k =
      if k = key then eng.loggedEvents k ++ [eng.nextEvent key (.lot e)] else eng.loggedEvents k := by
  apply eng.loggedEvents_setShard h
  rfl

/-- The movements logged for each key. -/
theorem movements_move (key : StockKey) (m : Movement) (q : Int) (h : LogKept eng) (k : StockKey) :
    (eng.move key m q).movements k = if k = key then eng.movements k ++ [m] else eng.movements k := by
  unfold movements
  rw [loggedEvents_move _ _ _ _ h]
  split
  · rw [List.filterMap_append]
    rfl
  · rfl

theorem movements_logLot (key : StockKey) (e : LotEvent) (h : LogKept eng) (k : StockKey) :
    (eng.logLot key e).movements k = eng.movements k := by
  unfold movements
  rw [loggedEvents_logLot _ _ _ h]
  split
  · rw [List.filterMap_append]
    exact List.append_nil _
  · rfl

theorem movements_setLots (key : StockKey) (ls : List LotDetail) (k : StockKey) :
    (eng.setLots key ls).movements k = eng.movements k := by
  unfold movements loggedEvents
  rw [allEvents_setLots]

/-- The lot events logged for each key. -/
theorem lotEvents_move (key : StockKey) (m : Movement) (q : Int) (h : LogKept eng) (k : StockKey) :
    (eng.move key m q).lotEvents k = eng.lotEvents k := by
  unfold lotEvents
  rw [loggedEvents_move _ _ _ _ h]
  split
  · rw [List.filterMap_append]
    exact List.append_nil _
  · rfl

theorem lotEvents_logLot (key : StockKey) (e : LotEvent) (h : LogKept eng) (k : StockKey) :
    (eng.logLot key e).lotEvents k = if k = key then eng.lotEvents k ++ [e] else eng.lotEvents k := by
  unfold lotEvents
  rw [loggedEvents_logLot _ _ _ h]
  split
  · rw [List.filterMap_append]
    rfl
  · rfl

theorem lotEvents_setLots (key : StockKey) (ls : List LotDetail) (k : StockKey) :
    (eng.setLots key ls).lotEvents k = eng.lotEvents k := by
  unfold lotEvents loggedEvents
  rw [allEvents_setLots]

theorem wrappingSum_concat (ms : List Movement) (m : Movement) :
    wrappingSum (ms ++ [m]) = wrapI64 (wrappingSum ms + m.delta) := by
  unfold wrappingSum
  rw [List.foldl_append]
  rfl

end

/-! ## Stock in step with the log -/

/-- What the edits keep: quantities fit, and are the sums of the logged movements. -/
structure Balanced (eng : InventoryEngine SHARDS) : Prop where
  log : LogKept eng
  floor : Stocked wrapI64 eng
  sum : ∀ key, eng.onHand key = wrappingSum (eng.movements key)

theorem balanced_new (shardIndex : StockKey → Fin SHARDS) : Balanced (new shardIndex) := by
  refine ⟨logKept_new shardIndex, stocked_new rfl shardIndex, ?_⟩
  intro key
  have hm : (new shardIndex).loggedEvents key = [] := by
    rw [stream_eq_loggedEvents (logKept_new shardIndex)]
    rfl
  unfold movements
  rw [hm]
  rfl

theorem balanced_edit {eng eng' : InventoryEngine SHARDS} (h : Balanced eng) (he : Edit wrapI64 eng eng') :
    Balanced eng' := by
  refine ⟨logKept_edit h.log he, stocked_edit quantityArith_wrapI64 h.floor he, ?_⟩
  intro k
  cases he with
  | move key m delta logged floor =>
    rw [onHand_move, movements_move _ _ _ _ h.log]
    split
    · next hk =>
      rw [wrappingSum_concat, ← h.sum, hk]
      -- the logged delta is the `i64` of the one that was added
      rw [← wrapI64_add_wrapI64 _ delta, ← logged, wrapI64_add_wrapI64]
    · exact h.sum k
  | logLot key e =>
    rw [onHand_logLot, movements_logLot _ _ _ h.log]
    exact h.sum k
  | setLots key ls =>
    rw [onHand_setLots, movements_setLots]
    exact h.sum k
  | putSerials => exact h.sum k
  | removeSerials => exact h.sum k
  | putPallet => exact h.sum k

theorem balanced_edits {eng eng' : InventoryEngine SHARDS} (h : Balanced eng) (he : Edits wrapI64 eng eng') :
    Balanced eng' := by
  induction he with
  | refl => exact h
  | tail _ h1 ih => exact balanced_edit ih h1

theorem eventSourced_of_balanced {eng : InventoryEngine SHARDS} (h : Balanced eng) : EventSourced eng := by
  refine ⟨fun key => (h.floor key).1, h.sum, ?_, version_eq_length h.log⟩
  obtain ⟨proj, hp, hq⟩ := rebuildReadModels_eq h.log
  exact ⟨proj, hp, fun key => (hq key).trans (h.sum key).symm⟩

/-- What a step of the interleaved calls does to the engine. -/
theorem edits_step {w : Int → Int} {s t : Machine.State (InventoryEngine SHARDS) Instr}
    {a : Machine.Label Unit Op Unit} (h : (calls w SHARDS).step s a = some t) : Edits w s.core t.core := by
  cases (calls w SHARDS).moves_of_step h with
  | spawn op => exact .refl
  | env e => exact .refl
  | @run th choice i rest more core next instr =>
    have hi : exec w s.core i = (core, more) := Option.some.inj instr
    have hd := s.core.does_exec w i
    rw [hi] at hd
    exact edits_does hd

/-- **Stock is event-sourced and never negative**, whatever the calls and however they interleave. -/
theorem stock_event_sourced (shardIndex : StockKey → Fin SHARDS) (labels : List (Machine.Label Unit Op Unit)) :
    LabelledRun.AllStates (calls wrapI64 SHARDS).step (fun s => s.core.EventSourced)
      { core := new shardIndex } labels := by
  have h : LabelledRun.AllStates (calls wrapI64 SHARDS).step (fun s => Balanced s.core)
      { core := new shardIndex } labels := by
    apply LabelledRun.allStates_of_step
    · intro s a t hs ht
      exact balanced_edits hs (edits_step ht)
    · exact balanced_new shardIndex
  exact h.mono _ fun s hs => eventSourced_of_balanced hs

/-! ## Versions -/

/-- Versions only grow, and a key at the same version has the same quantity. -/
def VersionLe (eng eng' : InventoryEngine SHARDS) : Prop :=
  ∀ key, eng.version key ≤ eng'.version key ∧
    (eng'.version key = eng.version key → eng'.onHand key = eng.onHand key)

theorem versionLe_refl (eng : InventoryEngine SHARDS) : VersionLe eng eng := fun _ => ⟨le_rfl, fun _ => rfl⟩

theorem versionLe_trans {eng mid eng' : InventoryEngine SHARDS} (h : VersionLe eng mid) (h' : VersionLe mid eng') :
    VersionLe eng eng' := by
  intro key
  obtain ⟨h1, h2⟩ := h key
  obtain ⟨h3, h4⟩ := h' key
  refine ⟨h1.trans h3, ?_⟩
  intro he
  rw [h4 (by omega), h2 (by omega)]

theorem version_move (eng : InventoryEngine SHARDS) (key : StockKey) (m : Movement) (q : Int) (k : StockKey) :
    (eng.move key m q).version k = if k = key then eng.version k + 1 else eng.version k := by
  apply eng.version_setShard
  · show eng.Logs key (.movement m) _
    rfl

theorem version_logLot (eng : InventoryEngine SHARDS) (key : StockKey) (e : LotEvent) (k : StockKey) :
    (eng.logLot key e).version k = if k = key then eng.version k + 1 else eng.version k := by
  apply eng.version_setShard
  · show eng.Logs key (.lot e) _
    rfl

/-- An edit that changes a quantity logs an event of its key. -/
theorem versionLe_edit {w : Int → Int} {eng eng' : InventoryEngine SHARDS} (he : Edit w eng eng') :
    VersionLe eng eng' := by
  intro k
  cases he with
  | move key m delta =>
    rw [version_move, onHand_move]
    by_cases hk : k = key
    · rw [if_pos hk]
      exact ⟨Nat.le_succ _, fun h => absurd h (Nat.succ_ne_self _)⟩
    · rw [if_neg hk, if_neg hk]
      exact ⟨le_rfl, fun _ => rfl⟩
  | logLot key e =>
    rw [version_logLot, onHand_logLot]
    by_cases hk : k = key
    · rw [if_pos hk]
      exact ⟨Nat.le_succ _, fun _ => rfl⟩
    · rw [if_neg hk]
      exact ⟨le_rfl, fun _ => rfl⟩
  | setLots key ls =>
    rw [version_setLots, onHand_setLots]
    exact ⟨le_rfl, fun _ => rfl⟩
  | putSerials => exact ⟨le_rfl, fun _ => rfl⟩
  | removeSerials => exact ⟨le_rfl, fun _ => rfl⟩
  | putPallet => exact ⟨le_rfl, fun _ => rfl⟩

theorem versionLe_edits {w : Int → Int} {eng eng' : InventoryEngine SHARDS} (he : Edits w eng eng') :
    VersionLe eng eng' := by
  induction he with
  | refl => exact versionLe_refl eng
  | tail _ h1 ih => exact versionLe_trans ih (versionLe_edit h1)

/-- Along a run of interleaved calls. -/
theorem versionLe_exec {w : Int → Int} {s t : Machine.State (InventoryEngine SHARDS) Instr}
    {labels : List (Machine.Label Unit Op Unit)}
    (h : LabelledRun.exec (calls w SHARDS).step s labels = some t) : VersionLe s.core t.core := by
  apply LabelledRun.rel_of_exec (calls w SHARDS).step (R := fun s t => VersionLe s.core t.core) _ _ _ h
  · intro s
    exact versionLe_refl s.core
  · intro s t u h h'
    exact versionLe_trans h h'
  · intro s a t ht
    exact versionLe_edits (edits_step ht)

theorem stocked_exec {s : Machine.State (InventoryEngine SHARDS) Instr} {shardIndex : StockKey → Fin SHARDS}
    {labels : List (Machine.Label Unit Op Unit)}
    (h : LabelledRun.exec (calls wrapI64 SHARDS).step { core := new shardIndex } labels = some s) :
    Stocked wrapI64 s.core := by
  have hall : LabelledRun.AllStates (calls wrapI64 SHARDS).step (fun s => Stocked wrapI64 s.core)
      { core := new shardIndex } labels := by
    apply LabelledRun.allStates_of_step
    · intro s a t hs ht
      exact stocked_edits quantityArith_wrapI64 hs (edits_step ht)
    · exact stocked_new rfl shardIndex
  exact hall.last _ h

end InventoryEngine

/-- A quantity of the movement is a `u32`. -/
def Movement.Fits : Movement → Prop
  | .received q => q < 2 ^ 32
  | .picked q => q < 2 ^ 32
  | .adjusted _ => True
  | .adjustment _ _ => True

theorem delta_fits {m : Movement} (h : m.Fits) : -2 ^ 63 ≤ m.delta ∧ m.delta < 2 ^ 63 := by
  cases m with
  | received q =>
    have : q < 2 ^ 32 := h
    show -2 ^ 63 ≤ (q : Int) ∧ (q : Int) < 2 ^ 63
    omega
  | picked q =>
    have : q < 2 ^ 32 := h
    show -2 ^ 63 ≤ -(q : Int) ∧ -(q : Int) < 2 ^ 63
    omega
  | adjusted d => exact d.2
  | adjustment d r => exact d.2

namespace InventoryEngine

variable {SHARDS : Nat}

/-- A call is about to carry out a guarded movement, and the engine accepts it with the quantity `n`. -/
def Accepts (s : Machine.State (InventoryEngine SHARDS) Instr) (th : Nat) (key : StockKey) (m : Movement)
    (expectedVersion : Nat) (n : Int) : Prop :=
  Machine.Next s th (.applyVersioned key m expectedVersion) ∧
    (applyVersionedWith wrapI64 s.core key m expectedVersion).1 = .ok n

/-- An accepted movement names the key's next version, and adds its delta. -/
theorem accepts_step {s t : Machine.State (InventoryEngine SHARDS) Instr} {th v : Nat} {key : StockKey}
    {m : Movement} {n : Int} (h : Accepts s th key m v n)
    (ht : (calls wrapI64 SHARDS).step s (.run th ()) = some t) :
    v = s.core.version key + 1 ∧ t.core.version key = v ∧ t.core.onHand key = n ∧
      0 ≤ n ∧ n = wrapI64 (s.core.onHand key + m.delta) := by
  obtain ⟨⟨rest, hth⟩, hok⟩ := h
  rcases s.core.applyVersionedWith_cases wrapI64 key m v with ⟨-, e, he⟩ | ⟨⟨h0, hv⟩, he⟩
  · rw [he] at hok
    cases hok
  · rw [he] at hok
    obtain rfl := Except.ok.inj hok
    have hi : exec wrapI64 s.core (.applyVersioned key m v) =
        (s.core.move key m (wrapI64 (s.core.onHand key + m.delta)), []) := by
      simp only [exec, he, continueWith]
      rfl
    rw [(calls wrapI64 SHARDS).step_run hth (congrArg some hi)] at ht
    obtain rfl := Option.some.inj ht
    refine ⟨hv, ?_, ?_, h0, rfl⟩
    · show (s.core.move key m _).version key = v
      rw [version_move, if_pos rfl, hv]
    · show (s.core.move key m _).onHand key = _
      rw [onHand_move, if_pos rfl]

/-- **Optimistic concurrency on stock is sound.**  In a run of interleaved calls, let a client read a
key's version `v`, then its quantity `q`, and let its later movement at version `v + 1` be accepted:
the key then has `q` plus the movement's delta.  And of the movements of a key at one version, no two
are accepted. -/
theorem optimistic_stock (shardIndex : StockKey → Fin SHARDS) (key : StockKey) :
    (∀ (before between after : List (Machine.Label Unit Op Unit))
        (s₁ s₂ s₃ t : Machine.State (InventoryEngine SHARDS) Instr) (m : Movement) (th : Nat) (v : Nat) (q n : Int),
      LabelledRun.exec (calls wrapI64 SHARDS).step { core := new shardIndex } before = some s₁ →
      s₁.core.version key = v →
      LabelledRun.exec (calls wrapI64 SHARDS).step s₁ between = some s₂ →
      s₂.core.onHand key = q →
      LabelledRun.exec (calls wrapI64 SHARDS).step s₂ after = some s₃ →
      m.Fits → Accepts s₃ th key m (v + 1) n →
      (calls wrapI64 SHARDS).step s₃ (.run th ()) = some t →
      n = q + m.delta ∧ t.core.onHand key = q + m.delta) ∧
    ∀ (before between : List (Machine.Label Unit Op Unit))
        (s₁ t₁ s₂ : Machine.State (InventoryEngine SHARDS) Instr) (m m' : Movement) (th th' v : Nat) (n n' : Int),
      LabelledRun.exec (calls wrapI64 SHARDS).step { core := new shardIndex } before = some s₁ →
      Accepts s₁ th key m v n → (calls wrapI64 SHARDS).step s₁ (.run th ()) = some t₁ →
      LabelledRun.exec (calls wrapI64 SHARDS).step t₁ between = some s₂ →
      ¬ Accepts s₂ th' key m' v n' := by
  constructor
  · intro before between after s₁ s₂ s₃ t m th v q n h1 hv h2 hq h3 hm ha ht
    obtain ⟨hver, -, hn, h0, hsum⟩ := accepts_step ha ht
    -- the key is still at the version that was read, so its quantity is the one read after it
    obtain ⟨hle1, -⟩ := versionLe_exec h2 key
    obtain ⟨hle2, hsame⟩ := versionLe_exec h3 key
    have hq3 : s₃.core.onHand key = q := by
      rw [hsame (by omega), hq]
    have hpre : LabelledRun.exec (calls wrapI64 SHARDS).step { core := new shardIndex }
        (before ++ (between ++ after)) = some s₃ := by
      rw [LabelledRun.exec_append, h1, Option.bind_some, LabelledRun.exec_append, h2]
      exact h3
    obtain ⟨hq0, hqw⟩ := stocked_exec hpre key
    have hq1 := lt_of_wrapI64_eq hqw
    obtain ⟨hd0, hd1⟩ := delta_fits hm
    have hexact : n = q + m.delta := by
      rw [hq3] at hsum hq0 hq1
      rcases lt_or_ge (q + m.delta) (2 ^ 63) with hlt | hge
      · rw [hsum, wrapI64_of_lt (by omega) hlt]
      · have hneg : wrapI64 (q + m.delta) < 0 := wrapI64_neg hge (by omega)
        omega
    exact ⟨hexact, hn.trans hexact⟩
  · intro before between s₁ t₁ s₂ m m' th th' v n n' h1 ha ht h2 ha'
    obtain ⟨-, hv, -⟩ := accepts_step ha ht
    obtain ⟨hle, -⟩ := versionLe_exec h2 key
    obtain ⟨⟨rest, hth⟩, -⟩ := id ha'
    have hi : (calls wrapI64 SHARDS).instr s₂.core (.applyVersioned key m' v) () =
        some (exec wrapI64 s₂.core (.applyVersioned key m' v)) := rfl
    have hstep := (calls wrapI64 SHARDS).step_run hth hi
    obtain ⟨hv', -⟩ := accepts_step ha' hstep
    omega

/-- Ten units were received. -/
def tenReceived : InventoryEngine 64 := (new fun key => mod64 key.sku.uuid).move ⟨⟨0⟩, ⟨0⟩⟩ (.received 10) 10

/-- A client reads version 1 and ten units, and takes three of them at version 2. -/
theorem three_taken_at_version :
    (7 : Int) = 10 + (Movement.picked 3).delta ∧
      (tenReceived.move ⟨⟨0⟩, ⟨0⟩⟩ (.picked 3) 7).onHand ⟨⟨0⟩, ⟨0⟩⟩ = 10 + (Movement.picked 3).delta :=
  (optimistic_stock (fun key => mod64 key.sku.uuid) ⟨⟨0⟩, ⟨0⟩⟩).1
    [.spawn (.apply ⟨⟨0⟩, ⟨0⟩⟩ (.received 10)), .run 0 ()] []
    [.spawn (.applyVersioned ⟨⟨0⟩, ⟨0⟩⟩ (.picked 3) 2)]
    { core := tenReceived, threads := [[]] } { core := tenReceived, threads := [[]] }
    { core := tenReceived, threads := [[], [.applyVersioned ⟨⟨0⟩, ⟨0⟩⟩ (.picked 3) 2]] }
    { core := tenReceived.move ⟨⟨0⟩, ⟨0⟩⟩ (.picked 3) 7, threads := [[], []] }
    (.picked 3) 1 1 10 7 rfl (by decide +kernel) rfl (by decide +kernel) rfl (by show 3 < 2 ^ 32; omega)
    ⟨⟨[], rfl⟩, by decide +kernel⟩ rfl

end InventoryEngine

end TptErp.Wms
