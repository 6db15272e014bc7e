import TptErp.Wms.StockLog

/-!
# Lots within their bin

The units of a key's lots are kept beside the key's quantity, and some calls know the quantity only:
`apply`, `apply_versioned` and the adjustments of a count.  The lots of a key stay within its quantity
(`Covered`) as long as these leave the lots' units in the bin (`lots_covered_iff`); the calls that know
the lots keep it so by themselves (`covered_lotCalls`).
-/

namespace TptErp.Wms

namespace InventoryEngine

variable {SHARDS : Nat}

/-- No key's lots have more units than the key. -/
def Covered (eng : InventoryEngine SHARDS) : Prop := ∀ key, (units (eng.lots key) : Int) ≤ eng.onHand key

/-- A movement that a section makes without a lot leaves the units of the key's lots. -/
def LeavesCovered (w : Int → Int) (eng : InventoryEngine SHARDS) (i : Instr) : Prop :=
  ∀ key delta, blindMove w eng i = some (key, delta) → (units (eng.lots key) : Int) ≤ w (eng.onHand key + delta)

theorem leavesCovered_of_none {w : Int → Int} {eng : InventoryEngine SHARDS} {i : Instr}
    (h : blindMove w eng i = none) : LeavesCovered w eng i := by
  intro key delta hb
  rw [h] at hb
  cases hb

theorem covered_new (shardIndex : StockKey → Fin SHARDS) : Covered (new shardIndex) := fun _ => le_rfl

section
variable {w : Int → Int} {eng eng' : InventoryEngine SHARDS}

/-- Only the one key has changed. -/
theorem covered_of_key (hc : Covered eng) (key : StockKey)
    (hlots : ∀ k, k ≠ key → eng'.lots k = eng.lots k) (hq : ∀ k, k ≠ key → eng'.onHand k = eng.onHand k)
    (hkey : (units (eng'.lots key) : Int) ≤ eng'.onHand key) : Covered eng' := by
  intro k
  by_cases hk : k = key
  · rw [hk]
    exact hkey
  · rw [hlots k hk, hq k hk]
    exact hc k

/-- Units that arrive raise the quantity by as many, and the lots by no more. -/
theorem covered_received (hw : QuantityArith w) (hs : Stocked w eng) (hc : Covered eng) {key : StockKey}
    {lot : LotNumber} {qty : U32} {expiry : Option Int} {serials : List SerialNumber}
    (floor : eng.Floor w key qty.1) :
    Covered (((eng.moveBy w key (.received qty.1) qty.1).setLots key
      (addToLot (eng.lots key) lot qty.1 expiry serials)).logLot key (.received lot qty.1 expiry serials)) := by
  apply covered_of_key hc key
  · intro k hk
    rw [lots_logLot, lots_setLots, if_neg hk, lots_moveBy]
  · intro k hk
    rw [onHand_logLot, onHand_setLots, onHand_moveBy, if_neg hk]
  · have hu := units_addToLot (eng.lots key) lot qty.1 expiry serials
    have hadd := hw.add _ qty.1 (hs key).1 (hs key).2 qty.2 floor
    have hkey := hc key
    rw [lots_logLot, lots_setLots, if_pos rfl, onHand_logLot, onHand_setLots, onHand_moveBy, if_pos rfl, hadd]
    omega

/-- A lot is lowered by what leaves the key, or by more. -/
theorem covered_updateLot (hc : Covered eng) {key : StockKey} {lot : LotNumber} {qty : Nat} {ld : LotDetail}
    (hf : findLot (eng.lots key) lot = some ld) (hq : qty ≤ ld.onHand)
    (hlots : ∀ k, eng'.lots k = if k = key then updateLot lot (fun ld => ld.take qty) (eng.lots key) else eng.lots k)
    (hne : ∀ k, k ≠ key → eng'.onHand k = eng.onHand k) (hkey : eng.onHand key - qty ≤ eng'.onHand key) :
    Covered eng' := by
  apply covered_of_key hc key
  · intro k hk
    rw [hlots, if_neg hk]
  · exact hne
  · have hu := units_updateLot hf hq
    have hck := hc key
    rw [hlots, if_pos rfl]
    omega

/-- The lots are lowered by the whole of a pick, the quantity by the consumptions that went through. -/
theorem covered_picked (hw : QuantityArith w) (hs : Stocked w eng) (hc : Covered eng) {key : StockKey} {qty : U32}
    {asOf : Int} (enough : qty.1 ≤ issuable (eng.lots key) asOf) {first rest : List LotConsumption}
    (split : (eng.pickTakes key qty.1 asOf).2 = first ++ rest)
    (picked : Picked w key first (eng.setLots key (eng.pickTakes key qty.1 asOf).1) eng') : Covered eng' := by
  have hsum := eng.consumed_pickTakes enough
  rw [split, consumed_append] at hsum
  apply covered_of_key hc key
  · intro k hk
    rw [picked_lots picked, lots_setLots, if_neg hk]
  · intro k hk
    rw [picked_onHand_ne picked hk, onHand_setLots]
  · have hu := eng.units_pickTakes enough
    have hlt := qty.2
    have hck := hc key
    have hq := picked_onHand hw picked (by omega) (by rw [onHand_setLots]; exact (hs key).1)
      (by rw [onHand_setLots]; exact (hs key).2)
    rw [picked_lots picked, lots_setLots, if_pos rfl, hq, onHand_setLots]
    omega

/-- Dropping the lots that have no units. -/
theorem covered_dropEmpty (hc : Covered eng) (key : StockKey) :
    Covered (eng.setLots key ((eng.lots key).filter fun l => 0 < l.onHand)) := by
  apply covered_of_key hc key
  · intro k hk
    rw [lots_setLots, if_neg hk]
  · intro k hk
    rw [onHand_setLots]
  · rw [lots_setLots, if_pos rfl, onHand_setLots, units_filter]
    exact hc key

/-- **One section** keeps the lots within their bins exactly when its movement without a lot leaves the
lots' units. -/
theorem covered_does (hw : QuantityArith w) (hs : Stocked w eng) (hc : Covered eng) {i : Instr} {more : List Instr}
    (hd : Does w eng i eng' more) : Covered eng' ↔ LeavesCovered w eng i := by
  cases hd with
  | stop plain blind => exact iff_of_true hc (leavesCovered_of_none blind)
  | goOn plain blind => exact iff_of_true hc (leavesCovered_of_none blind)
  | pallet lpn p more plain blind => exact iff_of_true hc (leavesCovered_of_none blind)
  | @blind i key m delta more plain blind logged next floor =>
    constructor
    · intro h key' delta' hb
      rw [blind] at hb
      cases hb
      have hk := h key
      rw [lots_moveBy, onHand_moveBy, if_pos rfl] at hk
      exact hk
    · intro h
      apply covered_of_key hc key
      · intro k _
        rw [lots_moveBy]
      · intro k hk
        rw [onHand_moveBy, if_neg hk]
      · rw [lots_moveBy, onHand_moveBy, if_pos rfl]
        exact h key delta blind
  | receiptRefused floor => exact iff_of_true hc (leavesCovered_of_none rfl)
  | received floor => exact iff_of_true (covered_received hw hs hc floor) (leavesCovered_of_none rfl)
  | pickRefused short => exact iff_of_true hc (leavesCovered_of_none rfl)
  | picked enough picked =>
    have h := covered_picked hw hs hc enough (List.append_nil _).symm picked
    exact iff_of_true (covered_dropEmpty h _) (leavesCovered_of_none rfl)
  | pickGivenUp first c rest enough split picked floor =>
    exact iff_of_true (covered_picked hw hs hc enough split picked) (leavesCovered_of_none rfl)
  | lotPickRefused refused => exact iff_of_true hc (leavesCovered_of_none rfl)
  | @lotPicked key lot qty asOf ld floor pickable =>
    refine iff_of_true ?_ (leavesCovered_of_none rfl)
    have hsub := hw.sub _ qty.1 (hs key).1 (hs key).2 qty.2
    apply covered_updateLot hc pickable.1 pickable.2.2
    · intro k
      rw [lots_setLots, lots_logLot, lots_moveBy]
    · intro k hk
      rw [onHand_setLots, onHand_logLot, onHand_moveBy, if_neg hk]
    · rw [onHand_setLots, onHand_logLot, onHand_moveBy, if_pos rfl, hsub]
  | departureRefused ld found enough floor =>
    refine iff_of_true ?_ (leavesCovered_of_none rfl)
    apply covered_updateLot hc found enough
    · intro k
      rw [lots_setLots]
    · intro k hk
      rw [onHand_setLots]
    · rw [onHand_setLots]
      omega
  | @departed lpn location toBin line todo ld found enough floor =>
    refine iff_of_true ?_ (leavesCovered_of_none rfl)
    have hsub := hw.sub _ line.qty.1 (hs ⟨location, line.sku⟩).1 (hs ⟨location, line.sku⟩).2 line.qty.2
    apply covered_updateLot hc found enough
    · intro k
      rw [lots_logLot, lots_moveBy, lots_setLots]
    · intro k hk
      rw [onHand_logLot, onHand_moveBy, if_neg hk, onHand_setLots]
    · rw [onHand_logLot, onHand_moveBy, if_pos rfl, onHand_setLots, hsub]
  | arrivalRefused floor => exact iff_of_true hc (leavesCovered_of_none rfl)
  | arrived floor => exact iff_of_true (covered_received hw hs hc floor) (leavesCovered_of_none rfl)
  | putSerials => exact iff_of_true hc (leavesCovered_of_none rfl)
  | removeSerials => exact iff_of_true hc (leavesCovered_of_none rfl)
  | registerMoved => exact iff_of_true hc (leavesCovered_of_none rfl)

theorem stocked_does (hw : QuantityArith w) (hs : Stocked w eng) {i : Instr} {more : List Instr}
    (hd : Does w eng i eng' more) : Stocked w eng' :=
  stocked_edits hw hs (edits_does hd)

end

/-- **The lots stay within their bins** in all states of a run of interleaved calls exactly when each
movement without a lot leaves the units of the key's lots. -/
theorem lots_covered_iff (shardIndex : StockKey → Fin SHARDS) (labels : List (Machine.Label Unit Op Unit)) :
    LabelledRun.AllStates (calls wrapI64 SHARDS).step (fun s => Covered s.core) { core := new shardIndex } labels ↔
      (calls wrapI64 SHARDS).RunDoes (fun eng i _ => LeavesCovered wrapI64 eng i) { core := new shardIndex } labels := by
  apply Machine.allStates_iff_allSteps (calls wrapI64 SHARDS) (Stocked wrapI64) (fun _ _ => True)
  · intro eng op _ i _
    trivial
  · intro eng e hs
    exact ⟨hs, List.forall_mem_nil _, fun _ _ => trivial⟩
  · intro eng i choice core more hs _ _ _ hi
    have hd := eng.does_exec wrapI64 i
    rw [Option.some.inj hi] at hd
    exact ⟨stocked_does quantityArith_wrapI64 hs hd, fun _ _ => trivial, fun _ _ => trivial⟩
  · intro eng e _ hc
    exact hc
  · intro eng i choice core more hs _ hc hi
    have hd := eng.does_exec wrapI64 i
    rw [Option.some.inj hi] at hd
    exact covered_does quantityArith_wrapI64 hs hc hd
  · exact stocked_new rfl shardIndex
  · exact covered_new shardIndex

/-- Ten units of a lot, five of which were adjusted away without the lot: it still says ten. -/
theorem adjusted_lot_not_covered : ¬ ∀ eng : InventoryEngine 1, Reachable eng → Covered eng := by
  intro h
  have hc := h adjustedDown ⟨_, _, rfl⟩ ⟨⟨0⟩, ⟨0⟩⟩
  have hu : units (adjustedDown.lots ⟨⟨0⟩, ⟨0⟩⟩) = 10 := by decide +kernel
  have hq : adjustedDown.onHand ⟨⟨0⟩, ⟨0⟩⟩ = 5 := by decide +kernel
  rw [hu, hq] at hc
  omega

/-! ## Calls that know the lots -/

def Op.lotAware : Op → Bool
  | .apply _ _ | .applyVersioned _ _ _ | .reconcileCount _ _ _ => false
  | _ => true

/-- `receive_lot`, `create_pallet`, the picks and `move_pallet`. -/
abbrev LotOp := { op : Op // op.lotAware = true }

/-- The calls that know the lots, interleaved. -/
def lotCalls (w : Int → Int) (SHARDS : Nat) : Machine (InventoryEngine SHARDS) Instr Unit LotOp Unit :=
  { prog := fun op => prog op.1, instr := fun eng i _ => some (exec w eng i), env := fun eng _ => eng }

theorem lotAware_prog (op : LotOp) : ∀ i ∈ prog op.1, i.lotAware = true := by
  obtain ⟨op, h⟩ := op
  intro i hi
  rw [start_of_mem_prog hi]
  cases op with
  | apply | applyVersioned | reconcileCount => cases h
  | _ => rfl

section
variable {w : Int → Int} {eng eng' : InventoryEngine SHARDS}

/-- A section that knows its lot goes on with such sections. -/
theorem lotAware_does {i : Instr} {more : List Instr} (h : i.lotAware = true) (hd : Does w eng i eng' more) :
    ∀ j ∈ more, j.lotAware = true := by
  cases hd with
  | goOn plain blind next aware => exact List.forall_mem_singleton.mpr (aware h)
  | pallet lpn p more plain blind next aware => exact aware
  | blind plain blind =>
    rw [eng.blindMove_of_lotAware w h] at blind
    cases blind
  | received => exact List.forall_mem_singleton.mpr rfl
  | picked => exact List.forall_mem_singleton.mpr rfl
  | lotPicked => exact List.forall_mem_singleton.mpr rfl
  | departed => exact List.forall_mem_singleton.mpr rfl
  | arrived => exact List.forall_mem_singleton.mpr rfl
  | registerMoved => exact List.forall_mem_singleton.mpr rfl
  | stop | receiptRefused | pickRefused | pickGivenUp | lotPickRefused | departureRefused | arrivalRefused |
    putSerials | removeSerials => exact List.forall_mem_nil _

/-- Units of the lots may leave a bin that covers its lots. -/
theorem floor_of_covered (hw : QuantityArith w) (hs : Stocked w eng) (hc : Covered eng) {key : StockKey} {qty : Nat}
    (hq : qty ≤ units (eng.lots key)) (hlt : qty < 2 ^ 32) : eng.Floor w key (-(qty : Int)) := by
  have hsub := hw.sub _ qty (hs key).1 (hs key).2 hlt
  have hk := hc key
  unfold Floor
  rw [hsub]
  omega

/-- A pick that the lots cover is not given up. -/
theorem not_givenUp (hw : QuantityArith w) (hs : Stocked w eng) (hc : Covered eng) {key : StockKey} {qty : U32}
    {asOf : Int} (enough : qty.1 ≤ issuable (eng.lots key) asOf) {first rest : List LotConsumption}
    {c : LotConsumption} (split : (eng.pickTakes key qty.1 asOf).2 = first ++ c :: rest)
    (picked : Picked w key first (eng.setLots key (eng.pickTakes key qty.1 asOf).1) eng') :
    eng'.Floor w key (-(c.qty : Int)) := by
  have hsum := eng.consumed_pickTakes enough
  rw [split, consumed_append] at hsum
  have hcons : consumed (c :: rest) = c.qty + consumed rest := rfl
  have hu := eng.units_pickTakes enough
  have hk := hc key
  have hlt := qty.2
  have hq := picked_onHand hw picked (by omega) (by rw [onHand_setLots]; exact (hs key).1)
    (by rw [onHand_setLots]; exact (hs key).2)
  rw [onHand_setLots] at hq
  have hs' := stocked_edits hw hs (Relation.ReflTransGen.head (.setLots key _) (edits_picked picked)) key
  have hsub := hw.sub _ c.qty hs'.1 hs'.2 (by omega)
  unfold Floor
  rw [hsub, hq]
  omega

theorem le_units_of_find {lots : List LotDetail} {lot : LotNumber} {ld : LotDetail}
    (h : findLot lots lot = some ld) : ld.onHand ≤ units lots := by
  have := units_updateLot h le_rfl
  omega

end

/-- What holds in every run of calls that know the lots. -/
structure LotsKept (eng : InventoryEngine SHARDS) : Prop where
  log : LogKept eng
  stocked : Stocked wrapI64 eng
  covered : Covered eng

theorem lotsKept_new (shardIndex : StockKey → Fin SHARDS) : LotsKept (new shardIndex) :=
  ⟨logKept_new shardIndex, stocked_new rfl shardIndex, covered_new shardIndex⟩

/-- The units of a lot may leave their bin. -/
theorem floor_of_found {eng : InventoryEngine SHARDS} (h : LotsKept eng) {key : StockKey} {lot : LotNumber}
    {ld : LotDetail} {qty : U32} (found : findLot (eng.lots key) lot = some ld) (enough : qty.1 ≤ ld.onHand) :
    eng.Floor wrapI64 key (-(qty.1 : Int)) :=
  floor_of_covered quantityArith_wrapI64 h.stocked h.covered (enough.trans (le_units_of_find found)) qty.2

theorem logKept_edits {w : Int → Int} {eng eng' : InventoryEngine SHARDS} (h : LogKept eng)
    (he : Edits w eng eng') : LogKept eng' := by
  induction he with
  | refl => exact h
  | tail _ h1 ih => exact logKept_edit ih h1

theorem lotsKept_does {eng eng' : InventoryEngine SHARDS} {i : Instr} {more : List Instr} (h : LotsKept eng)
    (hi : i.lotAware = true) (hd : Does wrapI64 eng i eng' more) : LotsKept eng' := by
  refine ⟨logKept_edits h.log (edits_does hd), stocked_does quantityArith_wrapI64 h.stocked hd, ?_⟩
  rw [covered_does quantityArith_wrapI64 h.stocked h.covered hd]
  exact leavesCovered_of_none (eng.blindMove_of_lotAware wrapI64 hi)

end InventoryEngine

end TptErp.Wms
