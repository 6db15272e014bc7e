import TptErp.Wms.Calls

/-!
# What a section can do

For each section that holds a shard's lock, its possible results: refused with the engine as it was,
or carried out, or given up on the way.  Everything that is proved about interleaved calls goes through
these lemmas.
-/

namespace TptErp.Wms

/-- The arithmetic of on-hand quantities.  A sum of a quantity and fewer than 2^32 units is exact when
it is not negative, and so is a difference. -/
structure QuantityArith (w : Int → Int) : Prop where
  idem : ∀ x, w (w x) = w x
  add : ∀ q (n : Nat), 0 ≤ q → w q = q → n < 2 ^ 32 → 0 ≤ w (q + n) → w (q + n) = q + n
  sub : ∀ q (n : Nat), 0 ≤ q → w q = q → n < 2 ^ 32 → w (q + -(n : Int)) = q - n

theorem quantityArith_id : QuantityArith id :=
  ⟨fun _ => rfl, fun _ _ _ _ _ _ => rfl, fun _ _ _ _ _ => rfl⟩

theorem lt_of_wrapI64_eq {q : Int} (h : wrapI64 q = q) : q < 2 ^ 63 := by
  rw [← h]
  exact wrapI64_lt q

theorem quantityArith_wrapI64 : QuantityArith wrapI64 := by
  constructor
  · intro x
    exact wrapI64_of_lt (le_wrapI64 x) (wrapI64_lt x)
  · intro q n h0 hq hn hs
    have hlt := lt_of_wrapI64_eq hq
    rcases lt_or_ge (q + (n : Int)) (2 ^ 63) with h | h
    · exact wrapI64_of_lt (by omega) h
    · have hneg : wrapI64 (q + n) < 0 := wrapI64_neg h (by omega)
      omega
  · intro q n h0 hq hn
    have hlt := lt_of_wrapI64_eq hq
    rw [wrapI64_of_lt (by omega) (by omega)]
    omega

namespace InventoryEngine

variable {SHARDS : Nat} {w : Int → Int}

/-- On-hand quantities are not negative, and fit. -/
def Stocked (w : Int → Int) (eng : InventoryEngine SHARDS) : Prop :=
  ∀ key, 0 ≤ eng.onHand key ∧ w (eng.onHand key) = eng.onHand key

theorem stocked_new (h0 : w 0 = 0) (shardIndex : StockKey → Fin SHARDS) : Stocked w (new shardIndex) :=
  fun _ => ⟨le_rfl, h0⟩

/-- The engine after a movement of `delta`. -/
def moveBy (w : Int → Int) (eng : InventoryEngine SHARDS) (key : StockKey) (m : Movement) (delta : Int) :
    InventoryEngine SHARDS :=
  eng.move key m (w (eng.onHand key + delta))

/-- The floor check of a movement of `delta`. -/
def Floor (w : Int → Int) (eng : InventoryEngine SHARDS) (key : StockKey) (delta : Int) : Prop :=
  0 ≤ w (eng.onHand key + delta)

instance (w : Int → Int) (eng : InventoryEngine SHARDS) (key : StockKey) (delta : Int) :
    Decidable (eng.Floor w key delta) :=
  Int.decLe _ _

/-- The log and the quantity of a key after a list of consumptions. -/
inductive Picked (w : Int → Int) (key : StockKey) :
    List LotConsumption → InventoryEngine SHARDS → InventoryEngine SHARDS → Prop
  | nil (eng : InventoryEngine SHARDS) : Picked w key [] eng eng
  | cons {eng eng' : InventoryEngine SHARDS} (c : LotConsumption) {cs : List LotConsumption}
      (floor : eng.Floor w key (-(c.qty : Int)))
      (rest : Picked w key cs ((eng.moveBy w key (.picked c.qty) (-(c.qty : Int))).logLot key
        (.picked c.lot c.qty c.serials)) eng') :
      Picked w key (c :: cs) eng eng'

section
variable (w : Int → Int) (eng : InventoryEngine SHARDS)

/-- A movement passes the floor check, or nothing happens. -/
theorem appendWith_cases (key : StockKey) (m : Movement) (delta : Int) :
    (¬ eng.Floor w key delta ∧ ∃ e, appendWith w eng key m delta = (.error e, eng)) ∨
    (eng.Floor w key delta ∧ ∃ n, appendWith w eng key m delta = (.ok n, eng.moveBy w key m delta)) := by
  simp only [appendWith]
  split
  · next h => exact Or.inl ⟨not_le.mpr h, _, rfl⟩
  · next h => exact Or.inr ⟨not_lt.mp h, _, rfl⟩

/-- A guarded movement needs the key's next version too. -/
theorem applyVersionedWith_cases (key : StockKey) (m : Movement) (v : Nat) :
    (¬ (eng.Floor w key m.delta ∧ v = eng.version key + 1) ∧
      ∃ e, applyVersionedWith w eng key m v = (.error e, eng)) ∨
    ((eng.Floor w key m.delta ∧ v = eng.version key + 1) ∧
      applyVersionedWith w eng key m v = (.ok (w (eng.onHand key + m.delta)), eng.moveBy w key m m.delta)) := by
  simp only [applyVersionedWith, Ledger.InMemoryEventStore.appendVersioned_eq]
  split
  · next h => exact Or.inl ⟨fun hf => absurd hf.1 (not_le.mpr h), _, rfl⟩
  · next h =>
    by_cases hv : v = (eng.shardOf key).store.version key + 1
    · rw [if_pos hv]
      exact Or.inr ⟨⟨not_lt.mp h, hv⟩, rfl⟩
    · rw [if_neg hv]
      exact Or.inl ⟨fun hf => hv hf.2, _, rfl⟩

theorem receiveSection_cases (key : StockKey) (lot : LotNumber) (qty : U32) (expiry : Option Int)
    (serials : List SerialNumber) :
    (¬ eng.Floor w key qty.1 ∧ ∃ e, receiveSection w eng key lot qty expiry serials = (.error e, eng)) ∨
    (eng.Floor w key qty.1 ∧ ∃ n, receiveSection w eng key lot qty expiry serials =
      (.ok n, ((eng.moveBy w key (.received qty.1) qty.1).setLots key
        (addToLot (eng.lots key) lot qty.1 expiry serials)).logLot key (.received lot qty.1 expiry serials))) := by
  unfold receiveSection
  rcases eng.appendWith_cases w key (.received qty.1) qty.1 with ⟨hf, e, he⟩ | ⟨hf, n, he⟩
  · rw [he]
    exact Or.inl ⟨hf, e, rfl⟩
  · rw [he]
    refine Or.inr ⟨hf, n, ?_⟩
    simp only [moveBy, lots_move]

/-- The consumptions of a pick go through, or all before one that the floor check refuses. -/
theorem pickEventsWith_cases (key : StockKey) (cs : List LotConsumption) :
    (∃ eng', Picked w key cs eng eng' ∧ pickEventsWith w key cs eng = (.ok (), eng')) ∨
    (∃ first c rest eng' e, cs = first ++ c :: rest ∧ Picked w key first eng eng' ∧
      ¬ eng'.Floor w key (-(c.qty : Int)) ∧ pickEventsWith w key cs eng = (.error e, eng')) := by
  induction cs generalizing eng with
  | nil => exact Or.inl ⟨eng, .nil eng, rfl⟩
  | cons c cs ih =>
    unfold pickEventsWith
    rcases eng.appendWith_cases w key (.picked c.qty) (-(c.qty : Int)) with ⟨hf, e, he⟩ | ⟨hf, n, he⟩
    · rw [he]
      exact Or.inr ⟨[], c, cs, eng, e, rfl, .nil eng, hf, rfl⟩
    · rw [he]
      rcases ih ((eng.moveBy w key (.picked c.qty) (-(c.qty : Int))).logLot key (.picked c.lot c.qty c.serials)) with
        ⟨eng', hp, hr⟩ | ⟨first, d, rest, eng', e, rfl, hp, hd, hr⟩
      · exact Or.inl ⟨eng', .cons c hf hp, hr⟩
      · exact Or.inr ⟨c :: first, d, rest, eng', e, rfl, .cons c hf hp, hd, hr⟩

/-- What a pick takes: the lots left, and the consumptions. -/
def pickTakes (key : StockKey) (qty : Nat) (asOf : Int) : List LotDetail × List LotConsumption :=
  takePlan (eng.lots key) (planLoop (pickCandidates (eng.lots key) asOf) qty).1

/-- A pick is refused when the lots do not cover it.  Otherwise the lots are lowered; and the
consumptions go through, or all before one that the floor check refuses. -/
theorem pickSection_cases (key : StockKey) (qty : U32) (asOf : Int) :
    (issuable (eng.lots key) asOf < qty.1 ∧ ∃ e, pickSection w eng key qty asOf = (.error e, eng)) ∨
    (qty.1 ≤ issuable (eng.lots key) asOf ∧ ∃ eng',
      Picked w key (eng.pickTakes key qty.1 asOf).2 (eng.setLots key (eng.pickTakes key qty.1 asOf).1) eng' ∧
      pickSection w eng key qty asOf = (.ok (eng.pickTakes key qty.1 asOf).2,
        eng'.setLots key ((eng'.lots key).filter fun l => 0 < l.onHand))) ∨
    (qty.1 ≤ issuable (eng.lots key) asOf ∧ ∃ first c rest eng' e,
      (eng.pickTakes key qty.1 asOf).2 = first ++ c :: rest ∧
      Picked w key first (eng.setLots key (eng.pickTakes key qty.1 asOf).1) eng' ∧
      ¬ eng'.Floor w key (-(c.qty : Int)) ∧ pickSection w eng key qty asOf = (.error e, eng')) := by
  unfold pickSection
  rcases buildPickPlan_cases (eng.lots key) qty.1 asOf key with ⟨hlt, e, he⟩ | ⟨hle, -, he⟩
  · rw [he]
    exact Or.inl ⟨hlt, e, rfl⟩
  · rw [he]
    rcases (eng.setLots key (eng.pickTakes key qty.1 asOf).1).pickEventsWith_cases w key
        (eng.pickTakes key qty.1 asOf).2 with ⟨eng', hp, hr⟩ | ⟨first, c, rest, eng', e, hs, hp, hd, hr⟩
    · refine Or.inr (Or.inl ⟨hle, eng', hp, ?_⟩)
      simp only [pickTakes] at hr ⊢
      rw [hr]
    · refine Or.inr (Or.inr ⟨hle, first, c, rest, eng', e, hs, hp, hd, ?_⟩)
      simp only [pickTakes] at hr ⊢
      rw [hr]

/-- The lot that a pick from a lot may take from: it is not expired, and has the units. -/
def PickableLot (key : StockKey) (lot : LotNumber) (qty : Nat) (asOf : Int) (ld : LotDetail) : Prop :=
  findLot (eng.lots key) lot = some ld ∧ ld.issuableOn asOf = true ∧ qty ≤ ld.onHand

theorem pickFromLotSection_cases (key : StockKey) (lot : LotNumber) (qty : U32) (asOf : Int) :
    (¬ (eng.Floor w key (-(qty.1 : Int)) ∧ ∃ ld, eng.PickableLot key lot qty.1 asOf ld) ∧
      ∃ e, pickFromLotSection w eng key lot qty asOf = (.error e, eng)) ∨
    (eng.Floor w key (-(qty.1 : Int)) ∧ ∃ ld, eng.PickableLot key lot qty.1 asOf ld ∧
      pickFromLotSection w eng key lot qty asOf = (.ok (ld.takenSerials qty.1),
        ((eng.moveBy w key (.picked qty.1) (-(qty.1 : Int))).logLot key
          (.picked lot qty.1 (ld.takenSerials qty.1))).setLots key
            (updateLot lot (fun ld => ld.take qty.1) (eng.lots key)))) := by
  unfold pickFromLotSection
  cases hf : findLot (eng.lots key) lot with
  | none =>
    refine Or.inl ⟨?_, _, rfl⟩
    rintro ⟨-, ld, hld, -⟩
    rw [hf] at hld
    cases hld
  | some ld =>
    have huniq : ∀ ld', eng.PickableLot key lot qty.1 asOf ld' → ld' = ld := by
      rintro ld' ⟨hld, -⟩
      rw [hf] at hld
      exact (Option.some.inj hld).symm
    dsimp only
    split
    · next hx =>
      refine Or.inl ⟨?_, _, rfl⟩
      rintro ⟨-, ld', hld⟩
      obtain rfl := huniq ld' hld
      have hi := hld.2.1
      unfold LotDetail.issuableOn at hi
      cases he : ld'.expiry with
      | none =>
        rw [he] at hx
        cases hx
      | some e =>
        rw [he] at hx hi
        simp only [Option.any_some, Option.all_some, decide_eq_true_eq] at hx hi
        omega
    · next hx =>
      split
      · next hq =>
        refine Or.inl ⟨?_, _, rfl⟩
        rintro ⟨-, ld', hld⟩
        obtain rfl := huniq ld' hld
        exact absurd hld.2.2 (by omega)
      · next hq =>
        rcases eng.appendWith_cases w key (.picked qty.1) (-(qty.1 : Int)) with ⟨hl, e, he⟩ | ⟨hl, n, he⟩
        · rw [he]
          exact Or.inl ⟨fun h => hl h.1, e, rfl⟩
        · rw [he]
          refine Or.inr ⟨hl, ld, ⟨hf, ?_, not_lt.mp hq⟩, ?_⟩
          · unfold LotDetail.issuableOn
            cases he : ld.expiry with
            | none => rfl
            | some e =>
              rw [he] at hx
              simp only [Option.any_some, Option.all_some, decide_eq_true_eq] at hx ⊢
              omega
          · simp only [moveBy, lots_logLot, lots_move]

/-- The units leave their lot, whether or not the floor check lets them leave the bin. -/
theorem transferOut_cases (key : StockKey) (lot : LotNumber) (qty : U32) (fromBin toBin : Id Bin) :
    (∃ e, transferOut w eng key lot qty fromBin toBin = (.error e, eng)) ∨
    (∃ ld, findLot (eng.lots key) lot = some ld ∧ qty.1 ≤ ld.onHand ∧ ¬ eng.Floor w key (-(qty.1 : Int)) ∧
      ∃ e, transferOut w eng key lot qty fromBin toBin =
        (.error e, eng.setLots key (updateLot lot (fun ld => ld.take qty.1) (eng.lots key)))) ∨
    (∃ ld, findLot (eng.lots key) lot = some ld ∧ qty.1 ≤ ld.onHand ∧ eng.Floor w key (-(qty.1 : Int)) ∧
      transferOut w eng key lot qty fromBin toBin = (.ok (ld.takenSerials qty.1, ld.expiry),
        ((eng.setLots key (updateLot lot (fun ld => ld.take qty.1) (eng.lots key))).moveBy w key
          (.picked qty.1) (-(qty.1 : Int))).logLot key
            (.transferred lot qty.1 fromBin toBin (ld.takenSerials qty.1)))) := by
  unfold transferOut
  cases hf : findLot (eng.lots key) lot with
  | none => exact Or.inl ⟨_, rfl⟩
  | some ld =>
    dsimp only
    split
    · exact Or.inl ⟨_, rfl⟩
    · next hq =>
      have hfloor : (eng.setLots key (updateLot lot (fun ld => ld.take qty.1) (eng.lots key))).Floor w key
          (-(qty.1 : Int)) ↔ eng.Floor w key (-(qty.1 : Int)) := by
        rw [Floor, Floor, onHand_setLots]
      rcases (eng.setLots key (updateLot lot (fun ld => ld.take qty.1) (eng.lots key))).appendWith_cases w key
          (.picked qty.1) (-(qty.1 : Int)) with ⟨hl, e, he⟩ | ⟨hl, n, he⟩
      · rw [he]
        exact Or.inr (Or.inl ⟨ld, rfl, not_lt.mp hq, fun h => hl (hfloor.mpr h), e, rfl⟩)
      · rw [he]
        exact Or.inr (Or.inr ⟨ld, rfl, not_lt.mp hq, hfloor.mp hl, rfl⟩)

end

/-! ## One section -/

/-- Nothing is under way with this section: no serials to register or to forget, no units in transit. -/
def Instr.plain : Instr → Bool
  | .putSerials _ _ _ | .removeSerials _ | .registerMoved _ _ _ _ _ _ _ | .transferIn _ _ _ _ _ _ _ => false
  | _ => true

/-- The section knows the lots that its movement is about. -/
def Instr.lotAware : Instr → Bool
  | .apply _ _ | .applyVersioned _ _ _ | .countLine _ _ _ _ | .adjust _ _ _ _ _ _ => false
  | _ => true

/-- The movement that a section makes without a lot, where it goes through: its key and its delta. -/
def blindMove (w : Int → Int) (eng : InventoryEngine SHARDS) : Instr → Option (StockKey × Int)
  | .apply key m => if 0 ≤ w (eng.onHand key + m.delta) then some (key, m.delta) else none
  | .applyVersioned key m v =>
    if 0 ≤ w (eng.onHand key + m.delta) ∧ v = eng.version key + 1 then some (key, m.delta) else none
  | .adjust bin _ _ sku delta _ =>
    if 0 ≤ w (eng.onHand ⟨bin, sku⟩ + delta) then some (⟨bin, sku⟩, delta) else none
  | _ => none

/-- **What a section can do**, with the sections that the call goes on with. -/
inductive Does (w : Int → Int) (eng : InventoryEngine SHARDS) :
    Instr → InventoryEngine SHARDS → List Instr → Prop
  | stop {i : Instr} (plain : i.plain = true) (blind : blindMove w eng i = none) : Does w eng i eng []
  | goOn {i j : Instr} (plain : i.plain = true) (blind : blindMove w eng i = none) (next : j.plain = true)
      (aware : i.lotAware = true → j.lotAware = true) : Does w eng i eng [j]
  | pallet {i : Instr} (lpn : LpnId) (p : Pallet) (more : List Instr) (plain : i.plain = true)
      (blind : blindMove w eng i = none) (next : ∀ j ∈ more, j.plain = true)
      (aware : ∀ j ∈ more, j.lotAware = true) : Does w eng i (eng.putPallet lpn p) more
  | blind {i : Instr} {key : StockKey} {m : Movement} {delta : Int} {more : List Instr} (plain : i.plain = true)
      (blind : blindMove w eng i = some (key, delta)) (logged : wrapI64 m.delta = wrapI64 delta)
      (next : ∀ j ∈ more, j.plain = true) (floor : eng.Floor w key delta) :
      Does w eng i (eng.moveBy w key m delta) more
  | receiptRefused {key : StockKey} {lot : LotNumber} {qty : U32} {expiry : Option Int}
      {serials : List SerialNumber} (floor : ¬ eng.Floor w key qty.1) :
      Does w eng (.receive key lot qty expiry serials) eng []
  | received {key : StockKey} {lot : LotNumber} {qty : U32} {expiry : Option Int} {serials : List SerialNumber}
      (floor : eng.Floor w key qty.1) :
      Does w eng (.receive key lot qty expiry serials) (((eng.moveBy w key (.received qty.1) qty.1).setLots key
        (addToLot (eng.lots key) lot qty.1 expiry serials)).logLot key (.received lot qty.1 expiry serials))
        [.putSerials serials key lot]
  | pickRefused {key : StockKey} {qty : U32} {asOf : Int} (short : issuable (eng.lots key) asOf < qty.1) :
      Does w eng (.pick key qty asOf) eng []
  | picked {key : StockKey} {qty : U32} {asOf : Int} {eng' : InventoryEngine SHARDS}
      (enough : qty.1 ≤ issuable (eng.lots key) asOf)
      (picked : Picked w key (eng.pickTakes key qty.1 asOf).2 (eng.setLots key (eng.pickTakes key qty.1 asOf).1) eng') :
      Does w eng (.pick key qty asOf) (eng'.setLots key ((eng'.lots key).filter fun l => 0 < l.onHand))
        [.removeSerials ((eng.pickTakes key qty.1 asOf).2.flatMap (·.serials))]
  | pickGivenUp {key : StockKey} {qty : U32} {asOf : Int} {eng' : InventoryEngine SHARDS}
      (first : List LotConsumption) (c : LotConsumption) (rest : List LotConsumption)
      (enough : qty.1 ≤ issuable (eng.lots key) asOf)
      (split : (eng.pickTakes key qty.1 asOf).2 = first ++ c :: rest)
      (picked : Picked w key first (eng.setLots key (eng.pickTakes key qty.1 asOf).1) eng')
      (floor : ¬ eng'.Floor w key (-(c.qty : Int))) : Does w eng (.pick key qty asOf) eng' []
  | lotPickRefused {key : StockKey} {lot : LotNumber} {qty : U32} {asOf : Int}
      (refused : ¬ (eng.Floor w key (-(qty.1 : Int)) ∧ ∃ ld, eng.PickableLot key lot qty.1 asOf ld)) :
      Does w eng (.pickFromLot key lot qty asOf) eng []
  | lotPicked {key : StockKey} {lot : LotNumber} {qty : U32} {asOf : Int} (ld : LotDetail)
      (floor : eng.Floor w key (-(qty.1 : Int))) (pickable : eng.PickableLot key lot qty.1 asOf ld) :
      Does w eng (.pickFromLot key lot qty asOf)
        (((eng.moveBy w key (.picked qty.1) (-(qty.1 : Int))).logLot key
          (.picked lot qty.1 (ld.takenSerials qty.1))).setLots key
            (updateLot lot (fun ld => ld.take qty.1) (eng.lots key)))
        [.removeSerials (ld.takenSerials qty.1)]
  | departureRefused {lpn : LpnId} {location toBin : Id Bin} {line : PalletLine} {todo : List PalletLine}
      (ld : LotDetail) (found : findLot (eng.lots ⟨location, line.sku⟩) line.lot = some ld)
      (enough : line.qty.1 ≤ ld.onHand) (floor : ¬ eng.Floor w ⟨location, line.sku⟩ (-(line.qty.1 : Int))) :
      Does w eng (.moveLine lpn location toBin (line :: todo)) (eng.setLots ⟨location, line.sku⟩
        (updateLot line.lot (fun ld => ld.take line.qty.1) (eng.lots ⟨location, line.sku⟩))) []
  | departed {lpn : LpnId} {location toBin : Id Bin} {line : PalletLine} {todo : List PalletLine}
      (ld : LotDetail) (found : findLot (eng.lots ⟨location, line.sku⟩) line.lot = some ld)
      (enough : line.qty.1 ≤ ld.onHand) (floor : eng.Floor w ⟨location, line.sku⟩ (-(line.qty.1 : Int))) :
      Does w eng (.moveLine lpn location toBin (line :: todo))
        (((eng.setLots ⟨location, line.sku⟩ (updateLot line.lot (fun ld => ld.take line.qty.1)
          (eng.lots ⟨location, line.sku⟩))).moveBy w ⟨location, line.sku⟩ (.picked line.qty.1)
            (-(line.qty.1 : Int))).logLot ⟨location, line.sku⟩
              (.transferred line.lot line.qty.1 location toBin (ld.takenSerials line.qty.1)))
        [.registerMoved lpn location toBin line ld.expiry (ld.takenSerials line.qty.1) todo]
  | arrivalRefused {lpn : LpnId} {location toBin : Id Bin} {line : PalletLine} {expiry : Option Int}
      {serials : List SerialNumber} {todo : List PalletLine} (floor : ¬ eng.Floor w ⟨toBin, line.sku⟩ line.qty.1) :
      Does w eng (.transferIn lpn location toBin line expiry serials todo) eng []
  | arrived {lpn : LpnId} {location toBin : Id Bin} {line : PalletLine} {expiry : Option Int}
      {serials : List SerialNumber} {todo : List PalletLine} (floor : eng.Floor w ⟨toBin, line.sku⟩ line.qty.1) :
      Does w eng (.transferIn lpn location toBin line expiry serials todo)
        (((eng.moveBy w ⟨toBin, line.sku⟩ (.received line.qty.1) line.qty.1).setLots ⟨toBin, line.sku⟩
          (addToLot (eng.lots ⟨toBin, line.sku⟩) line.lot line.qty.1 expiry serials)).logLot ⟨toBin, line.sku⟩
            (.received line.lot line.qty.1 expiry serials))
        [.moveLine lpn location toBin todo]
  | putSerials (serials : List SerialNumber) (key : StockKey) (lot : LotNumber) :
      Does w eng (.putSerials serials key lot) (eng.putSerials serials key lot) []
  | removeSerials (serials : List SerialNumber) :
      Does w eng (.removeSerials serials) (eng.removeSerials serials) []
  | registerMoved (lpn : LpnId) (location toBin : Id Bin) (line : PalletLine) (expiry : Option Int)
      (serials : List SerialNumber) (todo : List PalletLine) :
      Does w eng (.registerMoved lpn location toBin line expiry serials todo)
        (eng.putSerials serials ⟨toBin, line.sku⟩ line.lot)
        [.transferIn lpn location toBin line expiry serials todo]

section
variable (w : Int → Int) (eng : InventoryEngine SHARDS)

theorem pick_of_mem_pickProg {key : StockKey} {qty : U32} {asOf : Int} {j : Instr}
    (h : j ∈ pickProg key qty asOf) : j = .pick key qty asOf := by
  unfold pickProg at h
  split at h
  · cases h
  · exact List.mem_singleton.mp h

/-- The section that a call starts with, unless it is refused before. -/
def Op.start : Op → Instr
  | .apply key m => .apply key m
  | .applyVersioned key m expectedVersion => .applyVersioned key m expectedVersion
  | .receiveLot key lot qty expiry serials => .checkSerials key lot qty expiry serials
  | .createPallet location lines id => .checkLine location lines id lines
  | .pick key qty asOf => .pick key qty asOf
  | .pickFromLot key lot qty asOf => .pickFromLot key lot qty asOf
  | .pickFromPallet lpn sku lot qty asOf => .pickFromPallet lpn sku lot qty asOf
  | .movePallet lpn toBin => .readPallet lpn toBin
  | .reconcileCount task counted reason => .countLine task.bin counted reason task.lines

theorem start_of_mem_prog {op : Op} {i : Instr} (hi : i ∈ prog op) : i = op.start := by
  cases op with
  | receiveLot key lot qty expiry serials =>
    simp only [prog] at hi
    split at hi
    · cases hi
    · split at hi
      · cases hi
      · exact List.mem_singleton.mp hi
  | pick key qty asOf => exact pick_of_mem_pickProg hi
  | pickFromLot key lot qty asOf =>
    simp only [prog] at hi
    split at hi
    · cases hi
    · exact List.mem_singleton.mp hi
  | apply | applyVersioned | createPallet | pickFromPallet | movePallet | reconcileCount => exact List.mem_singleton.mp hi

/-- A call starts with nothing under way. -/
theorem plain_prog (op : Op) : ∀ i ∈ prog op, i.plain = true := by
  intro i hi
  rw [start_of_mem_prog hi]
  cases op with
  | _ => rfl

/-- A movement without a lot is not lot-aware. -/
theorem blindMove_of_lotAware {i : Instr} (h : i.lotAware = true) : blindMove w eng i = none := by
  cases i with
  | apply | applyVersioned | adjust => cases h
  | _ => rfl

/-- A movement without a lot. -/
theorem does_blind {i : Instr} {key : StockKey} {m : Movement} {delta : Int} {more : List Instr}
    (plain : i.plain = true) (hm : wrapI64 m.delta = wrapI64 delta) (next : ∀ j ∈ more, j.plain = true)
    (hb : blindMove w eng i = if 0 ≤ w (eng.onHand key + delta) then some (key, delta) else none) :
    Does w eng i (continueWith (appendWith w eng key m delta) fun _ => more).1
      (continueWith (appendWith w eng key m delta) fun _ => more).2 := by
  rcases eng.appendWith_cases w key m delta with ⟨hf, e, he⟩ | ⟨hf, n, he⟩
  · rw [he]
    exact .stop plain (hb.trans (if_neg hf))
  · rw [he]
    exact .blind plain (hb.trans (if_pos hf)) hm next hf

theorem does_exec (i : Instr) : Does w eng i (exec w eng i).1 (exec w eng i).2 := by
  cases i with
  | apply key m => exact eng.does_blind w rfl rfl (List.forall_mem_nil _) rfl
  | applyVersioned key m v =>
    rcases eng.applyVersionedWith_cases w key m v with ⟨hf, e, he⟩ | ⟨hf, he⟩
    · simp only [exec, he, continueWith]
      exact .stop rfl (if_neg hf)
    · simp only [exec, he, continueWith]
      exact .blind rfl (if_pos hf) rfl (List.forall_mem_nil _) hf.1
  | checkSerials key lot qty expiry serials =>
    simp only [exec]
    split
    · exact .stop rfl rfl
    · exact .goOn rfl rfl rfl fun _ => rfl
  | receive key lot qty expiry serials =>
    rcases eng.receiveSection_cases w key lot qty expiry serials with ⟨hf, e, he⟩ | ⟨hf, n, he⟩
    · simp only [exec, he, continueWith]
      exact .receiptRefused hf
    · simp only [exec, he, continueWith]
      exact .received hf
  | putSerials serials key lot => exact .putSerials serials key lot
  | removeSerials serials => exact .removeSerials serials
  | checkLine location lines id todo =>
    cases todo with
    | nil => exact .pallet id { id, location, lines } [] rfl rfl (List.forall_mem_nil _) (List.forall_mem_nil _)
    | cons line todo =>
      simp only [exec]
      split
      · exact .stop rfl rfl
      · exact .goOn rfl rfl rfl fun _ => rfl
  | pick key qty asOf =>
    rcases eng.pickSection_cases w key qty asOf with ⟨hq, e, he⟩ | ⟨hq, eng', hp, he⟩ |
      ⟨hq, first, c, rest, eng', e, hs, hp, hd, he⟩
    · simp only [exec, he, continueWith]
      exact .pickRefused hq
    · simp only [exec, he, continueWith]
      exact .picked hq hp
    · simp only [exec, he, continueWith]
      exact .pickGivenUp first c rest hq hs hp hd
  | pickFromLot key lot qty asOf =>
    rcases eng.pickFromLotSection_cases w key lot qty asOf with ⟨hr, e, he⟩ | ⟨hf, ld, hl, he⟩
    · simp only [exec, he, continueWith]
      exact .lotPickRefused hr
    · simp only [exec, he, continueWith]
      exact .lotPicked ld hf hl
  | pickFromPallet lpn sku lot qty asOf =>
    simp only [exec]
    split
    · exact .stop rfl rfl
    · split
      · exact .stop rfl rfl
      · split
        · exact .stop rfl rfl
        · refine .pallet _ _ _ rfl rfl ?_ ?_
          · intro j hj
            rw [pick_of_mem_pickProg hj]
            rfl
          · intro j hj
            rw [pick_of_mem_pickProg hj]
            rfl
  | readPallet lpn toBin =>
    simp only [exec]
    split
    · exact .stop rfl rfl
    · split
      · exact .stop rfl rfl
      · exact .goOn rfl rfl rfl fun _ => rfl
  | moveLine lpn location toBin todo =>
    cases todo with
    | nil =>
      simp only [exec]
      split
      · exact .stop rfl rfl
      · exact .pallet _ _ [] rfl rfl (List.forall_mem_nil _) (List.forall_mem_nil _)
    | cons line todo =>
      simp only [exec]
      split
      · exact .stop rfl rfl
      · rcases eng.transferOut_cases w ⟨location, line.sku⟩ line.lot line.qty location toBin with
          ⟨e, he⟩ | ⟨ld, hl, hq, hf, e, he⟩ | ⟨ld, hl, hq, hf, he⟩
        · simp only [he, continueWith]
          exact .stop rfl rfl
        · simp only [he, continueWith]
          exact .departureRefused ld hl hq hf
        · simp only [he, continueWith]
          exact .departed ld hl hq hf
  | registerMoved lpn location toBin line expiry serials todo =>
    exact .registerMoved lpn location toBin line expiry serials todo
  | transferIn lpn location toBin line expiry serials todo =>
    rcases eng.receiveSection_cases w ⟨toBin, line.sku⟩ line.lot line.qty expiry serials with
      ⟨hf, e, he⟩ | ⟨hf, n, he⟩
    · simp only [exec, he, continueWith]
      exact .arrivalRefused hf
    · simp only [exec, he, continueWith]
      exact .arrived hf
  | countLine bin counted reason todo =>
    cases todo with
    | nil => exact .stop rfl rfl
    | cons sku todo =>
      simp only [exec]
      split
      · exact .goOn rfl rfl rfl id
      · exact .goOn rfl rfl rfl id
  | adjust bin counted reason sku delta todo =>
    have hw := wrapI64_add_wrapI64 0 delta
    rw [Int.zero_add, Int.zero_add] at hw
    exact eng.does_blind w rfl hw (List.forall_mem_singleton.mpr rfl) rfl

end

/-! ## Quantities and lots after a section -/

section
variable (w : Int → Int) (eng : InventoryEngine SHARDS)

theorem onHand_moveBy (key : StockKey) (m : Movement) (delta : Int) (k : StockKey) :
    (eng.moveBy w key m delta).onHand k = if k = key then w (eng.onHand key + delta) else eng.onHand k :=
  eng.onHand_move _ _ _ _

@[simp] theorem lots_moveBy (key : StockKey) (m : Movement) (delta : Int) (k : StockKey) :
    (eng.moveBy w key m delta).lots k = eng.lots k :=
  eng.lots_move _ _ _ _

end

theorem picked_lots {w : Int → Int} {key : StockKey} {cs : List LotConsumption} {eng eng' : InventoryEngine SHARDS}
    (h : Picked w key cs eng eng') (k : StockKey) : eng'.lots k = eng.lots k := by
  induction h with
  | nil eng => rfl
  | cons c floor rest ih => rw [ih, lots_logLot, lots_moveBy]

theorem picked_onHand_ne {w : Int → Int} {key : StockKey} {cs : List LotConsumption}
    {eng eng' : InventoryEngine SHARDS} (h : Picked w key cs eng eng') {k : StockKey} (hk : k ≠ key) :
    eng'.onHand k = eng.onHand k := by
  induction h with
  | nil eng => rfl
  | cons c floor rest ih => rw [ih, onHand_logLot, onHand_moveBy, if_neg hk]

/-- The consumptions lower the key's quantity by their units. -/
theorem picked_onHand {w : Int → Int} (hw : QuantityArith w) {key : StockKey} {cs : List LotConsumption}
    {eng eng' : InventoryEngine SHARDS} (h : Picked w key cs eng eng') (hc : consumed cs < 2 ^ 32)
    (h0 : 0 ≤ eng.onHand key) (hfix : w (eng.onHand key) = eng.onHand key) :
    eng'.onHand key = eng.onHand key - consumed cs := by
  induction h with
  | nil eng =>
    show eng.onHand key = eng.onHand key - ((0 : Nat) : Int)
    omega
  | @cons eng eng' c cs floor rest ih =>
    have hsum : consumed (c :: cs) = c.qty + consumed cs := rfl
    have hsub := hw.sub _ c.qty h0 hfix (by omega)
    have hmid : ((eng.moveBy w key (.picked c.qty) (-(c.qty : Int))).logLot key
        (.picked c.lot c.qty c.serials)).onHand key = w (eng.onHand key + -(c.qty : Int)) := by
      rw [onHand_logLot, onHand_moveBy, if_pos rfl]
    rw [hmid] at ih
    rw [ih (by omega) floor (hw.idem _), hsub]
    omega

theorem consumed_pickTakes (eng : InventoryEngine SHARDS) {key : StockKey} {qty : Nat} {asOf : Int}
    (h : qty ≤ issuable (eng.lots key) asOf) : consumed (eng.pickTakes key qty asOf).2 = qty := by
  have hr := planLoop_rest (pickCandidates (eng.lots key) asOf) qty
  have hp := planned_planLoop (pickCandidates (eng.lots key) asOf) qty
  rw [sum_candidates] at hr
  unfold pickTakes
  rw [consumed_takePlan]
  · omega
  · intro p hp
    obtain ⟨ld, hi, -⟩ := (planFits_planLoop (eng.lots key) qty asOf).2 p hp
    exact (List.getElem?_eq_some_iff.mp hi).1

theorem units_pickTakes (eng : InventoryEngine SHARDS) {key : StockKey} {qty : Nat} {asOf : Int}
    (h : qty ≤ issuable (eng.lots key) asOf) :
    units (eng.pickTakes key qty asOf).1 + qty = units (eng.lots key) := by
  have hr := planLoop_rest (pickCandidates (eng.lots key) asOf) qty
  have hp := planned_planLoop (pickCandidates (eng.lots key) asOf) qty
  have hu := units_takePlan (planFits_planLoop (eng.lots key) qty asOf)
  rw [sum_candidates] at hr
  unfold pickTakes
  omega

theorem consumed_append (cs ds : List LotConsumption) : consumed (cs ++ ds) = consumed cs + consumed ds := by
  simp [consumed]

end InventoryEngine

end TptErp.Wms
