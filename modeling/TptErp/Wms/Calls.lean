import TptErp.Wms.InventoryErrors
import TptErp.Lib.Threads

/-!
# Interleaved inventory calls

The calls of the inventory engine cut into the sections they hold a lock for: a shard, the registry
of serials, or the pallets.  Calls may be interleaved section by section; a call that runs alone does
what the sequential model says (`runs_alone`).

The sections add and subtract on-hand quantities in an arithmetic `w`: `wrapI64` for the `i64` of the
code, and the identity where quantities are read as unbounded integers.
-/

namespace TptErp.Wms

namespace InventoryEngine

variable {SHARDS : Nat} (w : Int → Int)

/-! ## Sections under a shard's lock -/

section
variable (eng : InventoryEngine SHARDS)

/-- `append_movement_locked`; `delta` is the movement's. -/
def appendWith (key : StockKey) (m : Movement) (delta : Int) : Call SHARDS Int :=
  let current := eng.onHand key
  let newQty := w (current + delta)
  if newQty < 0 then (.error (.insufficientStock key current (w (-delta))), eng)
  else (.ok newQty, eng.move key m newQty)

def applyVersionedWith (key : StockKey) (m : Movement) (expectedVersion : Nat) : Call SHARDS Int :=
  let current := eng.onHand key
  let newQty := w (current + m.delta)
  if newQty < 0 then (.error (.insufficientStock key current (w (-m.delta))), eng)
  else
    let shard := eng.shardOf key
    match shard.store.appendVersioned
        { aggregateId := key, eventType := "movement", payload := .movement m } expectedVersion with
    | .ok (_, store) =>
      (.ok newQty, eng.setShard (eng.shardIndex key)
        { shard with store, onHand := shard.onHand.insert key newQty })
    | .error _ => (.error (.conflict key expectedVersion (eng.version key)), eng)

/-- The shard section of `receive_lot`, which is also the one of `transfer_lot` at the destination. -/
def receiveSection (key : StockKey) (lot : LotNumber) (qty : U32) (expiry : Option Int)
    (serials : List SerialNumber) : Call SHARDS Int :=
  match appendWith w eng key (.received qty.1) qty.1 with
  | (.error e, eng) => (.error e, eng)
  | (.ok newQty, eng) =>
    let eng := eng.setLots key (addToLot (eng.lots key) lot qty.1 expiry serials)
    (.ok newQty, eng.logLot key (.received lot qty.1 expiry serials))

/-- The loop of `pick` over its consumptions. -/
def pickEventsWith (key : StockKey) : List LotConsumption → InventoryEngine SHARDS → Call SHARDS Unit
  | [], eng => (.ok (), eng)
  | c :: cs, eng =>
    match appendWith w eng key (.picked c.qty) (-(c.qty : Int)) with
    | (.error e, eng) => (.error e, eng)
    | (.ok _, eng) => pickEventsWith key cs (eng.logLot key (.picked c.lot c.qty c.serials))

/-- The shard section of `pick`. -/
def pickSection (key : StockKey) (qty : U32) (asOf : Int) : Call SHARDS (List LotConsumption) :=
  match buildPickPlan (eng.lots key) qty.1 asOf key with
  | .error e => (.error e, eng)
  | .ok plan =>
    let r := takePlan (eng.lots key) plan
    match pickEventsWith w key r.2 (eng.setLots key r.1) with
    | (.error e, eng) => (.error e, eng)
    | (.ok (), eng) => (.ok r.2, eng.setLots key ((eng.lots key).filter fun l => 0 < l.onHand))

/-- The shard section of `pick_from_lot`; it returns the serials taken. -/
def pickFromLotSection (key : StockKey) (lot : LotNumber) (qty : U32) (asOf : Int) :
    Call SHARDS (List SerialNumber) :=
  match findLot (eng.lots key) lot with
  | none => (.error (.lotNotFound key lot), eng)
  | some ld =>
    if ld.expiry.any fun e => e < asOf then (.error (.expiredLot key lot), eng)
    else if ld.onHand < qty.1 then (.error (.overLotQuantity key lot ld.onHand qty.1), eng)
    else
      let serials := ld.takenSerials qty.1
      match appendWith w eng key (.picked qty.1) (-(qty.1 : Int)) with
      | (.error e, eng) => (.error e, eng)
      | (.ok _, eng) =>
        let eng := eng.logLot key (.picked lot qty.1 serials)
        (.ok serials, eng.setLots key (updateLot lot (fun ld => ld.take qty.1) (eng.lots key)))

/-- The section of `transfer_lot` at the source; it returns the serials taken and the lot's expiry. -/
def transferOut (key : StockKey) (lot : LotNumber) (qty : U32) (fromBin toBin : Id Bin) :
    Call SHARDS (List SerialNumber × Option Int) :=
  match findLot (eng.lots key) lot with
  | none => (.error (.lotNotFound key lot), eng)
  | some ld =>
    if ld.onHand < qty.1 then (.error (.overLotQuantity key lot ld.onHand qty.1), eng)
    else
      let serials := ld.takenSerials qty.1
      let eng := eng.setLots key (updateLot lot (fun ld => ld.take qty.1) (eng.lots key))
      match appendWith w eng key (.picked qty.1) (-(qty.1 : Int)) with
      | (.error e, eng) => (.error e, eng)
      | (.ok _, eng) =>
        (.ok (serials, ld.expiry), eng.logLot key (.transferred lot qty.1 fromBin toBin serials))

end

/-! ## Calls in sections -/

/-- One section of a call, with what the call needs to go on. -/
inductive Instr
  | apply (key : StockKey) (m : Movement)
  | applyVersioned (key : StockKey) (m : Movement) (expectedVersion : Nat)
  | checkSerials (key : StockKey) (lot : LotNumber) (qty : U32) (expiry : Option Int)
      (serials : List SerialNumber)
  | receive (key : StockKey) (lot : LotNumber) (qty : U32) (expiry : Option Int)
      (serials : List SerialNumber)
  | putSerials (serials : List SerialNumber) (key : StockKey) (lot : LotNumber)
  | removeSerials (serials : List SerialNumber)
  | checkLine (location : Id Bin) (lines : List PalletLine) (id : LpnId) (todo : List PalletLine)
  | pick (key : StockKey) (qty : U32) (asOf : Int)
  | pickFromLot (key : StockKey) (lot : LotNumber) (qty : U32) (asOf : Int)
  | pickFromPallet (lpn : LpnId) (sku : Id Sku) (lot : LotNumber) (qty : U32) (asOf : Int)
  | readPallet (lpn : LpnId) (toBin : Id Bin)
  | moveLine (lpn : LpnId) (location toBin : Id Bin) (todo : List PalletLine)
  | registerMoved (lpn : LpnId) (location toBin : Id Bin) (line : PalletLine) (expiry : Option Int)
      (serials : List SerialNumber) (todo : List PalletLine)
  | transferIn (lpn : LpnId) (location toBin : Id Bin) (line : PalletLine) (expiry : Option Int)
      (serials : List SerialNumber) (todo : List PalletLine)
  | countLine (bin : Id Bin) (counted : StockKey → I64) (reason : Reason) (todo : List (Id Sku))
  | adjust (bin : Id Bin) (counted : StockKey → I64) (reason : Reason) (sku : Id Sku) (delta : Int)
      (todo : List (Id Sku))

/-- The sections of `pick`, which `pick_from_pallet` also ends with. -/
def pickProg (key : StockKey) (qty : U32) (asOf : Int) : List Instr :=
  if qty.1 = 0 then [] else [.pick key qty asOf]

def prog : Op → List Instr
  | .apply key m => [.apply key m]
  | .applyVersioned key m expectedVersion => [.applyVersioned key m expectedVersion]
  | .receiveLot key lot qty expiry serials =>
    if qty.1 = 0 then []
    else if serials ≠ [] ∧ serials.length % 2 ^ 32 ≠ qty.1 then []
    else [.checkSerials key lot qty expiry serials]
  | .createPallet location lines id => [.checkLine location lines id lines]
  | .pick key qty asOf => pickProg key qty asOf
  | .pickFromLot key lot qty asOf => if qty.1 = 0 then [] else [.pickFromLot key lot qty asOf]
  | .pickFromPallet lpn sku lot qty asOf => [.pickFromPallet lpn sku lot qty asOf]
  | .movePallet lpn toBin => [.readPallet lpn toBin]
  | .reconcileCount task counted reason => [.countLine task.bin counted reason task.lines]

/-- A section's result: with a value the call goes on, with an error it ends. -/
def continueWith {R : Type} (r : Call SHARDS R) (more : R → List Instr) : InventoryEngine SHARDS × List Instr :=
  match r with
  | (.ok a, eng) => (eng, more a)
  | (.error _, eng) => (eng, [])

/-- The state after a section, and the sections that follow. -/
def exec (eng : InventoryEngine SHARDS) : Instr → InventoryEngine SHARDS × List Instr
  | .apply key m => continueWith (appendWith w eng key m m.delta) fun _ => []
  | .applyVersioned key m expectedVersion =>
    continueWith (applyVersionedWith w eng key m expectedVersion) fun _ => []
  | .checkSerials key lot qty expiry serials =>
    if serials.any fun sn => (eng.serials.lookup sn).isSome then (eng, [])
    else (eng, [.receive key lot qty expiry serials])
  | .receive key lot qty expiry serials =>
    continueWith (receiveSection w eng key lot qty expiry serials) fun _ => [.putSerials serials key lot]
  | .putSerials serials key lot => (eng.putSerials serials key lot, [])
  | .removeSerials serials => (eng.removeSerials serials, [])
  | .checkLine location lines id [] => (eng.putPallet id { id, location, lines }, [])
  | .checkLine location lines id (line :: todo) =>
    if lotOnHand (eng.lots ⟨location, line.sku⟩) line.lot < line.qty.1 then (eng, [])
    else (eng, [.checkLine location lines id todo])
  | .pick key qty asOf =>
    continueWith (pickSection w eng key qty asOf) fun cs => [.removeSerials (cs.flatMap (·.serials))]
  | .pickFromLot key lot qty asOf =>
    continueWith (pickFromLotSection w eng key lot qty asOf) fun serials => [.removeSerials serials]
  | .pickFromPallet lpn sku lot qty asOf =>
    match eng.pallet lpn with
    | none => (eng, [])
    | some p =>
      match p.lines.find? fun l => l.sku = sku ∧ l.lot = lot with
      | none => (eng, [])
      | some line =>
        if line.qty.1 < qty.1 then (eng, [])
        else (eng.putPallet lpn { p with lines := takeLine sku lot qty.1 p.lines },
          pickProg ⟨p.location, sku⟩ qty asOf)
  | .readPallet lpn toBin =>
    match eng.pallet lpn with
    | none => (eng, [])
    | some p => if p.location = toBin then (eng, []) else (eng, [.moveLine lpn p.location toBin p.lines])
  | .moveLine lpn _ toBin [] =>
    match eng.pallet lpn with
    | none => (eng, [])
    | some p => (eng.putPallet lpn { p with location := toBin }, [])
  | .moveLine lpn location toBin (line :: todo) =>
    if line.qty.1 = 0 then (eng, [])
    else
      continueWith (transferOut w eng ⟨location, line.sku⟩ line.lot line.qty location toBin) fun r =>
        [.registerMoved lpn location toBin line r.2 r.1 todo]
  | .registerMoved lpn location toBin line expiry serials todo =>
    (eng.putSerials serials ⟨toBin, line.sku⟩ line.lot, [.transferIn lpn location toBin line expiry serials todo])
  | .transferIn lpn location toBin line expiry serials todo =>
    continueWith (receiveSection w eng ⟨toBin, line.sku⟩ line.lot line.qty expiry serials) fun _ =>
      [.moveLine lpn location toBin todo]
  | .countLine _ _ _ [] => (eng, [])
  | .countLine bin counted reason (sku :: todo) =>
    let delta := w ((counted ⟨bin, sku⟩).1 - eng.onHand ⟨bin, sku⟩)
    if delta = 0 then (eng, [.countLine bin counted reason todo])
    else (eng, [.adjust bin counted reason sku delta todo])
  | .adjust bin counted reason sku delta todo =>
    continueWith (appendWith w eng ⟨bin, sku⟩ (.adjustment (i64 delta) reason) delta) fun _ =>
      [.countLine bin counted reason todo]

/-- The calls of one engine, interleaved. -/
def calls (SHARDS : Nat) : Machine (InventoryEngine SHARDS) Instr Unit Op Unit :=
  { prog, instr := fun eng i _ => some (exec w eng i), env := fun eng _ => eng }

/-! ## A call alone -/

section
variable (eng : InventoryEngine SHARDS)

theorem appendWith_wrapI64 (key : StockKey) (m : Movement) :
    appendWith wrapI64 eng key m m.delta = eng.appendMovementLocked key m := rfl

theorem applyVersionedWith_wrapI64 (key : StockKey) (m : Movement) (v : Nat) :
    applyVersionedWith wrapI64 eng key m v = eng.applyVersioned key m v := rfl

theorem pickEventsWith_wrapI64 (key : StockKey) (cs : List LotConsumption) :
    pickEventsWith wrapI64 key cs eng = pickEvents key cs eng := by
  induction cs generalizing eng with
  | nil => rfl
  | cons c cs ih =>
    have ha : appendWith wrapI64 eng key (.picked c.qty) (-(c.qty : Int)) =
        eng.appendMovementLocked key (.picked c.qty) := rfl
    simp only [pickEventsWith, pickEvents, ha]
    rcases eng.append_cases key (.picked c.qty) with ⟨-, he⟩ | ⟨-, he⟩
    · rw [he]
    · rw [he]
      exact ih _

/-- Carry out the next section. -/
theorem alone_cons {eng eng' : InventoryEngine SHARDS} {i : Instr} {rest : List Instr}
    (h : (calls wrapI64 SHARDS).RunsAlone (exec wrapI64 eng i).1 ((exec wrapI64 eng i).2 ++ rest) eng') :
    (calls wrapI64 SHARDS).RunsAlone eng (i :: rest) eng' :=
  Machine.runsAlone_cons (calls wrapI64 SHARDS) () _ _ rfl h

theorem alone_nil : (calls wrapI64 SHARDS).RunsAlone eng [] eng := Machine.runsAlone_nil _ eng

/-- A section after which the call ends. -/
theorem alone_last {i : Instr} (h : (exec wrapI64 eng i).2 = []) :
    (calls wrapI64 SHARDS).RunsAlone eng [i] (exec wrapI64 eng i).1 := by
  apply alone_cons
  rw [h]
  exact alone_nil _

theorem alone_receiveLot (key : StockKey) (lot : LotNumber) (qty : U32) (expiry : Option Int)
    (serials : List SerialNumber) :
    (calls wrapI64 SHARDS).RunsAlone eng (prog (.receiveLot key lot qty expiry serials))
      (eng.receiveLot key lot qty expiry serials).2 := by
  simp only [prog, receiveLot]
  split
  · exact alone_nil eng
  · split
    · exact alone_nil eng
    · apply alone_cons
      simp only [exec]
      cases hf : serials.find? fun sn => (eng.serials.lookup sn).isSome with
      | some sn =>
        have hr := List.find?_some hf
        have hany : (serials.any fun sn => (eng.serials.lookup sn).isSome) = true :=
          List.any_eq_true.mpr ⟨sn, List.mem_of_find?_eq_some hf, hr⟩
        rw [if_pos hany]
        exact alone_nil eng
      | none =>
        have hany : ¬ (serials.any fun sn => (eng.serials.lookup sn).isSome) = true := by
          rw [List.any_eq_true]
          rintro ⟨sn, hsn, hr⟩
          exact List.find?_eq_none.mp hf sn hsn hr
        rw [if_neg hany]
        apply alone_cons
        have ha : appendWith wrapI64 eng key (.received qty.1) qty.1 =
            eng.appendMovementLocked key (.received qty.1) := rfl
        simp only [exec, receiveSection, ha]
        rcases eng.append_cases key (.received qty.1) with ⟨-, he⟩ | ⟨-, he⟩
        · rw [he]
          exact alone_nil eng
        · rw [he]
          exact alone_last _ rfl

theorem alone_pick (key : StockKey) (qty : U32) (asOf : Int) :
    (calls wrapI64 SHARDS).RunsAlone eng (pickProg key qty asOf) (eng.pick key qty asOf).2 := by
  simp only [pickProg, pick]
  split
  · exact alone_nil eng
  · apply alone_cons
    simp only [exec, pickSection]
    cases buildPickPlan (eng.lots key) qty.1 asOf key with
    | error e => exact alone_nil eng
    | ok plan =>
      simp only [pickEventsWith_wrapI64]
      rcases pickEvents key (takePlan (eng.lots key) plan).2
        (eng.setLots key (takePlan (eng.lots key) plan).1) with ⟨r, eng'⟩
      cases r with
      | error e => exact alone_nil eng'
      | ok u => exact alone_last _ rfl

theorem alone_pickFromLot (key : StockKey) (lot : LotNumber) (qty : U32) (asOf : Int) :
    (calls wrapI64 SHARDS).RunsAlone eng (prog (.pickFromLot key lot qty asOf))
      (eng.pickFromLot key lot qty asOf).2 := by
  simp only [prog, pickFromLot]
  split
  · exact alone_nil eng
  · apply alone_cons
    simp only [exec, pickFromLotSection]
    cases findLot (eng.lots key) lot with
    | none => exact alone_nil eng
    | some ld =>
      dsimp only
      split
      · exact alone_nil eng
      · split
        · exact alone_nil eng
        · have ha : appendWith wrapI64 eng key (.picked qty.1) (-(qty.1 : Int)) =
              eng.appendMovementLocked key (.picked qty.1) := rfl
          rw [ha]
          rcases eng.append_cases key (.picked qty.1) with ⟨-, he⟩ | ⟨-, he⟩
          · rw [he]
            exact alone_nil eng
          · rw [he]
            exact alone_last _ rfl

theorem alone_checkLine (location : Id Bin) (lines : List PalletLine) (id : LpnId) (todo : List PalletLine) :
    (calls wrapI64 SHARDS).RunsAlone eng [.checkLine location lines id todo]
      (match todo.find? fun line => lotOnHand (eng.lots ⟨location, line.sku⟩) line.lot < line.qty.1 with
        | some _ => eng
        | none => eng.putPallet id { id, location, lines }) := by
  induction todo with
  | nil => exact alone_last eng rfl
  | cons line todo ih =>
    apply alone_cons
    simp only [exec, List.find?_cons]
    by_cases h : lotOnHand (eng.lots ⟨location, line.sku⟩) line.lot < line.qty.1
    · rw [if_pos h, decide_eq_true h]
      exact alone_nil eng
    · rw [if_neg h, decide_eq_false h]
      exact ih

theorem alone_createPallet (location : Id Bin) (lines : List PalletLine) (id : LpnId) :
    (calls wrapI64 SHARDS).RunsAlone eng (prog (.createPallet location lines id))
      (eng.createPallet location lines id).2 := by
  have h := eng.alone_checkLine location lines id lines
  simp only [prog, createPallet]
  split
  · next line hf =>
    rw [hf] at h
    exact h
  · next hf =>
    rw [hf] at h
    exact h

theorem alone_pickFromPallet (lpn : LpnId) (sku : Id Sku) (lot : LotNumber) (qty : U32) (asOf : Int) :
    (calls wrapI64 SHARDS).RunsAlone eng (prog (.pickFromPallet lpn sku lot qty asOf))
      (eng.pickFromPallet lpn sku lot qty asOf).2 := by
  apply alone_cons
  simp only [exec, pickFromPallet, List.append_nil]
  cases eng.pallet lpn with
  | none => exact alone_nil eng
  | some p =>
    dsimp only
    cases p.lines.find? fun l => l.sku = sku ∧ l.lot = lot with
    | none => exact alone_nil eng
    | some line =>
      dsimp only
      split
      · exact alone_nil eng
      · exact alone_pick _ _ _ _

theorem pallets_append (key : StockKey) (m : Movement) : (eng.appendMovementLocked key m).2.pallets = eng.pallets := by
  rcases eng.append_cases key m with ⟨-, he⟩ | ⟨-, he⟩
  · rw [he]
  · rw [he]
    rfl

/-- A line of a pallet that is moved, in its two sections. -/
theorem alone_transferLot (lpn : LpnId) (location toBin : Id Bin) (line : PalletLine) (todo : List PalletLine)
    {eng' : InventoryEngine SHARDS}
    (hmore : ∀ mid, eng.transferLot ⟨location, line.sku⟩ line.lot line.qty location toBin = (.ok (), mid) →
      (calls wrapI64 SHARDS).RunsAlone mid [.moveLine lpn location toBin todo] eng')
    (hend : ∀ e mid, eng.transferLot ⟨location, line.sku⟩ line.lot line.qty location toBin = (.error e, mid) →
      eng' = mid) :
    (calls wrapI64 SHARDS).RunsAlone eng [.moveLine lpn location toBin (line :: todo)] eng' := by
  apply alone_cons
  simp only [exec]
  simp only [transferLot] at hmore hend
  split
  · next h0 =>
    simp only [h0, if_true] at hend
    rw [hend _ _ rfl]
    exact alone_nil eng
  · next h0 =>
    rw [if_neg h0] at hmore hend
    unfold transferOut
    cases hf : findLot (eng.lots ⟨location, line.sku⟩) line.lot with
    | none =>
      rw [hf] at hend
      rw [hend _ _ rfl]
      exact alone_nil eng
    | some ld =>
      rw [hf] at hmore hend
      dsimp only at hmore hend ⊢
      split
      · next hq =>
        rw [if_pos hq] at hend
        rw [hend _ _ rfl]
        exact alone_nil eng
      · next hq =>
        rw [if_neg hq] at hmore hend
        have ha : appendWith wrapI64
            (eng.setLots ⟨location, line.sku⟩
              (updateLot line.lot (fun ld => ld.take line.qty.1) (eng.lots ⟨location, line.sku⟩)))
            ⟨location, line.sku⟩ (.picked line.qty.1) (-(line.qty.1 : Int)) =
            (eng.setLots ⟨location, line.sku⟩
              (updateLot line.lot (fun ld => ld.take line.qty.1) (eng.lots ⟨location, line.sku⟩))).appendMovementLocked
            ⟨location, line.sku⟩ (.picked line.qty.1) := rfl
        rw [ha]
        generalize (eng.setLots ⟨location, line.sku⟩
          (updateLot line.lot (fun ld => ld.take line.qty.1) (eng.lots ⟨location, line.sku⟩))).appendMovementLocked
          ⟨location, line.sku⟩ (.picked line.qty.1) = r at hmore hend ⊢
        obtain ⟨r, out⟩ := r
        cases r with
        | error e =>
          rw [hend _ _ rfl]
          exact alone_nil out
        | ok n =>
          dsimp only [continueWith] at hmore hend ⊢
          -- the serials are registered at the destination, and the units arrive
          apply alone_cons
          apply alone_cons
          simp only [exec, receiveSection]
          have hb : ∀ e : InventoryEngine SHARDS,
              appendWith wrapI64 e ⟨toBin, line.sku⟩ (.received line.qty.1) line.qty.1 =
                e.appendMovementLocked ⟨toBin, line.sku⟩ (.received line.qty.1) := fun _ => rfl
          rw [hb]
          generalize ((out.logLot ⟨location, line.sku⟩ (.transferred line.lot line.qty.1 location toBin
            (ld.takenSerials line.qty.1))).putSerials (ld.takenSerials line.qty.1) ⟨toBin, line.sku⟩
            line.lot).appendMovementLocked ⟨toBin, line.sku⟩ (.received line.qty.1) = r at hmore hend ⊢
          obtain ⟨r, arrived⟩ := r
          cases r with
          | error e =>
            rw [hend _ _ rfl]
            exact alone_nil arrived
          | ok n => exact hmore _ rfl

theorem pallets_transferLot (key : StockKey) (lot : LotNumber) (qty : U32) (fromBin toBin : Id Bin) :
    (eng.transferLot key lot qty fromBin toBin).2.pallets = eng.pallets := by
  simp only [transferLot]
  split
  · rfl
  · split
    · rfl
    · next ld _ =>
      split
      · rfl
      · have ha := (eng.setLots key (updateLot lot (fun ld => ld.take qty.1) (eng.lots key))).pallets_append key
          (.picked qty.1)
        split
        · next he =>
          rw [he] at ha
          exact ha
        · next mid he =>
          rw [he] at ha
          have hb := ((mid.logLot key (.transferred lot qty.1 fromBin toBin (ld.takenSerials qty.1))).putSerials
            (ld.takenSerials qty.1) ⟨toBin, key.sku⟩ lot).pallets_append ⟨toBin, key.sku⟩ (.received qty.1)
          split
          · next he' =>
            rw [he'] at hb
            exact hb.trans ha
          · next he' =>
            rw [he'] at hb
            exact hb.trans ha

theorem alone_moveLine (lpn : LpnId) (p : Pallet) (toBin : Id Bin) (todo : List PalletLine)
    (hp : eng.pallet lpn = some p) :
    (calls wrapI64 SHARDS).RunsAlone eng [.moveLine lpn p.location toBin todo]
      (match transferLines p.location toBin todo eng with
        | (.error _, eng) => eng
        | (.ok (), eng) => eng.putPallet lpn { p with location := toBin }) := by
  induction todo generalizing eng with
  | nil =>
    apply alone_cons
    simp only [exec, hp]
    exact alone_nil _
  | cons line todo ih =>
    have hpal := eng.pallets_transferLot ⟨p.location, line.sku⟩ line.lot line.qty p.location toBin
    apply alone_transferLot
    · intro mid hmid
      rw [hmid] at hpal
      simp only [transferLines, hmid]
      apply ih
      rw [pallet, hpal]
      exact hp
    · intro e mid hmid
      simp only [transferLines, hmid]

theorem alone_movePallet (lpn : LpnId) (toBin : Id Bin) :
    (calls wrapI64 SHARDS).RunsAlone eng (prog (.movePallet lpn toBin)) (eng.movePallet lpn toBin).2 := by
  apply alone_cons
  simp only [exec, movePallet, List.append_nil]
  cases hp : eng.pallet lpn with
  | none => exact alone_nil eng
  | some p =>
    dsimp only
    split
    · exact alone_nil eng
    · have h := eng.alone_moveLine lpn p toBin p.lines hp
      generalize transferLines p.location toBin p.lines eng = r at h ⊢
      obtain ⟨r, eng'⟩ := r
      cases r with
      | error e => exact h
      | ok u => exact h

theorem i64_wrapI64 (x : Int) : i64 (wrapI64 x) = ⟨wrapI64 x, le_wrapI64 x, wrapI64_lt x⟩ := by
  apply Subtype.ext
  exact wrapI64_of_lt (le_wrapI64 x) (wrapI64_lt x)

theorem alone_countLine (bin : Id Bin) (counted : StockKey → I64) (reason : Reason) (todo : List (Id Sku)) :
    (calls wrapI64 SHARDS).RunsAlone eng [.countLine bin counted reason todo]
      (reconcileLines bin counted reason todo eng).2 := by
  induction todo generalizing eng with
  | nil => exact alone_last eng rfl
  | cons sku todo ih =>
    apply alone_cons
    simp only [exec, reconcileLines]
    split
    · exact ih eng
    · apply alone_cons
      simp only [exec, i64_wrapI64]
      have ha : appendWith wrapI64 eng ⟨bin, sku⟩
          (.adjustment ⟨wrapI64 ((counted ⟨bin, sku⟩).1 - eng.onHand ⟨bin, sku⟩), le_wrapI64 _, wrapI64_lt _⟩ reason)
          (wrapI64 ((counted ⟨bin, sku⟩).1 - eng.onHand ⟨bin, sku⟩)) =
          eng.apply ⟨bin, sku⟩ (.adjustment
            ⟨wrapI64 ((counted ⟨bin, sku⟩).1 - eng.onHand ⟨bin, sku⟩), le_wrapI64 _, wrapI64_lt _⟩ reason) := rfl
      rw [ha]
      generalize eng.apply ⟨bin, sku⟩ _ = r
      obtain ⟨r, mid⟩ := r
      cases r with
      | error e => exact alone_nil mid
      | ok n =>
        have h := ih mid
        dsimp only [continueWith]
        generalize reconcileLines bin counted reason todo mid = r at h ⊢
        obtain ⟨r, eng'⟩ := r
        cases r with
        | error e => exact h
        | ok results => exact h

/-- **A call that runs alone** does what the sequential model says. -/
theorem runs_alone (op : Op) : (calls wrapI64 SHARDS).RunsAlone eng (prog op) (op.call eng).2 := by
  cases op with
  | apply key m =>
    show (calls wrapI64 SHARDS).RunsAlone eng [.apply key m] (eng.appendMovementLocked key m).2
    rcases eng.append_cases key m with ⟨hn, he⟩ | ⟨hn, he⟩
    · rw [he]
      apply alone_cons
      simp only [exec, appendWith_wrapI64, he]
      exact alone_nil eng
    · rw [he]
      apply alone_cons
      simp only [exec, appendWith_wrapI64, he]
      exact alone_nil _
  | applyVersioned key m v =>
    show (calls wrapI64 SHARDS).RunsAlone eng [.applyVersioned key m v] (eng.applyVersioned key m v).2
    apply alone_cons
    simp only [exec, applyVersionedWith_wrapI64]
    generalize eng.applyVersioned key m v = r
    obtain ⟨r, eng'⟩ := r
    cases r with
    | error e => exact alone_nil eng'
    | ok n => exact alone_nil eng'
  | receiveLot key lot qty expiry serials => exact eng.alone_receiveLot key lot qty expiry serials
  | createPallet location lines id => exact eng.alone_createPallet location lines id
  | pick key qty asOf => exact eng.alone_pick key qty asOf
  | pickFromLot key lot qty asOf => exact eng.alone_pickFromLot key lot qty asOf
  | pickFromPallet lpn sku lot qty asOf => exact eng.alone_pickFromPallet lpn sku lot qty asOf
  | movePallet lpn toBin => exact eng.alone_movePallet lpn toBin
  | reconcileCount task counted reason => exact eng.alone_countLine task.bin counted reason task.lines

end

end InventoryEngine

end TptErp.Wms
