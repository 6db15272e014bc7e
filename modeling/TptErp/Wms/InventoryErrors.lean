import TptErp.Wms.Lots

/-!
# What a failed inventory call leaves behind

A call that returns an error ought to leave the engine as it was.  `Clean` says when the calls do:
a pick lowers the lots before it asks whether the bin's quantity covers it, a pallet line is lowered
before its pick, the lines of a pallet and of a count are carried out one after the other.
-/

namespace TptErp.Wms

namespace InventoryEngine

variable {SHARDS : Nat}

/-- Every quantity, version, lot, event, serial and pallet is the same. -/
structure Unchanged (eng eng' : InventoryEngine SHARDS) : Prop where
  onHand : ∀ key, eng'.onHand key = eng.onHand key
  version : ∀ key, eng'.version key = eng.version key
  lots : ∀ key, eng'.lots key = eng.lots key
  log : ∀ i, (eng'.shards i).store.log = (eng.shards i).store.log
  serials : ∀ sn, eng'.serialLocation sn = eng.serialLocation sn
  pallets : ∀ lpn, eng'.pallet lpn = eng.pallet lpn

theorem unchanged_refl (eng : InventoryEngine SHARDS) : Unchanged eng eng :=
  ⟨fun _ => rfl, fun _ => rfl, fun _ => rfl, fun _ => rfl, fun _ => rfl, fun _ => rfl⟩

/-- The calls that change an engine, with their arguments; `create_pallet` names the new id. -/
inductive Op
  | apply (key : StockKey) (m : Movement)
  | applyVersioned (key : StockKey) (m : Movement) (expectedVersion : Nat)
  | receiveLot (key : StockKey) (lot : LotNumber) (qty : U32) (expiry : Option Int)
      (serials : List SerialNumber)
  | createPallet (location : Id Bin) (lines : List PalletLine) (id : LpnId)
  | pick (key : StockKey) (qty : U32) (asOf : Int)
  | pickFromLot (key : StockKey) (lot : LotNumber) (qty : U32) (asOf : Int)
  | pickFromPallet (lpn : LpnId) (sku : Id Sku) (lot : LotNumber) (qty : U32) (asOf : Int)
  | movePallet (lpn : LpnId) (toBin : Id Bin)
  | reconcileCount (task : CountTask) (counted : StockKey → I64) (reason : Reason)

/-- Whether the call succeeds, and the engine it leaves. -/
def Op.call (eng : InventoryEngine SHARDS) : Op → Call SHARDS Unit
  | .apply key m => done (eng.apply key m)
  | .applyVersioned key m v => done (eng.applyVersioned key m v)
  | .receiveLot key lot qty expiry serials => done (eng.receiveLot key lot qty expiry serials)
  | .createPallet location lines id => done (eng.createPallet location lines id)
  | .pick key qty asOf => done (eng.pick key qty asOf)
  | .pickFromLot key lot qty asOf => done (eng.pickFromLot key lot qty asOf)
  | .pickFromPallet lpn sku lot qty asOf => done (eng.pickFromPallet lpn sku lot qty asOf)
  | .movePallet lpn toBin => done (eng.movePallet lpn toBin)
  | .reconcileCount task counted reason => done (eng.reconcileCount task counted reason)
where
  /-- Forget the value. -/
  done {R : Type} (r : Call SHARDS R) : Call SHARDS Unit := (r.1.map fun _ => (), r.2)

/-- The engine after a sequence of calls. -/
def runOps (eng : InventoryEngine SHARDS) (ops : List Op) : InventoryEngine SHARDS :=
  ops.foldl (fun eng op => (op.call eng).2) eng

/-- Some sequence of calls on a new engine leads here. -/
def Reachable (eng : InventoryEngine SHARDS) : Prop := ∃ shardIndex ops, eng = (new shardIndex).runOps ops

/-- If the call fails, nothing has changed. -/
def ErrorChangesNothing {R : Type} (eng : InventoryEngine SHARDS) (r : Call SHARDS R) : Prop :=
  ∀ e, r.1 = .error e → Unchanged eng r.2

theorem errorChangesNothing_done {R : Type} (eng : InventoryEngine SHARDS) (r : Call SHARDS R) :
    ErrorChangesNothing eng (Op.call.done r) ↔ ErrorChangesNothing eng r := by
  obtain ⟨r, eng'⟩ := r
  unfold ErrorChangesNothing Op.call.done
  cases r with
  | error e => simp [Except.map]
  | ok a => simp [Except.map]

/-! ## Reachable engines -/

section
variable (eng : InventoryEngine SHARDS)

theorem sections_applyVersioned (key : StockKey) (m : Movement) (v : Nat) :
    Sections eng (eng.applyVersioned key m v).2 := by
  simp only [applyVersioned]
  split
  · exact .refl
  · next h =>
    rw [Ledger.InMemoryEventStore.appendVersioned_eq]
    by_cases hv : v = (eng.shardOf key).store.version key + 1
    · rw [if_pos hv]
      exact .single (.move key m _ (not_lt.mp h) (wrapI64_lt _))
    · rw [if_neg hv]

theorem sections_receiveLot (key : StockKey) (lot : LotNumber) (qty : U32) (expiry : Option Int)
    (serials : List SerialNumber) : Sections eng (eng.receiveLot key lot qty expiry serials).2 := by
  simp only [receiveLot]
  split
  · exact .refl
  · split
    · exact .refl
    · split
      · exact .refl
      · have ha := eng.sections_append key (.received qty.1)
        split
        · next he => rw [he] at ha; exact ha
        · next he =>
          rw [he] at ha
          exact ((ha.tail (.setLots _ _)).tail (.logLot _ _)).tail (.putSerials _ _ _)

theorem sections_createPallet (location : Id Bin) (lines : List PalletLine) (id : LpnId) :
    Sections eng (eng.createPallet location lines id).2 := by
  unfold createPallet
  split
  · exact .refl
  · exact .single (.putPallet _ _)

theorem sections_pickFromLot (key : StockKey) (lot : LotNumber) (qty : U32) (asOf : Int) :
    Sections eng (eng.pickFromLot key lot qty asOf).2 := by
  simp only [pickFromLot]
  split
  · exact .refl
  · split
    · exact .refl
    · split
      · exact .refl
      · split
        · exact .refl
        · have ha := eng.sections_append key (.picked qty.1)
          split
          · next he => rw [he] at ha; exact ha
          · next he =>
            rw [he] at ha
            exact ((ha.tail (.logLot _ _)).tail (.setLots _ _)).tail (.removeSerials _)

theorem sections_pickFromPallet (lpn : LpnId) (sku : Id Sku) (lot : LotNumber) (qty : U32) (asOf : Int) :
    Sections eng (eng.pickFromPallet lpn sku lot qty asOf).2 := by
  unfold pickFromPallet
  split
  · exact .refl
  · split
    · exact .refl
    · split
      · exact .refl
      · exact (Relation.ReflTransGen.single (.putPallet _ _)).trans (sections_pick _ _ _ _)

theorem sections_movePallet (lpn : LpnId) (toBin : Id Bin) : Sections eng (eng.movePallet lpn toBin).2 := by
  unfold movePallet
  split
  · exact .refl
  · next p _ =>
    split
    · exact .refl
    · have ht := eng.sections_transferLines p.location toBin p.lines
      split
      · next he => rw [he] at ht; exact ht
      · next he => rw [he] at ht; exact ht.tail (.putPallet _ _)

theorem sections_call (op : Op) : Sections eng (op.call eng).2 := by
  cases op with
  | apply key m => exact eng.sections_append key m
  | applyVersioned key m v => exact eng.sections_applyVersioned key m v
  | receiveLot key lot qty expiry serials => exact eng.sections_receiveLot key lot qty expiry serials
  | createPallet location lines id => exact eng.sections_createPallet location lines id
  | pick key qty asOf => exact eng.sections_pick key qty asOf
  | pickFromLot key lot qty asOf => exact eng.sections_pickFromLot key lot qty asOf
  | pickFromPallet lpn sku lot qty asOf => exact eng.sections_pickFromPallet lpn sku lot qty asOf
  | movePallet lpn toBin => exact eng.sections_movePallet lpn toBin
  | reconcileCount task counted reason => exact eng.sections_reconcileLines task.bin counted reason task.lines

theorem sections_runOps (ops : List Op) : Sections eng (eng.runOps ops) := by
  induction ops generalizing eng with
  | nil => exact .refl
  | cons op ops ih => exact (eng.sections_call op).trans (ih _)

end

theorem floorKept_new (shardIndex : StockKey → Fin SHARDS) : FloorKept (new shardIndex) := by
  intro key
  show 0 ≤ (0 : Int) ∧ (0 : Int) < 2 ^ 63
  omega

theorem floorKept_of_reachable {eng : InventoryEngine SHARDS} (h : Reachable eng) : FloorKept eng := by
  obtain ⟨shardIndex, ops, rfl⟩ := h
  exact floorKept_sections (floorKept_new shardIndex) (sections_runOps _ ops)

/-! ## Picks -/

section
variable (eng : InventoryEngine SHARDS)

theorem lots_append (key : StockKey) (m : Movement) (k : StockKey) :
    (eng.appendMovementLocked key m).2.lots k = eng.lots k := by
  rcases eng.append_cases key m with ⟨-, he⟩ | ⟨-, he⟩
  · rw [he]
  · rw [he, lots_move]

theorem lots_pickEvents (key : StockKey) (cs : List LotConsumption) (k : StockKey) :
    (pickEvents key cs eng).2.lots k = eng.lots k := by
  induction cs generalizing eng with
  | nil => rfl
  | cons c cs ih =>
    have ha := eng.lots_append key (.picked c.qty) k
    unfold pickEvents
    split
    · next he => rw [he] at ha; exact ha
    · next he =>
      rw [he] at ha
      rw [ih, lots_logLot]
      exact ha

/-- Taking out `qty` units passes the floor check exactly when they are there. -/
theorem append_picked_cases (key : StockKey) {qty : Nat} (h : FloorKept eng) (hq : qty < 2 ^ 32) :
    (eng.onHand key < qty ∧ ∃ e, eng.appendMovementLocked key (.picked qty) = (.error e, eng)) ∨
    (qty ≤ eng.onHand key ∧ eng.appendMovementLocked key (.picked qty) =
      (.ok (eng.onHand key - qty), eng.move key (.picked qty) (eng.onHand key - qty))) := by
  obtain ⟨h0, h1⟩ := h key
  have hd : wrapI64 (eng.onHand key + (Movement.picked qty).delta) = eng.onHand key - qty := by
    show wrapI64 (eng.onHand key + -(qty : Int)) = _
    rw [wrapI64_of_lt (by omega) (by omega)]
    omega
  rcases eng.append_cases key (.picked qty) with ⟨hn, he⟩ | ⟨hp, he⟩
  · exact Or.inl ⟨by omega, _, he⟩
  · rw [hd] at hp he
    exact Or.inr ⟨by omega, he⟩

/-- The events of a pick go through exactly when the bin has the units. -/
theorem pickEvents_error_iff (key : StockKey) {cs : List LotConsumption} (h : FloorKept eng)
    (hc : consumed cs < 2 ^ 32) :
    (∃ e, (pickEvents key cs eng).1 = .error e) ↔ eng.onHand key < consumed cs := by
  induction cs generalizing eng with
  | nil =>
    have := (h key).1
    constructor
    · rintro ⟨e, he⟩
      exact nomatch he
    · intro hlt
      simp only [consumed, List.map_nil, List.sum_nil] at hlt
      omega
  | cons c cs ih =>
    have hs : consumed (c :: cs) = c.qty + consumed cs := rfl
    rw [hs] at hc ⊢
    unfold pickEvents
    rcases eng.append_picked_cases key h (show c.qty < 2 ^ 32 by omega) with ⟨hn, e, he⟩ | ⟨hp, he⟩
    · rw [he]
      exact ⟨fun _ => by omega, fun _ => ⟨e, rfl⟩⟩
    · have hk : FloorKept (((eng.move key (.picked c.qty) (eng.onHand key - c.qty))).logLot key
          (.picked c.lot c.qty c.serials)) := by
        have ha := eng.sections_append key (.picked c.qty)
        rw [he] at ha
        exact floorKept_sections h (ha.tail (.logLot _ _))
      rw [he]
      show (∃ e, (pickEvents key cs _).1 = .error e) ↔ _
      rw [ih _ hk (by omega), onHand_logLot, onHand_move, if_pos rfl]
      omega

/-- When a pick does what it says or leaves the engine alone: it asks for nothing, or for more than
may be issued, or the bin has the units. -/
def PickClean (key : StockKey) (qty : U32) (asOf : Int) : Prop :=
  qty.1 = 0 ∨ issuable (eng.lots key) asOf < qty.1 ∨ (qty.1 : Int) ≤ eng.onHand key

/-- A pick refused early leaves the engine alone; one that is planned and fails has changed the lots. -/
theorem pick_cases (key : StockKey) (qty : U32) (asOf : Int) (h : FloorKept eng) :
    ((qty.1 = 0 ∨ issuable (eng.lots key) asOf < qty.1) ∧ ∃ e, eng.pick key qty asOf = (.error e, eng)) ∨
    (0 < qty.1 ∧ qty.1 ≤ issuable (eng.lots key) asOf ∧
      ((∃ e, (eng.pick key qty asOf).1 = .error e) ↔ eng.onHand key < qty.1) ∧
      (eng.onHand key < qty.1 → (eng.pick key qty asOf).2.lots key ≠ eng.lots key)) := by
  simp only [pick]
  split
  · next h0 => exact Or.inl ⟨Or.inl h0, _, rfl⟩
  · next h0 =>
    rcases buildPickPlan_cases (eng.lots key) qty.1 asOf key with ⟨hlt, e, he⟩ | ⟨hle, hp, he⟩
    · rw [he]
      exact Or.inl ⟨Or.inr hlt, e, rfl⟩
    · obtain ⟨hc, hne⟩ := takePlan_spec (Nat.pos_of_ne_zero h0) hp
      have hk : FloorKept (eng.setLots key
          (takePlan (eng.lots key) (planLoop (pickCandidates (eng.lots key) asOf) qty.1).1).1) :=
        floorKept_section h (.setLots key _)
      have hi := pickEvents_error_iff _ key hk (hc ▸ qty.2)
      have hl := (eng.setLots key (takePlan (eng.lots key)
        (planLoop (pickCandidates (eng.lots key) asOf) qty.1).1).1).lots_pickEvents key
        (takePlan (eng.lots key) (planLoop (pickCandidates (eng.lots key) asOf) qty.1).1).2 key
      rw [onHand_setLots, hc] at hi
      rw [lots_setLots, if_pos rfl] at hl
      rw [he]
      refine Or.inr ⟨Nat.pos_of_ne_zero h0, hle, ?_⟩
      dsimp only
      split
      · next hev =>
        rw [hev] at hi hl
        exact ⟨⟨fun _ => hi.mp ⟨_, rfl⟩, fun _ => ⟨_, rfl⟩⟩, fun _ => by rw [hl]; exact hne⟩
      · next hev =>
        rw [hev] at hi
        have hn : ¬ eng.onHand key < qty.1 := by
          intro hlt
          obtain ⟨e, he⟩ := hi.mpr hlt
          cases he
        refine ⟨⟨?_, fun hlt => absurd hlt hn⟩, fun hlt => absurd hlt hn⟩
        rintro ⟨e, he⟩
        cases he

theorem pick_clean_iff {key : StockKey} {qty : U32} {asOf : Int} (h : FloorKept eng) :
    ErrorChangesNothing eng (eng.pick key qty asOf) ↔ eng.PickClean key qty asOf := by
  unfold ErrorChangesNothing PickClean
  rcases eng.pick_cases key qty asOf h with ⟨hr, e, he⟩ | ⟨h0, hle, hi, hne⟩
  · rw [he]
    refine iff_of_true (fun _ _ => unchanged_refl eng) ?_
    rcases hr with hr | hr
    · exact Or.inl hr
    · exact Or.inr (Or.inl hr)
  · constructor
    · intro hc
      refine Or.inr (Or.inr (not_lt.mp fun hlt => ?_))
      obtain ⟨e, he⟩ := hi.mpr hlt
      exact hne hlt ((hc e he).lots key)
    · intro hc e he
      have hlt : eng.onHand key < qty.1 := hi.mp ⟨e, he⟩
      omega

theorem pickFromLot_clean (key : StockKey) (lot : LotNumber) (qty : U32) (asOf : Int) :
    ErrorChangesNothing eng (eng.pickFromLot key lot qty asOf) := by
  intro e he
  simp only [pickFromLot] at he ⊢
  split
  · exact unchanged_refl eng
  · next h0 =>
    rw [if_neg h0] at he
    split
    · exact unchanged_refl eng
    · next ld hf =>
      rw [hf] at he
      dsimp only at he
      split
      · exact unchanged_refl eng
      · next hx =>
        rw [if_neg hx] at he
        split
        · exact unchanged_refl eng
        · next hq =>
          rw [if_neg hq] at he
          rcases eng.append_cases key (.picked qty.1) with ⟨-, ha⟩ | ⟨-, ha⟩
          · rw [ha]
            exact unchanged_refl eng
          · rw [ha] at he
            exact nomatch he

end

/-! ## Pallets -/

section
variable (eng : InventoryEngine SHARDS)

/-- Taking nothing off a line. -/
theorem takeLine_zero (sku : Id Sku) (lot : LotNumber) (ls : List PalletLine) : takeLine sku lot 0 ls = ls := by
  induction ls with
  | nil => rfl
  | cons l ls ih =>
    unfold takeLine
    rw [ih]
    split
    · rfl
    · rfl

/-- The quantity of the first line changes. -/
theorem takeLine_ne {sku : Id Sku} {lot : LotNumber} {ls : List PalletLine} {line : PalletLine} {qty : Nat}
    (hf : ls.find? (fun l => l.sku = sku ∧ l.lot = lot) = some line) (h0 : 0 < qty) (hq : qty ≤ line.qty.1) :
    takeLine sku lot qty ls ≠ ls := by
  induction ls with
  | nil => exact nomatch hf
  | cons l ls ih =>
    unfold takeLine
    by_cases hl : l.sku = sku ∧ l.lot = lot
    · rw [List.find?_cons_of_pos (by simpa using hl)] at hf
      obtain rfl := Option.some.inj hf
      rw [if_pos hl]
      intro h
      have hv := congrArg (fun l => l.qty.1) (List.cons.inj h).1
      dsimp only at hv
      omega
    · rw [List.find?_cons_of_neg (by simpa using hl)] at hf
      rw [if_neg hl]
      intro h
      exact ih hf (List.cons.inj h).2

theorem pallet_putPallet (lpn lpn' : LpnId) (p : Pallet) :
    (eng.putPallet lpn p).pallet lpn' = if lpn' = lpn then some p else eng.pallet lpn' := by
  unfold pallet putPallet
  exact AssocMap.lookup_insert_eq _ _ _ _

theorem unchanged_putPallet {lpn : LpnId} {p : Pallet} (h : eng.pallet lpn = some p) :
    Unchanged eng (eng.putPallet lpn p) := by
  refine ⟨fun _ => rfl, fun _ => rfl, fun _ => rfl, fun _ => rfl, fun _ => rfl, fun lpn' => ?_⟩
  rw [pallet_putPallet]
  split
  · next hl => rw [hl, h]
  · rfl

theorem pallet_append (key : StockKey) (m : Movement) (lpn : LpnId) :
    (eng.appendMovementLocked key m).2.pallet lpn = eng.pallet lpn := by
  rcases eng.append_cases key m with ⟨-, he⟩ | ⟨-, he⟩
  · rw [he]
  · rw [he]
    rfl

theorem pallet_pickEvents (key : StockKey) (cs : List LotConsumption) (lpn : LpnId) :
    (pickEvents key cs eng).2.pallet lpn = eng.pallet lpn := by
  induction cs generalizing eng with
  | nil => rfl
  | cons c cs ih =>
    have ha := eng.pallet_append key (.picked c.qty) lpn
    unfold pickEvents
    split
    · next he => rw [he] at ha; exact ha
    · next he =>
      rw [he] at ha
      rw [ih]
      exact ha

theorem pallet_pick (key : StockKey) (qty : U32) (asOf : Int) (lpn : LpnId) :
    (eng.pick key qty asOf).2.pallet lpn = eng.pallet lpn := by
  simp only [pick]
  split
  · rfl
  · split
    · rfl
    · next plan _ =>
      have hp := (eng.setLots key (takePlan (eng.lots key) plan).1).pallet_pickEvents key
        (takePlan (eng.lots key) plan).2 lpn
      split
      · next he => rw [he] at hp; exact hp
      · next he => rw [he] at hp; exact hp

/-- When a pick from a pallet is clean: it is refused before the line is lowered, or it asks for
nothing, or its pick succeeds. -/
def PalletPickClean (lpn : LpnId) (sku : Id Sku) (lot : LotNumber) (qty : U32) (asOf : Int) : Prop :=
  ∀ p line, eng.pallet lpn = some p → p.lines.find? (fun l => l.sku = sku ∧ l.lot = lot) = some line →
    qty.1 ≤ line.qty.1 → qty.1 = 0 ∨
      (qty.1 ≤ issuable (eng.lots ⟨p.location, sku⟩) asOf ∧ (qty.1 : Int) ≤ eng.onHand ⟨p.location, sku⟩)

theorem pickFromPallet_clean_iff {lpn : LpnId} {sku : Id Sku} {lot : LotNumber} {qty : U32} {asOf : Int}
    (h : FloorKept eng) :
    ErrorChangesNothing eng (eng.pickFromPallet lpn sku lot qty asOf) ↔
      eng.PalletPickClean lpn sku lot qty asOf := by
  unfold pickFromPallet PalletPickClean
  cases hp : eng.pallet lpn with
  | none => exact iff_of_true (fun _ _ => unchanged_refl eng) (fun _ _ h => (nomatch h))
  | some p =>
    dsimp only
    cases hl : p.lines.find? (fun l => l.sku = sku ∧ l.lot = lot) with
    | none =>
      refine iff_of_true (fun _ _ => unchanged_refl eng) ?_
      rintro _ line ⟨⟩ hf
      rw [hl] at hf
      exact nomatch hf
    | some line =>
      dsimp only
      by_cases hq : line.qty.1 < qty.1
      · rw [if_pos hq]
        refine iff_of_true (fun _ _ => unchanged_refl eng) ?_
        rintro _ line' ⟨⟩ hf hle
        rw [hl] at hf
        obtain rfl := Option.some.inj hf
        omega
      · rw [if_neg hq]
        have hk : FloorKept (eng.putPallet lpn { p with lines := takeLine sku lot qty.1 p.lines }) :=
          floorKept_section h (.putPallet _ _)
        have hpal := (eng.putPallet lpn { p with lines := takeLine sku lot qty.1 p.lines }).pallet_pick
          ⟨p.location, sku⟩ qty asOf lpn
        rw [pallet_putPallet, if_pos rfl] at hpal
        -- a pick that fails leaves the line lowered
        have hbad : 0 < qty.1 → ¬ Unchanged eng
            ((eng.putPallet lpn { p with lines := takeLine sku lot qty.1 p.lines }).pick
              ⟨p.location, sku⟩ qty asOf).2 := by
          intro h0 hu
          have hv := hu.pallets lpn
          rw [hpal, hp] at hv
          exact takeLine_ne hl h0 (not_lt.mp hq) (congrArg Pallet.lines (Option.some.inj hv))
        constructor
        · rintro hc _ line' ⟨⟩ hf -
          by_contra hn
          obtain ⟨h0, hn⟩ := not_or.mp hn
          have h0 : 0 < qty.1 := Nat.pos_of_ne_zero h0
          rcases pick_cases _ ⟨p.location, sku⟩ qty asOf hk with
            ⟨-, e, he⟩ | ⟨-, hle, hi, -⟩
          · refine hbad h0 (hc e ?_)
            rw [he]
          · obtain ⟨e, he⟩ := hi.mpr (by
              rw [onHand_putPallet]
              exact not_le.mp fun hle' => hn ⟨hle, hle'⟩)
            exact hbad h0 (hc e he)
        · intro hc e he
          rcases pick_cases _ ⟨p.location, sku⟩ qty asOf hk with
            ⟨hr, e', he'⟩ | ⟨h0, hle, hi, -⟩
          · rcases hc p line rfl hl (not_lt.mp hq) with h0 | ⟨hle, -⟩
            · rw [he', h0, takeLine_zero]
              exact unchanged_putPallet eng hp
            · rw [lots_putPallet] at hr
              have h0 : qty.1 = 0 := by omega
              rw [he', h0, takeLine_zero]
              exact unchanged_putPallet eng hp
          · have hlt := hi.mp ⟨e, he⟩
            rw [onHand_putPallet] at hlt
            rcases hc p line rfl hl (not_lt.mp hq) with h0' | ⟨-, hle'⟩
            · omega
            · omega

/-- What one line of a move needs. -/
structure Fits (eng : InventoryEngine SHARDS) (location toBin : Id Bin) (line : PalletLine) : Prop where
  positive : 0 < line.qty.1
  lot : line.qty.1 ≤ lotOnHand (eng.lots ⟨location, line.sku⟩) line.lot
  stock : (line.qty.1 : Int) ≤ eng.onHand ⟨location, line.sku⟩
  room : eng.onHand ⟨toBin, line.sku⟩ + line.qty.1 < 2 ^ 63

/-- The line is refused before anything is changed. -/
def Refused (eng : InventoryEngine SHARDS) (location : Id Bin) (line : PalletLine) : Prop :=
  line.qty.1 = 0 ∨ lotOnHand (eng.lots ⟨location, line.sku⟩) line.lot < line.qty.1

/-- What a line that was carried has changed, of what other lines ask for. -/
structure CarriedLine (eng eng' : InventoryEngine SHARDS) (location toBin : Id Bin) (line : PalletLine) :
    Prop where
  lot : ∀ sku lot, lotOnHand (eng'.lots ⟨location, sku⟩) lot =
    lotOnHand (eng.lots ⟨location, sku⟩) lot - if line.sku = sku ∧ line.lot = lot then line.qty.1 else 0
  stock : ∀ sku, eng'.onHand ⟨location, sku⟩ =
    eng.onHand ⟨location, sku⟩ - ((if line.sku = sku then line.qty.1 else 0 : Nat) : Int)
  room : ∀ sku, eng'.onHand ⟨toBin, sku⟩ =
    eng.onHand ⟨toBin, sku⟩ + ((if line.sku = sku then line.qty.1 else 0 : Nat) : Int)
  logged : ∃ i, (eng.shards i).store.log.length < (eng'.shards i).store.log.length

theorem not_unchanged_of_logged {eng eng' : InventoryEngine SHARDS}
    (h : ∃ i, (eng.shards i).store.log.length < (eng'.shards i).store.log.length) : ¬ Unchanged eng eng' := by
  intro hu
  obtain ⟨i, hi⟩ := h
  rw [hu.log i] at hi
  exact lt_irrefl _ hi

/-- Receiving units passes the floor check exactly when the sum does not overflow. -/
theorem append_received_cases (key : StockKey) {qty : Nat} (h : FloorKept eng) (hq : qty < 2 ^ 32) :
    (2 ^ 63 ≤ eng.onHand key + qty ∧ ∃ e, eng.appendMovementLocked key (.received qty) = (.error e, eng)) ∨
    (eng.onHand key + qty < 2 ^ 63 ∧ eng.appendMovementLocked key (.received qty) =
      (.ok (eng.onHand key + qty), eng.move key (.received qty) (eng.onHand key + qty))) := by
  obtain ⟨h0, h1⟩ := h key
  rcases eng.append_cases key (.received qty) with ⟨hn, he⟩ | ⟨hp, he⟩
  · refine Or.inl ⟨?_, _, he⟩
    by_contra hlt
    rw [show (Movement.received qty).delta = (qty : Int) from rfl, wrapI64_of_lt (by omega) (by omega)] at hn
    omega
  · rw [show (Movement.received qty).delta = (qty : Int) from rfl] at hp he
    by_cases hlt : eng.onHand key + qty < 2 ^ 63
    · rw [wrapI64_of_lt (by omega) hlt] at he
      exact Or.inr ⟨hlt, he⟩
    · have := wrapI64_neg (x := eng.onHand key + qty) (by omega) (by omega)
      omega

theorem logged_after_move (key : StockKey) (m : Movement) (q : Int) {eng' : InventoryEngine SHARDS}
    (h : Sections (eng.move key m q) eng') :
    ∃ i, (eng.shards i).store.log.length < (eng'.shards i).store.log.length := by
  refine ⟨eng.shardIndex key, ?_⟩
  have hm := eng.log_move key m q (eng.shardIndex key)
  have hl := logLe_sections h (eng.shardIndex key)
  rw [if_pos rfl] at hm
  omega

/-- A line is carried by its arrival, after a departure that lowered its lot and its bin. -/
theorem carriedLine_arrived {location toBin : Id Bin} (line : PalletLine) (hb : location ≠ toBin)
    (mid : InventoryEngine SHARDS) (lots : List LotDetail) (e : LotEvent)
    (hlots : ∀ k, mid.lots k = if k = ⟨location, line.sku⟩ then
      updateLot line.lot (fun ld => ld.take line.qty.1) (eng.lots ⟨location, line.sku⟩) else eng.lots k)
    (hon : ∀ k, mid.onHand k = if k = ⟨location, line.sku⟩ then
      eng.onHand ⟨location, line.sku⟩ - line.qty.1 else eng.onHand k)
    (hlog : ∃ i, (eng.shards i).store.log.length < (mid.shards i).store.log.length) :
    CarriedLine eng (((mid.move ⟨toBin, line.sku⟩ (.received line.qty.1)
      (mid.onHand ⟨toBin, line.sku⟩ + line.qty.1)).setLots ⟨toBin, line.sku⟩ lots).logLot ⟨toBin, line.sku⟩ e)
      location toBin line := by
  have hne : ∀ sku : Id Sku, (⟨location, sku⟩ : StockKey) ≠ ⟨toBin, line.sku⟩ := by
    intro sku he
    exact hb (StockKey.mk.inj he).1
  have hne' : ∀ sku : Id Sku, (⟨toBin, sku⟩ : StockKey) ≠ ⟨location, line.sku⟩ := by
    intro sku he
    exact hb (StockKey.mk.inj he).1.symm
  have hsku : ∀ (b : Id Bin) (sku : Id Sku), ((⟨b, sku⟩ : StockKey) = ⟨b, line.sku⟩) ↔ line.sku = sku := by
    intro b sku
    exact ⟨fun he => (StockKey.mk.inj he).2.symm, fun he => by rw [he]⟩
  refine ⟨?_, ?_, ?_, ?_⟩
  · intro sku lot
    rw [lots_logLot, lots_setLots, if_neg (hne sku), lots_move, hlots]
    by_cases hk : line.sku = sku
    · subst hk
      rw [if_pos rfl, lotOnHand_updateLot]
      by_cases hlot : line.lot = lot
      · subst hlot
        simp
      · rw [if_neg (Ne.symm hlot), if_neg (fun hc => hlot hc.2)]
        rfl
    · rw [if_neg (fun hc => hk ((hsku _ _).mp hc)), if_neg (fun hc => hk hc.1)]
      rfl
  · intro sku
    rw [onHand_logLot, onHand_setLots, onHand_move, if_neg (hne sku), hon]
    by_cases hk : line.sku = sku
    · subst hk
      rw [if_pos rfl, if_pos rfl]
    · rw [if_neg (fun hc => hk ((hsku _ _).mp hc)), if_neg hk]
      omega
  · intro sku
    rw [onHand_logLot, onHand_setLots, onHand_move, hon, if_neg (hne' line.sku), hon, if_neg (hne' sku)]
    by_cases hk : line.sku = sku
    · subst hk
      rw [if_pos rfl, if_pos rfl]
    · rw [if_neg (fun hc => hk ((hsku _ _).mp hc)), if_neg hk]
      omega
  · obtain ⟨i, hi⟩ := hlog
    refine ⟨i, ?_⟩
    rw [log_logLot, log_setLots, log_move]
    omega

/-- A line is refused, or is carried, or fails with something changed. -/
theorem transferLot_cases {location toBin : Id Bin} (line : PalletLine) (h : FloorKept eng)
    (hb : location ≠ toBin) :
    (Refused eng location line ∧
      ∃ e, eng.transferLot ⟨location, line.sku⟩ line.lot line.qty location toBin = (.error e, eng)) ∨
    (¬ Refused eng location line ∧ ¬ Fits eng location toBin line ∧ ∃ e eng',
      eng.transferLot ⟨location, line.sku⟩ line.lot line.qty location toBin = (.error e, eng') ∧
        ¬ Unchanged eng eng') ∨
    (Fits eng location toBin line ∧ ∃ eng',
      eng.transferLot ⟨location, line.sku⟩ line.lot line.qty location toBin = (.ok (), eng') ∧
        CarriedLine eng eng' location toBin line) := by
  obtain ⟨sku, lot, qty⟩ := line
  simp only [transferLot]
  by_cases h0 : qty.1 = 0
  · rw [if_pos h0]
    exact Or.inl ⟨Or.inl h0, _, rfl⟩
  · rw [if_neg h0]
    cases hf : findLot (eng.lots ⟨location, sku⟩) lot with
    | none =>
      refine Or.inl ⟨Or.inr ?_, _, rfl⟩
      rw [lotOnHand_of_find_none hf]
      exact Nat.pos_of_ne_zero h0
    | some ld =>
      have hl := lotOnHand_of_find hf
      dsimp only
      by_cases hq : ld.onHand < qty.1
      · rw [if_pos hq]
        exact Or.inl ⟨Or.inr (by rw [hl]; exact hq), _, rfl⟩
      · rw [if_neg hq]
        have hpos : 0 < qty.1 := Nat.pos_of_ne_zero h0
        have hnr : ¬ Refused eng location ⟨sku, lot, qty⟩ := by
          rintro (hr | hr)
          · exact h0 hr
          · exact hq (by rw [← hl]; exact hr)
        obtain ⟨e₁, h₁⟩ : ∃ e₁, e₁ = eng.setLots ⟨location, sku⟩
            (updateLot lot (fun ld => ld.take qty.1) (eng.lots ⟨location, sku⟩)) := ⟨_, rfl⟩
        have hl₁ : ∀ k, e₁.lots k = if k = ⟨location, sku⟩ then
            updateLot lot (fun ld => ld.take qty.1) (eng.lots ⟨location, sku⟩) else eng.lots k := by
          intro k
          rw [h₁, lots_setLots]
        have hon₁ : ∀ k, e₁.onHand k = eng.onHand k := fun k => by rw [h₁, onHand_setLots]
        have hlog₁ : ∀ i, (e₁.shards i).store.log.length = (eng.shards i).store.log.length := fun i => by
          rw [h₁, log_setLots]
        have hk₁ : FloorKept e₁ := h₁ ▸ floorKept_section h (.setLots _ _)
        rw [← h₁]
        rcases e₁.append_picked_cases ⟨location, sku⟩ hk₁ qty.2 with ⟨hn, e, he⟩ | ⟨hs, he⟩
        · -- the floor check fails, with the lot lowered
          rw [he]
          rw [hon₁] at hn
          refine Or.inr (Or.inl ⟨hnr, fun hfit => absurd hfit.stock (not_le.mpr hn), _, _, rfl, ?_⟩)
          intro hu
          have hv := hu.lots ⟨location, sku⟩
          rw [hl₁, if_pos rfl] at hv
          exact updateLot_ne hpos (by omega) hv
        · rw [he]
          dsimp only
          obtain ⟨e₂, h₂⟩ : ∃ e₂, e₂ = ((e₁.move ⟨location, sku⟩ (.picked qty.1)
              (e₁.onHand ⟨location, sku⟩ - qty.1)).logLot ⟨location, sku⟩
              (.transferred lot qty.1 location toBin (ld.takenSerials qty.1))).putSerials
              (ld.takenSerials qty.1) ⟨toBin, sku⟩ lot := ⟨_, rfl⟩
          have hs₂ : Sections (e₁.move ⟨location, sku⟩ (.picked qty.1)
              (e₁.onHand ⟨location, sku⟩ - qty.1)) e₂ := by
            rw [h₂]
            exact (Relation.ReflTransGen.single (.logLot _ _)).tail (.putSerials _ _ _)
          have hl₂ : ∀ k, e₂.lots k = e₁.lots k := fun k => by
            rw [h₂, lots_putSerials, lots_logLot, lots_move]
          have hon₂ : ∀ k, e₂.onHand k = if k = ⟨location, sku⟩ then
              eng.onHand ⟨location, sku⟩ - qty.1 else eng.onHand k := fun k => by
            rw [h₂, onHand_putSerials, onHand_logLot, onHand_move, hon₁, hon₁]
          have hk₂ : FloorKept e₂ := by
            have ha := e₁.sections_append ⟨location, sku⟩ (.picked qty.1)
            rw [he] at ha
            exact floorKept_sections hk₁ (ha.trans hs₂)
          have hroom : e₂.onHand ⟨toBin, sku⟩ = eng.onHand ⟨toBin, sku⟩ := by
            rw [hon₂, if_neg fun he => hb (StockKey.mk.inj he).1.symm]
          rw [← h₂]
          have hlog : ∃ i, (eng.shards i).store.log.length < (e₂.shards i).store.log.length := by
            obtain ⟨i, hi⟩ := e₁.logged_after_move _ _ _ hs₂
            exact ⟨i, by rw [← hlog₁]; exact hi⟩
          rcases e₂.append_received_cases ⟨toBin, sku⟩ hk₂ qty.2 with ⟨hn, e, hr⟩ | ⟨hn, hr⟩
          · -- the destination overflows, with the source lowered
            rw [hr]
            rw [hroom] at hn
            exact Or.inr (Or.inl ⟨hnr, fun hfit => absurd hfit.room (not_lt.mpr hn), _, _, rfl,
              not_unchanged_of_logged hlog⟩)
          · rw [hr]
            rw [hon₁] at hs
            have hlots : ∀ k, e₂.lots k = if k = ⟨location, sku⟩ then
                updateLot lot (fun ld => ld.take qty.1) (eng.lots ⟨location, sku⟩) else eng.lots k := fun k => by
              rw [hl₂, hl₁]
            exact Or.inr (Or.inr ⟨⟨hpos, by rw [hl]; exact not_lt.mp hq, hs, by rw [hroom] at hn; exact hn⟩, _, rfl,
              eng.carriedLine_arrived ⟨sku, lot, qty⟩ hb e₂ _ _ hlots hon₂ hlog⟩)

/-- The units of a SKU, and of one lot of it, that lines move. -/
def moved (lines : List PalletLine) (sku : Id Sku) : Nat :=
  (lines.map fun l => if l.sku = sku then l.qty.1 else 0).sum

def movedLot (lines : List PalletLine) (sku : Id Sku) (lot : LotNumber) : Nat :=
  (lines.map fun l => if l.sku = sku ∧ l.lot = lot then l.qty.1 else 0).sum

/-- The bin has what the lines move, lot by lot and in total, and the other bin has room for it. -/
structure Carried (eng : InventoryEngine SHARDS) (location toBin : Id Bin) (lines : List PalletLine) :
    Prop where
  positive : ∀ line ∈ lines, 0 < line.qty.1
  lot : ∀ sku lot, movedLot lines sku lot ≤ lotOnHand (eng.lots ⟨location, sku⟩) lot
  stock : ∀ sku, (moved lines sku : Int) ≤ eng.onHand ⟨location, sku⟩
  room : ∀ sku, eng.onHand ⟨toBin, sku⟩ + moved lines sku < 2 ^ 63

theorem moved_cons (line : PalletLine) (lines : List PalletLine) (sku : Id Sku) :
    moved (line :: lines) sku = (if line.sku = sku then line.qty.1 else 0) + moved lines sku := rfl

theorem movedLot_cons (line : PalletLine) (lines : List PalletLine) (sku : Id Sku) (lot : LotNumber) :
    movedLot (line :: lines) sku lot =
      (if line.sku = sku ∧ line.lot = lot then line.qty.1 else 0) + movedLot lines sku lot := rfl

theorem Carried.fits {eng : InventoryEngine SHARDS} {location toBin : Id Bin} {line : PalletLine}
    {lines : List PalletLine} (h : Carried eng location toBin (line :: lines)) :
    Fits eng location toBin line := by
  have hl := h.lot line.sku line.lot
  have hs := h.stock line.sku
  have hr := h.room line.sku
  rw [movedLot_cons, if_pos ⟨rfl, rfl⟩] at hl
  rw [moved_cons, if_pos rfl] at hs hr
  exact ⟨h.positive line List.mem_cons_self, by omega, by omega, by omega⟩

/-- The lines are carried when the first one fits and the others are carried after it. -/
theorem carried_cons_iff {eng eng' : InventoryEngine SHARDS} {location toBin : Id Bin} {line : PalletLine}
    (lines : List PalletLine) (hf : Fits eng location toBin line) (hc : CarriedLine eng eng' location toBin line) :
    Carried eng location toBin (line :: lines) ↔ Carried eng' location toBin lines := by
  have hp : (∀ l ∈ line :: lines, 0 < l.qty.1) ↔ ∀ l ∈ lines, 0 < l.qty.1 := by
    rw [List.forall_mem_cons]
    exact and_iff_right hf.positive
  have hl : ∀ sku lot, movedLot (line :: lines) sku lot ≤ lotOnHand (eng.lots ⟨location, sku⟩) lot ↔
      movedLot lines sku lot ≤ lotOnHand (eng'.lots ⟨location, sku⟩) lot := by
    intro sku lot
    rw [movedLot_cons, hc.lot]
    split
    · next he =>
      obtain ⟨rfl, rfl⟩ := he
      have := hf.lot
      omega
    · omega
  have hs : ∀ sku, (moved (line :: lines) sku : Int) ≤ eng.onHand ⟨location, sku⟩ ↔
      (moved lines sku : Int) ≤ eng'.onHand ⟨location, sku⟩ := by
    intro sku
    rw [moved_cons, hc.stock]
    omega
  have hr : ∀ sku, eng.onHand ⟨toBin, sku⟩ + moved (line :: lines) sku < 2 ^ 63 ↔
      eng'.onHand ⟨toBin, sku⟩ + moved lines sku < 2 ^ 63 := by
    intro sku
    rw [moved_cons, hc.room]
    omega
  constructor
  · intro h
    exact ⟨hp.mp h.positive, fun sku lot => (hl sku lot).mp (h.lot sku lot), fun sku => (hs sku).mp (h.stock sku),
      fun sku => (hr sku).mp (h.room sku)⟩
  · intro h
    exact ⟨hp.mpr h.positive, fun sku lot => (hl sku lot).mpr (h.lot sku lot),
      fun sku => (hs sku).mpr (h.stock sku), fun sku => (hr sku).mpr (h.room sku)⟩

/-- Lines that are not all carried fail, and what was carried before stays carried. -/
theorem transferLines_cases {location toBin : Id Bin} (lines : List PalletLine) (h : FloorKept eng)
    (hb : location ≠ toBin) :
    (Carried eng location toBin lines ∧ (transferLines location toBin lines eng).1 = .ok ()) ∨
    (¬ Carried eng location toBin lines ∧ (∃ e, (transferLines location toBin lines eng).1 = .error e) ∧
      (Unchanged eng (transferLines location toBin lines eng).2 ↔
        ∃ line rest, lines = line :: rest ∧ Refused eng location line)) := by
  induction lines generalizing eng with
  | nil =>
    refine Or.inl ⟨⟨nofun, fun _ _ => Nat.zero_le _, fun sku => (h ⟨location, sku⟩).1, fun sku => ?_⟩, rfl⟩
    have := (h ⟨toBin, sku⟩).2
    simpa [moved] using this
  | cons line lines ih =>
    unfold transferLines
    rcases eng.transferLot_cases line h hb with ⟨hr, e, he⟩ | ⟨hr, hf, e, mid, he, hu⟩ | ⟨hf, mid, he, hc⟩
    · -- refused: nothing was changed
      have hn : ¬ Fits eng location toBin line := by
        intro hf
        have h0 := hf.positive
        have hl := hf.lot
        rcases hr with hr | hr
        · omega
        · omega
      rw [he]
      exact Or.inr ⟨fun hc => hn hc.fits, ⟨e, rfl⟩, iff_of_true (unchanged_refl eng) ⟨line, lines, rfl, hr⟩⟩
    · -- failed half-way
      rw [he]
      refine Or.inr ⟨fun hc => hf hc.fits, ⟨e, rfl⟩, iff_of_false hu ?_⟩
      rintro ⟨line', rest, heq, hr'⟩
      obtain ⟨rfl, -⟩ := List.cons.inj heq
      exact hr hr'
    · -- carried: the log has grown, whatever the other lines do
      have hs := eng.sections_transferLot ⟨location, line.sku⟩ line.lot line.qty location toBin
      rw [he] at hs
      have hnu : ¬ Unchanged eng (transferLines location toBin lines mid).2 := by
        obtain ⟨i, hi⟩ := hc.logged
        exact not_unchanged_of_logged
          ⟨i, hi.trans_le (logLe_sections (mid.sections_transferLines location toBin lines) i)⟩
      rw [he]
      rcases ih mid (floorKept_sections h hs) with ⟨hcar, hok⟩ | ⟨hcar, herr, -⟩
      · exact Or.inl ⟨(carried_cons_iff lines hf hc).mpr hcar, hok⟩
      · refine Or.inr ⟨fun hc' => hcar ((carried_cons_iff lines hf hc).mp hc'), herr, iff_of_false hnu ?_⟩
        rintro ⟨line', rest, heq, hr⟩
        obtain ⟨rfl, -⟩ := List.cons.inj heq
        have h0 := hf.positive
        have hl := hf.lot
        rcases hr with hr | hr
        · omega
        · omega

/-- When a move of a pallet is clean: all its lines are carried, or the first is refused. -/
def MoveClean (lpn : LpnId) (toBin : Id Bin) : Prop :=
  ∀ p, eng.pallet lpn = some p → p.location ≠ toBin →
    Carried eng p.location toBin p.lines ∨ ∃ line rest, p.lines = line :: rest ∧ Refused eng p.location line

theorem movePallet_clean_iff {lpn : LpnId} {toBin : Id Bin} (h : FloorKept eng) :
    ErrorChangesNothing eng (eng.movePallet lpn toBin) ↔ eng.MoveClean lpn toBin := by
  unfold movePallet MoveClean
  cases hp : eng.pallet lpn with
  | none => exact iff_of_true (fun _ _ => unchanged_refl eng) (fun _ h => (nomatch h))
  | some p =>
    dsimp only
    by_cases hb : p.location = toBin
    · rw [if_pos hb]
      refine iff_of_true (fun _ h => (nomatch h)) ?_
      rintro _ ⟨⟩ hne
      exact absurd hb hne
    · rw [if_neg hb]
      rcases eng.transferLines_cases p.lines h hb with ⟨hc, hok⟩ | ⟨hc, ⟨e, herr⟩, hu⟩
      · split
        · next he => rw [he] at hok; exact nomatch hok
        · refine iff_of_true (fun _ h => (nomatch h)) ?_
          rintro _ ⟨⟩ -
          exact Or.inl hc
      · split
        · next e' mid he =>
          rw [he] at hu
          constructor
          · rintro hcl _ ⟨⟩ -
            exact Or.inr (hu.mp (hcl e' rfl))
          · intro hcl _ _
            rcases hcl p rfl hb with hcar | hr
            · exact absurd hcar hc
            · exact hu.mpr hr
        · next he => rw [he] at herr; exact nomatch herr

end

/-! ## Counts -/

section
variable (eng : InventoryEngine SHARDS) (bin : Id Bin) (counted : StockKey → I64)

/-- The SKUs before the first one whose count is negative. -/
def beforeNegative (lines : List (Id Sku)) : List (Id Sku) :=
  lines.takeWhile fun sku => 0 ≤ (counted ⟨bin, sku⟩).1

/-- A negative count ends the loop; the SKUs before it keep their adjustments. -/
theorem reconcileLines_cases (reason : Reason) (lines : List (Id Sku)) (h : FloorKept eng) :
    ((∀ sku ∈ lines, 0 ≤ (counted ⟨bin, sku⟩).1) ∧
      ∃ r, (reconcileLines bin counted reason lines eng).1 = .ok r) ∨
    ((∃ sku ∈ lines, (counted ⟨bin, sku⟩).1 < 0) ∧
      (∃ e, (reconcileLines bin counted reason lines eng).1 = .error e) ∧
      (Unchanged eng (reconcileLines bin counted reason lines eng).2 ↔
        ∀ sku ∈ beforeNegative bin counted lines, (counted ⟨bin, sku⟩).1 = eng.onHand ⟨bin, sku⟩)) := by
  induction lines generalizing eng with
  | nil => exact Or.inl ⟨List.forall_mem_nil _, [], rfl⟩
  | cons sku lines ih =>
    obtain ⟨h0, h1⟩ := h ⟨bin, sku⟩
    obtain ⟨hc0, hc1⟩ := (counted ⟨bin, sku⟩).2
    simp only [reconcileLines]
    by_cases hd : (counted ⟨bin, sku⟩).1 = eng.onHand ⟨bin, sku⟩
    · -- the count agrees
      have hp : 0 ≤ (counted ⟨bin, sku⟩).1 := by omega
      rw [if_pos (by rw [hd, Int.sub_self]; rfl)]
      have hb : beforeNegative bin counted (sku :: lines) = sku :: beforeNegative bin counted lines :=
        List.takeWhile_cons_of_pos (by simpa using hp)
      rw [hb, List.forall_mem_cons, List.forall_mem_cons]
      rcases ih eng h with ⟨hn, hr⟩ | ⟨hn, hr, hu⟩
      · exact Or.inl ⟨⟨hp, hn⟩, hr⟩
      · obtain ⟨s, hs, hlt⟩ := hn
        exact Or.inr ⟨⟨s, List.mem_cons_of_mem _ hs, hlt⟩, hr, hu.trans (and_iff_right hd).symm⟩
    · have hnew : wrapI64 (eng.onHand ⟨bin, sku⟩ +
          wrapI64 ((counted ⟨bin, sku⟩).1 - eng.onHand ⟨bin, sku⟩)) = (counted ⟨bin, sku⟩).1 := by
        rw [wrapI64_add_wrapI64, add_sub_cancel, wrapI64_of_lt hc0 hc1]
      have hdelta : wrapI64 ((counted ⟨bin, sku⟩).1 - eng.onHand ⟨bin, sku⟩) ≠ 0 := by
        intro hz
        rw [hz, Int.add_zero, wrapI64_of_lt (by omega) h1] at hnew
        exact hd hnew.symm
      rw [if_neg hdelta]
      rcases eng.append_cases ⟨bin, sku⟩ (.adjustment
          ⟨wrapI64 ((counted ⟨bin, sku⟩).1 - eng.onHand ⟨bin, sku⟩), le_wrapI64 _, wrapI64_lt _⟩ reason) with
        ⟨hn, he⟩ | ⟨hp, he⟩
      · -- the count is negative
        have hn : (counted ⟨bin, sku⟩).1 < 0 := hnew ▸ hn
        have hb : beforeNegative bin counted (sku :: lines) = [] :=
          List.takeWhile_cons_of_neg (by simpa using hn)
        rw [apply, he, hb]
        exact Or.inr ⟨⟨sku, List.mem_cons_self, hn⟩, ⟨_, rfl⟩, iff_of_true (unchanged_refl eng) (List.forall_mem_nil _)⟩
      · -- the count is taken over, and logged
        have hp : 0 ≤ (counted ⟨bin, sku⟩).1 := hnew ▸ hp
        have ha := eng.sections_append ⟨bin, sku⟩ (.adjustment
          ⟨wrapI64 ((counted ⟨bin, sku⟩).1 - eng.onHand ⟨bin, sku⟩), le_wrapI64 _, wrapI64_lt _⟩ reason)
        have hb : beforeNegative bin counted (sku :: lines) = sku :: beforeNegative bin counted lines :=
          List.takeWhile_cons_of_pos (by simpa using hp)
        rw [he] at ha
        have hk := floorKept_sections h ha
        rw [apply, he, hb, List.forall_mem_cons, List.forall_mem_cons]
        obtain ⟨mid, hmid⟩ : ∃ mid, mid = eng.move ⟨bin, sku⟩ (.adjustment
          ⟨wrapI64 ((counted ⟨bin, sku⟩).1 - eng.onHand ⟨bin, sku⟩), le_wrapI64 _, wrapI64_lt _⟩ reason)
          (wrapI64 (eng.onHand ⟨bin, sku⟩ + (Movement.adjustment
          ⟨wrapI64 ((counted ⟨bin, sku⟩).1 - eng.onHand ⟨bin, sku⟩), le_wrapI64 _, wrapI64_lt _⟩
            reason).delta)) := ⟨_, rfl⟩
        have hnu : ¬ Unchanged eng (reconcileLines bin counted reason lines mid).2 := by
          have hs := mid.sections_reconcileLines bin counted reason lines
          rw [hmid] at hs ⊢
          exact not_unchanged_of_logged (eng.logged_after_move _ _ _ hs)
        dsimp only at hk ⊢
        rw [← hmid] at hk ⊢
        rcases ih mid hk with ⟨hn, r, hr⟩ | ⟨⟨s, hs, hlt⟩, ⟨e, hr⟩, -⟩
        · left
          refine ⟨⟨hp, hn⟩, ?_⟩
          split
          · next hx => rw [hx] at hr; cases hr
          · exact ⟨_, rfl⟩
        · right
          refine ⟨⟨s, List.mem_cons_of_mem _ hs, hlt⟩, ?_⟩
          split
          · next hx =>
            rw [hx] at hnu
            exact ⟨⟨_, rfl⟩, iff_of_false hnu fun hall => hd hall.1⟩
          · next hx => rw [hx] at hr; cases hr

/-- When reconciling a count is clean: if a count is negative, the counts before it agree with what is
on hand. -/
def CountClean (task : CountTask) : Prop :=
  (∃ sku ∈ task.lines, (counted ⟨task.bin, sku⟩).1 < 0) → ∀ sku ∈ beforeNegative task.bin counted task.lines,
    (counted ⟨task.bin, sku⟩).1 = eng.onHand ⟨task.bin, sku⟩

theorem reconcileCount_clean_iff {task : CountTask} (reason : Reason) (h : FloorKept eng) :
    ErrorChangesNothing eng (eng.reconcileCount task counted reason) ↔ eng.CountClean counted task := by
  unfold reconcileCount CountClean
  rcases eng.reconcileLines_cases task.bin counted reason task.lines h with
    ⟨hn, r, hr⟩ | ⟨hn, ⟨e, hr⟩, hu⟩
  · refine iff_of_true (fun e he => ?_) ?_
    · rw [hr] at he
      exact nomatch he
    · rintro ⟨sku, hs, hlt⟩
      exact absurd (hn sku hs) (not_le.mpr hlt)
  · exact ⟨fun hc _ => hu.mp (hc e hr), fun hc _ _ => hu.mpr (hc hn)⟩

end

/-! ## All calls -/

section
variable (eng : InventoryEngine SHARDS)

theorem apply_clean (key : StockKey) (m : Movement) : ErrorChangesNothing eng (eng.apply key m) := by
  intro e he
  rw [apply] at he ⊢
  rcases eng.append_cases key m with ⟨-, ha⟩ | ⟨-, ha⟩
  · rw [ha]
    exact unchanged_refl eng
  · rw [ha] at he
    cases he

theorem applyVersioned_clean (key : StockKey) (m : Movement) (v : Nat) :
    ErrorChangesNothing eng (eng.applyVersioned key m v) := by
  intro e he
  simp only [applyVersioned] at he ⊢
  split
  · exact unchanged_refl eng
  · next hf =>
    rw [if_neg hf] at he
    split
    · next ha => rw [ha] at he; exact nomatch he
    · exact unchanged_refl eng

theorem receiveLot_clean (key : StockKey) (lot : LotNumber) (qty : U32) (expiry : Option Int)
    (serials : List SerialNumber) : ErrorChangesNothing eng (eng.receiveLot key lot qty expiry serials) := by
  intro e he
  simp only [receiveLot] at he ⊢
  split
  · exact unchanged_refl eng
  · next h0 =>
    rw [if_neg h0] at he
    split
    · exact unchanged_refl eng
    · next hs =>
      rw [if_neg hs] at he
      split
      · exact unchanged_refl eng
      · next hd =>
        rw [hd] at he
        rcases eng.append_cases key (.received qty.1) with ⟨-, ha⟩ | ⟨-, ha⟩
        · rw [ha]
          exact unchanged_refl eng
        · rw [ha] at he
          exact nomatch he

theorem createPallet_clean (location : Id Bin) (lines : List PalletLine) (id : LpnId) :
    ErrorChangesNothing eng (eng.createPallet location lines id) := by
  intro e he
  unfold createPallet at he ⊢
  split
  · exact unchanged_refl eng
  · next hf =>
    rw [hf] at he
    exact nomatch he

/-- The states in which a failure of the call changes nothing. -/
def Clean : Op → Prop
  | .apply _ _ | .applyVersioned _ _ _ | .receiveLot _ _ _ _ _ | .createPallet _ _ _ => True
  | .pick key qty asOf => eng.PickClean key qty asOf
  | .pickFromLot _ _ _ _ => True
  | .pickFromPallet lpn sku lot qty asOf => eng.PalletPickClean lpn sku lot qty asOf
  | .movePallet lpn toBin => eng.MoveClean lpn toBin
  | .reconcileCount task counted _ => eng.CountClean counted task

/-- A call that fails on a reachable engine changes nothing exactly when `Clean`. -/
theorem errors_change_nothing_iff {eng : InventoryEngine SHARDS} (h : Reachable eng) (op : Op) :
    ErrorChangesNothing eng (op.call eng) ↔ Clean eng op := by
  have hk := floorKept_of_reachable h
  cases op with
  | apply key m =>
    exact (errorChangesNothing_done _ _).trans (iff_true_intro (eng.apply_clean key m))
  | applyVersioned key m v =>
    exact (errorChangesNothing_done _ _).trans (iff_true_intro (eng.applyVersioned_clean key m v))
  | receiveLot key lot qty expiry serials =>
    exact (errorChangesNothing_done _ _).trans
      (iff_true_intro (eng.receiveLot_clean key lot qty expiry serials))
  | createPallet location lines id =>
    exact (errorChangesNothing_done _ _).trans (iff_true_intro (eng.createPallet_clean location lines id))
  | pick key qty asOf => exact (errorChangesNothing_done _ _).trans (eng.pick_clean_iff hk)
  | pickFromLot key lot qty asOf =>
    exact (errorChangesNothing_done _ _).trans (iff_true_intro (eng.pickFromLot_clean key lot qty asOf))
  | pickFromPallet lpn sku lot qty asOf =>
    exact (errorChangesNothing_done _ _).trans (eng.pickFromPallet_clean_iff hk)
  | movePallet lpn toBin => exact (errorChangesNothing_done _ _).trans (eng.movePallet_clean_iff hk)
  | reconcileCount task counted reason =>
    exact (errorChangesNothing_done _ _).trans (eng.reconcileCount_clean_iff counted reason hk)

end

/-! ## A pick that fails half-way -/

/-- Ten units of a lot, five of which were then adjusted away: the lot still says ten. -/
def adjustedDown : InventoryEngine 1 :=
  (new fun _ => 0).runOps
    [.receiveLot ⟨⟨0⟩, ⟨0⟩⟩ ⟨"LOT-1"⟩ (u32 10) none [],
     .apply ⟨⟨0⟩, ⟨0⟩⟩ (.adjusted (i64 (-5)))]

/-- A pick of eight of them fails, and lowers the lot to two. -/
theorem failed_pick_lowers_lot :
    ¬ ∀ (eng : InventoryEngine 1), Reachable eng → ∀ op : Op, ErrorChangesNothing eng (op.call eng) := by
  intro h
  have hc := h adjustedDown ⟨_, _, rfl⟩ (.pick ⟨⟨0⟩, ⟨0⟩⟩ ⟨8, by decide⟩ 0)
  have he : (Op.call adjustedDown (.pick ⟨⟨0⟩, ⟨0⟩⟩ ⟨8, by decide⟩ 0)).1 =
      .error (.insufficientStock ⟨⟨0⟩, ⟨0⟩⟩ 5 8) := by decide +kernel
  have hl : (Op.call adjustedDown (.pick ⟨⟨0⟩, ⟨0⟩⟩ ⟨8, by decide⟩ 0)).2.lots ⟨⟨0⟩, ⟨0⟩⟩ ≠
      adjustedDown.lots ⟨⟨0⟩, ⟨0⟩⟩ := by decide +kernel
  exact hl ((hc _ he).lots _)

/-- A pick of twelve, more than the lot says, is refused and changes nothing. -/
theorem pick_of_twelve_clean :
    (∃ e, (Op.call adjustedDown (.pick ⟨⟨0⟩, ⟨0⟩⟩ (u32 12) 0)).1 = .error e) ∧
      Unchanged adjustedDown (Op.call adjustedDown (.pick ⟨⟨0⟩, ⟨0⟩⟩ (u32 12) 0)).2 := by
  have he : (Op.call adjustedDown (.pick ⟨⟨0⟩, ⟨0⟩⟩ (u32 12) 0)).1 =
      .error (.insufficientStock ⟨⟨0⟩, ⟨0⟩⟩ 10 2) := by decide +kernel
  have hclean : Clean adjustedDown (.pick ⟨⟨0⟩, ⟨0⟩⟩ (u32 12) 0) := Or.inr (Or.inl (by decide +kernel))
  exact ⟨⟨_, he⟩, (errors_change_nothing_iff ⟨_, _, rfl⟩ _).mpr hclean _ he⟩

end InventoryEngine

end TptErp.Wms
