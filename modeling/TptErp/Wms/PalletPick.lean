import TptErp.Wms.Fefo
import TptErp.Wms.LotCover

/-!
# Picking from a pallet line

`pick_from_pallet` lowers the line of a lot and leaves the stock to `pick`, which takes it from the lots of that SKU
in its own order.  So the lot that the line names is the lot picked exactly when a pick of that quantity begins and
ends with it (`picksItsLine_iff`, in every state that interleaved calls reach).
-/

namespace TptErp.Wms

/-! ## The order of the candidates -/

/-- A pick comes to the first lot before the second: by expiry, and by place when that is the same. -/
def PickedBefore (a b : LotDetail × Nat) : Prop :=
  expiryLe a.1.expiry b.1.expiry = true ∧ (expiryLe b.1.expiry a.1.expiry = true → a.2 < b.2)

theorem pairwise_orderedInsert {c : LotDetail × Nat} {cs : List (LotDetail × Nat)} (h : cs.Pairwise PickedBefore)
    (hc : ∀ d ∈ cs, c.2 < d.2) :
    (cs.orderedInsert (fun a b => expiryLe a.1.expiry b.1.expiry = true) c).Pairwise PickedBefore := by
  induction cs with
  | nil => exact List.pairwise_singleton _ _
  | cons d cs ih =>
    obtain ⟨hd, hcs⟩ := List.pairwise_cons.mp h
    obtain ⟨hlt, hall⟩ := List.forall_mem_cons.mp hc
    simp only [List.orderedInsert]
    by_cases hle : expiryLe c.1.expiry d.1.expiry = true
    · rw [if_pos hle]
      refine List.pairwise_cons.mpr ⟨?_, h⟩
      intro e he
      rcases List.mem_cons.mp he with rfl | he
      · exact ⟨hle, fun _ => hlt⟩
      · exact ⟨expiryLe_trans hle (hd e he).1, fun _ => hall e he⟩
    · rw [if_neg hle]
      refine List.pairwise_cons.mpr ⟨?_, ih hcs hall⟩
      intro e he
      rcases (List.mem_orderedInsert _).mp he with rfl | he
      · exact ⟨(expiryLe_total _ _).resolve_left hle, fun h => absurd h hle⟩
      · exact hd e he

theorem pickCandidates_inOrder (lots : List LotDetail) (asOf : Int) :
    (pickCandidates lots asOf).Pairwise PickedBefore := by
  have hplaces : (lots.zipIdx.filter fun p => p.1.issuableOn asOf).Pairwise fun a b => a.2 < b.2 := by
    refine List.Pairwise.filter _ (List.pairwise_map.mp ?_)
    rw [List.zipIdx_map_snd]
    exact List.pairwise_lt_range'
  show ((lots.zipIdx.filter fun p => p.1.issuableOn asOf).insertionSort _).Pairwise PickedBefore
  generalize (lots.zipIdx.filter fun p => p.1.issuableOn asOf) = cs at hplaces
  induction cs with
  | nil => exact List.Pairwise.nil
  | cons c cs ih =>
    obtain ⟨hc, hcs⟩ := List.pairwise_cons.mp hplaces
    rw [List.insertionSort_cons]
    exact pairwise_orderedInsert (ih hcs) fun d hd => hc d ((List.mem_insertionSort _).mp hd)

/-! ## The lots after a plan -/

theorem take_zero (ld : LotDetail) : ld.take 0 = ld := by
  unfold LotDetail.take
  simp

/-- A plan takes from each lot what it takes from its place. -/
theorem getElem?_takePlan {lots : List LotDetail} {plan : List (Nat × Nat)} (h : PlanFits lots plan) (i : Nat) :
    (takePlan lots plan).1[i]? = lots[i]?.map fun ld => ld.take (takenFrom plan i) := by
  induction plan generalizing lots with
  | nil =>
    show lots[i]? = lots[i]?.map fun ld => ld.take 0
    simp [take_zero]
  | cons p plan ih =>
    obtain ⟨j, qty⟩ := p
    obtain ⟨ld, hj, -⟩ := h.2 (j, qty) List.mem_cons_self
    have he : (takePlan lots ((j, qty) :: plan)).1 = (takePlan (lots.set j (ld.take qty)) plan).1 := by
      rw [takePlan, hj]
    rw [he, ih (planFits_tail h), takenFrom_cons]
    by_cases hji : j = i
    · subst hji
      have hnot : takenFrom plan j = 0 := takenFrom_of_notMem (List.nodup_cons.mp h.1).1
      rw [List.getElem?_set_self (List.getElem?_eq_some_iff.mp hj).1, hj, hnot, if_pos rfl]
      simp [take_zero]
    · rw [List.getElem?_set_ne hji, if_neg hji, Nat.zero_add]

theorem map_lot_takePlan (lots : List LotDetail) (plan : List (Nat × Nat)) :
    (takePlan lots plan).1.map (·.lot) = lots.map (·.lot) := by
  induction plan generalizing lots with
  | nil => rfl
  | cons p plan ih =>
    obtain ⟨i, qty⟩ := p
    cases hi : lots[i]? with
    | none =>
      rw [takePlan, hi]
      exact ih lots
    | some ld =>
      rw [takePlan, hi]
      dsimp only
      obtain ⟨hlt, rfl⟩ := List.getElem?_eq_some_iff.mp hi
      rw [ih, List.map_set, take_lot, ← List.map_set, List.set_getElem_self]

theorem takenFrom_add_le (plan : List (Nat × Nat)) {i j : Nat} (hij : i ≠ j) :
    takenFrom plan i + takenFrom plan j ≤ planned plan := by
  induction plan with
  | nil => exact le_rfl
  | cons p plan ih =>
    have hp : planned (p :: plan) = p.2 + planned plan := rfl
    rw [takenFrom_cons, takenFrom_cons, hp]
    by_cases hi : p.1 = i
    · rw [if_pos hi, if_neg (hi ▸ hij)]
      omega
    · rw [if_neg hi]
      split <;> omega

/-! ## The lot that a pick begins with -/

/-- The place of a lot that a pick of the quantity takes alone. -/
structure PickedFirst (lots : List LotDetail) (asOf : Int) (lot : LotNumber) (qty i : Nat) (ld : LotDetail) :
    Prop where
  here : lots[i]? = some ld
  named : ld.lot = lot
  issuable : ld.issuableOn asOf = true
  enough : qty ≤ ld.onHand
  first : ∀ j ld', lots[j]? = some ld' → ld'.issuableOn asOf = true → 0 < ld'.onHand → j ≠ i →
    PickedBefore (ld, i) (ld', j)

section
variable {lots : List LotDetail} {qty : Nat} {asOf : Int}

/-- The plan takes everything from that place. -/
theorem takenFrom_first {lot : LotNumber} {i : Nat} {ld : LotDetail} (h : PickedFirst lots asOf lot qty i ld) :
    takenFrom (planLoop (pickCandidates lots asOf) qty).1 i = qty := by
  have hmem : (ld, i) ∈ pickCandidates lots asOf := mem_pickCandidates.mpr ⟨h.here, h.issuable⟩
  obtain ⟨before, after, he⟩ := List.append_of_mem hmem
  have hempty : stock before = 0 := by
    refine stock_eq_zero fun d hd h0 => ?_
    have hsort := pickCandidates_inOrder lots asOf
    have hnodup := pickCandidates_nodup lots asOf
    rw [he] at hsort hnodup
    have hdi : d.2 ≠ i := by
      intro hdi
      rw [List.map_append, List.map_cons] at hnodup
      exact (List.nodup_append.mp hnodup).2.2 d.2 (List.mem_map.mpr ⟨d, hd, rfl⟩) i List.mem_cons_self hdi
    obtain ⟨hle, htie⟩ := (List.pairwise_append.mp hsort).2.2 d hd (ld, i) List.mem_cons_self
    obtain ⟨hl, hissue⟩ := mem_pickCandidates.mp (show d ∈ pickCandidates lots asOf by rw [he]; simp [hd])
    obtain ⟨hle', htie'⟩ := h.first d.2 d.1 hl hissue h0 hdi
    have h1 := htie hle'
    have h2 := htie' hle
    dsimp only at h1 h2
    omega
  have htaken := takenFrom_candidate qty he
  have henough := h.enough
  dsimp only at htaken
  omega

/-- A place that the plan takes everything from is the first one with stock. -/
theorem pickedFirst_of_takenFrom (h0 : 0 < qty) {i : Nat}
    (h : takenFrom (planLoop (pickCandidates lots asOf) qty).1 i = qty) :
    ∃ ld, PickedFirst lots asOf ld.lot qty i ld := by
  have hin : i ∈ (planLoop (pickCandidates lots asOf) qty).1.map (·.1) := by
    by_contra hn
    rw [takenFrom_of_notMem hn] at h
    omega
  obtain ⟨p, hp, rfl⟩ := List.mem_map.mp hin
  obtain ⟨before, c, after, he, hi, -, -⟩ := candidate_of_mem_plan hp
  have htaken := takenFrom_candidate qty he
  rw [hi, h] at htaken
  obtain ⟨hl, hissue⟩ := mem_pickCandidates.mp (show c ∈ pickCandidates lots asOf by rw [he]; simp)
  refine ⟨c.1, hi ▸ hl, rfl, hissue, by omega, ?_⟩
  intro j ld' hl' hissue' hstock hj
  have hmem : (ld', j) ∈ pickCandidates lots asOf := mem_pickCandidates.mpr ⟨hl', hissue'⟩
  have hsort := pickCandidates_inOrder lots asOf
  rw [he] at hmem hsort
  rcases List.mem_append.mp hmem with hb | hb
  · -- nothing before it has stock
    obtain ⟨before', between, rfl⟩ := List.append_of_mem hb
    rw [stock_append, stock_cons] at htaken
    dsimp only at htaken
    omega
  · rcases List.mem_cons.mp hb with rfl | hb
    · exact absurd hi hj
    · rw [← hi]
      exact (List.pairwise_cons.mp (List.pairwise_append.mp hsort).2.1).1 _ hb

end

namespace InventoryEngine

variable {SHARDS : Nat} {eng eng' : InventoryEngine SHARDS}

/-! ## The lots of a key are distinct -/

def DistinctLots (eng : InventoryEngine SHARDS) : Prop := ∀ key, Distinct (eng.lots key)

theorem distinctLots_new (shardIndex : StockKey → Fin SHARDS) : DistinctLots (new shardIndex) :=
  fun _ => List.nodup_nil

/-- Only the lots of one key change. -/
theorem distinctLots_of_key (h : DistinctLots eng) (key : StockKey) {ls : List LotDetail} (hls : Distinct ls)
    (he : ∀ k, eng'.lots k = if k = key then ls else eng.lots k) : DistinctLots eng' := by
  intro k
  rw [he]
  split
  · exact hls
  · exact h k

theorem distinct_pickTakes (h : DistinctLots eng) (key : StockKey) (qty : Nat) (asOf : Int) :
    Distinct (eng.pickTakes key qty asOf).1 := by
  unfold Distinct pickTakes
  rw [map_lot_takePlan]
  exact h key

theorem distinctLots_does {w : Int → Int} {i : Instr} {more : List Instr} (h : DistinctLots eng)
    (hd : Does w eng i eng' more) : DistinctLots eng' := by
  have htake : ∀ (qty : Nat) (ld : LotDetail), (ld.take qty).lot = ld.lot := fun qty ld => take_lot ld qty
  cases hd with
  | stop | goOn | pallet | receiptRefused | pickRefused | lotPickRefused | arrivalRefused | putSerials |
    removeSerials | registerMoved => exact h
  | @blind key m delta =>
    intro k
    rw [lots_moveBy]
    exact h k
  | @received key lot qty expiry serials floor =>
    refine distinctLots_of_key h key (distinct_addToLot (h key) lot qty.1 expiry serials) fun k => ?_
    rw [lots_logLot, lots_setLots, lots_moveBy]
  | @picked key qty asOf mid enough picked =>
    have hl := picked_lots picked
    have hdrop := distinct_filter (distinct_pickTakes h key qty.1 asOf) fun l => 0 < l.onHand
    refine distinctLots_of_key h key hdrop fun k => ?_
    rw [lots_setLots, hl, hl, lots_setLots, lots_setLots, if_pos rfl]
    split
    · rfl
    · rfl
  | @pickGivenUp key qty asOf mid first c rest enough split picked floor =>
    refine distinctLots_of_key h key (distinct_pickTakes h key qty.1 asOf) fun k => ?_
    rw [picked_lots picked, lots_setLots]
  | @lotPicked key lot qty asOf ld floor pickable =>
    refine distinctLots_of_key h key (distinct_updateLot (htake qty.1) (h key) lot) fun k => ?_
    rw [lots_setLots, lots_logLot, lots_moveBy]
  | @departureRefused lpn location toBin line todo ld found enough floor =>
    exact distinctLots_of_key h _ (distinct_updateLot (htake line.qty.1) (h _) line.lot) fun k => lots_setLots ..
  | @departed lpn location toBin line todo ld found enough floor =>
    refine distinctLots_of_key h ⟨location, line.sku⟩
      (distinct_updateLot (htake line.qty.1) (h ⟨location, line.sku⟩) line.lot) fun k => ?_
    rw [lots_logLot, lots_moveBy, lots_setLots]
  | @arrived lpn location toBin line expiry serials todo floor =>
    refine distinctLots_of_key h ⟨toBin, line.sku⟩
      (distinct_addToLot (h ⟨toBin, line.sku⟩) line.lot line.qty.1 expiry serials) fun k => ?_
    rw [lots_logLot, lots_setLots, lots_moveBy]

theorem distinctLots_step (s : Machine.State (InventoryEngine SHARDS) Instr) (a : Machine.Label Unit Op Unit)
    (t : Machine.State (InventoryEngine SHARDS) Instr) (h : DistinctLots s.core)
    (ht : (calls wrapI64 SHARDS).step s a = some t) : DistinctLots t.core := by
  cases (calls wrapI64 SHARDS).moves_of_step ht with
  | spawn op => exact h
  | env e => exact h
  | @run th choice i rest more core next instr =>
    have hd := s.core.does_exec wrapI64 i
    rw [Option.some.inj instr] at hd
    exact distinctLots_does h hd

/-- In every state that interleaved calls reach, the lots of each key are distinct. -/
theorem distinctLots_run (shardIndex : StockKey → Fin SHARDS) {labels : List (Machine.Label Unit Op Unit)}
    {s : Machine.State (InventoryEngine SHARDS) Instr}
    (hs : LabelledRun.exec (calls wrapI64 SHARDS).step { core := new shardIndex } labels = some s) :
    DistinctLots s.core :=
  (LabelledRun.allStates_of_step _ distinctLots_step labels (distinctLots_new shardIndex)).last _ hs

/-! ## What the call does -/

/-- A pick that succeeds has taken its plan out of the lots, and dropped the emptied ones. -/
theorem pick_ok {key : StockKey} {qty : U32} {asOf : Int} {cs : List LotConsumption}
    (h : eng.pick key qty asOf = (.ok cs, eng')) :
    0 < qty.1 ∧ planned (planLoop (pickCandidates (eng.lots key) asOf) qty.1).1 = qty.1 ∧
      ∀ k, eng'.lots k =
        if k = key then (eng.pickTakes key qty.1 asOf).1.filter fun l => 0 < l.onHand else eng.lots k := by
  simp only [pick] at h
  split at h
  · cases (Prod.mk.inj h).1
  · next h0 =>
    rcases buildPickPlan_cases (eng.lots key) qty.1 asOf key with ⟨-, e, he⟩ | ⟨-, hp, he⟩
    · rw [he] at h
      cases (Prod.mk.inj h).1
    · rw [he] at h
      refine ⟨Nat.pos_of_ne_zero h0, hp, ?_⟩
      have hl := (eng.setLots key (eng.pickTakes key qty.1 asOf).1).lots_pickEvents key (eng.pickTakes key qty.1 asOf).2
      unfold pickTakes at hl ⊢
      dsimp only at h
      split at h
      · cases (Prod.mk.inj h).1
      · next mid hev =>
        rw [hev] at hl
        obtain ⟨-, rfl⟩ := Prod.mk.inj h
        intro k
        show (mid.setLots key _).lots k = _
        rw [lots_setLots, hl, hl, lots_setLots, lots_setLots, if_pos rfl]
        split
        · rfl
        · rfl

/-- A pick from a pallet that succeeds has lowered the first line of that SKU and lot, and picked. -/
theorem pickFromPallet_ok {lpn : LpnId} {sku : Id Sku} {lot : LotNumber} {qty : U32} {asOf : Int}
    {cs : List LotConsumption} {p : Pallet} (hp : eng.pallet lpn = some p)
    (h : eng.pickFromPallet lpn sku lot qty asOf = (.ok cs, eng')) :
    (∃ line, p.lines.find? (fun l => l.sku = sku ∧ l.lot = lot) = some line ∧ qty.1 ≤ line.qty.1) ∧
      (eng.putPallet lpn { p with lines := takeLine sku lot qty.1 p.lines }).pick ⟨p.location, sku⟩ qty asOf =
        (.ok cs, eng') := by
  unfold pickFromPallet at h
  rw [hp] at h
  dsimp only at h
  split at h
  · cases (Prod.mk.inj h).1
  · next line hline =>
    split at h
    · cases (Prod.mk.inj h).1
    · next hle => exact ⟨⟨line, hline, not_lt.mp hle⟩, h⟩

end InventoryEngine

/-! ## Picking the line -/

/-- The lot of a number, if it has units left. -/
def stockedLot (lots : List LotDetail) (lot : LotNumber) : Option LotDetail :=
  (findLot lots lot).filter fun ld => 0 < ld.onHand

namespace InventoryEngine

variable {SHARDS : Nat} {eng eng' : InventoryEngine SHARDS}

/-- The units have left that lot at the pallet's location and the pallet's line of it (the first one), and nothing
else has changed in the lots and pallets. -/
structure PicksItsLine (eng eng' : InventoryEngine SHARDS) (lpn : LpnId) (p : Pallet) (sku : Id Sku)
    (lot : LotNumber) (qty : Nat) : Prop where
  units : lotOnHand (eng'.lots ⟨p.location, sku⟩) lot + qty = lotOnHand (eng.lots ⟨p.location, sku⟩) lot
  otherLots : ∀ key lot', ¬ (key = ⟨p.location, sku⟩ ∧ lot' = lot) →
    stockedLot (eng'.lots key) lot' = stockedLot (eng.lots key) lot'
  line : ∃ before line after less, p.lines = before ++ line :: after ∧
    (∀ l ∈ before, ¬ (l.sku = sku ∧ l.lot = lot)) ∧ line.sku = sku ∧ line.lot = lot ∧ less.1 + qty = line.qty.1 ∧
      eng'.pallet lpn = some { p with lines := before ++ { line with qty := less } :: after }
  otherPallets : ∀ lpn', lpn' ≠ lpn → eng'.pallet lpn' = eng.pallet lpn'

theorem takeLine_found {sku : Id Sku} {lot : LotNumber} {ls : List PalletLine} {line : PalletLine} {qty : Nat}
    (hf : ls.find? (fun l => l.sku = sku ∧ l.lot = lot) = some line) (hq : qty ≤ line.qty.1) :
    ∃ before after less, ls = before ++ line :: after ∧ (∀ l ∈ before, ¬ (l.sku = sku ∧ l.lot = lot)) ∧
      line.sku = sku ∧ line.lot = lot ∧ less.1 + qty = line.qty.1 ∧
        takeLine sku lot qty ls = before ++ { line with qty := less } :: after := by
  induction ls with
  | nil => cases hf
  | cons l ls ih =>
    unfold takeLine
    by_cases hl : l.sku = sku ∧ l.lot = lot
    · rw [List.find?_cons_of_pos (by simpa using hl)] at hf
      obtain rfl := Option.some.inj hf
      rw [if_pos hl]
      exact ⟨[], ls, _, rfl, List.forall_mem_nil _, hl.1, hl.2, Nat.sub_add_cancel hq, rfl⟩
    · rw [List.find?_cons_of_neg (by simpa using hl)] at hf
      obtain ⟨before, after, less, rfl, hb, hs, hlot, hless, ht⟩ := ih hf
      rw [if_neg hl, ht]
      exact ⟨l :: before, after, less, rfl, List.forall_mem_cons.mpr ⟨hl, hb⟩, hs, hlot, hless, rfl⟩

/-- What a pick from a pallet that succeeds does to the pallets. -/
theorem pallets_of_ok {lpn : LpnId} {sku : Id Sku} {lot : LotNumber} {qty : U32} {asOf : Int}
    {cs : List LotConsumption} {p : Pallet} (hp : eng.pallet lpn = some p)
    (h : eng.pickFromPallet lpn sku lot qty asOf = (.ok cs, eng')) :
    (∃ before line after less, p.lines = before ++ line :: after ∧ (∀ l ∈ before, ¬ (l.sku = sku ∧ l.lot = lot)) ∧
        line.sku = sku ∧ line.lot = lot ∧ less.1 + qty.1 = line.qty.1 ∧
          eng'.pallet lpn = some { p with lines := before ++ { line with qty := less } :: after }) ∧
      ∀ lpn', lpn' ≠ lpn → eng'.pallet lpn' = eng.pallet lpn' := by
  obtain ⟨⟨line, hline, hle⟩, hpick⟩ := pickFromPallet_ok hp h
  have hpal := (eng.putPallet lpn { p with lines := takeLine sku lot qty.1 p.lines }).pallet_pick
    ⟨p.location, sku⟩ qty asOf
  rw [hpick] at hpal
  obtain ⟨before, after, less, he, hb, hs, hlot, hless, ht⟩ := takeLine_found hline hle
  constructor
  · refine ⟨before, line, after, less, he, hb, hs, hlot, hless, ?_⟩
    have hl := hpal lpn
    rw [pallet_putPallet, if_pos rfl, ht] at hl
    exact hl
  · intro lpn' hne
    have hl := hpal lpn'
    rw [pallet_putPallet, if_neg hne] at hl
    exact hl

section
variable {lpn : LpnId} {sku : Id Sku} {lot : LotNumber} {qty : U32} {asOf : Int} {cs : List LotConsumption} {p : Pallet}

theorem lots_of_ok (hp : eng.pallet lpn = some p) (h : eng.pickFromPallet lpn sku lot qty asOf = (.ok cs, eng'))
    (k : StockKey) : eng'.lots k = if k = ⟨p.location, sku⟩ then
      (eng.pickTakes ⟨p.location, sku⟩ qty.1 asOf).1.filter fun l => 0 < l.onHand else eng.lots k :=
  (pick_ok (pickFromPallet_ok hp h).2).2.2 k

/-- What the call does to a lot: the plan takes from it what it takes from its place. -/
theorem findLot_of_ok (hd : DistinctLots eng) (hp : eng.pallet lpn = some p)
    (h : eng.pickFromPallet lpn sku lot qty asOf = (.ok cs, eng')) {i : Nat} {ld : LotDetail}
    (hi : (eng.lots ⟨p.location, sku⟩)[i]? = some ld) :
    findLot (eng'.lots ⟨p.location, sku⟩) ld.lot =
      (some (ld.take (takenFrom (planLoop (pickCandidates (eng.lots ⟨p.location, sku⟩) asOf) qty.1).1 i))).filter
        fun ld => 0 < ld.onHand := by
  have hdt := distinct_pickTakes hd ⟨p.location, sku⟩ qty.1 asOf
  rw [lots_of_ok hp h, if_pos rfl, findLot_filter hdt]
  congr 1
  have hget := getElem?_takePlan (planFits_planLoop (eng.lots ⟨p.location, sku⟩) qty.1 asOf) i
  rw [hi] at hget
  exact (mem_iff_findLot hdt _).mp (List.mem_of_getElem? hget)

theorem findLot_none_of_ok (hd : DistinctLots eng) (hp : eng.pallet lpn = some p)
    (h : eng.pickFromPallet lpn sku lot qty asOf = (.ok cs, eng')) {lot' : LotNumber}
    (hnone : findLot (eng.lots ⟨p.location, sku⟩) lot' = none) :
    findLot (eng'.lots ⟨p.location, sku⟩) lot' = none := by
  rw [lots_of_ok hp h, if_pos rfl, findLot_filter (distinct_pickTakes hd _ _ _)]
  cases hf : findLot (eng.pickTakes ⟨p.location, sku⟩ qty.1 asOf).1 lot' with
  | none => rfl
  | some ld =>
    exfalso
    have hm : lot' ∈ (eng.pickTakes ⟨p.location, sku⟩ qty.1 asOf).1.map (·.lot) :=
      List.mem_map.mpr ⟨ld, List.mem_of_find?_eq_some hf, lot_of_find hf⟩
    unfold pickTakes at hm
    rw [map_lot_takePlan] at hm
    exact notMem_of_find_none hnone hm

/-- A lot from which the plan takes nothing stays as it is. -/
theorem stockedLot_of_ok (hd : DistinctLots eng) (hp : eng.pallet lpn = some p)
    (h : eng.pickFromPallet lpn sku lot qty asOf = (.ok cs, eng')) {lot' : LotNumber}
    (hother : ∀ (j : Nat) ld, (eng.lots ⟨p.location, sku⟩)[j]? = some ld → ld.lot = lot' →
      takenFrom (planLoop (pickCandidates (eng.lots ⟨p.location, sku⟩) asOf) qty.1).1 j = 0) :
    stockedLot (eng'.lots ⟨p.location, sku⟩) lot' = stockedLot (eng.lots ⟨p.location, sku⟩) lot' := by
  unfold stockedLot
  cases hf : findLot (eng.lots ⟨p.location, sku⟩) lot' with
  | none => rw [findLot_none_of_ok hd hp h hf]
  | some ld =>
    obtain ⟨j, hj⟩ := List.mem_iff_getElem?.mp (List.mem_of_find?_eq_some hf)
    obtain rfl := lot_of_find hf
    rw [findLot_of_ok hd hp h hj, hother j ld hj rfl, take_zero]
    simp

theorem takenFrom_le {lots : List LotDetail} {plan : List (Nat × Nat)} (h : PlanFits lots plan) {i : Nat}
    {ld : LotDetail} (hi : lots[i]? = some ld) : takenFrom plan i ≤ ld.onHand := by
  by_cases hin : i ∈ plan.map (·.1)
  · obtain ⟨q, hq, rfl⟩ := List.mem_map.mp hin
    obtain ⟨ld', hl, hle⟩ := h.2 q hq
    rw [takenFrom_of_mem h.1 hq]
    rw [hl] at hi
    exact Option.some.inj hi ▸ hle
  · rw [takenFrom_of_notMem hin]
    exact Nat.zero_le _

/-- The units left in a lot of the pallet's location. -/
theorem lotOnHand_of_ok (hd : DistinctLots eng) (hp : eng.pallet lpn = some p)
    (h : eng.pickFromPallet lpn sku lot qty asOf = (.ok cs, eng')) {i : Nat} {ld : LotDetail}
    (hi : (eng.lots ⟨p.location, sku⟩)[i]? = some ld) :
    lotOnHand (eng'.lots ⟨p.location, sku⟩) ld.lot +
      takenFrom (planLoop (pickCandidates (eng.lots ⟨p.location, sku⟩) asOf) qty.1).1 i =
        lotOnHand (eng.lots ⟨p.location, sku⟩) ld.lot := by
  have hle := takenFrom_le (planFits_planLoop (eng.lots ⟨p.location, sku⟩) qty.1 asOf) hi
  have hbefore := lotOnHand_of_find ((mem_iff_findLot (hd ⟨p.location, sku⟩) ld).mp (List.mem_of_getElem? hi))
  have hfind := findLot_of_ok hd hp h hi
  rw [hbefore]
  by_cases h0 : 0 < ld.onHand - takenFrom (planLoop (pickCandidates (eng.lots ⟨p.location, sku⟩) asOf) qty.1).1 i
  · rw [Option.filter_some, if_pos (by simpa using h0)] at hfind
    rw [lotOnHand_of_find hfind, take_onHand]
    omega
  · rw [Option.filter_some, if_neg (by simpa using h0)] at hfind
    rw [lotOnHand_of_find_none hfind]
    omega

/-- **Picking the line**: in every state that interleaved calls reach, a pick from a pallet that succeeds picks the
lot of its line exactly when that lot may be issued, has the units, and comes before every other lot with stock that
may be issued. -/
theorem picksItsLine_iff (shardIndex : StockKey → Fin SHARDS) (labels : List (Machine.Label Unit Op Unit))
    {s : Machine.State (InventoryEngine SHARDS) Instr}
    (hs : LabelledRun.exec (calls wrapI64 SHARDS).step { core := new shardIndex } labels = some s)
    (hp : s.core.pallet lpn = some p) (h : s.core.pickFromPallet lpn sku lot qty asOf = (.ok cs, eng')) :
    PicksItsLine s.core eng' lpn p sku lot qty.1 ↔
      ∃ i ld, PickedFirst (s.core.lots ⟨p.location, sku⟩) asOf lot qty.1 i ld := by
  have hd := distinctLots_run shardIndex hs
  obtain ⟨h0, hplan, -⟩ := pick_ok (pickFromPallet_ok hp h).2
  constructor
  · intro hpicks
    have hunits := hpicks.units
    cases hf : findLot (s.core.lots ⟨p.location, sku⟩) lot with
    | none =>
      rw [lotOnHand_of_find_none hf] at hunits
      omega
    | some ld =>
      obtain rfl := lot_of_find hf
      obtain ⟨i, hi⟩ := List.mem_iff_getElem?.mp (List.mem_of_find?_eq_some hf)
      have htaken := lotOnHand_of_ok hd hp h hi
      have heq : takenFrom (planLoop (pickCandidates (s.core.lots ⟨p.location, sku⟩) asOf) qty.1).1 i = qty.1 := by
        omega
      obtain ⟨ld', hfirst⟩ := pickedFirst_of_takenFrom h0 heq
      have he := hfirst.here
      rw [hi] at he
      obtain rfl := Option.some.inj he
      exact ⟨i, ld, hfirst⟩
  · rintro ⟨i, ld, hfirst⟩
    have htaken := takenFrom_first hfirst
    obtain ⟨hline, hpallets⟩ := pallets_of_ok hp h
    refine ⟨?_, ?_, hline, hpallets⟩
    · have hunits := lotOnHand_of_ok hd hp h hfirst.here
      rw [hfirst.named, htaken] at hunits
      exact hunits
    · intro key lot' hne
      by_cases hk : key = ⟨p.location, sku⟩
      · subst hk
        refine stockedLot_of_ok hd hp h fun j ld' hj hlot => ?_
        have hij : i ≠ j := by
          rintro rfl
          rw [hfirst.here] at hj
          exact hne ⟨rfl, by rw [← hlot, ← Option.some.inj hj, hfirst.named]⟩
        have hsum := takenFrom_add_le (planLoop (pickCandidates (s.core.lots ⟨p.location, sku⟩) asOf) qty.1).1 hij
        rw [htaken] at hsum
        have hp' : planned (planLoop (pickCandidates (s.core.lots ⟨p.location, sku⟩) asOf) qty.1).1 = qty.1 := hplan
        omega
      · rw [lots_of_ok hp h, if_neg hk]

end

/-- Five units of each of two lots of one SKU in a bin, and a pallet with both. -/
def twoLotsOnPallet : List (Machine.Label Unit Op Unit) :=
  .spawn (.receiveLot ⟨⟨0⟩, ⟨0⟩⟩ ⟨"LOT-1"⟩ (u32 5) (some 10) []) :: List.replicate 3 (.run 0 ()) ++
  .spawn (.receiveLot ⟨⟨0⟩, ⟨0⟩⟩ ⟨"LOT-2"⟩ (u32 5) (some 20) []) :: List.replicate 3 (.run 1 ()) ++
  .spawn (.createPallet ⟨0⟩ [⟨⟨0⟩, ⟨"LOT-1"⟩, u32 5⟩, ⟨⟨0⟩, ⟨"LOT-2"⟩, u32 5⟩] ⟨0⟩) :: List.replicate 3 (.run 2 ())

/-- Three units of the lot that expires first are picked from its line. -/
theorem first_lot_picked : ∃ (s : Machine.State (InventoryEngine 1) Instr) (p : Pallet) (cs : List LotConsumption)
    (eng' : InventoryEngine 1), LabelledRun.exec (calls wrapI64 1).step { core := new fun _ => 0 } twoLotsOnPallet =
        some s ∧ s.core.pickFromPallet ⟨0⟩ ⟨0⟩ ⟨"LOT-1"⟩ (u32 3) 0 = (.ok cs, eng') ∧
      PicksItsLine s.core eng' ⟨0⟩ p ⟨0⟩ ⟨"LOT-1"⟩ 3 := by
  have hrun : ((LabelledRun.exec (calls wrapI64 1).step { core := new fun _ => 0 } twoLotsOnPallet).map fun s =>
      (s.core.pallet ⟨0⟩, (s.core.pickFromPallet ⟨0⟩ ⟨0⟩ ⟨"LOT-1"⟩ (u32 3) 0).1, s.core.lots ⟨⟨0⟩, ⟨0⟩⟩)) =
        some (some ⟨⟨0⟩, ⟨0⟩, [⟨⟨0⟩, ⟨"LOT-1"⟩, u32 5⟩, ⟨⟨0⟩, ⟨"LOT-2"⟩, u32 5⟩]⟩, .ok [⟨⟨"LOT-1"⟩, 3, []⟩],
          [⟨⟨"LOT-1"⟩, some 10, 5, []⟩, ⟨⟨"LOT-2"⟩, some 20, 5, []⟩]) := by
    decide +kernel
  obtain ⟨s, hs, hrun⟩ := Option.map_eq_some_iff.mp hrun
  obtain ⟨hp, hrun⟩ := Prod.mk.inj hrun
  obtain ⟨hok, hlots⟩ := Prod.mk.inj hrun
  have hfirst : PickedFirst (s.core.lots ⟨⟨0⟩, ⟨0⟩⟩) 0 ⟨"LOT-1"⟩ 3 0 ⟨⟨"LOT-1"⟩, some 10, 5, []⟩ := by
    rw [hlots]
    refine ⟨rfl, rfl, rfl, by decide, fun j ld' hj _ _ hne => ?_⟩
    obtain _ | _ | j := j
    · exact absurd rfl hne
    · cases hj
      exact ⟨rfl, fun h => absurd h (by decide)⟩
    · cases hj
  exact ⟨s, _, _, _, hs, Prod.ext hok rfl, (picksItsLine_iff _ _ hs hp (Prod.ext hok rfl)).mpr ⟨0, _, hfirst⟩⟩

/-- Three units of the other lot are to be picked from its line: they are taken from the first lot. -/
theorem other_lot_picked :
    ¬ ∀ (labels : List (Machine.Label Unit Op Unit)) (s : Machine.State (InventoryEngine 1) Instr),
      LabelledRun.exec (calls wrapI64 1).step { core := new fun _ => 0 } labels = some s →
        ∀ lpn sku lot qty asOf cs eng' p, s.core.pallet lpn = some p →
          s.core.pickFromPallet lpn sku lot qty asOf = (.ok cs, eng') →
            PicksItsLine s.core eng' lpn p sku lot qty.1 := by
  intro h
  have hrun : ((LabelledRun.exec (calls wrapI64 1).step { core := new fun _ => 0 } twoLotsOnPallet).map fun s =>
      (s.core.pallet ⟨0⟩, (s.core.pickFromPallet ⟨0⟩ ⟨0⟩ ⟨"LOT-2"⟩ (u32 3) 0).1,
        lotOnHand (s.core.lots ⟨⟨0⟩, ⟨0⟩⟩) ⟨"LOT-2"⟩,
        lotOnHand ((s.core.pickFromPallet ⟨0⟩ ⟨0⟩ ⟨"LOT-2"⟩ (u32 3) 0).2.lots ⟨⟨0⟩, ⟨0⟩⟩) ⟨"LOT-2"⟩)) =
        some (some ⟨⟨0⟩, ⟨0⟩, [⟨⟨0⟩, ⟨"LOT-1"⟩, u32 5⟩, ⟨⟨0⟩, ⟨"LOT-2"⟩, u32 5⟩]⟩, .ok [⟨⟨"LOT-1"⟩, 3, []⟩], 5, 5) := by
    decide +kernel
  obtain ⟨s, hs, hrun⟩ := Option.map_eq_some_iff.mp hrun
  obtain ⟨hp, hrun⟩ := Prod.mk.inj hrun
  obtain ⟨hok, hrun⟩ := Prod.mk.inj hrun
  obtain ⟨hbefore, hafter⟩ := Prod.mk.inj hrun
  have hunits := (h _ s hs ⟨0⟩ ⟨0⟩ ⟨"LOT-2"⟩ (u32 3) 0 _ _ _ hp (Prod.ext hok rfl)).units
  dsimp only at hunits
  rw [hbefore, hafter] at hunits
  cases hunits

end InventoryEngine

end TptErp.Wms
