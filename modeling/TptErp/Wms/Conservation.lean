import TptErp.Wms.StockLog
import Mathlib.Algebra.BigOperators.Group.Finset.Basic
import Mathlib.Data.Fintype.Basic

/-!
# Moves conserve stock

With quantities read as unbounded integers, the total of a SKU over all bins and what is under way
between two bins changes by the deltas of the movements that are no moves, and by what a pick that is
given up has taken already (`total_exec`).  So in a state with nothing under way the totals are the sums
of the deltas exactly when no pick was given up after a consumption (`moves_conserve_iff`).
-/

namespace TptErp.Wms

namespace InventoryEngine

variable {SHARDS : Nat}

/-! ## Totals -/

/-- What a shard has of a SKU. -/
def shardTotal (s : Shard) (sku : Id Sku) : Int :=
  AssocMap.sumEntries (fun key q => if key.sku = sku then q else 0) s.onHand

/-- The quantity of a SKU over all bins: each key is in one shard. -/
def total (eng : InventoryEngine SHARDS) (sku : Id Sku) : Int := ∑ i, shardTotal (eng.shards i) sku

section
variable (eng : InventoryEngine SHARDS)

theorem total_setShard (i : Fin SHARDS) (s : Shard) (sku : Id Sku) :
    (eng.setShard i s).total sku + shardTotal (eng.shards i) sku = shardTotal s sku + eng.total sku := by
  unfold total
  rw [← Finset.add_sum_erase _ _ (Finset.mem_univ i), ← Finset.add_sum_erase Finset.univ
    (fun j => shardTotal (eng.shards j) sku) (Finset.mem_univ i)]
  have hrest : ∑ j ∈ Finset.univ.erase i, shardTotal ((eng.setShard i s).shards j) sku =
      ∑ j ∈ Finset.univ.erase i, shardTotal (eng.shards j) sku := by
    apply Finset.sum_congr rfl
    intro j hj
    rw [shards_setShard, if_neg (Finset.ne_of_mem_erase hj)]
  rw [hrest, shards_setShard, if_pos rfl]
  omega

theorem total_move (key : StockKey) (m : Movement) (q : Int) (sku : Id Sku) :
    (eng.move key m q).total sku = eng.total sku + if key.sku = sku then q - eng.onHand key else 0 := by
  have ht := eng.total_setShard (eng.shardIndex key)
    { eng.shardOf key with
      store := ((eng.shardOf key).store.append
        { aggregateId := key, eventType := "movement", payload := .movement m }).2
      onHand := (eng.shardOf key).onHand.insert key q } sku
  have hi := AssocMap.sumEntries_insert (fun k q => if k.sku = sku then q else 0) (eng.shardOf key).onHand key q
  have hq : (((eng.shardOf key).onHand.lookup key).map fun q => if key.sku = sku then q else 0).getD 0 =
      if key.sku = sku then eng.onHand key else 0 := by
    unfold onHand AssocMap.getD
    cases (eng.shardOf key).onHand.lookup key with
    | none => simp
    | some v => rfl
  rw [hq] at hi
  have hs : (eng.move key m q).total sku + shardTotal (eng.shards (eng.shardIndex key)) sku =
      AssocMap.sumEntries (fun k q => if k.sku = sku then q else 0) ((eng.shardOf key).onHand.insert key q) +
        eng.total sku := ht
  have hold : shardTotal (eng.shards (eng.shardIndex key)) sku =
      AssocMap.sumEntries (fun k q => if k.sku = sku then q else 0) (eng.shardOf key).onHand := rfl
  split at hi
  · next h =>
    rw [if_pos h]
    omega
  · next h =>
    rw [if_neg h]
    omega

theorem total_moveBy (key : StockKey) (m : Movement) (delta : Int) (sku : Id Sku) :
    (eng.moveBy id key m delta).total sku = eng.total sku + if key.sku = sku then delta else 0 := by
  unfold moveBy
  rw [total_move]
  congr 1
  split
  · show eng.onHand key + delta - eng.onHand key = delta
    omega
  · rfl

theorem total_setShard_of_onHand (i : Fin SHARDS) {s : Shard} (h : s.onHand = (eng.shards i).onHand) (sku : Id Sku) :
    (eng.setShard i s).total sku = eng.total sku := by
  have ht := eng.total_setShard i s sku
  have hs : shardTotal s sku = shardTotal (eng.shards i) sku := by
    unfold shardTotal
    rw [h]
  omega

@[simp] theorem total_logLot (key : StockKey) (e : LotEvent) (sku : Id Sku) :
    (eng.logLot key e).total sku = eng.total sku := by
  apply eng.total_setShard_of_onHand
  rfl

@[simp] theorem total_setLots (key : StockKey) (ls : List LotDetail) (sku : Id Sku) :
    (eng.setLots key ls).total sku = eng.total sku := by
  apply eng.total_setShard_of_onHand
  rfl

@[simp] theorem total_putSerials (sns : List SerialNumber) (key : StockKey) (lot : LotNumber) (sku : Id Sku) :
    (eng.putSerials sns key lot).total sku = eng.total sku := rfl

@[simp] theorem total_removeSerials (sns : List SerialNumber) (sku : Id Sku) :
    (eng.removeSerials sns).total sku = eng.total sku := rfl

end

theorem total_new (shardIndex : StockKey → Fin SHARDS) (sku : Id Sku) : (new shardIndex).total sku = 0 :=
  Finset.sum_eq_zero fun _ _ => rfl

theorem total_picked {key : StockKey} {cs : List LotConsumption} {eng eng' : InventoryEngine SHARDS}
    (h : Picked id key cs eng eng') (sku : Id Sku) :
    eng'.total sku = eng.total sku + if key.sku = sku then -(consumed cs : Int) else 0 := by
  induction h with
  | nil eng =>
    have h0 : (consumed [] : Int) = 0 := rfl
    rw [h0]
    split
    · omega
    · omega
  | @cons eng eng' c cs floor rest ih =>
    have hsum : (consumed (c :: cs) : Int) = c.qty + consumed cs := Nat.cast_add _ _
    rw [ih, total_logLot, total_moveBy]
    split
    · omega
    · omega

/-! ## What a section adds -/

def succeeded {R : Type} (r : Call SHARDS R) : Bool :=
  match r.1 with
  | .ok _ => true
  | .error _ => false

/-- The delta of a movement of the SKU that succeeded. -/
def credit (sku : Id Sku) (key : StockKey) (ok : Bool) (delta : Int) : Int :=
  if ok = true ∧ key.sku = sku then delta else 0

/-- The delta of a section that is no part of a move, if it succeeds.  A count applies its adjustments one
by one. -/
def gain (eng : InventoryEngine SHARDS) (sku : Id Sku) : Instr → Int
  | .apply key m => credit sku key (succeeded (appendWith id eng key m m.delta)) m.delta
  | .applyVersioned key m v => credit sku key (succeeded (applyVersionedWith id eng key m v)) m.delta
  | .receive key lot qty expiry serials =>
    credit sku key (succeeded (receiveSection id eng key lot qty expiry serials)) qty.1
  | .pick key qty asOf => credit sku key (succeeded (pickSection id eng key qty asOf)) (-(qty.1 : Int))
  | .pickFromLot key lot qty asOf =>
    credit sku key (succeeded (pickFromLotSection id eng key lot qty asOf)) (-(qty.1 : Int))
  | .adjust bin _ reason line delta _ =>
    credit sku ⟨bin, line⟩ (succeeded (appendWith id eng ⟨bin, line⟩ (.adjustment (i64 delta) reason) delta)) delta
  | _ => 0

/-- The consumptions that go through from a quantity, up to the first that does not. -/
def goesThrough : Int → List LotConsumption → List LotConsumption
  | _, [] => []
  | q, c :: cs => if (c.qty : Int) ≤ q then c :: goesThrough (q - c.qty) cs else []

/-- The units that a pick takes before it is given up. -/
def loss (eng : InventoryEngine SHARDS) (sku : Id Sku) : Instr → Int
  | .pick key qty asOf =>
    if key.sku = sku ∧ qty.1 ≤ issuable (eng.lots key) asOf ∧ eng.onHand key < qty.1 then
      consumed (goesThrough (eng.onHand key) (eng.pickTakes key qty.1 asOf).2)
    else 0
  | _ => 0

/-- The units of the SKU that are under way between two bins. -/
def transit (sku : Id Sku) : Instr → Int
  | .registerMoved _ _ _ line _ _ _ => if line.sku = sku then line.qty.1 else 0
  | .transferIn _ _ _ line _ _ _ => if line.sku = sku then line.qty.1 else 0
  | _ => 0

theorem transit_of_plain {i : Instr} (h : i.plain = true) (sku : Id Sku) : transit sku i = 0 := by
  cases i with
  | registerMoved | transferIn => cases h
  | _ => rfl

theorem transit_prog (op : Op) (sku : Id Sku) : ((prog op).map (transit sku)).sum = 0 := by
  apply List.sum_eq_zero
  intro x hx
  obtain ⟨i, hi, rfl⟩ := List.mem_map.mp hx
  exact transit_of_plain (plain_prog op i hi) sku

theorem goesThrough_picked {key : StockKey} {first : List LotConsumption} {c : LotConsumption}
    (rest : List LotConsumption) {eng eng' : InventoryEngine SHARDS} (h : Picked id key first eng eng')
    (hc : ¬ eng'.Floor id key (-(c.qty : Int))) : goesThrough (eng.onHand key) (first ++ c :: rest) = first := by
  induction h with
  | nil eng =>
    have hlt : ¬ (0 : Int) ≤ eng.onHand key + -(c.qty : Int) := hc
    rw [List.nil_append, goesThrough, if_neg (by omega)]
  | @cons eng eng' d cs floor _ ih =>
    have hle : (0 : Int) ≤ eng.onHand key + -(d.qty : Int) := floor
    have hmid : ((eng.moveBy id key (.picked d.qty) (-(d.qty : Int))).logLot key
        (.picked d.lot d.qty d.serials)).onHand key = eng.onHand key - d.qty := by
      rw [onHand_logLot, onHand_moveBy, if_pos rfl]
      exact (Int.sub_eq_add_neg).symm
    have hrest := ih hc
    rw [hmid] at hrest
    rw [List.cons_append, goesThrough, if_pos (by omega), hrest]

theorem onHand_picked_id {key : StockKey} {cs : List LotConsumption} {eng eng' : InventoryEngine SHARDS}
    (h : Picked id key cs eng eng') : eng'.onHand key = eng.onHand key - consumed cs := by
  induction h with
  | nil eng =>
    show eng.onHand key = eng.onHand key - ((0 : Nat) : Int)
    omega
  | @cons eng eng' c cs floor rest ih =>
    have hsum : (consumed (c :: cs) : Int) = c.qty + consumed cs := Nat.cast_add _ _
    have hmid : ((eng.moveBy id key (.picked c.qty) (-(c.qty : Int))).logLot key
        (.picked c.lot c.qty c.serials)).onHand key = eng.onHand key + -(c.qty : Int) := by
      rw [onHand_logLot, onHand_moveBy, if_pos rfl]
      rfl
    rw [ih, hmid]
    omega

section
variable (eng : InventoryEngine SHARDS) (sku : Id Sku)

theorem credit_true (key : StockKey) (delta : Int) : credit sku key true delta = if key.sku = sku then delta else 0 := by
  unfold credit
  simp

theorem total_append (key : StockKey) (m : Movement) (delta : Int) :
    (appendWith id eng key m delta).2.total sku =
      eng.total sku + credit sku key (succeeded (appendWith id eng key m delta)) delta := by
  rcases eng.appendWith_cases id key m delta with ⟨-, e, he⟩ | ⟨-, n, he⟩
  · rw [he]
    exact (Int.add_zero _).symm
  · rw [he]
    exact (eng.total_moveBy key m delta sku).trans (congrArg _ (credit_true sku key delta).symm)

theorem total_receive (key : StockKey) (lot : LotNumber) (qty : U32) (expiry : Option Int)
    (serials : List SerialNumber) :
    (receiveSection id eng key lot qty expiry serials).2.total sku = eng.total sku +
      credit sku key (succeeded (receiveSection id eng key lot qty expiry serials)) qty.1 := by
  rcases eng.receiveSection_cases id key lot qty expiry serials with ⟨-, e, he⟩ | ⟨-, n, he⟩
  · rw [he]
    exact (Int.add_zero _).symm
  · rw [he]
    show InventoryEngine.total (InventoryEngine.logLot _ _ _) sku = _
    rw [total_logLot, total_setLots, total_moveBy]
    exact congrArg _ (credit_true sku key qty.1).symm

theorem loss_pick (key : StockKey) (qty : U32) (asOf : Int) : loss eng sku (.pick key qty asOf) =
    if key.sku = sku ∧ qty.1 ≤ issuable (eng.lots key) asOf ∧ eng.onHand key < qty.1 then
      (consumed (goesThrough (eng.onHand key) (eng.pickTakes key qty.1 asOf).2) : Int)
    else 0 := rfl

theorem total_pick (hs : Stocked id eng) (key : StockKey) (qty : U32) (asOf : Int) :
    (pickSection id eng key qty asOf).2.total sku = eng.total sku +
      credit sku key (succeeded (pickSection id eng key qty asOf)) (-(qty.1 : Int)) -
        loss eng sku (.pick key qty asOf) := by
  rcases eng.pickSection_cases id key qty asOf with ⟨hlt, e, he⟩ | ⟨hle, eng', hp, he⟩ |
    ⟨hle, first, c, rest, eng', e, hsplit, hp, hc, he⟩
  · have hl : loss eng sku (.pick key qty asOf) = 0 := if_neg fun h => by omega
    rw [he, hl]
    show eng.total sku = eng.total sku + 0 - 0
    omega
  · -- the bin had the units
    have hcons := eng.consumed_pickTakes hle
    have hq := onHand_picked_id hp
    have h0 := (stocked_edits quantityArith_id hs
      (Relation.ReflTransGen.head (.setLots key _) (edits_picked hp)) key).1
    rw [onHand_setLots, hcons] at hq
    have hl : loss eng sku (.pick key qty asOf) = 0 := if_neg fun h => by omega
    rw [he, hl]
    show (eng'.setLots key _).total sku = eng.total sku + credit sku key true _ - 0
    rw [total_setLots, total_picked hp, total_setLots, hcons, credit_true, Int.sub_zero]
  · have hcons := eng.consumed_pickTakes hle
    rw [hsplit, consumed_append] at hcons
    have hcs : consumed (c :: rest) = c.qty + consumed rest := rfl
    have hq := onHand_picked_id hp
    have hgo := goesThrough_picked rest hp hc
    have hneg : ¬ (0 : Int) ≤ eng'.onHand key + -(c.qty : Int) := hc
    rw [onHand_setLots] at hq hgo
    have hshort : eng.onHand key < qty.1 := by omega
    have hl : loss eng sku (.pick key qty asOf) = if key.sku = sku then (consumed first : Int) else 0 := by
      rw [loss_pick, hsplit, hgo]
      by_cases hk : key.sku = sku
      · rw [if_pos ⟨hk, hle, hshort⟩, if_pos hk]
      · rw [if_neg fun h => hk h.1, if_neg hk]
    rw [he, hl]
    show eng'.total sku = eng.total sku + 0 - _
    rw [total_picked hp, total_setLots]
    split
    · omega
    · omega

theorem total_pickFromLot (key : StockKey) (lot : LotNumber) (qty : U32) (asOf : Int) :
    (pickFromLotSection id eng key lot qty asOf).2.total sku = eng.total sku +
      credit sku key (succeeded (pickFromLotSection id eng key lot qty asOf)) (-(qty.1 : Int)) := by
  rcases eng.pickFromLotSection_cases id key lot qty asOf with ⟨-, e, he⟩ | ⟨-, ld, -, he⟩
  · rw [he]
    exact (Int.add_zero _).symm
  · rw [he]
    show InventoryEngine.total (InventoryEngine.setLots _ _ _) sku = _
    rw [total_setLots, total_logLot, total_moveBy]
    exact congrArg _ (credit_true sku key _).symm

theorem floor_id_received (hs : Stocked id eng) (key : StockKey) (qty : Nat) : eng.Floor id key qty := by
  have h0 := (hs key).1
  show (0 : Int) ≤ eng.onHand key + qty
  omega

theorem transit_plain {more : List Instr} (h : ∀ j ∈ more, j.plain = true) : (more.map (transit sku)).sum = 0 := by
  apply List.sum_eq_zero
  intro x hx
  obtain ⟨j, hj, rfl⟩ := List.mem_map.mp hx
  exact transit_of_plain (h j hj) sku

theorem continueWith_engine {R : Type} (r : Call SHARDS R) (more : R → List Instr) :
    (continueWith r more).1 = r.2 := by
  unfold continueWith
  split
  · rfl
  · rfl

theorem transit_continueWith {R : Type} (r : Call SHARDS R) {more : R → List Instr}
    (h : ∀ a, ((more a).map (transit sku)).sum = 0) : ((continueWith r more).2.map (transit sku)).sum = 0 := by
  unfold continueWith
  split
  · exact h _
  · rfl

/-- The section neither moves units nor goes on with units under way. -/
def Instr.quiet : Instr → Bool
  | .checkSerials _ _ _ _ _ | .checkLine _ _ _ _ | .pickFromPallet _ _ _ _ _ | .readPallet _ _ |
    .countLine _ _ _ _ => true
  | _ => false

theorem total_quiet {eng' : InventoryEngine SHARDS} {i : Instr} {more : List Instr} (h : i.quiet = true)
    (hd : Does id eng i eng' more) : eng'.total sku = eng.total sku ∧ (more.map (transit sku)).sum = 0 := by
  cases hd with
  | stop => exact ⟨rfl, rfl⟩
  | goOn plain blind next => exact ⟨rfl, transit_plain sku (List.forall_mem_singleton.mpr next)⟩
  | pallet lpn p more plain blind next => exact ⟨rfl, transit_plain sku next⟩
  | blind plain blind =>
    cases i with
    | checkSerials | checkLine | pickFromPallet | readPallet | countLine => cases blind
    | _ => cases h
  | receiptRefused | received | pickRefused | picked | pickGivenUp | lotPickRefused | lotPicked | departureRefused |
    departed | arrivalRefused | arrived | putSerials | removeSerials | registerMoved => cases h

/-- A line of a pallet leaves its bin: what the total loses is under way. -/
theorem total_moveLine {eng' : InventoryEngine SHARDS} {lpn : LpnId} {location toBin : Id Bin} {todo : List PalletLine}
    {more : List Instr} (hd : Does id eng (.moveLine lpn location toBin todo) eng' more) :
    eng'.total sku + (more.map (transit sku)).sum = eng.total sku := by
  cases hd with
  | stop => exact Int.add_zero _
  | goOn plain blind next =>
    rw [transit_plain sku (List.forall_mem_singleton.mpr next)]
    exact Int.add_zero _
  | pallet lpn p more plain blind next =>
    rw [transit_plain sku next]
    exact Int.add_zero _
  | blind plain blind => cases blind
  | departureRefused ld found enough floor =>
    rw [total_setLots]
    exact Int.add_zero _
  | @departed lpn location toBin line todo ld found enough floor =>
    have ht : ([Instr.registerMoved lpn location toBin line ld.expiry (ld.takenSerials line.qty.1) todo].map
        (transit sku)).sum = if line.sku = sku then (line.qty.1 : Int) else 0 := by
      rw [List.map_singleton, List.sum_singleton]
      rfl
    rw [ht, total_logLot, total_moveBy, total_setLots]
    split
    · omega
    · omega

/-- **One section**: the total and the units under way change by what the section adds, less what a pick
loses. -/
theorem total_exec (hs : Stocked id eng) (i : Instr) :
    (exec id eng i).1.total sku + ((exec id eng i).2.map (transit sku)).sum =
      eng.total sku + transit sku i + (gain eng sku i - loss eng sku i) := by
  have hd := eng.does_exec id i
  cases i with
  | apply key m =>
    simp only [exec, continueWith_engine]
    rw [total_append, transit_continueWith sku _ fun _ => rfl]
    simp only [transit, gain, loss]
    omega
  | applyVersioned key m v =>
    simp only [exec, continueWith_engine]
    rw [transit_continueWith sku _ fun _ => rfl]
    simp only [transit, gain, loss]
    rcases eng.applyVersionedWith_cases id key m v with ⟨-, e, he⟩ | ⟨-, he⟩
    · rw [he]
      show eng.total sku + 0 = eng.total sku + 0 + (0 - 0)
      omega
    · rw [he]
      show (eng.moveBy id key m m.delta).total sku + 0 = eng.total sku + 0 + (credit sku key true m.delta - 0)
      rw [total_moveBy, credit_true]
      omega
  | receive key lot qty expiry serials =>
    simp only [exec, continueWith_engine]
    rw [total_receive, transit_continueWith sku _ fun _ => rfl]
    simp only [transit, gain, loss]
    omega
  | pick key qty asOf =>
    simp only [exec, continueWith_engine]
    rw [eng.total_pick sku hs, transit_continueWith sku _ fun _ => rfl]
    simp only [transit, gain]
    omega
  | pickFromLot key lot qty asOf =>
    simp only [exec, continueWith_engine]
    rw [total_pickFromLot, transit_continueWith sku _ fun _ => rfl]
    simp only [transit, gain, loss]
    omega
  | adjust bin counted reason line delta todo =>
    simp only [exec, continueWith_engine]
    rw [total_append, transit_continueWith sku _ fun _ => rfl]
    simp only [transit, gain, loss]
    omega
  | moveLine lpn location toBin todo =>
    rw [eng.total_moveLine sku hd]
    simp only [transit, gain, loss]
    omega
  | transferIn lpn location toBin line expiry serials todo =>
    simp only [exec, continueWith_engine]
    rw [transit_continueWith sku _ fun _ => rfl]
    have hf := eng.floor_id_received hs ⟨toBin, line.sku⟩ line.qty.1
    rcases eng.receiveSection_cases id ⟨toBin, line.sku⟩ line.lot line.qty expiry serials with
      ⟨hn, -⟩ | ⟨-, n, he⟩
    · exact absurd hf hn
    · rw [he]
      dsimp only
      rw [total_logLot, total_setLots, total_moveBy]
      simp only [transit, gain, loss]
      omega
  | registerMoved lpn location toBin line expiry serials todo =>
    simp only [exec, total_putSerials, List.map_singleton, List.sum_singleton, transit, gain, loss]
    omega
  | putSerials | removeSerials =>
    simp only [exec, total_putSerials, total_removeSerials, List.map_nil, List.sum_nil, transit, gain, loss]
    omega
  | checkSerials | checkLine | pickFromPallet | readPallet | countLine =>
    obtain ⟨ht, hm⟩ := eng.total_quiet sku rfl hd
    rw [ht, hm]
    simp only [transit, gain, loss]
    omega

end

/-! ## Runs -/

/-- Where the lots cover a pick and the bin does not, the bin does not cover the first consumption either. -/
def PickWhole (eng : InventoryEngine SHARDS) : Instr → Prop
  | .pick key qty asOf => qty.1 ≤ issuable (eng.lots key) asOf → eng.onHand key < qty.1 →
    ∀ c ∈ (eng.pickTakes key qty.1 asOf).2.head?, eng.onHand key < c.qty
  | _ => True

instance (eng : InventoryEngine SHARDS) (i : Instr) : Decidable (PickWhole eng i) :=
  match i with
  | .pick _ _ _ => inferInstanceAs (Decidable (_ → _ → _))
  | .apply _ _ | .applyVersioned _ _ _ | .checkSerials _ _ _ _ _ | .receive _ _ _ _ _ | .putSerials _ _ _ |
    .removeSerials _ | .checkLine _ _ _ _ | .pickFromLot _ _ _ _ | .pickFromPallet _ _ _ _ _ | .readPallet _ _ |
    .moveLine _ _ _ _ | .registerMoved _ _ _ _ _ _ _ | .transferIn _ _ _ _ _ _ _ | .countLine _ _ _ _ |
    .adjust _ _ _ _ _ _ => isTrue trivial

theorem qty_of_mem_takePlan {lots : List LotDetail} {plan : List (Nat × Nat)} {c : LotConsumption}
    (h : c ∈ (takePlan lots plan).2) : ∃ p ∈ plan, c.qty = p.2 := by
  induction plan generalizing lots with
  | nil => cases h
  | cons p plan ih =>
    obtain ⟨i, qty⟩ := p
    unfold takePlan at h
    split at h
    · rcases List.mem_cons.mp h with rfl | h
      · exact ⟨(i, qty), List.mem_cons_self, rfl⟩
      · obtain ⟨p, hp, hq⟩ := ih h
        exact ⟨p, List.mem_cons_of_mem _ hp, hq⟩
    · obtain ⟨p, hp, hq⟩ := ih h
      exact ⟨p, List.mem_cons_of_mem _ hp, hq⟩

theorem consumed_goesThrough_eq_zero (q : Int) {cs : List LotConsumption} (hpos : ∀ c ∈ cs, 0 < c.qty) :
    consumed (goesThrough q cs) = 0 ↔ ∀ c ∈ cs.head?, q < c.qty := by
  cases cs with
  | nil => exact iff_of_true rfl fun c hc => by cases hc
  | cons c cs =>
    have h0 := hpos c List.mem_cons_self
    simp only [goesThrough, List.head?_cons, Option.mem_def, Option.some.injEq, forall_eq']
    split
    · next h =>
      have hs : consumed (c :: goesThrough (q - c.qty) cs) = c.qty + consumed (goesThrough (q - c.qty) cs) := rfl
      rw [hs]
      omega
    · next h => exact iff_of_true rfl (by omega)

/-- A pick loses nothing of any SKU exactly when it is whole. -/
theorem loss_eq_zero_iff (eng : InventoryEngine SHARDS) (i : Instr) :
    (∀ sku, loss eng sku i = 0) ↔ PickWhole eng i := by
  cases i with
  | pick key qty asOf =>
    have hpos : ∀ c ∈ (eng.pickTakes key qty.1 asOf).2, 0 < c.qty := by
      intro c hc
      obtain ⟨p, hp, hq⟩ := qty_of_mem_takePlan hc
      rw [hq]
      exact (mem_planLoop hp).1
    have hz := consumed_goesThrough_eq_zero (eng.onHand key) hpos
    simp only [loss_pick]
    constructor
    · intro h hle hlt
      have hk := h key.sku
      rw [if_pos ⟨rfl, hle, hlt⟩] at hk
      exact hz.mp (by omega)
    · intro h sku
      split
      · next hc => exact congrArg Nat.cast (hz.mpr (h hc.2.1 hc.2.2))
      · rfl
  | _ => exact iff_of_true (fun _ => rfl) trivial

theorem loss_nonneg (eng : InventoryEngine SHARDS) (sku : Id Sku) (i : Instr) : 0 ≤ loss eng sku i := by
  cases i with
  | pick key qty asOf =>
    rw [loss_pick]
    split
    · exact Int.natCast_nonneg _
    · exact Int.le_refl 0
  | _ => exact Int.le_refl 0

/-- No units are under way between two bins. -/
def noTransfer (s : Machine.State (InventoryEngine SHARDS) Instr) : Bool :=
  s.threads.all fun prog => prog.all fun i =>
    match i with
    | .registerMoved _ _ _ _ _ _ _ | .transferIn _ _ _ _ _ _ _ => false
    | _ => true

theorem pendingSum_of_noTransfer {s : Machine.State (InventoryEngine SHARDS) Instr} (h : noTransfer s = true)
    (sku : Id Sku) : Machine.pendingSum (transit sku) s = 0 := by
  apply List.sum_eq_zero
  intro x hx
  obtain ⟨prog, hp, rfl⟩ := List.mem_map.mp hx
  apply List.sum_eq_zero
  intro y hy
  obtain ⟨i, hi, rfl⟩ := List.mem_map.mp hy
  have hq := List.all_eq_true.mp (List.all_eq_true.mp h prog hp) i hi
  cases i with
  | registerMoved | transferIn => cases hq
  | _ => rfl

/-- What a step of the calls adds to the total of a SKU. -/
abbrev gained (sku : Id Sku) : Machine.State (InventoryEngine SHARDS) Instr → Machine.Label Unit Op Unit → Int :=
  Machine.stepValue fun eng i => gain eng sku i

/-- What a step of the calls loses of a SKU. -/
abbrev lost (sku : Id Sku) : Machine.State (InventoryEngine SHARDS) Instr → Machine.Label Unit Op Unit → Int :=
  Machine.stepValue fun eng i => loss eng sku i

theorem total_step {s t : Machine.State (InventoryEngine SHARDS) Instr} {a : Machine.Label Unit Op Unit}
    (hs : Stocked id s.core) (h : (calls id SHARDS).step s a = some t) (sku : Id Sku) :
    t.core.total sku + Machine.pendingSum (transit sku) t =
      s.core.total sku + Machine.pendingSum (transit sku) s + (gained sku s a - lost sku s a) := by
  cases (calls id SHARDS).moves_of_step h with
  | spawn op =>
    have hp := Machine.pendingSum_spawn (transit sku) s (prog op)
    rw [transit_prog] at hp
    show s.core.total sku + Machine.pendingSum (transit sku) { s with threads := s.threads ++ [prog op] } =
      _ + _ + (0 - 0)
    omega
  | env e =>
    show s.core.total sku + Machine.pendingSum (transit sku) s = _ + _ + (0 - 0)
    omega
  | @run th choice i rest more core hth hi =>
    obtain ⟨under, hs0, ht0⟩ := Machine.pendingSum_run (transit sku) hth
    have ht1 := ht0 core more
    have he := s.core.total_exec sku hs i
    rw [Option.some.inj hi] at he
    have hg : gained sku s (.run th choice) = gain s.core sku i := Machine.stepValue_run _ hth
    have hl : lost sku s (.run th choice) = loss s.core sku i := Machine.stepValue_run _ hth
    rw [hg, hl]
    dsimp only at he ⊢
    omega

/-- **Moves conserve stock.**  In any state of interleaved calls with nothing under way between two bins,
the total of every SKU is the sum of the deltas of the movements that succeeded and are no part of a
move, exactly when each pick of the run was whole. -/
theorem moves_conserve_iff (shardIndex : StockKey → Fin SHARDS) (labels : List (Machine.Label Unit Op Unit))
    (t : Machine.State (InventoryEngine SHARDS) Instr)
    (h : LabelledRun.exec (calls id SHARDS).step { core := new shardIndex } labels = some t)
    (hq : noTransfer t = true) :
    (∀ sku, t.core.total sku =
        LabelledRun.tally (calls id SHARDS).step (gained sku) { core := new shardIndex } labels) ↔
      (calls id SHARDS).RunDoes (fun eng i _ => PickWhole eng i) { core := new shardIndex } labels := by
  have htotal : ∀ sku, t.core.total sku =
      LabelledRun.tally (calls id SHARDS).step (gained sku) { core := new shardIndex } labels -
        LabelledRun.tally (calls id SHARDS).step (lost sku) { core := new shardIndex } labels := by
    intro sku
    have hv := LabelledRun.eq_add_tally (calls id SHARDS).step (fun s => Stocked id s.core)
      (fun s => s.core.total sku + Machine.pendingSum (transit sku) s)
      (fun s a => gained sku s a - lost sku s a)
      (fun s a t hs ht => stocked_edits quantityArith_id hs (edits_step ht))
      (fun s a t hs ht => total_step hs ht sku) (stocked_new rfl shardIndex) h
    have h0 : (new shardIndex).total sku + Machine.pendingSum (transit sku)
        ({ core := new shardIndex } : Machine.State (InventoryEngine SHARDS) Instr) = 0 := by
      rw [total_new]
      rfl
    rw [LabelledRun.tally_sub] at hv
    have hp := pendingSum_of_noTransfer hq sku
    dsimp only at hv
    omega
  have hnonneg : ∀ sku (s : Machine.State (InventoryEngine SHARDS) Instr) a, 0 ≤ lost sku s a := by
    intro sku s a
    cases a with
    | run th choice =>
      simp only [lost, Machine.stepValue]
      split
      · exact loss_nonneg _ _ _
      · exact Int.le_refl 0
    | spawn op => exact Int.le_refl 0
    | env e => exact Int.le_refl 0
  have hlost : (∀ sku, t.core.total sku =
      LabelledRun.tally (calls id SHARDS).step (gained sku) { core := new shardIndex } labels) ↔
      ∀ sku, LabelledRun.tally (calls id SHARDS).step (lost sku) { core := new shardIndex } labels = 0 := by
    apply forall_congr'
    intro sku
    have := htotal sku
    omega
  rw [hlost]
  simp only [LabelledRun.tally_eq_zero_iff _ (hnonneg _)]
  rw [LabelledRun.allSteps_forall]
  apply LabelledRun.allSteps_congr
  intro s a
  rw [← Machine.does_iff_stepValue loss_eq_zero_iff s a]
  constructor
  · intro hz t ht sku
    exact hz sku t ht
  · intro hz sku t ht
    exact hz t ht sku

/-- Three units each of two lots in one bin. -/
def twoLots : List (Machine.Label Unit Op Unit) :=
  [.spawn (.receiveLot ⟨⟨0⟩, ⟨0⟩⟩ ⟨"LOT-1"⟩ (u32 3) none []), .run 0 (), .run 0 (), .run 0 (),
    .spawn (.receiveLot ⟨⟨0⟩, ⟨0⟩⟩ ⟨"LOT-2"⟩ (u32 3) none []), .run 1 (), .run 1 (), .run 1 ()]

/-- A pallet with two units of the first lot, moved to another bin, and a pick of the four that are left. -/
def palletMoved : List (Machine.Label Unit Op Unit) :=
  twoLots ++ [.spawn (.createPallet ⟨0⟩ [⟨⟨0⟩, ⟨"LOT-1"⟩, u32 2⟩] ⟨0⟩), .run 2 (), .run 2 (),
    .spawn (.movePallet ⟨0⟩ ⟨1⟩), .run 3 (), .run 3 (), .run 3 (), .run 3 (), .run 3 (),
    .spawn (.pick ⟨⟨0⟩, ⟨0⟩⟩ (u32 4) 0), .run 4 (), .run 4 ()]

/-- A move and no pick that is given up: the totals are the sums of the deltas. -/
theorem pallet_moved_conserves : ∃ t : Machine.State (InventoryEngine 1) Instr,
    LabelledRun.exec (calls id 1).step { core := new fun _ => 0 } palletMoved = some t ∧
      t.core.onHand ⟨⟨0⟩, ⟨0⟩⟩ = 0 ∧ t.core.onHand ⟨⟨1⟩, ⟨0⟩⟩ = 2 ∧
      ∀ sku, t.core.total sku =
        LabelledRun.tally (calls id 1).step (gained sku) { core := new fun _ => 0 } palletMoved := by
  have hrun : (LabelledRun.exec (calls id 1).step { core := new fun _ => 0 } palletMoved).map
      (fun t => (noTransfer t, t.core.onHand ⟨⟨0⟩, ⟨0⟩⟩, t.core.onHand ⟨⟨1⟩, ⟨0⟩⟩)) = some (true, 0, 2) := by
    decide +kernel
  have hwhole : (calls id 1).RunDoes (fun eng i _ => PickWhole eng i) { core := new fun _ => 0 } palletMoved := by
    decide +kernel
  obtain ⟨t, ht, hval⟩ := Option.map_eq_some_iff.mp hrun
  obtain ⟨hno, hval⟩ := Prod.mk.inj hval
  obtain ⟨hfrom, hto⟩ := Prod.mk.inj hval
  exact ⟨t, ht, hfrom, hto, (moves_conserve_iff _ _ t ht hno).mpr hwhole⟩

/-- Two units leave the bin without a lot, and a pick of six is given up after the first lot's three. -/
def pickGivenUpHalfWay : List (Machine.Label Unit Op Unit) :=
  twoLots ++ [.spawn (.apply ⟨⟨0⟩, ⟨0⟩⟩ (.picked 2)), .run 2 (), .spawn (.pick ⟨⟨0⟩, ⟨0⟩⟩ (u32 6) 0), .run 3 ()]

/-- One unit is left in the bin, while the movements that succeeded add up to four. -/
theorem given_up_pick_loses_stock :
    ¬ ∀ (labels : List (Machine.Label Unit Op Unit)) (t : Machine.State (InventoryEngine 1) Instr),
      LabelledRun.exec (calls id 1).step { core := new fun _ => 0 } labels = some t → noTransfer t = true →
        ∀ sku, t.core.total sku = LabelledRun.tally (calls id 1).step (gained sku) { core := new fun _ => 0 } labels := by
  intro h
  have hrun : (LabelledRun.exec (calls id 1).step { core := new fun _ => 0 } pickGivenUpHalfWay).map
      (fun t => (noTransfer t, t.core.total ⟨0⟩)) = some (true, 1) := by decide +kernel
  obtain ⟨t, ht, hval⟩ := Option.map_eq_some_iff.mp hrun
  have hsum : LabelledRun.tally (calls id 1).step (gained ⟨0⟩) { core := new fun _ => 0 } pickGivenUpHalfWay = 4 := by
    decide +kernel
  have hkey := h _ t ht (congrArg Prod.fst hval) ⟨0⟩
  have hone : t.core.total ⟨0⟩ = 1 := congrArg Prod.snd hval
  omega

end InventoryEngine

end TptErp.Wms
