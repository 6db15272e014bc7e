import TptErp.Wms.LotCover

/-!
# Lots read back from the log

The replay of the lot events keeps the lots that a pick drops, with their expiry and whatever serials
are left in them; a later receipt starts a new lot in the engine and joins the old one in the replay.
Unless that happens to a lot with an expiry (or serials) of its own, the replay gives the live lots
(`lots_replayed`).
-/

namespace TptErp.Wms

/-- The lots of a key after one of its events. -/
def LotEvent.applyTo (lots : List LotDetail) : LotEvent → List LotDetail
  | .received lot qty expiry serials => addToLot lots lot qty expiry serials
  | .picked lot qty _ => updateLot lot (fun ld => ld.take qty) lots
  | .transferred lot qty _ _ _ => updateLot lot (fun ld => ld.take qty) lots

/-- The read model of lots. -/
structure LotProjection where
  lots : AssocMap StockKey (List LotDetail) := ∅

def LotProjection.apply (proj : LotProjection) (event : StockKey × LotEvent) : LotProjection :=
  { lots := proj.lots.insert event.1 (event.2.applyTo (AssocMap.getD proj.lots event.1 [])) }

/-- The lots of a key that its events give. -/
def replayLots (events : List LotEvent) : List LotDetail := events.foldl LotEvent.applyTo []

/-- Two lots are the same to a reader, for whom serials are a set. -/
structure SameLot (a b : LotDetail) : Prop where
  lot : a.lot = b.lot
  onHand : a.onHand = b.onHand
  expiry : a.expiry = b.expiry
  serials : ∀ sn, sn ∈ a.serials ↔ sn ∈ b.serials

theorem sameLot_refl (a : LotDetail) : SameLot a a := ⟨rfl, rfl, rfl, fun _ => Iff.rfl⟩

/-- The lots that have units are the same. -/
structure SameStock (live replayed : List LotDetail) : Prop where
  of_live : ∀ a ∈ live, 0 < a.onHand → ∃ b ∈ replayed, SameLot a b
  of_replayed : ∀ b ∈ replayed, 0 < b.onHand → ∃ a ∈ live, SameLot a b

/-! ## What a lot's events say -/

/-- The expiry that a receipt into the lot names. -/
def LotEvent.expiryOf (lot : LotNumber) : LotEvent → Option Int
  | .received l _ expiry _ => if l = lot then expiry else none
  | .picked _ _ _ => none
  | .transferred _ _ _ _ _ => none

/-- The number of serials that a receipt brings into the lot. -/
def LotEvent.brought (lot : LotNumber) : LotEvent → Nat
  | .received l _ _ serials => if l = lot then serials.length else 0
  | .picked _ _ _ => 0
  | .transferred _ _ _ _ _ => 0

/-- The number of serials that leave the lot. -/
def LotEvent.took (lot : LotNumber) : LotEvent → Nat
  | .received _ _ _ _ => 0
  | .picked l _ serials => if l = lot then serials.length else 0
  | .transferred l _ _ _ serials => if l = lot then serials.length else 0

/-- A receipt may start the lot anew: the key has the lot, or the receipt names its expiry unless no
earlier one did, and the serials that came into the lot have all left it. -/
def Renewable (live : List LotDetail) (events : List LotEvent) (lot : LotNumber) (expiry : Option Int) : Prop :=
  findLot live lot = none → (expiry.isSome ∨ ∀ e ∈ events, e.expiryOf lot = none) ∧
    (events.map (·.took lot)).sum = (events.map (·.brought lot)).sum

instance (live : List LotDetail) (events : List LotEvent) (lot : LotNumber) (expiry : Option Int) :
    Decidable (Renewable live events lot expiry) :=
  inferInstanceAs (Decidable (_ → _ ∧ _))

theorem replayLots_concat (events : List LotEvent) (e : LotEvent) :
    replayLots (events ++ [e]) = e.applyTo (replayLots events) := by
  unfold replayLots
  rw [List.foldl_append]
  rfl

/-- A lot none of whose receipts named an expiry has none. -/
theorem expiry_replayLots {events : List LotEvent} {lot : LotNumber} (h : ∀ e ∈ events, e.expiryOf lot = none)
    {b : LotDetail} (hb : findLot (replayLots events) lot = some b) : b.expiry = none := by
  induction events using List.reverseRecOn generalizing b with
  | nil => cases hb
  | append_singleton events e ih =>
    have hrest := fun {b} => @ih (fun e' he' => h e' (List.mem_append_left _ he')) b
    have he := h e (List.mem_append_right _ List.mem_cons_self)
    rw [replayLots_concat] at hb
    have htake : ∀ l qty, findLot (updateLot l (fun ld => ld.take qty) (replayLots events)) lot = some b →
        b.expiry = none := by
      intro l qty hf
      rw [findLot_updateLot fun ld => take_lot ld qty] at hf
      split at hf
      · obtain ⟨b', hb', rfl⟩ := Option.map_eq_some_iff.mp hf
        show b'.expiry = none
        exact hrest hb'
      · exact hrest hf
    cases e with
    | picked l qty serials => exact htake l qty hb
    | transferred l qty fromBin toBin serials => exact htake l qty hb
    | received l qty expiry serials =>
      have hf : findLot (addToLot (replayLots events) l qty expiry serials) lot = some b := hb
      rw [findLot_addToLot] at hf
      split at hf
      · next hl =>
        subst hl
        have hx : (if lot = lot then expiry else none) = none := he
        rw [if_pos rfl] at hx
        subst hx
        obtain rfl := Option.some.inj hf
        cases hold : findLot (replayLots events) lot with
        | none => rfl
        | some b' =>
          show b'.expiry = none
          exact hrest hold
      · exact hrest hf

/-! ## Live lots and replayed lots -/

/-- The live lots of a key follow its events: the replay has them, and of other lots it has no units;
the serials of its lots are those that came and did not leave. -/
structure Follows (live : List LotDetail) (events : List LotEvent) : Prop where
  distinct : Distinct live
  replayed : Distinct (replayLots events)
  kept : ∀ lot a, findLot live lot = some a → findLot (replayLots events) lot = some a
  gone : ∀ lot b, findLot live lot = none → findLot (replayLots events) lot = some b → b.onHand = 0
  serials : ∀ lot, (((findLot (replayLots events) lot).map (·.serials.length)).getD 0) +
    (events.map (·.took lot)).sum = (events.map (·.brought lot)).sum

theorem follows_nil : Follows [] [] := by
  refine ⟨List.nodup_nil, List.nodup_nil, ?_, ?_, fun _ => rfl⟩
  · intro lot a h
    cases h
  · intro lot b _ h
    cases h

theorem sameStock_of_follows {live : List LotDetail} {events : List LotEvent} (h : Follows live events) :
    SameStock live (replayLots events) := by
  constructor
  · intro a ha _
    have hr := h.kept _ a ((mem_iff_findLot h.distinct a).mp ha)
    exact ⟨a, (mem_iff_findLot h.replayed a).mpr hr, sameLot_refl a⟩
  · intro b hb hpos
    have hr := (mem_iff_findLot h.replayed b).mp hb
    cases hl : findLot live b.lot with
    | none =>
      have h0 := h.gone _ b hl hr
      omega
    | some a =>
      obtain rfl : a = b := Option.some.inj ((h.kept _ a hl).symm.trans hr)
      exact ⟨a, List.mem_of_find?_eq_some hl, sameLot_refl a⟩

/-- Units taken from a live lot are taken from the replayed one, with the same serials. -/
theorem follows_taken {live : List LotDetail} {events : List LotEvent} (h : Follows live events) {lot : LotNumber}
    {ld : LotDetail} {qty : Nat} (found : findLot live lot = some ld) (e : LotEvent)
    (happly : ∀ lots, e.applyTo lots = updateLot lot (fun ld => ld.take qty) lots)
    (hbrought : ∀ l, e.brought l = 0)
    (htook : ∀ l, e.took l = if l = lot then (ld.takenSerials qty).length else 0) :
    Follows (updateLot lot (fun ld => ld.take qty) live) (events ++ [e]) := by
  have htake : ∀ ld : LotDetail, (ld.take qty).lot = ld.lot := fun ld => take_lot ld qty
  constructor
  · exact distinct_updateLot htake h.distinct lot
  · rw [replayLots_concat, happly]
    exact distinct_updateLot htake h.replayed lot
  · intro l a hl
    rw [replayLots_concat, happly, findLot_updateLot htake]
    rw [findLot_updateLot htake] at hl
    split at hl
    · next hll =>
      obtain ⟨a', ha', rfl⟩ := Option.map_eq_some_iff.mp hl
      rw [if_pos hll, h.kept l a' ha']
      rfl
    · next hll =>
      rw [if_neg hll]
      exact h.kept l a hl
  · intro l b hl hb
    rw [findLot_updateLot htake] at hl
    rw [replayLots_concat, happly, findLot_updateLot htake] at hb
    split at hb
    · next hll =>
      rw [hll, if_pos rfl, found] at hl
      cases hl
    · next hll =>
      rw [if_neg hll] at hl
      exact h.gone l b hl hb
  · intro l
    have hs := h.serials l
    rw [replayLots_concat, happly, findLot_updateLot htake, List.map_append, List.sum_append, List.map_append,
      List.sum_append, List.map_singleton, List.sum_singleton, List.map_singleton, List.sum_singleton, hbrought, htook]
    split
    · next hll =>
      -- what leaves the lot is what the event counts
      have hk := h.kept lot ld found
      rw [hll] at hs ⊢
      rw [hk] at hs ⊢
      have hlen : (ld.take qty).serials.length + (ld.takenSerials qty).length = ld.serials.length := by
        simp only [LotDetail.take, LotDetail.takenSerials, List.length_drop, List.length_take]
        omega
      simp only [Option.map_some, Option.getD_some] at hs ⊢
      omega
    · next hll => exact hs

/-- A receipt that may start its lot anew goes into the same lot in the replay. -/
theorem follows_received {live : List LotDetail} {events : List LotEvent} (h : Follows live events)
    {lot : LotNumber} {qty : Nat} {expiry : Option Int} {serials : List SerialNumber} (hq : qty < 2 ^ 32)
    (hr : Renewable live events lot expiry) :
    Follows (addToLot live lot qty expiry serials) (events ++ [.received lot qty expiry serials]) := by
  have happly : replayLots (events ++ [.received lot qty expiry serials]) =
      addToLot (replayLots events) lot qty expiry serials := replayLots_concat _ _
  constructor
  · exact distinct_addToLot h.distinct _ _ _ _
  · rw [happly]
    exact distinct_addToLot h.replayed _ _ _ _
  · intro l a hl
    rw [happly, findLot_addToLot]
    rw [findLot_addToLot] at hl
    split at hl
    · next hll =>
      rw [if_pos hll, ← hl]
      cases hlive : findLot live lot with
      | some a' => rw [h.kept lot a' hlive]
      | none =>
        cases hold : findLot (replayLots events) lot with
        | none => rfl
        | some b =>
          -- the replay still has the lot: it is empty, and has no expiry that the receipt does not name
          obtain ⟨hx, hsum⟩ := hr hlive
          have h0 := h.gone lot b hlive hold
          have hcount := h.serials lot
          rw [hold, Option.map_some, Option.getD_some] at hcount
          have hnil : b.serials = [] := List.length_eq_zero_iff.mp (by omega)
          have hlot := lot_of_find hold
          have hexp : (if expiry.isSome then expiry else b.expiry) = expiry := by
            rcases hx with hx | hx
            · rw [if_pos hx]
            · split
              · rfl
              · next hn => rw [expiry_replayLots hx hold, Option.not_isSome_iff_eq_none.mp hn]
          simp only [Option.map_some, Option.getD_some, Option.map_none, Option.getD_none, LotDetail.receive, h0, hnil,
            hlot, hexp, Nat.zero_add, List.nil_append, Nat.mod_eq_of_lt hq]
    · next hll =>
      rw [if_neg hll]
      exact h.kept l a hl
  · intro l b hl hb
    rw [findLot_addToLot] at hl
    rw [happly, findLot_addToLot] at hb
    split at hl
    · cases hl
    · next hll =>
      rw [if_neg hll] at hb
      exact h.gone l b hl hb
  · intro l
    have hs := h.serials l
    have htook : (LotEvent.received lot qty expiry serials).took l = 0 := rfl
    have hbrought : (LotEvent.received lot qty expiry serials).brought l = if lot = l then serials.length else 0 := rfl
    rw [happly, findLot_addToLot, List.map_append, List.sum_append, List.map_append, List.sum_append,
      List.map_singleton, List.sum_singleton, List.map_singleton, List.sum_singleton, htook, hbrought]
    by_cases hll : l = lot
    · subst hll
      rw [if_pos rfl, if_pos rfl]
      cases hold : findLot (replayLots events) l with
      | none =>
        rw [hold] at hs
        simp only [Option.map_none, Option.getD_none, Option.map_some, Option.getD_some] at hs ⊢
        omega
      | some b =>
        rw [hold] at hs
        simp only [Option.map_some, Option.getD_some, LotDetail.receive, List.length_append] at hs ⊢
        omega
    · rw [if_neg hll, if_neg (Ne.symm hll)]
      omega

/-- Lots that have no units may be dropped. -/
theorem follows_dropEmpty {live : List LotDetail} {events : List LotEvent} (h : Follows live events) :
    Follows (live.filter fun l => 0 < l.onHand) events := by
  refine ⟨distinct_filter h.distinct _, h.replayed, ?_, ?_, h.serials⟩
  · intro lot a hl
    rw [findLot_filter h.distinct, Option.filter_eq_some_iff] at hl
    exact h.kept lot a hl.1
  · intro lot b hl hb
    rw [findLot_filter h.distinct] at hl
    cases hlive : findLot live lot with
    | none => exact h.gone lot b hlive hb
    | some a =>
      obtain rfl : a = b := Option.some.inj ((h.kept lot a hlive).symm.trans hb)
      rw [hlive] at hl
      simp at hl
      exact hl

/-- The lot event of a consumption. -/
def LotConsumption.event (c : LotConsumption) : LotEvent := .picked c.lot c.qty c.serials

theorem follows_takesLots {live live' : List LotDetail} {cs : List LotConsumption} {events : List LotEvent}
    (h : Follows live events) (ht : TakesLots live cs live') : Follows live' (events ++ cs.map (·.event)) := by
  induction ht generalizing events with
  | nil lots =>
    rw [List.map_nil, List.append_nil]
    exact h
  | @cons lots lots' c cs ld found enough serials rest ih =>
    have hstep := follows_taken h found c.event (fun _ => rfl) (fun _ => rfl) fun l => by
      simp only [LotConsumption.event, LotEvent.took, serials]
      by_cases hl : l = c.lot
      · rw [if_pos hl, if_pos hl.symm]
      · rw [if_neg hl, if_neg (Ne.symm hl)]
    have hrest := ih hstep
    rw [List.append_assoc] at hrest
    exact hrest

namespace InventoryEngine

variable {SHARDS : Nat}

def rebuildLotReadModels (eng : InventoryEngine SHARDS) : Option (AssocMap StockKey (List LotDetail)) :=
  (readEvents "lot" InventoryEvent.lot? eng.allEvents).map fun events => (events.foldl LotProjection.apply {}).lots

/-- **Lot replay equals live lots**: the replay succeeds, and gives each key's lots that have units. -/
def LotsReplayed (eng : InventoryEngine SHARDS) : Prop :=
  ∃ proj, eng.rebuildLotReadModels = some proj ∧ ∀ key, SameStock (eng.lots key) (AssocMap.getD proj key [])

theorem lots_foldl_apply (events : List (StockKey × LotEvent)) (proj : LotProjection) (key : StockKey) :
    AssocMap.getD (events.foldl LotProjection.apply proj).lots key [] =
      (events.filter fun e => e.1 = key).foldl (fun lots e => e.2.applyTo lots) (AssocMap.getD proj.lots key []) := by
  have hm : (events.foldl LotProjection.apply proj).lots =
      events.foldl (fun m e => m.insert e.1 (e.2.applyTo (AssocMap.getD m e.1 []))) proj.lots := by
    induction events generalizing proj with
    | nil => rfl
    | cons e events ih => exact ih _
  rw [hm]
  exact AssocMap.getD_foldl_insert (fun e : StockKey × LotEvent => e.1) (fun lots e => e.2.applyTo lots) []
    events proj.lots key

/-- The replay gives each key the lots of its events. -/
theorem rebuildLotReadModels_eq {eng : InventoryEngine SHARDS} (h : LogKept eng) :
    ∃ proj, eng.rebuildLotReadModels = some proj ∧ ∀ key, AssocMap.getD proj key [] = replayLots (eng.lotEvents key) := by
  unfold rebuildLotReadModels
  rw [readEvents_eq isSome_lot? (typed_allEvents h)]
  refine ⟨_, rfl, ?_⟩
  intro key
  dsimp only
  rw [lots_foldl_apply, filter_filterMap_read, List.foldl_map]
  rfl

/-! ## Runs -/

/-- What a section receives into a lot: a receipt, or units that arrive from another bin. -/
def receiptOf : Instr → Option (StockKey × LotNumber × U32 × Option Int)
  | .receive key lot qty expiry _ => some (key, lot, qty, expiry)
  | .transferIn _ _ toBin line expiry _ _ => some (⟨toBin, line.sku⟩, line.lot, line.qty, expiry)
  | _ => none

/-- What a section receives may start its lot anew, if it goes through. -/
def Renews (eng : InventoryEngine SHARDS) (i : Instr) : Prop :=
  ∀ r ∈ receiptOf i, eng.Floor wrapI64 r.1 r.2.2.1.1 →
    Renewable (eng.lots r.1) (eng.lotEvents r.1) r.2.1 r.2.2.2

instance (eng : InventoryEngine SHARDS) (i : Instr) : Decidable (Renews eng i) :=
  inferInstanceAs (Decidable (∀ r ∈ receiptOf i, _ → _))

/-- The lots of every key follow its events. -/
structure ReplayKept (eng : InventoryEngine SHARDS) : Prop where
  lots : LotsKept eng
  follows : ∀ key, Follows (eng.lots key) (eng.lotEvents key)

theorem lotEvents_new (shardIndex : StockKey → Fin SHARDS) (key : StockKey) :
    (new shardIndex).lotEvents key = [] := by
  unfold lotEvents
  rw [stream_eq_loggedEvents (logKept_new shardIndex)]
  rfl

theorem replayKept_new (shardIndex : StockKey → Fin SHARDS) : ReplayKept (new shardIndex) := by
  refine ⟨lotsKept_new shardIndex, ?_⟩
  intro key
  rw [lotEvents_new]
  exact follows_nil

theorem lotsReplayed_of_replayKept {eng : InventoryEngine SHARDS} (h : ReplayKept eng) : LotsReplayed eng := by
  obtain ⟨proj, hp, hl⟩ := rebuildLotReadModels_eq h.lots.log
  refine ⟨proj, hp, ?_⟩
  intro key
  rw [hl]
  exact sameStock_of_follows (h.follows key)

theorem lotEvents_picked {w : Int → Int} {key : StockKey} {cs : List LotConsumption}
    {eng eng' : InventoryEngine SHARDS} (hp : Picked w key cs eng eng') (h : LogKept eng) (k : StockKey) :
    eng'.lotEvents k = if k = key then eng.lotEvents k ++ cs.map (·.event) else eng.lotEvents k := by
  induction hp with
  | nil eng => simp
  | @cons eng eng' c cs floor rest ih =>
    have hm : LogKept (eng.moveBy w key (.picked c.qty) (-(c.qty : Int))) := eng.logKept_move key _ _ h
    have he : (eng.moveBy w key (.picked c.qty) (-(c.qty : Int))).lotEvents k = eng.lotEvents k :=
      eng.lotEvents_move key _ _ h k
    rw [ih (logKept_logLot _ _ _ hm), lotEvents_logLot _ _ _ hm, he]
    split
    · rw [List.append_assoc]
      rfl
    · rfl

section
variable {eng eng' : InventoryEngine SHARDS}

/-- Only the one key has changed. -/
theorem follows_of_key (h : ReplayKept eng) (key : StockKey) (hlots : ∀ k, k ≠ key → eng'.lots k = eng.lots k)
    (hevents : ∀ k, k ≠ key → eng'.lotEvents k = eng.lotEvents k)
    (hkey : Follows (eng'.lots key) (eng'.lotEvents key)) (k : StockKey) :
    Follows (eng'.lots k) (eng'.lotEvents k) := by
  by_cases hk : k = key
  · rw [hk]
    exact hkey
  · rw [hlots k hk, hevents k hk]
    exact h.follows k

theorem follows_receipt (h : ReplayKept eng) {key : StockKey} {lot : LotNumber} {qty : U32} {expiry : Option Int}
    {serials : List SerialNumber} (hr : Renewable (eng.lots key) (eng.lotEvents key) lot expiry) (k : StockKey) :
    Follows
      ((((eng.moveBy wrapI64 key (.received qty.1) qty.1).setLots key
        (addToLot (eng.lots key) lot qty.1 expiry serials)).logLot key (.received lot qty.1 expiry serials)).lots k)
      ((((eng.moveBy wrapI64 key (.received qty.1) qty.1).setLots key
        (addToLot (eng.lots key) lot qty.1 expiry serials)).logLot key
          (.received lot qty.1 expiry serials)).lotEvents k) := by
  have hm : LogKept (eng.moveBy wrapI64 key (.received qty.1) qty.1) := eng.logKept_move key _ _ h.lots.log
  have hl := logKept_setLots _ key (addToLot (eng.lots key) lot qty.1 expiry serials) hm
  have he : ∀ k, (eng.moveBy wrapI64 key (.received qty.1) qty.1).lotEvents k = eng.lotEvents k :=
    eng.lotEvents_move key _ _ h.lots.log
  apply follows_of_key h key
  · intro k hk
    rw [lots_logLot, lots_setLots, if_neg hk, lots_moveBy]
  · intro k hk
    rw [lotEvents_logLot _ _ _ hl, if_neg hk, lotEvents_setLots, he]
  · rw [lots_logLot, lots_setLots, if_pos rfl, lotEvents_logLot _ _ _ hl, if_pos rfl, lotEvents_setLots, he]
    exact follows_received (h.follows key) qty.2 hr

theorem follows_pick (h : ReplayKept eng) {key : StockKey} {qty : U32} {asOf : Int}
    (picked : Picked wrapI64 key (eng.pickTakes key qty.1 asOf).2
      (eng.setLots key (eng.pickTakes key qty.1 asOf).1) eng') (k : StockKey) :
    Follows ((eng'.setLots key ((eng'.lots key).filter fun l => 0 < l.onHand)).lots k)
      ((eng'.setLots key ((eng'.lots key).filter fun l => 0 < l.onHand)).lotEvents k) := by
  have hl := eng.logKept_setLots key (eng.pickTakes key qty.1 asOf).1 h.lots.log
  have hf := h.follows key
  have htakes : TakesLots (eng.lots key) (eng.pickTakes key qty.1 asOf).2 (eng.pickTakes key qty.1 asOf).1 :=
    takesLots_takePlan hf.distinct (planFits_planLoop _ _ _)
  apply follows_of_key h key
  · intro k hk
    rw [lots_setLots, if_neg hk, picked_lots picked, lots_setLots, if_neg hk]
  · intro k hk
    rw [lotEvents_setLots, lotEvents_picked picked hl, if_neg hk, lotEvents_setLots]
  · rw [lots_setLots, if_pos rfl, picked_lots picked, lots_setLots, if_pos rfl, lotEvents_setLots,
      lotEvents_picked picked hl, if_pos rfl, lotEvents_setLots]
    exact follows_dropEmpty (follows_takesLots hf htakes)

/-- One section. -/
theorem replayKept_does (h : ReplayKept eng) {i : Instr} {more : List Instr} (hi : i.lotAware = true)
    (hok : Renews eng i) (hd : Does wrapI64 eng i eng' more) : ReplayKept eng' := by
  refine ⟨lotsKept_does h.lots hi hd, ?_⟩
  have hlog := h.lots.log
  cases hd with
  | stop => exact h.follows
  | goOn => exact h.follows
  | pallet => exact h.follows
  | blind plain blind =>
    rw [eng.blindMove_of_lotAware wrapI64 hi] at blind
    cases blind
  | receiptRefused => exact h.follows
  | received floor => exact follows_receipt h (hok _ rfl floor)
  | pickRefused => exact h.follows
  | picked enough picked => exact follows_pick h picked
  | pickGivenUp first c rest enough split picked floor =>
    exact absurd (not_givenUp quantityArith_wrapI64 h.lots.stocked h.lots.covered enough split picked) floor
  | lotPickRefused => exact h.follows
  | @lotPicked key lot qty asOf ld floor pickable =>
    have hm : LogKept (eng.moveBy wrapI64 key (.picked qty.1) (-(qty.1 : Int))) := eng.logKept_move key _ _ hlog
    have he : ∀ k, (eng.moveBy wrapI64 key (.picked qty.1) (-(qty.1 : Int))).lotEvents k = eng.lotEvents k :=
      eng.lotEvents_move key _ _ hlog
    apply follows_of_key h key
    · intro k hk
      rw [lots_setLots, if_neg hk, lots_logLot, lots_moveBy]
    · intro k hk
      rw [lotEvents_setLots, lotEvents_logLot _ _ _ hm, if_neg hk, he]
    · rw [lots_setLots, if_pos rfl, lotEvents_setLots, lotEvents_logLot _ _ _ hm, if_pos rfl, he]
      apply follows_taken (h.follows key) pickable.1
      · intro lots
        rfl
      · intro l
        rfl
      · intro l
        simp only [LotEvent.took, eq_comm]
  | departureRefused ld found enough floor => exact absurd (floor_of_found h.lots found enough) floor
  | @departed lpn location toBin line todo ld found enough floor =>
    have hl := eng.logKept_setLots ⟨location, line.sku⟩
      (updateLot line.lot (fun ld => ld.take line.qty.1) (eng.lots ⟨location, line.sku⟩)) hlog
    have hm := logKept_move _ ⟨location, line.sku⟩ (.picked line.qty.1)
      (wrapI64 ((eng.setLots ⟨location, line.sku⟩ (updateLot line.lot (fun ld => ld.take line.qty.1)
        (eng.lots ⟨location, line.sku⟩))).onHand ⟨location, line.sku⟩ + -(line.qty.1 : Int))) hl
    apply follows_of_key h ⟨location, line.sku⟩
    · intro k hk
      rw [lots_logLot, lots_moveBy, lots_setLots, if_neg hk]
    · intro k hk
      rw [moveBy, lotEvents_logLot _ _ _ hm, if_neg hk, lotEvents_move _ _ _ _ hl, lotEvents_setLots]
    · rw [lots_logLot, lots_moveBy, lots_setLots, if_pos rfl, moveBy, lotEvents_logLot _ _ _ hm, if_pos rfl,
        lotEvents_move _ _ _ _ hl, lotEvents_setLots]
      apply follows_taken (h.follows _) found
      · intro lots
        rfl
      · intro l
        rfl
      · intro l
        simp only [LotEvent.took, eq_comm]
  | arrivalRefused => exact h.follows
  | arrived floor => exact follows_receipt h (hok _ rfl floor)
  | putSerials => exact h.follows
  | removeSerials => exact h.follows
  | registerMoved => exact h.follows

end

/-- **The replay of the log gives the live lots** throughout a run of interleaved calls in which no
receipt starts a lot anew that had an expiry it does not name, or has serials left. -/
theorem lots_replayed (shardIndex : StockKey → Fin SHARDS) (labels : List (Machine.Label Unit LotOp Unit))
    (h : (lotCalls wrapI64 SHARDS).RunDoes (fun eng i _ => Renews eng i) { core := new shardIndex } labels) :
    LabelledRun.AllStates (lotCalls wrapI64 SHARDS).step (fun s => LotsReplayed s.core)
      { core := new shardIndex } labels := by
  have hall := (lotCalls wrapI64 SHARDS).allStates_good ReplayKept (fun _ i => i.lotAware = true) ?_ ?_ ?_
    (Machine.good_init (replayKept_new shardIndex)) h
  · exact hall.mono _ fun s hs => lotsReplayed_of_replayKept hs.core
  · intro eng op _
    exact lotAware_prog op
  · intro eng e hk
    exact ⟨hk, List.forall_mem_nil _, fun _ hi => hi⟩
  · intro eng i choice core more hk hi hok hx
    have hd := eng.does_exec wrapI64 i
    rw [Option.some.inj hx] at hd
    exact ⟨replayKept_does hk hi hok hd, lotAware_does hi hd, fun _ hj => hj⟩

/-- Five units of a lot that are picked, with `again` the expiry of the next receipt into the lot. -/
def pickedAndReceived (again : Option Int) : List LotOp :=
  [⟨.receiveLot ⟨⟨0⟩, ⟨0⟩⟩ ⟨"LOT-1"⟩ (u32 5) (some 1) [], rfl⟩, ⟨.pick ⟨⟨0⟩, ⟨0⟩⟩ (u32 5) 0, rfl⟩,
    ⟨.receiveLot ⟨⟨0⟩, ⟨0⟩⟩ ⟨"LOT-1"⟩ (u32 5) again [], rfl⟩]

/-- The second receipt names an expiry, and the replay gives the live lots. -/
theorem second_receipt_with_expiry :
    LabelledRun.AllStates (lotCalls wrapI64 1).step (fun s => LotsReplayed s.core) { core := new fun _ => 0 }
      ((pickedAndReceived (some 2)).map .spawn ++ [.run 0 (), .run 0 (), .run 1 (), .run 2 (), .run 2 ()]) :=
  lots_replayed _ _ (by decide +kernel)

/-- The second receipt names none: the engine has a lot without expiry, the replay one with the old expiry. -/
theorem second_receipt_without_expiry :
    ¬ ∀ ops : List LotOp, LotsReplayed ((new fun _ => (0 : Fin 1)).runOps (ops.map (·.1))) := by
  intro h
  obtain ⟨proj, hp, hs⟩ := h (pickedAndReceived none)
  have hr : (((new fun _ => (0 : Fin 1)).runOps ((pickedAndReceived none).map (·.1))).rebuildLotReadModels.map
      fun proj => AssocMap.getD proj ⟨⟨0⟩, ⟨0⟩⟩ []) = some [⟨⟨"LOT-1"⟩, some 1, 5, []⟩] := by decide +kernel
  have hl : ((new fun _ => (0 : Fin 1)).runOps ((pickedAndReceived none).map (·.1))).lots ⟨⟨0⟩, ⟨0⟩⟩ =
      [⟨⟨"LOT-1"⟩, none, 5, []⟩] := by decide +kernel
  have hkey := hs ⟨⟨0⟩, ⟨0⟩⟩
  rw [hp] at hr
  have hold : AssocMap.getD proj ⟨⟨0⟩, ⟨0⟩⟩ [] = [⟨⟨"LOT-1"⟩, some 1, 5, []⟩] := Option.some.inj hr
  rw [hl, hold] at hkey
  obtain ⟨b, hb, hsame⟩ := hkey.of_live _ List.mem_cons_self (by decide)
  rw [List.mem_singleton.mp hb] at hsame
  cases hsame.expiry

end InventoryEngine

end TptErp.Wms
