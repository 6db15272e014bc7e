import TptErp.Oms.Calls

/-!
# Replaying the reservation log

`rebuild_read_models` folds the events of all shards into a read model.  It follows the live state
through every event but one: `backorder_filled` names the new hold, and the fold looks a backorder
up under that name, finds none and does nothing.  `replay_matches_iff` says that the read model
equals the live state exactly as long as no backorder has been filled.
-/

namespace TptErp.Oms

variable {SHARDS : Nat}

/-- `ReservationProjection::apply` on the event's SKU. -/
def SkuState.apply (st : SkuState) : ReserveEvent → SkuState
  | .received qty => { st with onHand := wrapI64 (st.onHand + qty) }
  | .hold reservation qty => { st with holds := st.holds.insert reservation qty }
  | .capture reservation =>
    match st.holds.lookup reservation with
    | some qty => { st with holds := st.holds.erase reservation, committed := st.committed + qty }
    | none => st
  | .release reservation => { st with holds := st.holds.erase reservation }
  | .backorderPlaced reservation qty => { st with backorders := st.backorders.insert reservation qty }
  | .backorderFilled reservation _ =>
    match st.backorders.lookup reservation with
    | some qty =>
      { st with backorders := st.backorders.erase reservation, holds := st.holds.insert reservation qty }
    | none => st
  | .ret qty => { st with onHand := wrapI64 (st.onHand + qty) }

/-- `ReservationProjection::apply`. -/
def applyEvent (states : AssocMap SkuId SkuState) (event : SkuId × ReserveEvent) : AssocMap SkuId SkuState :=
  states.insert event.1 ((AssocMap.getD states event.1 {}).apply event.2)

namespace ReservationEngine

variable (eng : ReservationEngine SHARDS)

/-- The events of one shard. -/
def shardEvents (i : Fin SHARDS) : List (SkuId × ReserveEvent) :=
  (eng.shards i).store.log.map fun e => (e.aggregateId, e.payload)

/-- The events of all shards, one shard after the other. -/
def allEvents : List (SkuId × ReserveEvent) := (List.finRange SHARDS).flatMap eng.shardEvents

def rebuildReadModels : AssocMap SkuId SkuState := eng.allEvents.foldl applyEvent ∅

/-- The replayed state of one SKU. -/
def replayed (sku : SkuId) : SkuState := AssocMap.getD eng.rebuildReadModels sku {}

/-- The events of one SKU, in the order of the concatenated logs. -/
def eventsOf (sku : SkuId) : List ReserveEvent :=
  (eng.allEvents.filter fun e => e.1 = sku).map (·.2)

end ReservationEngine

/-- Same stock, same committed quantity, same holds and same backorders. -/
structure ReadsAs (live replayed : SkuState) : Prop where
  onHand : replayed.onHand = live.onHand
  committed : replayed.committed = live.committed
  holds : ∀ hold, replayed.holds.lookup hold = live.holds.lookup hold
  backorders : ∀ bo, replayed.backorders.lookup bo = live.backorders.lookup bo

/-- The replay equals the live state for every SKU. -/
def ReplayMatches (c : Core SHARDS) : Prop := ∀ sku, ReadsAs (c.stateOf sku) (c.engine.replayed sku)

/-- The instruction does not turn a backorder into a hold. -/
def NoFill (_ : Core SHARDS) : Instr SHARDS → Choice → Prop
  | .fill .., _ => False
  | _, _ => True

/-! ## The fold, SKU by SKU -/

theorem foldl_applyEvent (events : List (SkuId × ReserveEvent)) (states : AssocMap SkuId SkuState)
    (sku : SkuId) :
    AssocMap.getD (events.foldl applyEvent states) sku {} =
      ((events.filter fun e => e.1 = sku).map (·.2)).foldl SkuState.apply (AssocMap.getD states sku {}) := by
  induction events generalizing states with
  | nil => rfl
  | cons e events ih =>
    rw [List.foldl_cons, ih, applyEvent, AssocMap.getD_insert_eq]
    by_cases h : e.1 = sku
    · rw [if_pos h.symm, List.filter_cons_of_pos (by simpa using h), List.map_cons, List.foldl_cons, h]
    · rw [if_neg (Ne.symm h), List.filter_cons_of_neg (by simpa using h)]

theorem replayed_eq (eng : ReservationEngine SHARDS) (sku : SkuId) :
    eng.replayed sku = (eng.eventsOf sku).foldl SkuState.apply {} :=
  foldl_applyEvent eng.allEvents ∅ sku

/-- Every event is in the log of its own SKU's shard. -/
def EventsAtHome (eng : ReservationEngine SHARDS) : Prop :=
  ∀ i, ∀ e ∈ eng.shardEvents i, eng.shardIndex e.1 = i

/-- When only one index of a list without repeats contributes, a `flatMap` is its contribution. -/
theorem flatMap_eq_of_single {A B : Type} {l : List A} {f : A → List B} {a : A} (hl : l.Nodup) (ha : a ∈ l)
    (h : ∀ b ∈ l, b ≠ a → f b = []) : l.flatMap f = f a := by
  induction l with
  | nil => cases ha
  | cons x l ih =>
    obtain ⟨hx, hl⟩ := List.nodup_cons.mp hl
    rw [List.flatMap_cons]
    rcases List.mem_cons.mp ha with rfl | ha'
    · have hrest : l.flatMap f = [] :=
        List.flatMap_eq_nil_iff.mpr fun b hb => h b (List.mem_cons_of_mem _ hb) fun hba => hx (hba ▸ hb)
      rw [hrest, List.append_nil]
    · have hne : x ≠ a := fun hxa => hx (hxa ▸ ha')
      rw [h x List.mem_cons_self hne, List.nil_append]
      exact ih hl ha' fun b hb => h b (List.mem_cons_of_mem _ hb)

/-- A SKU's events all come from its own shard. -/
theorem eventsOf_eq {eng : ReservationEngine SHARDS} (h : EventsAtHome eng) (sku : SkuId) :
    eng.eventsOf sku =
      ((eng.shardEvents (eng.shardIndex sku)).filter fun e => e.1 = sku).map (·.2) := by
  rw [ReservationEngine.eventsOf, ReservationEngine.allEvents, List.filter_flatMap]
  rw [flatMap_eq_of_single (List.nodup_finRange SHARDS) (List.mem_finRange (eng.shardIndex sku))]
  intro i _ hi
  rw [List.filter_eq_nil_iff]
  intro e he
  have := h i e he
  simp only [decide_eq_true_eq]
  rintro rfl
  exact hi this.symm

theorem shardEvents_record (eng : ReservationEngine SHARDS) (sku : SkuId) (eventType : String)
    (ev : ReserveEvent) (st : SkuState) (i : Fin SHARDS) :
    (eng.record sku eventType ev st).shardEvents i =
      eng.shardEvents i ++ if i = eng.shardIndex sku then [(sku, ev)] else [] :=
  eng.log_record sku eventType ev st i

theorem eventsAtHome_record {eng : ReservationEngine SHARDS} (h : EventsAtHome eng) (sku : SkuId)
    (eventType : String) (ev : ReserveEvent) (st : SkuState) :
    EventsAtHome (eng.record sku eventType ev st) := by
  intro i e he
  rw [shardEvents_record] at he
  rcases List.mem_append.mp he with he | he
  · exact h i e he
  · split at he
    · next hi =>
      rw [List.mem_singleton.mp he]
      exact hi.symm
    · cases he

/-- A new event is the last one of its SKU. -/
theorem eventsOf_record {eng : ReservationEngine SHARDS} (h : EventsAtHome eng) (sku : SkuId)
    (eventType : String) (ev : ReserveEvent) (st : SkuState) (k : SkuId) :
    (eng.record sku eventType ev st).eventsOf k = eng.eventsOf k ++ if k = sku then [ev] else [] := by
  have hidx : (eng.record sku eventType ev st).shardIndex = eng.shardIndex := rfl
  rw [eventsOf_eq (eventsAtHome_record h sku eventType ev st), eventsOf_eq h, hidx, shardEvents_record,
    List.filter_append, List.map_append]
  congr 1
  by_cases hk : k = sku
  · subst hk
    simp
  · rw [if_neg hk]
    split
    · simp [Ne.symm hk]
    · rfl

theorem shardEvents_same {eng eng' : ReservationEngine SHARDS} (h : Same eng eng') (i : Fin SHARDS) :
    eng'.shardEvents i = eng.shardEvents i := by
  rw [ReservationEngine.shardEvents, h.store i]
  rfl

theorem replayed_same {eng eng' : ReservationEngine SHARDS} (h : Same eng eng') (sku : SkuId) :
    eng'.replayed sku = eng.replayed sku := by
  have hall : eng'.allEvents = eng.allEvents := by
    show (List.finRange SHARDS).flatMap _ = (List.finRange SHARDS).flatMap _
    rw [funext (shardEvents_same h)]
  show AssocMap.getD (eng'.allEvents.foldl applyEvent ∅) sku {} = _
  rw [hall]
  rfl

/-! ## One change -/

/-- The fold follows the live state through every change but a fill. -/
theorem Change.readsAs {c : Core SHARDS} {i : Instr SHARDS} {sku : SkuId} {ev : ReserveEvent}
    {st rep : SkuState} (hc : Change c i sku ev st) (h : ReadsAs (c.stateOf sku) rep) (k : Choice)
    (hk : NoFill c i k) : ReadsAs st (rep.apply ev) := by
  have hdrop : ∀ hold x, (rep.holds.erase hold).lookup x = ((c.stateOf sku).holds.erase hold).lookup x := by
    intro hold x
    rw [AssocMap.lookup_erase_eq, AssocMap.lookup_erase_eq, h.holds]
  have hins : ∀ hold (q : Nat) x,
      (rep.holds.insert hold q).lookup x = ((c.stateOf sku).holds.insert hold q).lookup x := by
    intro hold q x
    rw [AssocMap.lookup_insert_eq, AssocMap.lookup_insert_eq, h.holds]
  cases hc with
  | receive _ qty =>
    refine ⟨?_, h.committed, h.holds, h.backorders⟩
    show wrapI64 (rep.onHand + qty) = wrapI64 ((c.stateOf sku).onHand + qty)
    rw [h.onHand]
  | returnStock _ qty =>
    refine ⟨?_, h.committed, h.holds, h.backorders⟩
    show wrapI64 (rep.onHand + qty) = wrapI64 ((c.stateOf sku).onHand + qty)
    rw [h.onHand]
  | reserve _ qty expires => exact ⟨h.onHand, h.committed, hins _ _, h.backorders⟩
  | hold _ qty short expires => exact ⟨h.onHand, h.committed, hins _ _, h.backorders⟩
  | backorder _ qty =>
    refine ⟨h.onHand, h.committed, h.holds, fun x => ?_⟩
    show (rep.backorders.insert c.newId qty).lookup x = ((c.stateOf sku).backorders.insert c.newId qty).lookup x
    rw [AssocMap.lookup_insert_eq, AssocMap.lookup_insert_eq, h.backorders]
  | fill => cases hk
  | confirm _ hold qty hheld =>
    have hrep : rep.holds.lookup hold = some qty := by rw [h.holds, hheld]
    simp only [SkuState.apply, hrep]
    refine ⟨h.onHand, ?_, hdrop hold, h.backorders⟩
    show rep.committed + qty = (c.stateOf sku).committed + qty
    rw [h.committed]
  | release _ hold => exact ⟨h.onHand, h.committed, hdrop hold, h.backorders⟩
  | sweepRelease _ hold => exact ⟨h.onHand, h.committed, hdrop hold, h.backorders⟩

/-- After a fill the live state has the new hold and the fold has not. -/
theorem not_readsAs_fill {c : Core SHARDS} (hf : IdsFresh c) {sku : SkuId} {rep : SkuState}
    (h : ReadsAs (c.stateOf sku) rep) (bo : HoldId) (qty : Nat) (expires : Int) :
    ¬ ReadsAs ((c.stateOf sku).fill bo c.newId qty expires) (rep.apply (.backorderFilled c.newId qty)) := by
  intro hr
  have hl := lacks_newId hf sku
  have hnone : rep.backorders.lookup c.newId = none := by rw [h.backorders, hl.backorders]
  have hold := hr.holds c.newId
  simp only [SkuState.apply, hnone] at hold
  rw [h.holds, hl.holds] at hold
  have hsome : (((c.stateOf sku).fill bo c.newId qty expires).holds).lookup c.newId = some qty :=
    AList.lookup_insert _
  rw [hsome] at hold
  cases hold

theorem noFill_of_noChange {c : Core SHARDS} {i : Instr SHARDS}
    (h : ∀ sku ev st, ¬ Change c i sku ev st) (k : Choice) : NoFill c i k := by
  cases i with
  | fill sku bo qty expires => exact absurd (.fill sku bo qty expires) (h _ _ _)
  | _ => trivial

/-! ## Whole runs -/

/-- New ids are new and every event is in its SKU's log. -/
structure ReplayInv (c : Core SHARDS) : Prop where
  fresh : IdsFresh c
  home : EventsAtHome c.engine

theorem replayInv_instr {c c' : Core SHARDS} {i : Instr SHARDS} {k : Choice} {more : List (Instr SHARDS)}
    (h : ReplayInv c) (hi : instr c i k = some (c', more)) : ReplayInv c' := by
  refine ⟨idsFresh_instr h.fresh hi, ?_⟩
  rcases instr_change hi with ⟨hs, -, -⟩ | ⟨sku', kind, ev, st, hc, he, -⟩
  · intro i e hmem
    rw [shardEvents_same hs] at hmem
    rw [hs.shardIndex]
    exact h.home i e hmem
  · rw [he]
    exact eventsAtHome_record h.home sku' kind ev st

theorem replayMatches_instr_iff {c c' : Core SHARDS} {i : Instr SHARDS} {k : Choice}
    {more : List (Instr SHARDS)} (hinv : ReplayInv c) (h : ReplayMatches c)
    (hi : instr c i k = some (c', more)) : ReplayMatches c' ↔ NoFill c i k := by
  rcases instr_change hi with ⟨hs, -, hno⟩ | ⟨sku', kind, ev, st, hc, he, -⟩
  · refine iff_of_true (fun sku => ?_) (noFill_of_noChange hno k)
    rw [Core.stateOf, hs.stateOf, replayed_same hs]
    exact h sku
  · have hrep : ∀ sku, c'.engine.replayed sku =
        if sku = sku' then (c.engine.replayed sku).apply ev else c.engine.replayed sku := by
      intro sku
      rw [he, replayed_eq, replayed_eq, eventsOf_record hinv.home, List.foldl_append]
      split <;> rfl
    have hlive : ∀ sku, c'.stateOf sku = if sku = sku' then st else c.stateOf sku := by
      intro sku
      rw [Core.stateOf, he, ReservationEngine.stateOf_record]
      rfl
    constructor
    · intro h'
      have h1 := h' sku'
      rw [hlive, if_pos rfl, hrep, if_pos rfl] at h1
      cases hc with
      | fill _ bo qty expires => exact absurd h1 (not_readsAs_fill hinv.fresh (h sku') bo qty expires)
      | _ => trivial
    · intro hk sku
      rw [hlive, hrep]
      split
      · next hsku =>
        subst hsku
        exact hc.readsAs (h sku) k hk
      · exact h sku

/-- **When the replay equals the live state.**  In every interleaving of the engine's calls, the
read model that is rebuilt from the logs equals the live state in every state exactly when no
backorder is ever turned into a hold. -/
theorem replay_matches_iff (shardIndex : SkuId → Fin SHARDS) (withCache : Bool) (now : Int)
    (labels : List (Machine.Label Choice Op Nat)) :
    LabelledRun.AllStates (calls SHARDS).step (fun w => ReplayMatches w.core)
        { core := initCore shardIndex withCache now } labels ↔
      (calls SHARDS).RunDoes NoFill { core := initCore shardIndex withCache now } labels := by
  refine (calls SHARDS).allStates_iff_allSteps ReplayInv (fun _ _ => True)
    (fun _ _ _ _ _ => trivial) ?_ ?_ (fun _ _ _ h => h) ?_ labels ?_ ?_
  · intro c d h
    exact ⟨⟨h.fresh, h.home⟩, fun _ _ => trivial, fun _ _ => trivial⟩
  · intro c i k c' more h _ _ _ hi
    exact ⟨replayInv_instr h hi, fun _ _ => trivial, fun _ _ => trivial⟩
  · intro c i k c' more h _ hP hi
    exact replayMatches_instr_iff h hP hi
  · refine ⟨idsFresh_init shardIndex withCache now, fun i e he => ?_⟩
    cases he
  · intro sku
    have hempty : (initCore shardIndex withCache now).engine.allEvents = [] :=
      List.flatMap_eq_nil_iff.mpr fun _ _ => rfl
    show ReadsAs {} (AssocMap.getD (List.foldl applyEvent ∅ _) sku {})
    rw [hempty]
    exact ⟨rfl, rfl, fun _ => rfl, fun _ => rfl⟩

/-- An order for four units that are not there, then ten units, then the backorder is filled. -/
def fillOneBackorder : List (Machine.Label Choice Op Nat) :=
  [.spawn (.reserveOrBackorder ⟨7⟩ 4 60)] ++ emptySweep 0 ++
  [.run 0 .only, .run 0 .only, .run 0 .only,
    .spawn (.receive ⟨7⟩ (i64 10)), .run 1 .only, .spawn .fulfillBackorders] ++
    List.replicate 7 (.run 2 (.skus [])) ++
  [.run 2 (.skus [⟨7⟩]), .run 2 (.backorder (some ⟨0⟩)), .run 2 .only, .run 2 .only]

/-- The live state has the hold of four and no backorder; the replay has the backorder and no hold. -/
theorem filled_backorder_not_replayed :
    ¬ LabelledRun.AllStates (calls 64).step (fun w => ReplayMatches w.core)
      { core := initCore modShard false 0 } fillOneBackorder := by
  intro h
  have hav : (LabelledRun.exec (calls 64).step { core := initCore modShard false 0 } fillOneBackorder).map
      (fun w => ((w.core.stateOf ⟨7⟩).holds.lookup ⟨1⟩, (w.core.engine.replayed ⟨7⟩).holds.lookup ⟨1⟩)) =
      some (some 4, none) := by decide +kernel
  obtain ⟨t, ht, hboth⟩ := Option.map_eq_some_iff.mp hav
  have hlast := (h.last _ ht ⟨7⟩).holds ⟨1⟩
  rw [(Prod.mk.inj hboth).1, (Prod.mk.inj hboth).2] at hlast
  cases hlast

end TptErp.Oms
