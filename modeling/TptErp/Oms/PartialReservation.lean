import TptErp.Oms.Sweep

/-!
# Reserving what is there

What a `reserve_or_backorder` that runs alone takes.  After its sweep it looks once at the pool, narrows the
availability to 32 bits without a sign and takes the smaller of that and what was asked for.
`reserve_or_backorder_exact_iff`: it takes exactly what the pool has exactly when the narrowed number is as good as
the availability (`Narrows`).
-/

namespace TptErp.Oms

variable {SHARDS : Nat}

/-- A hold of `reserved` units and a backorder of `backordered` units came in, under new ids; none for no units. -/
def Takes (st st' : SkuState) (reserved backordered : Nat) : Prop :=
  ∃ (hold bo : HoldId) (expires : Int) (held : SkuState),
    st.holds.lookup hold = none ∧ st.backorders.lookup bo = none ∧
      held = (if 0 < reserved then st.insertHold hold reserved expires else st) ∧
      st' = if 0 < backordered then held.placeBackorder bo backordered else held

/-- The split is exact: what the pool has of the quantity is reserved, the rest is backordered, and the pool is
not overdrawn. -/
structure ExactSplit (st st' : SkuState) (qty : Nat) : Prop where
  split : ∃ reserved backordered : Nat, (reserved : Int) = min (qty : Int) (max 0 st.available) ∧
    reserved + backordered = qty ∧ Takes st st' reserved backordered
  covered : 0 ≤ st.available → 0 ≤ st'.available

/-- Narrowing the availability changes nothing about this quantity. -/
def Narrows (available : Int) (qty : Nat) : Prop :=
  (0 ≤ available ∧ available < 2 ^ 32) ∨ (available < 0 ∧ (qty = 0 ∨ available % 2 ^ 32 = 0)) ∨
    (2 ^ 32 ≤ available ∧ (qty : Int) ≤ available % 2 ^ 32)

instance (available : Int) (qty : Nat) : Decidable (Narrows available qty) :=
  inferInstanceAs (Decidable (_ ∨ _ ∨ _))

theorem narrows_iff (available : Int) (qty : U32) :
    ((min (asU32 available) qty.1 : Nat) : Int) = min (qty.1 : Int) (max 0 available) ↔ Narrows available qty.1 := by
  have hq := qty.2
  unfold Narrows asU32
  have h0 := Int.emod_nonneg available (show (2 ^ 32 : Int) ≠ 0 by omega)
  have h1 := Int.emod_lt_of_pos available (show (0 : Int) < 2 ^ 32 by omega)
  rcases lt_trichotomy available 0 with h | h | h
  · omega
  · subst h
    simp
  · by_cases hlt : available < 2 ^ 32
    · have := Int.emod_eq_of_lt h.le hlt
      omega
    · omega

/-! ## What the call takes -/

theorem Takes.available {st st' : SkuState} {reserved backordered : Nat} (h : Takes st st' reserved backordered) :
    st'.available = st.available - reserved := by
  obtain ⟨hold, bo, expires, held, hfresh, -, rfl, rfl⟩ := h
  have hheld : (if 0 < reserved then st.insertHold hold reserved expires else st).available =
      st.available - reserved := by
    split
    · exact SkuState.available_insertHold reserved expires hfresh
    · omega
  split
  · exact hheld
  · exact hheld

/-- What it takes is what it found when it looked. -/
theorem exactSplit_iff {st st' : SkuState} {qty : U32}
    (h : Takes st st' (min (asU32 st.available) qty.1) (qty.1 - min (asU32 st.available) qty.1)) :
    ExactSplit st st' qty.1 ↔ Narrows st.available qty.1 := by
  rw [← narrows_iff]
  have hav := h.available
  constructor
  · rintro ⟨⟨reserved, backordered, hr, -, ht⟩, -⟩
    have := ht.available
    omega
  · intro hr
    exact ⟨⟨_, _, hr, by omega, h⟩, fun h0 => by omega⟩

theorem foldl_tick (c : Core SHARDS) (es : List Nat) : es.foldl Core.tick c = c.tick es.sum := by
  induction es generalizing c with
  | nil =>
    show c = { c with now := c.now + ((0 : Nat) : Int) }
    rw [Nat.cast_zero, add_zero]
  | cons e es ih =>
    rw [List.foldl_cons, ih, List.sum_cons]
    unfold Core.tick
    rw [Nat.cast_add, add_assoc]

theorem idsFresh_tick {c : Core SHARDS} (h : IdsFresh c) (d : Nat) : IdsFresh (c.tick d) := h

/-- Whatever time passes, an instruction that can always go on is carried out. -/
theorem finishes_cons {Q : Core SHARDS → Prop} {c : Core SHARDS} {i : Instr SHARDS} {rest : List (Instr SHARDS)}
    (go : ∀ c, ∃ k r, instr c i k = some r)
    (all : ∀ d k c' more, instr (c.tick d) i k = some (c', more) → (calls SHARDS).Finishes Q c' (more ++ rest)) :
    (calls SHARDS).Finishes Q c (i :: rest) := by
  refine .step (fun es => go _) fun es k c' more hi => ?_
  rw [show es.foldl (calls SHARDS).env c = c.tick es.sum from foldl_tick c es] at hi
  exact all _ k c' more hi

/-- The end of the call enters the hold in the indexes. -/
theorem finishes_indexes {Q : SkuState → Prop} {c : Core SHARDS} (sku : SkuId) (hold : HoldId) (expires : Int)
    (ttl : Nat) (h : Q (c.stateOf sku)) :
    (calls SHARDS).Finishes (fun c' => Q (c'.stateOf sku)) c [.indexInsert hold expires, .cachePut hold ttl] := by
  refine finishes_cons (fun c => ⟨.only, _, rfl⟩) fun d k c' more hi => ?_
  cases hi
  refine finishes_cons (fun c => ⟨.only, _, rfl⟩) fun d' k c' more hi => ?_
  cases hi
  exact .done h

theorem finishes_hold {c : Core SHARDS} (hf : IdsFresh c) (sku : SkuId) {qty : Nat} (hq : 0 < qty) (short : Nat)
    (expires : Int) (ttl : Nat) :
    (calls SHARDS).Finishes (fun c' => Takes (c.stateOf sku) (c'.stateOf sku) qty short) c
      [.hold sku qty short expires ttl] := by
  have hnew := lacks_newId hf sku
  have hbo := (hf sku ⟨c.nextId + 1⟩ (Nat.le_succ _)).backorders
  refine finishes_cons (fun c => ⟨.only, _, rfl⟩) fun d k c₁ more hi => ?_
  cases hi
  have hheld : (((c.tick d).withNewId ((c.tick d).engine.insertHold sku (c.tick d).newId qty expires)).stateOf sku) =
      (c.stateOf sku).insertHold c.newId qty expires := by
    show (c.engine.record sku _ _ _).stateOf sku = _
    rw [ReservationEngine.stateOf_record, if_pos rfl]
    rfl
  by_cases hs : 0 < short
  · rw [if_pos hs]
    refine finishes_cons (fun c => ⟨.only, _, rfl⟩) fun d' k c₂ more hi => ?_
    cases hi
    refine finishes_indexes (Q := fun st => Takes (c.stateOf sku) st qty short) sku _ _ _
      ⟨c.newId, ⟨c.nextId + 1⟩, expires, _, hnew.holds, hbo, rfl, ?_⟩
    rw [if_pos hq, if_pos hs, ← hheld]
    show (ReservationEngine.record _ sku _ _ _).stateOf sku = _
    rw [ReservationEngine.stateOf_record, if_pos rfl]
    rfl
  · rw [if_neg hs]
    refine finishes_indexes (Q := fun st => Takes (c.stateOf sku) st qty short) sku _ _ _
      ⟨c.newId, ⟨c.nextId + 1⟩, expires, _, hnew.holds, hbo, rfl, ?_⟩
    rw [if_pos hq, if_neg hs, ← hheld]

theorem finishes_backorder {c : Core SHARDS} (hf : IdsFresh c) (sku : SkuId) {qty : Nat} (hq : 0 < qty) :
    (calls SHARDS).Finishes (fun c' => Takes (c.stateOf sku) (c'.stateOf sku) 0 qty) c [.backorder sku qty] := by
  have hnew := lacks_newId hf sku
  refine finishes_cons (fun c => ⟨.only, _, rfl⟩) fun d k c₁ more hi => ?_
  cases hi
  refine .done ⟨c.newId, c.newId, 0, _, hnew.holds, hnew.backorders, rfl, ?_⟩
  rw [if_neg (lt_irrefl 0), if_pos hq]
  show (c.engine.record sku _ _ _).stateOf sku = _
  rw [ReservationEngine.stateOf_record, if_pos rfl]
  rfl

/-- After the sweep: the call comes to its end, and takes what it saw. -/
theorem finishes_reservable {c : Core SHARDS} (hf : IdsFresh c) (sku : SkuId) (qty ttl : Nat) :
    (calls SHARDS).Finishes (fun c' => Takes (c.stateOf sku) (c'.stateOf sku) (c.engine.reservable sku qty)
      (qty - c.engine.reservable sku qty)) c [.stampReservable sku qty ttl] := by
  have hnew := lacks_newId hf sku
  refine finishes_cons (fun c => ⟨.only, _, rfl⟩) fun d k c' more hi => ?_
  cases hi
  refine finishes_cons (fun c => ⟨.only, _, rfl⟩) fun d' k c₁ more hi => ?_
  have hf₁ : IdsFresh c₁ := idsFresh_instr (idsFresh_tick (idsFresh_tick hf d) d') hi
  cases does_instr hi with
  | changed kind change => cases change
  | unknown s hold hnamed => cases hnamed
  | reservable _ _ expires _ =>
    have hst : (((c.tick d).tick d').withEngine (((c.tick d).tick d').engine.touch sku)).stateOf sku = c.stateOf sku :=
      c.engine.stateOf_touch sku sku
    have hle : c.engine.reservable sku qty ≤ qty := Nat.min_le_right _ _
    have hsame : ((c.tick d).tick d').engine.reservable sku qty = c.engine.reservable sku qty := rfl
    rw [show ([] : List (Instr SHARDS)).append [] = [] from rfl, List.append_nil, ← hst, hsame]
    generalize c.engine.reservable sku qty = reserved at *
    split
    · next hr => exact finishes_hold hf₁ sku hr _ _ ttl
    · next hr =>
      obtain rfl : reserved = 0 := by omega
      split
      · next hq =>
        rw [Nat.sub_zero]
        exact finishes_backorder hf₁ sku hq
      · next hq =>
        refine .done ⟨c.newId, c.newId, 0, _, ?_, ?_, rfl, ?_⟩
        · rw [hst]
          exact hnew.holds
        · rw [hst]
          exact hnew.backorders
        · rw [if_neg (by omega), if_neg (by omega)]

/-! ## The sweep -/

section
variable {Q I : Core SHARDS → Prop} {tail : List (Instr SHARDS)}
  (htick : ∀ (c : Core SHARDS) d, I c → I (c.tick d))
  (hinstr : ∀ {c : Core SHARDS} {i k c' more}, I c → instr c i k = some (c', more) → InSweep i → I c')
  (htail : ∀ c' : Core SHARDS, I c' → (calls SHARDS).Finishes Q c' tail)

include htick hinstr htail

theorem finishes_dropIndexes {c : Core SHARDS} (hc : I c) (hold : HoldId) :
    (calls SHARDS).Finishes Q c (dropIndexes hold ++ .countReleased :: tail) := by
  refine finishes_cons (fun c => ⟨.only, _, rfl⟩) fun d k c' more hi => ?_
  replace hc := hinstr (htick c d hc) hi trivial
  cases hi
  refine finishes_cons (fun c => ⟨.only, _, rfl⟩) fun d k c' more hi => ?_
  replace hc := hinstr (htick _ d hc) hi trivial
  cases hi
  refine finishes_cons (fun c => ⟨.only, _, rfl⟩) fun d k c' more hi => ?_
  replace hc := hinstr (htick _ d hc) hi trivial
  cases hi
  exact htail _ hc

theorem finishes_check {c : Core SHARDS} (hc : I c) (candidates : List (SkuId × HoldId)) :
    (calls SHARDS).Finishes Q c (.check candidates :: tail) := by
  induction candidates generalizing c with
  | nil =>
    refine finishes_cons (fun c => ⟨.only, _, rfl⟩) fun d k c' more hi => ?_
    replace hc := hinstr (htick c d hc) hi trivial
    cases hi
    exact htail _ hc
  | cons p rest ih =>
    have hcheck : ∀ c : Core SHARDS, ∃ k r, instr c (.check (p :: rest)) k = some r := by
      intro c
      by_cases he : c.engine.isExpired c.now p.2
      · exact ⟨.only, _, if_pos he⟩
      · exact ⟨.only, _, if_neg he⟩
    have hrelease : ∀ t, ∀ c : Core SHARDS, ∃ k r, instr c (.sweepRelease p.1 p.2 t) k = some r := by
      intro t c
      refine ⟨.only, ?_⟩
      simp only [instr]
      split
      · exact ⟨_, rfl⟩
      · exact ⟨_, rfl⟩
    refine finishes_cons hcheck fun d k c' more hi => ?_
    replace hc := hinstr (htick c d hc) hi trivial
    cases does_instr hi with
    | changed kind change => cases change
    | unknown s hold hnamed => cases hnamed
    | notExpired sku hold _ _ => exact ih hc
    | expired sku hold _ _ =>
      refine finishes_cons (hrelease _) fun d' k c' more hi => ?_
      replace hc := hinstr (htick _ d' hc) hi trivial
      cases does_instr hi with
      | changed kind change =>
        cases change with
        | sweepRelease => exact finishes_dropIndexes htick hinstr (fun c' h => ih h) hc hold
      | unknown s hold hnamed => exact ih hc

theorem finishes_scan {c : Core SHARDS} (hc : I c) (shards : List (Fin SHARDS))
    (found : List (SkuId × HoldId)) : (calls SHARDS).Finishes Q c (.scan shards found :: tail) := by
  induction shards generalizing c found with
  | nil =>
    refine finishes_cons (fun c => ⟨.only, _, rfl⟩) fun d k c' more hi => ?_
    replace hc := hinstr (htick c d hc) hi trivial
    cases hi
    exact finishes_check htick hinstr htail hc found
  | cons i shards ih =>
    refine finishes_cons (fun c => ⟨.candidates (c.engine.candidates i), _, if_pos (List.Perm.refl _)⟩)
      fun d k c' more hi => ?_
    replace hc := hinstr (htick c d hc) hi trivial
    cases does_instr hi with
    | scan _ _ _ order perm => exact ih hc _
    | changed kind change => cases change
    | unknown s hold hnamed => cases hnamed

end

/-- A SKU without holds, in this state. -/
def Unheld (sku : SkuId) (st : SkuState) (c : Core SHARDS) : Prop :=
  c.stateOf sku = st ∧ ∀ hold, st.holds.lookup hold = none

theorem unheld_instr {sku : SkuId} {st : SkuState} {c c' : Core SHARDS} {i : Instr SHARDS} {k : Choice}
    {more : List (Instr SHARDS)} (h : Unheld sku st c) (hi : instr c i k = some (c', more)) (hin : InSweep i) :
    Unheld sku st c' := by
  refine ⟨?_, h.2⟩
  rcases instr_change hi with ⟨hs, -, -⟩ | ⟨sku', kind, ev, st', hc, he, -⟩
  · exact (hs.stateOf sku).trans h.1
  · rw [Core.stateOf, he, ReservationEngine.stateOf_record]
    split
    · next hk =>
      subst hk
      cases hc with
      | sweepRelease _ hold checkedAt qty held =>
        rw [h.1, h.2] at held
        cases held
      | _ => cases hin
    · exact h.1

/-- A sweep that runs alone comes to its end, and leaves a SKU without holds as it is. -/
theorem finishes_unheld (c : Core SHARDS) (sku : SkuId) (h : ∀ hold, (c.stateOf sku).holds.lookup hold = none) :
    (calls SHARDS).Finishes (fun swept => swept.stateOf sku = c.stateOf sku) c [sweep] :=
  finishes_scan (fun _ _ h => h) unheld_instr (fun _ h => .done h.1) ⟨rfl, h⟩ _ _

/-- **When a partial reservation is exact.**  For every state of the engine whose new ids are new and every quantity: the
call sweeps and comes to its end, whatever time passes; and from what the sweep leaves it splits the quantity exactly
when narrowing the availability to 32 bits changes nothing about it. -/
theorem reserve_or_backorder_exact_iff {c : Core SHARDS} (hf : IdsFresh c) (sku : SkuId) (qty : U32) (ttl : Nat) :
    (prog (.reserveOrBackorder sku qty.1 ttl) : List (Instr SHARDS)) = [sweep, .stampReservable sku qty.1 ttl] ∧
      (calls SHARDS).Finishes (fun swept =>
        (calls SHARDS).Finishes (fun c' => ExactSplit (swept.stateOf sku) (c'.stateOf sku) qty.1) swept
            [.stampReservable sku qty.1 ttl] ↔
          Narrows (swept.stateOf sku).available qty.1) c [sweep] := by
  refine ⟨rfl, finishes_scan (I := IdsFresh) (fun _ d h => idsFresh_tick h d)
    (fun h hi _ => idsFresh_instr h hi) (fun swept hf => .done ?_) hf _ _⟩
  have htakes := finishes_reservable hf sku qty.1 ttl
  constructor
  · intro hexact
    obtain ⟨c', hs, ht⟩ := hexact.meet _ htakes
    exact (exactSplit_iff ht).mp hs
  · intro hn
    exact htakes.mono _ fun c' ht => (exactSplit_iff ht).mpr hn

/-- An engine that received so many units of one SKU. -/
def stocked (qty : I64) : Core 64 :=
  (initCore modShard false 0).withEngine ((initCore modShard false 0).engine.receive ⟨7⟩ qty.1)

theorem idsFresh_stocked (qty : I64) : IdsFresh (stocked qty) :=
  idsFresh_instr (k := .only) (idsFresh_init modShard false 0)
    (show instr _ (.receive ⟨7⟩ qty) .only = some (stocked qty, []) from rfl)

/-- Twelve of ten units are asked for, and split exactly. -/
theorem ten_units_exact :
    (calls 64).Finishes (fun swept =>
      (calls 64).Finishes (fun c' => ExactSplit (swept.stateOf ⟨7⟩) (c'.stateOf ⟨7⟩) (u32 12).1) swept
        [.stampReservable ⟨7⟩ (u32 12).1 60]) (stocked (i64 10)) [sweep] := by
  have hav : Narrows ((stocked (i64 10)).stateOf ⟨7⟩).available (u32 12).1 := by decide +kernel
  have hsplit := (reserve_or_backorder_exact_iff (idsFresh_stocked (i64 10)) ⟨7⟩ (u32 12) 60).2
  have hleft := finishes_unheld (stocked (i64 10)) ⟨7⟩ fun _ => rfl
  refine (hsplit.and _ hleft).mono _ fun swept h => h.1.mpr ?_
  rw [h.2]
  exact hav

/-- With one unit too few, four units are reserved that are not there. -/
theorem short_stock_reserved :
    ¬ ∀ (c : Core 64), IdsFresh c → ∀ (sku : SkuId) (qty : U32) (ttl : Nat),
      (calls 64).Finishes (fun swept =>
        (calls 64).Finishes (fun c' => ExactSplit (swept.stateOf sku) (c'.stateOf sku) qty.1) swept
          [.stampReservable sku qty.1 ttl]) c [sweep] := by
  intro h
  have hsweep : (LabelledRun.exec (calls 64).step { core := stocked (i64 (-1)), threads := [[sweep]] }
      ((List.replicate 64 (Choice.candidates []) ++ [Choice.only, Choice.only]).map (.run 0))).map
      (fun w => (w.threads.map List.length, (w.core.stateOf ⟨7⟩).available,
        (LabelledRun.exec (calls 64).step
          { core := w.core, threads := [[.stampReservable ⟨7⟩ (u32 4).1 60]] }
          ((List.replicate 5 Choice.only).map (.run 0))).map
          (fun t => (t.threads.map List.length, (t.core.stateOf ⟨7⟩).available)))) =
        some ([0], -1, some ([0], -5)) := by
    decide +kernel
  have hempty : ∀ threads : List (List (Instr 64)), threads.map List.length = [0] → threads = [[]] := by
    intro threads ht
    obtain ⟨prog, rest, rfl, h0, hrest⟩ := List.map_eq_cons_iff.mp ht
    rw [List.length_eq_zero_iff.mp h0, List.map_eq_nil_iff.mp hrest]
  obtain ⟨w, hw, he⟩ := Option.map_eq_some_iff.mp hsweep
  obtain ⟨hd, he⟩ := Prod.mk.inj he
  obtain ⟨hav, he⟩ := Prod.mk.inj he
  obtain ⟨t, ht, he⟩ := Option.map_eq_some_iff.mp he
  obtain ⟨hd', hav'⟩ := Prod.mk.inj he
  have hfin := (h _ (idsFresh_stocked _) ⟨7⟩ (u32 4) 60).of_exec _ hw (hempty _ hd)
  obtain ⟨⟨reserved, backordered, hr, -, htakes⟩, -⟩ := hfin.of_exec _ ht (hempty _ hd')
  have := htakes.available
  omega

end TptErp.Oms
