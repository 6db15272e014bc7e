import TptErp.Oms.Calls

/-!
# Overselling

`reserve` checks the pool and inserts its hold under one lock.  `reserve_or_backorder` and
`fulfill_backorders` check under one lock and insert under the next, so that another call can take
the units in between.  `never_oversold_iff` says exactly in which runs no SKU is ever oversold.
-/

namespace TptErp.Oms

variable {SHARDS : Nat}

/-- On-hand covers what is committed and held, for every SKU. -/
def NeverOversold (c : Core SHARDS) : Prop := ∀ sku, 0 ≤ (c.stateOf sku).available

/-- A hold that is inserted without looking at the pool is still covered by it, and stock that is
received or returned neither overflows nor takes out more than the pool. -/
def Covered (c : Core SHARDS) : Instr SHARDS → Choice → Prop
  | .receive sku qty, _ | .returnStock sku qty, _ =>
    -qty.1 ≤ (c.stateOf sku).available ∧ (c.stateOf sku).onHand + qty.1 < 2 ^ 63
  | .hold sku qty _ _ _, _ | .fill sku _ qty _, _ => (qty : Int) ≤ (c.stateOf sku).available
  | _, _ => True

/-- New ids are new, on-hand counts fit and committed quantities are not negative. -/
structure StockInv (c : Core SHARDS) : Prop where
  fresh : IdsFresh c
  fits : ∀ sku, (c.stateOf sku).onHand < 2 ^ 63
  committed : ∀ sku, 0 ≤ (c.stateOf sku).committed

theorem Change.onHand_lt {c : Core SHARDS} {i : Instr SHARDS} {sku : SkuId} {ev : ReserveEvent}
    {st : SkuState} (hc : Change c i sku ev st) (h : (c.stateOf sku).onHand < 2 ^ 63) :
    st.onHand < 2 ^ 63 := by
  cases hc with
  | receive => exact wrapI64_lt _
  | returnStock => exact wrapI64_lt _
  | _ => exact h

theorem Change.committed_nonneg {c : Core SHARDS} {i : Instr SHARDS} {sku : SkuId} {ev : ReserveEvent}
    {st : SkuState} (hc : Change c i sku ev st) (h : 0 ≤ (c.stateOf sku).committed) :
    0 ≤ st.committed := by
  cases hc with
  | confirm _ _ qty _ =>
    show 0 ≤ (c.stateOf sku).committed + qty
    omega
  | _ => exact h

theorem stockInv_instr {c c' : Core SHARDS} {i : Instr SHARDS} {k : Choice} {more : List (Instr SHARDS)}
    (h : StockInv c) (hi : instr c i k = some (c', more)) : StockInv c' := by
  rcases instr_change hi with ⟨hs, -, -⟩ | ⟨sku', kind, ev, st, hc, he, -⟩
  · refine ⟨idsFresh_instr h.fresh hi, fun sku => ?_, fun sku => ?_⟩
    · rw [Core.stateOf, hs.stateOf]
      exact h.fits sku
    · rw [Core.stateOf, hs.stateOf]
      exact h.committed sku
  · refine ⟨idsFresh_instr h.fresh hi, fun sku => ?_, fun sku => ?_⟩
    · rw [Core.stateOf, he, ReservationEngine.stateOf_record]
      split
      · exact hc.onHand_lt (h.fits sku')
      · exact h.fits sku
    · rw [Core.stateOf, he, ReservationEngine.stateOf_record]
      split
      · exact hc.committed_nonneg (h.committed sku')
      · exact h.committed sku

/-- Stock that arrives keeps the pool non-negative exactly when it does not overflow and, if it is
negative, takes out no more than the pool. -/
theorem addStock_available_iff {st : SkuState} (qty : I64) (h : 0 ≤ st.available)
    (hc : 0 ≤ st.committed) (hfit : st.onHand < 2 ^ 63) :
    0 ≤ (st.addStock qty).available ↔ -qty.1 ≤ st.available ∧ st.onHand + qty.1 < 2 ^ 63 := by
  have hheld := st.held_nonneg
  have hav : st.available = st.onHand - st.committed - st.held := rfl
  obtain ⟨q, hq1, hq2⟩ := qty
  rw [SkuState.available_addStock]
  show 0 ≤ wrapI64 (st.onHand + q) - st.committed - st.held ↔ -q ≤ st.available ∧ st.onHand + q < 2 ^ 63
  by_cases hover : st.onHand + q < 2 ^ 63
  · rw [wrapI64_of_lt (by omega) hover]
    omega
  · have hneg : wrapI64 (st.onHand + q) < 0 := wrapI64_neg (by omega) (by omega)
    omega

/-- A change keeps its SKU's pool non-negative exactly when it is covered. -/
theorem Change.available_iff {c : Core SHARDS} {i : Instr SHARDS} {sku : SkuId} {ev : ReserveEvent}
    {st : SkuState} (hc : Change c i sku ev st) (hinv : StockInv c) (h : 0 ≤ (c.stateOf sku).available)
    (k : Choice) : 0 ≤ st.available ↔ Covered c i k := by
  have hnew := (lacks_newId hinv.fresh sku).holds
  cases hc with
  | receive _ qty => exact addStock_available_iff qty h (hinv.committed sku) (hinv.fits sku)
  | returnStock _ qty => exact addStock_available_iff qty h (hinv.committed sku) (hinv.fits sku)
  | reserve _ qty expires _ hcov =>
    -- the check and the insertion are one section
    rw [SkuState.available_insertHold qty expires hnew]
    exact iff_of_true (by omega) trivial
  | hold _ qty _ expires _ =>
    rw [SkuState.available_insertHold qty expires hnew]
    show 0 ≤ (c.stateOf sku).available - qty ↔ (qty : Int) ≤ (c.stateOf sku).available
    omega
  | backorder => exact iff_of_true h trivial
  | fill _ bo qty expires =>
    rw [SkuState.available_fill bo qty expires hnew]
    show 0 ≤ (c.stateOf sku).available - qty ↔ (qty : Int) ≤ (c.stateOf sku).available
    omega
  | confirm _ hold qty hheld =>
    rw [SkuState.available_capture hheld]
    exact iff_of_true h trivial
  | release _ hold qty hheld =>
    rw [SkuState.available_dropHold hheld]
    exact iff_of_true (by omega) trivial
  | sweepRelease _ hold _ qty hheld =>
    rw [SkuState.available_dropHold hheld]
    exact iff_of_true (by omega) trivial

/-- An instruction that changes no SKU needs no cover. -/
theorem covered_of_noChange {c : Core SHARDS} {i : Instr SHARDS}
    (h : ∀ sku ev st, ¬ Change c i sku ev st) (k : Choice) : Covered c i k := by
  cases i with
  | receive sku qty => exact absurd (.receive sku qty) (h _ _ _)
  | returnStock sku qty => exact absurd (.returnStock sku qty) (h _ _ _)
  | hold sku qty short expires ttl => exact absurd (.hold sku qty short expires ttl) (h _ _ _)
  | fill sku bo qty expires => exact absurd (.fill sku bo qty expires) (h _ _ _)
  | _ => trivial

theorem neverOversold_instr_iff {c c' : Core SHARDS} {i : Instr SHARDS} {k : Choice}
    {more : List (Instr SHARDS)} (hinv : StockInv c) (h : NeverOversold c)
    (hi : instr c i k = some (c', more)) : NeverOversold c' ↔ Covered c i k := by
  rcases instr_change hi with ⟨hs, -, hno⟩ | ⟨sku', kind, ev, st, hc, he, -⟩
  · refine iff_of_true (fun sku => ?_) (covered_of_noChange hno k)
    rw [Core.stateOf, hs.stateOf]
    exact h sku
  · rw [← hc.available_iff hinv (h sku') k]
    constructor
    · intro h'
      have := h' sku'
      rwa [Core.stateOf, he, ReservationEngine.stateOf_record, if_pos rfl] at this
    · intro hst sku
      rw [Core.stateOf, he, ReservationEngine.stateOf_record]
      split
      · exact hst
      · exact h sku

/-- **When nothing is oversold.**  In every interleaving of the engine's calls, on-hand covers
committed and held units of every SKU in every state exactly when every hold that is inserted in a
section of its own is still covered by the pool, and no arriving stock overflows or takes out more
than the pool. -/
theorem never_oversold_iff (shardIndex : SkuId → Fin SHARDS) (withCache : Bool) (now : Int)
    (labels : List (Machine.Label Choice Op Nat)) :
    LabelledRun.AllStates (calls SHARDS).step (fun w => NeverOversold w.core)
        { core := initCore shardIndex withCache now } labels ↔
      (calls SHARDS).RunDoes Covered { core := initCore shardIndex withCache now } labels := by
  refine (calls SHARDS).allStates_iff_allSteps StockInv (fun _ _ => True)
    (fun _ _ _ _ _ => trivial) ?_ ?_ (fun _ _ _ h => h) ?_ labels ?_ ?_
  · intro c d h
    exact ⟨⟨h.fresh, h.fits, h.committed⟩, fun _ _ => trivial, fun _ _ => trivial⟩
  · intro c i k c' more h _ _ _ hi
    exact ⟨stockInv_instr h hi, fun _ _ => trivial, fun _ _ => trivial⟩
  · intro c i k c' more h _ hP hi
    exact neverOversold_instr_iff h hP hi
  · refine ⟨idsFresh_init shardIndex withCache now, fun sku => ?_, fun sku => ?_⟩
    · show (0 : Int) < 2 ^ 63
      omega
    · exact le_rfl
  · intro sku
    exact le_rfl

/-- Ten units of one SKU, and two buyers of six that both look at the pool before either of them
inserts a hold. -/
def bothSeeTheStock : List (Machine.Label Choice Op Nat) :=
  [.spawn (.receive ⟨7⟩ (i64 10)), .run 0 .only, .spawn (.reserveOrBackorder ⟨7⟩ 6 60),
    .spawn (.reserveOrBackorder ⟨7⟩ 6 60)] ++ emptySweep 1 ++ emptySweep 2 ++
  [.run 1 .only, .run 2 .only, .run 1 .only, .run 2 .only, .run 1 .only, .run 2 .only]

/-- Both holds of six go in, two units more than there are. -/
theorem two_buyers_oversell :
    ¬ LabelledRun.AllStates (calls 64).step (fun w => NeverOversold w.core)
      { core := initCore modShard false 0 } bothSeeTheStock := by
  intro h
  have hav : (LabelledRun.exec (calls 64).step { core := initCore modShard false 0 } bothSeeTheStock).map
      (fun w => (w.core.stateOf ⟨7⟩).available) = some (-2) := by decide +kernel
  obtain ⟨t, ht, hneg⟩ := Option.map_eq_some_iff.mp hav
  have hpos := h.last _ ht ⟨7⟩
  omega

end TptErp.Oms
