import TptErp.Entity.Repository
import TptErp.Wms.StockLog
import Mathlib.Data.List.TakeWhile

/-!
# Cycle counts

`generate_count_task` names the SKUs that a bin holds, `reconcile_count` takes the counted quantities over.  Time
passes in between, and other calls run.

* `count_exact`: a count that is reconciled without interruption sets the SKUs of its task to what was counted,
  whatever happened since the task was made, and no other quantity.  A SKU that came into the bin after that, or
  that nobody knew to be there, is in no task and is not corrected.
* `count_keeps_movements`: a movement that comes between the two sections of a line is kept, on top of what was
  counted.
-/

namespace TptErp.Wms

open Entity (Arrangement)

namespace InventoryEngine

variable {SHARDS : Nat}

section
variable (eng : InventoryEngine SHARDS)

/-- `order` is the one in which each shard's map is met. -/
def generateCountTask (order : Fin SHARDS → Arrangement (StockKey × Int)) (bin : Id Bin) : CountTask where
  bin := bin
  lines := (List.finRange SHARDS).flatMap fun i =>
    (((order i).run ((eng.shards i).onHand.entries.map fun e => (e.1, e.2))).filter
      fun e => e.1.bin = bin ∧ e.2 ≠ 0).map (·.1.sku)

/-- Every quantity is in the shard of its key. -/
def Homed : Prop := ∀ i, ∀ key ∈ (eng.shards i).onHand, eng.shardIndex key = i

end

theorem homed_new (shardIndex : StockKey → Fin SHARDS) : Homed (new shardIndex) :=
  fun _ _ h => absurd h (AList.notMem_empty _)

theorem homed_setShard {eng : InventoryEngine SHARDS} (h : Homed eng) (key : StockKey) {s : Shard}
    (hs : ∀ k ∈ s.onHand, k = key ∨ k ∈ (eng.shardOf key).onHand) :
    Homed (eng.setShard (eng.shardIndex key) s) := by
  intro i k hk
  simp only [setShard, Function.update_apply] at hk
  split at hk
  · next hi =>
    rcases hs k hk with rfl | hk
    · exact hi.symm
    · rw [hi]
      exact h _ k hk
  · exact h i k hk

theorem homed_edit {w : Int → Int} {eng eng' : InventoryEngine SHARDS} (h : Homed eng) (he : Edit w eng eng') :
    Homed eng' := by
  cases he with
  | move key m delta =>
    refine homed_setShard h key fun k hk => ?_
    rcases (AList.mem_insert (eng.shardOf key).onHand).mp hk with rfl | hk
    · exact Or.inl rfl
    · exact Or.inr hk
  | logLot key e => exact homed_setShard h key fun k hk => Or.inr hk
  | setLots key ls => exact homed_setShard h key fun k hk => Or.inr hk
  | putSerials => exact h
  | removeSerials => exact h
  | putPallet => exact h

theorem homed_edits {w : Int → Int} {eng eng' : InventoryEngine SHARDS} (h : Homed eng) (he : Edits w eng eng') :
    Homed eng' := by
  induction he with
  | refl => exact h
  | tail _ h1 ih => exact homed_edit ih h1

/-! ## The task -/

section
variable {eng : InventoryEngine SHARDS} (order : Fin SHARDS → Arrangement (StockKey × Int)) (bin : Id Bin)

theorem mem_shardEntries {i : Fin SHARDS} {key : StockKey} {q : Int} :
    (key, q) ∈ (order i).run ((eng.shards i).onHand.entries.map fun e => (e.1, e.2)) ↔
      (eng.shards i).onHand.lookup key = some q := by
  rw [((order i).perm _).mem_iff, List.mem_map, ← Option.mem_def]
  constructor
  · rintro ⟨⟨k, v⟩, he, heq⟩
    cases heq
    exact (List.mem_dlookup_iff (eng.shards i).onHand.nodupKeys).mpr he
  · intro hl
    exact ⟨⟨key, q⟩, (List.mem_dlookup_iff (eng.shards i).onHand.nodupKeys).mp hl, rfl⟩

/-- The task names the SKUs in stock in the bin. -/
theorem mem_countTask (h : Homed eng) (sku : Id Sku) :
    sku ∈ (eng.generateCountTask order bin).lines ↔ eng.onHand ⟨bin, sku⟩ ≠ 0 := by
  have hhome : ∀ i q, (eng.shards i).onHand.lookup ⟨bin, sku⟩ = some q → eng.onHand ⟨bin, sku⟩ = q := by
    intro i q hl
    have hi := h i ⟨bin, sku⟩ (AList.lookup_isSome.mp (by rw [hl]; rfl))
    rw [onHand, shardOf, hi, AssocMap.getD, hl]
    rfl
  simp only [generateCountTask, List.mem_flatMap, List.mem_map, List.mem_filter, decide_eq_true_eq]
  constructor
  · rintro ⟨i, -, ⟨⟨b, s⟩, q⟩, ⟨hmem, hb, hq⟩, rfl⟩
    dsimp only at hb hq
    subst hb
    rw [hhome i q ((mem_shardEntries order).mp hmem)]
    exact hq
  · intro hne
    cases hl : (eng.shardOf ⟨bin, sku⟩).onHand.lookup ⟨bin, sku⟩ with
    | none =>
      rw [onHand, AssocMap.getD, hl] at hne
      exact absurd rfl hne
    | some q =>
      rw [hhome _ q hl] at hne
      exact ⟨_, List.mem_finRange _, ⟨⟨bin, sku⟩, q⟩, ⟨(mem_shardEntries order).mpr hl, rfl, hne⟩, rfl⟩

theorem nodup_shardEntries (i : Fin SHARDS) :
    (((order i).run ((eng.shards i).onHand.entries.map fun e => (e.1, e.2))).map (·.1)).Nodup := by
  rw [(((order i).perm _).map _).nodup_iff, List.map_map]
  exact (eng.shards i).onHand.nodupKeys

/-- No SKU is named twice. -/
theorem nodup_countTask (h : Homed eng) : (eng.generateCountTask order bin).lines.Nodup := by
  have hkeys : ∀ (l : List (StockKey × Int)), (l.map (·.1)).Nodup →
      ((l.filter fun e => e.1.bin = bin ∧ e.2 ≠ 0).map (·.1.sku)).Nodup := by
    intro l hl
    refine (List.Nodup.of_map (·.1) hl |>.filter _).map_on ?_
    rintro ⟨⟨b, s⟩, q⟩ he ⟨⟨b', s'⟩, q'⟩ he' heq
    simp only [List.mem_filter, decide_eq_true_eq] at he he'
    dsimp only at heq he he'
    obtain ⟨hmem, rfl, -⟩ := he
    obtain ⟨hmem', rfl, -⟩ := he'
    subst heq
    exact List.inj_on_of_nodup_map hl hmem hmem' rfl
  refine List.nodup_flatMap.mpr ⟨fun i _ => hkeys _ (nodup_shardEntries order i), ?_⟩
  refine (List.nodup_finRange SHARDS).imp fun {i j} hij sku hi hj => hij ?_
  -- a SKU named by two shards would have its key in both
  simp only [List.mem_map, List.mem_filter, decide_eq_true_eq] at hi hj
  obtain ⟨⟨⟨b, s⟩, q⟩, ⟨hmem, hb, -⟩, rfl⟩ := hi
  obtain ⟨⟨⟨b', s'⟩, q'⟩, ⟨hmem', hb', -⟩, hs⟩ := hj
  dsimp only at hb hb' hs
  subst hb hb' hs
  have hi' := h i _ (AList.lookup_isSome.mp (by rw [(mem_shardEntries order).mp hmem]; rfl))
  have hj' := h j _ (AList.lookup_isSome.mp (by rw [(mem_shardEntries order).mp hmem']; rfl))
  exact hi'.symm.trans hj'

end

/-! ## Reconciling it -/

section
variable (eng : InventoryEngine SHARDS) (bin : Id Bin) (counted : StockKey → I64) (reason : Reason)

/-- What is missing from a key's quantity, to be what was counted. -/
def variance (key : StockKey) : I64 := i64 ((counted key).1 - eng.onHand key)

/-- The result of a line, if the count differs. -/
def adjustmentOf (sku : Id Sku) : Option AdjustmentResult :=
  let key : StockKey := { bin, sku }
  if (counted key).1 = eng.onHand key then none
  else
    some { key, expected := eng.onHand key, counted := (counted key).1, delta := (eng.variance counted key).1
           reason, newOnHand := (counted key).1 }

/-- The lines are set to what was counted, each by one movement, and nothing else is. -/
structure TakesOver (lines : List (Id Sku)) (eng' : InventoryEngine SHARDS) : Prop where
  onHand : ∀ key, eng'.onHand key =
    if key.bin = bin ∧ key.sku ∈ lines then (counted key).1 else eng.onHand key
  movements : ∀ key, eng'.movements key = eng.movements key ++
    if key.bin = bin ∧ key.sku ∈ lines ∧ (counted key).1 ≠ eng.onHand key then
      [.adjustment (eng.variance counted key) reason]
    else []
  lots : ∀ key, eng'.lots key = eng.lots key
  lotEvents : ∀ key, eng'.lotEvents key = eng.lotEvents key
  serials : eng'.serials = eng.serials
  pallets : eng'.pallets = eng.pallets

end

section
variable {eng : InventoryEngine SHARDS} {bin : Id Bin} {counted : StockKey → I64} {reason : Reason}

theorem takesOver_nil : TakesOver eng bin counted reason [] eng := by
  refine ⟨fun key => ?_, fun key => ?_, fun _ => rfl, fun _ => rfl, rfl, rfl⟩
  · rw [if_neg (fun h => nomatch h.2)]
  · rw [if_neg (fun h => nomatch h.2.1), List.append_nil]

/-- A line whose count agrees. -/
theorem TakesOver.agree {sku : Id Sku} {lines : List (Id Sku)} {eng' : InventoryEngine SHARDS}
    (h : TakesOver eng bin counted reason lines eng') (hsku : (counted ⟨bin, sku⟩).1 = eng.onHand ⟨bin, sku⟩) :
    TakesOver eng bin counted reason (sku :: lines) eng' := by
  have hkey : ∀ key : StockKey, key.bin = bin → key.sku = sku → (counted key).1 = eng.onHand key := by
    rintro ⟨b, s⟩ hb hs
    dsimp only at hb hs
    rw [hb, hs]
    exact hsku
  refine ⟨fun key => ?_, fun key => ?_, h.lots, h.lotEvents, h.serials, h.pallets⟩
  · rw [h.onHand]
    by_cases hb : key.bin = bin
    · by_cases hs : key.sku = sku
      · simp [hb, hs, hkey key hb hs]
      · simp [hb, hs]
    · simp [hb]
  · rw [h.movements]
    by_cases hb : key.bin = bin
    · by_cases hs : key.sku = sku
      · simp [hb, hs, hkey key hb hs]
      · simp [hb, hs]
    · simp [hb]

/-- A line that is adjusted; it is not met again. -/
theorem TakesOver.adjust {sku : Id Sku} {lines : List (Id Sku)} {eng' : InventoryEngine SHARDS} (hlog : LogKept eng)
    (hnew : sku ∉ lines) (hsku : (counted ⟨bin, sku⟩).1 ≠ eng.onHand ⟨bin, sku⟩)
    (h : TakesOver (eng.move ⟨bin, sku⟩ (.adjustment (eng.variance counted ⟨bin, sku⟩) reason)
      (counted ⟨bin, sku⟩).1) bin counted reason lines eng') :
    TakesOver eng bin counted reason (sku :: lines) eng' := by
  have hother : ∀ key : StockKey, key.bin = bin → key.sku ≠ sku → key ≠ ⟨bin, sku⟩ :=
    fun key _ hs he => hs (by rw [he])
  have hvar : ∀ key, key ≠ ⟨bin, sku⟩ →
      (eng.move ⟨bin, sku⟩ (.adjustment (eng.variance counted ⟨bin, sku⟩) reason) (counted ⟨bin, sku⟩).1).variance
        counted key = eng.variance counted key := by
    intro key hk
    simp only [variance, onHand_move, if_neg hk]
  refine ⟨fun key => ?_, fun key => ?_, fun key => ?_, fun key => ?_, h.serials, h.pallets⟩
  · rw [h.onHand, onHand_move]
    by_cases hb : key.bin = bin
    · by_cases hs : key.sku = sku
      · obtain ⟨b, s⟩ := key
        dsimp only at hb hs
        subst hb hs
        simp [hnew]
      · simp [hb, hs, hother key hb hs]
    · have hk : key ≠ ⟨bin, sku⟩ := fun he => hb (by rw [he])
      simp [hb, hk]
  · rw [h.movements, movements_move _ _ _ _ hlog, onHand_move]
    by_cases hb : key.bin = bin
    · by_cases hs : key.sku = sku
      · obtain ⟨b, s⟩ := key
        dsimp only at hb hs
        subst hb hs
        simp [hnew, hsku]
      · have hk := hother key hb hs
        simp [hb, hs, hk, hvar key hk]
    · have hk : key ≠ ⟨bin, sku⟩ := fun he => hb (by rw [he])
      simp [hb, hk]
  · rw [h.lots, lots_move]
  · rw [h.lotEvents, lotEvents_move _ _ _ _ hlog]

/-- The quantity after a line's adjustment is what was counted. -/
theorem add_variance (eng : InventoryEngine SHARDS) (counted : StockKey → I64) (key : StockKey) :
    wrapI64 (eng.onHand key + (eng.variance counted key).1) = (counted key).1 := by
  show wrapI64 (eng.onHand key + wrapI64 ((counted key).1 - eng.onHand key)) = _
  rw [wrapI64_add_wrapI64, add_sub_cancel, wrapI64_of_lt (counted key).2.1 (counted key).2.2]

theorem variance_eq_zero_iff (h : Stocked wrapI64 eng) (counted : StockKey → I64) (key : StockKey) :
    (eng.variance counted key).1 = 0 ↔ (counted key).1 = eng.onHand key := by
  constructor
  · intro hz
    rw [← eng.add_variance counted key, hz, add_zero]
    exact (h key).2
  · intro he
    show wrapI64 ((counted key).1 - eng.onHand key) = 0
    rw [he, sub_self]
    rfl

/-- The line of a negative count is refused, any other line that differs is set to its count. -/
theorem apply_variance (eng : InventoryEngine SHARDS) (counted : StockKey → I64) (reason : Reason) (key : StockKey) :
    ((counted key).1 < 0 ∧ ∃ e, eng.apply key (.adjustment (eng.variance counted key) reason) = (.error e, eng)) ∨
    (0 ≤ (counted key).1 ∧ eng.apply key (.adjustment (eng.variance counted key) reason) =
      (.ok (counted key).1, eng.move key (.adjustment (eng.variance counted key) reason) (counted key).1)) := by
  have hq := eng.add_variance counted key
  rcases eng.append_cases key (.adjustment (eng.variance counted key) reason) with ⟨hn, he⟩ | ⟨h0, he⟩
  · rw [Movement.delta, hq] at hn
    exact Or.inl ⟨hn, _, he⟩
  · rw [Movement.delta, hq] at h0 he
    exact Or.inr ⟨h0, he⟩

theorem reconcileLines_skip {sku : Id Sku} {lines : List (Id Sku)} (h : (eng.variance counted ⟨bin, sku⟩).1 = 0) :
    reconcileLines bin counted reason (sku :: lines) eng = reconcileLines bin counted reason lines eng := by
  have hz : wrapI64 ((counted ⟨bin, sku⟩).1 - eng.onHand ⟨bin, sku⟩) = 0 := h
  simp only [reconcileLines, if_pos hz]

theorem reconcileLines_refused {sku : Id Sku} {lines : List (Id Sku)} (h : (eng.variance counted ⟨bin, sku⟩).1 ≠ 0)
    {e : InventoryError}
    (he : eng.apply ⟨bin, sku⟩ (.adjustment (eng.variance counted ⟨bin, sku⟩) reason) = (.error e, eng)) :
    reconcileLines bin counted reason (sku :: lines) eng = (.error e, eng) := by
  have hz : ¬ wrapI64 ((counted ⟨bin, sku⟩).1 - eng.onHand ⟨bin, sku⟩) = 0 := h
  have hcall : eng.apply ⟨bin, sku⟩ (.adjustment ⟨wrapI64 ((counted ⟨bin, sku⟩).1 - eng.onHand ⟨bin, sku⟩),
    le_wrapI64 _, wrapI64_lt _⟩ reason) = (.error e, eng) := he
  simp only [reconcileLines, if_neg hz, hcall]

/-- A line that is adjusted puts its result before those of the other lines. -/
theorem reconcileLines_adjusted {sku : Id Sku} {lines : List (Id Sku)} (h : (eng.variance counted ⟨bin, sku⟩).1 ≠ 0)
    {newOnHand : Int} {mid : InventoryEngine SHARDS}
    (hmid : eng.apply ⟨bin, sku⟩ (.adjustment (eng.variance counted ⟨bin, sku⟩) reason) = (.ok newOnHand, mid)) :
    reconcileLines bin counted reason (sku :: lines) eng =
      ((reconcileLines bin counted reason lines mid).1.map fun results =>
        { key := ⟨bin, sku⟩, expected := eng.onHand ⟨bin, sku⟩, counted := (counted ⟨bin, sku⟩).1
          delta := (eng.variance counted ⟨bin, sku⟩).1, reason, newOnHand } :: results,
        (reconcileLines bin counted reason lines mid).2) := by
  have hz : ¬ wrapI64 ((counted ⟨bin, sku⟩).1 - eng.onHand ⟨bin, sku⟩) = 0 := h
  have hcall : eng.apply ⟨bin, sku⟩ (.adjustment ⟨wrapI64 ((counted ⟨bin, sku⟩).1 - eng.onHand ⟨bin, sku⟩),
    le_wrapI64 _, wrapI64_lt _⟩ reason) = (.ok newOnHand, mid) := hmid
  simp only [reconcileLines, if_neg hz, hcall]
  rcases reconcileLines bin counted reason lines mid with ⟨⟨_⟩ | ⟨_⟩, _⟩ <;> rfl

/-- **The lines before the first negative count are taken over**; a negative count is an error. -/
theorem reconcileLines_takesOver (bin : Id Bin) (counted : StockKey → I64) (reason : Reason) (h : Balanced eng)
    {lines : List (Id Sku)} (hnodup : lines.Nodup) :
    ∃ eng', TakesOver eng bin counted reason (beforeNegative bin counted lines) eng' ∧
      (((∀ sku ∈ lines, 0 ≤ (counted ⟨bin, sku⟩).1) ∧ reconcileLines bin counted reason lines eng =
        (.ok (lines.filterMap (eng.adjustmentOf bin counted reason)), eng')) ∨
      ((∃ sku ∈ lines, (counted ⟨bin, sku⟩).1 < 0) ∧ ∃ e,
        reconcileLines bin counted reason lines eng = (.error e, eng'))) := by
  induction lines generalizing eng with
  | nil => exact ⟨eng, takesOver_nil, Or.inl ⟨List.forall_mem_nil _, rfl⟩⟩
  | cons sku lines ih =>
    obtain ⟨hnew, hnodup⟩ := List.nodup_cons.mp hnodup
    have hdelta := variance_eq_zero_iff h.floor counted ⟨bin, sku⟩
    by_cases hsku : (counted ⟨bin, sku⟩).1 = eng.onHand ⟨bin, sku⟩
    · have h0 : 0 ≤ (counted ⟨bin, sku⟩).1 := hsku ▸ (h.floor _).1
      rw [reconcileLines_skip (hdelta.mpr hsku), beforeNegative, List.takeWhile_cons_of_pos (by simpa using h0),
        List.filterMap_cons_none (by rw [adjustmentOf, if_pos hsku])]
      obtain ⟨eng', ht, ⟨hall, hr⟩ | ⟨⟨s, hs, hlt⟩, hr⟩⟩ := ih h hnodup
      · exact ⟨eng', ht.agree hsku, Or.inl ⟨List.forall_mem_cons.mpr ⟨h0, hall⟩, hr⟩⟩
      · exact ⟨eng', ht.agree hsku, Or.inr ⟨⟨s, List.mem_cons_of_mem _ hs, hlt⟩, hr⟩⟩
    · have hdiff := mt hdelta.mp hsku
      rcases eng.apply_variance counted reason ⟨bin, sku⟩ with ⟨hlt, e, he⟩ | ⟨h0, he⟩
      · rw [reconcileLines_refused hdiff he, beforeNegative, List.takeWhile_cons_of_neg (by simpa using hlt)]
        exact ⟨eng, takesOver_nil, Or.inr ⟨⟨sku, List.mem_cons_self, hlt⟩, e, rfl⟩⟩
      · have hmove : Edit wrapI64 eng
            (eng.move ⟨bin, sku⟩ (.adjustment (eng.variance counted ⟨bin, sku⟩) reason) (counted ⟨bin, sku⟩).1) := by
          rw [← eng.add_variance counted ⟨bin, sku⟩] at h0 ⊢
          exact .move _ _ _ rfl h0
        -- the other lines are read as they were
        have hrest : lines.filterMap ((eng.move ⟨bin, sku⟩ (.adjustment (eng.variance counted ⟨bin, sku⟩) reason)
            (counted ⟨bin, sku⟩).1).adjustmentOf bin counted reason) =
              lines.filterMap (eng.adjustmentOf bin counted reason) := by
          refine List.filterMap_congr fun s hs => ?_
          have hk : (⟨bin, s⟩ : StockKey) ≠ ⟨bin, sku⟩ := fun heq => hnew (by cases heq; exact hs)
          simp only [adjustmentOf, variance, onHand_move, if_neg hk]
        have hbefore : sku ∉ beforeNegative bin counted lines :=
          fun hmem => hnew ((List.takeWhile_sublist _).subset hmem)
        rw [reconcileLines_adjusted hdiff he, beforeNegative, List.takeWhile_cons_of_pos (by simpa using h0),
          List.filterMap_cons_some (by rw [adjustmentOf, if_neg hsku]), ← hrest]
        obtain ⟨eng', ht, ⟨hall, hr⟩ | ⟨⟨s, hs, hlt⟩, e, hr⟩⟩ := ih (balanced_edit h hmove) hnodup
        · refine ⟨eng', ht.adjust h.log hbefore hsku, Or.inl ⟨List.forall_mem_cons.mpr ⟨h0, hall⟩, ?_⟩⟩
          rw [hr]
          rfl
        · refine ⟨eng', ht.adjust h.log hbefore hsku, Or.inr ⟨⟨s, List.mem_cons_of_mem _ hs, hlt⟩, e, ?_⟩⟩
          rw [hr]
          rfl

/-- Lines that agree are left alone. -/
theorem reconcileLines_agree (h : Stocked wrapI64 eng) {lines : List (Id Sku)}
    (hall : ∀ sku ∈ lines, (counted ⟨bin, sku⟩).1 = eng.onHand ⟨bin, sku⟩) :
    reconcileLines bin counted reason lines eng = (.ok [], eng) := by
  induction lines with
  | nil => rfl
  | cons sku lines ih =>
    obtain ⟨hsku, hall⟩ := List.forall_mem_cons.mp hall
    have hz : wrapI64 ((counted ⟨bin, sku⟩).1 - eng.onHand ⟨bin, sku⟩) = 0 :=
      (variance_eq_zero_iff h counted ⟨bin, sku⟩).mpr hsku
    simp only [reconcileLines, if_pos hz]
    exact ih hall

end

/-! ## Counts among other calls -/

/-- A count that is reconciled without interruption.  The lines before the first negative count are taken over; if
there is none, the result has an adjustment for each line that differed, and counting the same again changes
nothing. -/
structure Reconciles (eng : InventoryEngine SHARDS) (task : CountTask) (counted : StockKey → I64) (reason : Reason) :
    Prop where
  takesOver : TakesOver eng task.bin counted reason (beforeNegative task.bin counted task.lines)
    (eng.reconcileCount task counted reason).2
  accepted : (∀ sku ∈ task.lines, 0 ≤ (counted ⟨task.bin, sku⟩).1) →
    (eng.reconcileCount task counted reason).1 =
        .ok (task.lines.filterMap (eng.adjustmentOf task.bin counted reason)) ∧
      ∀ again, (eng.reconcileCount task counted reason).2.reconcileCount task counted again =
        (.ok [], (eng.reconcileCount task counted reason).2)
  refused : (∃ sku ∈ task.lines, (counted ⟨task.bin, sku⟩).1 < 0) →
    ∃ e, (eng.reconcileCount task counted reason).1 = .error e

theorem reconciles_of_balanced {eng : InventoryEngine SHARDS} (h : Balanced eng) {task : CountTask}
    (hnodup : task.lines.Nodup) (counted : StockKey → I64) (reason : Reason) :
    Reconciles eng task counted reason := by
  obtain ⟨eng', ht, ⟨hall, hr⟩ | ⟨⟨sku, hs, hlt⟩, e, hr⟩⟩ :=
    reconcileLines_takesOver task.bin counted reason h hnodup
  · have hcall : eng.reconcileCount task counted reason = _ := hr
    refine ⟨by rw [hcall]; exact ht, fun _ => ⟨by rw [hcall], fun again => ?_⟩, ?_⟩
    · rw [hcall]
      have hbefore : beforeNegative task.bin counted task.lines = task.lines :=
        List.takeWhile_eq_self_iff.mpr fun sku hs => decide_eq_true (hall sku hs)
      have hfloor : FloorKept eng := fun key => ⟨(h.floor key).1, lt_of_wrapI64_eq (h.floor key).2⟩
      have hkept := floorKept_sections hfloor (eng.sections_reconcileLines task.bin counted reason task.lines)
      rw [hr] at hkept
      refine reconcileLines_agree (fun key => ?_) fun sku hs => ?_
      · obtain ⟨h0, h1⟩ := hkept key
        exact ⟨h0, wrapI64_of_lt (by omega) h1⟩
      · rw [ht.onHand, hbefore, if_pos ⟨rfl, hs⟩]
    · rintro ⟨sku, hs, hlt⟩
      exact absurd (hall sku hs) (not_le.mpr hlt)
  · have hcall : eng.reconcileCount task counted reason = _ := hr
    refine ⟨by rw [hcall]; exact ht, fun hall => absurd (hall sku hs) (not_le.mpr hlt), fun _ => ⟨e, by rw [hcall]⟩⟩

/-- What a task names, and what reconciling it later comes to. -/
structure CountsExactly (s : Machine.State (InventoryEngine SHARDS) Instr) (task : CountTask)
    (later : List (Machine.Label Unit Op Unit)) : Prop where
  lines : ∀ sku, sku ∈ task.lines ↔ s.core.onHand ⟨task.bin, sku⟩ ≠ 0
  nodup : task.lines.Nodup
  reconciles : ∀ counted reason, LabelledRun.AllStates (calls wrapI64 SHARDS).step
    (fun t => Reconciles t.core task counted reason) s later

/-- **Counts are exact**, in every state that interleaved calls reach, for a task made in any earlier one. -/
theorem count_exact (shardIndex : StockKey → Fin SHARDS) (order : Fin SHARDS → Arrangement (StockKey × Int))
    (bin : Id Bin) (labels later : List (Machine.Label Unit Op Unit)) :
    LabelledRun.AllStates (calls wrapI64 SHARDS).step
      (fun s => CountsExactly s (s.core.generateCountTask order bin) later) { core := new shardIndex } labels := by
  have hstep : ∀ s a t, Balanced s.core ∧ Homed s.core → (calls wrapI64 SHARDS).step s a = some t →
      Balanced t.core ∧ Homed t.core :=
    fun s a t hs ht => ⟨balanced_edits hs.1 (edits_step ht), homed_edits hs.2 (edits_step ht)⟩
  refine (LabelledRun.allStates_of_step _ hstep labels ⟨balanced_new shardIndex, homed_new shardIndex⟩).mono _ ?_
  intro s hs
  have hnodup := nodup_countTask order bin hs.2
  refine ⟨mem_countTask order bin hs.2, hnodup, fun counted reason => ?_⟩
  exact (LabelledRun.allStates_of_step _ hstep later hs).mono _ fun t ht =>
    reconciles_of_balanced ht.1 hnodup counted reason

/-! ## Counts in sections -/

/-- A nonnegative count and the movements since a quantity was read stay within `u64`: the sum is an `i64` quantity,
or it is refused. -/
theorem wrap_count {c q q' : Int} (hc : 0 ≤ c) (hc1 : c < 2 ^ 63) (hq : 0 ≤ q) (hq1 : q < 2 ^ 63) (hq' : 0 ≤ q')
    (hq1' : q' < 2 ^ 63) :
    (0 ≤ wrapI64 (q' + wrapI64 (c - q)) ↔ 0 ≤ c + (q' - q) ∧ c + (q' - q) < 2 ^ 63) ∧
      (0 ≤ wrapI64 (q' + wrapI64 (c - q)) → wrapI64 (q' + wrapI64 (c - q)) = c + (q' - q)) := by
  have hsum : wrapI64 (q' + wrapI64 (c - q)) = wrapI64 (c + (q' - q)) := by
    rw [wrapI64_add_wrapI64, show q' + (c - q) = c + (q' - q) by omega]
  rw [hsum]
  rcases lt_or_ge (c + (q' - q)) (2 ^ 63) with hlt | hge
  · rw [wrapI64_of_lt (by omega) hlt]
    exact ⟨⟨fun h => ⟨h, hlt⟩, And.left⟩, fun _ => rfl⟩
  · have hneg : wrapI64 (c + (q' - q)) < 0 := wrapI64_neg hge (by omega)
    exact ⟨⟨fun h => absurd h (not_le.mpr hneg), fun h => absurd h.2 (not_lt.mpr hge)⟩,
      fun h => absurd h (not_le.mpr hneg)⟩

/-- **A count keeps the movements that come between its sections.**  A call reads the quantity of a line whose count
is not negative and differs; the others go on; then it adjusts.  The quantity is then what was counted, plus what the
others have moved in between; if that is no quantity, the call is refused and changes nothing. -/
theorem count_keeps_movements (shardIndex : StockKey → Fin SHARDS) {before between : List (Machine.Label Unit Op Unit)}
    {s₁ t₁ s₂ t₂ : Machine.State (InventoryEngine SHARDS) Instr} {th : Nat} {bin : Id Bin} {sku : Id Sku}
    {counted : StockKey → I64} {reason : Reason} {todo : List (Id Sku)} {rest : List Instr}
    (hbefore : LabelledRun.exec (calls wrapI64 SHARDS).step { core := new shardIndex } before = some s₁)
    (hcount : s₁.threads[th]? = some (.countLine bin counted reason (sku :: todo) :: rest))
    (hread : (calls wrapI64 SHARDS).step s₁ (.run th ()) = some t₁)
    (hbetween : LabelledRun.exec (calls wrapI64 SHARDS).step t₁ between = some s₂)
    (hothers : ∀ a ∈ between, a ≠ .run th ()) (hadjust : (calls wrapI64 SHARDS).step s₂ (.run th ()) = some t₂)
    (h0 : 0 ≤ (counted ⟨bin, sku⟩).1) (hdiffers : (counted ⟨bin, sku⟩).1 ≠ s₁.core.onHand ⟨bin, sku⟩) :
    let q := (counted ⟨bin, sku⟩).1 + (s₂.core.onHand ⟨bin, sku⟩ - s₁.core.onHand ⟨bin, sku⟩)
    (0 ≤ q ∧ q < 2 ^ 63 ∧ t₂.core.onHand ⟨bin, sku⟩ = q ∧
        t₂.threads[th]? = some (.countLine bin counted reason todo :: rest)) ∨
      (¬ (0 ≤ q ∧ q < 2 ^ 63) ∧ t₂.core = s₂.core ∧ t₂.threads[th]? = some rest) := by
  intro q
  have hst₁ := stocked_exec hbefore
  obtain ⟨hq0, hqw⟩ := hst₁ ⟨bin, sku⟩
  have hq1 := lt_of_wrapI64_eq hqw
  -- the read
  obtain ⟨delta, hdelta⟩ : ∃ d, d = wrapI64 ((counted ⟨bin, sku⟩).1 - s₁.core.onHand ⟨bin, sku⟩) := ⟨_, rfl⟩
  have hne : delta ≠ 0 := by
    rw [hdelta]
    exact mt (variance_eq_zero_iff hst₁ counted ⟨bin, sku⟩).mp hdiffers
  have hexec : exec wrapI64 s₁.core (.countLine bin counted reason (sku :: todo)) =
      (s₁.core, [.adjust bin counted reason sku delta todo]) := by
    simp only [exec, ← hdelta, if_neg hne]
  rw [(calls wrapI64 SHARDS).step_run hcount (congrArg some hexec)] at hread
  obtain rfl := Option.some.inj hread
  -- the others
  have hth₁ : (s₁.threads.set th (.adjust bin counted reason sku delta todo :: rest))[th]? =
      some (.adjust bin counted reason sku delta todo :: rest) :=
    List.getElem?_set_self (List.getElem?_eq_some_iff.mp hcount).1
  have hth₂ := (calls wrapI64 SHARDS).threads_kept hbetween hth₁ fun a ha _ => hothers a ha
  have hrun : LabelledRun.exec (calls wrapI64 SHARDS).step { core := new shardIndex }
      (before ++ (.run th () :: between)) = some s₂ := by
    rw [LabelledRun.exec_append, hbefore, Option.bind_some, LabelledRun.exec,
      (calls wrapI64 SHARDS).step_run hcount (congrArg some hexec), Option.bind_some]
    exact hbetween
  obtain ⟨hp0, hpw⟩ := stocked_exec hrun ⟨bin, sku⟩
  have hp1 := lt_of_wrapI64_eq hpw
  obtain ⟨hiff, heq⟩ := wrap_count h0 (counted ⟨bin, sku⟩).2.2 hq0 hq1 hp0 hp1
  rw [← hdelta] at hiff heq
  -- the adjustment
  rcases s₂.core.appendWith_cases wrapI64 ⟨bin, sku⟩ (.adjustment (i64 delta) reason) delta with
    ⟨hf, e, he⟩ | ⟨hf, n, he⟩
  · have hexec₂ : exec wrapI64 s₂.core (.adjust bin counted reason sku delta todo) = (s₂.core, []) := by
      simp only [exec, he, continueWith]
    rw [(calls wrapI64 SHARDS).step_run hth₂ (congrArg some hexec₂)] at hadjust
    obtain rfl := Option.some.inj hadjust
    exact Or.inr ⟨mt hiff.mpr hf, rfl, List.getElem?_set_self (List.getElem?_eq_some_iff.mp hth₂).1⟩
  · have hexec₂ : exec wrapI64 s₂.core (.adjust bin counted reason sku delta todo) =
        (s₂.core.moveBy wrapI64 ⟨bin, sku⟩ (.adjustment (i64 delta) reason) delta,
          [.countLine bin counted reason todo]) := by
      simp only [exec, he, continueWith]
    rw [(calls wrapI64 SHARDS).step_run hth₂ (congrArg some hexec₂)] at hadjust
    obtain rfl := Option.some.inj hadjust
    refine Or.inl ⟨(hiff.mp hf).1, (hiff.mp hf).2, ?_, List.getElem?_set_self (List.getElem?_eq_some_iff.mp hth₂).1⟩
    show (s₂.core.moveBy wrapI64 ⟨bin, sku⟩ (.adjustment (i64 delta) reason) delta).onHand ⟨bin, sku⟩ = q
    rw [moveBy, onHand_move, if_pos rfl]
    exact heq hf

/-- Ten units are counted as twelve while three are picked: nine are left. -/
theorem twelve_counted_three_picked :
    let task : Instr := .countLine ⟨0⟩ (fun _ => i64 12) .cycleCount [⟨0⟩]
    let nineLeft := (tenReceived.move ⟨⟨0⟩, ⟨0⟩⟩ (.picked 3) 7).move ⟨⟨0⟩, ⟨0⟩⟩ (.adjustment (i64 2) .cycleCount) 9
    LabelledRun.exec (calls wrapI64 64).step { core := tenReceived, threads := [[], [task]] }
        [.run 1 (), .spawn (.apply ⟨⟨0⟩, ⟨0⟩⟩ (.picked 3)), .run 2 (), .run 1 ()] =
          some { core := nineLeft, threads := [[], [.countLine ⟨0⟩ (fun _ => i64 12) .cycleCount []], []] } ∧
      nineLeft.onHand ⟨⟨0⟩, ⟨0⟩⟩ = 9 := by
  intro task nineLeft
  have hread : (calls wrapI64 64).step { core := tenReceived, threads := [[], [task]] } (.run 1 ()) =
      some { core := tenReceived, threads := [[], [.adjust ⟨0⟩ (fun _ => i64 12) .cycleCount ⟨0⟩ 2 []]] } := rfl
  have hbetween : LabelledRun.exec (calls wrapI64 64).step
      { core := tenReceived, threads := [[], [.adjust ⟨0⟩ (fun _ => i64 12) .cycleCount ⟨0⟩ 2 []]] }
      [.spawn (.apply ⟨⟨0⟩, ⟨0⟩⟩ (.picked 3)), .run 2 ()] =
        some { core := tenReceived.move ⟨⟨0⟩, ⟨0⟩⟩ (.picked 3) 7
               threads := [[], [.adjust ⟨0⟩ (fun _ => i64 12) .cycleCount ⟨0⟩ 2 []], []] } := rfl
  have hadjust : (calls wrapI64 64).step
      { core := tenReceived.move ⟨⟨0⟩, ⟨0⟩⟩ (.picked 3) 7
        threads := [[], [.adjust ⟨0⟩ (fun _ => i64 12) .cycleCount ⟨0⟩ 2 []], []] } (.run 1 ()) =
      some { core := nineLeft, threads := [[], [.countLine ⟨0⟩ (fun _ => i64 12) .cycleCount []], []] } := rfl
  have h := count_keeps_movements (fun key => mod64 key.sku.uuid)
    (show LabelledRun.exec (calls wrapI64 64).step { core := new fun key => mod64 key.sku.uuid }
      [.spawn (.apply ⟨⟨0⟩, ⟨0⟩⟩ (.received 10)), .run 0 (),
        .spawn (.reconcileCount { bin := ⟨0⟩, lines := [⟨0⟩] } (fun _ => i64 12) .cycleCount)] = some _ from rfl)
    rfl hread hbetween (by simp) hadjust (by decide) (by decide +kernel)
  rcases h with ⟨-, -, h9, -⟩ | ⟨hn, -⟩
  · refine ⟨?_, h9⟩
    rw [LabelledRun.exec, hread, Option.bind_some]
    refine (LabelledRun.exec_append (calls wrapI64 64).step _ [.spawn (.apply ⟨⟨0⟩, ⟨0⟩⟩ (.picked 3)), .run 2 ()]
      [.run 1 ()]).trans ?_
    rw [hbetween, Option.bind_some, LabelledRun.exec, hadjust]
    rfl
  · exact absurd (by decide +kernel) hn

end InventoryEngine

end TptErp.Wms
