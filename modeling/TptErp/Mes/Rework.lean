import TptErp.Mes.Wip

/-!
# The rework loop

`run_rework_loop` produces a unit, inspects it and, on a `Rework` disposition, re-enters production
and inspects again.  `findings_for` gives the findings of the n-th inspection.  The loop of the source
has no bound of its own; here it has fuel, one unit for each inspection:

    item.state = raw → ∃ k ≤ (MAX_REWORK_CYCLES - rework_count) + 1, with fuel k or more the loop ends,
      item.defects = the defects before ++ the findings of the inspections 0 .. k - 1   (run_rework_loop_ends)

It ends by a disposition or with the budget used up, never by an illegal transition.
-/

namespace TptErp

/-! ## Algorithm -/

/-- The loop, from the `n`-th inspection on (`none`: the fuel ran out first). -/
def reworkLoop (findings_for : Nat → List DefectFinding) :
    Nat → Nat → WipItem → Option (WipItem × Except ReworkError Disposition)
  | 0, _, _ => none
  | fuel + 1, n, item =>
    match inspectUnit item (findings_for n) with
    | (item, .error e) => some (item, .error e)
    | (item, .ok .rework) =>
      match reinspect item with
      | (item, .error e) => some (item, .error e)
      | (item, .ok ()) => reworkLoop findings_for fuel (n + 1) item
    | (item, .ok other) => some (item, .ok other)

/-- `run_rework_loop`, with fuel for so many inspections. -/
def runReworkLoop (fuel : Nat) (item : WipItem) (findings_for : Nat → List DefectFinding) :
    Option (WipItem × Except ReworkError Disposition) :=
  match produce item with
  | (item, .error e) => some (item, .error e)
  | (item, .ok ()) => reworkLoop findings_for fuel 0 item

/-! ## One round -/

theorem produce_raw (item : WipItem) (h : item.state = .raw) :
    produce item = ({ item with state := .inspected }, .ok ()) := by
  unfold produce
  rw [orReturn_advance, h]
  rfl

theorem reinspect_reworking (item : WipItem) (h : item.state = .reworking) :
    reinspect item = ({ item with state := .inspected }, .ok ()) := by
  unfold reinspect WipItem.completeRework
  rw [orReturn_advance, h]
  rfl

/-- An inspected unit: disposed of, sent to rework, or refused for want of budget. -/
theorem inspectUnit_inspected (item : WipItem) (findings : List DefectFinding) (h : item.state = .inspected) :
    let recorded := { item with defects := item.defects ++ findings }
    inspectUnit item findings = ({ recorded with state := .scrapped }, .ok .scrap) ∨
    inspectUnit item findings = ({ recorded with state := .finished }, .ok .useAsIs) ∨
    (MAX_REWORK_CYCLES ≤ item.rework_count ∧
      inspectUnit item findings = (recorded, .error (.limitExceeded MAX_REWORK_CYCLES))) ∨
    (item.rework_count < MAX_REWORK_CYCLES ∧
      inspectUnit item findings =
        ({ recorded with state := .reworking, rework_count := item.rework_count + 1 }, .ok .rework)) := by
  intro recorded
  have hs : recorded.state = .inspected := h
  rw [inspectUnit_eq]
  cases recommendedDisposition findings with
  | scrap => exact .inl (if_pos (WipState.canTransition_scrapped.mpr hs))
  | useAsIs => exact .inr (.inl (if_pos (WipState.canTransition_finished.mpr hs)))
  | rework =>
    rcases recorded.enterRework_cases with ⟨hmax, he⟩ | ⟨hlt, -, he⟩ | ⟨-, hne, -⟩
    · refine .inr (.inr (.inl ⟨hmax, ?_⟩))
      show orReturn recorded recorded.enterRework _ = _
      rw [he]
      rfl
    · refine .inr (.inr (.inr ⟨hlt, ?_⟩))
      show orReturn recorded recorded.enterRework _ = _
      rw [he]
      rfl
    · exact absurd hs hne

/-! ## The loop -/

/-- How the loop may end for a unit that has consumed `c` cycles. -/
def Disposed (c : Nat) (item : WipItem) (r : Except ReworkError Disposition) : Prop :=
  (r = .ok .useAsIs ∧ item.state = .finished) ∨
  (r = .ok .scrap ∧ item.state = .scrapped) ∨
  (r = .error (.limitExceeded MAX_REWORK_CYCLES) ∧ item.state = .inspected ∧
    item.rework_count = max c MAX_REWORK_CYCLES)

/-- The loop ends with this result after exactly `k` inspections. -/
def EndsAfter (findings_for : Nat → List DefectFinding) (n : Nat) (item : WipItem) (k : Nat) (item' : WipItem)
    (r : Except ReworkError Disposition) : Prop :=
  ∀ fuel, reworkLoop findings_for fuel n item = if k ≤ fuel then some (item', r) else none

theorem endsAfter_one {findings_for : Nat → List DefectFinding} {n : Nat} {item item' : WipItem}
    {r : Except ReworkError Disposition} (he : inspectUnit item (findings_for n) = (item', r)) (hr : r ≠ .ok .rework) :
    EndsAfter findings_for n item 1 item' r := by
  intro fuel
  cases fuel with
  | zero => rfl
  | succ fuel =>
    rw [if_pos (by omega), reworkLoop, he]
    match r, hr with
    | .error e, _ => rfl
    | .ok .scrap, _ => rfl
    | .ok .useAsIs, _ => rfl

theorem endsAfter_succ {findings_for : Nat → List DefectFinding} {n k : Nat} {item item₁ item₂ item' : WipItem}
    {r : Except ReworkError Disposition} (he : inspectUnit item (findings_for n) = (item₁, .ok .rework))
    (hre : reinspect item₁ = (item₂, .ok ())) (hk : EndsAfter findings_for (n + 1) item₂ k item' r) :
    EndsAfter findings_for n item (k + 1) item' r := by
  intro fuel
  cases fuel with
  | zero => rw [if_neg (by omega), reworkLoop]
  | succ fuel =>
    rw [reworkLoop, he]
    simp only [hre]
    rw [hk fuel]
    simp only [Nat.add_le_add_iff_right]

/-- The cycles left in the budget bound the number of inspections. -/
theorem reworkLoop_ends (findings_for : Nat → List DefectFinding) (n : Nat) (item : WipItem)
    (h : item.state = .inspected) :
    ∃ k item' r, 1 ≤ k ∧ k ≤ (MAX_REWORK_CYCLES - item.rework_count) + 1 ∧
      EndsAfter findings_for n item k item' r ∧
      item'.defects = item.defects ++ (List.range k).flatMap (fun i => findings_for (n + i)) ∧
      Disposed item.rework_count item' r := by
  have hone : (List.range 1).flatMap (fun i => findings_for (n + i)) = findings_for n := by
    simp [List.range_succ]
  rcases inspectUnit_inspected item (findings_for n) h with he | he | ⟨hmax, he⟩ | ⟨hlt, he⟩
  · exact ⟨1, _, _, by omega, by omega, endsAfter_one he (by decide), by rw [hone], .inr (.inl ⟨rfl, rfl⟩)⟩
  · exact ⟨1, _, _, by omega, by omega, endsAfter_one he (by decide), by rw [hone], .inl ⟨rfl, rfl⟩⟩
  · exact ⟨1, _, _, by omega, by omega, endsAfter_one he (by decide), by rw [hone],
      .inr (.inr ⟨rfl, h, (Nat.max_eq_left hmax).symm⟩)⟩
  · -- one more round, with a cycle less in the budget
    have hre := reinspect_reworking { item with
      state := .reworking, rework_count := item.rework_count + 1, defects := item.defects ++ findings_for n } rfl
    obtain ⟨k, item', r, -, hk, hends, hdef, hdisp⟩ := reworkLoop_ends findings_for (n + 1)
      { item with
        state := .inspected, rework_count := item.rework_count + 1, defects := item.defects ++ findings_for n } rfl
    refine ⟨k + 1, item', r, by omega, ?_, endsAfter_succ he hre hends, ?_, ?_⟩
    · simp only at hk
      omega
    · rw [hdef, List.range_succ_eq_map, List.flatMap_cons, List.flatMap_map, List.append_assoc]
      simp only [Nat.add_zero, Nat.succ_eq_add_one, Nat.add_assoc, Nat.add_comm 1]
    · have hmax : max (item.rework_count + 1) MAX_REWORK_CYCLES = max item.rework_count MAX_REWORK_CYCLES := by omega
      unfold Disposed at hdisp ⊢
      rwa [hmax] at hdisp
termination_by MAX_REWORK_CYCLES - item.rework_count

/-- **The rework loop ends in a consistent disposition**, for a raw unit and whatever the inspections
find: after as many inspections as there are cycles left and one more, at most. -/
theorem run_rework_loop_ends (findings_for : Nat → List DefectFinding) (item : WipItem) (h : item.state = .raw) :
    ∃ k item' r, 1 ≤ k ∧ k ≤ (MAX_REWORK_CYCLES - item.rework_count) + 1 ∧
      (∀ fuel, runReworkLoop fuel item findings_for = if k ≤ fuel then some (item', r) else none) ∧
      item'.defects = item.defects ++ (List.range k).flatMap findings_for ∧
      ((r = .ok .useAsIs ∧ item'.state = .finished) ∨
        (r = .ok .scrap ∧ item'.state = .scrapped) ∨
        (r = .error (.limitExceeded MAX_REWORK_CYCLES) ∧ item'.state = .inspected ∧
          item'.rework_count = max item.rework_count MAX_REWORK_CYCLES)) := by
  obtain ⟨k, item', r, h1, hk, hends, hdef, hdisp⟩ :=
    reworkLoop_ends findings_for 0 { item with state := .inspected } rfl
  refine ⟨k, item', r, h1, hk, ?_, ?_, hdisp⟩
  · intro fuel
    unfold runReworkLoop
    rw [produce_raw item h]
    exact hends fuel
  · simpa only [Nat.zero_add] using hdef

/-- A unit whose defect is found again at every inspection. -/
def pitted : DefectFinding :=
  { code := "SUR-002", category := .surface, description := "Corrosion pitting", default_severity := .major,
    default_disposition := .rework : DefectCode }.finding ⟨0⟩ none "persistent"

theorem run_rework_loop_ends_pitted :
    (WipItem.new ⟨0⟩).state = .raw ∧ ∃ item', runReworkLoop 4 (.new ⟨0⟩) (fun _ => [pitted]) =
      some (item', .error (.limitExceeded 3)) ∧ item'.state = .inspected ∧ item'.rework_count = 3 ∧
        item'.defects.length = 4 := by
  refine ⟨rfl, ?_⟩
  obtain ⟨k, item', r, h1, hk, hends, hdef, hdisp⟩ := run_rework_loop_ends (fun _ => [pitted]) (.new ⟨0⟩) rfl
  have hk : k ≤ 4 := hk
  have hrun := hends 4
  rw [if_pos hk] at hrun
  have hrun' : runReworkLoop 4 (.new ⟨0⟩) (fun _ => [pitted]) =
      some ({ WipItem.new ⟨0⟩ with state := .inspected, rework_count := 3, defects := [pitted, pitted, pitted, pitted] },
        .error (.limitExceeded 3)) := by rfl
  rw [hrun'] at hrun
  cases hrun
  exact ⟨_, hrun', rfl, rfl, rfl⟩

/-! ## A rejected inspection -/

/-- The findings call for rework: a major one, and no critical one. -/
def NeedsRework (findings : List DefectFinding) : Prop :=
  (∃ f ∈ findings, f.severity = .major) ∧ ∀ f ∈ findings, f.severity ≠ .critical

/-- When an inspection is refused by the state machine, the findings stay recorded. -/
theorem inspectUnit_illegal {item item' : WipItem} {findings : List DefectFinding} {e : WipStateTransitionError}
    (h : inspectUnit item findings = (item', .error (.illegalTransition e))) :
    item' = { item with defects := item.defects ++ findings } := by
  rw [inspectUnit_eq] at h
  cases hd : recommendedDisposition findings with
  | scrap =>
    simp only [hd] at h
    split at h
    · cases h
    · cases h
      rfl
  | useAsIs =>
    simp only [hd] at h
    split at h
    · cases h
    · cases h
      rfl
  | rework =>
    simp only [hd] at h
    rcases WipItem.enterRework_cases { item with defects := item.defects ++ findings } with
      ⟨-, he⟩ | ⟨-, -, he⟩ | ⟨-, -, he⟩
    · rw [he] at h
      cases h
    · rw [he] at h
      cases h
    · rw [he] at h
      cases h
      rfl

/-- When it is. -/
theorem inspectUnit_illegal_iff (item : WipItem) (findings : List DefectFinding) :
    (∃ item' e, inspectUnit item findings = (item', .error (.illegalTransition e))) ↔
      item.state ≠ .inspected ∧ ¬ (NeedsRework findings ∧ MAX_REWORK_CYCLES ≤ item.rework_count) := by
  unfold NeedsRework
  rw [← recommendedDisposition_eq_rework, inspectUnit_eq]
  cases hd : recommendedDisposition findings with
  | scrap =>
    simp only [WipState.canTransition_scrapped]
    by_cases hs : item.state = .inspected
    · simp [hs]
    · simp [hs]
  | useAsIs =>
    simp only [WipState.canTransition_finished]
    by_cases hs : item.state = .inspected
    · simp [hs]
    · simp [hs]
  | rework =>
    simp only [true_and, Nat.not_le]
    rcases WipItem.enterRework_cases { item with defects := item.defects ++ findings } with
      ⟨hmax, he⟩ | ⟨hlt, hs, he⟩ | ⟨hlt, hs, he⟩
    · rw [he]
      refine iff_of_false (by simp [orReturn]) ?_
      simp only at hmax
      omega
    · rw [he]
      exact iff_of_false (by simp [orReturn]) fun h => h.1 hs
    · rw [he]
      exact iff_of_true ⟨_, _, rfl⟩ ⟨hs, hlt⟩

/-- **A rejected inspection** leaves the unit as it was exactly when there was nothing to record, or
the inspection is not one that the state machine rejects. -/
theorem inspectUnit_untouched_iff (item : WipItem) (findings : List DefectFinding) :
    (∀ item' e, inspectUnit item findings = (item', .error (.illegalTransition e)) → item' = item) ↔
      findings = [] ∨ item.state = .inspected ∨
        (((∃ f ∈ findings, f.severity = .major) ∧ ∀ f ∈ findings, f.severity ≠ .critical) ∧
          MAX_REWORK_CYCLES ≤ item.rework_count) := by
  have hiff := inspectUnit_illegal_iff item findings
  unfold NeedsRework at hiff
  constructor
  · intro h
    by_cases hill : ∃ item' e, inspectUnit item findings = (item', .error (.illegalTransition e))
    · obtain ⟨item', e, he⟩ := hill
      have heq := h item' e he
      rw [inspectUnit_illegal he] at heq
      have hdef : item.defects ++ findings = item.defects := congrArg WipItem.defects heq
      exact .inl (List.append_right_eq_self.mp hdef)
    · rw [hiff] at hill
      by_cases hs : item.state = .inspected
      · exact .inr (.inl hs)
      · exact .inr (.inr (Decidable.of_not_not fun hn => hill ⟨hs, hn⟩))
  · intro h item' e he
    have hill := hiff.mp ⟨item', e, he⟩
    rcases h with rfl | hs | hn
    · rw [inspectUnit_illegal he, List.append_nil]
    · exact absurd hs hill.1
    · exact absurd hn hill.2

/-- A raw unit with one finding: refused, and the finding stays. -/
theorem inspectUnit_touched :
    ¬ ∀ (item : WipItem) (findings : List DefectFinding) item' e,
      inspectUnit item findings = (item', .error (.illegalTransition e)) → item' = item := by
  intro h
  have hrun : inspectUnit (.new ⟨0⟩) [pitted] = ({ WipItem.new ⟨0⟩ with defects := [pitted] },
      .error (.illegalTransition { «from» := .raw, «to» := .reworking })) := rfl
  exact absurd (congrArg WipItem.defects (h _ _ _ _ hrun)) (List.cons_ne_nil _ _)

end TptErp
