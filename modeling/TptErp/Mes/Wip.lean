import TptErp.Mes.Defects
import TptErp.Lib.Run

/-!
# Work in process

The shop-floor state machine and the routing of inspected units into rework.  A method of
`WipItem` that fails leaves the item as it was; `produce`, `reinspect` and `inspect_unit` go on from
method to method and return at the first error, with what was done before it.

`enter_rework` consumes a cycle of the budget, `advance(Reworking)` does not.  Over any run of calls
on a new item:

    entered = rework_count ∧ rework_count ≤ MAX_REWORK_CYCLES throughout  ↔
      no call is an advance(Reworking) of an inspected unit               (rework_budget_iff)
-/

namespace TptErp

/-! ## States -/

inductive Wip

def MAX_REWORK_CYCLES : Nat := 3

inductive WipState
  | raw
  | machined
  | welded
  | assembled
  | inspected
  | reworking
  | quarantined
  | finished
  | scrapped
deriving DecidableEq

structure WipStateTransitionError where
  «from» : WipState
  «to» : WipState
deriving DecidableEq

namespace WipState

def canTransition : WipState → WipState → Bool
  | raw, machined
  | raw, welded
  | machined, assembled
  | welded, assembled
  | assembled, inspected
  | inspected, finished
  | inspected, scrapped
  | inspected, quarantined
  | inspected, reworking
  | reworking, assembled
  | reworking, quarantined => true
  | _, _ => false

def transition (self «to» : WipState) : Except WipStateTransitionError WipState :=
  if self.canTransition «to» then .ok «to» else .error { «from» := self, «to» }

theorem canTransition_reworking {s : WipState} : s.canTransition reworking = true ↔ s = inspected := by
  cases s <;> simp [canTransition]

theorem canTransition_finished {s : WipState} : s.canTransition finished = true ↔ s = inspected := by
  cases s <;> simp [canTransition]

theorem canTransition_scrapped {s : WipState} : s.canTransition scrapped = true ↔ s = inspected := by
  cases s <;> simp [canTransition]

end WipState

inductive ReworkError
  | limitExceeded (max : Nat)
  | illegalTransition (e : WipStateTransitionError)
deriving DecidableEq

/-! ## The item -/

structure WipItem where
  id : Id Wip
  state : WipState
  /-- Number of times this unit has entered the `Reworking` state. -/
  rework_count : Nat
  /-- Defect findings recorded against this unit across all inspections. -/
  defects : List DefectFinding
deriving DecidableEq

namespace WipItem

def new (id : Id Wip) : WipItem := { id, state := .raw, rework_count := 0, defects := [] }

/-- `self.state = self.state.transition(to)?`. -/
def advance (self : WipItem) («to» : WipState) : Except WipStateTransitionError WipItem :=
  (self.state.transition «to»).map fun state => { self with state }

def recordDefect (self : WipItem) (finding : DefectFinding) : WipItem :=
  { self with defects := self.defects ++ [finding] }

/-- Route a failed inspection into rework, consuming one rework cycle. -/
def enterRework (self : WipItem) : Except ReworkError WipItem :=
  if MAX_REWORK_CYCLES ≤ self.rework_count then .error (.limitExceeded MAX_REWORK_CYCLES)
  else
    match self.state.transition .reworking with
    | .error e => .error (.illegalTransition e)
    | .ok state => .ok { self with state, rework_count := self.rework_count + 1 }

def completeRework (self : WipItem) : Except WipStateTransitionError WipItem := self.advance .assembled

def finish (self : WipItem) : Except WipStateTransitionError WipItem := self.advance .finished

def scrap (self : WipItem) : Except WipStateTransitionError WipItem := self.advance .scrapped

def quarantine (self : WipItem) : Except WipStateTransitionError WipItem := self.advance .quarantined

def isTerminal (self : WipItem) : Bool :=
  match self.state with
  | .finished | .scrapped | .quarantined => true
  | _ => false

/-- What an accepted transition does. -/
theorem advance_cases (self : WipItem) («to» : WipState) :
    (self.state.canTransition «to» = true ∧ self.advance «to» = .ok { self with state := «to» }) ∨
      (self.state.canTransition «to» = false ∧
        self.advance «to» = .error { «from» := self.state, «to» }) := by
  unfold advance WipState.transition
  cases h : self.state.canTransition «to» with
  | true => exact .inl ⟨rfl, rfl⟩
  | false => exact .inr ⟨rfl, rfl⟩

/-- What `enter_rework` does. -/
theorem enterRework_cases (self : WipItem) :
    (MAX_REWORK_CYCLES ≤ self.rework_count ∧ self.enterRework = .error (.limitExceeded MAX_REWORK_CYCLES)) ∨
    (self.rework_count < MAX_REWORK_CYCLES ∧ self.state = .inspected ∧
      self.enterRework = .ok { self with state := .reworking, rework_count := self.rework_count + 1 }) ∨
    (self.rework_count < MAX_REWORK_CYCLES ∧ self.state ≠ .inspected ∧
      self.enterRework = .error (.illegalTransition { «from» := self.state, «to» := .reworking })) := by
  unfold enterRework WipState.transition
  by_cases hmax : MAX_REWORK_CYCLES ≤ self.rework_count
  · rw [if_pos hmax]
    exact .inl ⟨hmax, rfl⟩
  · rw [if_neg hmax]
    by_cases hs : self.state = .inspected
    · rw [if_pos (WipState.canTransition_reworking.mpr hs)]
      exact .inr (.inl ⟨by omega, hs, rfl⟩)
    · rw [if_neg fun h => hs (WipState.canTransition_reworking.mp h)]
      exact .inr (.inr ⟨by omega, hs, rfl⟩)

end WipItem

/-! ## Rework orchestration -/

/-- The operator `?` after a method of the item: go on with the item it leaves, or return its error,
the item being as it was. -/
def orReturn {α : Type} (item : WipItem) (r : Except ReworkError WipItem)
    (k : WipItem → WipItem × Except ReworkError α) : WipItem × Except ReworkError α :=
  match r with
  | .ok item => k item
  | .error e => (item, .error e)

/-- `map_err(ReworkError::IllegalTransition)`. -/
def mapErr (r : Except WipStateTransitionError WipItem) : Except ReworkError WipItem := r.mapError .illegalTransition

/-- Drive a unit through the initial production path to its first inspection. -/
def produce (item : WipItem) : WipItem × Except ReworkError Unit :=
  orReturn item (mapErr (item.advance .machined)) fun item =>
    orReturn item (mapErr (item.advance .assembled)) fun item =>
      orReturn item (mapErr (item.advance .inspected)) fun item => (item, .ok ())

/-- After a rework cycle, re-enter production and re-inspect. -/
def reinspect (item : WipItem) : WipItem × Except ReworkError Unit :=
  orReturn item (mapErr item.completeRework) fun item =>
    orReturn item (mapErr (item.advance .inspected)) fun item => (item, .ok ())

/-- Inspect a unit: record the findings, then route it by the worst severity. -/
def inspectUnit (item : WipItem) (findings : List DefectFinding) : WipItem × Except ReworkError Disposition :=
  let disposition := recommendedDisposition findings
  let item := findings.foldl WipItem.recordDefect item
  match disposition with
  | .scrap => orReturn item (mapErr item.scrap) fun item => (item, .ok disposition)
  | .useAsIs => orReturn item (mapErr item.finish) fun item => (item, .ok disposition)
  | .rework => orReturn item item.enterRework fun item => (item, .ok disposition)

theorem foldl_recordDefect (findings : List DefectFinding) (item : WipItem) :
    findings.foldl WipItem.recordDefect item = { item with defects := item.defects ++ findings } := by
  induction findings generalizing item with
  | nil => simp
  | cons f fs ih =>
    rw [List.foldl_cons, ih]
    simp [WipItem.recordDefect]

/-- One accepted or refused transition, as the orchestration takes it. -/
theorem orReturn_advance {α : Type} (item : WipItem) («to» : WipState) (k : WipItem → WipItem × Except ReworkError α) :
    orReturn item (mapErr (item.advance «to»)) k =
      if item.state.canTransition «to» then k { item with state := «to» }
      else (item, .error (.illegalTransition { «from» := item.state, «to» })) := by
  rcases item.advance_cases «to» with ⟨h, ha⟩ | ⟨h, ha⟩
  · rw [ha, if_pos h]
    rfl
  · rw [ha, if_neg (by rw [h]; decide)]
    rfl

/-- What an inspection does. -/
theorem inspectUnit_eq (item : WipItem) (findings : List DefectFinding) :
    inspectUnit item findings =
      let item := { item with defects := item.defects ++ findings }
      match recommendedDisposition findings with
      | .scrap =>
        if item.state.canTransition .scrapped then ({ item with state := .scrapped }, .ok .scrap)
        else (item, .error (.illegalTransition { «from» := item.state, «to» := .scrapped }))
      | .useAsIs =>
        if item.state.canTransition .finished then ({ item with state := .finished }, .ok .useAsIs)
        else (item, .error (.illegalTransition { «from» := item.state, «to» := .finished }))
      | .rework => orReturn item item.enterRework fun item => (item, .ok .rework) := by
  unfold inspectUnit
  rw [foldl_recordDefect]
  cases recommendedDisposition findings with
  | scrap => exact orReturn_advance _ _ _
  | useAsIs => exact orReturn_advance _ _ _
  | rework => rfl

/-! ## Runs of calls -/

namespace WipItem

inductive Call
  | advance («to» : WipState)
  | recordDefect (finding : DefectFinding)
  | enterRework
  | completeRework
  | finish
  | scrap
  | quarantine
  | inspectUnit (findings : List DefectFinding)
  | reinspect
  | produce
deriving DecidableEq

/-- The item after a method: unchanged when it fails. -/
def after {ε : Type} (item : WipItem) : Except ε WipItem → WipItem
  | .ok item => item
  | .error _ => item

/-- The item after a call. -/
def call (item : WipItem) : Call → WipItem
  | .advance «to» => item.after (item.advance «to»)
  | .recordDefect finding => item.recordDefect finding
  | .enterRework => item.after item.enterRework
  | .completeRework => item.after item.completeRework
  | .finish => item.after item.finish
  | .scrap => item.after item.scrap
  | .quarantine => item.after item.quarantine
  | .inspectUnit findings => (TptErp.inspectUnit item findings).1
  | .reinspect => (TptErp.reinspect item).1
  | .produce => (TptErp.produce item).1

/-- The item and how often it has entered `Reworking`. -/
structure Watched where
  item : WipItem
  entered : Nat

/-- A call enters `Reworking` when it ends there and did not start there: no call passes through
`Reworking` on its way to another state. -/
def step (w : Watched) (c : Call) : Option Watched :=
  let item := w.item.call c
  let enters := item.state = .reworking ∧ w.item.state ≠ .reworking
  some { item, entered := if enters then w.entered + 1 else w.entered }

/-- The budget is kept: every entry is counted, and there are not too many. -/
def Watched.InBudget (w : Watched) : Prop := w.entered = w.item.rework_count ∧ w.entered ≤ MAX_REWORK_CYCLES

instance (w : Watched) : Decidable w.InBudget := by unfold Watched.InBudget; infer_instance

/-- The call that enters rework past the counter. -/
def Bypasses (w : Watched) (c : Call) : Prop := c = .advance .reworking ∧ w.item.state = .inspected

instance (w : Watched) (c : Call) : Decidable (Bypasses w c) := by unfold Bypasses; infer_instance

/-- The effect of a call on the state and the counter. -/
inductive Effect (item : WipItem) : WipItem → Prop
  /-- A cycle of the budget is consumed. -/
  | counted (item' : WipItem) (inspected : item.state = .inspected) (budget : item.rework_count < MAX_REWORK_CYCLES)
      (entered : item'.state = .reworking) (count : item'.rework_count = item.rework_count + 1) : Effect item item'
  /-- `Reworking` is not entered. -/
  | other (item' : WipItem) (stays : item'.state = .reworking → item.state = .reworking)
      (count : item'.rework_count = item.rework_count) : Effect item item'

theorem Effect.refl (item : WipItem) : Effect item item := .other item (fun h => h) rfl

theorem Effect.elsewhere {item item' : WipItem} (hs : item'.state ≠ .reworking)
    (hc : item'.rework_count = item.rework_count) : Effect item item' :=
  .other item' (fun h => absurd h hs) hc

theorem effect_advance (item : WipItem) {«to» : WipState} (h : «to» ≠ .reworking) :
    Effect item (item.after (item.advance «to»)) := by
  rcases item.advance_cases «to» with ⟨-, ha⟩ | ⟨-, ha⟩
  · rw [ha]
    exact .elsewhere h rfl
  · rw [ha]
    exact .refl item

theorem effect_enterRework (item : WipItem) : Effect item (item.after item.enterRework) := by
  rcases item.enterRework_cases with ⟨-, he⟩ | ⟨hlt, hs, he⟩ | ⟨-, -, he⟩
  · rw [he]
    exact .refl item
  · rw [he]
    exact .counted _ hs hlt rfl rfl
  · rw [he]
    exact .refl item

theorem orReturn_effect {α : Type} {item₀ item : WipItem} {«to» : WipState}
    {k : WipItem → WipItem × Except ReworkError α} (hitem : Effect item₀ item)
    (hk : Effect item₀ (k { item with state := «to» }).1) :
    Effect item₀ (orReturn item (mapErr (item.advance «to»)) k).1 := by
  rw [orReturn_advance]
  split
  · exact hk
  · exact hitem

theorem effect_produce (item : WipItem) : Effect item (produce item).1 := by
  refine orReturn_effect (.refl item) ?_
  refine orReturn_effect (.elsewhere ?_ rfl) ?_
  · exact WipState.noConfusion
  refine orReturn_effect (.elsewhere ?_ rfl) (.elsewhere ?_ rfl)
  · exact WipState.noConfusion
  · exact WipState.noConfusion

theorem effect_reinspect (item : WipItem) : Effect item (reinspect item).1 := by
  refine orReturn_effect (.refl item) ?_
  refine orReturn_effect (.elsewhere ?_ rfl) (.elsewhere ?_ rfl)
  · exact WipState.noConfusion
  · exact WipState.noConfusion

theorem effect_inspectUnit (item : WipItem) (findings : List DefectFinding) :
    Effect item (inspectUnit item findings).1 := by
  rw [inspectUnit_eq]
  have hrec : Effect item { item with defects := item.defects ++ findings } := .other _ (fun h => h) rfl
  cases recommendedDisposition findings with
  | scrap =>
    dsimp only
    split
    · exact .elsewhere WipState.noConfusion rfl
    · exact hrec
  | useAsIs =>
    dsimp only
    split
    · exact .elsewhere WipState.noConfusion rfl
    · exact hrec
  | rework =>
    dsimp only
    rcases enterRework_cases { item with defects := item.defects ++ findings } with ⟨-, he⟩ | ⟨hlt, hs, he⟩ | ⟨-, -, he⟩
    · rw [he]
      exact hrec
    · rw [he]
      exact .counted _ hs hlt rfl rfl
    · rw [he]
      exact hrec

/-- What a call that does not bypass the counter does. -/
theorem effect_call (item : WipItem) (c : Call) (h : ¬ (c = .advance .reworking ∧ item.state = .inspected)) :
    Effect item (item.call c) := by
  cases c with
  | advance «to» =>
    by_cases hto : «to» = .reworking
    · subst hto
      have hs : item.state ≠ .inspected := fun hs => h ⟨rfl, hs⟩
      rcases item.advance_cases .reworking with ⟨hc, -⟩ | ⟨-, ha⟩
      · exact absurd (WipState.canTransition_reworking.mp hc) hs
      · rw [call, ha]
        exact .refl item
    · exact effect_advance item hto
  | recordDefect finding => exact .other _ (fun h => h) rfl
  | enterRework => exact effect_enterRework item
  | completeRework => exact effect_advance item (by decide)
  | finish => exact effect_advance item (by decide)
  | scrap => exact effect_advance item (by decide)
  | quarantine => exact effect_advance item (by decide)
  | inspectUnit findings => exact effect_inspectUnit item findings
  | reinspect => exact effect_reinspect item
  | produce => exact effect_produce item

/-- A call that does not bypass the counter keeps the budget. -/
theorem step_inBudget {w w' : Watched} {c : Call} (hb : w.InBudget) (hc : ¬ Bypasses w c)
    (h : step w c = some w') : w'.InBudget := by
  obtain rfl := Option.some.inj h
  obtain ⟨heq, hmax⟩ := hb
  have he := effect_call w.item c hc
  unfold Watched.InBudget
  generalize w.item.call c = item' at he ⊢
  cases he with
  | counted hs hlt hr hcount =>
    have hin : item'.state = .reworking ∧ w.item.state ≠ .reworking := ⟨hr, by rw [hs]; decide⟩
    simp only [if_pos hin, hcount]
    omega
  | other hstay hcount =>
    have hin : ¬ (item'.state = .reworking ∧ w.item.state ≠ .reworking) := fun h => h.2 (hstay h.1)
    simp only [if_neg hin, hcount]
    exact ⟨heq, hmax⟩

/-- One that does enters without counting. -/
theorem step_bypass {w w' : Watched} {c : Call} (hb : w.InBudget) (hc : Bypasses w c)
    (h : step w c = some w') : ¬ w'.InBudget := by
  obtain ⟨rfl, hs⟩ := hc
  have hcall : w.item.call (.advance .reworking) = { w.item with state := .reworking } := by
    rcases w.item.advance_cases .reworking with ⟨-, ha⟩ | ⟨hc, -⟩
    · rw [call, ha]
      rfl
    · rw [WipState.canTransition_reworking.mpr hs] at hc
      cases hc
  obtain rfl := Option.some.inj h
  have hin : w.item.state ≠ .reworking := by rw [hs]; decide
  unfold Watched.InBudget at hb ⊢
  simp only [hcall, true_and, if_pos hin]
  omega

/-- **The rework budget.**  On a new item every entry into `Reworking` is counted, and there are
never more than `MAX_REWORK_CYCLES`, exactly when no call advances an inspected unit to `Reworking`. -/
theorem rework_budget_iff (id : Id Wip) (calls : List Call) :
    LabelledRun.AllStates step Watched.InBudget { item := .new id, entered := 0 } calls ↔
      LabelledRun.AllSteps step (fun w c => ¬ (c = .advance .reworking ∧ w.item.state = .inspected))
        { item := .new id, entered := 0 } calls := by
  apply LabelledRun.allStates_iff_allSteps_of_none step (fun _ => True)
  · exact fun _ _ _ _ _ _ _ => trivial
  · intro w c w' _ hb h
    constructor
    · exact fun hb' hc => step_bypass hb hc h hb'
    · exact fun hc => step_inBudget hb hc h
  · intro w c h
    cases h
  · trivial
  · exact ⟨rfl, Nat.zero_le _⟩

/-- Four cycles through `advance`: none is counted, and they are one too many. -/
theorem rework_budget_bypassed :
    ¬ ∀ (id : Id Wip) (calls : List Call),
      LabelledRun.AllStates step Watched.InBudget { item := .new id, entered := 0 } calls := by
  intro h
  let cycle : List Call := [.advance .reworking, .reinspect]
  have hrun := (h ⟨0⟩ (.produce :: cycle ++ cycle ++ cycle ++ cycle)).last step
    (t := { item := { WipItem.new ⟨0⟩ with state := .inspected }, entered := 4 }) rfl
  exact absurd hrun.2 (by decide)

end WipItem

end TptErp
