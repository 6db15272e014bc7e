import TptErp.Gl.Reporting
import TptErp.Lib.Run

/-!
# The close workflow

`PeriodStatus` moves along a graph, and the workflow takes a period through it.  The status is kept
twice: in the workflow's `Period`, and in the engine, which refuses postings to a `Closed` or
`Locked` period.  `close` and `lock` write both; `soft_close` and `begin_reconcile` write the
workflow's only, and the graph lets `begin_reconcile` reopen a closed period.

`agreement_iff` says that the two stay in agreement exactly as long as that is not done.
-/

namespace TptErp.Gl

open Ledger

variable {C : Type} {SHARDS : Nat}

/-- Marker of accounting periods. -/
inductive GlPeriod

structure PeriodStatusTransitionError where
  source : PeriodStatus
  target : PeriodStatus

inductive CloseError
  | trialBalanceNotBalanced
  | transition (e : PeriodStatusTransitionError)

namespace PeriodStatus

/-- The legal transitions. -/
def canTransition : PeriodStatus → PeriodStatus → Bool
  | opened, softClose => true
  | softClose, reconciling => true
  | reconciling, closed => true
  | closed, locked => true
  | closed, reconciling => true
  | reconciling, softClose => true
  | softClose, opened => true
  | locked, closed => true
  | _, _ => false

def transition (s target : PeriodStatus) : Except PeriodStatusTransitionError PeriodStatus :=
  if s.canTransition target then .ok target else .error ⟨s, target⟩

/-- Closed or locked. -/
def isFinal : PeriodStatus → Bool
  | closed | locked => true
  | _ => false

end PeriodStatus

/-- An accounting period and its close status. -/
structure Period where
  id : Id GlPeriod
  name : String
  status : PeriodStatus

namespace Period

/-- A new period is open. -/
def new (id : Id GlPeriod) (name : String) : Period := { id, name, status := .opened }

def advance (p : Period) (target : PeriodStatus) : Except CloseError Period :=
  match p.status.transition target with
  | .ok status => .ok { p with status }
  | .error e => .error (.transition e)

def isLocked (p : Period) : Bool := p.status = .locked

end Period

/-- The close of one period over a journal engine. -/
structure CloseWorkflow (C : Type) (SHARDS : Nat) where
  period : Period
  engine : JournalEngine C SHARDS

namespace CloseWorkflow

/-! ## The transitions

A transition that fails leaves the workflow as it is. -/

variable (w : CloseWorkflow C SHARDS)

def softClose : Except CloseError (CloseWorkflow C SHARDS) :=
  match w.period.advance .softClose with
  | .ok period => .ok { w with period }
  | .error e => .error e

def beginReconcile : Except CloseError (CloseWorkflow C SHARDS) :=
  match w.period.advance .reconciling with
  | .ok period => .ok { w with period }
  | .error e => .error e

/-- Close the period; the engine is told. -/
def close (trialBalance : TrialBalance C) : Except CloseError (CloseWorkflow C SHARDS) :=
  if ¬ trialBalance.isBalanced then .error .trialBalanceNotBalanced
  else
    match w.period.advance .closed with
    | .ok period => .ok { period, engine := w.engine.setPeriodStatus w.period.name .closed }
    | .error e => .error e

/-- Lock the period; the engine is told. -/
def lock : Except CloseError (CloseWorkflow C SHARDS) :=
  match w.period.advance .locked with
  | .ok period => .ok { period, engine := w.engine.setPeriodStatus w.period.name .locked }
  | .error e => .error e

end CloseWorkflow

/-- A transition of the workflow, or a posting, by any of the three entry points. -/
inductive CloseOp (C : Type)
  | softClose
  | beginReconcile
  | close (trialBalance : TrialBalance C)
  | lock
  | post (id : TransactionId) (entries : List (LedgerEntry C)) (period memo : String)
      (expected : Option (AccountId → Nat))

/-- The workflow after a call (`none`: a posting that never returns). -/
def CloseOp.step (w : CloseWorkflow C SHARDS) : CloseOp C → Option (CloseWorkflow C SHARDS)
  | .softClose => some (orKeep w.softClose)
  | .beginReconcile => some (orKeep w.beginReconcile)
  | .close trialBalance => some (orKeep (w.close trialBalance))
  | .lock => some (orKeep w.lock)
  | .post id entries period memo expected =>
    (w.engine.post id entries period memo expected).map fun r => { w with engine := r.2 }
where
  /-- The workflow of a transition, or the one before when it fails. -/
  orKeep (r : Except CloseError (CloseWorkflow C SHARDS)) : CloseWorkflow C SHARDS :=
    match r with
    | .ok w' => w'
    | .error _ => w

/-- A posting to the period that is valid and does not wait for itself is refused for the period's
sake exactly when the workflow has the period closed or locked. -/
def CloseWorkflow.Agrees (w : CloseWorkflow C SHARDS) : Prop :=
  ∀ id entries memo expected, (⟨id, entries⟩ : Transaction C).validate = .ok () →
    (w.engine.lockSequence entries).Nodup →
    ((∃ eng', w.engine.post id entries w.period.name memo expected =
      some (.error (.periodClosed w.period.name), eng')) ↔ w.period.status.isFinal = true)

/-- The step reopens a closed period. -/
def CloseOp.Reopens (w : CloseWorkflow C SHARDS) : CloseOp C → Prop
  | .beginReconcile => w.period.status = .closed
  | _ => False

/-! ## The period check -/

namespace JournalEngine

theorem checkVersions_error {eng : JournalEngine C SHARDS} {exp : AccountId → Nat} {as : List AccountId}
    {e : JournalError C} (h : eng.checkVersions exp as = .error e) (period : String) : e ≠ .periodClosed period := by
  induction as with
  | nil => cases h
  | cons a as ih =>
    unfold checkVersions at h
    split at h
    · cases h
      intro he
      cases he
    · exact ih h

/-- The loop over the legs fails with a conflict only, and leaves the statuses alone. -/
theorem postLegs_frame (expected : Option (AccountId → Nat)) (legs : List (PostedLeg C))
    (eng : JournalEngine C SHARDS) :
    (∀ period, (postLegs expected legs eng).1 ≠ .error (.periodClosed period)) ∧
      (postLegs expected legs eng).2.periodStatus = eng.periodStatus := by
  induction legs generalizing eng with
  | nil =>
    refine ⟨fun period h => ?_, rfl⟩
    cases h
  | cons leg legs ih =>
    simp only [postLegs, postLeg_eq]
    by_cases h : ∀ exp ∈ expected, exp leg.account = eng.version leg.account
    · simp only [if_pos h]
      exact ih (eng.withLeg leg)
    · simp only [if_neg h]
      refine ⟨fun period he => ?_, trivial⟩
      cases he

/-- A posting leaves the statuses of the periods alone. -/
theorem post_periodStatus {eng eng' : JournalEngine C SHARDS} {id : TransactionId}
    {entries : List (LedgerEntry C)} {period memo : String} {expected : Option (AccountId → Nat)}
    {r : Except (JournalError C) TransactionId} (h : eng.post id entries period memo expected = some (r, eng')) :
    eng'.periodStatus = eng.periodStatus := by
  obtain ⟨-, hframe⟩ := postLegs_frame expected (entries.map (leg ⟨id, entries⟩ period memo)) eng
  simp only [post] at h
  split at h
  · cases h
    rfl
  · simp only [Option.map_eq_some_iff] at h
    obtain ⟨r', h, he⟩ := h
    cases he
    simp only [postSync] at h
    split at h
    · cases h
    · split at h
      · cases h
        rfl
      · split at h
        · cases h
          rfl
        · split at h
          · next hl =>
            cases h
            rw [hl] at hframe
            exact hframe
          · next hl =>
            cases h
            rw [hl] at hframe
            exact hframe

/-- A posting that is valid and does not wait for itself is refused for the period's sake exactly
when the engine has the period closed or locked. -/
theorem post_periodClosed_iff (eng : JournalEngine C SHARDS) {id : TransactionId} {entries : List (LedgerEntry C)}
    (period memo : String) (expected : Option (AccountId → Nat))
    (hv : (⟨id, entries⟩ : Transaction C).validate = .ok ()) (hn : (eng.lockSequence entries).Nodup) :
    (∃ eng', eng.post id entries period memo expected = some (.error (.periodClosed period), eng')) ↔
      eng.periodIsClosed period = true := by
  obtain ⟨herr, -⟩ := postLegs_frame expected (entries.map (leg ⟨id, entries⟩ period memo)) eng
  simp only [post, hv, postSync, hn, not_true_eq_false, if_false]
  by_cases hp : eng.periodIsClosed period = true
  · rw [if_pos hp]
    exact iff_of_true ⟨eng, rfl⟩ hp
  · rw [if_neg hp]
    refine iff_of_false ?_ hp
    rintro ⟨eng', he⟩
    simp only [Option.map_eq_some_iff, Prod.mk.injEq] at he
    obtain ⟨r, hr, he, -⟩ := he
    split at hr
    · next e hc =>
      cases hr
      cases expected with
      | none => cases hc
      | some exp =>
        apply checkVersions_error hc period
        cases he
        rfl
    · split at hr
      · next e _ hl =>
        cases hr
        apply herr period
        rw [hl]
        cases he
        rfl
      · cases hr
        cases he

/-- There is a posting that is valid and does not wait for itself. -/
theorem exists_posting (eng : JournalEngine C SHARDS) : ∃ id entries,
    (⟨id, entries⟩ : Transaction C).validate = .ok () ∧ (eng.lockSequence entries).Nodup := by
  refine ⟨⟨0⟩, [⟨⟨0⟩, .debit, 0⟩, ⟨⟨0⟩, .credit, 0⟩], ?_, ?_⟩
  · rw [Transaction.validate_ok_iff]
    exact ⟨le_rfl, rfl⟩
  · have ha : accounts ([⟨⟨0⟩, .debit, 0⟩, ⟨⟨0⟩, .credit, 0⟩] : List (LedgerEntry C)) = [⟨0⟩] := by
      show SortDedup.sortDedup [(⟨0⟩ : AccountId), ⟨0⟩] = _
      decide
    rw [lockSequence, ha]
    exact List.nodup_singleton _

end JournalEngine

/-! ## Agreement -/

namespace CloseWorkflow

theorem agrees_iff (w : CloseWorkflow C SHARDS) :
    w.Agrees ↔ (w.engine.periodIsClosed w.period.name = true ↔ w.period.status.isFinal = true) := by
  constructor
  · intro h
    obtain ⟨id, entries, hv, hn⟩ := w.engine.exists_posting
    rw [← h id entries "" none hv hn]
    exact (w.engine.post_periodClosed_iff w.period.name "" none hv hn).symm
  · intro h id entries memo expected hv hn
    rw [← h]
    exact w.engine.post_periodClosed_iff w.period.name memo expected hv hn

/-- A transition succeeds along an edge of the graph, or fails. -/
theorem advance_cases (p : Period) (target : PeriodStatus) :
    (p.status.canTransition target = true ∧ p.advance target = .ok { p with status := target }) ∨
    (∃ e, p.advance target = .error e) := by
  unfold Period.advance PeriodStatus.transition
  by_cases h : p.status.canTransition target = true
  · left
    rw [if_pos h]
    exact ⟨h, rfl⟩
  · right
    rw [if_neg h]
    exact ⟨_, rfl⟩

theorem periodIsClosed_set (eng : JournalEngine C SHARDS) (period : String) (status : PeriodStatus) :
    (eng.setPeriodStatus period status).periodIsClosed period = status.isFinal := by
  simp only [JournalEngine.periodIsClosed, JournalEngine.setPeriodStatus, Function.update_self]
  cases status <;> rfl

/-- The edges to `SoftClose` come from open statuses. -/
theorem source_of_softClose {s : PeriodStatus} (h : s.canTransition .softClose = true) : s.isFinal = false := by
  cases s with
  | opened => rfl
  | reconciling => rfl
  | _ => cases h

/-- The edges to `Reconciling` come from `SoftClose` and from `Closed`. -/
theorem source_of_reconciling {s : PeriodStatus} (h : s.canTransition .reconciling = true) :
    s.isFinal = true ↔ s = .closed := by
  cases s with
  | softClose => decide
  | closed => decide
  | _ => cases h

/-- From a state of agreement, a step keeps it unless it reopens a closed period. -/
theorem agrees_step_iff {w t : CloseWorkflow C SHARDS} {op : CloseOp C} (h : w.Agrees)
    (ht : op.step w = some t) : t.Agrees ↔ ¬ op.Reopens w := by
  rw [agrees_iff] at h ⊢
  cases op with
  | post id entries period memo expected =>
    refine iff_of_true ?_ fun hr => hr
    simp only [CloseOp.step, Option.map_eq_some_iff] at ht
    obtain ⟨⟨r, eng'⟩, hp, rfl⟩ := ht
    have hs := JournalEngine.post_periodStatus hp
    unfold JournalEngine.periodIsClosed at h ⊢
    rw [hs]
    exact h
  | softClose =>
    refine iff_of_true ?_ id
    simp only [CloseOp.step, Option.some.injEq, softClose] at ht
    rcases advance_cases w.period .softClose with ⟨hc, ha⟩ | ⟨e, ha⟩
    · rw [ha] at ht
      subst ht
      rw [source_of_softClose hc] at h
      exact h
    · rw [ha] at ht
      subst ht
      exact h
  | beginReconcile =>
    simp only [CloseOp.step, Option.some.injEq, beginReconcile] at ht
    rcases advance_cases w.period .reconciling with ⟨hc, ha⟩ | ⟨e, ha⟩
    · rw [ha] at ht
      subst ht
      rw [source_of_reconciling hc] at h
      show (w.engine.periodIsClosed w.period.name = true ↔ PeriodStatus.reconciling.isFinal = true) ↔
        ¬ w.period.status = .closed
      rw [h]
      exact iff_false_right (by decide)
    · rw [ha] at ht
      subst ht
      refine iff_of_true h fun hst => ?_
      -- the graph has the edge from `Closed`
      have hst : w.period.status = .closed := hst
      simp [Period.advance, PeriodStatus.transition, hst, PeriodStatus.canTransition] at ha
  | close trialBalance =>
    refine iff_of_true ?_ id
    simp only [CloseOp.step, Option.some.injEq, close] at ht
    split at ht
    · subst ht
      exact h
    · rcases advance_cases w.period .closed with ⟨-, ha⟩ | ⟨e, ha⟩
      · rw [ha] at ht
        subst ht
        show (w.engine.setPeriodStatus w.period.name .closed).periodIsClosed w.period.name = true ↔ _
        rw [periodIsClosed_set]
        rfl
      · rw [ha] at ht
        subst ht
        exact h
  | lock =>
    refine iff_of_true ?_ id
    simp only [CloseOp.step, Option.some.injEq, lock] at ht
    rcases advance_cases w.period .locked with ⟨-, ha⟩ | ⟨e, ha⟩
    · rw [ha] at ht
      subst ht
      show (w.engine.setPeriodStatus w.period.name .locked).periodIsClosed w.period.name = true ↔ _
      rw [periodIsClosed_set]
      rfl
    · rw [ha] at ht
      subst ht
      exact h

/-- **When the two statuses agree.**  Throughout a run of transitions and postings the engine
refuses postings to the period exactly when the workflow has it closed or locked, if and only if
this is so at the start and no closed period is reopened. -/
theorem agreement_iff (w : CloseWorkflow C SHARDS) (ops : List (CloseOp C)) :
    LabelledRun.AllStates CloseOp.step Agrees w ops ↔
      (w.engine.periodIsClosed w.period.name = true ↔ w.period.status.isFinal = true) ∧
        LabelledRun.AllSteps CloseOp.step (fun u op => ¬ op.Reopens u) w ops := by
  have hok : (fun (u : CloseWorkflow C SHARDS) (op : CloseOp C) =>
      ∀ t, op.step u = some t → ¬ op.Reopens u) = fun u op => ¬ op.Reopens u := by
    funext u op
    apply propext
    refine ⟨fun h hr => ?_, fun h _ _ => h⟩
    cases op with
    | beginReconcile => exact h _ rfl hr
    | _ => exact hr
  rw [← agrees_iff, ← hok]
  constructor
  · intro h
    refine ⟨h.head, ?_⟩
    exact (LabelledRun.allStates_iff_allSteps CloseOp.step (fun _ => True) (fun _ _ _ _ _ _ _ => trivial)
      (fun s a t _ hs ht => agrees_step_iff hs ht) trivial h.head).mp h
  · rintro ⟨hw, h⟩
    exact (LabelledRun.allStates_iff_allSteps CloseOp.step (fun _ => True) (fun _ _ _ _ _ _ _ => trivial)
      (fun s a t _ hs ht => agrees_step_iff hs ht) trivial hw).mpr h

/-- A new period over a new engine. -/
def freshWorkflow : CloseWorkflow Usd 64 :=
  { period := .new ⟨0⟩ "2026-01", engine := .new (fun a => mod64 a.uuid) .new false }

/-- The period is closed, and reopened for reconciling. -/
def reopenRun : List (CloseOp Usd) := [.softClose, .beginReconcile, .close {}, .beginReconcile]

/-- The workflow is reconciling again, and the engine still refuses postings. -/
theorem reopened_still_refuses :
    ¬ LabelledRun.AllStates CloseOp.step Agrees freshWorkflow reopenRun ∧
      ∃ w, LabelledRun.exec CloseOp.step freshWorkflow reopenRun = some w ∧
        w.period.status = .reconciling ∧ w.engine.periodIsClosed w.period.name = true := by
  have hend : (LabelledRun.exec CloseOp.step freshWorkflow reopenRun).map
      (fun w => (w.period.status, w.engine.periodIsClosed w.period.name)) = some (.reconciling, true) := by
    decide +kernel
  obtain ⟨w, hw, he⟩ := Option.map_eq_some_iff.mp hend
  obtain ⟨hst, hc⟩ := Prod.mk.injEq .. ▸ he
  refine ⟨fun h => ?_, w, hw, hst, hc⟩
  have ha := (agrees_iff w).mp (h.last CloseOp.step hw)
  rw [hst, hc] at ha
  exact absurd (ha.mp rfl) (by decide)

end CloseWorkflow

end TptErp.Gl
