import Mathlib.Logic.Function.Basic

/-!
# The append-only event store

`InMemoryEventStore` of `tpt-erp-ledger`: a log of events and, for each aggregate, the number of
its last event.  `append_versioned` is the optimistic-concurrency guard; `append` goes through it
with the current version, and its `expect` is discharged here (`append_no_conflict`).

The JSON payload of an event is kept as the typed value that was serialised; the time stamp
`occurred_at` is left out.
-/

namespace TptErp.Ledger

/-- A domain event ready to be appended. -/
structure Event (A P : Type) where
  aggregateId : A
  eventType : String
  payload : P

/-- An event in the log. -/
structure StoredEvent (A P : Type) where
  aggregateId : A
  sequence : Nat
  eventType : String
  payload : P

inductive EventStoreError
  | conflict (expected current : Nat)

/-- The log, and the version of each aggregate (0 when it has no event). -/
structure InMemoryEventStore (A P : Type) where
  log : List (StoredEvent A P) := []
  versions : A → Nat := fun _ => 0

namespace InMemoryEventStore

variable {A P : Type} [DecidableEq A]

def version (s : InMemoryEventStore A P) (a : A) : Nat := s.versions a

/-- The event as it is stored next. -/
def stored (s : InMemoryEventStore A P) (e : Event A P) : StoredEvent A P :=
  { aggregateId := e.aggregateId, sequence := s.version e.aggregateId + 1
    eventType := e.eventType, payload := e.payload }

/-- Append, asserting that `expected` is the event's number. -/
def appendVersioned (s : InMemoryEventStore A P) (e : Event A P) (expected : Nat) :
    Except EventStoreError (StoredEvent A P × InMemoryEventStore A P) :=
  let current := s.version e.aggregateId
  if expected ≠ current + 1 then .error (.conflict expected current)
  else .ok (s.stored e,
    { log := s.log ++ [s.stored e]
      versions := Function.update s.versions e.aggregateId (current + 1) })

theorem append_no_conflict (s : InMemoryEventStore A P) (e : Event A P) (err : EventStoreError) :
    s.appendVersioned e (s.version e.aggregateId + 1) ≠ .error err := by
  simp [appendVersioned]

/-- Append without a version check: "sequential append cannot conflict". -/
def append (s : InMemoryEventStore A P) (e : Event A P) : StoredEvent A P × InMemoryEventStore A P :=
  match h : s.appendVersioned e (s.version e.aggregateId + 1) with
  | .ok r => r
  | .error err => absurd h (append_no_conflict s e err)

theorem append_eq (s : InMemoryEventStore A P) (e : Event A P) :
    s.append e = (s.stored e,
      { log := s.log ++ [s.stored e]
        versions := Function.update s.versions e.aggregateId (s.version e.aggregateId + 1) }) := by
  unfold append
  split
  · next r h =>
    simp only [appendVersioned, ne_eq, not_true_eq_false, if_false, Except.ok.injEq] at h
    exact h.symm
  · next err h => exact absurd h (append_no_conflict s e err)

@[simp] theorem append_log (s : InMemoryEventStore A P) (e : Event A P) :
    (s.append e).2.log = s.log ++ [s.stored e] := by
  rw [append_eq]

theorem append_version (s : InMemoryEventStore A P) (e : Event A P) (a : A) :
    (s.append e).2.version a = if a = e.aggregateId then s.version a + 1 else s.version a := by
  rw [append_eq]
  simp only [version, Function.update_apply]
  split
  · next h => rw [h]
  · rfl

/-- `append_versioned` stores the event exactly when the caller names the next version. -/
theorem appendVersioned_eq (s : InMemoryEventStore A P) (e : Event A P) (expected : Nat) :
    s.appendVersioned e expected =
      if expected = s.version e.aggregateId + 1 then .ok (s.append e)
      else .error (.conflict expected (s.version e.aggregateId)) := by
  rw [append_eq]
  simp only [appendVersioned, ne_eq, ite_not]

end InMemoryEventStore

end TptErp.Ledger
