import TptErp.Ledger.EventStore
import Mathlib.Data.List.Range
import Mathlib.Data.List.Infix

/-!
# Runs of the event store

`append` and `append_versioned` calls on any aggregates, in any order.  A call appends the event it
returns, or returns a conflict and leaves the store alone (`call_cases`); so the log only grows at
its end, and each aggregate's events are numbered 1, 2, .. up to its version (`Numbered`).

A sequence number is a `u64`; it never passes the number of events in the log, so no log that fits
in memory reaches 2^64, and `Nat` stands for it.
-/

namespace TptErp.Ledger.InMemoryEventStore

variable {A P : Type} [DecidableEq A]

/-- The calls that change a store. -/
inductive Op (A P : Type)
  | append (e : Event A P)
  | appendVersioned (e : Event A P) (expected : Nat)

/-- What a call returns, with the store it leaves. -/
def call (s : InMemoryEventStore A P) :
    Op A P → Except EventStoreError (StoredEvent A P) × InMemoryEventStore A P
  | .append e => (.ok (s.append e).1, (s.append e).2)
  | .appendVersioned e expected =>
    match s.appendVersioned e expected with
    | .ok (stored, s') => (.ok stored, s')
    | .error err => (.error err, s)

/-- The store after a sequence of calls. -/
def runOps (s : InMemoryEventStore A P) (ops : List (Op A P)) : InMemoryEventStore A P :=
  ops.foldl (fun s op => (s.call op).2) s

/-- The events of one aggregate, in log order. -/
def stream (s : InMemoryEventStore A P) (a : A) : List (StoredEvent A P) :=
  s.log.filter fun e => e.aggregateId = a

/-- The events of each aggregate are numbered from 1 to its version. -/
def Numbered (s : InMemoryEventStore A P) : Prop :=
  ∀ a, (s.stream a).map (·.sequence) = List.range' 1 (s.version a)

/-- A call appends the event it returns, or returns a conflict and leaves the store alone. -/
theorem call_cases (s : InMemoryEventStore A P) (op : Op A P) :
    (∃ e, s.call op = (.ok (s.stored e), (s.append e).2)) ∨ (∃ err, s.call op = (.error err, s)) := by
  cases op with
  | append e =>
    left
    refine ⟨e, ?_⟩
    simp only [call, append_eq]
  | appendVersioned e expected =>
    simp only [call, appendVersioned_eq]
    by_cases h : expected = s.version e.aggregateId + 1
    · left
      refine ⟨e, ?_⟩
      simp only [if_pos h, append_eq]
    · right
      refine ⟨.conflict expected (s.version e.aggregateId), ?_⟩
      simp only [if_neg h]

theorem stream_append (s : InMemoryEventStore A P) (e : Event A P) (a : A) :
    (s.append e).2.stream a = if a = e.aggregateId then s.stream a ++ [s.stored e] else s.stream a := by
  unfold stream
  rw [append_log, List.filter_append]
  by_cases h : a = e.aggregateId
  · simp [h, stored]
  · simp [h, stored, Ne.symm h]

theorem numbered_new : Numbered ({} : InMemoryEventStore A P) := fun _ => rfl

theorem numbered_append {s : InMemoryEventStore A P} (h : Numbered s) (e : Event A P) :
    Numbered (s.append e).2 := by
  intro a
  rw [stream_append, append_version]
  by_cases ha : a = e.aggregateId
  · rw [if_pos ha, if_pos ha, List.map_append, h a, List.range'_1_concat]
    show _ ++ [s.version e.aggregateId + 1] = _
    rw [ha, Nat.add_comm]
  · rw [if_neg ha, if_neg ha]
    exact h a

theorem numbered_call {s : InMemoryEventStore A P} (h : Numbered s) (op : Op A P) :
    Numbered (s.call op).2 := by
  rcases s.call_cases op with ⟨e, he⟩ | ⟨err, he⟩
  · rw [he]
    exact numbered_append h e
  · rw [he]
    exact h

theorem numbered_runOps {s : InMemoryEventStore A P} (h : Numbered s) (ops : List (Op A P)) :
    Numbered (s.runOps ops) := by
  induction ops generalizing s with
  | nil => exact h
  | cons op ops ih => exact ih (numbered_call h op)

theorem log_runOps (s : InMemoryEventStore A P) (ops : List (Op A P)) : s.log <+: (s.runOps ops).log := by
  induction ops generalizing s with
  | nil => exact List.prefix_rfl
  | cons op ops ih =>
    refine List.IsPrefix.trans ?_ (ih (s.call op).2)
    rcases s.call_cases op with ⟨e, he⟩ | ⟨err, he⟩
    · rw [he, append_log]
      exact List.prefix_append _ _
    · rw [he]

/-- The version of an aggregate is the number of its events. -/
theorem length_stream {s : InMemoryEventStore A P} (h : Numbered s) (a : A) :
    (s.stream a).length = s.version a := by
  rw [← List.length_map (·.sequence), h a, List.length_range']

/-- **The store's invariant.**  Whatever calls are made on a new store: the log they leave is kept
by all later calls, and a call that stores an event puts it at the end; every aggregate's events are
numbered 1 to its version without gap or repeat; an unguarded append never meets a conflict; and a
guarded one that does leaves the store as it was. -/
theorem store_invariant (ops : List (Op A P)) :
    let s : InMemoryEventStore A P := runOps {} ops
    (∀ more, s.log <+: (s.runOps more).log) ∧
      (∀ op stored, (s.call op).1 = .ok stored → (s.call op).2.log = s.log ++ [stored]) ∧
      (∀ a, (s.stream a).map (·.sequence) = List.range' 1 (s.version a) ∧
        (s.stream a).length = s.version a) ∧
      (∀ e err, s.appendVersioned e (s.version e.aggregateId + 1) ≠ .error err) ∧
      ∀ e expected err, (s.call (.appendVersioned e expected)).1 = .error err →
        (s.call (.appendVersioned e expected)).2 = s := by
  intro s
  have hn : Numbered s := numbered_runOps numbered_new ops
  refine ⟨s.log_runOps, ?_, fun a => ⟨hn a, length_stream hn a⟩, s.append_no_conflict, ?_⟩
  · intro op stored hok
    rcases s.call_cases op with ⟨e, he⟩ | ⟨err, he⟩
    · rw [he] at hok ⊢
      cases hok
      exact s.append_log e
    · rw [he] at hok
      cases hok
  · intro e expected err herr
    rcases s.call_cases (.appendVersioned e expected) with ⟨e', he⟩ | ⟨err', he⟩
    · rw [he] at herr
      cases herr
    · rw [he]

end TptErp.Ledger.InMemoryEventStore
