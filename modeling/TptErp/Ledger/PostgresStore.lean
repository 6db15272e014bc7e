import TptErp.Ledger.EventStoreRuns
import TptErp.Lib.Run

/-!
# The Postgres-backed event store

`PostgresEventStore` keeps an in-memory store and mirrors every append to the `events` table; with an
outbox attached, `append_async` also stages the event there.

* `Durable`: a store with its table.  What an INSERT comes to is the environment's choice (`Write`); one whose
  primary key is in the table fails.
* The time stamp that an append takes from the clock is kept with the payload (`Stamped`).
* The messages given to the outbox are kept in order; staging does not fail.

The two results: which failed versioned appends leave the store alone (`failed_append_clean_iff`), and when
every appended event is staged (`staged_iff`).
-/

namespace TptErp.Ledger

/-- Ids that are written as text and read back: `Display` and `FromStr`. -/
class TextId (A : Type) where
  toText : A → String
  fromText : String → Option A
  fromText_toText : ∀ a, fromText (toText a) = some a

theorem toText_injective {A : Type} [TextId A] : Function.Injective (TextId.toText : A → String) := by
  intro a b h
  have hab := congrArg (TextId.fromText (A := A)) h
  rw [TextId.fromText_toText, TextId.fromText_toText] at hab
  exact Option.some.inj hab

instance : TextId String := ⟨id, some, fun _ => rfl⟩

/-- A payload with `occurred_at`. -/
structure Stamped (V : Type) where
  value : V
  occurredAt : Int
deriving DecidableEq

variable {A V : Type}

/-- The event with the time of its append. -/
def Event.stamp (e : Event A V) (now : Int) : Event A (Stamped V) :=
  { aggregateId := e.aggregateId, eventType := e.eventType, payload := { value := e.payload, occurredAt := now } }

@[simp] theorem Event.stamp_aggregateId (e : Event A V) (now : Int) : (e.stamp now).aggregateId = e.aggregateId :=
  rfl

/-- A row of the `events` table. -/
structure Row (V : Type) where
  aggregateId : String
  sequence : Nat
  eventType : String
  payload : V
  occurredAt : Int
deriving DecidableEq

/-- The primary key. -/
def Row.key (r : Row V) : String × Nat := (r.aggregateId, r.sequence)

/-- What an INSERT comes to: `unacknowledged` is a row that was written although the answer is an error.
A runtime that cannot be built to drive the write fails like the write. -/
inductive Write
  | done
  | failed
  | unacknowledged
deriving DecidableEq

/-- A message given to the outbox. -/
structure OutboxMessage (V : Type) where
  subject : String
  payload : V
deriving DecidableEq

inductive DurableError
  | store (e : EventStoreError)
  | backend

structure PostgresEventStore (A V : Type) where
  cache : InMemoryEventStore A (Stamped V) := {}
  /-- Appends whose mirror write failed. -/
  durabilityFailures : Nat := 0
  /-- The messages staged so far, when an outbox is attached. -/
  outbox : Option (List (OutboxMessage V)) := none

/-- A store and the `events` table, its rows in the order they were inserted in. -/
structure Durable (A V : Type) where
  store : PostgresEventStore A V := {}
  rows : List (Row V) := []

/-- An INSERT: whether it is answered without an error, and the table afterwards. -/
def insertRow (rows : List (Row V)) (row : Row V) (w : Write) : Bool × List (Row V) :=
  if row.key ∈ rows.map Row.key then (false, rows)
  else
    match w with
    | .done => (true, rows ++ [row])
    | .failed => (false, rows)
    | .unacknowledged => (false, rows ++ [row])

/-- The INSERT is answered without an error exactly when it is carried out and the key is new. -/
theorem insertRow_ok_iff (rows : List (Row V)) (row : Row V) (w : Write) :
    (insertRow rows row w).1 = true ↔ row.key ∉ rows.map Row.key ∧ w = .done := by
  unfold insertRow
  split
  · next h => simp [h]
  · next h => cases w <;> simp [h]

theorem insertRow_rows (rows : List (Row V)) (row : Row V) (w : Write) :
    (insertRow rows row w).2 = rows ∨
      row.key ∉ rows.map Row.key ∧ (insertRow rows row w).2 = rows ++ [row] := by
  unfold insertRow
  split
  · exact Or.inl rfl
  · next h =>
    cases w with
    | done => exact Or.inr ⟨h, rfl⟩
    | failed => exact Or.inl rfl
    | unacknowledged => exact Or.inr ⟨h, rfl⟩

variable [TextId A]

/-- The row of a stored event. -/
def StoredEvent.row (e : StoredEvent A (Stamped V)) : Row V :=
  { aggregateId := TextId.toText e.aggregateId, sequence := e.sequence, eventType := e.eventType
    payload := e.payload.value, occurredAt := e.payload.occurredAt }

/-- The message of a stored event. -/
def StoredEvent.message (e : StoredEvent A (Stamped V)) : OutboxMessage V :=
  { subject := "ledger." ++ e.eventType, payload := e.payload.value }

namespace Durable

variable [DecidableEq A] (d : Durable A V)

/-- Attach an outbox. -/
def withOutbox : Durable A V := { d with store := { d.store with outbox := some [] } }

/-- The in-memory store after an append, and the table after its mirror write. -/
def withWrite (cache : InMemoryEventStore A (Stamped V)) (rows : List (Row V)) : Durable A V :=
  { store := { d.store with cache }, rows }

/-- A mirror write that failed is counted. -/
def countFailure : Durable A V :=
  { d with store := { d.store with durabilityFailures := d.store.durabilityFailures + 1 } }

def stage (m : OutboxMessage V) : Durable A V :=
  { d with store := { d.store with outbox := d.store.outbox.map fun staged => staged ++ [m] } }

/-- Append in memory and mirror; the event is returned also when the write fails. -/
def writeThrough (e : Event A V) (now : Int) (w : Write) : StoredEvent A (Stamped V) × Durable A V :=
  let (stored, cache) := d.store.cache.append (e.stamp now)
  let (ok, rows) := insertRow d.rows stored.row w
  (stored, if ok then d.withWrite cache rows else (d.withWrite cache rows).countFailure)

/-- Append in memory if the version is the expected one, and mirror; a write that fails is an error. -/
def writeVersioned (e : Event A V) (expected : Nat) (now : Int) (w : Write) :
    Except DurableError (StoredEvent A (Stamped V)) × Durable A V :=
  match d.store.cache.appendVersioned (e.stamp now) expected with
  | .error err => (.error (.store err), d)
  | .ok (stored, cache) =>
    let (ok, rows) := insertRow d.rows stored.row w
    (if ok then .ok stored else .error .backend, d.withWrite cache rows)

def append (e : Event A V) (now : Int) (w : Write) : StoredEvent A (Stamped V) × Durable A V :=
  d.writeThrough e now w

def appendVersioned (e : Event A V) (expected : Nat) (now : Int) (w : Write) :
    Except DurableError (StoredEvent A (Stamped V)) × Durable A V :=
  d.writeVersioned e expected now w

/-- The only one of the four that stages the event. -/
def appendAsync (e : Event A V) (now : Int) (w : Write) : StoredEvent A (Stamped V) × Durable A V :=
  let (stored, d) := d.writeThrough e now w
  (stored, d.stage stored.message)

def appendVersionedAsync (e : Event A V) (expected : Nat) (now : Int) (w : Write) :
    Except DurableError (StoredEvent A (Stamped V)) × Durable A V :=
  d.writeVersioned e expected now w

/-! ## What an append does -/

/-- The event as the in-memory store stores it next. -/
def next (e : Event A V) (now : Int) : StoredEvent A (Stamped V) := d.store.cache.stored (e.stamp now)

/-- The in-memory store after the append. -/
def appended (e : Event A V) (now : Int) : InMemoryEventStore A (Stamped V) := (d.store.cache.append (e.stamp now)).2

theorem writeThrough_eq (e : Event A V) (now : Int) (w : Write) :
    d.writeThrough e now w = (d.next e now,
      if (insertRow d.rows (d.next e now).row w).1 then
        d.withWrite (d.appended e now) (insertRow d.rows (d.next e now).row w).2
      else (d.withWrite (d.appended e now) (insertRow d.rows (d.next e now).row w).2).countFailure) := by
  unfold writeThrough next appended
  rw [InMemoryEventStore.append_eq]

/-- **A versioned append**: the version check refuses the event, or it is appended in memory, whatever the
write then comes to. -/
theorem writeVersioned_eq (e : Event A V) (expected : Nat) (now : Int) (w : Write) :
    d.writeVersioned e expected now w =
      if expected = d.store.cache.version e.aggregateId + 1 then
        (if (insertRow d.rows (d.next e now).row w).1 then .ok (d.next e now) else .error .backend,
          d.withWrite (d.appended e now) (insertRow d.rows (d.next e now).row w).2)
      else (.error (.store (.conflict expected (d.store.cache.version e.aggregateId))), d) := by
  unfold writeVersioned next appended
  rw [InMemoryEventStore.appendVersioned_eq, Event.stamp_aggregateId]
  by_cases h : expected = d.store.cache.version e.aggregateId + 1
  · rw [if_pos h, if_pos h, InMemoryEventStore.append_eq]
  · rw [if_neg h, if_neg h]

/-! ## Failed appends -/

/-- The log and every version are the same, and the in-memory store accepts the same versioned appends. -/
structure Unchanged (d d' : Durable A V) : Prop where
  log : d'.store.cache.log = d.store.cache.log
  version : ∀ a, d'.store.cache.version a = d.store.cache.version a
  retry : ∀ (e : Event A (Stamped V)) (expected : Nat),
    (∃ r, d'.store.cache.appendVersioned e expected = .ok r) ↔
      ∃ r, d.store.cache.appendVersioned e expected = .ok r

/-- If the call returns an error, nothing has changed. -/
def FailsCleanly (r : Except DurableError (StoredEvent A (Stamped V)) × Durable A V) : Prop :=
  ∀ err, r.1 = .error err → d.Unchanged r.2

/-- The version check refuses the event, or the mirror write succeeds. -/
def RefusedOrWritten (e : Event A V) (expected : Nat) (now : Int) (w : Write) : Prop :=
  expected ≠ d.store.cache.version e.aggregateId + 1 ∨
    (d.next e now).row.key ∉ d.rows.map Row.key ∧ w = .done

theorem failsCleanly_writeVersioned_iff (e : Event A V) (expected : Nat) (now : Int) (w : Write) :
    d.FailsCleanly (d.writeVersioned e expected now w) ↔ d.RefusedOrWritten e expected now w := by
  unfold RefusedOrWritten
  rw [writeVersioned_eq, ← insertRow_ok_iff]
  by_cases hv : expected = d.store.cache.version e.aggregateId + 1
  · rw [if_pos hv]
    cases hok : (insertRow d.rows (d.next e now).row w).1 with
    | true => exact iff_of_true (fun err he => nomatch he) (Or.inr rfl)
    | false =>
      refine iff_of_false (fun h => ?_) (by simp [hv])
      -- the event is in the log although the call has failed
      have hlog : d.store.cache.log ++ [d.next e now] = d.store.cache.log := by
        have := (h .backend rfl).log
        rwa [show (d.withWrite (d.appended e now) _).store.cache.log = _ from
          InMemoryEventStore.append_log d.store.cache (e.stamp now)] at this
      simp at hlog
  · rw [if_neg hv]
    exact iff_of_true (fun err _ => ⟨rfl, fun _ => rfl, fun _ _ => Iff.rfl⟩) (Or.inl hv)

/-- **When a failed versioned append changes nothing**: exactly when it is the version check that refuses it,
or when it does not fail. -/
theorem failed_append_clean_iff (e : Event A V) (expected : Nat) (now : Int) (w : Write) :
    (d.FailsCleanly (d.appendVersioned e expected now w) ↔ d.RefusedOrWritten e expected now w) ∧
      (d.FailsCleanly (d.appendVersionedAsync e expected now w) ↔ d.RefusedOrWritten e expected now w) :=
  ⟨d.failsCleanly_writeVersioned_iff e expected now w, d.failsCleanly_writeVersioned_iff e expected now w⟩

/-- The write fails, the call returns the error, and the event stays in the in-memory log. -/
theorem failed_write_keeps_event :
    ¬ ∀ (d : Durable String String) (e : Event String String) (expected : Nat) (now : Int) (w : Write),
      d.FailsCleanly (d.appendVersioned e expected now w) := by
  intro h
  have hu := h {} { aggregateId := "agg1", eventType := "Created", payload := "payload" } 1 0 .failed .backend rfl
  have hlog := congrArg List.length hu.log
  exact absurd hlog (by decide)

/-! ## Staging -/

/-- An append, by whichever of the four functions. -/
inductive Op (A V : Type)
  | append (e : Event A V)
  | appendVersioned (e : Event A V) (expected : Nat)
  | appendAsync (e : Event A V)
  | appendVersionedAsync (e : Event A V) (expected : Nat)

/-- A call with the time it is made at and what its write comes to. -/
structure Call (A V : Type) where
  op : Op A V
  now : Int
  write : Write

def call (c : Call A V) : Except DurableError (StoredEvent A (Stamped V)) × Durable A V :=
  match c.op with
  | .append e => (d.append e c.now c.write).map .ok id
  | .appendVersioned e expected => d.appendVersioned e expected c.now c.write
  | .appendAsync e => (d.appendAsync e c.now c.write).map .ok id
  | .appendVersionedAsync e expected => d.appendVersionedAsync e expected c.now c.write

def step (c : Call A V) : Option (Durable A V) := some (d.call c).2

/-- The event that a call has appended, when it succeeds. -/
def answered (c : Call A V) : List (StoredEvent A (Stamped V)) :=
  match (d.call c).1 with
  | .ok stored => [stored]
  | .error _ => []

/-- The events appended by a sequence of calls, in order. -/
def answers : Durable A V → List (Call A V) → List (StoredEvent A (Stamped V))
  | _, [] => []
  | d, c :: cs => d.answered c ++ answers (d.call c).2 cs

/-- The messages that a call stages. -/
def staged (c : Call A V) : List (OutboxMessage V) :=
  match c.op with
  | .appendAsync e => [(d.next e c.now).message]
  | _ => []

/-- The messages staged by a sequence of calls, in order. -/
def stagings : Durable A V → List (Call A V) → List (OutboxMessage V)
  | _, [] => []
  | d, c :: cs => d.staged c ++ stagings (d.call c).2 cs

/-- The versioned append goes through: the version is the expected one, and the mirror write succeeds. -/
def Accepted (e : Event A V) (expected : Nat) (now : Int) (w : Write) : Prop :=
  expected = d.store.cache.version e.aggregateId + 1 ∧ (d.next e now).row.key ∉ d.rows.map Row.key ∧ w = .done

/-- The call is an `append_async`, or a versioned append that does not go through. -/
def NoBypass (c : Call A V) : Prop :=
  match c.op with
  | .appendAsync _ => True
  | .append _ => False
  | .appendVersioned e expected | .appendVersionedAsync e expected => ¬ d.Accepted e expected c.now c.write

theorem outbox_writeThrough (e : Event A V) (now : Int) (w : Write) :
    (d.writeThrough e now w).2.store.outbox = d.store.outbox := by
  rw [writeThrough_eq]
  dsimp only
  split <;> rfl

theorem outbox_writeVersioned (e : Event A V) (expected : Nat) (now : Int) (w : Write) :
    (d.writeVersioned e expected now w).2.store.outbox = d.store.outbox := by
  rw [writeVersioned_eq]
  split <;> rfl

/-- An `append_async` stages the event that it returns. -/
theorem call_appendAsync (e : Event A V) (now : Int) (w : Write) :
    d.call ⟨.appendAsync e, now, w⟩ =
      (.ok (d.next e now), (d.writeThrough e now w).2.stage (d.next e now).message) := by
  have h1 : (d.writeThrough e now w).1 = d.next e now := by rw [writeThrough_eq]
  show (Except.ok (d.writeThrough e now w).1,
    (d.writeThrough e now w).2.stage (d.writeThrough e now w).1.message) = _
  rw [h1]

theorem outbox_call (c : Call A V) :
    (d.call c).2.store.outbox = d.store.outbox.map fun messages => messages ++ d.staged c := by
  have hsame : d.store.outbox = d.store.outbox.map fun messages => messages ++ [] := by simp
  obtain ⟨op, now, w⟩ := c
  cases op with
  | append e => exact (d.outbox_writeThrough e now w).trans hsame
  | appendVersioned e expected => exact (d.outbox_writeVersioned e expected now w).trans hsame
  | appendVersionedAsync e expected => exact (d.outbox_writeVersioned e expected now w).trans hsame
  | appendAsync e =>
    rw [call_appendAsync]
    show Option.map _ (d.writeThrough e now w).2.store.outbox = _
    rw [outbox_writeThrough]
    rfl

/-- A versioned append returns its event exactly when it goes through. -/
theorem writeVersioned_ok_iff (e : Event A V) (expected : Nat) (now : Int) (w : Write) :
    (d.Accepted e expected now w ∧ (d.writeVersioned e expected now w).1 = .ok (d.next e now)) ∨
      (¬ d.Accepted e expected now w ∧ ∃ err, (d.writeVersioned e expected now w).1 = .error err) := by
  unfold Accepted
  rw [writeVersioned_eq, ← insertRow_ok_iff]
  by_cases hv : expected = d.store.cache.version e.aggregateId + 1
  · rw [if_pos hv]
    cases (insertRow d.rows (d.next e now).row w).1 with
    | true => exact Or.inl ⟨⟨hv, rfl⟩, rfl⟩
    | false => exact Or.inr ⟨fun h => (nomatch h.2), _, rfl⟩
  · rw [if_neg hv]
    exact Or.inr ⟨fun h => hv h.1, _, rfl⟩

/-- A call stages what it has appended, or it appends an event and stages nothing. -/
theorem staged_cases (c : Call A V) :
    (d.NoBypass c ∧ d.staged c = (d.answered c).map StoredEvent.message) ∨
      (¬ d.NoBypass c ∧ d.staged c = [] ∧ (d.answered c).length = 1) := by
  have hversioned : ∀ e expected, (d.call c = d.writeVersioned e expected c.now c.write) →
      (¬ d.Accepted e expected c.now c.write ∧ d.answered c = []) ∨
        (d.Accepted e expected c.now c.write ∧ (d.answered c).length = 1) := by
    intro e expected hc
    unfold answered
    rw [hc]
    rcases d.writeVersioned_ok_iff e expected c.now c.write with ⟨ha, hr⟩ | ⟨ha, err, hr⟩
    · exact Or.inr ⟨ha, by rw [hr]; rfl⟩
    · exact Or.inl ⟨ha, by rw [hr]⟩
  obtain ⟨op, now, w⟩ := c
  cases op with
  | append e => exact Or.inr ⟨id, rfl, rfl⟩
  | appendAsync e =>
    left
    refine ⟨trivial, ?_⟩
    unfold answered
    rw [call_appendAsync]
    rfl
  | appendVersioned e expected =>
    rcases hversioned e expected rfl with ⟨ha, hn⟩ | ⟨ha, hl⟩
    · exact Or.inl ⟨ha, by rw [hn]; rfl⟩
    · exact Or.inr ⟨fun h => h ha, rfl, hl⟩
  | appendVersionedAsync e expected =>
    rcases hversioned e expected rfl with ⟨ha, hn⟩ | ⟨ha, hl⟩
    · exact Or.inl ⟨ha, by rw [hn]; rfl⟩
    · exact Or.inr ⟨fun h => h ha, rfl, hl⟩

/-- The outbox after a sequence of calls. -/
theorem outbox_exec {d t : Durable A V} {calls : List (Call A V)} (h : LabelledRun.exec step d calls = some t) :
    t.store.outbox = d.store.outbox.map fun messages => messages ++ d.stagings calls := by
  induction calls generalizing d with
  | nil =>
    obtain rfl := Option.some.inj h
    simp [stagings]
  | cons c cs ih =>
    rw [ih h, outbox_call, Option.map_map]
    congr 1
    funext messages
    exact List.append_assoc ..

theorem length_stagings_le (calls : List (Call A V)) : (d.stagings calls).length ≤ (d.answers calls).length := by
  induction calls generalizing d with
  | nil => exact le_rfl
  | cons c cs ih =>
    have := ih (d.call c).2
    simp only [stagings, answers, List.length_append]
    rcases d.staged_cases c with ⟨-, hs⟩ | ⟨-, hs, hl⟩
    · rw [hs, List.length_map]
      omega
    · rw [hs, List.length_nil]
      omega

theorem stagings_iff (calls : List (Call A V)) :
    d.stagings calls = (d.answers calls).map StoredEvent.message ↔ LabelledRun.AllSteps step NoBypass d calls := by
  induction calls generalizing d with
  | nil => exact iff_of_true rfl trivial
  | cons c cs ih =>
    have hle := (d.call c).2.length_stagings_le cs
    have hrest : LabelledRun.AllSteps step NoBypass d (c :: cs) ↔
        d.NoBypass c ∧ LabelledRun.AllSteps step NoBypass (d.call c).2 cs := by
      simp [LabelledRun.AllSteps, step]
    rw [hrest, ← ih (d.call c).2]
    simp only [stagings, answers, List.map_append]
    rcases d.staged_cases c with ⟨ht, hs⟩ | ⟨ht, hs, hl⟩
    · rw [hs, List.append_cancel_left_eq, and_iff_right ht]
    · refine iff_of_false (fun h => ?_) (fun h => ht h.1)
      -- an event of this call is missing, and no later call stages more than it appends
      have := congrArg List.length h
      rw [hs, List.nil_append, List.length_append, List.length_map, List.length_map] at this
      omega

/-- **When no event bypasses the outbox.**  From the attachment of an outbox on, the messages staged are those
of the events appended, each once and in order, exactly when every call is an `append_async` or a versioned
append that does not go through. -/
theorem staged_iff (calls : List (Call A V)) :
    (∃ t, LabelledRun.exec step d.withOutbox calls = some t ∧
        t.store.outbox = some ((d.withOutbox.answers calls).map StoredEvent.message)) ↔
      LabelledRun.AllSteps step NoBypass d.withOutbox calls := by
  obtain ⟨t, ht⟩ : ∃ t, LabelledRun.exec step d.withOutbox calls = some t := by
    generalize d.withOutbox = u
    induction calls generalizing u with
    | nil => exact ⟨u, rfl⟩
    | cons c cs ih => exact ih (u.call c).2
  have ho := outbox_exec ht
  rw [show d.withOutbox.store.outbox = some [] from rfl, Option.map_some, List.nil_append] at ho
  rw [← stagings_iff]
  constructor
  · rintro ⟨t', ht', h⟩
    rw [ht] at ht'
    obtain rfl := Option.some.inj ht'
    rw [ho] at h
    exact Option.some.inj h
  · intro h
    exact ⟨t, ht, by rw [ho, h]⟩

/-- An event appended by `append` is not staged. -/
theorem append_bypasses_outbox :
    ¬ ∀ calls : List (Call String String), ∃ t,
      LabelledRun.exec step ({} : Durable String String).withOutbox calls = some t ∧
        t.store.outbox = some ((({} : Durable String String).withOutbox.answers calls).map StoredEvent.message) := by
  intro h
  obtain ⟨t, ht, ho⟩ :=
    h [⟨.append { aggregateId := "agg1", eventType := "Created", payload := "payload" }, 0, .done⟩]
  obtain rfl := Option.some.inj ht
  exact absurd (congrArg (Option.map List.length) ho) (by decide)

end Durable

end TptErp.Ledger
