import TptErp.Ledger.Outbox
import TptErp.Ledger.PostgresStore

/-!
# From the ledger to the bus

A Postgres-backed store with an in-memory outbox attached, and any number of relays that drain the outbox while
events are appended.  An `append_async` is cut where it waits for its INSERT: before that the event is in the
in-memory log, after it the event is staged and the call returns, unless the call was dropped meanwhile.

* `begin_finish`: the two halves are `Durable.appendAsync`.
* `delivered_from_log`: in every state of every run, what the bus was given are the events of the calls that
  returned, first in log order, and one pass that nothing interrupts gives it the next ones, up to its limit.
-/

namespace TptErp.Ledger

variable {A V : Type}

/-- The store, the relays' outbox, and the `append_async` under way: the store is borrowed mutably, so there is
one at a time. -/
structure Delivery (A V : Type) where
  durable : Durable A V
  appending : Option (StoredEvent A (Stamped V)) := none
  /-- What the calls have returned. -/
  returned : List (StoredEvent A (Stamped V)) := []
  /-- The number of calls dropped while they waited. -/
  dropped : Nat := 0
  relaying : Relaying := {}

inductive AppendStep (A V : Type)
  | begin (e : Event A V) (now : Int)
  | finish (w : Write) (now : Int)
  | drop (w : Write)

/-- What `stage` is given for a stored event; `encode` is the JSON text of its payload. -/
def StoredEvent.staging (encode : V → List UInt8) (e : StoredEvent A (Stamped V)) (now : Int) : Staging :=
  { subject := "ledger." ++ e.eventType, payload := encode e.payload.value, now := now }

/-- Subject and payload as they are published. -/
def StoredEvent.published (encode : V → List UInt8) (e : StoredEvent A (Stamped V)) : String × List UInt8 :=
  ("ledger." ++ e.eventType, encode e.payload.value)

def OutboxRecord.content (r : OutboxRecord) : String × List UInt8 := (r.subject, r.payload)

namespace Delivery

variable [TextId A] [DecidableEq A] (encode : V → List UInt8)

/-- One half of an `append_async`.  A step that is not possible changes nothing. -/
def appendStep (c : Delivery A V) : AppendStep A V → Delivery A V
  | .begin e now =>
    match c.appending with
    | some _ => c
    | none =>
      let (stored, cache) := c.durable.store.cache.append (e.stamp now)
      { c with durable := c.durable.withWrite cache c.durable.rows, appending := some stored }
  | .finish w now =>
    match c.appending with
    | none => c
    | some stored =>
      let (ok, rows) := insertRow c.durable.rows stored.row w
      let written := c.durable.withWrite c.durable.store.cache rows
      { durable := (if ok then written else written.countFailure).stage stored.message
        appending := none
        returned := c.returned ++ [stored]
        dropped := c.dropped
        relaying := c.relaying.stage (stored.staging encode now) }
  | .drop w =>
    match c.appending with
    | none => c
    | some stored =>
      -- whether the database carries out the statement is not known
      { c with
        durable := c.durable.withWrite c.durable.store.cache (insertRow c.durable.rows stored.row w).2
        appending := none
        dropped := c.dropped + 1 }

/-- An `append_async` that is not dropped. -/
theorem begin_finish (c : Delivery A V) (h : c.appending = none) (e : Event A V) (now later : Int) (w : Write) :
    let c' := (c.appendStep encode (.begin e now)).appendStep encode (.finish w later)
    c'.durable = (c.durable.appendAsync e now w).2 ∧
      c'.returned = c.returned ++ [(c.durable.appendAsync e now w).1] := by
  unfold appendStep Durable.appendAsync Durable.writeThrough
  rw [h]
  exact ⟨rfl, rfl⟩

/-- Calls of `run_once`, each with its limit, around the appends. -/
def deliveries : Machine (Delivery A V) RelayStep Bool Nat (AppendStep A V) where
  prog limit := [.fetchPending limit]
  instr c i accepted := (c.relaying.instr i accepted).map fun r => ({ c with relaying := r.1 }, r.2)
  env := appendStep encode

/-! ## The invariant -/

/-- The rows are the events of the calls that returned, and those are of the log, after the `old` ones. -/
structure Inv (old : List (StoredEvent A (Stamped V))) (c : Delivery A V) : Prop where
  relaying : c.relaying.Inv
  rows : c.relaying.outbox.rows.map OutboxRecord.content = c.returned.map (StoredEvent.published encode)
  sublist : (old ++ c.returned ++ c.appending.toList).Sublist c.durable.store.cache.log
  length : c.durable.store.cache.log.length =
    old.length + c.returned.length + c.appending.toList.length + c.dropped

def Pending (c : Delivery A V) (i : RelayStep) : Prop := c.relaying.Pending i

variable {encode} {old : List (StoredEvent A (Stamped V))} {c : Delivery A V}

theorem content_sent (r : OutboxRecord) : r.sent.content = r.content := rfl

theorem keeps_appendStep (h : c.Inv encode old) (s : AppendStep A V) :
    Machine.Keeps (Inv encode old) Pending c (c.appendStep encode s) [] := by
  have hsame : Machine.Keeps (Inv encode old) Pending c c [] := ⟨h, nofun, fun _ hi => hi⟩
  cases s with
  | begin e now =>
    unfold appendStep
    cases ha : c.appending with
    | some stored => exact hsame
    | none =>
      refine ⟨⟨h.relaying, h.rows, ?_, ?_⟩, nofun, fun _ hi => hi⟩
      · have hsub := h.sublist
        rw [ha, Option.toList_none, List.append_nil] at hsub
        show (old ++ c.returned ++ [_]).Sublist (c.durable.store.cache.append (e.stamp now)).2.log
        rw [InMemoryEventStore.append_log, InMemoryEventStore.append_eq]
        exact hsub.append (List.Sublist.refl _)
      · have hlen := h.length
        rw [ha, Option.toList_none, List.length_nil] at hlen
        show (c.durable.store.cache.append (e.stamp now)).2.log.length =
          old.length + c.returned.length + 1 + c.dropped
        rw [InMemoryEventStore.append_log, List.length_append, List.length_singleton]
        omega
  | finish w now =>
    unfold appendStep
    cases ha : c.appending with
    | none => exact hsame
    | some stored =>
      have hk := Relaying.keeps_stage h.relaying (stored.staging encode now)
      have hlog : ((if (insertRow c.durable.rows stored.row w).1 then
            c.durable.withWrite c.durable.store.cache (insertRow c.durable.rows stored.row w).2
          else (c.durable.withWrite c.durable.store.cache (insertRow c.durable.rows stored.row w).2).countFailure).stage
            stored.message).store.cache.log = c.durable.store.cache.log := by
        split <;> rfl
      have hsub := h.sublist
      have hlen := h.length
      rw [ha] at hsub hlen
      refine ⟨⟨hk.inv, ?_, ?_, ?_⟩, nofun, fun i hi => hk.others i hi⟩
      · show (c.relaying.outbox.rows ++ [_]).map _ = (c.returned ++ [stored]).map _
        rw [List.map_append, List.map_append, h.rows]
        rfl
      · show (old ++ (c.returned ++ [stored]) ++ []).Sublist _
        rw [List.append_nil, ← List.append_assoc, hlog]
        exact hsub
      · show List.length _ = old.length + (c.returned ++ [stored]).length + 0 + c.dropped
        rw [hlog, hlen, List.length_append, ← Nat.add_assoc]
        rfl
  | drop w =>
    unfold appendStep
    cases ha : c.appending with
    | none => exact hsame
    | some stored =>
      have hsub := h.sublist
      have hlen := h.length
      rw [ha] at hsub hlen
      refine ⟨⟨h.relaying, h.rows, ?_, ?_⟩, nofun, fun _ hi => hi⟩
      · show (old ++ c.returned ++ []).Sublist c.durable.store.cache.log
        rw [List.append_nil]
        exact (List.sublist_append_left ..).trans hsub
      · show c.durable.store.cache.log.length = old.length + c.returned.length + 0 + (c.dropped + 1)
        rw [hlen]
        show old.length + c.returned.length + 1 + c.dropped = _
        omega

/-- A relay's step leaves the contents of the rows as they are. -/
theorem content_instr {r r' : Relaying} {i : RelayStep} {accepted : Bool} {more : List RelayStep}
    (h : r.instr i accepted = some (r', more)) :
    r'.outbox.rows.map OutboxRecord.content = r.outbox.rows.map OutboxRecord.content := by
  have hcontent : ∀ rows : List OutboxRecord, rows.map OutboxRecord.content =
      (rows.map OutboxRecord.staging).map fun s => (s.subject, s.payload) := fun rows => by
    rw [List.map_map]
    rfl
  rw [hcontent, hcontent, staging_instr h]

theorem keeps_instr (h : c.Inv encode old) {i : RelayStep} (hp : c.Pending i) {accepted : Bool} {c' : Delivery A V}
    {more : List RelayStep} (hi : (deliveries encode).instr c i accepted = some (c', more)) :
    Machine.Keeps (Inv encode old) Pending c c' more := by
  obtain ⟨⟨r, more'⟩, hr, heq⟩ := Option.map_eq_some_iff.mp hi
  cases heq
  have hk := Relaying.keeps_instr h.relaying hp hr
  exact ⟨⟨hk.inv, (content_instr hr).trans h.rows, h.sublist, h.length⟩, hk.more, hk.others⟩

/-- The invariant holds in every state of a run. -/
theorem good_run (d : Durable A V) (as : List (Machine.Label Bool Nat (AppendStep A V))) :
    LabelledRun.AllStates (deliveries encode).step (Machine.Good (Inv encode d.store.cache.log) Pending)
      { core := { durable := d } } as := by
  have hinit : Inv encode d.store.cache.log ({ durable := d } : Delivery A V) := by
    refine ⟨Relaying.inv_new, rfl, ?_, rfl⟩
    show (d.store.cache.log ++ [] ++ []).Sublist d.store.cache.log
    simp
  refine LabelledRun.allStates_of_step _ ?_ as (Machine.good_init hinit)
  intro u a t hu ht
  refine (deliveries encode).good_step ?_ (fun _ s hc => keeps_appendStep hc s) hu ht ?_
  · intro _ _ _ i hi
    rw [List.mem_singleton.mp hi]
    trivial
  · intro _ _ _ _ _ _ _ hp hi
    exact keeps_instr hu.core hp hi

/-! ## A pass that nothing interrupts -/

end Delivery

namespace Relaying

/-- With a bus that accepts them, all records are published and marked. -/
theorem deliverAll_true (c : Relaying) (pending : List OutboxRecord) :
    (c.deliverAll (fun _ => true) pending).2 =
      { outbox := { c.outbox with rows := pending.foldl (fun rows rec => markFirst rec.id rows) c.outbox.rows }
        published := c.published ++ pending } := by
  induction pending generalizing c with
  | nil => simp [deliverAll]
  | cons rec rest ih =>
    show (deliverAll _ _ rest).2 = _
    rw [ih, List.append_assoc]
    rfl

/-- Marking keeps what is delivered, and delivers what it marks. -/
theorem delivered_foldl {rows : List OutboxRecord} (h : NumberedRows rows) (pending : List OutboxRecord)
    (hall : ∀ r ∈ rows, r.delivered = true ∨ r.id ∈ pending.map (·.id)) :
    ∀ r ∈ pending.foldl (fun rows rec => markFirst rec.id rows) rows, r.delivered = true := by
  induction pending generalizing rows with
  | nil => exact fun r hr => (hall r hr).resolve_right (by simp)
  | cons rec rest ih =>
    refine ih (h.markFirst rec.id) fun r hr => ?_
    replace hr : r ∈ markFirst rec.id rows := hr
    rw [markFirst_eq_map h.increasing] at hr
    obtain ⟨x, hx, rfl⟩ := List.mem_map.mp hr
    by_cases hid : x.id = rec.id
    · rw [if_pos hid]
      exact Or.inl rfl
    · rw [if_neg hid]
      rcases hall x hx with hd | hm
      · exact Or.inl hd
      · rw [List.map_cons] at hm
        exact Or.inr ((List.mem_cons.mp hm).resolve_left hid)

/-- A pass that fetches all pending rows leaves none. -/
theorem runOnce_drains {c : Relaying} (h : c.Inv) {limit : Nat}
    (hlimit : c.outbox.rows.length ≤ c.deliveredCount + limit) :
    ∀ r ∈ (c.runOnce (fun _ => true) limit).2.outbox.rows, r.delivered = true := by
  show ∀ r ∈ (c.deliverAll _ _).2.outbox.rows, _
  rw [deliverAll_true]
  refine delivered_foldl h.numbered _ fun r hr => ?_
  by_cases hd : r.delivered = true
  · exact Or.inl hd
  · right
    apply List.mem_map_of_mem
    show r ∈ (c.outbox.rows.filter fun r => !r.delivered).take limit
    have hfew : (c.outbox.rows.filter fun r => !r.delivered).length ≤ limit := by
      rw [filter_pending h.downward, List.length_drop]
      unfold deliveredCount at hlimit
      omega
    rw [List.take_of_length_le hfew]
    exact List.mem_filter.mpr ⟨hr, by simpa using hd⟩

/-- A pass keeps the invariant. -/
theorem Inv.runOnce {c : Relaying} (h : c.Inv) (accepts : OutboxRecord → Bool) (limit : Nat) :
    (c.runOnce accepts limit).2.Inv := by
  obtain ⟨choices, hrun⟩ := runsAlone_runOnce accepts c limit
  have hinit : Machine.Good Inv Pending { core := c, threads := [relays.prog limit] } := by
    refine ⟨h, fun prog hp i hi => ?_⟩
    rw [List.mem_singleton.mp hp] at hi
    rw [List.mem_singleton.mp hi]
    trivial
  have hgood : LabelledRun.AllStates relays.step (Machine.Good Inv Pending)
      { core := c, threads := [relays.prog limit] } (choices.map (.run 0)) := by
    refine LabelledRun.allStates_of_step relays.step ?_ _ hinit
    intro u a t hu ht
    refine relays.good_step ?_ (fun _ s hc => keeps_stage hc s) hu ht ?_
    · intro _ _ _ i hi
      rw [List.mem_singleton.mp hi]
      trivial
    · intro _ _ _ _ _ _ _ hp hi
      exact keeps_instr hu.core hp hi
  exact (hgood.last relays.step hrun).core

theorem Inv.id_iff {c : Relaying} (h : c.Inv) (n : Nat) :
    (∃ r ∈ c.outbox.rows, r.id = n + 1) ↔ n < c.outbox.rows.length := by
  rw [h.numbered.mem_iff]
  omega

/-- The row numbered `n + 1` is at place `n`. -/
theorem Inv.getElem?_rows {c : Relaying} (h : c.Inv) {r : OutboxRecord} (hr : r ∈ c.outbox.rows) :
    1 ≤ r.id ∧ c.outbox.rows[r.id - 1]? = some r := by
  obtain ⟨k, hk, rfl⟩ := List.getElem_of_mem hr
  have hget := congrArg (fun l => l[k]?) h.numbered
  have hid : c.outbox.rows[k].id = k + 1 := by simpa [List.getElem?_range', hk, Nat.add_comm] using hget
  rw [hid, Nat.add_sub_cancel]
  exact ⟨by omega, List.getElem?_eq_getElem hk⟩

end Relaying

/-! ## From the log to the bus -/

namespace Delivery

/-- What the bus was given, by the log of the store, which held the events `old` when the outbox was attached. -/
structure FromLog (encode : V → List UInt8) (old : List (StoredEvent A (Stamped V))) (c : Delivery A V) : Prop where
  /-- Nothing is returned or under way that is not in the log, and all is in its order. -/
  sublist : (old ++ c.returned ++ c.appending.toList).Sublist c.durable.store.cache.log
  /-- Only a call dropped while it waited leaves an event in the log that is not staged. -/
  complete : c.dropped = 0 → c.durable.store.cache.log = old ++ c.returned ++ c.appending.toList
  /-- The record numbered `n` is the `n`-th event returned. -/
  published : ∀ rec ∈ c.relaying.published, 1 ≤ rec.id ∧
    ∃ e, c.returned[rec.id - 1]? = some e ∧ rec.content = e.published encode
  inOrder : FirstsInOrder c.relaying.published
  /-- What is marked delivered was published. -/
  delivered : ∀ r ∈ c.relaying.outbox.rows, r.delivered = true → r.id ∈ c.relaying.published.map (·.id)
  /-- The first events returned are marked delivered, as many as are marked. -/
  marked : ∀ r ∈ c.relaying.outbox.rows, r.delivered = true ↔ r.id ≤ c.relaying.deliveredCount
  /-- A pass that nothing interrupts publishes the first `limit` of the events returned that are not marked, in their
  order, and nothing else. -/
  passes : ∀ limit, ∃ added, (c.relaying.runOnce (fun _ => true) limit).2.published = c.relaying.published ++ added ∧
    added.map OutboxRecord.content =
      ((c.returned.drop c.relaying.deliveredCount).take limit).map (StoredEvent.published encode)
  /-- One whose limit covers all that is not marked leaves no event returned unpublished. -/
  drained : ∀ limit, c.returned.length ≤ c.relaying.deliveredCount + limit →
    ∀ n < c.returned.length, n + 1 ∈ (c.relaying.runOnce (fun _ => true) limit).2.published.map (·.id)

theorem rows_runOnce (c : Relaying) (limit : Nat) :
    ((c.runOnce (fun _ => true) limit).2.outbox.rows).map (·.id) = c.outbox.rows.map (·.id) := by
  show ((c.deliverAll _ _).2.outbox.rows).map _ = _
  rw [Relaying.deliverAll_true]
  generalize c.outbox.fetchPending limit = pending
  show (pending.foldl (fun rows rec => markFirst rec.id rows) c.outbox.rows).map _ = _
  generalize c.outbox.rows = rows
  induction pending generalizing rows with
  | nil => rfl
  | cons rec rest ih => exact (ih (markFirst rec.id rows)).trans (map_markFirst (·.id) (fun _ => rfl) rows rec.id)

theorem Inv.fromLog {encode : V → List UInt8} {old : List (StoredEvent A (Stamped V))} {c : Delivery A V}
    (h : c.Inv encode old) : c.FromLog encode old := by
  have hlength : c.relaying.outbox.rows.length = c.returned.length := by
    simpa using congrArg List.length h.rows
  refine ⟨h.sublist, ?_, ?_, h.relaying.inOrder, h.relaying.published, h.relaying.deliversInOrder.deliveredFirst,
    fun limit => ⟨c.relaying.outbox.fetchPending limit, ?_, ?_⟩, ?_⟩
  · intro hd
    have hlen := h.length
    refine (h.sublist.eq_of_length ?_).symm
    rw [List.length_append, List.length_append]
    omega
  · intro rec hrec
    obtain ⟨r, hr, hs⟩ := List.mem_map.mp (h.relaying.staged rec hrec)
    have hid : r.id = rec.id := by simpa using congrArg OutboxRecord.id hs
    have hcontent := congrArg OutboxRecord.content hs
    rw [content_sent, content_sent] at hcontent
    obtain ⟨hpos, hget⟩ := h.relaying.getElem?_rows hr
    have hmap := congrArg (fun l => l[r.id - 1]?) h.rows
    rw [List.getElem?_map, hget, List.getElem?_map] at hmap
    obtain ⟨e, he, hec⟩ := Option.map_eq_some_iff.mp hmap.symm
    rw [← hid, ← hcontent]
    exact ⟨hpos, e, he, hec.symm⟩
  · show (c.relaying.deliverAll _ _).2.published = _
    rw [Relaying.deliverAll_true]
  · -- the rows that are not marked come after the marked ones
    show ((c.relaying.outbox.rows.filter fun r => !r.delivered).take limit).map _ = _
    rw [Relaying.filter_pending h.relaying.downward, List.map_take, List.map_drop, h.rows, ← List.map_drop, ← List.map_take]
    rfl
  · intro limit hlimit n hn
    have hinv := h.relaying.runOnce (fun _ => true) limit
    obtain ⟨r, hr, hid⟩ := (h.relaying.id_iff n).mpr (by omega)
    have hmem : n + 1 ∈ ((c.relaying.runOnce (fun _ => true) limit).2.outbox.rows).map (·.id) := by
      rw [rows_runOnce, ← hid]
      exact List.mem_map_of_mem hr
    obtain ⟨r', hr', hid'⟩ := List.mem_map.mp hmem
    rw [← hid']
    exact hinv.published r' hr' (Relaying.runOnce_drains h.relaying (by omega) r' hr')

/-- **From the ledger to the bus.**  However `append_async` calls on a store, relay passes and failing
publications are interleaved, and whichever of the calls are dropped at their INSERT: the bus is given events of
the calls that returned and no others, for the first time in log order; no such event is lost, and one
undisturbed pass gives the bus the next ones that are not marked, up to its limit. -/
theorem delivered_from_log [TextId A] [DecidableEq A] (encode : V → List UInt8)
    (d : Durable A V) (as : List (Machine.Label Bool Nat (AppendStep A V))) :
    LabelledRun.AllStates (deliveries encode).step (fun w => w.core.FromLog encode d.store.cache.log)
      { core := { durable := d.withOutbox } } as :=
  (good_run d.withOutbox as).mono _ fun _ h => h.core.fromLog

end Delivery

end TptErp.Ledger
