import TptErp.Lib.Run
import Mathlib.Data.List.Nodup

/-!
# The in-memory bus

A table of subscriptions, each with the sending half of a bounded channel.  `publish` takes a snapshot of the
subscriptions that match, sends to one after the other, and in the end removes those whose channel was closed;
table and channels are used by any number of publishers and subscribers at once.

The messages of a bus are of any type `M`.  A channel keeps what was ever sent, so that its buffer is the part
that is not received yet.  No process lives to overflow the `u64` of `next_id`.
-/

namespace TptErp.Bus

structure Message where
  subject : String
  payload : List UInt8
deriving DecidableEq

/-- The same subject, or a `>` after a beginning of it. -/
def subjectMatches (sub published : String) : Bool :=
  sub == published ||
    (sub.toList.getLast? == some '>' && sub.toList.dropLast.isPrefixOf published.toList)

theorem subjectMatches_iff (sub published : String) : subjectMatches sub published = true ↔
    sub = published ∨ ∃ start rest, sub.toList = start ++ ['>'] ∧ published.toList = start ++ rest := by
  unfold subjectMatches
  rw [Bool.or_eq_true, Bool.and_eq_true, beq_iff_eq, beq_iff_eq, List.isPrefixOf_iff_prefix, List.getLast?_eq_some_iff]
  refine or_congr Iff.rfl ⟨?_, ?_⟩
  · rintro ⟨⟨start, he⟩, rest, hr⟩
    rw [he, List.dropLast_concat] at hr
    exact ⟨start, rest, he, hr.symm⟩
  · rintro ⟨start, rest, he, hr⟩
    refine ⟨⟨start, he⟩, rest, ?_⟩
    rw [he, List.dropLast_concat, hr]

/-- An `mpsc` channel: what was sent, how much of it is received, and whether the receiver is dropped. -/
structure Channel (M : Type) where
  sent : List M := []
  received : Nat := 0
  closed : Bool := false

/-- `mpsc::channel(64)`. -/
def capacity : Nat := 64

/-- The channel of an entry is named by its place in the list of channels. -/
structure Subscription where
  subject : String
  id : Nat
  tx : Nat
deriving DecidableEq

structure InMemoryBus (M : Type) where
  subs : List Subscription := []
  nextId : Nat := 0
  channels : List (Channel M) := []

namespace InMemoryBus

variable {M : Type} (bus : InMemoryBus M)

def sent (tx : Nat) : List M := (bus.channels[tx]?.map (·.sent)).getD []

/-- How many messages the receiver has taken. -/
def received (tx : Nat) : Nat := (bus.channels[tx]?.map (·.received)).getD 0

/-- The receiver has been dropped. -/
def closed (tx : Nat) : Bool := bus.channels[tx]?.any (·.closed)

/-- The receiver is there. -/
def live (tx : Nat) : Bool := bus.channels[tx]?.any fun c => !c.closed

/-- A new channel, and its entry. -/
def subscribe (subject : String) : Nat × InMemoryBus M :=
  let tx := bus.channels.length
  let id := bus.nextId + 1
  (tx, { subs := bus.subs ++ [{ subject, id, tx }], nextId := id, channels := bus.channels ++ [{}] })

/-- The snapshot: the ids and channels of the subscriptions that match. -/
def targets (subject : String) : List (Nat × Nat) :=
  (bus.subs.filter fun s => subjectMatches s.subject subject).map fun s => (s.id, s.tx)

/-- Whether `tx.send` is Ok, and the bus afterwards; it waits (`none`) while an open channel is full. -/
def send (tx : Nat) (msg : M) : Option (Bool × InMemoryBus M) :=
  match bus.channels[tx]? with
  | none => none
  | some c =>
    if c.closed then some (false, bus)
    else if capacity ≤ c.sent.length - c.received then none
    else some (true, { bus with channels := bus.channels.set tx { c with sent := c.sent ++ [msg] } })

/-- `retain` the entries that are not dead. -/
def prune (dead : List Nat) : InMemoryBus M :=
  if dead.isEmpty then bus else { bus with subs := bus.subs.filter fun s => !dead.contains s.id }

/-- The next message of the receiver, if there is one yet. -/
def recv (tx : Nat) : Option (M × InMemoryBus M) :=
  match bus.channels[tx]? with
  | none => none
  | some c =>
    if c.closed then none
    else
      match c.sent[c.received]? with
      | none => none
      | some msg => some (msg, { bus with channels := bus.channels.set tx { c with received := c.received + 1 } })

/-- The receiver is dropped, with what it has not received. -/
def dropReceiver (tx : Nat) : InMemoryBus M :=
  { bus with channels := bus.channels.modify tx fun c => { c with closed := true } }

end InMemoryBus

theorem getElem?_set_some {α : Type} {l : List α} {n : Nat} {a : α} (h : l[n]? = some a) (b : α) (m : Nat) :
    (l.set n b)[m]? = if m = n then some b else l[m]? := by
  by_cases hm : m = n
  · rw [if_pos hm, hm, List.getElem?_set_self (List.getElem?_eq_some_iff.mp h).1]
  · rw [if_neg hm, List.getElem?_set_ne (Ne.symm hm)]

theorem modify_some {α : Type} {l : List α} {n : Nat} {a : α} (h : l[n]? = some a) (f : α → α) :
    l.modify n f = l.set n (f a) := by
  apply List.ext_getElem?
  intro m
  rw [List.getElem?_modify, getElem?_set_some h]
  by_cases hm : m = n
  · subst hm
    rw [h]
    simp
  · simp [hm, Ne.symm hm]

/-- A `publish` that has its snapshot: the targets it still has to send to, and the ids it found closed. -/
structure Publication (M : Type) where
  msg : M
  targets : List (Nat × Nat)
  dead : List Nat := []

/-- The next step of a `publish`: a send, or the last section, after which it returns. -/
def Publication.next {M : Type} (p : Publication M) (bus : InMemoryBus M) :
    Option (InMemoryBus M × Option (Publication M)) :=
  match p.targets with
  | [] => some (bus.prune p.dead, none)
  | (id, tx) :: targets =>
    (bus.send tx p.msg).map fun r =>
      (r.2, some { p with targets, dead := if r.1 then p.dead else p.dead ++ [id] })

namespace InMemoryBus

variable {M : Type} (bus : InMemoryBus M)

/-! ## What the operations do -/

/-- What a send has done: `ok` says whether the receiver was there, and then the message is the channel's last. -/
structure Sent (bus bus' : InMemoryBus M) (tx : Nat) (msg : M) (ok : Bool) : Prop where
  live : bus.live tx = ok
  refused : ok = false → bus.closed tx = true
  sent : ∀ k, bus'.sent k = bus.sent k ++ if ok = true ∧ k = tx then [msg] else []
  received : ∀ k, bus'.received k = bus.received k
  closed : ∀ k, bus'.closed k = bus.closed k
  subs : bus'.subs = bus.subs
  nextId : bus'.nextId = bus.nextId
  channels : bus'.channels.length = bus.channels.length

theorem sent_of_send {tx : Nat} {msg : M} {ok : Bool} {bus' : InMemoryBus M} (h : bus.send tx msg = some (ok, bus')) :
    Sent bus bus' tx msg ok := by
  unfold send at h
  split at h
  · cases h
  · next c hc =>
    by_cases hclosed : c.closed = true
    · rw [if_pos hclosed] at h
      obtain ⟨rfl, rfl⟩ := Prod.mk.inj (Option.some.inj h)
      refine ⟨?_, fun _ => ?_, fun k => ?_, fun k => rfl, fun k => rfl, rfl, rfl, rfl⟩
      · simp [live, hc, hclosed]
      · simp [closed, hc, hclosed]
      · simp
    · rw [if_neg hclosed] at h
      split at h
      · cases h
      · obtain ⟨rfl, rfl⟩ := Prod.mk.inj (Option.some.inj h)
        refine ⟨?_, fun he => (nomatch he), fun k => ?_, fun k => ?_, fun k => ?_, rfl, rfl, List.length_set⟩
        · simp [live, hc, hclosed]
        · unfold sent
          rw [getElem?_set_some hc]
          by_cases hk : k = tx
          · simp [hk, hc]
          · simp [hk]
        · unfold received
          rw [getElem?_set_some hc]
          by_cases hk : k = tx
          · simp [hk, hc]
          · simp [hk]
        · unfold closed
          rw [getElem?_set_some hc]
          by_cases hk : k = tx
          · simp [hk, hc]
          · simp [hk]

/-- Nothing is sent, and what is closed stays closed. -/
structure Quiet (bus bus' : InMemoryBus M) : Prop where
  sent : ∀ tx, bus'.sent tx = bus.sent tx
  closed : ∀ tx, bus.closed tx = true → bus'.closed tx = true

theorem channels_subscribe (subject : String) (tx : Nat) : (bus.subscribe subject).2.channels[tx]? =
    if tx = bus.channels.length then some {} else bus.channels[tx]? := by
  show (bus.channels ++ [({} : Channel M)])[tx]? = _
  rcases Nat.lt_trichotomy tx bus.channels.length with h | h | h
  · rw [if_neg (by omega), List.getElem?_append_left h]
  · rw [if_pos h, h, List.getElem?_concat_length]
  · rw [if_neg (by omega), List.getElem?_eq_none (by simp; omega), List.getElem?_eq_none (by omega)]

theorem quiet_subscribe (subject : String) : Quiet bus (bus.subscribe subject).2 := by
  constructor
  · intro tx
    unfold sent
    rw [channels_subscribe]
    split
    · next h => simp [h]
    · rfl
  · intro tx h
    unfold closed
    rw [channels_subscribe, if_neg]
    · exact h
    · rintro rfl
      simp [closed] at h

theorem quiet_prune (dead : List Nat) : Quiet bus (bus.prune dead) := by
  unfold prune
  split
  · exact ⟨fun _ => rfl, fun _ h => h⟩
  · exact ⟨fun _ => rfl, fun _ h => h⟩

theorem quiet_recv {tx : Nat} {msg : M} {bus' : InMemoryBus M} (h : bus.recv tx = some (msg, bus')) :
    Quiet bus bus' ∧ bus'.subs = bus.subs ∧ bus'.nextId = bus.nextId ∧
      bus'.channels.length = bus.channels.length := by
  unfold recv at h
  split at h
  · cases h
  · next c hc =>
    split at h
    · cases h
    · split at h
      · cases h
      · obtain ⟨-, rfl⟩ := Prod.mk.inj (Option.some.inj h)
        refine ⟨⟨fun k => ?_, fun k hk => ?_⟩, rfl, rfl, List.length_set⟩
        · unfold sent
          rw [getElem?_set_some hc]
          by_cases he : k = tx
          · simp [he, hc]
          · simp [he]
        · unfold closed at hk ⊢
          rw [getElem?_set_some hc]
          by_cases he : k = tx
          · rw [he, hc] at hk
            rw [if_pos he]
            exact hk
          · rw [if_neg he]
            exact hk

theorem quiet_dropReceiver (tx : Nat) : Quiet bus (bus.dropReceiver tx) := by
  constructor
  · intro k
    unfold sent dropReceiver
    rw [List.getElem?_modify]
    cases bus.channels[k]? with
    | none => rfl
    | some c =>
      by_cases he : tx = k
      · simp [he]
      · simp [he]
  · intro k hk
    unfold closed at hk
    unfold closed dropReceiver
    rw [List.getElem?_modify]
    cases hc : bus.channels[k]? with
    | none =>
      rw [hc] at hk
      cases hk
    | some c =>
      rw [hc] at hk
      by_cases he : tx = k
      · simp [he]
      · simpa [he] using hk

/-- What the receiver takes is the next of what was sent to it. -/
theorem received_recv {tx : Nat} {msg : M} {bus' : InMemoryBus M} (h : bus.recv tx = some (msg, bus')) :
    (bus.sent tx)[bus.received tx]? = some msg ∧
      ∀ k, bus'.received k = if k = tx then bus.received tx + 1 else bus.received k := by
  unfold recv at h
  split at h
  · cases h
  · next c hc =>
    split at h
    · cases h
    · split at h
      · cases h
      · next m hm =>
        obtain ⟨rfl, rfl⟩ := Prod.mk.inj (Option.some.inj h)
        constructor
        · simp [sent, received, hc, hm]
        · intro k
          unfold received
          rw [getElem?_set_some hc, hc]
          by_cases he : k = tx
          · simp [he]
          · simp [he]

theorem received_subscribe (subject : String) (tx : Nat) : (bus.subscribe subject).2.received tx = bus.received tx := by
  unfold received
  rw [channels_subscribe]
  split
  · next h => simp [h]
  · rfl

theorem received_prune (dead : List Nat) (tx : Nat) : (bus.prune dead).received tx = bus.received tx := by
  unfold prune
  split
  · rfl
  · rfl

theorem received_dropReceiver (tx k : Nat) : (bus.dropReceiver tx).received k = bus.received k := by
  unfold received dropReceiver
  rw [List.getElem?_modify]
  cases bus.channels[k]? with
  | none => rfl
  | some c =>
    by_cases he : tx = k
    · simp [he]
    · simp [he]

/-! ## The table -/

/-- The ids of the table: each entry has its own, and its channel is its own. -/
structure Table (bus : InMemoryBus M) : Prop where
  id : ∀ s ∈ bus.subs, s.id = s.tx + 1
  lt : ∀ s ∈ bus.subs, s.tx < bus.channels.length
  next : bus.nextId = bus.channels.length
  once : (bus.subs.map (·.tx)).Nodup

variable {bus}

theorem table_subscribe (h : Table bus) (subject : String) : Table (bus.subscribe subject).2 := by
  refine ⟨?_, ?_, ?_, ?_⟩
  · intro s hs
    rcases List.mem_append.mp hs with hs | hs
    · exact h.id s hs
    · rw [List.mem_singleton.mp hs, h.next]
  · intro s hs
    show s.tx < (bus.channels ++ [_]).length
    rw [List.length_append, List.length_singleton]
    rcases List.mem_append.mp hs with hs | hs
    · have := h.lt s hs
      omega
    · rw [List.mem_singleton.mp hs]
      exact Nat.lt_succ_self _
  · show bus.nextId + 1 = (bus.channels ++ [_]).length
    rw [List.length_append, List.length_singleton, h.next]
  · show ((bus.subs ++ [_]).map _).Nodup
    rw [List.map_append]
    refine List.Nodup.append h.once (List.nodup_singleton _) ?_
    intro tx hx hy
    obtain ⟨s, hs, rfl⟩ := List.mem_map.mp hx
    have he : s.tx = bus.channels.length := List.mem_singleton.mp hy
    exact absurd (h.lt s hs) (by omega)

/-- A bus with the entries of a table, or some of them. -/
theorem table_of_sublist {bus' : InMemoryBus M} (h : Table bus) (hs : bus'.subs.Sublist bus.subs)
    (hn : bus'.nextId = bus.nextId) (hc : bus'.channels.length = bus.channels.length) : Table bus' :=
  ⟨fun s hm => h.id s (hs.subset hm), fun s hm => hc ▸ h.lt s (hs.subset hm), by rw [hn, hc, h.next],
    List.Nodup.sublist (hs.map _) h.once⟩

theorem subs_prune (dead : List Nat) : (bus.prune dead).subs = bus.subs.filter fun s => !dead.contains s.id := by
  unfold prune
  split
  · next h =>
    rw [List.isEmpty_iff.mp h]
    simp
  · rfl

theorem length_prune (dead : List Nat) : (bus.prune dead).channels.length = bus.channels.length := by
  unfold prune
  split
  · rfl
  · rfl

theorem table_prune (h : Table bus) (dead : List Nat) : Table (bus.prune dead) := by
  refine table_of_sublist h ?_ ?_ ?_
  · rw [subs_prune]
    exact List.filter_sublist
  · unfold prune
    split
    · rfl
    · rfl
  · exact length_prune dead

theorem id_of_mem_targets (h : Table bus) {subject : String} {t : Nat × Nat} (ht : t ∈ bus.targets subject) :
    t.1 = t.2 + 1 := by
  obtain ⟨s, hs, rfl⟩ := List.mem_map.mp ht
  exact h.id s (List.mem_filter.mp hs).1

end InMemoryBus

/-! ## Publishers and subscribers -/

/-- A message with the number of its `publish`, which the bus does not look at. -/
structure Envelope where
  number : Nat
  message : Message
deriving DecidableEq

/-- The channels of the subscriptions whose subject matches. -/
def InMemoryBus.matching {M : Type} (bus : InMemoryBus M) (subject : String) : List Nat :=
  (bus.subs.filter fun s => subjectMatches s.subject subject).map (·.tx)

theorem InMemoryBus.nodup_matching {M : Type} {bus : InMemoryBus M} (h : bus.Table) (subject : String) :
    (bus.matching subject).Nodup :=
  List.Nodup.sublist (List.filter_sublist.map _) h.once

/-- The snapshot has the channels that match. -/
theorem InMemoryBus.map_targets {M : Type} (bus : InMemoryBus M) (subject : String) :
    (bus.targets subject).map (·.2) = bus.matching subject := by
  unfold targets matching
  rw [List.map_map]
  rfl

/-- What is known of a `publish`: the channels of the subscriptions that matched at its snapshot, and for each one
it has come to whether its receiver was there then. -/
structure Record where
  publisher : Nat
  message : Message
  matched : List Nat
  attempts : List (Nat × Bool) := []
  returned : Bool := false

/-- The bus, what each publisher is doing, and the records of all that was published. -/
structure World where
  bus : InMemoryBus Envelope := {}
  publishers : List (Option (Publication Envelope)) := []
  history : List Record := []

/-- A new publisher; a publisher calls `publish`, or its `publish` goes on; subscribers come, receive and go. -/
inductive Label
  | publisher
  | publish (p : Nat) (message : Message)
  | next (p : Nat)
  | subscribe (subject : String)
  | recv (tx : Nat)
  | dropReceiver (tx : Nat)

/-- The record of a `publish` after its next step. -/
def Record.after (r : Record) (bus : InMemoryBus Envelope) (p : Publication Envelope) : Record :=
  match p.targets with
  | [] => { r with returned := true }
  | (_, tx) :: _ => { r with attempts := r.attempts ++ [(tx, bus.live tx)] }

def step (w : World) : Label → Option World
  | .publisher => some { w with publishers := w.publishers ++ [none] }
  | .publish p message =>
    match w.publishers[p]? with
    | some none =>
      some { w with
        publishers := w.publishers.set p
          (some { msg := ⟨w.history.length, message⟩, targets := w.bus.targets message.subject })
        history := w.history ++ [{ publisher := p, message, matched := w.bus.matching message.subject }] }
    | _ => none
  | .next p =>
    match w.publishers[p]? with
    | some (some c) =>
      (c.next w.bus).map fun r =>
        { bus := r.1, publishers := w.publishers.set p r.2
          history := w.history.modify c.msg.number fun record => record.after w.bus c }
    | _ => none
  | .subscribe subject => some { w with bus := (w.bus.subscribe subject).2 }
  | .recv tx => (w.bus.recv tx).map fun r => { w with bus := r.2 }
  | .dropReceiver tx => some { w with bus := w.bus.dropReceiver tx }

/-- How often the message of a `publish` was enqueued to a channel. -/
def InMemoryBus.copies (bus : InMemoryBus Envelope) (tx n : Nat) : Nat := (bus.sent tx).countP fun e => e.number = n

/-- Of the same publisher. -/
def World.SamePublisher (w : World) (n m : Nat) : Prop :=
  (w.history[n]?).map (·.publisher) = (w.history[m]?).map (·.publisher)

/-- Every message that a `publish` has returned for is enqueued once to each channel that matched at its snapshot
and whose receiver was there at the send, and to no other; and each channel has the messages of one publisher in
the order they were published in. -/
structure DeliversOnce (w : World) : Prop where
  attempted : ∀ (n : Nat) (r : Record), w.history[n]? = some r → r.returned = true → r.attempts.map (·.1) = r.matched
  once : ∀ (n : Nat) (r : Record), w.history[n]? = some r → ∀ tx, w.bus.copies tx n = if (tx, true) ∈ r.attempts then 1 else 0
  message : ∀ tx e, e ∈ w.bus.sent tx → ∃ r, w.history[e.number]? = some r ∧ r.message = e.message
  inOrder : ∀ tx, (w.bus.sent tx).Pairwise fun a b => w.SamePublisher a.number b.number → a.number < b.number

/-- The subscriptions of the receivers that are there stay in the table. -/
def KeepsLive (bus bus' : InMemoryBus Envelope) : Prop := ∀ s ∈ bus.subs, bus.live s.tx = true → s ∈ bus'.subs

/-! ## The invariant -/

/-- A record agrees with what is in the channels. -/
structure Tracked (bus : InMemoryBus Envelope) (n : Nat) (r : Record) : Prop where
  nodup : r.matched.Nodup
  returned : r.returned = true → r.attempts.map (·.1) = r.matched
  copies : ∀ tx, bus.copies tx n = if (tx, true) ∈ r.attempts then 1 else 0
  closed : ∀ tx, (tx, false) ∈ r.attempts → bus.closed tx = true

/-- What a publisher is doing agrees with the record of it, which is the publisher's last. -/
structure Current (w : World) (p : Nat) (c : Publication Envelope) (r : Record) : Prop where
  record : w.history[c.msg.number]? = some r
  publisher : r.publisher = p
  message : r.message = c.msg.message
  targets : r.matched = r.attempts.map (·.1) ++ c.targets.map (·.2)
  ids : ∀ t ∈ c.targets, t.1 = t.2 + 1
  dead : ∀ id ∈ c.dead, ∃ tx, id = tx + 1 ∧ (tx, false) ∈ r.attempts
  last : ∀ (n : Nat) (r' : Record), w.history[n]? = some r' → r'.publisher = p → n ≤ c.msg.number

structure Kept (w : World) : Prop where
  table : w.bus.Table
  tracked : ∀ (n : Nat) (r : Record), w.history[n]? = some r → Tracked w.bus n r
  current : ∀ (p : Nat) c, w.publishers[p]? = some (some c) → ∃ r, Current w p c r
  message : ∀ tx e, e ∈ w.bus.sent tx → ∃ r, w.history[e.number]? = some r ∧ r.message = e.message
  inOrder : ∀ tx, (w.bus.sent tx).Pairwise fun a b => w.SamePublisher a.number b.number → a.number < b.number

theorem deliversOnce_of_kept {w : World} (h : Kept w) : DeliversOnce w :=
  ⟨fun n r hr => (h.tracked n r hr).returned, fun n r hr => (h.tracked n r hr).copies, h.message, h.inOrder⟩

theorem kept_init : Kept {} := by
  refine ⟨⟨fun s hs => (nomatch hs), fun s hs => (nomatch hs), rfl, List.nodup_nil⟩, fun n r hr => (nomatch hr),
    fun p c hc => (nomatch hc), fun tx e he => ?_, fun tx => List.Pairwise.nil⟩
  cases he

/-- A step of the bus that sends nothing. -/
theorem kept_of_quiet {w : World} (h : Kept w) {bus : InMemoryBus Envelope} (hq : w.bus.Quiet bus)
    (ht : bus.Table) : Kept { w with bus } := by
  refine ⟨ht, fun n r hr => ?_, fun p c hc => ?_, fun tx e he => ?_, fun tx => ?_⟩
  · obtain ⟨hn, hreturned, hcopies, hclosed⟩ := h.tracked n r hr
    refine ⟨hn, hreturned, fun tx => ?_, fun tx hm => hq.closed tx (hclosed tx hm)⟩
    rw [← hcopies]
    unfold InMemoryBus.copies
    rw [hq.sent]
  · obtain ⟨r, hr⟩ := h.current p c hc
    exact ⟨r, hr.record, hr.publisher, hr.message, hr.targets, hr.ids, hr.dead, hr.last⟩
  · rw [hq.sent] at he
    exact h.message tx e he
  · show (bus.sent tx).Pairwise _
    rw [hq.sent]
    exact h.inOrder tx

/-- A new publisher. -/
theorem kept_publisher {w : World} (h : Kept w) : Kept { w with publishers := w.publishers ++ [none] } := by
  refine ⟨h.table, h.tracked, fun p c hc => ?_, h.message, h.inOrder⟩
  have hold : w.publishers[p]? = some (some c) := by
    rcases Nat.lt_or_ge p w.publishers.length with hlt | hge
    · rwa [List.getElem?_append_left hlt] at hc
    · rw [List.getElem?_append_right hge] at hc
      have hm := List.mem_of_getElem? hc
      cases List.mem_singleton.mp hm
  obtain ⟨r, hr⟩ := h.current p c hold
  exact ⟨r, hr.record, hr.publisher, hr.message, hr.targets, hr.ids, hr.dead, hr.last⟩

theorem copies_eq_zero {w : World} (h : Kept w) {n : Nat} (hn : w.history.length ≤ n) (tx : Nat) :
    w.bus.copies tx n = 0 := by
  refine List.countP_eq_zero.mpr fun e he hne => ?_
  obtain ⟨r, hr, -⟩ := h.message tx e he
  have hlt := (List.getElem?_eq_some_iff.mp hr).1
  have := of_decide_eq_true hne
  omega

/-- A `publish` begins: its record is a new one, of which no channel has anything. -/
theorem kept_publish {w : World} (h : Kept w) {p : Nat} (hp : w.publishers[p]? = some none) (message : Message) :
    Kept { w with
      publishers := w.publishers.set p
        (some { msg := ⟨w.history.length, message⟩, targets := w.bus.targets message.subject })
      history := w.history ++
        [{ publisher := p, message, matched := w.bus.matching message.subject }] } := by
  have hold : ∀ {n : Nat} {r : Record}, w.history[n]? = some r → ∀ r', (w.history ++ [r'])[n]? = some r := by
    intro n r hr r'
    rw [List.getElem?_append_left (List.getElem?_eq_some_iff.mp hr).1]
    exact hr
  have hcases : ∀ {n : Nat} {r r' : Record}, (w.history ++ [r'])[n]? = some r →
      w.history[n]? = some r ∨ n = w.history.length ∧ r = r' := by
    intro n r r' hr
    rcases Nat.lt_trichotomy n w.history.length with hlt | he | hlt
    · rw [List.getElem?_append_left hlt] at hr
      exact Or.inl hr
    · rw [he, List.getElem?_concat_length] at hr
      exact Or.inr ⟨he, (Option.some.inj hr).symm⟩
    · rw [List.getElem?_eq_none (by simp; omega)] at hr
      cases hr
  refine ⟨h.table, fun n r hr => ?_, fun q c hc => ?_, fun tx e he => ?_, fun tx => ?_⟩
  · rcases hcases hr with hr | ⟨rfl, rfl⟩
    · exact h.tracked n r hr
    · refine ⟨InMemoryBus.nodup_matching h.table _, fun he => ?_, copies_eq_zero h (Nat.le_refl _), fun tx hm => ?_⟩
      · cases he
      · cases hm
  · by_cases hq : q = p
    · subst hq
      rw [List.getElem?_set_self (List.getElem?_eq_some_iff.mp hp).1] at hc
      obtain rfl := Option.some.inj (Option.some.inj hc)
      refine ⟨_, List.getElem?_concat_length, rfl, rfl, (w.bus.map_targets _).symm,
        fun t ht => InMemoryBus.id_of_mem_targets h.table ht, fun id hid => absurd hid List.not_mem_nil,
        fun n r' hr' _ => ?_⟩
      have hlt := (List.getElem?_eq_some_iff.mp hr').1
      rw [List.length_append, List.length_singleton] at hlt
      exact Nat.le_of_lt_succ hlt
    · rw [List.getElem?_set_ne (Ne.symm hq)] at hc
      obtain ⟨r, hr⟩ := h.current q c hc
      refine ⟨r, hold hr.record _, hr.publisher, hr.message, hr.targets, hr.ids, hr.dead, fun n r' hr' hpub => ?_⟩
      rcases hcases hr' with hr' | ⟨rfl, rfl⟩
      · exact hr.last n r' hr' hpub
      · exact absurd hpub.symm hq
  · obtain ⟨r, hr, hm⟩ := h.message tx e he
    exact ⟨r, hold hr _, hm⟩
  · refine (h.inOrder tx).imp_of_mem ?_
    intro a b ha hb hlt hsame
    obtain ⟨ra, hra, -⟩ := h.message tx a ha
    obtain ⟨rb, hrb, -⟩ := h.message tx b hb
    apply hlt
    unfold World.SamePublisher at hsame ⊢
    rw [hold hra, hold hrb] at hsame
    rw [hra, hrb]
    exact hsame

/-- The record of another `publish`. -/
theorem tracked_other {bus bus' : InMemoryBus Envelope} {n : Nat} {r : Record} {msg : Envelope} (h : Tracked bus n r)
    (hn : n ≠ msg.number) (hsent : ∀ tx, bus'.sent tx = bus.sent tx ∨ bus'.sent tx = bus.sent tx ++ [msg])
    (hclosed : ∀ tx, bus.closed tx = true → bus'.closed tx = true) : Tracked bus' n r := by
  refine ⟨h.nodup, h.returned, fun tx => ?_, fun tx hm => hclosed tx (h.closed tx hm)⟩
  rw [← h.copies]
  unfold InMemoryBus.copies
  rcases hsent tx with he | he
  · rw [he]
  · rw [he, List.countP_append]
    simp [Ne.symm hn]

/-- The message of a `publish` comes after all others of its publisher. -/
theorem inOrder_sent {w : World} (h : Kept w) {p : Nat} {c : Publication Envelope} {r : Record} (hr : Current w p c r)
    {tx : Nat} {sent : List Envelope}
    (hsent : sent = w.bus.sent tx ∨ sent = w.bus.sent tx ++ [c.msg] ∧ w.bus.copies tx c.msg.number = 0) :
    sent.Pairwise fun a b => w.SamePublisher a.number b.number → a.number < b.number := by
  rcases hsent with rfl | ⟨rfl, hnone⟩
  · exact h.inOrder tx
  · refine List.pairwise_append.mpr ⟨h.inOrder tx, List.pairwise_singleton _ _, fun a ha b hb hsp => ?_⟩
    obtain rfl := List.mem_singleton.mp hb
    -- it is the publisher's last number, and not in the channel yet
    obtain ⟨s, hs, -⟩ := h.message tx a ha
    unfold World.SamePublisher at hsp
    rw [hs, hr.record, Option.map_some, Option.map_some, hr.publisher] at hsp
    have hle := hr.last a.number s hs (Option.some.inj hsp)
    have hne : a.number ≠ c.msg.number := fun hn => List.countP_eq_zero.mp hnone a ha (decide_eq_true hn)
    omega

/-- A `publish` goes on: its record, its publisher and the bus change. -/
theorem kept_next {w : World} (h : Kept w) {p : Nat} {c : Publication Envelope} {r r' : Record}
    {bus' : InMemoryBus Envelope} {c' : Option (Publication Envelope)} (hp : w.publishers[p]? = some (some c))
    (hr : Current w p c r) (ht : bus'.Table) (hpub : r'.publisher = p) (hmessage : r'.message = r.message)
    (hsent : ∀ tx, bus'.sent tx = w.bus.sent tx ∨ bus'.sent tx = w.bus.sent tx ++ [c.msg] ∧ w.bus.copies tx c.msg.number = 0)
    (hclosed : ∀ tx, w.bus.closed tx = true → bus'.closed tx = true) (htracked : Tracked bus' c.msg.number r')
    (hc' : ∀ d, c' = some d → d.msg = c.msg ∧ r'.matched = r'.attempts.map (·.1) ++ d.targets.map (·.2) ∧
      (∀ t ∈ d.targets, t.1 = t.2 + 1) ∧ ∀ id ∈ d.dead, ∃ tx, id = tx + 1 ∧ (tx, false) ∈ r'.attempts) :
    Kept { bus := bus', publishers := w.publishers.set p c', history := w.history.set c.msg.number r' } := by
  have hlookup := getElem?_set_some hr.record r'
  have hsame : ∀ n m, World.SamePublisher { w with history := w.history.set c.msg.number r' } n m ↔
      w.SamePublisher n m := by
    have hpublisher : ∀ n : Nat, ((w.history.set c.msg.number r')[n]?).map Record.publisher =
        (w.history[n]?).map Record.publisher := by
      intro n
      rw [hlookup]
      by_cases hn : n = c.msg.number
      · rw [if_pos hn, hn, hr.record, Option.map_some, Option.map_some, hpub, hr.publisher]
      · rw [if_neg hn]
    intro n m
    unfold World.SamePublisher
    rw [hpublisher, hpublisher]
  refine ⟨ht, fun n s hs => ?_, fun q d hd => ?_, fun tx e he => ?_, fun tx => ?_⟩
  · rw [hlookup] at hs
    by_cases hn : n = c.msg.number
    · rw [if_pos hn] at hs
      rw [hn, ← Option.some.inj hs]
      exact htracked
    · rw [if_neg hn] at hs
      exact tracked_other (h.tracked n s hs) hn (fun tx => (hsent tx).imp_right And.left) hclosed
  · by_cases hq : q = p
    · subst hq
      rw [getElem?_set_some hp, if_pos rfl] at hd
      obtain ⟨hmsg, htargets, hids, hdead⟩ := hc' d (Option.some.inj hd)
      refine ⟨r', ?_, hpub, ?_, htargets, hids, hdead, fun n s hs hsp => ?_⟩
      · rw [hmsg, hlookup, if_pos rfl]
      · rw [hmsg, hmessage, hr.message]
      · rw [hlookup] at hs
        rw [hmsg]
        by_cases hn : n = c.msg.number
        · omega
        · rw [if_neg hn] at hs
          exact hr.last n s hs hsp
    · rw [getElem?_set_some hp, if_neg hq] at hd
      obtain ⟨s, hs⟩ := h.current q d hd
      have hne : d.msg.number ≠ c.msg.number := by
        intro he
        have hrec := hs.record
        rw [he, hr.record] at hrec
        have : q = p := by rw [← hs.publisher, ← hr.publisher, Option.some.inj hrec]
        exact hq this
      refine ⟨s, ?_, hs.publisher, hs.message, hs.targets, hs.ids, hs.dead, fun n s' hs' hsp => ?_⟩
      · rw [hlookup, if_neg hne]
        exact hs.record
      · rw [hlookup] at hs'
        by_cases hn : n = c.msg.number
        · rw [if_pos hn] at hs'
          rw [← Option.some.inj hs', hpub] at hsp
          exact absurd hsp.symm hq
        · rw [if_neg hn] at hs'
          exact hs.last n s' hs' hsp
  · have hold : e ∈ w.bus.sent tx ∨ e = c.msg := by
      rcases hsent tx with hs | ⟨hs, -⟩
      · rw [hs] at he
        exact Or.inl he
      · rw [hs] at he
        rcases List.mem_append.mp he with he | he
        · exact Or.inl he
        · exact Or.inr (List.mem_singleton.mp he)
    rcases hold with he | rfl
    · obtain ⟨s, hs, hm⟩ := h.message tx e he
      by_cases hn : e.number = c.msg.number
      · refine ⟨r', by rw [hlookup, if_pos hn], ?_⟩
        rw [hn, hr.record] at hs
        rw [hmessage, Option.some.inj hs, hm]
      · exact ⟨s, by rw [hlookup, if_neg hn, hs], hm⟩
    · exact ⟨r', by rw [hlookup, if_pos rfl], by rw [hmessage, hr.message]⟩
  · refine (inOrder_sent h hr (hsent tx)).imp ?_
    intro a b hlt hsp
    exact hlt ((hsame _ _).mp hsp)

/-- What the last section of a `publish` removes was closed. -/
theorem keepsLive_prune {w : World} (h : Kept w) {p : Nat} {c : Publication Envelope} {r : Record}
    (hr : Current w p c r) : KeepsLive w.bus (w.bus.prune c.dead) := by
  intro s hs hlive
  rw [InMemoryBus.subs_prune]
  refine List.mem_filter.mpr ⟨hs, ?_⟩
  by_contra hdead
  obtain ⟨tx, hid, hm⟩ := hr.dead s.id (by simpa using hdead)
  have htx : s.tx = tx := by
    have := h.table.id s hs
    omega
  have hclosed := (h.tracked _ r hr.record).closed tx hm
  rw [← htx] at hclosed
  unfold InMemoryBus.live at hlive
  unfold InMemoryBus.closed at hclosed
  cases hch : w.bus.channels[s.tx]? with
  | none =>
    rw [hch] at hlive
    cases hlive
  | some ch =>
    rw [hch] at hlive hclosed
    have hcl : ch.closed = true := hclosed
    simp [hcl] at hlive

theorem kept_return {w : World} (h : Kept w) {p : Nat} {c : Publication Envelope} {r : Record}
    (hp : w.publishers[p]? = some (some c)) (hr : Current w p c r) (ht : c.targets = []) :
    Kept { bus := w.bus.prune c.dead, publishers := w.publishers.set p none,
           history := w.history.set c.msg.number { r with returned := true } } := by
  obtain ⟨hnodup, -, hcopies, hclosed⟩ := h.tracked _ r hr.record
  have hq := w.bus.quiet_prune c.dead
  refine kept_next h hp hr (InMemoryBus.table_prune h.table _) hr.publisher rfl (fun tx => Or.inl (hq.sent tx))
    hq.closed ⟨hnodup, fun _ => ?_, fun tx => ?_, fun tx hm => hq.closed tx (hclosed tx hm)⟩ fun d hd => (nomatch hd)
  · have := hr.targets
    rw [ht] at this
    simpa using this.symm
  · rw [← hcopies]
    unfold InMemoryBus.copies
    rw [hq.sent]

theorem kept_send {w : World} (h : Kept w) {p : Nat} {c : Publication Envelope} {r : Record} {id tx : Nat}
    {targets : List (Nat × Nat)} {ok : Bool} {bus' : InMemoryBus Envelope} (hp : w.publishers[p]? = some (some c))
    (hr : Current w p c r) (ht : c.targets = (id, tx) :: targets) (hs : w.bus.Sent bus' tx c.msg ok) :
    Kept { bus := bus', publishers := w.publishers.set p (some { c with
             targets, dead := if ok then c.dead else c.dead ++ [id] }),
           history := w.history.set c.msg.number { r with attempts := r.attempts ++ [(tx, w.bus.live tx)] } } := by
  obtain ⟨hnodup, hreturned, hcopies, hclosed⟩ := h.tracked _ r hr.record
  have htargets := hr.targets
  rw [ht, List.map_cons] at htargets
  -- the channel was not tried before
  have hnew : ∀ b, (tx, b) ∉ r.attempts := by
    intro b hm
    rw [htargets] at hnodup
    exact (List.nodup_append.mp hnodup).2.2 tx (List.mem_map.mpr ⟨(tx, b), hm, rfl⟩) tx List.mem_cons_self rfl
  have hzero : w.bus.copies tx c.msg.number = 0 := by rw [hcopies, if_neg (hnew true)]
  refine kept_next h hp hr ?_ hr.publisher rfl ?_ ?_ ⟨hnodup, ?_, ?_, ?_⟩ ?_
  · exact InMemoryBus.table_of_sublist h.table (hs.subs ▸ List.Sublist.refl _) hs.nextId hs.channels
  · intro k
    rw [hs.sent]
    by_cases hk : ok = true ∧ k = tx
    · rw [if_pos hk]
      exact Or.inr ⟨rfl, hk.2 ▸ hzero⟩
    · rw [if_neg hk, List.append_nil]
      exact Or.inl rfl
  · intro k hk
    rw [hs.closed]
    exact hk
  · intro hret
    -- all targets were tried when a `publish` returns
    have := hreturned hret
    rw [htargets] at this
    simp at this
  · intro k
    have hk := hcopies k
    unfold InMemoryBus.copies at hk ⊢
    rw [hs.sent, List.countP_append, hk, hs.live]
    by_cases he : ok = true ∧ k = tx
    · obtain ⟨rfl, rfl⟩ := he
      simp [hnew]
    · rw [if_neg he]
      have hmem : (k, true) ∈ r.attempts ++ [(tx, ok)] ↔ (k, true) ∈ r.attempts := by
        rw [List.mem_append, List.mem_singleton]
        refine or_iff_left fun heq => he ?_
        obtain ⟨rfl, hok⟩ := Prod.mk.inj heq
        exact ⟨hok.symm, rfl⟩
      simp [hmem]
  · intro k hm
    rw [hs.closed]
    rcases List.mem_append.mp hm with hm | hm
    · exact hclosed k hm
    · obtain ⟨rfl, hok⟩ := Prod.mk.inj (List.mem_singleton.mp hm)
      rw [hs.live] at hok
      exact hs.refused hok.symm
  · rintro d hd
    obtain rfl := Option.some.inj hd
    refine ⟨rfl, ?_, fun t hm => hr.ids t (ht ▸ List.mem_cons_of_mem _ hm), fun i hi => ?_⟩
    · rw [htargets, List.map_append, List.append_assoc]
      rfl
    · have hold : ∀ j ∈ c.dead, ∃ k, j = k + 1 ∧ (k, false) ∈ r.attempts ++ [(tx, w.bus.live tx)] := by
        intro j hj
        obtain ⟨k, hk, hm⟩ := hr.dead j hj
        exact ⟨k, hk, List.mem_append_left _ hm⟩
      cases ok with
      | true => exact hold i hi
      | false =>
        rcases List.mem_append.mp hi with hi | hi
        · exact hold i hi
        · refine ⟨tx, ?_, List.mem_append_right _ ?_⟩
          · rw [List.mem_singleton.mp hi]
            exact hr.ids (id, tx) (ht ▸ List.mem_cons_self)
          · rw [hs.live]
            exact List.mem_singleton.mpr rfl

theorem kept_step {w t : World} {a : Label} (h : Kept w) (hs : step w a = some t) :
    Kept t ∧ KeepsLive w.bus t.bus := by
  cases a with
  | publisher =>
    obtain rfl := Option.some.inj hs
    exact ⟨kept_publisher h, fun s hm _ => hm⟩
  | publish p message =>
    simp only [step] at hs
    split at hs
    · next hp =>
      obtain rfl := Option.some.inj hs
      exact ⟨kept_publish h hp message, fun s hm _ => hm⟩
    · cases hs
  | next p =>
    simp only [step] at hs
    split at hs
    · next c hp =>
      obtain ⟨⟨bus', c'⟩, hn, rfl⟩ := Option.map_eq_some_iff.mp hs
      obtain ⟨r, hr⟩ := h.current p c hp
      rw [modify_some hr.record]
      unfold Publication.next at hn
      split at hn
      · next ht =>
        obtain ⟨rfl, rfl⟩ := Prod.mk.inj (Option.some.inj hn)
        have hafter : r.after w.bus c = { r with returned := true } := by
          unfold Record.after
          rw [ht]
        rw [hafter]
        exact ⟨kept_return h hp hr ht, keepsLive_prune h hr⟩
      · next id tx targets ht =>
        obtain ⟨⟨ok, bus''⟩, hsend, he⟩ := Option.map_eq_some_iff.mp hn
        obtain ⟨rfl, rfl⟩ := Prod.mk.inj he
        have hsent := w.bus.sent_of_send hsend
        have hafter : r.after w.bus c = { r with attempts := r.attempts ++ [(tx, w.bus.live tx)] } := by
          unfold Record.after
          rw [ht]
        rw [hafter]
        exact ⟨kept_send h hp hr ht hsent, fun s hm _ => hsent.subs ▸ hm⟩
    · cases hs
  | subscribe subject =>
    obtain rfl := Option.some.inj hs
    exact ⟨kept_of_quiet h (w.bus.quiet_subscribe subject) (InMemoryBus.table_subscribe h.table subject),
      fun s hm _ => List.mem_append_left _ hm⟩
  | recv tx =>
    obtain ⟨⟨msg, bus'⟩, hr, rfl⟩ := Option.map_eq_some_iff.mp hs
    obtain ⟨hq, hsubs, hnext, hlen⟩ := w.bus.quiet_recv hr
    exact ⟨kept_of_quiet h hq (InMemoryBus.table_of_sublist h.table (hsubs ▸ List.Sublist.refl _) hnext hlen),
      fun s hm _ => hsubs ▸ hm⟩
  | dropReceiver tx =>
    obtain rfl := Option.some.inj hs
    exact ⟨kept_of_quiet h (w.bus.quiet_dropReceiver tx)
      (InMemoryBus.table_of_sublist h.table (List.Sublist.refl _) rfl (List.length_modify ..)), fun s hm _ => hm⟩

/-- **Exactly once, in order**: in every state that publishers and subscribers reach, in any order of their steps;
and no step removes the subscription of a receiver that is there. -/
theorem delivers_once (labels : List Label) :
    LabelledRun.AllStates step DeliversOnce {} labels ∧
      LabelledRun.AllSteps step (fun w a => ∀ t, step w a = some t → KeepsLive w.bus t.bus) {} labels := by
  have hall : LabelledRun.AllStates step Kept {} labels :=
    LabelledRun.allStates_of_step step (fun w a t h hs => (kept_step h hs).1) labels kept_init
  exact ⟨hall.mono step fun w => deliversOnce_of_kept,
    LabelledRun.allSteps_of_allStates step (fun w a h t hs => (kept_step h hs).2) hall⟩

end TptErp.Bus
