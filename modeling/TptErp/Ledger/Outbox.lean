import TptErp.Lib.Threads
import Mathlib.Data.List.Nodup
import Mathlib.Data.List.Range

/-!
# The outbox and its relay

Messages are staged as rows of an `InMemoryOutbox`; any number of relays fetch pending rows, publish them and
mark them delivered, each step under the outbox's lock on its own.

* `relays`: the relay runs as interleaved calls; the bus's answer to a publication is the choice, staging is
  the environment.
* `Due`: what holds of a batch that a relay still has to work off, and is kept by every other step.

`delivers_in_order` is about every state of every run.
-/

namespace TptErp.Ledger

structure OutboxRecord where
  id : Nat
  subject : String
  payload : List UInt8
  delivered : Bool
  createdAt : Int
deriving DecidableEq

/-- What `stage` is called with, and the time of the call. -/
structure Staging where
  subject : String
  payload : List UInt8
  now : Int
deriving DecidableEq

/-- A row is never removed, so `next_id` cannot overflow before the memory does. -/
structure InMemoryOutbox where
  rows : List OutboxRecord := []
  nextId : Nat := 0
deriving DecidableEq

/-- The row as it is once delivered. -/
def OutboxRecord.sent (r : OutboxRecord) : OutboxRecord := { r with delivered := true }

@[simp] theorem OutboxRecord.sent_id (r : OutboxRecord) : r.sent.id = r.id := rfl

def OutboxRecord.staging (r : OutboxRecord) : Staging :=
  { subject := r.subject, payload := r.payload, now := r.createdAt }

/-- Marks the first row with the id. -/
def markFirst (id : Nat) : List OutboxRecord → List OutboxRecord
  | [] => []
  | r :: rest => if r.id = id then r.sent :: rest else r :: markFirst id rest

namespace InMemoryOutbox

def stage (o : InMemoryOutbox) (s : Staging) : Nat × InMemoryOutbox :=
  let id := o.nextId + 1
  let row : OutboxRecord :=
    { id := id, subject := s.subject, payload := s.payload, delivered := false, createdAt := s.now }
  (id, { rows := o.rows ++ [row], nextId := id })

def fetchPending (o : InMemoryOutbox) (limit : Nat) : List OutboxRecord :=
  (o.rows.filter fun r => !r.delivered).take limit

def markDelivered (o : InMemoryOutbox) (id : Nat) : InMemoryOutbox := { o with rows := markFirst id o.rows }

end InMemoryOutbox

/-! ## Relays -/

/-- The outbox, and the rows published so far: those for which `publish` answered Ok. -/
structure Relaying where
  outbox : InMemoryOutbox := {}
  published : List OutboxRecord := []
deriving DecidableEq

/-- The steps of `run_once`: a fetch, then for each record a publication and its acknowledgement. -/
inductive RelayStep
  | fetchPending (limit : Nat)
  | publish (pending : List OutboxRecord)
  | markDelivered (id : Nat) (pending : List OutboxRecord)
deriving DecidableEq

/-- One step, with the bus's answer. -/
def Relaying.instr (c : Relaying) : RelayStep → Bool → Option (Relaying × List RelayStep)
  | .fetchPending limit, _ => some (c, [.publish (c.outbox.fetchPending limit)])
  | .publish [], _ => some (c, [])
  -- `?` ends the run, and the row stays undelivered
  | .publish (_ :: _), false => some (c, [])
  | .publish (rec :: rest), true => some ({ c with published := c.published ++ [rec] }, [.markDelivered rec.id rest])
  | .markDelivered id rest, _ => some ({ c with outbox := c.outbox.markDelivered id }, [.publish rest])

def Relaying.stage (c : Relaying) (s : Staging) : Relaying := { c with outbox := (c.outbox.stage s).2 }

/-- Calls of `run_once`, each with its limit; staging goes on around them. -/
def relays : Machine Relaying RelayStep Bool Nat Staging where
  prog limit := [.fetchPending limit]
  instr := Relaying.instr
  env := Relaying.stage

/-- The loop of a `run_once` that nothing interrupts. -/
def Relaying.deliverAll (accepts : OutboxRecord → Bool) (c : Relaying) : List OutboxRecord → Bool × Relaying
  | [] => (true, c)
  | rec :: rest =>
    if accepts rec then
      Relaying.deliverAll accepts
        { outbox := c.outbox.markDelivered rec.id, published := c.published ++ [rec] } rest
    else (false, c)

/-- `run_once` alone: the number of records fetched, none when a publication fails. -/
def Relaying.runOnce (accepts : OutboxRecord → Bool) (c : Relaying) (limit : Nat) : Option Nat × Relaying :=
  let pending := c.outbox.fetchPending limit
  let r := c.deliverAll accepts pending
  (if r.1 then some pending.length else none, r.2)

theorem runsAlone_deliverAll (accepts : OutboxRecord → Bool) (c : Relaying) (pending : List OutboxRecord) :
    relays.RunsAlone c [.publish pending] (c.deliverAll accepts pending).2 := by
  induction pending generalizing c with
  | nil => exact Machine.runsAlone_cons _ true c [] rfl (Machine.runsAlone_nil _ c)
  | cons rec rest ih =>
    unfold Relaying.deliverAll
    by_cases h : accepts rec = true
    · rw [if_pos h]
      apply Machine.runsAlone_cons _ true _ [.markDelivered rec.id rest] rfl
      exact Machine.runsAlone_cons _ true _ [.publish rest] rfl (ih _)
    · rw [if_neg h]
      exact Machine.runsAlone_cons _ false c [] rfl (Machine.runsAlone_nil _ c)

/-- The interleaved `run_once` is the sequential one when it runs alone. -/
theorem runsAlone_runOnce (accepts : OutboxRecord → Bool) (c : Relaying) (limit : Nat) :
    relays.RunsAlone c (relays.prog limit) (c.runOnce accepts limit).2 :=
  Machine.runsAlone_cons _ true c _ rfl (runsAlone_deliverAll accepts c _)

/-! ## Rows -/

/-- Rows are numbered 1, 2, .. -/
def NumberedRows (rows : List OutboxRecord) : Prop := rows.map (·.id) = List.range' 1 rows.length

theorem NumberedRows.increasing {rows : List OutboxRecord} (h : NumberedRows rows) :
    rows.Pairwise fun r r' => r.id < r'.id := by
  rw [← List.pairwise_map (R := (· < ·)), h]
  exact List.pairwise_lt_range'

theorem NumberedRows.mem_iff {rows : List OutboxRecord} (h : NumberedRows rows) (id : Nat) :
    (∃ r ∈ rows, r.id = id) ↔ 1 ≤ id ∧ id ≤ rows.length := by
  rw [← List.mem_map, h, List.mem_range'_1]
  omega

theorem markFirst_eq_map {rows : List OutboxRecord} (h : rows.Pairwise fun r r' => r.id < r'.id) (id : Nat) :
    markFirst id rows = rows.map fun r => if r.id = id then r.sent else r := by
  induction rows with
  | nil => rfl
  | cons r rest ih =>
    obtain ⟨hr, hrest⟩ := List.pairwise_cons.mp h
    unfold markFirst
    rw [List.map_cons]
    by_cases hid : r.id = id
    · rw [if_pos hid, if_pos hid]
      congr 1
      have hsame : rest.map (fun x => if x.id = id then x.sent else x) = rest.map fun x => x := by
        apply List.map_congr_left
        intro x hx
        rw [if_neg]
        have := hr x hx
        omega
      rw [hsame, List.map_id']
    · rw [if_neg hid, if_neg hid, ih hrest]

theorem map_sent_markFirst (rows : List OutboxRecord) (id : Nat) :
    (markFirst id rows).map OutboxRecord.sent = rows.map OutboxRecord.sent := by
  induction rows with
  | nil => rfl
  | cons r rest ih =>
    unfold markFirst
    split
    · rfl
    · rw [List.map_cons, List.map_cons, ih]

/-- What is read off the rows but not their state of delivery. -/
theorem map_markFirst {α : Type} (f : OutboxRecord → α) (h : ∀ r, f r.sent = f r) (rows : List OutboxRecord)
    (id : Nat) : (markFirst id rows).map f = rows.map f := by
  have hf : ∀ l : List OutboxRecord, l.map f = (l.map OutboxRecord.sent).map f := by
    intro l
    rw [List.map_map]
    exact List.map_congr_left fun r _ => (h r).symm
  rw [hf, map_sent_markFirst, ← hf]

theorem NumberedRows.markFirst {rows : List OutboxRecord} (h : NumberedRows rows) (id : Nat) :
    NumberedRows (markFirst id rows) := by
  have hids := map_markFirst (·.id) (fun _ => rfl) rows id
  have hlength := congrArg List.length hids
  rw [List.length_map, List.length_map] at hlength
  unfold NumberedRows
  rw [hids, hlength]
  exact h

/-! ## Batches -/

/-- What a relay may still publish, once the rows `done` are delivered: staged rows, each with the rows before
it delivered or earlier in the batch. -/
def Due (rows : List OutboxRecord) : List Nat → List OutboxRecord → Prop
  | _, [] => True
  | done, rec :: rest =>
    rec.sent ∈ rows.map OutboxRecord.sent ∧ (∀ r ∈ rows, r.id < rec.id → r.delivered = true ∨ r.id ∈ done) ∧
      Due rows (rec.id :: done) rest

/-- A fetched batch is due. -/
theorem due_fetchPending {rows : List OutboxRecord} (h : rows.Pairwise fun r r' => r.id < r'.id) (limit : Nat) :
    Due rows [] ((rows.filter fun r => !r.delivered).take limit) := by
  -- the rows before those still to be looked at are delivered or in the batch
  suffices ∀ (seen rest : List OutboxRecord) (done : List Nat) (limit : Nat), rows = seen ++ rest →
      (∀ r ∈ seen, r.delivered = true ∨ r.id ∈ done) →
      Due rows done ((rest.filter fun r => !r.delivered).take limit) by
    exact this [] rows [] limit rfl nofun
  intro seen rest
  induction rest generalizing seen with
  | nil =>
    intro done limit _ _
    rw [List.filter_nil, List.take_nil]
    trivial
  | cons r rest ih =>
    intro done limit hrows hseen
    have hrows' : rows = (seen ++ [r]) ++ rest := by rw [hrows, List.append_assoc, List.singleton_append]
    by_cases hd : r.delivered = true
    · rw [List.filter_cons_of_neg (by simpa using hd)]
      apply ih _ _ _ hrows'
      intro x hx
      rcases List.mem_append.mp hx with hx | hx
      · exact hseen x hx
      · rw [List.mem_singleton.mp hx]
        exact Or.inl hd
    · rw [List.filter_cons_of_pos (by simpa using hd)]
      cases limit with
      | zero => trivial
      | succ limit =>
        rw [List.take_succ_cons]
        refine ⟨?_, ?_, ih _ _ _ hrows' ?_⟩
        · apply List.mem_map_of_mem
          rw [hrows]
          exact List.mem_append_right _ List.mem_cons_self
        · intro x hx hlt
          rw [hrows] at hx h
          rcases List.mem_append.mp hx with hx | hx
          · exact hseen x hx
          · rcases List.mem_cons.mp hx with rfl | hx
            · omega
            · have := (List.pairwise_cons.mp (List.pairwise_append.mp h).2.1).1 x hx
              omega
        · intro x hx
          rcases List.mem_append.mp hx with hx | hx
          · rcases hseen x hx with hx | hx
            · exact Or.inl hx
            · exact Or.inr (List.mem_cons_of_mem _ hx)
          · rw [List.mem_singleton.mp hx]
            exact Or.inr List.mem_cons_self

/-- A row of the later outbox is a row of the earlier one, delivered if it was then, or it is new. -/
structure Later (rows rows' : List OutboxRecord) : Prop where
  kept : ∀ s ∈ rows.map OutboxRecord.sent, s ∈ rows'.map OutboxRecord.sent
  back : ∀ r' ∈ rows', (∃ r ∈ rows, r.id = r'.id ∧ (r.delivered = true → r'.delivered = true)) ∨
    ∀ r ∈ rows, r.id < r'.id

theorem Due.of_later {rows rows' : List OutboxRecord} (hl : Later rows rows') {done done' : List Nat}
    {batch : List OutboxRecord} (h : Due rows done batch)
    (hdone : ∀ r' ∈ rows', r'.id ∈ done → r'.delivered = true ∨ r'.id ∈ done') : Due rows' done' batch := by
  induction batch generalizing done done' with
  | nil => trivial
  | cons rec rest ih =>
    obtain ⟨hstaged, hbefore, hrest⟩ := h
    refine ⟨hl.kept _ hstaged, ?_, ih hrest ?_⟩
    · intro r' hr' hlt
      rcases hl.back r' hr' with ⟨r, hr, hid, hdel⟩ | hnew
      · rcases hbefore r hr (by omega) with h | h
        · exact Or.inl (hdel h)
        · exact hdone r' hr' (hid ▸ h)
      · obtain ⟨x, hx, hxs⟩ := List.mem_map.mp hstaged
        have hxid : x.id = rec.id := by simpa using congrArg OutboxRecord.id hxs
        have := hnew x hx
        omega
    · intro r' hr' hmem
      rcases List.mem_cons.mp hmem with he | hmem
      · exact Or.inr (he ▸ List.mem_cons_self)
      · rcases hdone r' hr' hmem with h | h
        · exact Or.inl h
        · exact Or.inr (List.mem_cons_of_mem _ h)

theorem later_markFirst {rows : List OutboxRecord} (h : NumberedRows rows) (id : Nat) :
    Later rows (markFirst id rows) := by
  refine ⟨fun s hs => ?_, fun r' hr' => Or.inl ?_⟩
  · rw [map_sent_markFirst]
    exact hs
  · rw [markFirst_eq_map h.increasing] at hr'
    obtain ⟨r, hr, rfl⟩ := List.mem_map.mp hr'
    refine ⟨r, hr, ?_⟩
    split
    · exact ⟨rfl, fun _ => rfl⟩
    · exact ⟨rfl, fun hd => hd⟩

theorem later_append {rows : List OutboxRecord} {row : OutboxRecord} (h : ∀ r ∈ rows, r.id < row.id) :
    Later rows (rows ++ [row]) := by
  refine ⟨fun s hs => ?_, fun r' hr' => ?_⟩
  · rw [List.map_append]
    exact List.mem_append_left _ hs
  · rcases List.mem_append.mp hr' with hr' | hr'
    · exact Or.inl ⟨r', hr', rfl, id⟩
    · rw [List.mem_singleton.mp hr']
      exact Or.inr h

/-! ## The invariant -/

/-- Each published row comes after all rows with lower ids. -/
def FirstsInOrder (published : List OutboxRecord) : Prop :=
  ∀ earlier rec later, published = earlier ++ rec :: later →
    ∀ id, 1 ≤ id → id < rec.id → id ∈ earlier.map (·.id)

theorem FirstsInOrder.append {published : List OutboxRecord} (h : FirstsInOrder published) {rec : OutboxRecord}
    (hrec : ∀ id, 1 ≤ id → id < rec.id → id ∈ published.map (·.id)) : FirstsInOrder (published ++ [rec]) := by
  intro earlier x later heq
  rcases List.eq_nil_or_concat later with rfl | ⟨init, last, rfl⟩
  · obtain ⟨rfl, hx⟩ := List.append_inj' heq rfl
    obtain rfl := List.head_eq_of_cons_eq hx
    exact hrec
  · rw [List.concat_eq_append, ← List.cons_append, ← List.append_assoc] at heq
    exact h earlier x init (List.append_inj' heq rfl).1

namespace Relaying

structure Inv (c : Relaying) : Prop where
  numbered : NumberedRows c.outbox.rows
  nextId : c.outbox.nextId = c.outbox.rows.length
  /-- The delivered rows are the first ones. -/
  downward : c.outbox.rows.Pairwise fun r r' => r'.delivered = true → r.delivered = true
  published : ∀ r ∈ c.outbox.rows, r.delivered = true → r.id ∈ c.published.map (·.id)
  staged : ∀ rec ∈ c.published, rec.sent ∈ c.outbox.rows.map OutboxRecord.sent
  inOrder : FirstsInOrder c.published

def Pending (c : Relaying) : RelayStep → Prop
  | .fetchPending _ => True
  | .publish batch => Due c.outbox.rows [] batch
  | .markDelivered id batch =>
    id ∈ c.published.map (·.id) ∧ (∀ r ∈ c.outbox.rows, r.id < id → r.delivered = true) ∧ Due c.outbox.rows [id] batch

theorem inv_new : ({} : Relaying).Inv where
  numbered := rfl
  nextId := rfl
  downward := List.Pairwise.nil
  published := nofun
  staged := nofun
  inOrder := by
    intro earlier rec later h
    cases earlier with
    | nil => cases h
    | cons x xs => cases h

variable {c : Relaying}

theorem Pending.of_later {d : Relaying} (hl : Later c.outbox.rows d.outbox.rows)
    (hpub : ∀ id ∈ c.published.map (·.id), id ∈ d.published.map (·.id))
    (hold : ∀ id ∈ c.published.map (·.id), ∃ r ∈ c.outbox.rows, r.id = id) {i : RelayStep} (h : c.Pending i) :
    d.Pending i := by
  cases i with
  | fetchPending limit => trivial
  | publish batch => exact Due.of_later hl h nofun
  | markDelivered id batch =>
    obtain ⟨hid, hbefore, hdue⟩ := h
    refine ⟨hpub id hid, ?_, Due.of_later hl hdue fun r' _ hr' => Or.inr hr'⟩
    intro r' hr' hlt
    rcases hl.back r' hr' with ⟨r, hr, he, hdel⟩ | hnew
    · exact hdel (hbefore r hr (by omega))
    · obtain ⟨r, hr, rfl⟩ := hold id hid
      have := hnew r hr
      omega

theorem Inv.old (h : c.Inv) : ∀ id ∈ c.published.map (·.id), ∃ r ∈ c.outbox.rows, r.id = id := by
  intro id hid
  obtain ⟨rec, hrec, rfl⟩ := List.mem_map.mp hid
  obtain ⟨r, hr, hs⟩ := List.mem_map.mp (h.staged rec hrec)
  exact ⟨r, hr, by simpa using congrArg OutboxRecord.id hs⟩

theorem Inv.stage (h : c.Inv) (s : Staging) : (c.stage s).Inv := by
  have hold : ∀ r ∈ c.outbox.rows, r.id < c.outbox.nextId + 1 := by
    intro r hr
    have := (h.numbered.mem_iff r.id).mp ⟨r, hr, rfl⟩
    rw [h.nextId]
    omega
  refine ⟨?_, ?_, ?_, ?_, ?_, h.inOrder⟩
  · show NumberedRows (c.outbox.rows ++ [_])
    unfold NumberedRows
    rw [List.map_append, h.numbered, List.length_append, List.length_singleton, List.range'_concat, h.nextId]
    simp [Nat.add_comm]
  · show c.outbox.nextId + 1 = (c.outbox.rows ++ [_]).length
    rw [List.length_append, List.length_singleton, h.nextId]
  · show (c.outbox.rows ++ [_]).Pairwise _
    refine List.pairwise_append.mpr ⟨h.downward, List.pairwise_singleton .., ?_⟩
    intro r _ r' hr' hd
    rw [List.mem_singleton.mp hr'] at hd
    cases hd
  · intro r hr hd
    rcases List.mem_append.mp hr with hr | hr
    · exact h.published r hr hd
    · rw [List.mem_singleton.mp hr] at hd
      cases hd
  · intro rec hrec
    show rec.sent ∈ (c.outbox.rows ++ [_]).map OutboxRecord.sent
    rw [List.map_append]
    exact List.mem_append_left _ (h.staged rec hrec)

theorem keeps_stage (h : c.Inv) (s : Staging) : Machine.Keeps Inv Pending c (c.stage s) [] := by
  refine ⟨h.stage s, nofun, fun i hi => ?_⟩
  refine hi.of_later (d := c.stage s) (later_append fun r hr => ?_) (fun _ hid => hid) h.old
  have := (h.numbered.mem_iff r.id).mp ⟨r, hr, rfl⟩
  show r.id < c.outbox.nextId + 1
  rw [h.nextId]
  omega

/-- A publication: the rows before it are delivered, so they were published. -/
theorem keeps_publish (h : c.Inv) {rec : OutboxRecord} {rest : List OutboxRecord}
    (hdue : Due c.outbox.rows [] (rec :: rest)) :
    Machine.Keeps Inv Pending c { c with published := c.published ++ [rec] } [.markDelivered rec.id rest] := by
  obtain ⟨hstaged, hbefore, hrest⟩ := hdue
  have hdelivered : ∀ r ∈ c.outbox.rows, r.id < rec.id → r.delivered = true :=
    fun r hr hlt => (hbefore r hr hlt).resolve_right (by simp)
  have hmem : ∀ id ∈ c.published.map (·.id), id ∈ (c.published ++ [rec]).map (·.id) := by
    intro id hid
    rw [List.map_append]
    exact List.mem_append_left _ hid
  obtain ⟨x, hx, hxs⟩ := List.mem_map.mp hstaged
  have hxid : x.id = rec.id := by simpa using congrArg OutboxRecord.id hxs
  have hlast := (h.numbered.mem_iff rec.id).mp ⟨x, hx, hxid⟩
  refine ⟨⟨h.numbered, h.nextId, h.downward, ?_, ?_, ?_⟩, ?_, ?_⟩
  · exact fun r hr hd => hmem _ (h.published r hr hd)
  · intro r hr
    rcases List.mem_append.mp hr with hr | hr
    · exact h.staged r hr
    · rw [List.mem_singleton.mp hr]
      exact hstaged
  · apply h.inOrder.append
    intro id h1 hlt
    obtain ⟨r, hr, rfl⟩ := (h.numbered.mem_iff id).mpr ⟨h1, by omega⟩
    exact h.published r hr (hdelivered r hr hlt)
  · intro i hi
    rw [List.mem_singleton.mp hi]
    refine ⟨?_, hdelivered, hrest⟩
    show rec.id ∈ (c.published ++ [rec]).map (·.id)
    simp
  · intro i hi
    have hsame : Later c.outbox.rows c.outbox.rows := ⟨fun _ hs => hs, fun r hr => Or.inl ⟨r, hr, rfl, id⟩⟩
    exact hi.of_later (d := { c with published := c.published ++ [rec] }) hsame hmem h.old

/-- An acknowledgement: the rows before it are delivered, so the delivered ones are still the first. -/
theorem keeps_markDelivered (h : c.Inv) {id : Nat} {rest : List OutboxRecord}
    (hp : c.Pending (.markDelivered id rest)) :
    Machine.Keeps Inv Pending c { c with outbox := c.outbox.markDelivered id } [.publish rest] := by
  obtain ⟨hpublished, hbefore, hdue⟩ := hp
  have hmap := markFirst_eq_map h.numbered.increasing id
  have hlater := later_markFirst h.numbered id
  refine ⟨⟨h.numbered.markFirst id, ?_, ?_, ?_, ?_, h.inOrder⟩, ?_, ?_⟩
  · show c.outbox.nextId = (markFirst id c.outbox.rows).length
    rw [hmap, List.length_map]
    exact h.nextId
  · show (markFirst id c.outbox.rows).Pairwise _
    rw [hmap, List.pairwise_map]
    refine (h.downward.and h.numbered.increasing).imp_of_mem ?_
    rintro r r' hr hr' ⟨hdown, hlt⟩ hd
    split at hd
    · next he =>
      have hr := hbefore r hr (by omega)
      split
      · rfl
      · exact hr
    · have hr := hdown hd
      split
      · rfl
      · exact hr
  · intro r hr hd
    replace hr : r ∈ markFirst id c.outbox.rows := hr
    rw [hmap] at hr
    obtain ⟨x, hx, rfl⟩ := List.mem_map.mp hr
    split at hd
    · next he =>
      rw [if_pos he, OutboxRecord.sent_id, he]
      exact hpublished
    · next he =>
      rw [if_neg he]
      exact h.published x hx hd
  · intro r hr
    show r.sent ∈ (markFirst id c.outbox.rows).map OutboxRecord.sent
    rw [map_sent_markFirst]
    exact h.staged r hr
  · intro i hi
    rw [List.mem_singleton.mp hi]
    refine Due.of_later hlater hdue fun r' hr' hmem => Or.inl ?_
    replace hr' : r' ∈ markFirst id c.outbox.rows := hr'
    rw [hmap] at hr'
    obtain ⟨x, hx, rfl⟩ := List.mem_map.mp hr'
    split
    · rfl
    · next he =>
      rw [if_neg he, List.mem_singleton] at hmem
      exact absurd hmem he
  · intro i hi
    exact hi.of_later (d := { c with outbox := c.outbox.markDelivered id }) hlater (fun _ hid => hid) h.old

theorem keeps_instr (h : c.Inv) {i : RelayStep} (hp : c.Pending i) {accepted : Bool} {c' : Relaying}
    {more : List RelayStep} (hi : c.instr i accepted = some (c', more)) : Machine.Keeps Inv Pending c c' more := by
  cases i with
  | fetchPending limit =>
    cases hi
    refine ⟨h, fun i hi => ?_, fun i hi => hi⟩
    rw [List.mem_singleton.mp hi]
    exact due_fetchPending h.numbered.increasing limit
  | publish batch =>
    cases batch with
    | nil =>
      cases hi
      exact ⟨h, nofun, fun i hi => hi⟩
    | cons rec rest =>
      cases accepted with
      | false =>
        cases hi
        exact ⟨h, nofun, fun i hi => hi⟩
      | true =>
        cases hi
        exact keeps_publish h hp
  | markDelivered id rest =>
    cases hi
    exact keeps_markDelivered h hp

/-! ## Delivery -/

/-- The number of delivered rows. -/
def deliveredCount (c : Relaying) : Nat := c.outbox.rows.countP (·.delivered)

/-- Delivery at least once and in order of what was staged. -/
structure DeliversInOrder (c : Relaying) (stagings : List Staging) : Prop where
  /-- No staged row is lost. -/
  rows : c.outbox.rows.map OutboxRecord.staging = stagings
  ids : c.outbox.rows.map (·.id) = List.range' 1 stagings.length
  deliveredFirst : ∀ r ∈ c.outbox.rows, r.delivered = true ↔ r.id ≤ c.deliveredCount
  published : ∀ r ∈ c.outbox.rows, r.delivered = true → ∃ rec ∈ c.published, rec.sent = r.sent
  inOrder : FirstsInOrder c.published
  /-- Each row that is not delivered is in a fetch that reaches it. -/
  pending : ∀ r ∈ c.outbox.rows, r.delivered = false → ∀ limit, r.id ≤ c.deliveredCount + limit →
    r ∈ c.outbox.fetchPending limit

/-- Rows of which the first are delivered: which they are, and the rest. -/
theorem delivered_iff {rows : List OutboxRecord}
    (h : rows.Pairwise fun r r' => r'.delivered = true → r.delivered = true) (start : Nat)
    (hids : rows.map (·.id) = List.range' start rows.length) :
    ∀ r ∈ rows, r.delivered = true ↔ r.id < start + rows.countP (·.delivered) := by
  induction rows generalizing start with
  | nil => nofun
  | cons r rest ih =>
    obtain ⟨hr, hrest⟩ := List.pairwise_cons.mp h
    rw [List.map_cons, List.length_cons, List.range'_succ] at hids
    obtain ⟨hid, hids⟩ := List.cons_eq_cons.mp hids
    intro x hx
    by_cases hd : r.delivered = true
    · rw [List.countP_cons_of_pos (by simpa using hd)]
      rcases List.mem_cons.mp hx with rfl | hx
      · exact iff_of_true hd (by omega)
      · rw [ih hrest (start + 1) hids x hx]
        omega
    · have hnone : ∀ y ∈ rest, ¬ y.delivered = true := fun y hy hyd => hd (hr y hy hyd)
      rw [List.countP_cons_of_neg (by simpa using hd), List.countP_eq_zero.mpr (by simpa using hnone)]
      have hge : start ≤ x.id := by
        have hmem : x.id ∈ (r :: rest).map (·.id) := List.mem_map_of_mem hx
        rw [List.map_cons, hids, hid, ← List.range'_succ] at hmem
        exact (List.mem_range'_1.mp hmem).1
      refine iff_of_false ?_ (by omega)
      rcases List.mem_cons.mp hx with rfl | hx
      · exact hd
      · exact hnone x hx

/-- The pending rows come after the delivered ones. -/
theorem filter_pending {rows : List OutboxRecord}
    (h : rows.Pairwise fun r r' => r'.delivered = true → r.delivered = true) :
    (rows.filter fun r => !r.delivered) = rows.drop (rows.countP (·.delivered)) := by
  induction rows with
  | nil => rfl
  | cons r rest ih =>
    obtain ⟨hr, hrest⟩ := List.pairwise_cons.mp h
    by_cases hd : r.delivered = true
    · rw [List.filter_cons_of_neg (by simpa using hd), List.countP_cons_of_pos (by simpa using hd),
        List.drop_succ_cons, ih hrest]
    · have hnone : ∀ y ∈ r :: rest, ¬ y.delivered = true := by
        intro y hy hyd
        rcases List.mem_cons.mp hy with rfl | hy
        · exact hd hyd
        · exact hd (hr y hy hyd)
      rw [List.countP_eq_zero.mpr (by simpa using hnone), List.drop_zero]
      exact List.filter_eq_self.mpr (by simpa using hnone)

theorem Inv.deliversInOrder (h : c.Inv) : c.DeliversInOrder (c.outbox.rows.map OutboxRecord.staging) := by
  have hdelivered : ∀ r ∈ c.outbox.rows, r.delivered = true ↔ r.id ≤ c.deliveredCount := by
    intro r hr
    rw [delivered_iff h.downward 1 h.numbered r hr]
    unfold deliveredCount
    omega
  refine ⟨rfl, ?_, hdelivered, ?_, h.inOrder, ?_⟩
  · rw [List.length_map]
    exact h.numbered
  · intro r hr hd
    obtain ⟨rec, hrec, hid⟩ := List.mem_map.mp (h.published r hr hd)
    refine ⟨rec, hrec, ?_⟩
    obtain ⟨x, hx, hxs⟩ := List.mem_map.mp (h.staged rec hrec)
    have hxid : x.id = r.id := by simpa [hid] using congrArg OutboxRecord.id hxs
    have hnodup : (c.outbox.rows.map (·.id)).Nodup := by
      rw [h.numbered]
      exact List.nodup_range'
    rw [← hxs, List.inj_on_of_nodup_map hnodup hx hr hxid]
  · intro r hr hd limit hreach
    obtain ⟨k, hk, rfl⟩ := List.getElem_of_mem hr
    have hid : c.outbox.rows[k].id = k + 1 := by
      have hget := congrArg (fun l => l[k]?) h.numbered
      simpa [List.getElem?_range', hk, Nat.add_comm] using hget
    have hafter : c.deliveredCount ≤ k := by
      have := (hdelivered _ hr).not.mp (by simp [hd])
      omega
    show c.outbox.rows[k] ∈ (c.outbox.rows.filter fun r => !r.delivered).take limit
    rw [filter_pending h.downward]
    apply List.mem_of_getElem? (i := k - c.deliveredCount)
    rw [List.getElem?_take, if_pos (by omega), List.getElem?_drop]
    rw [show c.outbox.rows.countP (·.delivered) + (k - c.deliveredCount) = k by unfold deliveredCount at *; omega]
    exact List.getElem?_eq_getElem hk

end Relaying

/-- What was staged in a run. -/
def stagings (as : List (Machine.Label Bool Nat Staging)) : List Staging :=
  as.filterMap fun
    | .env s => some s
    | _ => none

theorem staging_instr {c c' : Relaying} {i : RelayStep} {accepted : Bool} {more : List RelayStep}
    (h : c.instr i accepted = some (c', more)) :
    c'.outbox.rows.map OutboxRecord.staging = c.outbox.rows.map OutboxRecord.staging := by
  cases i with
  | fetchPending limit =>
    cases h
    rfl
  | publish batch =>
    cases batch with
    | nil =>
      cases h
      rfl
    | cons rec rest =>
      cases accepted with
      | false =>
        cases h
        rfl
      | true =>
        cases h
        rfl
  | markDelivered id rest =>
    cases h
    exact map_markFirst OutboxRecord.staging (fun _ => rfl) c.outbox.rows id

theorem staging_exec {w t : Machine.State Relaying RelayStep} {as : List (Machine.Label Bool Nat Staging)}
    (h : LabelledRun.exec relays.step w as = some t) :
    t.core.outbox.rows.map OutboxRecord.staging = w.core.outbox.rows.map OutboxRecord.staging ++ stagings as := by
  induction as generalizing w with
  | nil =>
    cases h
    exact (List.append_nil _).symm
  | cons a as ih =>
    obtain ⟨u, hu, h⟩ := Option.bind_eq_some_iff.mp h
    rw [ih h]
    cases relays.moves_of_step hu with
    | spawn op => rfl
    | run next instr =>
      show List.map _ _ ++ stagings as = _
      rw [staging_instr instr]
      rfl
    | env s =>
      show (w.core.outbox.rows ++ [_]).map OutboxRecord.staging ++ stagings as = _ ++ (s :: stagings as)
      rw [List.map_append, List.append_assoc]
      rfl

/-- **Delivery at least once and in order.**  In every interleaving of relay runs and stagings, whichever
publications fail: the rows are the staged messages numbered in order, the delivered ones are the first, each
of them was published before, the first publications are in id order, and each other row is in a fetch that
reaches it. -/
theorem delivers_in_order (as : List (Machine.Label Bool Nat Staging)) (w : Machine.State Relaying RelayStep)
    (h : LabelledRun.exec relays.step { core := {} } as = some w) : w.core.DeliversInOrder (stagings as) := by
  have hgood : LabelledRun.AllStates relays.step (Machine.Good Relaying.Inv Relaying.Pending) { core := {} } as := by
    refine LabelledRun.allStates_of_step relays.step ?_ as (Machine.good_init Relaying.inv_new)
    intro u a t hu ht
    refine relays.good_step ?_ (fun _ s hc => Relaying.keeps_stage hc s) hu ht ?_
    · intro _ _ _ i hi
      rw [List.mem_singleton.mp hi]
      trivial
    · intro _ _ _ _ _ _ _ hp hi
      exact Relaying.keeps_instr hu.core hp hi
  have hinv := (hgood.last relays.step h).core
  have hrows := staging_exec h
  rw [show ({} : Relaying).outbox.rows = [] from rfl, List.map_nil, List.nil_append] at hrows
  rw [← hrows]
  exact hinv.deliversInOrder

/-- Two relays fetch the same row and both publish it; a second row is staged in between, and a publication
of it fails. -/
theorem delivers_in_order_two_relays :
    Relaying.DeliversInOrder
      { outbox := { rows := [⟨1, "ledger.A", [97], true, 0⟩, ⟨2, "ledger.B", [98], false, 5⟩], nextId := 2 }
        published := [⟨1, "ledger.A", [97], false, 0⟩, ⟨1, "ledger.A", [97], false, 0⟩] }
      [⟨"ledger.A", [97], 0⟩, ⟨"ledger.B", [98], 5⟩] :=
  delivers_in_order
    [.env ⟨"ledger.A", [97], 0⟩, .spawn 10, .spawn 10, .run 0 true, .run 1 true, .run 1 true,
      .env ⟨"ledger.B", [98], 5⟩, .run 0 true, .run 1 true, .run 0 true, .spawn 3, .run 2 true, .run 2 false]
    { core := _, threads := [[.publish []], [.publish []], []] } rfl

end TptErp.Ledger
