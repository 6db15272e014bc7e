import TptErp.Ledger.PostgresStore
import TptErp.Lib.GroupBy

/-!
# Reloading the log

`load` appends the rows of the `events` table to the in-memory store, in the order of its query: by sequence
number, ties in any order.  It numbers the events again and stamps them with the time of the load.

`reload_iff` says when the reloaded log is the stored one.
-/

namespace TptErp.Ledger

variable {A V : Type}

/-! ## Logs that number their events -/

/-- The event that was appended. -/
def StoredEvent.event {P : Type} (e : StoredEvent A P) : Event A P :=
  { aggregateId := e.aggregateId, eventType := e.eventType, payload := e.payload }

section
variable {P : Type} [DecidableEq A]

/-- The events of each aggregate are numbered 1, 2, .. -/
def NumberedLog (log : List (StoredEvent A P)) : Prop :=
  ∀ a, (log.filter fun e => e.aggregateId = a).map (·.sequence) =
    List.range' 1 (log.filter fun e => e.aggregateId = a).length

theorem numberedLog_of_numbered {s : InMemoryEventStore A P} (h : s.Numbered) : NumberedLog s.log := by
  intro a
  have hl := InMemoryEventStore.length_stream h a
  have ha := h a
  unfold InMemoryEventStore.stream at hl ha
  rw [ha, hl]

/-- A log that numbers its events is determined by the events. -/
theorem NumberedLog.eq {xs ys : List (StoredEvent A P)} (hx : NumberedLog xs) (hy : NumberedLog ys)
    (h : xs.map StoredEvent.event = ys.map StoredEvent.event) : xs = ys := by
  have hkeys : xs.map (·.aggregateId) = ys.map (·.aggregateId) := by
    have hm := congrArg (List.map Event.aggregateId) h
    rw [List.map_map, List.map_map] at hm
    exact hm
  apply GroupBy.eq_of_filters (·.aggregateId) hkeys
  intro a
  have hf : (xs.filter fun e => e.aggregateId = a).map StoredEvent.event =
      (ys.filter fun e => e.aggregateId = a).map StoredEvent.event := by
    have hm := congrArg (List.filter fun e : Event A P => e.aggregateId = a) h
    rw [List.filter_map, List.filter_map] at hm
    exact hm
  have hs : (xs.filter fun e => e.aggregateId = a).map (·.sequence) =
      (ys.filter fun e => e.aggregateId = a).map (·.sequence) := by
    have hl := congrArg List.length hf
    rw [List.length_map, List.length_map] at hl
    rw [hx a, hy a, hl]
  generalize (xs.filter fun e => e.aggregateId = a) = us at hf hs
  generalize (ys.filter fun e => e.aggregateId = a) = vs at hf hs
  induction us generalizing vs with
  | nil => exact (List.map_eq_nil_iff.mp hf.symm).symm
  | cons u us ih =>
    cases vs with
    | nil => cases hf
    | cons v vs =>
      obtain ⟨hu, hf⟩ := List.cons_eq_cons.mp hf
      obtain ⟨hn, hs⟩ := List.cons_eq_cons.mp hs
      rw [ih vs hf hs]
      congr 1
      obtain ⟨a₁, n₁, t₁, p₁⟩ := u
      obtain ⟨a₂, n₂, t₂, p₂⟩ := v
      cases hu
      cases hn
      rfl

/-- The store after a list of appends. -/
def InMemoryEventStore.appendAll (s : InMemoryEventStore A P) (es : List (Event A P)) : InMemoryEventStore A P :=
  s.runOps (es.map .append)

theorem events_appendAll (s : InMemoryEventStore A P) (es : List (Event A P)) :
    (s.appendAll es).log.map StoredEvent.event = s.log.map StoredEvent.event ++ es := by
  induction es generalizing s with
  | nil => exact (List.append_nil _).symm
  | cons e es ih =>
    show ((s.append e).2.appendAll es).log.map StoredEvent.event = _
    rw [ih, InMemoryEventStore.append_log, List.map_append, List.append_assoc]
    rfl

theorem numbered_appendAll {s : InMemoryEventStore A P} (h : s.Numbered) (es : List (Event A P)) :
    (s.appendAll es).Numbered :=
  InMemoryEventStore.numbered_runOps h _

end

/-! ## Loading -/

variable [TextId A]

/-- The stored event that a row was written for. -/
def Row.stored? (r : Row V) : Option (StoredEvent A (Stamped V)) :=
  (TextId.fromText r.aggregateId).map fun a =>
    { aggregateId := a, sequence := r.sequence, eventType := r.eventType
      payload := { value := r.payload, occurredAt := r.occurredAt } }

theorem stored?_row (e : StoredEvent A (Stamped V)) : e.row.stored? = some e := by
  unfold Row.stored? StoredEvent.row
  rw [TextId.fromText_toText]
  rfl

/-- The event that `load` appends for a row at a time; none when the id does not read back. -/
def Row.event? (r : Row V) (now : Int) : Option (Event A (Stamped V)) :=
  (TextId.fromText r.aggregateId).map fun a =>
    ({ aggregateId := a, eventType := r.eventType, payload := r.payload } : Event A V).stamp now

theorem event?_row (e : StoredEvent A (Stamped V)) (now : Int) :
    (e.row.event? now : Option (Event A (Stamped V))) =
      some { aggregateId := e.aggregateId, eventType := e.eventType
             payload := { value := e.payload.value, occurredAt := now } } := by
  unfold Row.event? StoredEvent.row
  rw [TextId.fromText_toText]
  rfl

theorem map_row_stored? {rows : List (Row V)} (h : ∀ r ∈ rows, ∃ e : StoredEvent A (Stamped V), r = e.row) :
    (rows.filterMap (Row.stored? (A := A))).map StoredEvent.row = rows := by
  induction rows with
  | nil => rfl
  | cons r rows ih =>
    obtain ⟨e, rfl⟩ := h r List.mem_cons_self
    rw [List.filterMap_cons, stored?_row]
    dsimp only
    rw [List.map_cons, ih fun r hr => h r (List.mem_cons_of_mem _ hr)]

/-- The events of rows appended again, against those stored: the ids are the same. -/
theorem ids_reappended {answer : List (Row V × Int)}
    (h : ∀ x ∈ answer, ∃ e : StoredEvent A (Stamped V), x.1 = e.row) :
    (answer.filterMap fun x => (x.1.event? x.2 : Option (Event A (Stamped V)))).map (·.aggregateId) =
      ((answer.map (·.1)).filterMap (Row.stored? (A := A))).map (·.aggregateId) := by
  induction answer with
  | nil => rfl
  | cons x answer ih =>
    obtain ⟨row, now⟩ := x
    obtain ⟨e, rfl⟩ : ∃ e : StoredEvent A (Stamped V), row = e.row := h _ List.mem_cons_self
    have hrest := ih fun x hx => h x (List.mem_cons_of_mem _ hx)
    rw [List.filterMap_cons, List.map_cons, List.filterMap_cons, stored?_row]
    dsimp only
    rw [event?_row]
    dsimp only
    rw [List.map_cons, List.map_cons, hrest]

/-- They are the same events when the clock shows the stored times again. -/
theorem reappended_eq_iff {answer : List (Row V × Int)}
    (h : ∀ x ∈ answer, ∃ e : StoredEvent A (Stamped V), x.1 = e.row) :
    (answer.filterMap fun x => (x.1.event? x.2 : Option (Event A (Stamped V)))) =
        ((answer.map (·.1)).filterMap (Row.stored? (A := A))).map StoredEvent.event ↔
      ∀ x ∈ answer, x.2 = x.1.occurredAt := by
  induction answer with
  | nil => exact iff_of_true rfl nofun
  | cons x answer ih =>
    obtain ⟨row, now⟩ := x
    obtain ⟨e, rfl⟩ : ∃ e : StoredEvent A (Stamped V), row = e.row := h _ List.mem_cons_self
    rw [List.filterMap_cons, List.map_cons, List.filterMap_cons, stored?_row]
    dsimp only
    rw [event?_row]
    dsimp only
    rw [List.map_cons, List.cons_eq_cons, ih fun x hx => h x (List.mem_cons_of_mem _ hx), List.forall_mem_cons]
    apply and_congr_left
    intro _
    obtain ⟨a, n, t, v, o⟩ := e
    show (_ : Event A (Stamped V)) = _ ↔ now = o
    simp [StoredEvent.event]

namespace Durable

variable [DecidableEq A] (d : Durable A V)

/-- The loop of `load` over the rows, each with the time at which it is appended again. -/
def reappend (cache : InMemoryEventStore A (Stamped V)) : List (Row V × Int) → InMemoryEventStore A (Stamped V)
  | [] => cache
  | (row, now) :: rest =>
    match row.event? now with
    | none => reappend cache rest
    | some e => reappend (cache.append e).2 rest

/-- `load`, with what the query comes to. -/
def load (answer : Except DurableError (List (Row V × Int))) : Except DurableError Unit × Durable A V :=
  match answer with
  | .error err => (.error err, d)
  | .ok rows => (.ok (), { d with store := { d.store with cache := reappend d.store.cache rows } })

/-- A new process over the same table. -/
def restart : Durable A V := { rows := d.rows }

theorem reappend_eq (cache : InMemoryEventStore A (Stamped V)) (answer : List (Row V × Int)) :
    reappend cache answer = cache.appendAll (answer.filterMap fun x => x.1.event? x.2) := by
  induction answer generalizing cache with
  | nil => rfl
  | cons x rest ih =>
    obtain ⟨row, now⟩ := x
    unfold reappend
    rw [List.filterMap_cons]
    cases (row.event? now : Option (Event A (Stamped V))) with
    | none => exact ih cache
    | some e => exact ih (cache.append e).2

/-- The events of the table's rows, in the order they were inserted in. -/
def storedEvents : List (StoredEvent A (Stamped V)) := d.rows.filterMap Row.stored?

/-! ## Lives of a store -/

/-- Appends, restarts and loads. -/
inductive Life (A V : Type)
  | call (c : Call A V)
  | restart
  | load (answer : Except DurableError (List (Row V × Int)))

def live : Life A V → Option (Durable A V)
  | .call c => d.step c
  | .restart => some d.restart
  | .load answer => some (d.load answer).2

/-- The in-memory store numbers its events; no key is in the table twice; every row was written for an event. -/
structure Sound : Prop where
  numbered : d.store.cache.Numbered
  keys : (d.rows.map Row.key).Nodup
  rows : ∀ r ∈ d.rows, ∃ e : StoredEvent A (Stamped V), r = e.row

variable {d}

theorem nodup_insertRow {rows : List (Row V)} (h : (rows.map Row.key).Nodup) (row : Row V) (w : Write) :
    ((insertRow rows row w).2.map Row.key).Nodup := by
  rcases insertRow_rows rows row w with he | ⟨hnew, he⟩
  · rw [he]
    exact h
  · rw [he, List.map_append, List.map_singleton]
    exact List.nodup_append'.mpr ⟨h, List.nodup_singleton _, by simpa using hnew⟩

/-- An event is appended in memory, and its row written or not. -/
theorem Sound.withWrite (h : d.Sound) (e : Event A V) (now : Int) (w : Write) :
    (d.withWrite (d.appended e now) (insertRow d.rows (d.next e now).row w).2).Sound := by
  refine ⟨InMemoryEventStore.numbered_append h.numbered _, nodup_insertRow h.keys _ _, ?_⟩
  intro r hr
  rcases insertRow_rows d.rows (d.next e now).row w with he | ⟨-, he⟩
  · exact h.rows r (he ▸ hr)
  · rcases List.mem_append.mp (he ▸ hr) with hr | hr
    · exact h.rows r hr
    · exact ⟨_, List.mem_singleton.mp hr⟩

theorem Sound.writeThrough (h : d.Sound) (e : Event A V) (now : Int) (w : Write) :
    (d.writeThrough e now w).2.Sound := by
  have hw := h.withWrite e now w
  rw [writeThrough_eq]
  dsimp only
  split
  · exact hw
  · exact ⟨hw.numbered, hw.keys, hw.rows⟩

theorem Sound.writeVersioned (h : d.Sound) (e : Event A V) (expected : Nat) (now : Int) (w : Write) :
    (d.writeVersioned e expected now w).2.Sound := by
  rw [writeVersioned_eq]
  split
  · exact h.withWrite e now w
  · exact h

theorem Sound.call (h : d.Sound) (c : Call A V) : (d.call c).2.Sound := by
  obtain ⟨op, now, w⟩ := c
  cases op with
  | append e => exact h.writeThrough e now w
  | appendVersioned e expected => exact h.writeVersioned e expected now w
  | appendVersionedAsync e expected => exact h.writeVersioned e expected now w
  | appendAsync e =>
    have hw := h.writeThrough e now w
    rw [call_appendAsync]
    exact ⟨hw.numbered, hw.keys, hw.rows⟩

theorem sound_live {t : Durable A V} {l : Life A V} (h : d.Sound) (ht : d.live l = some t) : t.Sound := by
  cases l with
  | call c =>
    cases ht
    exact h.call c
  | restart =>
    cases ht
    exact ⟨InMemoryEventStore.numbered_new, h.keys, h.rows⟩
  | load answer =>
    cases ht
    cases answer with
    | error err => exact h
    | ok answer =>
      refine ⟨?_, h.keys, h.rows⟩
      show (reappend d.store.cache answer).Numbered
      rw [reappend_eq]
      exact numbered_appendAll h.numbered _

theorem sound_new : ({} : Durable A V).Sound :=
  ⟨InMemoryEventStore.numbered_new, List.nodup_nil, nofun⟩

theorem Sound.of_exec {t : Durable A V} {ls : List (Life A V)} (h : d.Sound)
    (ht : LabelledRun.exec live d ls = some t) : t.Sound :=
  (LabelledRun.allStates_of_step live (fun _ _ _ hs hu => sound_live hs hu) ls h).last live ht

/-! ## When the log is reproduced -/

/-- The query answers all rows, by sequence number; rows with the same number come in any order. -/
structure AnswersQuery (rows : List (Row V)) (answer : List (Row V × Int)) : Prop where
  perm : (answer.map (·.1)).Perm rows
  sorted : (answer.map (·.1)).Pairwise fun r r' => r.sequence ≤ r'.sequence

/-- `replay_point_in_time`: the first events of a log, converted and applied one after the other. -/
def replayPointInTime {S E Err : Type} (apply : S → E → Except Err S) (projector : S)
    (log : List (StoredEvent A (Stamped V))) (uptoIndex : Nat) (convert : StoredEvent A (Stamped V) → Except Err E) :
    Except Err S :=
  let stop := min log.length uptoIndex
  (log.take stop).foldlM (fun p ev => convert ev >>= apply p) projector

/-- The log is `events`, and every replay of it is one of `events`. -/
structure Reproduces (events : List (StoredEvent A (Stamped V))) (d : Durable A V) : Prop where
  log : d.store.cache.log = events
  replay : ∀ (S E Err : Type) (apply : S → E → Except Err S) (projector : S) (uptoIndex : Nat)
    (convert : StoredEvent A (Stamped V) → Except Err E),
    replayPointInTime apply projector d.store.cache.log uptoIndex convert =
      replayPointInTime apply projector events uptoIndex convert

variable (d) in
/-- The store is empty, the answer has the rows in the order they were inserted in, each aggregate's rows are
numbered 1, 2, .. in it, and the clock shows their times again. -/
structure Reloadable (answer : List (Row V × Int)) : Prop where
  empty : d.store.cache.log = []
  inOrder : answer.map (·.1) = d.rows
  gapless : ∀ id, (d.rows.filter fun r => r.aggregateId = id).map (·.sequence) =
    List.range' 1 (d.rows.filter fun r => r.aggregateId = id).length
  sameTime : ∀ x ∈ answer, x.2 = x.1.occurredAt

theorem Sound.map_row (h : d.Sound) : d.storedEvents.map StoredEvent.row = d.rows := map_row_stored? h.rows

/-- The rows are numbered without gaps exactly when their events are. -/
theorem Sound.gapless_iff (h : d.Sound) :
    (∀ id, (d.rows.filter fun r => r.aggregateId = id).map (·.sequence) =
      List.range' 1 (d.rows.filter fun r => r.aggregateId = id).length) ↔ NumberedLog d.storedEvents := by
  have hgroup : ∀ a, d.rows.filter (fun r => r.aggregateId = TextId.toText a) =
      (d.storedEvents.filter fun e => e.aggregateId = a).map StoredEvent.row := by
    intro a
    rw [← h.map_row, List.filter_map]
    congr 1
    apply List.filter_congr
    intro e _
    exact decide_eq_decide.mpr toText_injective.eq_iff
  constructor
  · intro hg a
    have ha := hg (TextId.toText a)
    rw [hgroup, List.map_map, List.length_map] at ha
    exact ha
  · intro hn id
    by_cases hid : ∃ r ∈ d.rows, r.aggregateId = id
    · obtain ⟨r, hr, rfl⟩ := hid
      obtain ⟨e, rfl⟩ := h.rows r hr
      rw [show e.row.aggregateId = TextId.toText e.aggregateId from rfl, hgroup, List.map_map, List.length_map]
      exact hn e.aggregateId
    · rw [List.filter_eq_nil_iff.mpr fun r hr => by simpa using fun he => hid ⟨r, hr, he⟩]
      rfl

/-- Rows numbered without gaps, answered with the ids in the order they were inserted in, are answered in
that order. -/
theorem Sound.inOrder (h : d.Sound) {answer : List (Row V × Int)} (ha : AnswersQuery d.rows answer)
    (hn : NumberedLog d.storedEvents)
    (hids : ((answer.map (·.1)).filterMap (Row.stored? (A := A))).map (·.aggregateId) =
      d.storedEvents.map (·.aggregateId)) : answer.map (·.1) = d.rows := by
  have hrow : ∀ r ∈ answer.map (·.1), ∃ e : StoredEvent A (Stamped V), r = e.row :=
    fun r hr => h.rows r (ha.perm.mem_iff.mp hr)
  have hM := map_row_stored? hrow
  rw [← hM, ← h.map_row]
  congr 1
  apply GroupBy.eq_of_filters (·.aggregateId) hids
  intro a
  have hperm : ((answer.map (·.1)).filterMap (Row.stored? (A := A))).Perm d.storedEvents := ha.perm.filterMap _
  have hkeys : ((d.storedEvents.map StoredEvent.row).map Row.key).Nodup := by
    rw [h.map_row]
    exact h.keys
  have hsorted : ∀ l : List (StoredEvent A (Stamped V)), (l.map (·.sequence)).Pairwise (· ≤ ·) →
      l.Pairwise fun e e' => e.sequence ≤ e'.sequence := fun l hl => List.pairwise_map.mp hl
  have hanswered := ha.sorted
  rw [← hM, List.pairwise_map] at hanswered
  refine List.Perm.eq_of_pairwise ?_ (hanswered.filter _) (hsorted _ ?_) (hperm.filter _)
  · -- the same aggregate and the same number: the same key, so the same event
    intro e e' he he' h1 h2
    obtain ⟨he, hea⟩ := List.mem_filter.mp he
    obtain ⟨he', hea'⟩ := List.mem_filter.mp he'
    rw [List.map_map] at hkeys
    apply List.inj_on_of_nodup_map hkeys (hperm.mem_iff.mp he) he'
    have hid : e.aggregateId = e'.aggregateId := by
      rw [of_decide_eq_true hea, of_decide_eq_true hea']
    have hseq : e.sequence = e'.sequence := le_antisymm h1 h2
    show (TextId.toText e.aggregateId, e.sequence) = (TextId.toText e'.aggregateId, e'.sequence)
    rw [hid, hseq]
  · rw [hn a]
    exact List.pairwise_le_range'

/-- A load after which the log is the stored one has found an empty store. -/
theorem Sound.load_log (h : d.Sound) {answer : List (Row V × Int)} (ha : AnswersQuery d.rows answer) :
    (d.load (.ok answer)).2.store.cache.log = d.storedEvents ↔ d.Reloadable answer := by
  have hrow : ∀ x ∈ answer, ∃ e : StoredEvent A (Stamped V), x.1 = e.row :=
    fun x hx => h.rows x.1 (ha.perm.mem_iff.mp (List.mem_map_of_mem hx))
  have hids := ids_reappended hrow
  have htimes := reappended_eq_iff hrow
  show (reappend d.store.cache answer).log = _ ↔ _
  rw [reappend_eq]
  generalize (answer.filterMap fun x => (x.1.event? x.2 : Option (Event A (Stamped V)))) = es at hids htimes
  have hevents := events_appendAll d.store.cache es
  have hnum := numberedLog_of_numbered (numbered_appendAll h.numbered es)
  constructor
  · intro hlog
    rw [hlog] at hevents hnum
    -- as many events are appended as there are rows, so none was there before
    have hlen : es.length = d.storedEvents.length := by
      have h1 := congrArg List.length hids
      have h2 := congrArg List.length (map_row_stored? (A := A) fun r hr => h.rows r (ha.perm.mem_iff.mp hr))
      have h3 := congrArg List.length h.map_row
      have h4 := ha.perm.length_eq
      simp only [List.length_map] at h1 h2 h3 h4
      omega
    have hempty : d.store.cache.log = [] := by
      have := congrArg List.length hevents
      simp only [List.length_append, List.length_map] at this
      exact List.eq_nil_of_length_eq_zero (by omega)
    rw [hempty, List.map_nil, List.nil_append] at hevents
    have hin : answer.map (·.1) = d.rows := by
      apply h.inOrder ha hnum
      rw [← hids, ← hevents, List.map_map]
      rfl
    refine ⟨hempty, hin, h.gapless_iff.mpr hnum, htimes.mp ?_⟩
    rw [hin]
    exact hevents.symm
  · intro hr
    apply NumberedLog.eq hnum (h.gapless_iff.mp hr.gapless)
    rw [hevents, hr.empty, htimes.mpr hr.sameTime, hr.inOrder]
    rfl

/-! ## The log that was stored -/

variable (d) in
/-- The events of the in-memory log whose rows are in the table. -/
def storedLog : List (StoredEvent A (Stamped V)) :=
  d.store.cache.log.filter fun e => (d.rows.map Row.key).contains e.row.key

variable (d) in
/-- The rows are those of the stored events of the log, in the order of the log. -/
def InStep : Prop := d.rows = d.storedLog.map StoredEvent.row

theorem InStep.withWrite (hs : d.Sound) (h : d.InStep) (e : Event A V) (now : Int) (w : Write) :
    (d.withWrite (d.appended e now) (insertRow d.rows (d.next e now).row w).2).InStep := by
  -- the next number is above those of the aggregate's events in the log
  have hnew : ∀ x ∈ d.store.cache.log, x.row.key ≠ (d.next e now).row.key := by
    intro x hx hkey
    obtain ⟨hid, hseq⟩ := Prod.mk.inj hkey
    have hmem : x.sequence ∈ (d.store.cache.stream e.aggregateId).map (·.sequence) := by
      apply List.mem_map_of_mem
      apply List.mem_filter.mpr ⟨hx, decide_eq_true (toText_injective hid)⟩
    rw [hs.numbered] at hmem
    have : x.sequence = d.store.cache.version e.aggregateId + 1 := hseq
    simp at hmem
    omega
  have hout : (d.next e now).row.key ∉ d.rows.map Row.key := by
    intro hmem
    rw [h, List.map_map] at hmem
    obtain ⟨x, hx, hkey⟩ := List.mem_map.mp hmem
    exact hnew x (List.mem_filter.mp hx).1 hkey
  have hlog : (d.withWrite (d.appended e now) (insertRow d.rows (d.next e now).row w).2).store.cache.log =
      d.store.cache.log ++ [d.next e now] := InMemoryEventStore.append_log d.store.cache (e.stamp now)
  unfold InStep storedLog
  rw [hlog, List.filter_append, List.map_append]
  show (insertRow d.rows (d.next e now).row w).2 =
    (d.store.cache.log.filter fun x =>
        ((insertRow d.rows (d.next e now).row w).2.map Row.key).contains x.row.key).map _ ++
      ([d.next e now].filter fun x =>
        ((insertRow d.rows (d.next e now).row w).2.map Row.key).contains x.row.key).map _
  rcases insertRow_rows d.rows (d.next e now).row w with he | ⟨-, he⟩
  · rw [he, List.filter_cons_of_neg (by simpa using hout), List.filter_nil, List.map_nil, List.append_nil]
    exact h
  · have hold : (d.store.cache.log.filter fun x => ((d.rows ++ [(d.next e now).row]).map Row.key).contains x.row.key) =
        d.storedLog := by
      apply List.filter_congr
      intro x hx
      rw [List.map_append, List.map_singleton]
      simp [hnew x hx]
    rw [he, hold, List.filter_cons_of_pos (by simp), List.filter_nil, List.map_singleton, ← h]

theorem InStep.call (hs : d.Sound) (h : d.InStep) (c : Call A V) : (d.call c).2.InStep := by
  have hthrough : ∀ e now w, (d.writeThrough e now w).2.InStep := by
    intro e now w
    have hw := h.withWrite hs e now w
    rw [writeThrough_eq]
    dsimp only
    split
    · exact hw
    · exact hw
  have hversioned : ∀ e expected now w, (d.writeVersioned e expected now w).2.InStep := by
    intro e expected now w
    rw [writeVersioned_eq]
    split
    · exact h.withWrite hs e now w
    · exact h
  obtain ⟨op, now, w⟩ := c
  cases op with
  | append e => exact hthrough e now w
  | appendVersioned e expected => exact hversioned e expected now w
  | appendVersionedAsync e expected => exact hversioned e expected now w
  | appendAsync e =>
    rw [call_appendAsync]
    exact hthrough e now w

/-- Without restarts and loads, the table has the stored events of the log. -/
theorem storedEvents_of_calls {d t : Durable A V} {calls : List (Call A V)} (hs : d.Sound) (h : d.InStep)
    (ht : LabelledRun.exec live d (calls.map .call) = some t) : t.storedEvents = t.storedLog := by
  induction calls generalizing d with
  | nil =>
    obtain rfl := Option.some.inj ht
    have hmap : ∀ es : List (StoredEvent A (Stamped V)),
        (es.map StoredEvent.row).filterMap (Row.stored? (A := A)) = es := by
      intro es
      induction es with
      | nil => rfl
      | cons e es ih => rw [List.map_cons, List.filterMap_cons_some (stored?_row e), ih]
    unfold storedEvents
    rw [h, hmap]
  | cons c cs ih => exact ih (hs.call c) (h.call hs c) ht

/-- **When a reload reproduces the history.**  After any appends, restarts and loads, a load (of the same
process or a new one) gives the log of the stored events, and all its replays, exactly when the load finds
an empty store, the query answers the rows in the order they were inserted in, each aggregate's rows are
numbered without gaps in it, and the clock shows their times again.  The stored events are those of the log
that was appended, where nothing but appends has happened. -/
theorem reload_iff (lives : List (Life A V)) (d : Durable A V) (hd : LabelledRun.exec live {} lives = some d)
    (restarted : Bool) (answer : List (Row V × Int)) (ha : AnswersQuery d.rows answer) :
    let before := if restarted then d.restart else d
    (Reproduces d.storedEvents (before.load (.ok answer)).2 ↔ before.Reloadable answer) ∧
      ∀ calls : List (Call A V), lives = calls.map .call → d.storedEvents = d.storedLog := by
  intro before
  have hs : d.Sound := sound_new.of_exec hd
  have hrows : before.rows = d.rows := by
    show (if restarted then d.restart else d).rows = d.rows
    split <;> rfl
  have hb : before.Sound := by
    show (if restarted then d.restart else d).Sound
    split
    · exact sound_live (l := .restart) hs rfl
    · exact hs
  have hlog := hb.load_log (by rw [hrows]; exact ha : AnswersQuery before.rows answer)
  have hstored : before.storedEvents = d.storedEvents := congrArg (List.filterMap Row.stored?) hrows
  constructor
  · rw [← hlog, hstored]
    constructor
    · exact fun h => h.log
    · intro h
      exact ⟨h, fun S E Err apply projector uptoIndex convert => by rw [h]⟩
  · rintro calls rfl
    exact storedEvents_of_calls sound_new rfl hd

/-- An event appended by `append` and written. -/
def appendCall (aggregateId : String) (now : Int) : Life String String :=
  .call ⟨.append { aggregateId := aggregateId, eventType := "Created", payload := "payload" }, now, .done⟩

/-- The row of such an event. -/
def appendedRow (aggregateId : String) (sequence : Nat) (now : Int) : Row String :=
  { aggregateId := aggregateId, sequence := sequence, eventType := "Created", payload := "payload", occurredAt := now }

/-- Events of two aggregates in turn, which the query answers in the order of their insertion. -/
theorem reload_iff_two_aggregates :
    Reproduces
      (Durable.mk (A := String) {} [appendedRow "a" 1 5, appendedRow "b" 1 6, appendedRow "a" 2 7]).storedEvents
      ((Durable.mk {} [appendedRow "a" 1 5, appendedRow "b" 1 6, appendedRow "a" 2 7]).load
        (.ok [(appendedRow "a" 1 5, 5), (appendedRow "b" 1 6, 6), (appendedRow "a" 2 7, 7)])).2 := by
  have h := reload_iff [appendCall "a" 5, appendCall "b" 6, appendCall "a" 7, .restart] _ rfl false
    [(appendedRow "a" 1 5, 5), (appendedRow "b" 1 6, 6), (appendedRow "a" 2 7, 7)] ⟨by decide, by decide⟩
  refine h.1.mpr ⟨rfl, rfl, ?_, by simp [appendedRow]⟩
  intro id
  show List.map _ ([appendedRow "a" 1 5, appendedRow "b" 1 6, appendedRow "a" 2 7].filter fun r => r.aggregateId = id) =
    List.range' 1 ([appendedRow "a" 1 5, appendedRow "b" 1 6, appendedRow "a" 2 7].filter
      fun r => r.aggregateId = id).length
  by_cases ha : "a" = id
  · subst ha
    decide
  · by_cases hb : "b" = id
    · subst hb
      decide
    · simp [appendedRow, ha, hb]

/-- Two events of one aggregate, then one of another: the reloaded log has the third before the second. -/
theorem reload_loses_order :
    ¬ ∀ (lives : List (Life String String)) (d : Durable String String), LabelledRun.exec live {} lives = some d →
      ∀ answer, AnswersQuery d.rows answer → Reproduces d.storedEvents (d.restart.load (.ok answer)).2 := by
  intro h
  have hr := (h [appendCall "a" 0, appendCall "a" 0, appendCall "b" 0] _ rfl
    [(appendedRow "a" 1 0, 0), (appendedRow "b" 1 0, 0), (appendedRow "a" 2 0, 0)] ⟨by decide, by decide⟩).log
  exact absurd (congrArg (List.map StoredEvent.aggregateId) hr) (by decide)

end Durable

end TptErp.Ledger
