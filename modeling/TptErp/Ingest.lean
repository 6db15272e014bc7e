import TptErp.Primitives
import TptErp.Lib.Batching
import Mathlib.Algebra.BigOperators.Group.List.Basic

/-!
# Telemetry ingestion

The two pipelines that decode a stream of raw messages and publish the events in batches: the WMS
keeps what it cannot parse as an event of its own, the TMS counts it and drops it.  The JSON reader
is a parameter.  Whether the bus takes its `k`-th batch is `accepts k`; `publish_batch` discards the
answer.

    wms: all is accounted for ↔ the bus takes each of the ⌈n / max batch 1⌉ batches
    tms: all is accounted for ↔ the same of the m events it decodes, and
           0 < batch or every message decodes                          (ingest_accounts_iff)
-/

namespace TptErp

namespace Ingest

/-- Counters of a run (without its wall-clock time). -/
structure IngestStats where
  decoded : Nat := 0
  unparsed : Nat := 0
  published : Nat := 0
deriving DecidableEq

/-- The batches handed to the bus, each with its subject. -/
structure Bus (E : Type) where
  calls : List (String × List E) := []
deriving DecidableEq

variable {M E : Type}

/-- `EventBus::publish`, with its answer. -/
def Bus.publish (accepts : Nat → Bool) (bus : Bus E) (subject : String) (events : List E) : Bool × Bus E :=
  (accepts bus.calls.length, { calls := bus.calls ++ [(subject, events)] })

/-- The state of a pipeline's loop. -/
structure Loop (E : Type) where
  stats : IngestStats := {}
  buf : List E := []
  bus : Bus E := {}

/-- `publish_batch`: the answer of the bus is discarded. -/
def publishBatch (accepts : Nat → Bool) (subject : String) (w : Loop E) : Bus E :=
  let (_, bus) := w.bus.publish accepts subject w.buf
  bus

/-- One round of the loop; `take` is what the pipeline does with the message itself. -/
def round (accepts : Nat → Bool) (subject : String) (batch : Nat) (take : Loop E → M → Loop E) (w : Loop E) (msg : M) :
    Loop E :=
  let w := take w msg
  if batch ≤ w.buf.length then
    { bus := publishBatch accepts subject w
      stats := { w.stats with published := w.stats.published + w.buf.length }
      buf := [] }
  else w

/-- `run_pipeline`, over a source of finitely many messages.  Its buffer starts empty: that
`Vec::with_capacity(batch.max(1))` panics for a batch near `usize::MAX`, which no allocation can hold, is left out. -/
def runPipeline (accepts : Nat → Bool) (subject : String) (batch : Nat) (take : Loop E → M → Loop E) (source : List M) :
    IngestStats × Bus E :=
  let w := source.foldl (round accepts subject batch take) {}
  if w.buf = [] then (w.stats, w.bus)
  else ({ w.stats with published := w.stats.published + w.buf.length }, publishBatch accepts subject w)

end Ingest

/-! ## The WMS pipeline -/

namespace Wms.Ingest

open TptErp.Ingest

/-- A decoded IoT event; `B` is the type of raw payloads. -/
inductive IngestEvent (B : Type)
  | rfidGate (reader tag : String)
  | conveyorWeight (sensor : String) (grams : U32)
  | unparsed (payload : B)
deriving DecidableEq

structure WireEvent where
  kind : String
  reader : Option String
  tag : Option String
  sensor : Option String
  grams : Option U32

theorem zero_lt_u32 : 0 < 2 ^ 32 := by decide

variable {B : Type}

/-- Decode a single raw payload, which `from_slice` reads as a wire event. -/
def decode (from_slice : B → Option WireEvent) (payload : B) : IngestEvent B :=
  match from_slice payload with
  | some w =>
    if w.kind = "rfid" then .rfidGate (w.reader.getD "") (w.tag.getD "")
    else if w.kind = "weight" then .conveyorWeight (w.sensor.getD "") (w.grams.getD ⟨0, zero_lt_u32⟩)
    else .unparsed payload
  | none => .unparsed payload

def IngestEvent.isParsed : IngestEvent B → Bool
  | .unparsed _ => false
  | _ => true

/-- Every message is an event. -/
def take (from_slice : B → Option WireEvent) (w : Loop (IngestEvent B)) (msg : B) : Loop (IngestEvent B) :=
  let ev := decode from_slice msg
  let stats := match ev with
    | .unparsed _ => { w.stats with unparsed := w.stats.unparsed + 1 }
    | _ => { w.stats with decoded := w.stats.decoded + 1 }
  { w with stats, buf := w.buf ++ [ev] }

/-- Without the panic of `Vec::with_capacity` for a batch near `usize::MAX`. -/
def runPipeline (from_slice : B → Option WireEvent) (accepts : Nat → Bool) (batch : Nat) (source : List B) :
    IngestStats × Bus (IngestEvent B) :=
  TptErp.Ingest.runPipeline accepts "iot.events" batch (take from_slice) source

end Wms.Ingest

/-! ## The TMS pipeline -/

namespace Tms.Ingest

open TptErp.Ingest

/-- A coordinate of two `f64`, here of any type `F`. -/
structure LatLng (F : Type) where
  lat : F
  lng : F
deriving DecidableEq

/-- A decoded GPS event. -/
structure GpsEvent (F : Type) where
  vehicle : String
  pos : LatLng F
  speed : F
  ts : Int
deriving DecidableEq

structure WireGps (F : Type) where
  vehicle : Option String
  lat : Option F
  lng : Option F
  speed : Option F
  ts : Option Int

variable {B F : Type} [Zero F]

/-- Decode a single raw GPS payload; a malformed frame, or one without a position, yields `none`. -/
def decode (from_slice : B → Option (WireGps F)) (payload : B) : Option (GpsEvent F) := do
  let w ← from_slice payload
  let lat ← w.lat
  let lng ← w.lng
  return { vehicle := w.vehicle.getD "", pos := { lat, lng }, speed := w.speed.getD 0, ts := w.ts.getD 0 }

/-- Only what decodes is an event. -/
def take (from_slice : B → Option (WireGps F)) (w : Loop (GpsEvent F)) (msg : B) : Loop (GpsEvent F) :=
  match decode from_slice msg with
  | some ev => { w with stats := { w.stats with decoded := w.stats.decoded + 1 }, buf := w.buf ++ [ev] }
  | none => { w with stats := { w.stats with unparsed := w.stats.unparsed + 1 } }

/-- Without the panic of `Vec::with_capacity` for a batch near `usize::MAX`. -/
def runPipeline (from_slice : B → Option (WireGps F)) (accepts : Nat → Bool) (batch : Nat) (source : List B) :
    IngestStats × Bus (GpsEvent F) :=
  TptErp.Ingest.runPipeline accepts "gps.telemetry" batch (take from_slice) source

end Tms.Ingest

/-! ## The loop as batching -/

namespace Ingest

variable {M E : Type}

/-- One more message, parsed or not. -/
def IngestStats.count (stats : IngestStats) (parsed : Bool) : IngestStats :=
  if parsed then { stats with decoded := stats.decoded + 1 } else { stats with unparsed := stats.unparsed + 1 }

theorem count_total (stats : IngestStats) (parsed : Bool) :
    (stats.count parsed).decoded + (stats.count parsed).unparsed = stats.decoded + stats.unparsed + 1 := by
  cases parsed with
  | true =>
    show stats.decoded + 1 + stats.unparsed = _
    omega
  | false => rfl

@[simp] theorem count_published (stats : IngestStats) (parsed : Bool) :
    (stats.count parsed).published = stats.published := by
  cases parsed <;> rfl

/-- What the two pipelines do with a message: count it, and buffer the event it gives. -/
def Takes (take : Loop E → M → Loop E) (event : M → Option E) (parsed : M → Bool) : Prop :=
  ∀ w msg, take w msg = { w with stats := w.stats.count (parsed msg), buf := w.buf ++ (event msg).toList }

/-- The loop holds the buffer and the batches of the events so far, and has counted all of them. -/
structure Holds (subject : String) (n : Nat) (b : Batching.Buffer E) (w : Loop E) : Prop where
  buf : w.buf = b.buf
  calls : w.bus.calls = b.handed.map fun c => (subject, c)
  counted : w.stats.decoded + w.stats.unparsed = n
  published : w.stats.published = (b.handed.map List.length).sum

theorem round_holds (accepts : Nat → Bool) (batch : Nat) {subject : String} {n : Nat} {take : Loop E → M → Loop E}
    {event : M → Option E} {parsed : M → Bool} (ht : Takes take event parsed) {b : Batching.Buffer E} {w : Loop E}
    (h : Holds subject n b w) (msg : M) :
    Holds subject (n + 1) (Batching.feed batch b (event msg)) (round accepts subject batch take w msg) := by
  have hcount : (w.stats.count (parsed msg)).decoded + (w.stats.count (parsed msg)).unparsed = n + 1 := by
    rw [count_total, h.counted]
  unfold round Batching.feed
  simp only
  rw [ht, h.buf]
  split
  · refine ⟨rfl, ?_, hcount, ?_⟩
    · show w.bus.calls ++ [(subject, _)] = _
      rw [h.calls, List.map_append]
      rfl
    · show (w.stats.count (parsed msg)).published + _ = _
      rw [count_published, h.published, List.map_append, List.sum_append]
      rfl
  · exact ⟨rfl, h.calls, hcount, (count_published _ _).trans h.published⟩

theorem foldl_round_holds (accepts : Nat → Bool) (batch : Nat) {subject : String} {n : Nat} {take : Loop E → M → Loop E}
    {event : M → Option E} {parsed : M → Bool} (ht : Takes take event parsed) (source : List M) {b : Batching.Buffer E}
    {w : Loop E} (h : Holds subject n b w) :
    Holds subject (n + source.length) ((source.map event).foldl (Batching.feed batch) b)
      (source.foldl (round accepts subject batch take) w) := by
  induction source generalizing n b w with
  | nil => exact h
  | cons msg source ih =>
    have := ih (round_holds accepts batch ht h msg)
    rwa [List.length_cons, Nat.add_comm source.length, ← Nat.add_assoc]

/-- **What a pipeline hands to the bus and reports**, whatever the bus answers. -/
theorem runPipeline_spec (accepts : Nat → Bool) (subject : String) (batch : Nat) {take : Loop E → M → Loop E}
    {event : M → Option E} {parsed : M → Bool} (ht : Takes take event parsed) (source : List M) :
    let r := runPipeline accepts subject batch take source
    r.2.calls = (Batching.batches batch (source.map event)).map (fun c => (subject, c)) ∧
      r.1.decoded + r.1.unparsed = source.length ∧
      r.1.published = ((Batching.batches batch (source.map event)).map List.length).sum := by
  have h₀ : Holds subject 0 ({} : Batching.Buffer E) {} := ⟨rfl, rfl, rfl, rfl⟩
  have h := foldl_round_holds accepts batch ht source h₀
  unfold runPipeline Batching.batches Batching.finish
  simp only [h.buf]
  split
  · exact ⟨h.calls, by rw [h.counted, Nat.zero_add], h.published⟩
  · refine ⟨?_, by rw [h.counted, Nat.zero_add], ?_⟩
    · show _ ++ [(subject, _)] = _
      rw [h.calls, h.buf, List.map_append]
      rfl
    · rw [h.published, List.map_append, List.sum_append]
      rfl

/-! ## Accounting -/

/-- The batches that the bus took. -/
def Bus.accepted (accepts : Nat → Bool) (bus : Bus E) : List (List E) :=
  Batching.accepted accepts 0 (bus.calls.map Prod.snd)

/-- All messages are accounted for: `n` of them, with these events. -/
structure Accounted (accepts : Nat → Bool) (batch n : Nat) (events : List E) (r : IngestStats × Bus E) : Prop where
  batches : ∀ c ∈ r.2.calls.map Prod.snd, c ≠ [] ∧ c.length ≤ max batch 1
  concat : (r.2.calls.map Prod.snd).flatten = events
  counted : r.1.decoded + r.1.unparsed = n
  published : r.1.published = ((r.2.accepted accepts).map List.length).sum

theorem takes_accounted_iff (accepts : Nat → Bool) (subject : String) (batch : Nat) {take : Loop E → M → Loop E}
    {event : M → Option E} {parsed : M → Bool} (ht : Takes take event parsed) (source : List M) :
    Accounted accepts batch source.length (source.filterMap event) (runPipeline accepts subject batch take source) ↔
      (0 < batch ∨ ∀ msg ∈ source, (event msg).isSome) ∧
        ∀ k < ((source.filterMap event).length + max batch 1 - 1) / max batch 1, accepts k = true := by
  obtain ⟨hcalls, hcounted, hpublished⟩ := runPipeline_spec accepts subject batch ht source
  have hevents : (source.map event).reduceOption = source.filterMap event := by
    show (source.map event).filterMap id = source.filterMap event
    rw [List.filterMap_map]
    rfl
  have hsnd : (runPipeline accepts subject batch take source).2.calls.map Prod.snd =
      Batching.batches batch (source.map event) := by
    rw [hcalls, List.map_map]
    exact List.map_id _
  have hall : (∀ e ∈ source.map event, e.isSome) ↔ ∀ msg ∈ source, (event msg).isSome := List.forall_mem_map
  constructor
  · intro h
    have hne : ∀ c ∈ Batching.batches batch (source.map event), c ≠ [] := by
      intro c hc
      exact (h.batches c (by rwa [hsnd])).1
    have hfull : 0 < batch ∨ ∀ msg ∈ source, (event msg).isSome := by
      rcases Nat.eq_zero_or_pos batch with rfl | hpos
      · refine .inr (hall.mp ?_)
        intro e he
        cases e with
        | none => exact absurd rfl (hne [] (Batching.nil_mem_batches he))
        | some e => rfl
      · exact .inl hpos
    refine ⟨hfull, ?_⟩
    have hsum := h.published
    rw [hpublished, Bus.accepted, hsnd, Batching.sum_accepted_eq_iff hne,
      (Batching.batches_full (hfull.imp_right hall.mpr)).2, hevents] at hsum
    simpa only [Nat.zero_add] using hsum
  · rintro ⟨hfull, haccepts⟩
    obtain ⟨hb, hlen⟩ := Batching.batches_full (hfull.imp_right hall.mpr)
    refine ⟨?_, ?_, hcounted, ?_⟩
    · rwa [hsnd]
    · rw [hsnd, Batching.flatten_batches, hevents]
    · rw [hpublished, Bus.accepted, hsnd, Batching.sum_accepted_eq_iff fun c hc => (hb c hc).1, hlen, hevents]
      simpa only [Nat.zero_add] using haccepts

theorem wms_takes {B : Type} (from_slice : B → Option Wms.Ingest.WireEvent) :
    Takes (Wms.Ingest.take from_slice) (fun msg => some (Wms.Ingest.decode from_slice msg))
      (fun msg => (Wms.Ingest.decode from_slice msg).isParsed) := by
  intro w msg
  unfold Wms.Ingest.take
  simp only
  cases Wms.Ingest.decode from_slice msg with
  | rfidGate reader tag => rfl
  | conveyorWeight sensor grams => rfl
  | unparsed payload => rfl

theorem tms_takes {B F : Type} [Zero F] (from_slice : B → Option (Tms.Ingest.WireGps F)) :
    Takes (Tms.Ingest.take from_slice) (Tms.Ingest.decode from_slice)
      (fun msg => (Tms.Ingest.decode from_slice msg).isSome) := by
  intro w msg
  unfold Tms.Ingest.take
  simp only
  cases Tms.Ingest.decode from_slice msg with
  | none =>
    simp only [Option.toList_none, List.append_nil]
    rfl
  | some ev => rfl

/-- **Telemetry ingestion accounts for every message** exactly when the bus takes every batch and, in the
TMS, a batch size of 0 meets no message that does not decode. -/
theorem ingest_accounts_iff {B F : Type} [Zero F] (wire : B → Option Wms.Ingest.WireEvent)
    (gps : B → Option (Tms.Ingest.WireGps F)) (accepts : Nat → Bool) (batch : Nat) (source : List B) :
    (Accounted accepts batch source.length (source.map (Wms.Ingest.decode wire))
        (Wms.Ingest.runPipeline wire accepts batch source) ↔
      ∀ k < (source.length + max batch 1 - 1) / max batch 1, accepts k = true) ∧
    (Accounted accepts batch source.length (source.filterMap (Tms.Ingest.decode gps))
        (Tms.Ingest.runPipeline gps accepts batch source) ↔
      (0 < batch ∨ ∀ msg ∈ source, (Tms.Ingest.decode gps msg).isSome) ∧
        ∀ k < ((source.filterMap (Tms.Ingest.decode gps)).length + max batch 1 - 1) / max batch 1,
          accepts k = true) := by
  constructor
  · have h := takes_accounted_iff accepts "iot.events" batch (wms_takes wire) source
    have hmap : source.filterMap (fun msg => some (Wms.Ingest.decode wire msg)) = source.map (Wms.Ingest.decode wire) :=
      congrFun List.filterMap_eq_map' source
    rw [hmap, List.length_map] at h
    unfold Wms.Ingest.runPipeline
    rw [h]
    exact and_iff_right (.inr fun _ _ => rfl)
  · exact takes_accounted_iff accepts "gps.telemetry" batch (tms_takes gps) source

/-- A bus that refuses what it is handed: the WMS reports one event published. -/
theorem ingest_not_accounted :
    ¬ ∀ (wire : Nat → Option Wms.Ingest.WireEvent) (gps : Nat → Option (Tms.Ingest.WireGps Nat)) (accepts : Nat → Bool)
      (batch : Nat) (source : List Nat),
      Accounted accepts batch source.length (source.map (Wms.Ingest.decode wire))
          (Wms.Ingest.runPipeline wire accepts batch source) ∧
        Accounted accepts batch source.length (source.filterMap (Tms.Ingest.decode gps))
          (Tms.Ingest.runPipeline gps accepts batch source) := by
  intro h
  have hp := (h (fun _ => none) (fun _ => none) (fun _ => false) 1 [0]).1.published
  exact absurd hp (by decide)

end Ingest

end TptErp
