import TptErp.Bus.InMemory
import TptErp.Lib.AssocMap
import TptErp.Lib.Run
import Mathlib

/-!
# The JetStream bus

A subscription is a durable pull consumer of the one stream, filtered by its subject.  The consumer's name is
the subject with every character outside `[A-Za-z0-9._-]` replaced by an underscore, so wildcards and spaces
become the same name.

    durableName s = durableName t  ↔  Confusable s t                    (durableName_eq_iff)
    two subscriptions share a consumer  ↔  their subjects are confusable      (shared_iff)

The server and its client are a parameter with what the bus relies on (`JetStream`).  The calls of one
`subscribe` are made one after the other, with nothing of another client between them.
-/

namespace TptErp.Bus.Nats

open Std.Do

set_option mvcgen.warning false

/-! ## The client -/

inductive AckPolicy
  | none
  | all
  | explicit

structure StreamConfig where
  name : String
  subjects : List String

/-- `pull::Config`; the other fields are the defaults. -/
structure PullConfig where
  durable_name : Option String
  filter_subject : String
  ack_policy : AckPolicy

/-- A consumer of the stream as the server names it. -/
structure Consumer where
  name : String
  config : PullConfig

/-- The JetStream context, over servers in states `Srv`: each call may fail with a text, and what the bus
relies on is
* `stream_keeps`, `messages_keeps`: only `get_or_create_consumer` touches the consumers;
* `created`: where there is none of the name it looks for, it answers with the durable consumer of the config,
  created or updated, and touches no other. -/
structure JetStream (Srv : Type) where
  consumers : Srv → String → Option PullConfig
  getOrCreateStream : StreamConfig → EStateM String Srv Unit
  getOrCreateConsumer : String → PullConfig → EStateM String Srv Consumer
  messages : Consumer → EStateM String Srv Unit
  stream_keeps : ∀ config t, ⦃fun srv => ⌜consumers srv = t⌝⦄ getOrCreateStream config
    ⦃post⟨fun _ srv => ⌜consumers srv = t⌝, fun _ srv => ⌜consumers srv = t⌝⟩⦄
  messages_keeps : ∀ c t, ⦃fun srv => ⌜consumers srv = t⌝⦄ messages c
    ⦃post⟨fun _ srv => ⌜consumers srv = t⌝, fun _ srv => ⌜consumers srv = t⌝⟩⦄
  created : ∀ name config t, t name = none → ⦃fun srv => ⌜consumers srv = t⌝⦄ getOrCreateConsumer name config
    ⦃post⟨fun c srv => ⌜∀ d, config.durable_name = some d → c.name = d ∧ ∀ n ≠ d, consumers srv n = t n⌝,
      fun _ srv => ⌜∀ d, config.durable_name = some d → ∀ n ≠ d, consumers srv n = t n⌝⟩⦄

/-! ## The bus -/

inductive BusError
  | backend (e : String)
  | subscribe (e : String)
deriving DecidableEq

def BusError.message : BusError → String
  | .backend e => "bus backend error: " ++ e
  | .subscribe e => "subscribe failed: " ++ e

def STREAM : String := "tpt-events"

/-- A character of a durable name. -/
def sanitizeChar (c : Char) : Char := if c.isAlphanum || c == '-' || c == '_' || c == '.' then c else '_'

def sanitizeSubject (subject : String) : String := String.ofList (subject.toList.map sanitizeChar)

def durableName (subject : String) : String := "sub-" ++ sanitizeSubject subject

/-- A delivery, which is acknowledged under its reply subject. -/
structure Delivery extends Message where
  reply : String

/-- A message with the delivery that its `ack` acknowledges. -/
structure AckMessage extends Message where
  ack_fn : Option Delivery

/-- What the stream makes of an item of the consumer. -/
def received : Except String Delivery → AckMessage
  | .ok msg => { toMessage := msg.toMessage, ack_fn := some msg }
  | .error _ => { subject := "", payload := [], ack_fn := none }

/-- The items of a consumer, each made a message. -/
structure MessageStream where
  consumer : Consumer
  each : Except String Delivery → AckMessage

variable {Srv : Type} (js : JetStream Srv)

def stream : EStateM BusError Srv Unit :=
  (js.getOrCreateStream { name := STREAM, subjects := [">"] }).adaptExcept .backend

/-- The consumer is looked up under the name of the stream. -/
def subscribe (subject : String) : EStateM BusError Srv MessageStream := do
  stream js
  let consumer ← (js.getOrCreateConsumer STREAM
    { durable_name := some (durableName subject)
      filter_subject := subject
      ack_policy := .explicit }).adaptExcept .subscribe
  (js.messages consumer).adaptExcept .subscribe
  return { consumer, each := received }

def subscribeJobs (job_type : String) : EStateM BusError Srv MessageStream := subscribe js ("jobs." ++ job_type)

/-! ## Names -/

/-- An underscore, or a character that becomes one. -/
def Blurred (c : Char) : Prop := c.isAlphanum = false ∧ c ≠ '-' ∧ c ≠ '.'

instance (c : Char) : Decidable (Blurred c) :=
  inferInstanceAs (Decidable (c.isAlphanum = false ∧ c ≠ '-' ∧ c ≠ '.'))

/-- The same text, up to blurred characters in the same places. -/
def Confusable (s t : String) : Prop := List.Forall₂ (fun a b => a = b ∨ Blurred a ∧ Blurred b) s.toList t.toList

theorem sanitizeChar_of_blurred {c : Char} (h : Blurred c) : sanitizeChar c = '_' := by
  obtain ⟨h₁, h₂, h₃⟩ := h
  by_cases hc : c = '_'
  · rw [hc]
    rfl
  · simp [sanitizeChar, h₁, h₂, h₃, hc]

theorem sanitizeChar_of_not_blurred {c : Char} (h : ¬ Blurred c) : sanitizeChar c = c := by
  by_cases hc : c.isAlphanum = true
  · simp [sanitizeChar, hc]
  by_cases hd : c = '-'
  · simp [sanitizeChar, hd]
  by_cases hp : c = '.'
  · simp [sanitizeChar, hp]
  exact absurd ⟨by simpa using hc, hd, hp⟩ h

theorem blurred_underscore : Blurred '_' := by decide

theorem sanitizeChar_eq_iff (a b : Char) : sanitizeChar a = sanitizeChar b ↔ a = b ∨ Blurred a ∧ Blurred b := by
  by_cases ha : Blurred a
  · by_cases hb : Blurred b
    · exact iff_of_true (by rw [sanitizeChar_of_blurred ha, sanitizeChar_of_blurred hb]) (.inr ⟨ha, hb⟩)
    · refine iff_of_false ?_ ?_
      · rw [sanitizeChar_of_blurred ha, sanitizeChar_of_not_blurred hb]
        rintro rfl
        exact hb blurred_underscore
      · rintro (rfl | h)
        · exact hb ha
        · exact hb h.2
  · by_cases hb : Blurred b
    · refine iff_of_false ?_ ?_
      · rw [sanitizeChar_of_blurred hb, sanitizeChar_of_not_blurred ha]
        rintro rfl
        exact ha blurred_underscore
      · rintro (rfl | h)
        · exact ha hb
        · exact ha h.1
    · rw [sanitizeChar_of_not_blurred ha, sanitizeChar_of_not_blurred hb]
      exact (or_iff_left fun h => ha h.1).symm

theorem durableName_eq_map (s t : String) :
    durableName s = durableName t ↔ s.toList.map sanitizeChar = t.toList.map sanitizeChar := by
  rw [durableName, durableName, ← String.toList_inj, String.toList_append, String.toList_append,
    List.append_cancel_left_eq, sanitizeSubject, sanitizeSubject, String.toList_ofList, String.toList_ofList]

theorem durableName_eq_iff (s t : String) : durableName s = durableName t ↔ Confusable s t := by
  rw [durableName_eq_map, ← List.forall₂_eq_eq_eq, List.forall₂_map_left_iff, List.forall₂_map_right_iff, Confusable]
  simp only [sanitizeChar_eq_iff]

/-- Job types are told apart as subjects are. -/
theorem jobs_confusable_iff (a b : String) : Confusable ("jobs." ++ a) ("jobs." ++ b) ↔ Confusable a b := by
  rw [← durableName_eq_iff, ← durableName_eq_iff, durableName_eq_map, durableName_eq_map, String.toList_append,
    String.toList_append, List.map_append, List.map_append, List.append_cancel_left_eq]

/-! ## Runs -/

/-- The server, and the subscriptions that were given, each with its subject. -/
structure World (Srv : Type) where
  srv : Srv
  subs : List (String × MessageStream) := []

inductive Label (Srv : Type)
  | subscribe (subject : String)
  /-- What others do to the server; nobody names a consumer after the stream. -/
  | other (srv : Srv)

def step (w : World Srv) : Label Srv → Option (World Srv)
  | .subscribe subject =>
    match (subscribe js subject).run w.srv with
    | .ok stream srv => some { srv, subs := w.subs ++ [(subject, stream)] }
    | .error _ srv => some { w with srv }
  | .other srv =>
    match js.consumers srv STREAM with
    | none => some { w with srv }
    | some _ => none

/-- No consumer has the stream's name, and every subscription has the consumer named after its subject. -/
structure Named (w : World Srv) : Prop where
  stream : js.consumers w.srv STREAM = none
  subs : ∀ p ∈ w.subs, p.2.consumer.name = durableName p.1

theorem durableName_ne_stream (subject : String) : STREAM ≠ durableName subject := by
  intro h
  have hhead := congrArg (fun name => name.toList.head?) h
  simp only [durableName, String.toList_append] at hhead
  have hsub : "sub-".toList = 's' :: ['u', 'b', '-'] := by decide
  have hstream : STREAM.toList.head? = some 't' := by decide
  rw [hsub, hstream] at hhead
  exact absurd (Option.some.inj hhead) (by decide)

theorem stream_spec : ⦃fun srv => ⌜js.consumers srv STREAM = none⌝⦄ stream js
    ⦃post⟨fun _ srv => ⌜js.consumers srv STREAM = none⌝, fun _ srv => ⌜js.consumers srv STREAM = none⌝⟩⦄ := by
  mvcgen [stream, JetStream.stream_keeps]
  case vc1.post.success hsrv _ _ =>
    intro hkeeps
    rw [hkeeps, hsrv]
  case vc2.post.except.handle hsrv _ _ =>
    intro hkeeps
    rw [hkeeps, hsrv]

/-- A subscription that is given has the consumer of its durable name. -/
theorem subscribe_spec (subject : String) : ⦃fun srv => ⌜js.consumers srv STREAM = none⌝⦄ subscribe js subject
    ⦃post⟨fun s srv => ⌜s.consumer.name = durableName subject ∧ js.consumers srv STREAM = none⌝,
      fun _ srv => ⌜js.consumers srv STREAM = none⌝⟩⦄ := by
  have hne := durableName_ne_stream subject
  mvcgen [subscribe, stream_spec, JetStream.created, JetStream.messages_keeps]
  case vc3.post.success.post.success.post.success hsrv consumer _ hcreated _ _ hkeeps =>
    obtain ⟨hname, hother⟩ := hcreated (durableName subject) rfl
    rw [hkeeps, hother STREAM hne, hsrv]
    exact ⟨hname, rfl⟩
  case vc4.post.success.post.success.post.except.handle hsrv consumer _ hcreated _ _ =>
    intro hkeeps
    rw [hkeeps, (hcreated (durableName subject) rfl).2 STREAM hne, hsrv]
  case vc5.post.success.post.except.handle hsrv _ _ =>
    intro hcreated
    rw [hcreated (durableName subject) rfl STREAM hne, hsrv]

/-- What a triple says of one call. -/
theorem run_of_triple {ε σ α : Type} {m : EStateM ε σ α} {P : σ → Prop} {Q : α → σ → Prop} {E : σ → Prop}
    (h : ⦃fun s => ⌜P s⌝⦄ m ⦃post⟨fun a s => ⌜Q a s⌝, fun _ s => ⌜E s⌝⟩⦄) {s : σ} (hs : P s) :
    match m.run s with
    | .ok a s' => Q a s'
    | .error _ s' => E s' := by
  have hwp := h s hs
  cases hm : m.run s <;> simpa [WP.wp, PredTrans.apply, hm] using hwp

theorem named_step (w : World Srv) (label : Label Srv) (w' : World Srv) (hw : Named js w)
    (h : step js w label = some w') : Named js w' := by
  cases label with
  | subscribe subject =>
    have hspec := run_of_triple (subscribe_spec js subject) hw.stream
    rw [step] at h
    cases hrun : (subscribe js subject).run w.srv with
    | error e srv =>
      rw [hrun] at h hspec
      obtain rfl := Option.some.inj h
      exact ⟨hspec, hw.subs⟩
    | ok s srv =>
      rw [hrun] at h hspec
      obtain rfl := Option.some.inj h
      refine ⟨hspec.2, fun p hp => ?_⟩
      rcases List.mem_append.mp hp with hp | hp
      · exact hw.subs p hp
      · rw [List.mem_singleton.mp hp]
        exact hspec.1
  | other srv =>
    rw [step] at h
    cases hc : js.consumers srv STREAM with
    | none =>
      rw [hc] at h
      obtain rfl := Option.some.inj h
      exact ⟨hc, hw.subs⟩
    | some config =>
      rw [hc] at h
      cases h

theorem named_run (srv : Srv) (h : js.consumers srv STREAM = none) (labels : List (Label Srv)) :
    LabelledRun.AllStates (step js) (Named js) { srv } labels :=
  LabelledRun.allStates_of_step (step js) (named_step js) labels ⟨h, fun _ hp => by cases hp⟩

/-- Two subscriptions share a consumer if and only if their subjects are confusable. -/
theorem shared_iff (srv : Srv) (h : js.consumers srv STREAM = none) (labels : List (Label Srv)) :
    LabelledRun.AllStates (step js)
      (fun w => ∀ p ∈ w.subs, ∀ q ∈ w.subs, p.2.consumer.name = q.2.consumer.name ↔ Confusable p.1 q.1)
      { srv } labels := by
  refine LabelledRun.AllStates.mono (step js) ?_ (named_run js srv h labels)
  intro w hw p hp q hq
  rw [hw.subs p hp, hw.subs q hq, durableName_eq_iff]

/-! ## Two subjects -/

/-- No subscription to `s` shares its consumer with one to `t`. -/
def Apart (s t : String) (w : World Srv) : Prop :=
  ∀ p ∈ w.subs, ∀ q ∈ w.subs, p.1 = s → q.1 = t → p.2.consumer.name ≠ q.2.consumer.name

/-- Different names, and different consumers in every run. -/
def Separate (s t : String) : Prop :=
  durableName s ≠ durableName t ∧
    ∀ (Srv : Type) (js : JetStream Srv) (srv : Srv) (labels : List (Label Srv)), js.consumers srv STREAM = none →
      LabelledRun.AllStates (step js) (Apart s t) { srv } labels

theorem separate_iff (s t : String) : (s ≠ t → Separate s t) ↔ (Confusable s t → s = t) := by
  constructor
  · intro h hst
    by_contra hne
    exact (h hne).1 ((durableName_eq_iff s t).mpr hst)
  · intro h hne
    have hst : ¬ Confusable s t := fun hst => hne (h hst)
    refine ⟨fun heq => hst ((durableName_eq_iff s t).mp heq), ?_⟩
    intro Srv js srv labels hsrv
    refine LabelledRun.AllStates.mono (step js) ?_ (shared_iff js srv hsrv labels)
    rintro w hw p hp q hq rfl rfl heq
    exact hst ((hw p hp q hq).mp heq)

/-- A server that keeps its consumers in a table. -/
def table : JetStream (AssocMap String PullConfig) where
  consumers srv name := srv.lookup name
  getOrCreateStream _ := pure ()
  getOrCreateConsumer name config := do
    let srv ← get
    match srv.lookup name, config.durable_name with
    | some config, _ => return { name, config }
    | none, some durable =>
      set (srv.insert durable config)
      return { name := durable, config }
    | none, none => throw "no durable name"
  messages _ := pure ()
  stream_keeps := by
    intro config t
    mvcgen
  messages_keeps := by
    intro c t
    mvcgen
  created := by
    intro name config t hname
    mvcgen
    case vc1.h_1 srv ht _ _ _ hfound =>
      have hfresh : srv.lookup name = none := (congrFun ht name).trans hname
      rw [hfresh] at hfound
      cases hfound
    case vc2.h_2 srv ht durable hdurable _ =>
      rintro d hd
      obtain rfl := Option.some.inj (hdurable.symm.trans hd)
      refine ⟨rfl, fun n hn => ?_⟩
      rw [AssocMap.lookup_insert_eq, if_neg hn, ← ht]
    case vc3.h_3 srv ht hnone _ =>
      intro d hd
      rw [hnone] at hd
      cases hd

theorem wildcards_share : ">" ≠ "*" ∧ ¬ Separate ">" "*" ∧
    (LabelledRun.exec (step table) { srv := ∅ } [.subscribe ">", .subscribe "*"]).map
      (fun w => w.subs.map fun p => (p.1, p.2.consumer.name)) = some [(">", "sub-_"), ("*", "sub-_")] := by
  refine ⟨by decide, fun h => h.1 (by decide), by decide⟩

end TptErp.Bus.Nats
