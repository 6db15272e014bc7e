import TptErp.Flow.Orchestration

/-!
# Flows that share a bus

Every handler takes the first message of its subject, whosever order it is about, and nothing in the messages
ties it to its own flow.  So flows stay apart as long as the first message that is sent to each handler is about the
order of its own flow: a step is `Orderly` when it sends no other message to a handler that was sent nothing yet.

    Kept            the invariant of orderly runs
    flows_unmixed   what a flow then reports, picks and posts
-/

namespace TptErp.Flow

open Bus

/-- The message that a step would send, and the channel. -/
def World.nextSend (w : World) : Label → Option (Nat × Envelope)
  | .start _ => none
  | .run f v =>
    match w.flows[f]? with
    | none => none
    | some fl =>
      match fl.tasks v with
      | .publishing p _ => p.targets.head?.map fun t => (t.2, p.msg)
      | _ => none

/-- A handler that was sent nothing yet is sent a message about its own flow's order. -/
def Orderly (w : World) (a : Label) : Prop :=
  ∀ tx msg, w.nextSend a = some (tx, msg) → w.bus.sent tx = [] →
    ∀ (g : Nat) fl v, w.flows[g]? = some fl → fl.channels v = some tx → g = msg.order

theorem orderly_iff (w : World) (a : Label) :
    ((w.nextSend a).all fun t => !(w.bus.sent t.1).isEmpty || w.flows.zipIdx.all fun e =>
      [.oms, .wms, .tms, .gl].all fun v => decide (e.1.channels v = some t.1 → e.2 = t.2.order)) = true ↔
      Orderly w a := by
  unfold Orderly
  cases w.nextSend a with
  | none => exact iff_of_true rfl fun _ _ h => (nomatch h)
  | some t =>
    obtain ⟨tx, msg⟩ := t
    rw [Option.all_some, Bool.or_eq_true, Bool.not_eq_true', List.all_eq_true]
    constructor
    · intro h tx' msg' he hsent g fl v hg hc
      obtain ⟨rfl, rfl⟩ := Prod.mk.inj (Option.some.inj he)
      rcases h with h | h
      · rw [hsent] at h
        cases h
      · have hall := List.all_eq_true.mp (h (fl, g) (List.mem_zipIdx_iff_getElem?.mpr hg)) v (by cases v <;> decide)
        exact of_decide_eq_true hall hc
    · intro h
      cases hsent : w.bus.sent tx with
      | cons m rest => exact Or.inl rfl
      | nil =>
        refine Or.inr fun e he => List.all_eq_true.mpr fun v _ => decide_eq_true fun hc => ?_
        exact h tx msg rfl hsent e.2 e.1 v (List.mem_zipIdx_iff_getElem?.mp he) hc

instance (w : World) (a : Label) : Decidable (Orderly w a) :=
  decidable_of_iff ((w.nextSend a).all (fun t => !(w.bus.sent t.1).isEmpty || w.flows.zipIdx.all fun e =>
    [.oms, .wms, .tms, .gl].all fun v => decide (e.1.channels v = some t.1 → e.2 = t.2.order)) = true)
    (orderly_iff w a)

/-- The handlings of an order by a vertical, in all flows. -/
def World.handlings (w : World) (v : Vertical) (order : Nat) : List Handled :=
  w.log.filter fun e => e.vertical = v ∧ e.order = order

/-- A report is about its own flow's order, which was picked and posted once, by the flow's own engines. -/
structure FlowRight (w : World) (f : Nat) (fl : RunFlow) (r : FlowReport) : Prop where
  picked : r.picked = fl.order.qty
  postedAmount : r.postedAmount = fl.order.unitCost * (fl.order.qty.1 : ℚ)
  pickedOnce : w.handlings .wms f = [⟨.wms, f, f⟩]
  postedOnce : w.handlings .gl f = [⟨.gl, f, f⟩]
  movements : fl.wms.movements fl.order.key =
    if fl.order.qty.1 = 0 then [] else [.received fl.order.qty.1, .picked fl.order.qty.1]
  legs : fl.gl.legs.Perm (cogsLegs fl.order)

/-- What was handled of an order was handled by its own flow, and once; the orders of the flows that returned a
report were picked and posted. -/
structure Unmixed (w : World) : Prop where
  atMostOnce : ∀ v f, w.handlings v f = [] ∨ w.handlings v f = [⟨v, f, f⟩]
  reports : ∀ (f : Nat) fl r, w.flows[f]? = some fl → fl.returned = some (some r) → FlowRight w f fl r

/-! ## The invariant -/

/-- The task has not taken a message yet. -/
def Task.Fresh : Task → Prop
  | .unborn | .waiting => True
  | _ => False

/-- The message that a task is publishing. -/
def Task.msg? : Task → Option Envelope
  | .ready msg _ => some msg
  | .publishing p _ => some p.msg
  | _ => none

/-- The report that a task still has to hand over. -/
def Task.report? : Task → Option FlowReport
  | .ready _ report | .publishing _ report | .leaving report => report
  | _ => none

/-- The reports that a flow has made. -/
def RunFlow.Reports (fl : RunFlow) (r : FlowReport) : Prop :=
  (∃ v, (fl.tasks v).report? = some r) ∨ fl.done = some r ∨ fl.returned = some (some r)

/-- What an event says of an order. -/
def Event.About (o : Order) : Event → Prop
  | .orderCreated e => e.sku = o.sku ∧ e.bin = o.bin ∧ e.qty = o.qty
  | .pickDone e => e.qty = o.qty
  | .dispatchDone e => e.qty = o.qty
  | .glPosted _ => True

/-- A message says what is true of its order; one that follows the pick comes after it. -/
def Genuine (w : World) (m : Envelope) : Prop :=
  ∃ fl, w.flows[m.order]? = some fl ∧ m.event.About fl.order ∧
    (m.event.subject ≠ SUBJECT_ORDER_CREATED → ⟨.wms, m.order, m.order⟩ ∈ w.log)

/-- A handler's channel. -/
structure ChannelKept (w : World) (g : Nat) (v : Vertical) (tx : Nat) : Prop where
  lt : tx < w.bus.channels.length
  subs : ∀ s ∈ w.bus.subs, s.tx = tx → v.listensTo = some s.subject
  sent : ∀ m ∈ w.bus.sent tx, v.listensTo = some m.event.subject ∧ Genuine w m
  first : ∀ m, (w.bus.sent tx).head? = some m → m.order = g

/-- The targets of a publication are channels for its subject. -/
def TargetsKept (w : World) (p : Publication Envelope) : Prop :=
  ∀ t ∈ p.targets, t.2 < w.bus.channels.length ∧ ∀ (g : Nat) fl v, w.flows[g]? = some fl →
    fl.channels v = some t.2 → v.listensTo = some p.msg.event.subject

structure ReportKept (w : World) (g : Nat) (o : Order) (r : FlowReport) : Prop where
  picked : r.picked = o.qty
  postedAmount : r.postedAmount = o.total o.qty
  handled : ⟨.wms, g, g⟩ ∈ w.log ∧ ⟨.gl, g, g⟩ ∈ w.log

structure FlowKept (hash : Hashes) (w : World) (g : Nat) (fl : RunFlow) : Prop where
  starting : ∀ v todo, fl.tasks v = .subscribing todo → v = .oms ∧ ∀ u, u ≠ .oms → fl.tasks u = .unborn
  channel : ∀ v tx, fl.channels v = some tx →
    ChannelKept w g v tx ∧ ((fl.tasks v).Fresh → w.bus.received tx = 0)
  msg : ∀ v m, (fl.tasks v).msg? = some m → Genuine w m
  targets : ∀ v p report, fl.tasks v = .publishing p report → TargetsKept w p
  fresh : ∀ v, (fl.tasks v).Fresh → ∀ o, ⟨v, o, g⟩ ∉ w.log
  newWms : (fl.tasks .wms).Fresh → fl.wms = .new hash.wms
  newGl : (fl.tasks .gl).Fresh → fl.gl = .new hash.gl fl.order.coa false
  picked : ⟨.wms, g, g⟩ ∈ w.log → fl.wms = receiveAndPick (.new hash.wms) fl.order.key fl.order.qty
  posted : ⟨.gl, g, g⟩ ∈ w.log → fl.gl.legs.Perm (cogsLegs fl.order)
  reports : ∀ r, fl.Reports r → ReportKept w g fl.order r

structure Kept (hash : Hashes) (w : World) : Prop where
  table : ∀ s ∈ w.bus.subs, s.tx < w.bus.channels.length
  flow : ∀ (g : Nat) fl, w.flows[g]? = some fl → FlowKept hash w g fl
  own : ∀ (g g' : Nat) fl fl' v v' tx, w.flows[g]? = some fl → w.flows[g']? = some fl' → fl.channels v = some tx →
    fl'.channels v' = some tx → g = g' ∧ v = v'
  log : ∀ e ∈ w.log, e.order = e.flow ∧ e.flow < w.flows.length
  once : w.log.Nodup

theorem handlings_of_kept {hash : Hashes} {w : World} (h : Kept hash w) (v : Vertical) (f : Nat) :
    w.handlings v f = [] ∧ ⟨v, f, f⟩ ∉ w.log ∨ w.handlings v f = [⟨v, f, f⟩] := by
  have hall : ∀ e ∈ w.handlings v f, e = ⟨v, f, f⟩ := by
    rintro ⟨u, o, g⟩ he
    obtain ⟨hmem, hp⟩ := List.mem_filter.mp he
    obtain ⟨hu, ho⟩ := of_decide_eq_true hp
    have hflow : o = g := (h.log _ hmem).1
    rw [← hflow]
    exact congrArg₂ (fun v o => (⟨v, o, o⟩ : Handled)) hu ho
  have hnodup : (w.handlings v f).Nodup := h.once.filter _
  rw [List.eq_replicate_of_mem hall] at hnodup ⊢
  have hlen := List.nodup_replicate.mp hnodup
  rcases Nat.le_one_iff_eq_zero_or_eq_one.mp hlen with h0 | h1
  · rw [h0]
    refine Or.inl ⟨rfl, fun hmem => ?_⟩
    have hin : ⟨v, f, f⟩ ∈ w.handlings v f := List.mem_filter.mpr ⟨hmem, by simp⟩
    rw [List.length_eq_zero_iff.mp h0] at hin
    cases hin
  · rw [h1]
    exact Or.inr rfl

theorem unmixed_of_kept {hash : Hashes} {w : World} (h : Kept hash w) : Unmixed w := by
  have honce : ∀ {v : Vertical} {f : Nat}, ⟨v, f, f⟩ ∈ w.log → w.handlings v f = [⟨v, f, f⟩] := by
    intro v f hmem
    rcases handlings_of_kept h v f with ⟨-, hn⟩ | he
    · exact absurd hmem hn
    · exact he
  constructor
  · intro v f
    exact (handlings_of_kept h v f).imp And.left id
  · intro f fl r hf hr
    have hk := h.flow f fl hf
    obtain ⟨hpicked, hamount, hwms, hgl⟩ := hk.reports r (Or.inr (Or.inr hr))
    refine ⟨hpicked, hamount, honce hwms, honce hgl, ?_, hk.posted hgl⟩
    rw [hk.picked hwms]
    exact movements_receiveAndPick _ _ _

/-! ## What every step keeps -/

/-- Flows keep their numbers and their orders, and handlers their channels; a new channel has a new number. -/
structure Grows (w w' : World) : Prop where
  length : w.bus.channels.length ≤ w'.bus.channels.length
  order : ∀ (g : Nat) fl, w.flows[g]? = some fl → ∃ fl', w'.flows[g]? = some fl' ∧ fl'.order = fl.order
  channels : ∀ (g : Nat) fl' v tx, w'.flows[g]? = some fl' → fl'.channels v = some tx →
    (∃ fl, w.flows[g]? = some fl ∧ fl.channels v = some tx) ∨ w.bus.channels.length ≤ tx
  log : ∀ e ∈ w.log, e ∈ w'.log

theorem genuine_grows {w w' : World} (hg : Grows w w') {m : Envelope} (h : Genuine w m) : Genuine w' m := by
  obtain ⟨fl, hf, habout, hlog⟩ := h
  obtain ⟨fl', hf', horder⟩ := hg.order _ fl hf
  exact ⟨fl', hf', horder ▸ habout, fun hs => hg.log _ (hlog hs)⟩

theorem targetsKept_grows {w w' : World} (hg : Grows w w') {p : Publication Envelope} (h : TargetsKept w p) :
    TargetsKept w' p := by
  intro t ht
  obtain ⟨hlt, hchannel⟩ := h t ht
  refine ⟨Nat.lt_of_lt_of_le hlt hg.length, fun g fl' v hf' hc => ?_⟩
  rcases hg.channels g fl' v t.2 hf' hc with ⟨fl, hf, hc⟩ | hle
  · exact hchannel g fl v hf hc
  · omega

theorem reportKept_grows {w w' : World} (hg : Grows w w') {g : Nat} {o : Order} {r : FlowReport}
    (h : ReportKept w g o r) : ReportKept w' g o r :=
  ⟨h.picked, h.postedAmount, hg.log _ h.handled.1, hg.log _ h.handled.2⟩

/-- A bus that sent nothing, as a channel sees it. -/
theorem channelKept_grows {w w' : World} (hg : Grows w w')
    (hsubs : ∀ s ∈ w'.bus.subs, s ∈ w.bus.subs ∨ w.bus.channels.length ≤ s.tx) {g : Nat} {v : Vertical} {tx : Nat}
    (hsent : w'.bus.sent tx = w.bus.sent tx) (h : ChannelKept w g v tx) : ChannelKept w' g v tx := by
  have hlt := h.lt
  refine ⟨Nat.lt_of_lt_of_le hlt hg.length, fun s hs htx => ?_, fun m hm => ?_, fun m hm => ?_⟩
  · rcases hsubs s hs with hs | hle
    · exact h.subs s hs htx
    · omega
  · rw [hsent] at hm
    exact ⟨(h.sent m hm).1, genuine_grows hg (h.sent m hm).2⟩
  · rw [hsent] at hm
    exact h.first m hm

/-- A flow that stands still while the world takes a step of another flow, or none that is logged. -/
theorem flowKept_grows {hash : Hashes} {w w' : World} (hg : Grows w w') {g : Nat} {fl : RunFlow}
    (h : FlowKept hash w g fl) (hlog : ∀ e ∈ w'.log, e.flow = g → e ∈ w.log)
    (hchannel : ∀ v tx, fl.channels v = some tx →
      ChannelKept w' g v tx ∧ ((fl.tasks v).Fresh → w'.bus.received tx = 0)) : FlowKept hash w' g fl where
  starting := h.starting
  channel := hchannel
  msg v m hm := genuine_grows hg (h.msg v m hm)
  targets v p report hp := targetsKept_grows hg (h.targets v p report hp)
  fresh v hv o hm := h.fresh v hv o (hlog _ hm rfl)
  newWms := h.newWms
  newGl := h.newGl
  picked hm := h.picked (hlog _ hm rfl)
  posted hm := h.posted (hlog _ hm rfl)
  reports r hr := reportKept_grows hg (h.reports r hr)

/-- A task of a flow goes on to something that is no handling. -/
theorem flowKept_setTask {hash : Hashes} {w : World} {f : Nat} {fl : RunFlow} (h : FlowKept hash w f fl) {v : Vertical}
    {t : Task} (hborn : fl.tasks v ≠ .unborn) (hstart : ∀ todo, t = .subscribing todo → ∃ more, fl.tasks v = .subscribing more)
    (hfresh : ¬ t.Fresh) (hmsg : ∀ m, t.msg? = some m → Genuine w m)
    (htargets : ∀ p report, t = .publishing p report → TargetsKept w p)
    (hreport : ∀ r, t.report? = some r → ReportKept w f fl.order r) : FlowKept hash w f (fl.setTask v t) := by
  have hself : (fl.setTask v t).tasks v = t := Function.update_self ..
  have hother : ∀ u, u ≠ v → (fl.setTask v t).tasks u = fl.tasks u := fun u hu => Function.update_of_ne hu ..
  -- a task that is fresh now was fresh before
  have hback : ∀ u, ((fl.setTask v t).tasks u).Fresh → (fl.tasks u).Fresh := by
    intro u hu
    by_cases he : u = v
    · rw [he, hself] at hu
      exact absurd hu hfresh
    · rwa [hother u he] at hu
  refine ⟨?_, ?_, ?_, ?_, ?_, ?_, ?_, h.picked, h.posted, ?_⟩
  · intro u todo hu
    have hold : ∃ more, fl.tasks u = .subscribing more := by
      by_cases he : u = v
      · rw [he, hself] at hu
        rw [he]
        exact hstart todo hu
      · rw [hother u he] at hu
        exact ⟨todo, hu⟩
    obtain ⟨more, hmore⟩ := hold
    obtain ⟨rfl, hunborn⟩ := h.starting u more hmore
    refine ⟨rfl, fun u' hu' => ?_⟩
    by_cases he : u' = v
    · exact absurd (he ▸ hunborn u' hu') hborn
    · rw [hother u' he]
      exact hunborn u' hu'
  · intro u tx hc
    exact ⟨(h.channel u tx hc).1, fun hu => (h.channel u tx hc).2 (hback u hu)⟩
  · intro u m hm
    by_cases he : u = v
    · rw [he, hself] at hm
      exact hmsg m hm
    · rw [hother u he] at hm
      exact h.msg u m hm
  · intro u p report hp
    by_cases he : u = v
    · rw [he, hself] at hp
      exact htargets p report hp
    · rw [hother u he] at hp
      exact h.targets u p report hp
  · exact fun u hu => h.fresh u (hback u hu)
  · exact fun hu => h.newWms (hback _ hu)
  · exact fun hu => h.newGl (hback _ hu)
  · rintro r (⟨u, hu⟩ | hr)
    · by_cases he : u = v
      · rw [he, hself] at hu
        exact hreport r hu
      · rw [hother u he] at hu
        exact h.reports r (Or.inl ⟨u, hu⟩)
    · exact h.reports r (Or.inr hr)

theorem flowKept_gone {hash : Hashes} {w : World} {f : Nat} {fl : RunFlow} (h : FlowKept hash w f fl) {v : Vertical}
    (hborn : fl.tasks v ≠ .unborn) : FlowKept hash w f (fl.setTask v .gone) :=
  flowKept_setTask h hborn (fun _ ht => (nomatch ht)) id (fun _ hm => (nomatch hm)) (fun _ _ hp => (nomatch hp))
    fun _ hr => (nomatch hr)

/-- A report is handed over, or returned. -/
theorem flowKept_finish {hash : Hashes} {w : World} {f : Nat} {fl : RunFlow} (h : FlowKept hash w f fl)
    {done : Option FlowReport} {returned : Option (Option FlowReport)}
    (hdone : ∀ r, done = some r → ReportKept w f fl.order r)
    (hreturned : ∀ r, returned = some (some r) → ReportKept w f fl.order r) :
    FlowKept hash w f { fl with done, returned } := by
  refine ⟨h.starting, h.channel, h.msg, h.targets, h.fresh, h.newWms, h.newGl, h.picked, h.posted, ?_⟩
  rintro r (hr | hr | hr)
  · exact h.reports r (Or.inl hr)
  · exact hdone r hr
  · exact hreturned r hr

theorem flowKept_subscribed {hash : Hashes} {w : World} {f : Nat} {fl : RunFlow} (h : FlowKept hash w f fl)
    {u : Vertical} {tx : Nat} (hc : ChannelKept w f u tx) (hnew : w.bus.received tx = 0) :
    FlowKept hash w f { fl with channels := Function.update fl.channels u (some tx) } := by
  refine ⟨h.starting, fun v k hk => ?_, h.msg, h.targets, h.fresh, h.newWms, h.newGl, h.picked, h.posted, h.reports⟩
  dsimp only at hk
  by_cases he : v = u
  · subst he
    rw [Function.update_self] at hk
    obtain rfl := Option.some.inj hk
    exact ⟨hc, fun _ => hnew⟩
  · rw [Function.update_of_ne he] at hk
    exact h.channel v k hk

theorem flowKept_spawn {hash : Hashes} {w : World} {f : Nat} {fl : RunFlow} (h : FlowKept hash w f fl)
    (hf : ∃ fl', w.flows[f]? = some fl' ∧ fl'.order = fl.order) {v : Vertical} (hv : fl.tasks v = .subscribing []) :
    FlowKept hash w f (fl.spawn f) := by
  obtain ⟨-, hunborn⟩ := h.starting v [] hv
  have homs : ∃ m, (fl.spawn f).tasks .oms = .ready m none ∧ Genuine w m := by
    obtain ⟨fl', hf', horder⟩ := hf
    exact ⟨_, rfl, fl', hf', horder ▸ ⟨rfl, rfl, rfl⟩, fun hs => absurd rfl hs⟩
  obtain ⟨m, hm, hgenuine⟩ := homs
  have hother : ∀ u, u ≠ .oms → (fl.spawn f).tasks u = .waiting := fun u hu => if_neg hu
  have hfresh : ∀ u, ((fl.spawn f).tasks u).Fresh → (fl.tasks u).Fresh := by
    intro u hu
    by_cases he : u = .oms
    · rw [he, hm] at hu
      exact hu.elim
    · rw [hunborn u he]
      trivial
  refine ⟨?_, ?_, ?_, ?_, ?_, ?_, ?_, h.picked, h.posted, ?_⟩
  · intro u todo hu
    by_cases he : u = .oms
    · rw [he, hm] at hu
      cases hu
    · rw [hother u he] at hu
      cases hu
  · exact fun u tx hc => ⟨(h.channel u tx hc).1, fun hu => (h.channel u tx hc).2 (hfresh u hu)⟩
  · intro u m' hu
    by_cases he : u = .oms
    · rw [he, hm] at hu
      exact Option.some.inj hu ▸ hgenuine
    · rw [hother u he] at hu
      cases hu
  · intro u p report hu
    by_cases he : u = .oms
    · rw [he, hm] at hu
      cases hu
    · rw [hother u he] at hu
      cases hu
  · exact fun u hu => h.fresh u (hfresh u hu)
  · exact fun hu => h.newWms (hfresh _ hu)
  · exact fun hu => h.newGl (hfresh _ hu)
  · rintro r (⟨u, hu⟩ | hr)
    · by_cases he : u = .oms
      · rw [he, hm] at hu
        cases hu
      · rw [hother u he] at hu
        cases hu
    · exact h.reports r (Or.inr hr)

/-! ## A handling -/

/-- The subjects are no patterns. -/
theorem subjectMatches_listensTo {v : Vertical} {subject published : String} (hl : v.listensTo = some subject)
    (h : subjectMatches subject published = true) : subject = published := by
  rcases (subjectMatches_iff subject published).mp h with he | ⟨start, rest, he, -⟩
  · exact he
  · have hplain : subject.toList.getLast? ≠ some '>' := by
      cases v with
      | oms => cases hl
      | wms | tms | gl =>
        obtain rfl := Option.some.inj hl
        decide
    rw [he, List.getLast?_concat] at hplain
    exact absurd rfl hplain

/-- A subscription brings events of one kind. -/
theorem listensTo_iff (v : Vertical) (e : Event) : v.listensTo = some e.subject ↔
    match v, e with
    | .wms, .orderCreated _ | .tms, .pickDone _ | .gl, .dispatchDone _ => True
    | _, _ => False := by
  cases v <;> cases e <;>
    simp [Vertical.listensTo, Event.subject, SUBJECT_ORDER_CREATED, SUBJECT_PICK_DONE, SUBJECT_DISPATCH_DONE,
      SUBJECT_GL_POSTED]

/-- What a handler does with its own flow's message. -/
structure HandledRight (hash : Hashes) (v : Vertical) (fl fl' : RunFlow) (e : Event) (report : Option FlowReport) :
    Prop where
  order : fl'.order = fl.order
  channels : fl'.channels = fl.channels
  tasks : fl'.tasks = fl.tasks
  done : fl'.done = fl.done
  returned : fl'.returned = fl.returned
  about : e.About fl.order
  subject : e.subject ≠ SUBJECT_ORDER_CREATED
  wms : fl'.wms = if v = .wms then receiveAndPick (.new hash.wms) fl.order.key fl.order.qty else fl.wms
  gl : if v = .gl then fl'.gl.legs.Perm (cogsLegs fl.order) else fl'.gl = fl.gl
  report : ∀ r, report = some r → v = .gl ∧ r.picked = fl.order.qty ∧ r.postedAmount = fl.order.total fl.order.qty

theorem handle_right {hash : Hashes} {w : World} {f : Nat} {fl : RunFlow} (h : FlowKept hash w f fl) {v : Vertical}
    (hv : (fl.tasks v).Fresh) {e : Event} (hl : v.listensTo = some e.subject) (habout : e.About fl.order) {o : Outcome}
    (ho : fl.handle v e = some o) :
    (∃ gl, v = .gl ∧ o = .panics { fl with gl }) ∨
      ∃ fl' e' report, o = .publishes fl' e' report ∧ HandledRight hash v fl fl' e' report := by
  cases v with
  | oms => cases hl
  | wms =>
    cases e with
    | orderCreated oc =>
      obtain rfl := Option.some.inj ho
      obtain ⟨hsku, hbin, hqty⟩ := habout
      have hpick : SUBJECT_PICK_DONE ≠ SUBJECT_ORDER_CREATED := by decide
      refine Or.inr ⟨_, _, _, rfl, rfl, rfl, rfl, rfl, rfl, hqty, hpick, ?_, rfl, fun r hr => (nomatch hr)⟩
      dsimp only
      rw [if_pos rfl, h.newWms hv, hsku, hbin, hqty]
      rfl
    | pickDone | dispatchDone | glPosted => exact ((listensTo_iff _ _).mp hl).elim
  | tms =>
    cases e with
    | pickDone pd =>
      obtain rfl := Option.some.inj ho
      have hdispatch : SUBJECT_DISPATCH_DONE ≠ SUBJECT_ORDER_CREATED := by decide
      exact Or.inr ⟨_, _, _, rfl, rfl, rfl, rfl, rfl, rfl, habout, hdispatch, rfl, rfl, fun r hr => (nomatch hr)⟩
    | orderCreated | dispatchDone | glPosted => exact ((listensTo_iff _ _).mp hl).elim
  | gl =>
    cases e with
    | dispatchDone dd =>
      have hqty : dd.qty = fl.order.qty := habout
      simp only [RunFlow.handle, hqty, h.newGl hv] at ho
      split at ho
      · cases ho
      · next gl hp =>
        obtain rfl := Option.some.inj ho
        exact Or.inl ⟨gl, rfl, rfl⟩
      · next tx gl hp =>
        obtain rfl := Option.some.inj ho
        have hposted : SUBJECT_GL_POSTED ≠ SUBJECT_ORDER_CREATED := by decide
        refine Or.inr ⟨_, _, _, rfl, rfl, rfl, rfl, rfl, rfl, trivial, hposted, rfl, posted_cogs hp, ?_⟩
        intro r hr
        obtain rfl := Option.some.inj hr
        exact ⟨rfl, rfl, rfl⟩
    | orderCreated | pickDone | glPosted => exact ((listensTo_iff _ _).mp hl).elim

/-- A handling is logged, with what it does to the engines of the flow. -/
theorem flowKept_log {hash : Hashes} {w w' : World} (hg : Grows w w') {f : Nat} {fl fl' : RunFlow} {v : Vertical}
    {e : Event} {report : Option FlowReport} (h : FlowKept hash w f fl) (hv : ¬ (fl.tasks v).Fresh)
    (hnew : ∀ o, ⟨v, o, f⟩ ∉ w.log) (hlog : w'.log = w.log ++ [⟨v, f, f⟩])
    (hchannel : ∀ u tx, fl.channels u = some tx →
      ChannelKept w' f u tx ∧ ((fl.tasks u).Fresh → w'.bus.received tx = 0))
    (hr : HandledRight hash v fl fl' e report) : FlowKept hash w' f fl' := by
  have hlogged : ∀ {u : Vertical} {o : Nat}, ⟨u, o, f⟩ ∈ w'.log → ⟨u, o, f⟩ ∈ w.log ∧ u ≠ v ∨ u = v := by
    intro u o hm
    by_cases hu : u = v
    · exact Or.inr hu
    · rw [hlog] at hm
      rcases List.mem_append.mp hm with hm | hm
      · exact Or.inl ⟨hm, hu⟩
      · exact absurd (congrArg Handled.vertical (List.mem_singleton.mp hm)) hu
  have hne : ∀ {u : Vertical}, (fl.tasks u).Fresh → u ≠ v := by
    rintro u hu rfl
    exact hv hu
  refine ⟨?_, ?_, ?_, ?_, ?_, ?_, ?_, ?_, ?_, ?_⟩
  · rw [hr.tasks]
    exact h.starting
  · rw [hr.tasks, hr.channels]
    exact hchannel
  · rw [hr.tasks]
    exact fun u m hm => genuine_grows hg (h.msg u m hm)
  · rw [hr.tasks]
    exact fun u p report hp => targetsKept_grows hg (h.targets u p report hp)
  · rw [hr.tasks]
    intro u hu o hm
    rcases hlogged hm with ⟨hm, -⟩ | he
    · exact h.fresh u hu o hm
    · exact hne hu he
  · rw [hr.tasks]
    intro hu
    rw [hr.wms, if_neg (Ne.symm (hne hu))]
    exact h.newWms hu
  · rw [hr.tasks, hr.order]
    intro hu
    have hgl := hr.gl
    rw [if_neg (Ne.symm (hne hu))] at hgl
    rw [hgl]
    exact h.newGl hu
  · rw [hr.order, hr.wms]
    intro hm
    rcases hlogged hm with ⟨hm, hu⟩ | rfl
    · rw [if_neg (Ne.symm hu)]
      exact h.picked hm
    · exact if_pos rfl
  · rw [hr.order]
    intro hm
    have hgl := hr.gl
    rcases hlogged hm with ⟨hm, hu⟩ | rfl
    · rw [if_neg (Ne.symm hu)] at hgl
      rw [hgl]
      exact h.posted hm
    · rwa [if_pos rfl] at hgl
  · intro r hrep
    unfold RunFlow.Reports at hrep
    rw [hr.tasks, hr.done, hr.returned] at hrep
    rw [hr.order]
    exact reportKept_grows hg (h.reports r hrep)

/-- A handler has handled its own flow's message. -/
theorem flowKept_handled {hash : Hashes} {w w' : World} (hg : Grows w w') {f : Nat} {fl fl' : RunFlow} {v : Vertical}
    {e : Event} {report : Option FlowReport} (h : FlowKept hash w f fl) (hf : w.flows[f]? = some fl)
    (hv : fl.tasks v = .waiting) (hlog : w'.log = w.log ++ [⟨v, f, f⟩])
    (hchannel : ∀ u tx, fl.channels u = some tx →
      ChannelKept w' f u tx ∧ (u ≠ v → w'.bus.received tx = w.bus.received tx))
    (hafter : v ≠ .wms → ⟨.wms, f, f⟩ ∈ w.log) (hr : HandledRight hash v fl fl' e report) :
    FlowKept hash w' f (fl'.setTask v (.ready ⟨f, e⟩ report)) := by
  have hfresh : (fl.tasks v).Fresh := by
    rw [hv]
    trivial
  have hgone : FlowKept hash w f (fl.setTask v .gone) := flowKept_gone h (by simp [hv])
  have hself : (fl.setTask v .gone).tasks v = .gone := Function.update_self ..
  have hr' : HandledRight hash v (fl.setTask v .gone) (fl'.setTask v .gone) e report :=
    { hr with tasks := congrArg (fun tasks : Vertical → Task => Function.update tasks v Task.gone) hr.tasks }
  have hlogged : FlowKept hash w' f (fl'.setTask v .gone) := by
    refine flowKept_log hg hgone ?_ (h.fresh v hfresh) hlog (fun u tx hc => ?_) hr'
    · rw [hself]
      exact id
    · obtain ⟨hkept, hreceived⟩ := hchannel u tx hc
      refine ⟨hkept, fun hu => ?_⟩
      by_cases he : u = v
      · rw [he, hself] at hu
        exact hu.elim
      · rw [hreceived he]
        have hold : (fl.setTask v .gone).tasks u = fl.tasks u := Function.update_of_ne he ..
        rw [hold] at hu
        exact (h.channel u tx hc).2 hu
  have htwice : fl'.setTask v (.ready ⟨f, e⟩ report) = (fl'.setTask v .gone).setTask v (.ready ⟨f, e⟩ report) := by
    unfold RunFlow.setTask
    rw [Function.update_idem]
  have hwms : ⟨.wms, f, f⟩ ∈ w'.log := by
    by_cases he : v = .wms
    · rw [hlog, he]
      exact List.mem_append_right _ (List.mem_singleton_self _)
    · exact hg.log _ (hafter he)
  rw [htwice]
  refine flowKept_setTask hlogged ?_ (fun _ ht => (nomatch ht)) id ?_ (fun _ _ hp => (nomatch hp)) ?_
  · rw [show (fl'.setTask v .gone).tasks v = .gone from Function.update_self ..]
    exact fun ht => (nomatch ht)
  · intro m hm
    obtain rfl := Option.some.inj hm
    obtain ⟨fl'', hf'', horder⟩ := hg.order f fl hf
    exact ⟨fl'', hf'', horder ▸ hr.about, fun _ => hwms⟩
  · intro r hrep
    obtain ⟨rfl, hpicked, hamount⟩ := hr.report r hrep
    have horder : (fl'.setTask .gl .gone).order = fl.order := hr.order
    rw [horder]
    refine ⟨hpicked, hamount, hwms, ?_⟩
    rw [hlog]
    exact List.mem_append_right _ (List.mem_singleton_self _)

/-- A posting that fails ends the handler of GL. -/
theorem flowKept_panic {hash : Hashes} {w : World} {f : Nat} {fl : RunFlow} (h : FlowKept hash w f fl)
    (hv : fl.tasks .gl = .waiting) (gl : Gl.JournalEngine Usd 64) :
    FlowKept hash w f (({ fl with gl } : RunFlow).setTask .gl .gone) := by
  have hfresh : (fl.tasks .gl).Fresh := by
    rw [hv]
    trivial
  have hgone : FlowKept hash w f (fl.setTask .gl .gone) := flowKept_gone h (by simp [hv])
  exact ⟨hgone.starting, hgone.channel, hgone.msg, hgone.targets, hgone.fresh, hgone.newWms, fun hu => hu.elim,
    hgone.picked, fun hm => absurd hm (h.fresh .gl hfresh f), hgone.reports⟩

/-! ## A step -/

section
variable {hash : Hashes} {w w' : World} {f : Nat} {fl fl' : RunFlow}

theorem grows_set (hf : w.flows[f]? = some fl) (hflows : w'.flows = w.flows.set f fl') (horder : fl'.order = fl.order)
    (hlen : w.bus.channels.length ≤ w'.bus.channels.length)
    (hchannels : ∀ v tx, fl'.channels v = some tx → fl.channels v = some tx ∨ w.bus.channels.length ≤ tx)
    (hlog : ∀ e ∈ w.log, e ∈ w'.log) : Grows w w' := by
  refine ⟨hlen, fun g gl hg => ?_, fun g gl v tx hg hc => ?_, hlog⟩
  · rw [hflows, getElem?_set_some hf]
    by_cases he : g = f
    · subst he
      rw [hf] at hg
      obtain rfl := Option.some.inj hg
      exact ⟨fl', if_pos rfl, horder⟩
    · exact ⟨gl, by rw [if_neg he, hg], rfl⟩
  · rw [hflows, getElem?_set_some hf] at hg
    by_cases he : g = f
    · rw [if_pos he] at hg
      obtain rfl := Option.some.inj hg
      rw [he]
      exact (hchannels v tx hc).imp_left fun hc => ⟨fl, hf, hc⟩
    · rw [if_neg he] at hg
      exact Or.inl ⟨gl, hg, hc⟩

/-- The snapshot of a publication: a handler's subscription that matches is for that very subject. -/
theorem targetsKept_targets (h : Kept hash w) (msg : Envelope) :
    TargetsKept w { msg, targets := w.bus.targets msg.event.subject } := by
  intro t ht
  obtain ⟨s, hs, rfl⟩ := List.mem_map.mp ht
  obtain ⟨hs, hmatch⟩ := List.mem_filter.mp hs
  refine ⟨h.table s hs, fun g gl v hgl hc => ?_⟩
  have hlistens := ((h.flow g gl hgl).channel v s.tx hc).1.subs s hs rfl
  rw [subjectMatches_listensTo hlistens hmatch] at hlistens
  exact hlistens

/-- One flow takes a step, and perhaps logs a handling. -/
theorem kept_set (h : Kept hash w) (hf : w.flows[f]? = some fl) (hflows : w'.flows = w.flows.set f fl')
    (hg : Grows w w') {more : List Handled} (hlog : w'.log = w.log ++ more) (hmore : ∀ e ∈ more, e.order = f ∧ e.flow = f)
    (honce : w'.log.Nodup) (htable : ∀ s ∈ w'.bus.subs, s.tx < w'.bus.channels.length)
    (hchannel : ∀ (g : Nat) gl v tx, g ≠ f → w.flows[g]? = some gl → gl.channels v = some tx →
      ChannelKept w' g v tx ∧ w'.bus.received tx = w.bus.received tx)
    (hinj : ∀ v v' tx, fl'.channels v = some tx → fl'.channels v' = some tx → v = v')
    (hflow : FlowKept hash w' f fl') : Kept hash w' := by
  have hlt : ∀ {g : Nat} {gl : RunFlow} {v tx}, w.flows[g]? = some gl → gl.channels v = some tx →
      tx < w.bus.channels.length := fun hg hc => ((h.flow _ _ hg).channel _ _ hc).1.lt
  have hlookup : ∀ g, w'.flows[g]? = if g = f then some fl' else w.flows[g]? := by
    intro g
    rw [hflows, getElem?_set_some hf]
  refine ⟨htable, fun g gl hgl => ?_, fun g g' gl gl' v v' tx hgl hgl' hc hc' => ?_, fun e he => ?_, honce⟩
  · rw [hlookup] at hgl
    by_cases he : g = f
    · rw [if_pos he] at hgl
      rw [he, ← Option.some.inj hgl]
      exact hflow
    · rw [if_neg he] at hgl
      refine flowKept_grows hg (h.flow g gl hgl) (fun e hm hflow => ?_) fun v tx hc => ?_
      · rw [hlog] at hm
        rcases List.mem_append.mp hm with hm | hm
        · exact hm
        · exact absurd (hflow.symm.trans (hmore e hm).2) he
      · obtain ⟨hkept, hreceived⟩ := hchannel g gl v tx he hgl hc
        exact ⟨hkept, fun hv => hreceived.trans (((h.flow g gl hgl).channel v tx hc).2 hv)⟩
  · -- only the flow that takes the step has new channels
    have hnew : ∀ {g : Nat} {gl : RunFlow} {v}, w'.flows[g]? = some gl → gl.channels v = some tx →
        w.bus.channels.length ≤ tx → g = f ∧ gl = fl' := by
      intro g gl v hgl hc hle
      rw [hlookup] at hgl
      by_cases he : g = f
      · rw [if_pos he] at hgl
        exact ⟨he, (Option.some.inj hgl).symm⟩
      · rw [if_neg he] at hgl
        exact absurd (hlt hgl hc) (by omega)
    rcases hg.channels g gl v tx hgl hc with ⟨old, hold, hoc⟩ | hle
    · rcases hg.channels g' gl' v' tx hgl' hc' with ⟨old', hold', hoc'⟩ | hle
      · exact h.own g g' old old' v v' tx hold hold' hoc hoc'
      · exact absurd (hlt hold hoc) (by omega)
    · rcases hg.channels g' gl' v' tx hgl' hc' with ⟨old', hold', hoc'⟩ | -
      · exact absurd (hlt hold' hoc') (by omega)
      · obtain ⟨rfl, rfl⟩ := hnew hgl hc hle
        obtain ⟨rfl, rfl⟩ := hnew hgl' hc' hle
        exact ⟨rfl, hinj v v' tx hc hc'⟩
  · rw [hflows, List.length_set]
    rw [hlog] at he
    rcases List.mem_append.mp he with he | he
    · exact h.log e he
    · obtain ⟨horder, hflow⟩ := hmore e he
      rw [horder, hflow]
      exact ⟨rfl, (List.getElem?_eq_some_iff.mp hf).1⟩

/-- A step of a flow that sends nothing, takes no message and makes no channel. -/
theorem kept_steady (h : Kept hash w) (hf : w.flows[f]? = some fl) (hflows : w'.flows = w.flows.set f fl')
    (hlog : w'.log = w.log) (horder : fl'.order = fl.order) (hchannels : fl'.channels = fl.channels)
    (hlen : w'.bus.channels.length = w.bus.channels.length) (hsubs : ∀ s ∈ w'.bus.subs, s ∈ w.bus.subs)
    (hsent : ∀ tx, w'.bus.sent tx = w.bus.sent tx) (hreceived : ∀ tx, w'.bus.received tx = w.bus.received tx)
    (hflow : Grows w w' → FlowKept hash w' f fl → FlowKept hash w' f fl') : Kept hash w' := by
  have hg : Grows w w' :=
    grows_set hf hflows horder (Nat.le_of_eq hlen.symm) (fun v tx hc => Or.inl (hchannels ▸ hc)) fun e he => hlog ▸ he
  have hkept : ∀ {g : Nat} {v tx}, ChannelKept w g v tx → ChannelKept w' g v tx :=
    fun hc => channelKept_grows hg (fun s hs => Or.inl (hsubs s hs)) (hsent _) hc
  refine kept_set h hf hflows hg (hlog.trans (List.append_nil _).symm) (fun e he => (nomatch he)) (hlog ▸ h.once)
    (fun s hs => hlen ▸ h.table s (hsubs s hs))
    (fun g gl v tx _ hgl hc => ⟨hkept ((h.flow g gl hgl).channel v tx hc).1, hreceived tx⟩)
    (fun v v' tx hc hc' => (h.own f f fl fl v v' tx hf hf (hchannels ▸ hc) (hchannels ▸ hc')).2) (hflow hg ?_)
  refine flowKept_grows hg (h.flow f fl hf) (fun e he _ => hlog ▸ he) fun v tx hc => ?_
  obtain ⟨hold, hfresh⟩ := (h.flow f fl hf).channel v tx hc
  exact ⟨hkept hold, fun hv => (hreceived tx).trans (hfresh hv)⟩

theorem kept_subscribe (h : Kept hash w) (hf : w.flows[f]? = some fl) {v u : Vertical} {todo : List Vertical}
    {subject : String} (hv : fl.tasks v = .subscribing (u :: todo)) (hu : u.listensTo = some subject)
    (hbus : w'.bus = (w.bus.subscribe subject).2) (hlog : w'.log = w.log)
    (hflows : w'.flows = w.flows.set f (({ fl with
      channels := Function.update fl.channels u (some (w.bus.subscribe subject).1) } : RunFlow).setTask v
        (.subscribing todo))) : Kept hash w' := by
  have hlen : (w.bus.subscribe subject).2.channels.length = w.bus.channels.length + 1 := List.length_append
  have hsubs : ∀ s ∈ (w.bus.subscribe subject).2.subs, s ∈ w.bus.subs ∨
      s.tx = w.bus.channels.length ∧ s.subject = subject := by
    intro s hs
    rcases List.mem_append.mp hs with hs | hs
    · exact Or.inl hs
    · rw [List.mem_singleton.mp hs]
      exact Or.inr ⟨rfl, rfl⟩
  have hnew : (w.bus.subscribe subject).2.sent w.bus.channels.length = [] ∧
      (w.bus.subscribe subject).2.received w.bus.channels.length = 0 := by
    unfold InMemoryBus.sent InMemoryBus.received
    rw [InMemoryBus.channels_subscribe, if_pos rfl]
    exact ⟨rfl, rfl⟩
  have hcases : ∀ {k tx}, Function.update fl.channels u (some (w.bus.subscribe subject).1) k = some tx →
      fl.channels k = some tx ∧ tx < w.bus.channels.length ∨ k = u ∧ tx = w.bus.channels.length := by
    intro k tx hk
    by_cases he : k = u
    · subst he
      rw [Function.update_self] at hk
      exact Or.inr ⟨rfl, (Option.some.inj hk).symm⟩
    · rw [Function.update_of_ne he] at hk
      exact Or.inl ⟨hk, ((h.flow f fl hf).channel k tx hk).1.lt⟩
  rw [← hbus] at hlen hsubs hnew
  have hg : Grows w w' := by
    refine grows_set hf hflows rfl (by omega) (fun k tx hk => ?_) fun e he => hlog ▸ he
    exact (hcases hk).imp And.left fun hk => Nat.le_of_eq hk.2.symm
  have hkept : ∀ {g : Nat} {k tx}, ChannelKept w g k tx → ChannelKept w' g k tx := by
    intro g k tx hc
    refine channelKept_grows hg (fun s hs => (hsubs s hs).imp_right fun hs => Nat.le_of_eq hs.1.symm) ?_ hc
    rw [hbus]
    exact (w.bus.quiet_subscribe subject).sent tx
  have hreceived : ∀ tx, w'.bus.received tx = w.bus.received tx := by
    intro tx
    rw [hbus, InMemoryBus.received_subscribe]
  refine kept_set h hf hflows hg (hlog.trans (List.append_nil _).symm) (fun e he => (nomatch he)) (hlog ▸ h.once) ?_
    (fun g gl k tx _ hgl hc => ⟨hkept ((h.flow g gl hgl).channel k tx hc).1, hreceived tx⟩) ?_ ?_
  · intro s hs
    rw [hlen]
    rcases hsubs s hs with hs | ⟨hs, -⟩
    · exact Nat.lt_succ_of_lt (h.table s hs)
    · omega
  · intro k k' tx hk hk'
    rcases hcases hk with ⟨hc, hlt⟩ | ⟨rfl, htx⟩
    · rcases hcases hk' with ⟨hc', -⟩ | ⟨-, htx⟩
      · exact (h.own f f fl fl k k' tx hf hf hc hc').2
      · omega
    · rcases hcases hk' with ⟨-, hlt⟩ | ⟨rfl, -⟩
      · omega
      · rfl
  · have hold : FlowKept hash w' f fl := by
      refine flowKept_grows hg (h.flow f fl hf) (fun e he _ => hlog ▸ he) fun k tx hc => ?_
      obtain ⟨hold, hfresh⟩ := (h.flow f fl hf).channel k tx hc
      exact ⟨hkept hold, fun hk => (hreceived tx).trans (hfresh hk)⟩
    have hchannel : ChannelKept w' f u w.bus.channels.length := by
      refine ⟨by omega, fun s hs htx => ?_, fun m hm => ?_, fun m hm => ?_⟩
      · rcases hsubs s hs with hs | ⟨-, hs⟩
        · exact absurd (h.table s hs) (by omega)
        · rw [hu, hs]
      · rw [hnew.1] at hm
        cases hm
      · rw [hnew.1] at hm
        cases hm
    refine flowKept_setTask (flowKept_subscribed hold hchannel hnew.2) (v := v) ?_ (fun _ _ => ⟨_, hv⟩) id
      (fun _ hm => (nomatch hm)) (fun _ _ hp => (nomatch hp)) fun _ hr => (nomatch hr)
    show fl.tasks v ≠ .unborn
    rw [hv]
    exact fun ht => (nomatch ht)

theorem kept_send (h : Kept hash w) (hf : w.flows[f]? = some fl) {v : Vertical} {p : Publication Envelope}
    {report : Option FlowReport} (hv : fl.tasks v = .publishing p report) {n tx : Nat} {targets : List (Nat × Nat)}
    (ht : p.targets = (n, tx) :: targets) {ok : Bool} (hs : w.bus.Sent w'.bus tx p.msg ok)
    (hord : Orderly w (.run f v)) {dead : List Nat} (hlog : w'.log = w.log)
    (hflows : w'.flows = w.flows.set f (fl.setTask v (.publishing { p with targets, dead } report))) : Kept hash w' := by
  have hk := h.flow f fl hf
  have hg : Grows w w' :=
    grows_set hf hflows rfl (Nat.le_of_eq hs.channels.symm) (fun u k hc => Or.inl hc) fun e he => hlog ▸ he
  have hnext : w.nextSend (.run f v) = some (tx, p.msg) := by
    simp only [World.nextSend]
    rw [hf]
    dsimp only
    rw [hv]
    dsimp only
    rw [ht]
    rfl
  have hkept : ∀ {g : Nat} {gl : RunFlow} {u k}, w.flows[g]? = some gl → gl.channels u = some k →
      ChannelKept w' g u k := by
    intro g gl u k hgl hc
    have hold := ((h.flow g gl hgl).channel u k hc).1
    have hsent := hs.sent k
    refine ⟨hs.channels ▸ hold.lt, fun s hm => hold.subs s (hs.subs ▸ hm), ?_, ?_⟩
    · intro m hm
      rw [hsent] at hm
      rcases List.mem_append.mp hm with hm | hm
      · exact ⟨(hold.sent m hm).1, genuine_grows hg (hold.sent m hm).2⟩
      · split at hm
        · next hc' =>
          obtain rfl := List.mem_singleton.mp hm
          have hlistens := (hk.targets v p report hv (n, tx) (ht ▸ List.mem_cons_self)).2 g gl u hgl (hc'.2 ▸ hc)
          exact ⟨hlistens, genuine_grows hg (hk.msg v p.msg (by rw [hv]; rfl))⟩
        · cases hm
    · intro m hm
      rw [hsent] at hm
      cases hcase : w.bus.sent k with
      | cons a rest =>
        rw [hcase] at hm
        exact hold.first m (by rw [hcase]; exact hm)
      | nil =>
        rw [hcase, List.nil_append] at hm
        split at hm
        · next hc' =>
          obtain rfl := Option.some.inj hm
          obtain ⟨-, rfl⟩ := hc'
          exact (hord k p.msg hnext hcase g gl u hgl hc).symm
        · cases hm
  refine kept_set h hf hflows hg (hlog.trans (List.append_nil _).symm) (fun e he => (nomatch he)) (hlog ▸ h.once)
    (fun s hm => hs.channels ▸ h.table s (hs.subs ▸ hm)) (fun g gl u k _ hgl hc => ⟨hkept hgl hc, hs.received k⟩)
    (fun u u' k hc hc' => (h.own f f fl fl u u' k hf hf hc hc').2) ?_
  have hstill : FlowKept hash w' f fl := by
    refine flowKept_grows hg hk (fun e he _ => hlog ▸ he) fun u k hc => ⟨hkept hf hc, fun hu => ?_⟩
    exact (hs.received k).trans ((hk.channel u k hc).2 hu)
  refine flowKept_setTask hstill (by simp [hv]) (fun _ he => (nomatch he)) id ?_ ?_ ?_
  · intro m hm
    exact hstill.msg v m (by rw [hv]; exact hm)
  · intro q r hq
    obtain ⟨rfl, -⟩ := Task.publishing.inj hq
    intro t hm
    exact hstill.targets v p report hv t (ht ▸ List.mem_cons_of_mem _ hm)
  · intro r hr
    exact hstill.reports r (Or.inl ⟨v, by rw [hv]; exact hr⟩)

/-- The message that a handler takes is the first that it was sent, so about its own flow's order. -/
theorem recv_own (h : Kept hash w) (hf : w.flows[f]? = some fl) {v : Vertical} {tx : Nat} {msg : Envelope}
    {bus : InMemoryBus Envelope} (hv : fl.tasks v = .waiting) (hc : fl.channels v = some tx)
    (hr : w.bus.recv tx = some (msg, bus)) : msg.order = f ∧ v.listensTo = some msg.event.subject ∧
      msg.event.About fl.order ∧ (v ≠ .wms → ⟨.wms, f, f⟩ ∈ w.log) := by
  obtain ⟨hkept, hfresh⟩ := (h.flow f fl hf).channel v tx hc
  have hnone : w.bus.received tx = 0 := hfresh (by rw [hv]; trivial)
  have hhead := (w.bus.received_recv hr).1
  rw [hnone] at hhead
  have horder : msg.order = f := hkept.first msg (List.head?_eq_getElem? ▸ hhead)
  obtain ⟨hlistens, fl', hf', habout, hlog⟩ := hkept.sent msg (List.mem_of_getElem? hhead)
  rw [horder] at hf' hlog
  rw [hf] at hf'
  obtain rfl := Option.some.inj hf'
  refine ⟨horder, hlistens, habout, fun hne => hlog fun he => hne ?_⟩
  rw [he] at hlistens
  revert hlistens
  cases v <;> decide

/-- What the other handlers see of a receipt. -/
theorem channel_recv (h : Kept hash w) (hf : w.flows[f]? = some fl) {v : Vertical} {tx : Nat} {msg : Envelope}
    {bus : InMemoryBus Envelope} (hc : fl.channels v = some tx) (hr : w.bus.recv tx = some (msg, bus))
    (hg : Grows w w') (hsubs : w'.bus.subs = bus.subs) (hsent : ∀ k, w'.bus.sent k = bus.sent k)
    (hreceived : ∀ k, w'.bus.received k = bus.received k) {g : Nat} {gl : RunFlow} {u : Vertical} {k : Nat}
    (hgl : w.flows[g]? = some gl) (hk : gl.channels u = some k) :
    ChannelKept w' g u k ∧ (¬ (g = f ∧ u = v) → w'.bus.received k = w.bus.received k) := by
  obtain ⟨hquiet, hsame, -, -⟩ := w.bus.quiet_recv hr
  constructor
  · refine channelKept_grows hg (fun s hs => Or.inl ?_) ?_ ((h.flow g gl hgl).channel u k hk).1
    · rwa [hsubs, hsame] at hs
    · rw [hsent, hquiet.sent]
  · intro hne
    rw [hreceived, (w.bus.received_recv hr).2, if_neg]
    rintro rfl
    exact hne (h.own g f gl fl u v k hgl hf hk hc)

theorem kept_handled (h : Kept hash w) (hf : w.flows[f]? = some fl) {v : Vertical} {tx : Nat} {msg : Envelope}
    {bus : InMemoryBus Envelope} (hv : fl.tasks v = .waiting) (hc : fl.channels v = some tx)
    (hr : w.bus.recv tx = some (msg, bus)) {e : Event} {report : Option FlowReport}
    (hright : HandledRight hash v fl fl' e report) (hbus : w'.bus = bus)
    (hflows : w'.flows = w.flows.set f (fl'.setTask v (.ready ⟨msg.order, e⟩ report)))
    (hlog : w'.log = w.log ++ [⟨v, msg.order, f⟩]) : Kept hash w' := by
  obtain ⟨horder, -, -, hafter⟩ := recv_own h hf hv hc hr
  rw [horder] at hflows hlog
  obtain ⟨-, hsubs, -, hlen⟩ := w.bus.quiet_recv hr
  have hk := h.flow f fl hf
  have hg : Grows w w' := by
    refine grows_set hf hflows hright.order ?_ (fun u k hc => Or.inl ?_) fun a ha => ?_
    · rw [hbus, hlen]
    · have hsame := hright.channels
      exact hsame ▸ hc
    · rw [hlog]
      exact List.mem_append_left _ ha
  have hchannel : ∀ {g : Nat} {gl : RunFlow} {u k}, w.flows[g]? = some gl → gl.channels u = some k →
      ChannelKept w' g u k ∧ (¬ (g = f ∧ u = v) → w'.bus.received k = w.bus.received k) := by
    subst hbus
    exact channel_recv h hf hc hr hg rfl (fun _ => rfl) fun _ => rfl
  have hnew : ⟨v, f, f⟩ ∉ w.log := hk.fresh v (by rw [hv]; trivial) f
  refine kept_set h hf hflows hg hlog (fun a ha => ?_) ?_ (fun s hs => ?_) (fun g gl u k hne hgl hc => ?_)
    (fun u u' k hu hu' => ?_) (flowKept_handled hg hk hf hv hlog (fun u k hc => ?_) hafter hright)
  · rw [List.mem_singleton.mp ha]
    exact ⟨rfl, rfl⟩
  · rw [hlog]
    exact List.nodup_append.mpr ⟨h.once, List.nodup_singleton _, fun a ha b hb he =>
      hnew (List.mem_singleton.mp hb ▸ he ▸ ha)⟩
  · rw [hbus] at hs ⊢
    rw [hlen]
    exact h.table s (hsubs ▸ hs)
  · exact ⟨(hchannel hgl hc).1, (hchannel hgl hc).2 fun he => hne he.1⟩
  · have hsame : (fl'.setTask v (.ready ⟨f, e⟩ report)).channels = fl.channels := hright.channels
    rw [hsame] at hu hu'
    exact (h.own f f fl fl u u' k hf hf hu hu').2
  · exact ⟨(hchannel hf hc).1, fun hne => (hchannel hf hc).2 fun he => hne he.2⟩

theorem kept_panic (h : Kept hash w) (hf : w.flows[f]? = some fl) {tx : Nat} {msg : Envelope}
    {bus : InMemoryBus Envelope} (hv : fl.tasks .gl = .waiting) (hc : fl.channels .gl = some tx)
    (hr : w.bus.recv tx = some (msg, bus)) {gl : Gl.JournalEngine Usd 64} (hbus : w'.bus = bus.dropReceiver tx)
    (hflows : w'.flows = w.flows.set f (({ fl with gl } : RunFlow).setTask .gl .gone)) (hlog : w'.log = w.log) :
    Kept hash w' := by
  obtain ⟨-, hsubs, -, hlen⟩ := w.bus.quiet_recv hr
  have hlen' : w'.bus.channels.length = w.bus.channels.length := by
    rw [hbus, ← hlen]
    exact List.length_modify ..
  have hg : Grows w w' :=
    grows_set hf hflows rfl (Nat.le_of_eq hlen'.symm) (fun u k hc => Or.inl hc) fun a ha => hlog ▸ ha
  have hchannel : ∀ {g : Nat} {gl : RunFlow} {u k}, w.flows[g]? = some gl → gl.channels u = some k →
      ChannelKept w' g u k ∧ (¬ (g = f ∧ u = .gl) → w'.bus.received k = w.bus.received k) := by
    refine channel_recv h hf hc hr hg ?_ (fun k => ?_) fun k => ?_
    · rw [hbus]
      rfl
    · rw [hbus]
      exact (bus.quiet_dropReceiver tx).sent k
    · rw [hbus, InMemoryBus.received_dropReceiver]
  have hgone : FlowKept hash w' f (({ fl with gl } : RunFlow).setTask .gl .gone) := by
    refine flowKept_grows hg (flowKept_panic (h.flow f fl hf) hv gl) (fun a ha _ => hlog ▸ ha) fun u k hc => ?_
    refine ⟨(hchannel hf hc).1, fun hu => ?_⟩
    by_cases he : u = .gl
    · rw [he] at hu
      exact hu.elim
    · have hold : (({ fl with gl } : RunFlow).setTask .gl .gone).tasks u = fl.tasks u := Function.update_of_ne he ..
      rw [hold] at hu
      rw [(hchannel hf hc).2 fun hne => he hne.2]
      exact ((h.flow f fl hf).channel u k hc).2 hu
  refine kept_set h hf hflows hg (hlog.trans (List.append_nil _).symm) (fun e he => (nomatch he)) (hlog ▸ h.once)
    (fun s hs => ?_) (fun g gl u k hne hgl hc => ⟨(hchannel hgl hc).1, (hchannel hgl hc).2 fun he => hne he.1⟩)
    (fun u u' k hu hu' => (h.own f f fl fl u u' k hf hf hu hu').2) hgone
  rw [hlen']
  rw [hbus] at hs
  exact h.table s (hsubs ▸ hs)

theorem flowKept_new (o : Order) (hnone : ∀ v n, ⟨v, n, f⟩ ∉ w.log) : FlowKept hash w f (.new hash o) := by
  have htasks : ∀ v, v ≠ .oms → (RunFlow.new hash o).tasks v = .unborn := fun v hv => if_neg hv
  have homs : (RunFlow.new hash o).tasks .oms =
      if (placeOrder hash o).toBool then .subscribing [.wms, .tms, .gl] else .gone := rfl
  have hquiet : ∀ v, ((RunFlow.new hash o).tasks v).msg? = none ∧ ((RunFlow.new hash o).tasks v).report? = none ∧
      ∀ p report, (RunFlow.new hash o).tasks v ≠ .publishing p report := by
    intro v
    by_cases hv : v = .oms
    · rw [hv, homs]
      split
      · exact ⟨rfl, rfl, fun _ _ hp => (nomatch hp)⟩
      · exact ⟨rfl, rfl, fun _ _ hp => (nomatch hp)⟩
    · rw [htasks v hv]
      exact ⟨rfl, rfl, fun _ _ hp => (nomatch hp)⟩
  refine ⟨fun v todo hv => ?_, fun v tx hc => (nomatch hc), fun v m hm => ?_, fun v p report hp => ?_,
    fun v _ n => hnone v n, fun _ => rfl, fun _ => rfl, fun hm => absurd hm (hnone _ _),
    fun hm => absurd hm (hnone _ _), ?_⟩
  · by_cases he : v = .oms
    · exact ⟨he, htasks⟩
    · rw [htasks v he] at hv
      cases hv
  · rw [(hquiet v).1] at hm
    cases hm
  · exact absurd hp ((hquiet v).2.2 p report)
  · rintro r (⟨v, hr⟩ | hr | hr)
    · rw [(hquiet v).2.1] at hr
      cases hr
    · cases hr
    · have hnot : (RunFlow.new hash o).returned = if (placeOrder hash o).toBool then none else some none := rfl
      rw [hnot] at hr
      split at hr
      · cases hr
      · cases hr

theorem kept_start (h : Kept hash w) (o : Order) : Kept hash { w with flows := w.flows ++ [.new hash o] } := by
  have hcases : ∀ {g : Nat} {gl : RunFlow}, (w.flows ++ [.new hash o])[g]? = some gl →
      w.flows[g]? = some gl ∨ g = w.flows.length ∧ gl = .new hash o := by
    intro g gl hgl
    rcases Nat.lt_trichotomy g w.flows.length with hlt | he | hlt
    · rw [List.getElem?_append_left hlt] at hgl
      exact Or.inl hgl
    · rw [he, List.getElem?_concat_length] at hgl
      exact Or.inr ⟨he, (Option.some.inj hgl).symm⟩
    · rw [List.getElem?_eq_none (by simp; omega)] at hgl
      cases hgl
  have hg : Grows w { w with flows := w.flows ++ [.new hash o] } := by
    refine ⟨Nat.le_refl _, fun g gl hgl => ⟨gl, ?_, rfl⟩, fun g gl v tx hgl hc => ?_, fun e he => he⟩
    · dsimp only
      rw [List.getElem?_append_left (List.getElem?_eq_some_iff.mp hgl).1, hgl]
    · rcases hcases hgl with hgl | ⟨-, rfl⟩
      · exact Or.inl ⟨gl, hgl, hc⟩
      · cases hc
  have hnone : ∀ v n, ⟨v, n, w.flows.length⟩ ∉ w.log := fun v n hm => Nat.lt_irrefl _ (h.log _ hm).2
  refine ⟨h.table, fun g gl hgl => ?_, fun g g' gl gl' v v' tx hgl hgl' hc hc' => ?_, fun e he => ?_, h.once⟩
  · rcases hcases hgl with hgl | ⟨rfl, rfl⟩
    · have hold := h.flow g gl hgl
      refine flowKept_grows hg hold (fun e he _ => he) fun v tx hc => ⟨?_, (hold.channel v tx hc).2⟩
      exact channelKept_grows hg (fun s hs => Or.inl hs) rfl (hold.channel v tx hc).1
    · exact flowKept_new o hnone
  · rcases hcases hgl with hgl | ⟨-, rfl⟩
    · rcases hcases hgl' with hgl' | ⟨-, rfl⟩
      · exact h.own g g' gl gl' v v' tx hgl hgl' hc hc'
      · cases hc'
    · cases hc
  · obtain ⟨horder, hlt⟩ := h.log e he
    refine ⟨horder, ?_⟩
    show _ < (w.flows ++ [_]).length
    rw [List.length_append]
    exact Nat.lt_add_right _ hlt

theorem kept_waiting (h : Kept hash w) (hf : w.flows[f]? = some fl) {v : Vertical} (hv : fl.tasks v = .waiting)
    (hs : w.runTask f fl v = some w') : Kept hash w' := by
  unfold World.runTask at hs
  rw [hv] at hs
  dsimp only at hs
  split at hs
  · cases hs
  · next tx hc =>
    split at hs
    · cases hs
    · next msg bus hr =>
      obtain ⟨-, hlistens, habout, -⟩ := recv_own h hf hv hc hr
      have hright := fun o => handle_right (h.flow f fl hf) (v := v) (by rw [hv]; trivial) hlistens habout (o := o)
      split at hs
      · cases hs
      · next ho =>
        rcases hright _ ho with ⟨gl, -, he⟩ | ⟨fl', e, report, he, -⟩
        · cases he
        · cases he
      · next ho =>
        obtain rfl := Option.some.inj hs
        rcases hright _ ho with ⟨gl, rfl, he⟩ | ⟨fl', e, report, he, -⟩
        · obtain rfl := Outcome.panics.inj he
          exact kept_panic h hf hv hc hr rfl rfl rfl
        · cases he
      · next ho =>
        obtain rfl := Option.some.inj hs
        rcases hright _ ho with ⟨gl, -, he⟩ | ⟨fl', e, report, he, hr'⟩
        · cases he
        · obtain ⟨rfl, rfl, rfl⟩ := Outcome.publishes.inj he
          exact kept_handled h hf hv hc hr hr' rfl rfl rfl

theorem kept_ready (h : Kept hash w) (hf : w.flows[f]? = some fl) {v : Vertical} {msg : Envelope}
    {report : Option FlowReport} (hv : fl.tasks v = .ready msg report) (hs : w.runTask f fl v = some w') :
    Kept hash w' := by
  unfold World.runTask at hs
  rw [hv] at hs
  obtain rfl := Option.some.inj hs
  refine kept_steady h hf rfl rfl rfl rfl rfl (fun s hs => hs) (fun _ => rfl) (fun _ => rfl) fun hg hflow => ?_
  refine flowKept_setTask hflow (by simp [hv]) (fun _ he => (nomatch he)) id (fun m hm => ?_) (fun p r hp => ?_)
    fun r hr => ?_
  · exact hflow.msg v m (by rw [hv]; exact hm)
  · obtain ⟨rfl, -⟩ := Task.publishing.inj hp
    exact targetsKept_grows hg (targetsKept_targets h msg)
  · exact hflow.reports r (Or.inl ⟨v, by rw [hv]; exact hr⟩)

theorem kept_publishing (h : Kept hash w) (hf : w.flows[f]? = some fl) {v : Vertical} {p : Publication Envelope}
    {report : Option FlowReport} (hv : fl.tasks v = .publishing p report) (hord : Orderly w (.run f v))
    (hs : w.runTask f fl v = some w') : Kept hash w' := by
  unfold World.runTask at hs
  rw [hv] at hs
  obtain ⟨⟨bus, p'⟩, hn, rfl⟩ := Option.map_eq_some_iff.mp hs
  unfold Publication.next at hn
  split at hn
  · obtain ⟨rfl, rfl⟩ := Prod.mk.inj (Option.some.inj hn)
    refine kept_steady h hf rfl rfl rfl rfl (InMemoryBus.length_prune _) (fun s hm => ?_)
      (w.bus.quiet_prune p.dead).sent (w.bus.received_prune p.dead) fun _ hflow => ?_
    · dsimp only at hm
      rw [InMemoryBus.subs_prune] at hm
      exact (List.mem_filter.mp hm).1
    · exact flowKept_setTask hflow (by simp [hv]) (fun _ he => (nomatch he)) id (fun m hm => (nomatch hm))
        (fun q r hq => (nomatch hq)) fun r hr => hflow.reports r (Or.inl ⟨v, by rw [hv]; exact hr⟩)
  · next n tx targets ht =>
    obtain ⟨⟨ok, bus''⟩, hsend, he⟩ := Option.map_eq_some_iff.mp hn
    obtain ⟨rfl, rfl⟩ := Prod.mk.inj he
    exact kept_send h hf hv ht (w.bus.sent_of_send hsend) hord rfl rfl

theorem kept_leaving (h : Kept hash w) (hf : w.flows[f]? = some fl) {v : Vertical} {report : Option FlowReport}
    (hv : fl.tasks v = .leaving report) (hs : w.runTask f fl v = some w') : Kept hash w' := by
  have hgone : ∀ {bus : InMemoryBus Envelope} {flows : List RunFlow},
      FlowKept hash { w with bus, flows } f fl → FlowKept hash { w with bus, flows } f (fl.setTask v .gone) :=
    fun hflow => flowKept_gone hflow (by simp [hv])
  unfold World.runTask at hs
  rw [hv] at hs
  dsimp only at hs
  split at hs
  · split at hs
    · next r hdone =>
      obtain rfl := Option.some.inj hs
      refine kept_steady h hf rfl rfl rfl rfl rfl (fun s hs => hs) (fun _ => rfl) (fun _ => rfl) fun _ hflow => ?_
      refine flowKept_finish (hgone hflow) (fun r' hr' => hflow.reports r' (Or.inr (Or.inl hr'))) fun r' hr' => ?_
      obtain rfl := Option.some.inj (Option.some.inj hr')
      exact hflow.reports r (Or.inr (Or.inl hdone))
    · obtain rfl := Option.some.inj hs
      refine kept_steady h hf rfl rfl rfl rfl rfl (fun s hs => hs) (fun _ => rfl) (fun _ => rfl) fun _ hflow => ?_
      exact flowKept_finish (hgone hflow) (fun r' hr' => hflow.reports r' (Or.inr (Or.inl hr'))) fun r' hr' =>
        (nomatch hr')
    · cases hs
  · next r _ =>
    obtain rfl := Option.some.inj hs
    refine kept_steady h hf rfl rfl rfl rfl rfl (fun s hs => hs) (fun _ => rfl) (fun _ => rfl) fun _ hflow => ?_
    refine flowKept_finish (?_ : FlowKept hash _ f (fl.setTask v (.leaving none))) (fun r' hr' => ?_) fun r' hr' => ?_
    · exact flowKept_setTask hflow (by simp [hv]) (fun _ he => (nomatch he)) id (fun m hm => (nomatch hm))
        (fun q r hq => (nomatch hq)) fun r hr => (nomatch hr)
    · obtain rfl := Option.some.inj hr'
      exact hflow.reports _ (Or.inl ⟨v, by rw [hv]; rfl⟩)
    · exact hflow.reports r' (Or.inr (Or.inr hr'))
  · split at hs
    · cases hs
    · next tx hc =>
      obtain rfl := Option.some.inj hs
      exact kept_steady h hf rfl rfl rfl rfl (List.length_modify ..) (fun s hs => hs)
        (w.bus.quiet_dropReceiver tx).sent (w.bus.received_dropReceiver tx) fun _ hflow => hgone hflow

theorem kept_spawn (h : Kept hash w) (hf : w.flows[f]? = some fl) {v : Vertical} (hv : fl.tasks v = .subscribing [])
    (hs : w.runTask f fl v = some w') : Kept hash w' := by
  unfold World.runTask at hs
  rw [hv] at hs
  obtain rfl := Option.some.inj hs
  refine kept_steady h hf rfl rfl rfl rfl rfl (fun s hs => hs) (fun _ => rfl) (fun _ => rfl) fun _ hflow =>
    flowKept_spawn hflow ⟨fl.spawn f, ?_, rfl⟩ hv
  rw [getElem?_set_some hf, if_pos rfl]

theorem kept_runTask (h : Kept hash w) (hf : w.flows[f]? = some fl) (v : Vertical) (hord : Orderly w (.run f v))
    (hs : w.runTask f fl v = some w') : Kept hash w' := by
  cases hv : fl.tasks v with
  | unborn | gone =>
    unfold World.runTask at hs
    rw [hv] at hs
    cases hs
  | subscribing todo =>
    cases todo with
    | nil => exact kept_spawn h hf hv hs
    | cons u todo =>
      unfold World.runTask at hs
      rw [hv] at hs
      dsimp only at hs
      split at hs
      · cases hs
      · next subject hu =>
        obtain rfl := Option.some.inj hs
        exact kept_subscribe h hf hv hu rfl rfl rfl
  | waiting => exact kept_waiting h hf hv hs
  | ready msg report => exact kept_ready h hf hv hs
  | publishing p report => exact kept_publishing h hf hv hord hs
  | leaving report => exact kept_leaving h hf hv hs

theorem kept_step {a : Label} (h : Kept hash w) (hord : Orderly w a) (hs : step hash w a = some w') : Kept hash w' := by
  cases a with
  | start o =>
    obtain rfl := Option.some.inj hs
    exact kept_start h o
  | run f v =>
    simp only [step] at hs
    split at hs
    · cases hs
    · next fl hf => exact kept_runTask h hf v hord hs

end

/-! ## The reports -/

theorem kept_init (hash : Hashes) : Kept hash {} :=
  ⟨fun _ hs => (nomatch hs), fun _ _ hf => (nomatch hf), fun _ _ _ _ _ _ _ hf => (nomatch hf),
    fun _ he => (nomatch he), List.nodup_nil⟩

/-- **Flows stay apart in orderly runs**: of any number of flows, with any quantities and unit costs, in any order of
their steps. -/
theorem flows_unmixed (hash : Hashes) (labels : List Label) (h : LabelledRun.AllSteps (step hash) Orderly {} labels) :
    LabelledRun.AllStates (step hash) Unmixed {} labels :=
  (LabelledRun.allStates_of_allSteps (step hash) (fun _ _ _ hk hord hs => kept_step hk hord hs) (kept_init hash) h).mono
    (step hash) fun _ => unmixed_of_kept

def idHashes : Hashes := ⟨fun sku => mod64 sku.uuid, fun key => mod64 key.sku.uuid, fun account => mod64 account.uuid⟩

/-- An order whose ids are made from a number. -/
def sampleOrder (n qty : Nat) (unitCost : Money Usd) : Order :=
  { qty := u32 qty, unitCost, omsSku := ⟨n⟩, hold := ⟨n⟩, expires := 600, orderId := ⟨n⟩, sku := ⟨n⟩, bin := ⟨n⟩,
    coa := .new, cogs := ⟨1⟩, inventory := ⟨2⟩, tx := ⟨n⟩ }

def goOn (f : Nat) (v : Vertical) (n : Nat) : List Label := List.replicate n (.run f v)

def twoOrders : List Label := [.start (sampleOrder 0 4 10), .start (sampleOrder 1 3 5)]

/-- What the flows have reported as picked and as posted. -/
def World.reported (w : World) : List (Option (Nat × Money Usd)) :=
  w.flows.map fun fl => fl.returned.join.map fun r => (r.picked.1, r.postedAmount)

/-- The second flow subscribes when the first has returned. -/
def oneByOne : List Label :=
  twoOrders ++ goOn 0 .oms 7 ++ goOn 0 .wms 5 ++ goOn 0 .tms 5 ++ goOn 0 .gl 5 ++ goOn 0 .oms 1 ++
    goOn 1 .oms 8 ++ goOn 1 .wms 6 ++ goOn 1 .tms 6 ++ goOn 1 .gl 5 ++ goOn 1 .oms 1

theorem one_by_one_unmixed : ∃ w, LabelledRun.exec (step idHashes) {} oneByOne = some w ∧
    w.reported = [some (4, 40), some (3, 15)] ∧ Unmixed w := by
  have hrun : (LabelledRun.exec (step idHashes) {} oneByOne).map World.reported = some [some (4, 40), some (3, 15)] := by
    decide +kernel
  obtain ⟨w, hw, hreported⟩ := Option.map_eq_some_iff.mp hrun
  exact ⟨w, hw, hreported, (flows_unmixed idHashes oneByOne (by decide +kernel)).last (step idHashes) hw⟩

/-- Both flows have subscribed when the first publishes its order: the second flow's handler of WMS takes it. -/
def sideBySide : List Label :=
  twoOrders ++ goOn 0 .oms 3 ++ goOn 1 .oms 4 ++ goOn 0 .oms 5 ++ goOn 1 .oms 4 ++
    goOn 1 .wms 5 ++ goOn 1 .tms 5 ++ goOn 1 .gl 4 ++ goOn 1 .oms 1

/-- The flow of three units at 5 reports four, posted for 20. -/
theorem side_by_side_mixed : ¬ ∀ hash labels, LabelledRun.AllStates (step hash) Unmixed {} labels := by
  intro h
  have hrun : ((LabelledRun.exec (step idHashes) {} sideBySide).map fun w =>
      (w.reported, w.flows.map fun fl => (fl.order.qty.1, fl.order.unitCost))) =
        some ([none, some (4, 20)], [(4, 10), (3, 5)]) := by
    decide +kernel
  obtain ⟨w, hw, hrun⟩ := Option.map_eq_some_iff.mp hrun
  obtain ⟨hreported, horders⟩ := Prod.mk.inj hrun
  have hright := ((h idHashes sideBySide).last (step idHashes) hw).reports 1
  have hsecond := congrArg (fun l => l[1]?) hreported
  have horder := congrArg (fun l => l[1]?) horders
  unfold World.reported at hsecond
  rw [List.getElem?_map] at hsecond horder
  obtain ⟨fl, hf, hfl⟩ := Option.map_eq_some_iff.mp hsecond
  rw [hf] at horder
  obtain ⟨r, hr, he⟩ := Option.map_eq_some_iff.mp hfl
  have hpicked := (hright fl r hf (Option.join_eq_some_iff.mp hr)).picked
  have hfour : r.picked.1 = 4 := congrArg Prod.fst he
  have hthree : fl.order.qty.1 = 3 := congrArg Prod.fst (Option.some.inj horder)
  rw [hpicked] at hfour
  omega

end TptErp.Flow
