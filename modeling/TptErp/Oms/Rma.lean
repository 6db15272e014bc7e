import TptErp.Oms.Replay
import TptErp.Oms.Saga
import TptErp.Lib.GroupBy

/-!
# Returns of orders

The lifecycle of an RMA: receiving it puts its lines back into stock, refunding it posts the reversal of the sale.
Every step writes the new status before it does anything else.

A run is any sequence of calls on one row; in between others do what they like with the stock and the journal,
closing periods included.  What the calls append to the stock logs and to the journal is recorded beside them.
`accounted_iff`: the status says what was restocked and booked, and a call that fails changes nothing, exactly when no
refund that is due finds its period closed.
-/

namespace TptErp.Oms

open Ledger Gl

variable {SHARDS GLS : Nat}

/-- Marker of return authorizations. -/
inductive Rma

/-- Marker of orders. -/
inductive Order

structure RmaLine where
  sku : SkuId
  qty : U32
  unitPrice : Money Usd

inductive RmaStatus
  | requested
  | authorized
  | received
  | refunded
  | rejected
deriving DecidableEq

structure RmaRow where
  id : Id Rma
  order : Id Order
  status : RmaStatus
  lines : List RmaLine
  /-- Unit price times quantity over the lines. -/
  refundTotal : Money Usd

/-- Putting stock back does not fail: the events are typed. -/
inductive ReturnError
  | transition (source target : RmaStatus)
  | ledger (e : JournalError Usd)

namespace RmaStatus

def canTransition : RmaStatus → RmaStatus → Bool
  | requested, authorized => true
  | requested, rejected => true
  | authorized, received => true
  | authorized, rejected => true
  | received, refunded => true
  | received, rejected => true
  | _, _ => false

def transition (s target : RmaStatus) : Except ReturnError RmaStatus :=
  if s.canTransition target then .ok target else .error (.transition s target)

end RmaStatus

structure RmaProcessor where
  coa : DemoAccounts
  period : String

/-- The lines go back into stock one after the other. -/
def restock (lines : List RmaLine) (w : World SHARDS GLS) : World SHARDS GLS :=
  lines.foldl (fun w l => w.withCore (w.core.withEngine (w.core.engine.returnStock l.sku l.qty.1))) w

namespace RmaProcessor

variable (p : RmaProcessor)

def request (id : Id Rma) (order : Id Order) (lines : List RmaLine) : RmaRow :=
  { id, order, status := .requested, lines
    refundTotal := lines.foldl (fun acc l => acc + l.unitPrice * (l.qty.1 : ℚ)) 0 }

def refundEntries (total : Money Usd) : List (LedgerEntry Usd) :=
  [{ account := p.coa.accountsReceivable, side := .credit, amount := total },
    { account := p.coa.salesRevenue, side := .debit, amount := total }]

def authorize (rma : RmaRow) : Except ReturnError Unit × RmaRow :=
  match rma.status.transition .authorized with
  | .error e => (.error e, rma)
  | .ok status => (.ok (), { rma with status })

def receive (rma : RmaRow) (w : World SHARDS GLS) : Except ReturnError Unit × RmaRow × World SHARDS GLS :=
  match rma.status.transition .received with
  | .error e => (.error e, rma, w)
  | .ok status =>
    let rma := { rma with status }
    (.ok (), rma, restock rma.lines w)

/-- What a refund returns; none when its posting never does. -/
def refund (rma : RmaRow) (w : World SHARDS GLS) :
    Option (Except ReturnError TransactionId × RmaRow × World SHARDS GLS) :=
  match rma.status.transition .refunded with
  | .error e => some (.error e, rma, w)
  | .ok status =>
    let rma := { rma with status }
    (w.post (p.refundEntries rma.refundTotal) p.period "oms refund").map fun r =>
      (match r.1 with
        | .ok tx => .ok tx
        | .error e => .error (.ledger e), rma, r.2)

def complete (rma : RmaRow) (w : World SHARDS GLS) :
    Option (Except ReturnError TransactionId × RmaRow × World SHARDS GLS) :=
  match authorize rma with
  | (.error e, rma) => some (.error e, rma, w)
  | (.ok (), rma) =>
    match receive rma w with
    | (.error e, rma, w) => some (.error e, rma, w)
    | (.ok (), rma, w) => p.refund rma w

end RmaProcessor

/-! ## Runs -/

inductive RmaCall
  | authorize
  | receive
  | refund
  | complete
deriving DecidableEq

/-- A call on the row, or what others make of the world. -/
inductive RmaLabel (SHARDS GLS : Nat)
  | call (c : RmaCall)
  | others (w : World SHARDS GLS)

/-- The row and the world, with what the row's calls have appended to the journal and to the stock logs. -/
structure RmaRun (SHARDS GLS : Nat) where
  rma : RmaRow
  world : World SHARDS GLS
  booked : List (PostedLeg Usd) := []
  restocked : List (SkuId × ReserveEvent) := []

/-- What was appended to the journal's logs, one shard after the other. -/
def legsSince (eng eng' : JournalEngine Usd GLS) : List (PostedLeg Usd) :=
  (List.finRange GLS).flatMap fun i =>
    ((eng'.shards i).store.log.map (·.payload)).drop ((eng.shards i).store.log.map (·.payload)).length

/-- What was appended to the stock logs. -/
def eventsSince (eng eng' : ReservationEngine SHARDS) : List (SkuId × ReserveEvent) :=
  (List.finRange SHARDS).flatMap fun i => (eng'.shardEvents i).drop (eng.shardEvents i).length

namespace RmaProcessor

variable (p : RmaProcessor)

/-- A call with the row and the world it leaves. -/
def call (rma : RmaRow) (w : World SHARDS GLS) :
    RmaCall → Option (Except ReturnError Unit × RmaRow × World SHARDS GLS)
  | .authorize => some ((authorize rma).1, (authorize rma).2, w)
  | .receive => some (receive rma w)
  | .refund => (p.refund rma w).map fun r => (r.1.map fun _ => (), r.2)
  | .complete => (p.complete rma w).map fun r => (r.1.map fun _ => (), r.2)

def step (s : RmaRun SHARDS GLS) : RmaLabel SHARDS GLS → Option (RmaRun SHARDS GLS)
  | .call c => (p.call s.rma s.world c).map fun r =>
    { rma := r.2.1, world := r.2.2, booked := s.booked ++ legsSince s.world.journal r.2.2.journal
      restocked := s.restocked ++ eventsSince s.world.core.engine r.2.2.core.engine }
  | .others w => some { s with world := w }

/-- The two legs of a refund. -/
def refundLegs (id : TransactionId) (total : Money Usd) : List (PostedLeg Usd) :=
  (p.refundEntries total).map (JournalEngine.leg ⟨id, p.refundEntries total⟩ p.period "oms refund")

end RmaProcessor

/-- The lines of a row, each returned once. -/
def returnedLines (lines : List RmaLine) : List (SkuId × ReserveEvent) := lines.map fun l => (l.sku, .ret l.qty.1)

/-- The goods are back. -/
def RmaStatus.HasReceived (s : RmaStatus) : Prop := s = .received ∨ s = .refunded

instance (s : RmaStatus) : Decidable s.HasReceived := inferInstanceAs (Decidable (_ ∨ _))

/-- The status says what was booked and restocked: one refund when refunded and else nothing, the lines once when they
were received and else nothing. -/
structure Accounted (p : RmaProcessor) (s : RmaRun SHARDS GLS) : Prop where
  booked : ∃ id, s.booked.Perm (if s.rma.status = .refunded then p.refundLegs id s.rma.refundTotal else [])
  balanced : ((s.booked.filter fun l => l.side = .debit).map (·.amount)).sum =
    ((s.booked.filter fun l => l.side = .credit).map (·.amount)).sum
  restocked : s.restocked.Perm (if s.rma.status.HasReceived then returnedLines s.rma.lines else [])

/-- A call that fails leaves the status as it was. -/
def FailsInPlace (p : RmaProcessor) (s : RmaRun SHARDS GLS) : RmaLabel SHARDS GLS → Prop
  | .call c => ∀ e rma w, p.call s.rma s.world c = some (.error e, rma, w) → rma.status = s.rma.status
  | .others _ => True

/-- The call comes to a posting. -/
def RefundDue : RmaStatus → RmaCall → Prop
  | .received, .refund | .requested, .complete => True
  | _, _ => False

theorem refundDue_iff (s : RmaStatus) (c : RmaCall) :
    RefundDue s c ↔ (s = .received ∧ c = .refund) ∨ (s = .requested ∧ c = .complete) := by
  cases s <;> cases c <;> simp [RefundDue]

instance (s : RmaStatus) (c : RmaCall) : Decidable (RefundDue s c) := decidable_of_iff _ (refundDue_iff s c).symm

/-- A refund that is due finds its period open. -/
def FindsPeriodOpen (p : RmaProcessor) (s : RmaRun SHARDS GLS) : RmaLabel SHARDS GLS → Prop
  | .call c => RefundDue s.rma.status c → s.world.journal.periodIsClosed p.period = false
  | .others _ => True

/-! ## What is appended -/

theorem legsSince_self (eng : JournalEngine Usd GLS) : legsSince eng eng = [] := by
  unfold legsSince
  rw [List.flatMap_eq_nil_iff]
  intro i _
  exact List.drop_length

theorem eventsSince_self (eng : ReservationEngine SHARDS) : eventsSince eng eng = [] := by
  unfold eventsSince
  rw [List.flatMap_eq_nil_iff]
  intro i _
  exact List.drop_length

theorem legsSince_posted {eng eng' : JournalEngine Usd GLS} {ls : List (PostedLeg Usd)}
    (h : JournalEngine.Posted eng eng' ls) : (legsSince eng eng').Perm ls := by
  have hl : legsSince eng eng' =
      (List.finRange GLS).flatMap fun i => ls.filter fun l => eng.shardIndex l.account = i := by
    unfold legsSince
    congr 1
    funext i
    rw [h.log i, List.drop_left]
  rw [hl]
  exact GroupBy.groups_perm _ (List.nodup_finRange GLS) fun l _ => List.mem_finRange _

theorem shardEvents_restock (lines : List RmaLine) (w : World SHARDS GLS) :
    (restock lines w).core.engine.shardIndex = w.core.engine.shardIndex ∧
      ∀ i, (restock lines w).core.engine.shardEvents i = w.core.engine.shardEvents i ++
        (returnedLines lines).filter fun e => w.core.engine.shardIndex e.1 = i := by
  induction lines generalizing w with
  | nil => exact ⟨rfl, fun i => (List.append_nil _).symm⟩
  | cons l lines ih =>
    obtain ⟨hidx, hev⟩ := ih (w.withCore (w.core.withEngine (w.core.engine.returnStock l.sku l.qty.1)))
    refine ⟨hidx, fun i => ?_⟩
    show (restock lines _).core.engine.shardEvents i = _
    rw [hev i]
    show (w.core.engine.record l.sku _ _ _).shardEvents i ++ _ = _
    unfold ReservationEngine.shardEvents
    rw [ReservationEngine.log_record, List.append_assoc]
    congr 1
    have hsame : (w.withCore (w.core.withEngine (w.core.engine.returnStock l.sku l.qty.1))).core.engine.shardIndex =
      w.core.engine.shardIndex := rfl
    rw [hsame]
    unfold returnedLines
    rw [List.map_cons]
    by_cases hi : w.core.engine.shardIndex l.sku = i
    · rw [if_pos hi.symm, List.filter_cons_of_pos (by simpa using hi)]
      rfl
    · rw [if_neg (Ne.symm hi), List.filter_cons_of_neg (by simpa using hi)]
      rfl

theorem eventsSince_restock (lines : List RmaLine) (w : World SHARDS GLS) :
    (eventsSince w.core.engine (restock lines w).core.engine).Perm (returnedLines lines) := by
  have hl : eventsSince w.core.engine (restock lines w).core.engine =
      (List.finRange SHARDS).flatMap fun i =>
        (returnedLines lines).filter fun e => w.core.engine.shardIndex e.1 = i := by
    unfold eventsSince
    congr 1
    funext i
    rw [(shardEvents_restock lines w).2 i, List.drop_left]
  rw [hl]
  exact GroupBy.groups_perm _ (List.nodup_finRange SHARDS) fun l _ => List.mem_finRange _

theorem restock_journal (lines : List RmaLine) (w : World SHARDS GLS) :
    (restock lines w).journal = w.journal := by
  induction lines generalizing w with
  | nil => rfl
  | cons l lines ih => exact ih _

/-! ## One call -/

theorem transition_error {s target : RmaStatus} (h : s.canTransition target = false) :
    s.transition target = .error (.transition s target) := by
  unfold RmaStatus.transition
  rw [h]
  rfl

/-- **What a call does.**  A refund that is due is booked or, when its period is closed, not; the status is written
either way. -/
inductive Did (p : RmaProcessor) (rma : RmaRow) (w : World SHARDS GLS) :
    RmaCall → Except ReturnError Unit → RmaRow → World SHARDS GLS → Prop
  | refused {c : RmaCall} {e : ReturnError} (notDue : ¬ RefundDue rma.status c) : Did p rma w c (.error e) rma w
  | authorized (was : rma.status = .requested) :
      Did p rma w .authorize (.ok ()) { rma with status := .authorized } w
  | received (was : rma.status = .authorized) :
      Did p rma w .receive (.ok ()) { rma with status := .received } (restock rma.lines w)
  | booked {c : RmaCall} {w' : World SHARDS GLS} (due : RefundDue rma.status c) (id : TransactionId)
      (opened : w.journal.periodIsClosed p.period = false)
      (posted : JournalEngine.Posted w.journal w'.journal (p.refundLegs id rma.refundTotal))
      (stock : w'.core = if c = .complete then (restock rma.lines w).core else w.core) :
      Did p rma w c (.ok ()) { rma with status := .refunded } w'
  | unbooked {c : RmaCall} {w' : World SHARDS GLS} {e : ReturnError} (due : RefundDue rma.status c)
      (closed : w.journal.periodIsClosed p.period = true) (journal : w'.journal = w.journal)
      (stock : w'.core = if c = .complete then (restock rma.lines w).core else w.core) :
      Did p rma w c (.error e) { rma with status := .refunded } w'

theorem validate_refund (p : RmaProcessor) (id : TransactionId) (total : Money Usd) :
    (⟨id, p.refundEntries total⟩ : Transaction Usd).validate = .ok () := by
  rw [Transaction.validate_ok_iff]
  refine ⟨le_rfl, ?_⟩
  show 0 + total = 0 + total
  rfl

/-- The posting of a refund. -/
theorem post_refund {p : RmaProcessor} {total : Money Usd} {w w' : World SHARDS GLS}
    {r : Except (JournalError Usd) TransactionId}
    (h : w.post (p.refundEntries total) p.period "oms refund" = some (r, w')) :
    w'.core = w.core ∧
      ((w.journal.periodIsClosed p.period = false ∧ ∃ id, r = .ok id ∧
          JournalEngine.Posted w.journal w'.journal (p.refundLegs id total)) ∨
        (w.journal.periodIsClosed p.period = true ∧ (∃ e, r = .error e) ∧ w'.journal = w.journal)) := by
  unfold World.post at h
  rw [Option.map_eq_some_iff] at h
  obtain ⟨⟨r', journal⟩, hp, he⟩ := h
  cases he
  refine ⟨rfl, ?_⟩
  rcases w.journal.postTransaction_cases ⟨w.nextTx⟩ (p.refundEntries total) p.period "oms refund"
    (validate_refund p _ total) with ⟨-, hn⟩ | ⟨-, hc, hn⟩ | ⟨-, ho, eng', hn, hposted⟩
  · rw [hn] at hp
    cases hp
  · rw [hn] at hp
    cases hp
    exact Or.inr ⟨hc, ⟨_, rfl⟩, rfl⟩
  · rw [hn] at hp
    cases hp
    exact Or.inl ⟨ho, _, rfl, hposted⟩

theorem did_refund {p : RmaProcessor} {rma rma' : RmaRow} {w w' : World SHARDS GLS}
    {r : Except ReturnError TransactionId} (h : p.refund rma w = some (r, rma', w')) :
    (rma.status ≠ .received ∧ rma' = rma ∧ w' = w ∧ ∃ e, r = .error e) ∨
      (rma.status = .received ∧ rma' = { rma with status := .refunded } ∧ w'.core = w.core ∧
        ((w.journal.periodIsClosed p.period = false ∧ ∃ id, r = .ok id ∧
            JournalEngine.Posted w.journal w'.journal (p.refundLegs id rma.refundTotal)) ∨
          (w.journal.periodIsClosed p.period = true ∧ (∃ e, r = .error e) ∧ w'.journal = w.journal))) := by
  unfold RmaProcessor.refund at h
  by_cases hs : rma.status = .received
  · right
    rw [hs, show RmaStatus.received.transition .refunded = .ok .refunded from rfl] at h
    dsimp only at h
    rw [Option.map_eq_some_iff] at h
    obtain ⟨⟨r', w''⟩, hp, he⟩ := h
    cases he
    obtain ⟨hcore, hcases⟩ := post_refund hp
    refine ⟨hs, rfl, hcore, ?_⟩
    rcases hcases with ⟨ho, id, rfl, hposted⟩ | ⟨hc, ⟨e, rfl⟩, hj⟩
    · exact Or.inl ⟨ho, id, rfl, hposted⟩
    · exact Or.inr ⟨hc, ⟨_, rfl⟩, hj⟩
  · left
    have ht : rma.status.transition .refunded = .error (.transition rma.status .refunded) := by
      revert hs
      cases rma.status <;> simp [RmaStatus.transition, RmaStatus.canTransition]
    rw [ht] at h
    cases h
    exact ⟨hs, rfl, rfl, _, rfl⟩

theorem did_call {p : RmaProcessor} {rma rma' : RmaRow} {w w' : World SHARDS GLS} {c : RmaCall}
    {r : Except ReturnError Unit} (h : p.call rma w c = some (r, rma', w')) : Did p rma w c r rma' w' := by
  cases c with
  | authorize =>
    unfold RmaProcessor.call RmaProcessor.authorize at h
    by_cases hs : rma.status = .requested
    · rw [hs, show RmaStatus.requested.transition .authorized = .ok .authorized from rfl] at h
      cases h
      exact .authorized hs
    · rw [transition_error (by revert hs; cases rma.status <;> decide)] at h
      cases h
      exact .refused (by cases rma.status <;> exact id)
  | receive =>
    unfold RmaProcessor.call RmaProcessor.receive at h
    by_cases hs : rma.status = .authorized
    · rw [hs, show RmaStatus.authorized.transition .received = .ok .received from rfl] at h
      cases h
      exact .received hs
    · rw [transition_error (by revert hs; cases rma.status <;> decide)] at h
      cases h
      exact .refused (by cases rma.status <;> exact id)
  | refund =>
    unfold RmaProcessor.call at h
    rw [Option.map_eq_some_iff] at h
    obtain ⟨⟨r', rma'', w''⟩, hr, he⟩ := h
    cases he
    rcases did_refund hr with ⟨hs, rfl, rfl, e, rfl⟩ | ⟨hs, rfl, hcore, ⟨ho, id, rfl, hp⟩ | ⟨hc, ⟨e, rfl⟩, hj⟩⟩
    · exact .refused (by simp [refundDue_iff, hs])
    · exact .booked (by rw [hs]; trivial) id ho hp hcore
    · exact .unbooked (by rw [hs]; trivial) hc hj hcore
  | complete =>
    unfold RmaProcessor.call RmaProcessor.complete RmaProcessor.authorize at h
    rw [Option.map_eq_some_iff] at h
    obtain ⟨⟨r', rma'', w''⟩, hr, he⟩ := h
    cases he
    by_cases hs : rma.status = .requested
    · rw [hs, show RmaStatus.requested.transition .authorized = .ok .authorized from rfl] at hr
      -- authorized and received, the row comes to its refund
      have hj := restock_journal rma.lines w
      have hr : p.refund { rma with status := .received } (restock rma.lines w) = some (r', rma', w') := hr
      rcases did_refund hr with
        ⟨hne, -⟩ | ⟨-, rfl, hcore, ⟨ho, id, rfl, hp⟩ | ⟨hc, ⟨e, rfl⟩, hj'⟩⟩
      · exact absurd rfl hne
      · rw [hj] at ho hp
        exact .booked (by rw [hs]; trivial) id ho hp hcore
      · rw [hj] at hc hj'
        exact .unbooked (by rw [hs]; trivial) hc hj' hcore
    · rw [transition_error (by revert hs; cases rma.status <;> decide)] at hr
      cases hr
      exact .refused (by simp [refundDue_iff, hs])

/-! ## Whole runs -/

theorem balanced_of_booked {p : RmaProcessor} {legs : List (PostedLeg Usd)} {total : Money Usd} {b : Prop} [Decidable b]
    (h : ∃ id, legs.Perm (if b then p.refundLegs id total else [])) :
    ((legs.filter fun l => l.side = .debit).map (·.amount)).sum =
      ((legs.filter fun l => l.side = .credit).map (·.amount)).sum := by
  obtain ⟨id, h⟩ := h
  rw [((h.filter _).map _).sum_eq, ((h.filter _).map _).sum_eq]
  split
  · simp [RmaProcessor.refundLegs, RmaProcessor.refundEntries, JournalEngine.leg]
  · rfl

theorem stock_eventsSince {p : RmaProcessor} {s : RmaRun SHARDS GLS} (h : Accounted p s) {c : RmaCall}
    (due : RefundDue s.rma.status c) {w : World SHARDS GLS}
    (stock : w.core = if c = .complete then (restock s.rma.lines s.world).core else s.world.core) :
    (s.restocked ++ eventsSince s.world.core.engine w.core.engine).Perm (returnedLines s.rma.lines) := by
  have hr := h.restocked
  rw [stock]
  rcases (refundDue_iff _ _).mp due with ⟨hs, rfl⟩ | ⟨hs, rfl⟩
  · rw [if_neg (by decide), eventsSince_self, List.append_nil]
    rwa [if_pos (by rw [hs]; decide)] at hr
  · rw [if_pos rfl]
    rw [if_neg (by rw [hs]; decide)] at hr
    rw [hr.eq_nil, List.nil_append]
    exact eventsSince_restock s.rma.lines s.world

/-- A step keeps the account exactly when a refund that is due is booked. -/
theorem accounted_step_iff {p : RmaProcessor} {s t : RmaRun SHARDS GLS} {a : RmaLabel SHARDS GLS}
    (h : Accounted p s) (hs : p.step s a = some t) : Accounted p t ↔ FindsPeriodOpen p s a := by
  cases a with
  | others w =>
    cases hs
    exact iff_of_true ⟨h.booked, h.balanced, h.restocked⟩ trivial
  | call c =>
    obtain ⟨⟨r, rma', w'⟩, hc, rfl⟩ := Option.map_eq_some_iff.mp hs
    have hnone : s.rma.status ≠ .refunded → s.booked = [] := by
      intro hne
      obtain ⟨id, hb⟩ := h.booked
      rw [if_neg hne] at hb
      exact hb.eq_nil
    have hdue : RefundDue s.rma.status c → s.rma.status ≠ .refunded := by
      rw [refundDue_iff]
      rintro (⟨hs, -⟩ | ⟨hs, -⟩)
      · rw [hs]
        decide
      · rw [hs]
        decide
    cases did_call hc with
    | refused notDue =>
      refine iff_of_true ?_ fun hd => absurd hd notDue
      dsimp only
      rw [legsSince_self, eventsSince_self, List.append_nil, List.append_nil]
      exact ⟨h.booked, h.balanced, h.restocked⟩
    | authorized was =>
      refine iff_of_true ?_ fun hd => absurd hd (by simp [refundDue_iff])
      have hb : ∃ id, (s.booked ++ legsSince s.world.journal s.world.journal).Perm
          (if RmaStatus.authorized = .refunded then p.refundLegs id s.rma.refundTotal else []) := by
        rw [legsSince_self, hnone (by rw [was]; decide)]
        exact ⟨⟨0⟩, List.Perm.refl _⟩
      refine ⟨hb, balanced_of_booked hb, ?_⟩
      have hr := h.restocked
      rw [was] at hr
      rw [eventsSince_self, List.append_nil]
      exact hr
    | received was =>
      refine iff_of_true ?_ fun hd => absurd hd (by simp [refundDue_iff])
      have hb : ∃ id, (s.booked ++ legsSince s.world.journal (restock s.rma.lines s.world).journal).Perm
          (if RmaStatus.received = .refunded then p.refundLegs id s.rma.refundTotal else []) := by
        rw [restock_journal, legsSince_self, hnone (by rw [was]; decide)]
        exact ⟨⟨0⟩, List.Perm.refl _⟩
      refine ⟨hb, balanced_of_booked hb, ?_⟩
      have hr := h.restocked
      rw [was, if_neg (by decide)] at hr
      rw [hr.eq_nil, List.nil_append]
      exact eventsSince_restock s.rma.lines s.world
    | booked due id opened posted stock =>
      refine iff_of_true ?_ fun _ => opened
      have hb : ∃ id, (s.booked ++ legsSince s.world.journal w'.journal).Perm
          (if RmaStatus.refunded = .refunded then p.refundLegs id s.rma.refundTotal else []) := by
        rw [hnone (hdue due)]
        exact ⟨id, legsSince_posted posted⟩
      exact ⟨hb, balanced_of_booked hb, stock_eventsSince h due stock⟩
    | unbooked due closed journal stock =>
      refine iff_of_false ?_ fun hok => absurd (closed.symm.trans (hok due)) (by decide)
      rintro ⟨⟨id, hb⟩, -, -⟩
      dsimp only at hb
      rw [journal, legsSince_self, hnone (hdue due)] at hb
      exact absurd hb.symm.eq_nil (List.cons_ne_nil _ _)

/-- With its period open, a call fails before it has done anything. -/
theorem failsInPlace_of_open {p : RmaProcessor} {s : RmaRun SHARDS GLS} {a : RmaLabel SHARDS GLS}
    (h : ∀ t, p.step s a = some t → FindsPeriodOpen p s a) : FailsInPlace p s a := by
  cases a with
  | others w => trivial
  | call c =>
    intro e rma w hc
    have hopen := h _ (Option.map_eq_some_iff.mpr ⟨_, hc, rfl⟩)
    cases did_call hc with
    | refused notDue => rfl
    | unbooked due closed => exact absurd (closed.symm.trans (hopen due)) (by decide)

theorem accounted_request (p : RmaProcessor) (id : Id Rma) (order : Id Order) (lines : List RmaLine)
    (w : World SHARDS GLS) : Accounted p { rma := RmaProcessor.request id order lines, world := w } :=
  ⟨⟨⟨0⟩, List.Perm.refl _⟩, rfl, List.Perm.refl _⟩

/-- **When the status of an RMA can be trusted.**  For every request, every world and every sequence of calls with anything
in between: in every state the status says what was restocked and booked, and every call that fails leaves it as it
was, exactly when every refund that is due finds its period open. -/
theorem accounted_iff (p : RmaProcessor) (id : Id Rma) (order : Id Order) (lines : List RmaLine) (w : World SHARDS GLS)
    (labels : List (RmaLabel SHARDS GLS)) :
    (LabelledRun.AllStates p.step (Accounted p) { rma := RmaProcessor.request id order lines, world := w } labels ∧
      LabelledRun.AllSteps p.step (FailsInPlace p) { rma := RmaProcessor.request id order lines, world := w } labels) ↔
      LabelledRun.AllSteps p.step (fun s a => ∀ t, p.step s a = some t → FindsPeriodOpen p s a)
        { rma := RmaProcessor.request id order lines, world := w } labels := by
  rw [LabelledRun.allStates_iff_allSteps p.step (fun _ => True) (fun _ _ _ _ _ _ _ => trivial)
    (fun _ _ _ _ hP ht => accounted_step_iff hP ht) trivial (accounted_request p id order lines w)]
  exact and_iff_left_of_imp fun hok => hok.mono _ fun _ _ h => failsInPlace_of_open h

/-- Nothing in stock, nothing posted, and the period closed. -/
def closedBooks : World 64 64 where
  core := initCore modShard false 0
  journal := (JournalEngine.new (fun a => mod64 a.uuid) .new false).setPeriodStatus "2026-01" .closed

def demoProcessor : RmaProcessor where
  coa := { accountsReceivable := ⟨1⟩, salesRevenue := ⟨2⟩ }
  period := "2026-01"

/-- The refund is not booked, and the row is refunded. -/
theorem refunded_without_booking :
    ¬ ∀ (p : RmaProcessor) (id : Id Rma) (order : Id Order) (lines : List RmaLine) (w : World 64 64)
      (labels : List (RmaLabel 64 64)),
      LabelledRun.AllStates p.step (Accounted p) { rma := RmaProcessor.request id order lines, world := w } labels ∧
        LabelledRun.AllSteps p.step (FailsInPlace p) { rma := RmaProcessor.request id order lines, world := w }
          labels := by
  intro h
  have hrun : (LabelledRun.exec demoProcessor.step
      { rma := RmaProcessor.request ⟨0⟩ ⟨0⟩ [{ sku := ⟨7⟩, qty := u32 4, unitPrice := 10 }], world := closedBooks }
      [.call .complete]).map (fun t => (t.rma.status, t.booked.length)) = some (.refunded, 0) := by
    decide +kernel
  obtain ⟨t, ht, he⟩ := Option.map_eq_some_iff.mp hrun
  obtain ⟨hs, hb⟩ := Prod.mk.inj he
  obtain ⟨id, hperm⟩ := ((h demoProcessor ⟨0⟩ ⟨0⟩ _ closedBooks _).1.last _ ht).booked
  rw [if_pos hs] at hperm
  have hlen := hperm.length_eq
  rw [hb] at hlen
  cases hlen

end TptErp.Oms
