import TptErp.Tenant.Auth
import TptErp.Lib.Await

/-!
# Queries through `TenantDb`

`tenant_rls_middleware` puts a pooled connection behind `TenantDb`, whose `with_rls` is all that a handler can do with
it: a transaction with the tenant's `app.tenant_id`, the statements of a closure, and its end.  Any command may be
refused, lost or left behind by a request that is dropped.

    rows that are committed = the statements of the calls that were committed, each under its request's tenant

`committed_exact` says so for any requests on one connection, and what the next command on it finds: no transaction,
or an empty one (of a BEGIN whose reply nobody has read).  A `sqlx::Transaction` that is dropped while it is in progress
is rolled back before the next command of its connection; the statements of a closure leave the transaction alone.
-/

namespace TptErp

namespace Tenant.TenantDb

open Await

variable {W : Type}

/-! ## The connection -/

/-- A transaction on the server: its `app.tenant_id`, the statements it has carried out, each with the tenant it ran
under, and whether one has failed in it. -/
structure Transaction (W : Type) where
  tenant : Option TenantId := none
  writes : List (Option TenantId × W) := []
  aborted : Bool := false

/-- A connection: its transaction, what was committed over it, and whether a ROLLBACK goes before the next command. -/
structure Connection (W : Type) where
  transaction : Option (Transaction W) := none
  committed : List (Option TenantId × W) := []
  queued : Bool := false

inductive Command (W : Type)
  | begin
  | setConfig (tenant : TenantId)
  | statement (w : W)
  | commit
  | rollback

def Connection.flush (c : Connection W) : Connection W :=
  if c.queued then { c with transaction := none, queued := false } else c

/-- A command on the server.  In a transaction that has failed, none has an effect before its end. -/
def Connection.carryOut (c : Connection W) : Command W → Connection W
  | .begin => { c with transaction := c.transaction.or (some {}) }
  | .setConfig tenant =>
    { c with transaction := c.transaction.map fun tx => if tx.aborted then tx else { tx with tenant := some tenant } }
  | .statement w =>
    match c.transaction with
    | some tx =>
      if tx.aborted then c
      else { c with transaction := some { tx with writes := tx.writes ++ [(tx.tenant, w)] } }
    | none => { c with committed := c.committed ++ [(none, w)] }
  | .commit =>
    match c.transaction with
    | some tx =>
      { c with transaction := none, committed := if tx.aborted then c.committed else c.committed ++ tx.writes }
    | none => c
  | .rollback => { c with transaction := none }

/-- A command that the server refuses: its transaction fails, or is rolled back when it was a COMMIT. -/
def Connection.refuse (c : Connection W) : Command W → Connection W
  | .setConfig _ | .statement _ => { c with transaction := c.transaction.map fun tx => { tx with aborted := true } }
  | .commit => { c with transaction := none }
  | .begin | .rollback => c

/-- What becomes of a command; the last two leave open whether it was carried out. -/
inductive Fate
  | ok
  | refused
  | lost (done : Bool)
  | dropped (done : Bool)
deriving DecidableEq

def Fate.done : Fate → Bool
  | .ok => true
  | .refused => false
  | .lost done | .dropped done => done

/-- The task goes on, and the transaction with it. -/
def Fate.goesOn : Fate → Bool
  | .ok | .lost _ => true
  | .refused | .dropped _ => false

/-- `execute(&mut *tx).await`, whether it succeeds. -/
def execute (command : Command W) (fate : Fate) : Task (Connection W) Bool := fun c =>
  match fate with
  | .ok => (some true, c.flush.carryOut command)
  | .refused => (some false, c.flush.refuse command)
  | .lost done => (some false, if done then c.flush.carryOut command else c)
  | .dropped done => (none, if done then c.flush.carryOut command else c)

/-! ## `with_rls` -/

/-- A call of `with_rls`: what becomes of its commands, the statements that the closure issues, and what the closure
returns (none: it panics, or is dropped). -/
structure RlsCall (W : Type) where
  /-- The lock of the connection is obtained (not: the task is dropped while it waits). -/
  lock : Bool := true
  begin : Fate := .ok
  set_config : Fate := .ok
  statements : List (W × Fate)
  result : Option Bool := some true
  commit : Fate := .ok
  rollback : Fate := .ok

/-- The closure. -/
def runStatements : List (W × Fate) → Task (Connection W) Unit
  | [] => pure ()
  | (w, fate) :: rest => do
    let _ ← execute (.statement w) fate
    runStatements rest

/-- After the closure: whether the transaction is over, and whether `with_rls` succeeds. -/
def finish (call : RlsCall W) : Task (Connection W) (Bool × Bool) :=
  match call.result with
  | some true => do
    let ok ← execute .commit call.commit
    pure (ok, ok)
  | some false => do
    let ok ← execute .rollback call.rollback
    pure (ok, false)
  | none => drop

/-- What is done while the `Transaction` is there. -/
def inTransaction (tenant : TenantId) (call : RlsCall W) : Task (Connection W) (Bool × Bool) := do
  if !(← execute (.setConfig tenant) call.set_config) then
    pure (false, false)
  else
    runStatements call.statements
    finish call

/-- A `Transaction` that goes out of scope while it is in progress is rolled back. -/
def inScope (body : Task (Connection W) (Bool × Bool)) : Task (Connection W) Bool := fun c =>
  match body c with
  | (some (true, ok), c) => (some ok, c)
  | (some (false, ok), c) => (some ok, { c with queued := true })
  | (none, c) => (none, { c with queued := true })

def withRls (tenant : TenantId) (call : RlsCall W) : Task (Connection W) Bool :=
  if !call.lock then drop
  else do
    if !(← execute .begin call.begin) then pure false
    else inScope (inTransaction tenant call)

/-! ## The middleware -/

/-- A request: its headers, whether it gets the connection, and the calls of its handler. -/
structure Request (W : Type) where
  headers : Headers
  acquired : Bool := true
  calls : List (RlsCall W)

/-- The tenant in whose name `tenant_rls_middleware` hands out the connection. -/
def Request.ctx (codecs : Codecs) (request : Request W) : Option TenantContext :=
  (resolveSlug codecs request.headers).bind fun slug =>
    match slug.validate with
    | .ok () => some { id := slug.toId codecs, slug }
    | .error _ => none

def tenantRlsMiddleware (codecs : Codecs) (c : Connection W) (request : Request W) : Connection W :=
  match request.ctx codecs with
  | some ctx =>
    if request.acquired then request.calls.foldl (fun c call => (withRls ctx.id call c).2) c else c
  | none => c

/-! ## What is committed -/

/-- No command of the closure is refused, and it is not dropped. -/
def sound (statements : List (W × Fate)) : Bool := statements.all fun s => s.2.goesOn

/-- The call gets to its COMMIT with nothing refused, and this is carried out. -/
def RlsCall.commits (call : RlsCall W) : Bool :=
  call.lock && call.begin == .ok && call.set_config == .ok && sound call.statements &&
    call.result == some true && call.commit.done

/-- The statements that are carried out. -/
def carriedOut (statements : List (W × Fate)) : List W := (statements.filter fun s => s.2.done).map Prod.fst

def RlsCall.writes (call : RlsCall W) : List W := if call.commits then carriedOut call.statements else []

def Request.writes (codecs : Codecs) (request : Request W) : List (Option TenantId × W) :=
  match request.ctx codecs with
  | some ctx => if request.acquired then (request.calls.flatMap RlsCall.writes).map fun w => (some ctx.id, w) else []
  | none => []

/-! ## A transaction -/

section
variable {c : Connection W} {tx : Transaction W} {l : List (Option TenantId × W)}

/-- The connection in a transaction. -/
def during (tx : Transaction W) (l : List (Option TenantId × W)) : Connection W :=
  { transaction := some tx, committed := l }

/-- At most an empty transaction is left behind, or its ROLLBACK is on its way. -/
def Connection.Clean (c : Connection W) : Prop :=
  c.queued = true ∨ c.transaction = none ∨ c.transaction = some {}

theorem clean_flush (h : c.Clean) : c.flush = { committed := c.committed } ∨ c.flush = during {} c.committed := by
  obtain ⟨transaction, committed, queued⟩ := c
  cases queued with
  | true => exact Or.inl rfl
  | false =>
    rcases h with h | h | h
    · cases h
    · cases h
      exact Or.inl rfl
    · cases h
      exact Or.inr rfl

theorem flush_transaction (h : c.Clean) : c.flush.transaction = none ∨ c.flush.transaction = some {} := by
  rcases clean_flush h with hc | hc <;> rw [hc]
  · exact Or.inl rfl
  · exact Or.inr rfl

theorem execute_begin (h : c.Clean) (fate : Fate) :
    (fate = .ok ∧ execute .begin fate c = (some true, during {} c.committed)) ∨
      fate ≠ .ok ∧ (execute .begin fate c).1 ≠ some true ∧ (execute .begin fate c).2.Clean ∧
        (execute .begin fate c).2.committed = c.committed := by
  have hbegin : c.flush.carryOut .begin = during {} c.committed := by
    rcases clean_flush h with hc | hc <;> rw [hc] <;> rfl
  have hrefuse : (c.flush.refuse .begin).Clean ∧ (c.flush.refuse .begin).committed = c.committed := by
    rcases clean_flush h with hc | hc <;> rw [hc]
    · exact ⟨Or.inr (Or.inl rfl), rfl⟩
    · exact ⟨Or.inr (Or.inr rfl), rfl⟩
  have hempty : (during {} c.committed).Clean := Or.inr (Or.inr rfl)
  rcases fate with - | - | (- | -) | (- | -)
  · exact Or.inl ⟨rfl, by rw [← hbegin]; rfl⟩
  · exact Or.inr ⟨Fate.noConfusion, (nomatch ·), hrefuse⟩
  · exact Or.inr ⟨Fate.noConfusion, (nomatch ·), h, rfl⟩
  · refine Or.inr ⟨Fate.noConfusion, (nomatch ·), ?_⟩
    rw [show (execute .begin (.lost true) c).2 = during {} c.committed from hbegin]
    exact ⟨hempty, rfl⟩
  · exact Or.inr ⟨Fate.noConfusion, (nomatch ·), h, rfl⟩
  · refine Or.inr ⟨Fate.noConfusion, (nomatch ·), ?_⟩
    rw [show (execute .begin (.dropped true) c).2 = during {} c.committed from hbegin]
    exact ⟨hempty, rfl⟩

theorem execute_setConfig (tenant : TenantId) (l : List (Option TenantId × W)) (fate : Fate) :
    (fate = .ok ∧ execute (.setConfig tenant) fate (during {} l) = (some true, during { tenant := some tenant } l)) ∨
      fate ≠ .ok ∧ (execute (.setConfig tenant) fate (during {} l)).1 ≠ some true ∧
        (execute (.setConfig tenant) fate (during {} l)).2.committed = l := by
  rcases fate with - | - | (- | -) | (- | -)
  · exact Or.inl ⟨rfl, rfl⟩
  all_goals exact Or.inr ⟨Fate.noConfusion, (nomatch ·), rfl⟩

/-- In a transaction that has failed, no statement has an effect. -/
theorem runStatements_aborted (statements : List (W × Fate)) (h : tx.aborted = true) :
    (runStatements statements (during tx l)).2 = during tx l := by
  obtain ⟨tenant, writes, aborted⟩ := tx
  cases h
  induction statements with
  | nil => rfl
  | cons s statements ih =>
    obtain ⟨w, - | - | (- | -) | (- | -)⟩ := s
    · exact ih
    · exact ih
    · exact ih
    · exact ih
    · rfl
    · rfl

theorem runStatements_sound {statements : List (W × Fate)} (hsound : sound statements = true)
    (h : tx.aborted = false) :
    runStatements statements (during tx l) =
      (some (), during { tx with writes := tx.writes ++ (carriedOut statements).map fun w => (tx.tenant, w) } l) := by
  obtain ⟨tenant, writes, aborted⟩ := tx
  cases h
  induction statements generalizing writes with
  | nil => rw [carriedOut, List.filter_nil, List.map_nil, List.map_nil, List.append_nil]; rfl
  | cons s statements ih =>
    obtain ⟨hs, hsound⟩ : s.2.goesOn = true ∧ sound statements = true := by
      rwa [sound, List.all_cons, Bool.and_eq_true] at hsound
    have hdone : ∀ w, (writes ++ [(tenant, w)]) ++ (carriedOut statements).map (fun w => (tenant, w)) =
        writes ++ (w :: carriedOut statements).map fun w => (tenant, w) := fun w => by
      rw [List.append_assoc]
      rfl
    obtain ⟨w, - | - | (- | -) | (- | -)⟩ := s
    · exact (ih hsound (writes ++ [(tenant, w)])).trans (by rw [hdone w]; rfl)
    · cases hs
    · exact ih hsound writes
    · exact (ih hsound (writes ++ [(tenant, w)])).trans (by rw [hdone w]; rfl)
    · cases hs
    · cases hs

/-- A statement that is refused makes the transaction fail. -/
theorem runStatements_unsound (tx : Transaction W) (l : List (Option TenantId × W)) {statements : List (W × Fate)}
    (hsound : sound statements = false) :
    ∃ tx', (runStatements statements (during tx l)).2 = during tx' l ∧
      ((runStatements statements (during tx l)).1 = none ∨ tx'.aborted = true) := by
  induction statements generalizing tx with
  | nil => cases hsound
  | cons s statements ih =>
    obtain ⟨tenant, writes, aborted⟩ := tx
    have hrest : ∀ fate : Fate, fate.goesOn = true → sound ((s.1, fate) :: statements) = false →
        sound statements = false := fun fate hfate h => by
      rwa [sound, List.all_cons, hfate, Bool.true_and] at h
    obtain ⟨w, - | - | (- | -) | (- | -)⟩ := s
    · cases aborted with
      | false => exact ih _ (hrest .ok rfl hsound)
      | true => exact ih _ (hrest .ok rfl hsound)
    · refine ⟨{ tenant, writes, aborted := true }, runStatements_aborted statements rfl, Or.inr rfl⟩
    · exact ih _ (hrest (.lost false) rfl hsound)
    · cases aborted with
      | false => exact ih _ (hrest (.lost true) rfl hsound)
      | true => exact ih _ (hrest (.lost true) rfl hsound)
    · exact ⟨_, rfl, Or.inl rfl⟩
    · cases aborted with
      | false => exact ⟨_, rfl, Or.inl rfl⟩
      | true => exact ⟨_, rfl, Or.inl rfl⟩

/-- A COMMIT makes the statements of its transaction final, if that has not failed. -/
theorem execute_commit (tx : Transaction W) (l : List (Option TenantId × W)) (fate : Fate) :
    (execute .commit fate (during tx l)).2.committed =
        (if fate.done ∧ tx.aborted = false then l ++ tx.writes else l) ∧
      ((execute .commit fate (during tx l)).1 = some true →
        (execute .commit fate (during tx l)).2.transaction = none) := by
  obtain ⟨tenant, writes, aborted⟩ := tx
  rcases fate with - | - | (- | -) | (- | -) <;> cases aborted
  all_goals first
    | exact ⟨rfl, fun _ => rfl⟩
    | exact ⟨rfl, (nomatch ·)⟩

theorem execute_rollback (tx : Transaction W) (l : List (Option TenantId × W)) (fate : Fate) :
    (execute .rollback fate (during tx l)).2.committed = l ∧
      ((execute .rollback fate (during tx l)).1 = some true →
        (execute .rollback fate (during tx l)).2.transaction = none) := by
  rcases fate with - | - | (- | -) | (- | -)
  all_goals first
    | exact ⟨rfl, fun _ => rfl⟩
    | exact ⟨rfl, (nomatch ·)⟩

theorem finish_spec (tx : Transaction W) (l : List (Option TenantId × W)) (call : RlsCall W) :
    (finish call (during tx l)).2.committed =
        (if call.result = some true ∧ call.commit.done = true ∧ tx.aborted = false then l ++ tx.writes else l) ∧
      ∀ ok, (finish call (during tx l)).1 = some (true, ok) → (finish call (during tx l)).2.transaction = none := by
  rcases hresult : call.result with _ | _ | _
  · rw [finish, hresult]
    exact ⟨rfl, fun ok h => nomatch h⟩
  · have hfinish : finish call = execute .rollback call.rollback >>= fun ok => pure (ok, false) := by
      rw [finish, hresult]
    have hrollback := execute_rollback tx l call.rollback
    rcases hrun : execute .rollback call.rollback (during tx l) with ⟨_ | ok, c'⟩ <;> rw [hrun] at hrollback
    · rw [hfinish, bind_none hrun]
      exact ⟨hrollback.1, fun ok h => nomatch h⟩
    · rw [hfinish, bind_some hrun]
      exact ⟨hrollback.1, fun ok' h => hrollback.2 (congrArg (Option.map Prod.fst) h)⟩
  · have hfinish : finish call = execute .commit call.commit >>= fun ok => pure (ok, ok) := by
      rw [finish, hresult]
    have hcommit := execute_commit tx l call.commit
    simp only [true_and]
    rcases hrun : execute .commit call.commit (during tx l) with ⟨_ | ok, c'⟩ <;> rw [hrun] at hcommit
    · rw [hfinish, bind_none hrun]
      exact ⟨hcommit.1, fun ok h => nomatch h⟩
    · rw [hfinish, bind_some hrun]
      exact ⟨hcommit.1, fun ok' h => hcommit.2 (congrArg (Option.map Prod.fst) h)⟩

/-! ## A call -/

theorem commits_iff (call : RlsCall W) : call.commits = true ↔ call.lock = true ∧ call.begin = .ok ∧
    call.set_config = .ok ∧ sound call.statements = true ∧ call.result = some true ∧ call.commit.done = true := by
  simp only [RlsCall.commits, Bool.and_eq_true, beq_iff_eq, and_assoc]

theorem inTransaction_spec (tenant : TenantId) (l : List (Option TenantId × W)) {call : RlsCall W}
    (hlock : call.lock = true) (hbegin : call.begin = .ok) :
    (inTransaction tenant call (during {} l)).2.committed = l ++ call.writes.map (fun w => (some tenant, w)) ∧
      ∀ ok, (inTransaction tenant call (during {} l)).1 = some (true, ok) →
        (inTransaction tenant call (during {} l)).2.transaction = none := by
  have hquiet : ¬call.commits = true → l = l ++ call.writes.map (fun w => (some tenant, w)) := fun h => by
    rw [RlsCall.writes, if_neg h, List.map_nil, List.append_nil]
  unfold inTransaction
  rcases execute_setConfig tenant l call.set_config with ⟨hset, hrun⟩ | ⟨hset, hfails, hl⟩
  · rw [bind_some hrun, Bool.not_true, if_neg Bool.false_ne_true]
    rcases hsound : sound call.statements with _ | _
    · -- a statement was refused, or the closure is dropped at one
      have hnot : ¬call.commits = true := fun h => by
        rw [((commits_iff call).mp h).2.2.2.1] at hsound
        cases hsound
      obtain ⟨tx', hs, hr⟩ := runStatements_unsound { tenant := some tenant } l hsound
      rcases hstatements : runStatements call.statements (during { tenant := some tenant } l) with ⟨_ | ⟨⟩, c'⟩ <;>
        rw [hstatements] at hs hr <;> cases hs
      · rw [bind_none hstatements]
        exact ⟨hquiet hnot, fun ok h => nomatch h⟩
      · rw [bind_some hstatements]
        have haborted : tx'.aborted = true := hr.resolve_left (nomatch ·)
        obtain ⟨hcommitted, hover⟩ := finish_spec tx' l call
        rw [if_neg fun h => Bool.false_ne_true (h.2.2.symm.trans haborted)] at hcommitted
        exact ⟨hcommitted.trans (hquiet hnot), hover⟩
    · rw [bind_some (runStatements_sound hsound rfl)]
      refine ⟨(finish_spec _ l call).1.trans ?_, (finish_spec _ l call).2⟩
      by_cases hc : call.commits = true
      · obtain ⟨-, -, -, -, hresult, hdone⟩ := (commits_iff call).mp hc
        rw [if_pos ⟨hresult, hdone, rfl⟩, RlsCall.writes, if_pos hc]
        rfl
      · rw [if_neg fun h => hc ((commits_iff call).mpr ⟨hlock, hbegin, hset, hsound, h.1, h.2.1⟩)]
        exact hquiet hc
  · have hnot : ¬call.commits = true := fun h => hset ((commits_iff call).mp h).2.2.1
    rcases hrun : execute (.setConfig tenant) call.set_config (during {} l) with ⟨_ | _ | _, c'⟩ <;>
      rw [hrun] at hfails hl
    · rw [bind_none hrun]
      exact ⟨hl.trans (hquiet hnot), fun ok h => nomatch h⟩
    · rw [bind_some hrun]
      exact ⟨hl.trans (hquiet hnot), fun ok h => nomatch h⟩
    · exact absurd rfl hfails

/-- What a call commits, and that the next one starts afresh. -/
theorem withRls_spec (h : c.Clean) (tenant : TenantId) (call : RlsCall W) :
    (withRls tenant call c).2.committed = c.committed ++ call.writes.map (fun w => (some tenant, w)) ∧
      (withRls tenant call c).2.Clean := by
  have hquiet : ¬call.commits = true →
      c.committed = c.committed ++ call.writes.map (fun w => (some tenant, w)) := fun h => by
    rw [RlsCall.writes, if_neg h, List.map_nil, List.append_nil]
  unfold withRls
  rcases hlock : call.lock with _ | _
  · have hnot : ¬call.commits = true := fun h => by
      rw [((commits_iff call).mp h).1] at hlock
      cases hlock
    exact ⟨hquiet hnot, h⟩
  · rw [Bool.not_true, if_neg Bool.false_ne_true]
    rcases execute_begin h call.begin with ⟨hbegin, hrun⟩ | ⟨hbegin, hfails, hclean, hcommitted⟩
    · rw [bind_some hrun, Bool.not_true, if_neg Bool.false_ne_true]
      obtain ⟨hwritten, hover⟩ := inTransaction_spec tenant c.committed hlock hbegin
      unfold inScope
      rcases hbody : inTransaction tenant call (during {} c.committed) with ⟨_ | ⟨_ | _, ok⟩, c'⟩ <;>
        rw [hbody] at hwritten hover
      · exact ⟨hwritten, Or.inl rfl⟩
      · exact ⟨hwritten, Or.inl rfl⟩
      · exact ⟨hwritten, Or.inr (Or.inl (hover ok rfl))⟩
    · have hnot : ¬call.commits = true := fun h => hbegin ((commits_iff call).mp h).2.1
      rcases hrun : execute .begin call.begin c with ⟨_ | _ | _, c'⟩ <;> rw [hrun] at hfails hclean hcommitted
      · rw [bind_none hrun]
        exact ⟨hcommitted.trans (hquiet hnot), hclean⟩
      · rw [bind_some hrun]
        exact ⟨hcommitted.trans (hquiet hnot), hclean⟩
      · exact absurd rfl hfails

end

/-! ## Requests, one after another -/

section
variable {c : Connection W}

theorem calls_spec (h : c.Clean) (tenant : TenantId) (calls : List (RlsCall W)) :
    (calls.foldl (fun c call => (withRls tenant call c).2) c).committed =
        c.committed ++ (calls.flatMap RlsCall.writes).map (fun w => (some tenant, w)) ∧
      (calls.foldl (fun c call => (withRls tenant call c).2) c).Clean := by
  induction calls generalizing c with
  | nil => exact ⟨(List.append_nil _).symm, h⟩
  | cons call calls ih =>
    obtain ⟨hcall, hclean⟩ := withRls_spec h tenant call
    obtain ⟨hcalls, hlast⟩ := ih hclean
    refine ⟨hcalls.trans ?_, hlast⟩
    rw [hcall, List.flatMap_cons, List.map_append, List.append_assoc]

theorem request_spec (codecs : Codecs) (h : c.Clean) (request : Request W) :
    (tenantRlsMiddleware codecs c request).committed = c.committed ++ request.writes codecs ∧
      (tenantRlsMiddleware codecs c request).Clean := by
  unfold tenantRlsMiddleware Request.writes
  rcases request.ctx codecs with _ | ctx
  · exact ⟨(List.append_nil _).symm, h⟩
  · rcases request.acquired with _ | _
    · exact ⟨(List.append_nil _).symm, h⟩
    · exact calls_spec h ctx.id request.calls

theorem requests_spec (codecs : Codecs) (h : c.Clean) (requests : List (Request W)) :
    (requests.foldl (tenantRlsMiddleware codecs) c).committed =
        c.committed ++ requests.flatMap (Request.writes codecs) ∧
      (requests.foldl (tenantRlsMiddleware codecs) c).Clean := by
  induction requests generalizing c with
  | nil => exact ⟨(List.append_nil _).symm, h⟩
  | cons request requests ih =>
    obtain ⟨hrequest, hclean⟩ := request_spec codecs h request
    obtain ⟨hrequests, hlast⟩ := ih hclean
    refine ⟨hrequests.trans ?_, hlast⟩
    rw [hrequest, List.flatMap_cons, List.append_assoc]

end

/-- **What is committed over a connection**, whatever becomes of the commands of the requests before, and what these
leave behind for the next command. -/
theorem committed_exact (codecs : Codecs) (requests : List (Request W)) :
    (requests.foldl (tenantRlsMiddleware codecs) {}).committed = requests.flatMap (Request.writes codecs) ∧
      ((requests.foldl (tenantRlsMiddleware codecs) {}).flush.transaction = none ∨
        (requests.foldl (tenantRlsMiddleware codecs) {}).flush.transaction = some {}) := by
  obtain ⟨hcommitted, hclean⟩ := requests_spec (c := {}) codecs (Or.inr (Or.inl rfl)) requests
  exact ⟨hcommitted, flush_transaction hclean⟩

end Tenant.TenantDb

end TptErp
