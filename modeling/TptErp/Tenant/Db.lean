import TptErp.Tenant.Auth
import TptErp.Lib.Await

/-!
# Database scope of a request

`tenant_db_middleware` opens a transaction on a pooled connection, sets the tenant for it, runs the handler,
and commits or rolls back.  A request is its tenant and the outcome of each of its calls; it may be dropped
at any await.  A connection serves one request after another.

The setting of `set_config(.., true)` ends with its transaction.  A ROLLBACK that was issued closes the
transaction, whatever its reply, and a connection goes back to the pool as it is.  The queries of a handler
leave the transaction alone, except for the `commands` it issues.
-/

namespace TptErp

namespace Tenant

open Await

/-! ## The connection -/

/-- What a connection holds on the server: no transaction, or one with its `app.tenant_id`. -/
inductive Session
  | idle
  | transaction (tenant : Option TenantId)
deriving DecidableEq

inductive Command
  | begin
  | setConfig (tenant : TenantId)
  | commit
  | rollback
deriving DecidableEq

def Session.exec : Session → Command → Session
  | .idle, .begin => .transaction none
  | .transaction tenant, .begin => .transaction tenant
  | .transaction _, .setConfig tenant => .transaction (some tenant)
  | .idle, .setConfig _ => .idle
  | _, .commit => .idle
  | _, .rollback => .idle

/-! ## The middleware -/

structure Response where
  status : Nat
  body : String
deriving DecidableEq

def Response.isSuccess (resp : Response) : Bool := 200 ≤ resp.status && resp.status < 300

inductive TenantDbError
  | poolUnavailable
  | scopingFailed
  | noConnection
deriving DecidableEq

namespace TenantDbError

def message : TenantDbError → String
  | .poolUnavailable => "could not acquire a database connection"
  | .scopingFailed => "tenant scoping transaction could not be established"
  | .noConnection => "no tenant-scoped connection was available for this request"

def intoResponse (err : TenantDbError) : Response :=
  let status :=
    match err with
    | .poolUnavailable => 503
    | .scopingFailed => 500
    | .noConnection => 500
  ⟨status, err.message⟩

end TenantDbError

/-- What the handler does with the connection, and its response (none: it panics, or is dropped). -/
structure Handler where
  commands : List Command := []
  /-- It takes the connection out of the `TenantConnection` (`lock().await.take()`). -/
  takes : Bool := false
  response : Option Response
deriving DecidableEq

/-- The connection after the handler's own commands. -/
def Handler.leaves (handler : Handler) (session : Session) : Session := handler.commands.foldl Session.exec session

/-- The outcome of each call of `tenant_db_middleware`. -/
structure Calls where
  acquire : Reply := .ok
  begin : Outcome := ⟨.ok, true⟩
  set_config : Outcome := ⟨.ok, true⟩
  handler : Handler
  /-- The lock of the `TenantConnection` is obtained (not: the task is dropped while it waits). -/
  lock : Bool := true
  commit : Outcome := ⟨.ok, true⟩
  rollback : Outcome := ⟨.ok, true⟩
  /-- The ROLLBACK after a COMMIT or ROLLBACK that failed. -/
  rollback_again : Outcome := ⟨.ok, true⟩
deriving DecidableEq

structure World where
  session : Session
  /-- The commands that have succeeded, the last one first. -/
  succeeded : List Command := []
  /-- Those that had succeeded when the handler ran. -/
  handled : Option (List Command) := none

/-- A ROLLBACK that was issued is carried out. -/
def Command.outcome : Command → Outcome → Outcome
  | .rollback, ⟨.error, _⟩ => ⟨.error, true⟩
  | _, o => o

/-- `sqlx::query(cmd).execute(&mut *conn).await.is_ok()`. -/
def execute (cmd : Command) (o : Outcome) : Task World Bool := do
  let ok ← call (fun w => { w with session := w.session.exec cmd }) (cmd.outcome o)
  if ok then update fun w => { w with succeeded := cmd :: w.succeeded }
  pure ok

/-- `next.run(req).await`. -/
def nextRun (handler : Handler) : Task World Response := do
  update fun w => { w with session := handler.leaves w.session, handled := some w.succeeded }
  match handler.response with
  | some resp => pure resp
  | none => drop

/-- A COMMIT or ROLLBACK; best-effort, the transaction is closed when it fails. -/
def closeWith (cmd : Command) (o again : Outcome) : Task World Unit := do
  let closed ← execute cmd o
  if !closed then
    let _ ← execute .rollback again

/-- Finalize the transaction now that the handler has produced a response. -/
def finalize (calls : Calls) (resp : Response) : Task World Unit :=
  if !calls.lock then drop
  else if calls.handler.takes then pure ()
  else if resp.isSuccess then closeWith .commit calls.commit calls.rollback_again
  else closeWith .rollback calls.rollback calls.rollback_again

/-- The handler, and what is left to do after it. -/
def handle (calls : Calls) : Task World Response := do
  let resp ← nextRun calls.handler
  finalize calls resp
  pure resp

/-- The request on the connection that was acquired. -/
def scope (ctx : TenantContext) (calls : Calls) : Task World Response := do
  if !(← execute .begin calls.begin) then
    pure TenantDbError.scopingFailed.intoResponse
  else
    let _ ← execute (.setConfig ctx.id) calls.set_config
    handle calls

def tenantDbMiddleware (ctx : Option TenantContext) (calls : Calls) : Task World Response :=
  match ctx with
  | some ctx =>
    match calls.acquire with
    | .ok => scope ctx calls
    | .error => pure TenantDbError.poolUnavailable.intoResponse
    | .cancelled => drop
  -- the handler has no connection
  | none => nextRun { calls.handler with commands := [] }

/-! ## What a step does -/

/-- The command was carried out. -/
def Took (cmd : Command) (o : Outcome) : Prop := o.reply = .ok ∨ (cmd.outcome o).done = true

instance (cmd : Command) (o : Outcome) : Decidable (Took cmd o) := inferInstanceAs (Decidable (_ ∨ _))

section Steps

variable (cmd : Command) {o : Outcome} (w : World)

theorem execute_ok (h : o.reply = .ok) :
    execute cmd o w = (some true, { w with session := w.session.exec cmd, succeeded := cmd :: w.succeeded }) := by
  obtain ⟨reply, done⟩ := o
  cases h
  cases cmd <;> rfl

theorem execute_error (h : o.reply = .error) :
    execute cmd o w = (some false, { w with session := if Took cmd o then w.session.exec cmd else w.session }) := by
  obtain ⟨reply, done⟩ := o
  cases h
  cases cmd <;> cases done <;> rfl

theorem execute_cancelled (h : o.reply = .cancelled) :
    execute cmd o w = (none, { w with session := if Took cmd o then w.session.exec cmd else w.session }) := by
  obtain ⟨reply, done⟩ := o
  cases h
  cases cmd <;> cases done <;> rfl

end Steps

@[simp] theorem exec_commit (s : Session) : s.exec .commit = .idle := by
  cases s <;> rfl

@[simp] theorem exec_rollback (s : Session) : s.exec .rollback = .idle := by
  cases s <;> rfl

/-- A command that closes the transaction leaves it open only when it was not carried out. -/
theorem session_closed {cmd : Command} (hclose : ∀ s : Session, s.exec cmd = .idle) (s : Session) (p : Prop)
    [Decidable p] :
    (if p then s.exec cmd else s) = .idle ↔ s = .idle ∨ p := by
  rw [hclose]
  by_cases hp : p
  · simp [hp]
  · simp [hp]

theorem execute_rollback_session (o : Outcome) (w : World) :
    (execute .rollback o w).2.session = .idle ↔ w.session = .idle ∨ Took .rollback o := by
  cases h : o.reply with
  | ok =>
    rw [execute_ok _ w h]
    simp [Took, h]
  | error =>
    rw [execute_error _ w h]
    exact session_closed exec_rollback w.session _
  | cancelled =>
    rw [execute_cancelled _ w h]
    exact session_closed exec_rollback w.session _

theorem execute_handled (cmd : Command) (o : Outcome) (w : World) : (execute cmd o w).2.handled = w.handled := by
  cases h : o.reply with
  | ok => rw [execute_ok cmd w h]
  | error => rw [execute_error cmd w h]
  | cancelled => rw [execute_cancelled cmd w h]

/-- The command that ends a request's transaction is carried out. -/
def Calls.Closes (calls : Calls) (resp : Response) : Prop :=
  if resp.isSuccess then
    Took .commit calls.commit ∨ (calls.commit.reply = .error ∧ Took .rollback calls.rollback_again)
  else Took .rollback calls.rollback

/-- A closing command, and the ROLLBACK that follows when it fails. -/
theorem closeWith_spec {cmd : Command} (hclose : ∀ s : Session, s.exec cmd = .idle) (o again : Outcome) (w : World) :
    (closeWith cmd o again w).2.handled = w.handled ∧
      ((closeWith cmd o again w).2.session = .idle ↔
        w.session = .idle ∨ Took cmd o ∨ (o.reply = .error ∧ Took .rollback again)) := by
  unfold closeWith
  cases h : o.reply with
  | ok =>
    rw [bind_some (execute_ok cmd w h)]
    simp [pure_run, hclose, Took, h]
  | error =>
    rw [bind_some (execute_error cmd w h), Bool.not_false, if_pos rfl, bind_pure_snd, execute_handled,
      execute_rollback_session, session_closed hclose]
    simp [or_assoc]
  | cancelled =>
    rw [bind_none (execute_cancelled cmd w h), session_closed hclose]
    simp

theorem finalize_spec (calls : Calls) (resp : Response) (w : World) :
    (finalize calls resp w).2.handled = w.handled ∧
      ((finalize calls resp w).2.session = .idle ↔
        w.session = .idle ∨ (calls.lock = true ∧ calls.handler.takes = false ∧ calls.Closes resp)) := by
  unfold finalize Calls.Closes
  cases calls.lock with
  | false => simp [drop]
  | true =>
    cases calls.handler.takes with
    | true => simp [pure_run]
    | false =>
      cases resp.isSuccess with
      | true => simpa using closeWith_spec exec_commit calls.commit calls.rollback_again w
      | false =>
        have hrollback := closeWith_spec exec_rollback calls.rollback calls.rollback_again w
        have htook : calls.rollback.reply = .error → Took .rollback calls.rollback := by
          obtain ⟨reply, done⟩ := calls.rollback
          rintro rfl
          exact .inr rfl
        refine ⟨hrollback.1, hrollback.2.trans ?_⟩
        simp only [Bool.false_eq_true, if_false, true_and]
        constructor
        · rintro (hidle | htaken | ⟨herr, -⟩)
          · exact .inl hidle
          · exact .inr htaken
          · exact .inr (htook herr)
        · rintro (hidle | htaken)
          · exact .inl hidle
          · exact .inr (.inl htaken)

/-- The handler has a response, and left the connection in its place, and the transaction is closed after it. -/
def Calls.Finished (calls : Calls) : Prop :=
  ∃ resp, calls.handler.response = some resp ∧ calls.lock = true ∧ calls.handler.takes = false ∧ calls.Closes resp

/-- The handler runs once; what it leaves open is closed when the request finishes. -/
theorem handle_spec (calls : Calls) (w : World) :
    ((handle calls) w).2.handled = some w.succeeded ∧
      (((handle calls) w).2.session = .idle ↔
        calls.handler.leaves w.session = .idle ∨ calls.Finished) := by
  unfold handle
  cases hresp : calls.handler.response with
  | none =>
    have hrun : nextRun calls.handler w =
        (none, { w with session := calls.handler.leaves w.session, handled := some w.succeeded }) := by
      simp [nextRun, bind_run, update, hresp, drop]
    rw [bind_none hrun]
    simp [Calls.Finished, hresp]
  | some resp =>
    have hrun : nextRun calls.handler w =
        (some resp, { w with session := calls.handler.leaves w.session, handled := some w.succeeded }) := by
      simp [nextRun, bind_run, update, hresp, pure_run]
    rw [bind_some hrun, bind_pure_snd]
    simpa [Calls.Finished, hresp] using finalize_spec calls resp _

/-- What a request that gets a connection must meet with: BEGIN and `set_config` succeed, and the transaction
is ended, by the handler itself or after its response; or BEGIN has no success, and no effect. -/
def Calls.Undisturbed (ctx : TenantContext) (calls : Calls) : Prop :=
  if calls.begin.reply = .ok then
    calls.set_config.reply = .ok ∧
      (calls.handler.leaves (.transaction (some ctx.id)) = .idle ∨ calls.Finished)
  else ¬ Took .begin calls.begin

/-- The handler, if it ran, ran after BEGIN and `set_config` for the tenant had succeeded. -/
def World.Scoped (ctx : TenantContext) (w : World) : Prop :=
  ∀ succeeded, w.handled = some succeeded → Command.begin ∈ succeeded ∧ Command.setConfig ctx.id ∈ succeeded

/-- Without a successful BEGIN nothing more is issued. -/
theorem scope_unbegun (ctx : TenantContext) {calls : Calls} (h : calls.begin.reply ≠ .ok) (w : World) :
    (scope ctx calls w).2 =
      { w with session := if Took .begin calls.begin then w.session.exec .begin else w.session } := by
  unfold scope
  cases hbegin : calls.begin.reply with
  | ok => exact absurd hbegin h
  | error =>
    rw [bind_some (execute_error .begin w hbegin)]
    rfl
  | cancelled => rw [bind_none (execute_cancelled .begin w hbegin)]

/-- After BEGIN and `set_config`, the handler runs in the tenant's transaction. -/
theorem scope_begun (ctx : TenantContext) {calls : Calls} (hbegin : calls.begin.reply = .ok)
    (hset : calls.set_config.reply = .ok) :
    scope ctx calls { session := .idle } =
      handle calls { session := .transaction (some ctx.id), succeeded := [.setConfig ctx.id, .begin] } := by
  unfold scope
  rw [bind_some (execute_ok .begin _ hbegin), Bool.not_true, if_neg Bool.false_ne_true,
    bind_some (execute_ok _ _ hset)]
  rfl

theorem scope_iff (ctx : TenantContext) (calls : Calls) :
    (World.Scoped ctx (scope ctx calls { session := .idle }).2 ∧
        (scope ctx calls { session := .idle }).2.session = .idle) ↔ calls.Undisturbed ctx := by
  unfold Calls.Undisturbed World.Scoped
  by_cases hbegin : calls.begin.reply = .ok
  · rw [if_pos hbegin]
    cases hset : calls.set_config.reply with
    | ok =>
      obtain ⟨hhandled, hsession⟩ := handle_spec calls
        { session := .transaction (some ctx.id), succeeded := [.setConfig ctx.id, .begin] }
      rw [scope_begun ctx hbegin hset, hhandled, hsession, eq_self, true_and]
      refine and_iff_right ?_
      intro succeeded hrun
      rw [← Option.some.inj hrun]
      simp
    | error =>
      -- the error is ignored: the handler runs
      unfold scope
      rw [bind_some (execute_ok .begin _ hbegin), Bool.not_true, if_neg Bool.false_ne_true,
        bind_some (execute_error _ _ hset)]
      refine iff_of_false ?_ fun h => absurd h.1 (by decide)
      rintro ⟨hscoped, -⟩
      have hmem := (hscoped [.begin] (handle_spec calls _).1).2
      simp at hmem
    | cancelled =>
      unfold scope
      rw [bind_some (execute_ok .begin _ hbegin), Bool.not_true, if_neg Bool.false_ne_true,
        bind_none (execute_cancelled _ _ hset)]
      refine iff_of_false ?_ fun h => absurd h.1 (by decide)
      rintro ⟨-, hsession⟩
      by_cases htook : Took (.setConfig ctx.id) calls.set_config
      · simp [htook, Session.exec] at hsession
      · simp [htook, Session.exec] at hsession
  · rw [if_neg hbegin, scope_unbegun ctx hbegin]
    by_cases htook : Took .begin calls.begin
    · simp [htook, Session.exec]
    · simp [htook]

/-! ## Requests on one connection -/

structure Request where
  /-- The tenant that the layers before have resolved. -/
  ctx : Option TenantContext
  calls : Calls

namespace Request

def run (request : Request) (session : Session) : Option Response × World :=
  tenantDbMiddleware request.ctx request.calls { session := session }

/-- The connection after requests have been served on it, one after another. -/
def serve (session : Session) (requests : List Request) : Session :=
  requests.foldl (fun session request => (request.run session).2.session) session

/-- The handler of a tenant's request runs in the tenant's scope only. -/
def Scoped (session : Session) (request : Request) : Prop :=
  ∀ ctx, request.ctx = some ctx → (request.run session).2.Scoped ctx

/-- Moreover the connection goes back without a transaction. -/
def Contained (session : Session) (request : Request) : Prop :=
  Scoped session request ∧ (request.run session).2.session = .idle

def Undisturbed (request : Request) : Prop :=
  ∀ ctx, request.ctx = some ctx → request.calls.acquire = .ok → request.calls.Undisturbed ctx

/-- One request on a connection without a transaction. -/
theorem contained_iff (request : Request) : request.Contained .idle ↔ request.Undisturbed := by
  obtain ⟨ctx, calls⟩ := request
  unfold Contained Scoped Undisturbed run tenantDbMiddleware
  cases ctx with
  | none =>
    have hsession : (nextRun { calls.handler with commands := [] } { session := .idle }).2.session = .idle := by
      cases hresp : calls.handler.response <;>
        simp [nextRun, Handler.leaves, bind_run, update, hresp, drop, pure_run]
    simpa using hsession
  | some ctx =>
    cases hacquire : calls.acquire with
    | cancelled => simp [drop, World.Scoped]
    | error => simp [pure_run, World.Scoped]
    | ok => simpa [hacquire] using scope_iff ctx calls

/-- **Scope of tenants.**  On a pooled connection every request is contained exactly when no request is
disturbed. -/
theorem scope_closed_iff (requests : List Request) :
    (∀ before request after, requests = before ++ request :: after → request.Contained (serve .idle before)) ↔
      ∀ request ∈ requests, request.Undisturbed :=
  leases_iff (fun session (request : Request) => (request.run session).2.session) .idle Scoped Undisturbed
    contained_iff requests

/-- A `set_config` that fails, and a handler that is dropped. -/
theorem scope_not_closed :
    ¬ Contained .idle ⟨some ⟨⟨1⟩, ⟨"acme"⟩⟩,
        { set_config := ⟨.error, false⟩, handler := { response := some ⟨200, ""⟩ } }⟩ ∧
      ¬ Contained .idle ⟨some ⟨⟨1⟩, ⟨"acme"⟩⟩, { handler := { response := none } }⟩ := by
  constructor
  · rintro ⟨hscoped, -⟩
    have hmem := (hscoped _ rfl _ rfl).2
    revert hmem
    decide
  · rintro ⟨-, hsession⟩
    revert hsession
    decide

end Request

end Tenant

end TptErp
