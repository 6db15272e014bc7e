import TptErp.Ledger.DoubleEntry
import TptErp.Ledger.EventStore
import TptErp.Lib.AssocMap
import TptErp.Lib.ScaledInt
import TptErp.Tenant.Auth

/-!
# The ledger server

`AppState` keeps one in-memory event store for each tenant; `serve` is one request to `app_with_auth`: the
authentication layer, the route, the extractors and the handler.

* Amounts are `Decimal`s with their limits, so a handler can panic: it then has no response (`none`), and the
  state is as before.
* New ids come with the request (`Arrival`), as does the time.
* A payload in the journal is kept as the value it was written from.
-/

namespace TptErp.Server

open Tenant Ledger

/-! ## Decimals -/

/-- `rust_decimal`: a 96-bit mantissa with up to 28 digits after the point. -/
abbrev Decimal := ScaledInt (2 ^ 96) 28

namespace Decimal

def ZERO : Decimal := ScaledInt.zero (by decide)

/-- The digits with the point. -/
def text (d : Decimal) : String :=
  let digits := d.mantissa.natAbs.repr.toList
  let padded := List.replicate (d.scale + 1 - digits.length) '0' ++ digits
  let whole := padded.take (padded.length - d.scale)
  let fraction := padded.drop (padded.length - d.scale)
  (if d.mantissa < 0 then "-" else "") ++ String.ofList whole ++
    (if d.scale = 0 then "" else "." ++ String.ofList fraction)

end Decimal

/-- `Display` of `Money<Usd>`. -/
def moneyText (amount : Decimal) : String := "$" ++ amount.text

/-! ## Transactions -/

/-- A leg of a transaction; the source's `LedgerEntry<Usd>`. -/
structure Entry where
  account : AccountId
  side : EntrySide
  amount : Decimal
deriving DecidableEq

/-- The source's `Transaction<Usd>`. -/
structure Posting where
  id : TransactionId
  entries : List Entry
deriving DecidableEq

/-- `DoubleEntryError`, its sums as texts. -/
inductive ValidationError
  | unbalanced (debits credits : String)
  | empty
deriving DecidableEq

namespace Posting

variable (tx : Posting)

/-- The amounts of one side. -/
def amounts (side : EntrySide) : List Decimal := (tx.entries.filter fun e => e.side = side).map (·.amount)

/-- They are added up from zero; none when the `+` of a decimal panics. -/
def total (side : EntrySide) : Option Decimal := (tx.amounts side).foldlM (fun acc amt => acc.add amt) Decimal.ZERO

def debits : Option Decimal := tx.total .debit

def credits : Option Decimal := tx.total .credit

def isBalanced : Option Bool := do
  let debits ← tx.debits
  let credits ← tx.credits
  some (debits.same credits)

def validate : Option (Except ValidationError Unit) :=
  if tx.entries.length < 2 then some (.error .empty)
  else do
    let debits ← tx.debits
    let credits ← tx.credits
    some (if debits.same credits then .ok () else .error (.unbalanced (moneyText debits) (moneyText credits)))

end Posting

inductive LedgerEvent
  | transactionPosted (tx : Posting)
deriving DecidableEq

def LedgerEvent.posting : LedgerEvent → Posting
  | .transactionPosted tx => tx

/-! ## Balances -/

abbrev Balances := AssocMap AccountId Decimal

/-- What an entry does to the balance of its account. -/
def Entry.applyTo (e : Entry) (balance : Decimal) : Option Decimal :=
  match e.side with
  | .debit => balance.sub e.amount
  | .credit => balance.add e.amount

def applyEntry (balances : Balances) (e : Entry) : Option Balances :=
  (e.applyTo (balances.getD e.account Decimal.ZERO)).map fun balance => balances.insert e.account balance

inductive ProjectionError
  | unbalanced (debits credits : String)

/-- `BalanceProjection::apply`. -/
def applyEvent (balances : Balances) : LedgerEvent → Option (Except ProjectionError Balances)
  | .transactionPosted tx => do
    let debits ← tx.debits
    let credits ← tx.credits
    if debits.same credits then
      let applied ← tx.entries.foldlM applyEntry balances
      some (.ok applied)
    else some (.error (.unbalanced (moneyText debits) (moneyText credits)))

def replay (balances : Balances) : List LedgerEvent → Option (Except ProjectionError Balances)
  | [] => some (.ok balances)
  | ev :: rest => do
    match ← applyEvent balances ev with
    | .error err => some (.error err)
    | .ok balances => replay balances rest

/-! ## The state -/

/-- Marker of journals. -/
inductive Journal

abbrev JournalId := Id Journal

structure TenantLedger where
  journal : JournalId
  store : InMemoryEventStore JournalId LedgerEvent

structure AppState where
  ledgers : AssocMap TenantId TenantLedger := ∅

namespace AppState

variable (s : AppState)

/-- The tenant's ledger, or a new one. -/
def entry (tenant : TenantId) (newJournal : JournalId) : TenantLedger :=
  s.ledgers.getD tenant { journal := newJournal, store := {} }

def post (tenant : TenantId) (newJournal : JournalId) (tx : Posting) : Nat × AppState :=
  let entry := s.entry tenant newJournal
  let r := entry.store.append
    { aggregateId := entry.journal, eventType := "TransactionPosted", payload := .transactionPosted tx }
  (r.1.sequence, { ledgers := s.ledgers.insert tenant { entry with store := r.2 } })

/-- The payloads of the tenant's journal. -/
def journal (tenant : TenantId) : List LedgerEvent :=
  match s.ledgers.lookup tenant with
  | none => []
  | some entry => (entry.store.log.filter fun e => e.aggregateId = entry.journal).map (·.payload)

/-- "projection cannot fail": none when it does, or when an addition panics. -/
def balances (tenant : TenantId) : Option Balances :=
  match s.ledgers.lookup tenant with
  | none => some ∅
  | some _ =>
    match replay ∅ (s.journal tenant) with
    | some (.ok balances) => some balances
    | _ => none

end AppState

/-! ## Requests and responses -/

structure EntryDto where
  account : String
  side : String
  amount : String

structure PostTransaction where
  entries : List EntryDto

/-- What the third-party crates compute: of a body, the JSON extractor's rejection or its value. -/
structure Crates where
  codecs : Codecs
  parseAccount : String → Except String AccountId
  parseAmount : String → Except String Decimal
  parseBody : Option String → List UInt8 → Except (Nat × String) PostTransaction

inductive Body
  | empty
  | text (s : String)
  | posted (sequence : Nat) (id : TransactionId)
  | balances (b : Balances)
  | journal (events : List LedgerEvent)

structure Response where
  status : Nat
  body : Body

inductive PostError
  | badEntry (err : String)
  | unbalanced (err : String)

def PostError.intoResponse : PostError → Response
  | .badEntry err => { status := 400, body := .text ("invalid entry: " ++ err) }
  | .unbalanced err => { status := 422, body := .text ("transaction is not balanced: " ++ err) }

/-! ## Handlers -/

section
variable (crates : Crates)

def parseEntry (i : Nat) (e : EntryDto) : Except PostError Entry :=
  match crates.parseAccount e.account with
  | .error err => .error (.badEntry ("entry " ++ toString i ++ ": bad account: " ++ err))
  | .ok account =>
    let side := lower e.side
    if side = "debit" ∨ side = "credit" then
      match crates.parseAmount e.amount with
      | .error err => .error (.badEntry ("entry " ++ toString i ++ ": bad amount: " ++ err))
      | .ok amount => .ok { account := account, side := if side = "debit" then .debit else .credit, amount := amount }
    else .error (.badEntry ("entry " ++ toString i ++ ": unknown side '" ++ side ++ "'"))

/-- The entries from the i-th on. -/
def parseEntries : Nat → List EntryDto → Except PostError (List Entry)
  | _, [] => .ok []
  | i, e :: rest => do
    let entry ← parseEntry crates i e
    let entries ← parseEntries (i + 1) rest
    pure (entry :: entries)

def ValidationError.intoPostError : ValidationError → PostError
  | .unbalanced debits credits => .unbalanced ("debits " ++ debits ++ " != credits " ++ credits)
  | .empty => .badEntry "need at least two entries"

/-- The new ids that a request draws. -/
structure NewIds where
  tx : TransactionId
  journal : JournalId
deriving DecidableEq

def postTransaction (s : AppState) (tenant : TenantId) (ids : NewIds) (body : PostTransaction) :
    Option Response × AppState :=
  match parseEntries crates 0 body.entries with
  | .error err => (some err.intoResponse, s)
  | .ok entries =>
    let tx : Posting := { id := ids.tx, entries := entries }
    match tx.validate with
    | none => (none, s)
    | some (.error err) => (some err.intoPostError.intoResponse, s)
    | some (.ok ()) =>
      let r := s.post tenant ids.journal tx
      (some { status := 200, body := .posted r.1 tx.id }, r.2)

def getBalances (s : AppState) (tenant : TenantId) : Option Response :=
  (s.balances tenant).map fun b => { status := 200, body := .balances b }

def getJournal (s : AppState) (tenant : TenantId) : Response :=
  { status := 200, body := .journal (s.journal tenant) }

/-! ## The router -/

inductive Method
  | get
  | head
  | post
  | other
deriving DecidableEq

structure Request where
  method : Method
  path : String
  headers : Headers := {}
  body : List UInt8 := []
deriving DecidableEq

inductive Route
  | health
  | postTransaction
  | journal
  | balances
  | methodNotAllowed
  | notFound

/-- A GET route also answers HEAD. -/
def Request.route (req : Request) : Route :=
  let get := req.method = .get ∨ req.method = .head
  if req.path = "/health" then if get then .health else .methodNotAllowed
  else if req.path = "/transactions" then
    if req.method = .post then .postTransaction else if get then .journal else .methodNotAllowed
  else if req.path = "/balances" then if get then .balances else .methodNotAllowed
  else .notFound

/-- The answer to a HEAD has no body. -/
def Request.answer (req : Request) (r : Response) : Response :=
  if req.method = .head then { r with body := .empty } else r

def TenantResolutionError.intoResponse (err : TenantResolutionError) : Response :=
  { status := 400, body := .text err.message }

/-- The routes behind the authentication layer, which has left a tenant context or not. -/
def dispatch (s : AppState) (extension : Option TenantContext) (ids : NewIds) (req : Request) :
    Option Response × AppState :=
  match req.route with
  | .health => (some (req.answer { status := 200, body := .text "ok" }), s)
  | .methodNotAllowed => (some (req.answer { status := 405, body := .empty }), s)
  | .notFound => (some (req.answer { status := 404, body := .empty }), s)
  | .postTransaction =>
    match fromRequestParts crates.codecs extension req.headers with
    | .error err => (some (TenantResolutionError.intoResponse err), s)
    | .ok ctx =>
      match crates.parseBody req.headers.contentType req.body with
      | .error (status, err) => (some { status := status, body := .text err }, s)
      | .ok body => postTransaction crates s ctx.id ids body
  | .journal =>
    match fromRequestParts crates.codecs extension req.headers with
    | .error err => (some (req.answer (TenantResolutionError.intoResponse err)), s)
    | .ok ctx => (some (req.answer (getJournal s ctx.id)), s)
  | .balances =>
    match fromRequestParts crates.codecs extension req.headers with
    | .error err => (some (req.answer (TenantResolutionError.intoResponse err)), s)
    | .ok ctx => ((getBalances s ctx.id).map req.answer, s)

/-- A request with the time of its arrival and the new ids it draws. -/
structure Arrival where
  request : Request
  now : Int
  ids : NewIds

/-- One request to `app_with_auth`. -/
def serve (config : JwtConfig) (s : AppState) (a : Arrival) : Option Response × AppState :=
  match authMiddleware crates.codecs config a.now a.request.headers with
  | .error err => (some (a.request.answer { status := 401, body := .text err }), s)
  | .ok ctx => dispatch crates s (some ctx) a.ids a.request

end

end TptErp.Server
