import TptErp.Primitives

/-!
# Register transactions

The lifecycle of a sale, the table of legal transitions and the totals of a transaction.
-/

namespace TptErp.Pos

/-- Marker of register transactions. -/
inductive PosTxn

/-- Marker of catalog items. -/
inductive PosItem

/-- Marker of customers. -/
inductive PosCustomer

structure LineItem where
  item : Id PosItem
  name : String
  qty : Nat
  unitPrice : Money Usd
  tax : Money Usd

/-- Quantity times unit price. -/
def LineItem.merchandise (l : LineItem) : Money Usd := l.unitPrice * l.qty

inductive TxnStatus
  | cart
  | tendering
  | authorized
  | captured
  | voided
  | refunded
  | returned
deriving DecidableEq

inductive TxnError
  | transition (source target : TxnStatus)
  | notEditable (status : TxnStatus)
deriving DecidableEq

namespace TxnStatus

/-- The legal transitions. -/
def canTransition : TxnStatus → TxnStatus → Bool
  | cart, tendering => true
  | tendering, authorized => true
  | authorized, captured => true
  | tendering, voided => true
  | authorized, voided => true
  | captured, refunded => true
  | captured, voided => true
  | captured, returned => true
  | _, _ => false

def transition (s target : TxnStatus) : Except TxnError TxnStatus :=
  if s.canTransition target then .ok target else .error (.transition s target)

end TxnStatus

structure Transaction where
  id : Id PosTxn
  status : TxnStatus := .cart
  lines : List LineItem := []

namespace Transaction

/-- Lines can be added in the cart only. -/
def addLine (t : Transaction) (line : LineItem) : Except TxnError Transaction :=
  if t.status ≠ .cart then .error (.notEditable t.status)
  else .ok { t with lines := t.lines ++ [line] }

def subtotal (t : Transaction) : Money Usd := (t.lines.map (·.merchandise)).foldl (fun a b => a + b) 0

def taxTotal (t : Transaction) : Money Usd := (t.lines.map (·.tax)).foldl (fun a b => a + b) 0

def advance (t : Transaction) (target : TxnStatus) : Except TxnError Transaction :=
  match t.status.transition target with
  | .ok status => .ok { t with status }
  | .error e => .error e

end Transaction

end TptErp.Pos
