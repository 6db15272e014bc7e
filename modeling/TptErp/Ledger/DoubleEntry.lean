import TptErp.Primitives
import Mathlib.Algebra.BigOperators.Group.List.Basic

/-!
# Double entry

`Transaction` and its validation: at least two entries, and equal sums of debits and credits.
The sums are the source's folds from zero (`debits`, `credits`); `total_eq_sum` turns them into
list sums.
-/

namespace TptErp.Ledger

/-- Marker of ledger accounts. -/
inductive Account

/-- Marker of posted transactions. -/
inductive LedgerTransaction

abbrev AccountId := Id Account
abbrev TransactionId := Id LedgerTransaction

inductive EntrySide
  | debit
  | credit
deriving DecidableEq

/-- A leg of a transaction. -/
structure LedgerEntry (C : Type) where
  account : AccountId
  side : EntrySide
  amount : Money C

structure Transaction (C : Type) where
  id : TransactionId
  entries : List (LedgerEntry C)

inductive DoubleEntryError (C : Type)
  | unbalanced (tx : TransactionId) (debits credits : Money C)
  | empty (tx : TransactionId)

namespace Transaction

variable {C : Type} (tx : Transaction C)

/-- The amounts on one side, added up from zero. -/
def total (side : EntrySide) : Money C :=
  ((tx.entries.filter fun e => e.side = side).map (·.amount)).foldl (fun acc amt => acc + amt) 0

def debits : Money C := tx.total .debit

def credits : Money C := tx.total .credit

theorem total_eq_sum (side : EntrySide) :
    tx.total side = ((tx.entries.filter fun e => e.side = side).map (·.amount)).sum := by
  show List.foldl _ _ _ = _
  rw [List.sum_eq_foldl]

def isBalanced : Bool := tx.debits = tx.credits

def validate : Except (DoubleEntryError C) Unit :=
  if tx.entries.length < 2 then .error (.empty tx.id)
  else if tx.isBalanced then .ok ()
  else .error (.unbalanced tx.id tx.debits tx.credits)

theorem validate_ok_iff :
    tx.validate = .ok () ↔ 2 ≤ tx.entries.length ∧ tx.debits = tx.credits := by
  unfold validate isBalanced
  split
  · next h => simp; omega
  · next h =>
    by_cases hb : tx.debits = tx.credits
    · simp [hb]; omega
    · simp [hb]

end Transaction

end TptErp.Ledger
