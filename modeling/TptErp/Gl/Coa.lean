import TptErp.Ledger.DoubleEntry
import TptErp.Lib.AssocMap

/-!
# Chart of accounts

The account types, the side that increases each, and the catalog of accounts.
-/

namespace TptErp.Gl

open Ledger

/-- The five account categories. -/
inductive AccountType
  | asset
  | liability
  | equity
  | revenue
  | expense
deriving DecidableEq

namespace AccountType

/-- The side that increases an account of this type. -/
def normalSide : AccountType → EntrySide
  | .asset | .expense => .debit
  | .liability | .equity | .revenue => .credit

/-- Balance-sheet accounts, as opposed to those closed at period end. -/
def isPermanent : AccountType → Bool
  | .revenue | .expense => false
  | _ => true

end AccountType

/-- A GLS account. -/
structure Account where
  id : AccountId
  code : String
  name : String
  kind : AccountType

structure ChartOfAccounts where
  accounts : AssocMap AccountId Account

namespace ChartOfAccounts

def new : ChartOfAccounts := ⟨∅⟩

/-- Register an account under its id. -/
def add (coa : ChartOfAccounts) (account : Account) : ChartOfAccounts :=
  ⟨coa.accounts.insert account.id account⟩

def get (coa : ChartOfAccounts) (id : AccountId) : Option Account := coa.accounts.lookup id

def accountType (coa : ChartOfAccounts) (id : AccountId) : Option AccountType :=
  (coa.get id).map (·.kind)

/-- The accounts, in the order the catalog iterates them. -/
def iter (coa : ChartOfAccounts) : List Account := coa.accounts.entries.map (·.2)

theorem get_add (coa : ChartOfAccounts) (account : Account) (id : AccountId) :
    (coa.add account).get id = if id = account.id then some account else coa.get id :=
  AssocMap.lookup_insert_eq coa.accounts account.id id account

end ChartOfAccounts

/-- The demo accounts that the other applications post to. -/
structure DemoAccounts where
  accountsReceivable : AccountId
  salesRevenue : AccountId

end TptErp.Gl
