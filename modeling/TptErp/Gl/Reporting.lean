import TptErp.Gl.Journal
import Mathlib.Tactic.Linarith

/-!
# Reports

The replayed read model of the journal and the three reports.  Each report is built by one loop
over the chart, from the replayed balances or from the live ones (the `now` functions); the loops
are the same and are written once, over any balances.

`trialBalanceOf_totals`, `netIncome_eq`, `balanceSheet_totals` turn the loops into sums over the
chart, and `equation` is the accounting equation over these sums.
-/

namespace TptErp.Gl

open Ledger

variable {C : Type} {SHARDS : Nat}

/-! ## The read model -/

/-- The read model: per-account balances. -/
structure JournalProjection (C : Type) where
  balances : AssocMap AccountId (AccountBalance C) := ∅

namespace JournalProjection

/-- The balance of an account, zero when it has none. -/
def balance (proj : JournalProjection C) (a : AccountId) : AccountBalance C :=
  AssocMap.getD proj.balances a {}

/-- Fold one posted leg in. -/
def apply (proj : JournalProjection C) (event : PostedLeg C) : JournalProjection C :=
  ⟨proj.balances.insert event.account ((proj.balance event.account).post event.side event.amount)⟩

end JournalProjection

/-! ## The reports -/

structure TrialBalanceRow (C : Type) where
  account : AccountId
  code : String
  name : String
  kind : AccountType
  accountBalance : AccountBalance C
  signedBalance : Money C

/-- Every account's totals and signed balance. -/
structure TrialBalance (C : Type) where
  rows : List (TrialBalanceRow C) := []
  totalDebits : Money C := 0
  totalCredits : Money C := 0

def TrialBalance.isBalanced (tb : TrialBalance C) : Bool := tb.totalDebits = tb.totalCredits

structure IncomeStatementRow (C : Type) where
  account : AccountId
  name : String
  kind : AccountType
  amount : Money C

/-- Revenues less expenses. -/
structure IncomeStatement (C : Type) where
  rows : List (IncomeStatementRow C) := []
  totalRevenue : Money C := 0
  totalExpense : Money C := 0
  netIncome : Money C := 0

structure BalanceSheetRow (C : Type) where
  code : String
  name : String
  kind : AccountType
  balance : Money C

structure BalanceSheet (C : Type) where
  assets : List (BalanceSheetRow C) := []
  liabilities : List (BalanceSheetRow C) := []
  equity : List (BalanceSheetRow C) := []
  totalAssets : Money C := 0
  totalLiabilities : Money C := 0
  totalEquity : Money C := 0
  netIncome : Money C := 0

/-- Assets equal liabilities plus equity, net income included. -/
def BalanceSheet.isBalanced (bs : BalanceSheet C) : Bool :=
  bs.totalAssets = bs.totalLiabilities + bs.totalEquity

/-- One account of the trial balance. -/
def TrialBalance.add (tb : TrialBalance C) (acc : Account) (bal : AccountBalance C) : TrialBalance C :=
  { rows := tb.rows ++ [{ account := acc.id, code := acc.code, name := acc.name, kind := acc.kind
                          accountBalance := bal, signedBalance := bal.signed acc.kind }]
    totalDebits := tb.totalDebits + bal.debits
    totalCredits := tb.totalCredits + bal.credits }

/-- One account of the income statement; permanent accounts and zero amounts are passed over. -/
def IncomeStatement.add (is : IncomeStatement C) (acc : Account) (bal : AccountBalance C) :
    IncomeStatement C :=
  let amount := bal.signed acc.kind
  if acc.kind.isPermanent then is
  else if amount = 0 then is
  else
    { is with
      totalRevenue := if acc.kind = .revenue then is.totalRevenue + amount else is.totalRevenue
      totalExpense := if acc.kind = .revenue then is.totalExpense else is.totalExpense + amount
      rows := is.rows ++ [{ account := acc.id, name := acc.name, kind := acc.kind, amount }] }

/-- One account of the balance sheet; temporary accounts are passed over. -/
def BalanceSheet.add (bs : BalanceSheet C) (acc : Account) (bal : AccountBalance C) : BalanceSheet C :=
  let balance := bal.signed acc.kind
  let row : BalanceSheetRow C := { code := acc.code, name := acc.name, kind := acc.kind, balance }
  match acc.kind with
  | .asset => { bs with totalAssets := bs.totalAssets + balance, assets := bs.assets ++ [row] }
  | .liability =>
    { bs with totalLiabilities := bs.totalLiabilities + balance, liabilities := bs.liabilities ++ [row] }
  | .equity => { bs with totalEquity := bs.totalEquity + balance, equity := bs.equity ++ [row] }
  | .revenue | .expense => bs

def trialBalanceOf (coa : ChartOfAccounts) (balance : AccountId → AccountBalance C) : TrialBalance C :=
  coa.iter.foldl (fun tb acc => tb.add acc (balance acc.id)) {}

def incomeStatementOf (coa : ChartOfAccounts) (balance : AccountId → AccountBalance C) : IncomeStatement C :=
  let is := coa.iter.foldl (fun is acc => is.add acc (balance acc.id)) ({} : IncomeStatement C)
  { is with netIncome := is.totalRevenue - is.totalExpense }

def trialBalance (coa : ChartOfAccounts) (proj : JournalProjection C) : TrialBalance C :=
  trialBalanceOf coa proj.balance

def incomeStatement (coa : ChartOfAccounts) (proj : JournalProjection C) : IncomeStatement C :=
  incomeStatementOf coa proj.balance

/-- Net income is retained in equity. -/
def balanceSheet (coa : ChartOfAccounts) (proj : JournalProjection C) (netIncome : Money C) : BalanceSheet C :=
  let bs := coa.iter.foldl (fun bs acc => bs.add acc (proj.balance acc.id)) ({} : BalanceSheet C)
  { bs with totalEquity := bs.totalEquity + netIncome, netIncome }

/-- The three reports of a projection. -/
def reports (coa : ChartOfAccounts) (proj : JournalProjection C) :
    TrialBalance C × IncomeStatement C × BalanceSheet C :=
  (trialBalance coa proj, incomeStatement coa proj,
    balanceSheet coa proj (incomeStatement coa proj).netIncome)

namespace JournalEngine

variable (eng : JournalEngine C SHARDS)

/-- The posted legs, one shard after the other. -/
def legs : List (PostedLeg C) :=
  (List.finRange SHARDS).flatMap fun i => (eng.shards i).store.log.map (·.payload)

def rebuildReadModels : JournalProjection C := eng.legs.foldl JournalProjection.apply {}

/-- Replay only the legs of one period. -/
def rebuildReadModelsForPeriod (period : String) : JournalProjection C :=
  (eng.legs.filter fun leg => leg.period = period).foldl JournalProjection.apply {}

def trialBalanceNow : TrialBalance C := trialBalanceOf eng.coa eng.balanceOf

def incomeStatementNow : IncomeStatement C := incomeStatementOf eng.coa eng.balanceOf

/-- The live balances of the chart's accounts, as a projection. -/
def liveProjection : JournalProjection C :=
  ⟨eng.coa.iter.foldl (fun m acc => m.insert acc.id (eng.balanceOf acc.id)) ∅⟩

def balanceSheetNow : BalanceSheet C := balanceSheet eng.coa eng.liveProjection eng.incomeStatementNow.netIncome

def cachedReports : TrialBalance C × IncomeStatement C × BalanceSheet C := reports eng.coa eng.rebuildReadModels

def cachedReportsForPeriod (period : String) : TrialBalance C × IncomeStatement C × BalanceSheet C :=
  reports eng.coa (eng.rebuildReadModelsForPeriod period)

end JournalEngine

/-! ## The loops as sums -/

/-- The signed balances of the accounts of one kind, summed up. -/
def ofKind (accs : List Account) (balance : AccountId → AccountBalance C) (kind : AccountType) : Money C :=
  (accs.map fun acc => if acc.kind = kind then (balance acc.id).signed acc.kind else 0).sum

theorem ofKind_cons (acc : Account) (accs : List Account) (balance : AccountId → AccountBalance C)
    (kind : AccountType) :
    ofKind (acc :: accs) balance kind =
      (if acc.kind = kind then (balance acc.id).signed acc.kind else 0) + ofKind accs balance kind := by
  simp [ofKind]

theorem foldl_trialBalance (balance : AccountId → AccountBalance C) (accs : List Account) (tb : TrialBalance C) :
    (accs.foldl (fun tb acc => tb.add acc (balance acc.id)) tb).totalDebits =
        tb.totalDebits + (accs.map fun acc => (balance acc.id).debits).sum ∧
      (accs.foldl (fun tb acc => tb.add acc (balance acc.id)) tb).totalCredits =
        tb.totalCredits + (accs.map fun acc => (balance acc.id).credits).sum := by
  induction accs generalizing tb with
  | nil => simp
  | cons acc accs ih =>
    obtain ⟨hd, hc⟩ := ih (tb.add acc (balance acc.id))
    rw [List.foldl_cons, hd, hc, List.map_cons, List.map_cons, List.sum_cons, List.sum_cons]
    constructor
    · show tb.totalDebits + (balance acc.id).debits + _ = _
      exact add_assoc ..
    · show tb.totalCredits + (balance acc.id).credits + _ = _
      exact add_assoc ..

theorem trialBalanceOf_totals (coa : ChartOfAccounts) (balance : AccountId → AccountBalance C) :
    (trialBalanceOf coa balance).totalDebits = (coa.iter.map fun acc => (balance acc.id).debits).sum ∧
      (trialBalanceOf coa balance).totalCredits = (coa.iter.map fun acc => (balance acc.id).credits).sum := by
  obtain ⟨hd, hc⟩ := foldl_trialBalance balance coa.iter {}
  constructor
  · rw [trialBalanceOf, hd]
    exact zero_add _
  · rw [trialBalanceOf, hc]
    exact zero_add _

/-- What one account adds to the income statement. -/
theorem IncomeStatement.add_totals (is : IncomeStatement C) (acc : Account) (bal : AccountBalance C) :
    (is.add acc bal).totalRevenue = is.totalRevenue + (if acc.kind = .revenue then bal.signed acc.kind else 0) ∧
      (is.add acc bal).totalExpense =
        is.totalExpense + (if acc.kind = .expense then bal.signed acc.kind else 0) := by
  simp only [IncomeStatement.add]
  by_cases h0 : bal.signed acc.kind = 0
  · rw [if_pos h0, h0, ite_self, ite_self, ite_self, add_zero, add_zero]
    exact ⟨rfl, rfl⟩
  · rw [if_neg h0]
    cases acc.kind <;> simp [AccountType.isPermanent]

theorem foldl_incomeStatement (balance : AccountId → AccountBalance C) (accs : List Account)
    (is : IncomeStatement C) :
    (accs.foldl (fun is acc => is.add acc (balance acc.id)) is).totalRevenue =
        is.totalRevenue + ofKind accs balance .revenue ∧
      (accs.foldl (fun is acc => is.add acc (balance acc.id)) is).totalExpense =
        is.totalExpense + ofKind accs balance .expense := by
  induction accs generalizing is with
  | nil => simp [ofKind]
  | cons acc accs ih =>
    obtain ⟨hr, he⟩ := ih (is.add acc (balance acc.id))
    obtain ⟨hr', he'⟩ := is.add_totals acc (balance acc.id)
    rw [List.foldl_cons, hr, he, hr', he', ofKind_cons, ofKind_cons, add_assoc, add_assoc]
    exact ⟨rfl, rfl⟩

theorem netIncome_eq (coa : ChartOfAccounts) (balance : AccountId → AccountBalance C) :
    (incomeStatementOf coa balance).netIncome =
      ofKind coa.iter balance .revenue - ofKind coa.iter balance .expense := by
  obtain ⟨hr, he⟩ := foldl_incomeStatement balance coa.iter {}
  simp only [incomeStatementOf]
  rw [hr, he]
  show 0 + _ - (0 + _) = _
  rw [zero_add, zero_add]

/-- What one account adds to the balance sheet. -/
theorem BalanceSheet.add_totals (bs : BalanceSheet C) (acc : Account) (bal : AccountBalance C) :
    (bs.add acc bal).totalAssets = bs.totalAssets + (if acc.kind = .asset then bal.signed acc.kind else 0) ∧
      (bs.add acc bal).totalLiabilities =
        bs.totalLiabilities + (if acc.kind = .liability then bal.signed acc.kind else 0) ∧
      (bs.add acc bal).totalEquity = bs.totalEquity + (if acc.kind = .equity then bal.signed acc.kind else 0) ∧
      ((bs.add acc bal).equity.map (·.balance)).sum =
        (bs.equity.map (·.balance)).sum + (if acc.kind = .equity then bal.signed acc.kind else 0) := by
  simp only [BalanceSheet.add]
  cases acc.kind <;> simp

theorem foldl_balanceSheet (balance : AccountId → AccountBalance C) (accs : List Account) (bs : BalanceSheet C) :
    (accs.foldl (fun bs acc => bs.add acc (balance acc.id)) bs).totalAssets =
        bs.totalAssets + ofKind accs balance .asset ∧
      (accs.foldl (fun bs acc => bs.add acc (balance acc.id)) bs).totalLiabilities =
        bs.totalLiabilities + ofKind accs balance .liability ∧
      (accs.foldl (fun bs acc => bs.add acc (balance acc.id)) bs).totalEquity =
        bs.totalEquity + ofKind accs balance .equity ∧
      ((accs.foldl (fun bs acc => bs.add acc (balance acc.id)) bs).equity.map (·.balance)).sum =
        (bs.equity.map (·.balance)).sum + ofKind accs balance .equity := by
  induction accs generalizing bs with
  | nil => simp [ofKind]
  | cons acc accs ih =>
    obtain ⟨ha, hl, he, hs⟩ := ih (bs.add acc (balance acc.id))
    obtain ⟨ha', hl', he', hs'⟩ := bs.add_totals acc (balance acc.id)
    rw [List.foldl_cons, ha, hl, he, hs, ha', hl', he', hs']
    simp only [ofKind_cons, add_assoc, and_self]

theorem balanceSheet_totals (coa : ChartOfAccounts) (proj : JournalProjection C) (netIncome : Money C) :
    (balanceSheet coa proj netIncome).totalAssets = ofKind coa.iter proj.balance .asset ∧
      (balanceSheet coa proj netIncome).totalLiabilities = ofKind coa.iter proj.balance .liability ∧
      (balanceSheet coa proj netIncome).totalEquity = ofKind coa.iter proj.balance .equity + netIncome ∧
      ((balanceSheet coa proj netIncome).equity.map (·.balance)).sum = ofKind coa.iter proj.balance .equity := by
  obtain ⟨ha, hl, he, hs⟩ := foldl_balanceSheet proj.balance coa.iter ({} : BalanceSheet C)
  simp only [balanceSheet]
  rw [ha, hl, he, hs]
  refine ⟨zero_add _, zero_add _, ?_, ?_⟩
  · show 0 + _ + _ = _
    rw [zero_add]
  · exact zero_add _

/-- **The accounting equation.**  Assets, less liabilities, equity and net income, come to what the
accounts were debited less what they were credited: each kind counts on the side its normal
balance is on. -/
theorem equation (accs : List Account) (balance : AccountId → AccountBalance C) :
    ofKind accs balance .asset - ofKind accs balance .liability - ofKind accs balance .equity -
        (ofKind accs balance .revenue - ofKind accs balance .expense) =
      (accs.map fun acc => (balance acc.id).debits).sum - (accs.map fun acc => (balance acc.id).credits).sum := by
  induction accs with
  | nil => simp [ofKind]
  | cons acc accs ih =>
    simp only [ofKind_cons, List.map_cons, List.sum_cons]
    have hone : ∀ k : AccountType,
        (if k = .asset then (balance acc.id).signed k else 0) -
          (if k = .liability then (balance acc.id).signed k else 0) -
          (if k = .equity then (balance acc.id).signed k else 0) -
          ((if k = .revenue then (balance acc.id).signed k else 0) -
            (if k = .expense then (balance acc.id).signed k else 0)) =
        (balance acc.id).debits - (balance acc.id).credits := by
      intro k
      cases k <;> simp [AccountBalance.signed, AccountType.normalSide]
    linarith [hone acc.kind]

end TptErp.Gl
