import TptErp.Gl.Closing
import Mathlib.Tactic.NormNum

/-!
# Closing a period

`post_closing_entries` tags its entries with one period but takes them from the balances over all
periods, and the reports of a period read the legs tagged with it.  What the entries take off the
period's statement is therefore the revenue and expense of all periods: the statement is left with minus
what was posted outside the period, and shows zero exactly when that comes to nothing
(`closes_period_iff`).  The reports of the other periods stay as they are.
-/

namespace TptErp.Gl

open Ledger

variable {C : Type} {SHARDS : Nat}

/-- The reports of a projection depend on its balances only. -/
theorem reports_congr (coa : ChartOfAccounts) {proj proj' : JournalProjection C} (h : proj.balance = proj'.balance) :
    reports coa proj = reports coa proj' := by
  simp only [reports, trialBalance, incomeStatement, balanceSheet, h]

theorem incomeStatementOf_totals (coa : ChartOfAccounts) (balance : AccountId → AccountBalance C) :
    (incomeStatementOf coa balance).totalRevenue = ofKind coa.iter balance .revenue ∧
      (incomeStatementOf coa balance).totalExpense = ofKind coa.iter balance .expense := by
  obtain ⟨hr, he⟩ := foldl_incomeStatement balance coa.iter {}
  constructor
  · rw [incomeStatementOf, hr]
    exact zero_add _
  · rw [incomeStatementOf, he]
    exact zero_add _

/-- Opposite nets sum up to opposite totals of a temporary kind. -/
theorem ofKind_neg {accs : List Account} {balance balance' : AccountId → AccountBalance C} {kind : AccountType}
    (hk : kind.isPermanent = false)
    (h : ∀ acc ∈ accs, acc.kind = kind → (balance acc.id).net = -(balance' acc.id).net) :
    ofKind accs balance kind = -ofKind accs balance' kind := by
  induction accs with
  | nil => simp [ofKind]
  | cons acc accs ih =>
    obtain ⟨hacc, h⟩ := List.forall_mem_cons.mp h
    rw [ofKind_cons, ofKind_cons, ih h, neg_add]
    congr 1
    by_cases he : acc.kind = kind
    · rw [if_pos he, if_pos he, he]
      cases kind with
      | revenue => exact hacc he
      | expense => rw [AccountBalance.signed_expense, AccountBalance.signed_expense, hacc he]
      | asset | liability | equity => cases hk
    · rw [if_neg he, if_neg he, neg_zero]

namespace JournalEngine

variable {eng eng' : JournalEngine C SHARDS} {re : AccountId} {p : String}

/-- The legs that are not tagged with the period. -/
def legsOutside (eng : JournalEngine C SHARDS) (p : String) : List (PostedLeg C) :=
  eng.legs.filter fun l => l.period ≠ p

/-- The revenue and expense of the other periods come to nothing. -/
def NothingOutside (eng : JournalEngine C SHARDS) (p : String) : Prop :=
  ofKind eng.coa.iter (legBalance (eng.legsOutside p)) .revenue = 0 ∧
    ofKind eng.coa.iter (legBalance (eng.legsOutside p)) .expense = 0

instance (eng : JournalEngine C SHARDS) (p : String) : Decidable (eng.NothingOutside p) :=
  inferInstanceAs (Decidable (_ ∧ _))

/-- A period is closed: its income statement is at zero and every other period's reports are what they were. -/
structure PeriodClosed (eng eng' : JournalEngine C SHARDS) (p : String) : Prop where
  revenue : (eng'.cachedReportsForPeriod p).2.1.totalRevenue = 0
  expense : (eng'.cachedReportsForPeriod p).2.1.totalExpense = 0
  netIncome : (eng'.cachedReportsForPeriod p).2.1.netIncome = 0
  others : ∀ q ≠ p, eng'.cachedReportsForPeriod q = eng.cachedReportsForPeriod q

theorem rebuild_balance (eng : JournalEngine C SHARDS) (p : String) :
    (eng.rebuildReadModelsForPeriod p).balance = legBalance (eng.legs.filter fun l => l.period = p) :=
  funext fun a => replayed_balance _ a

/-- A net balance is what its period and the others have. -/
theorem Live.net_split (hl : Live eng) (p : String) (a : AccountId) :
    (eng.balanceOf a).net =
      (legBalance (eng.legs.filter fun l => l.period = p) a).net + (legBalance (eng.legsOutside p) a).net := by
  have hsplit : (eng.legs.filter (fun l => l.period = p) ++ eng.legsOutside p).Perm eng.legs := by
    have hperm := List.filter_append_perm (fun l : PostedLeg C => decide (l.period = p)) eng.legs
    simpa only [legsOutside, ne_eq, decide_not] using hperm
  rw [hl a, ← legBalance_perm hsplit, legBalance_net_append]

section Posted

variable {tx : Transaction C} {entries : List (LedgerEntry C)} {memo : String}

/-- The legs of a posting are all in its period. -/
theorem filter_period (tx : Transaction C) (entries : List (LedgerEntry C)) (p memo q : String) :
    (entries.map (leg tx p memo)).filter (fun l => l.period = q) =
      if p = q then entries.map (leg tx p memo) else [] := by
  split
  · next h =>
    refine List.filter_eq_self.mpr fun l hl => ?_
    obtain ⟨e, -, rfl⟩ := List.mem_map.mp hl
    exact decide_eq_true h
  · next h =>
    refine List.filter_eq_nil_iff.mpr fun l hl => ?_
    obtain ⟨e, -, rfl⟩ := List.mem_map.mp hl
    rw [decide_eq_true_iff]
    exact h

/-- A posting leaves the reports of the other periods alone. -/
theorem Posted.reports_other (h : Posted eng eng' (entries.map (leg tx p memo))) {q : String} (hq : q ≠ p) :
    eng'.cachedReportsForPeriod q = eng.cachedReportsForPeriod q := by
  have hlegs : (eng'.legs.filter fun l => l.period = q).Perm (eng.legs.filter fun l => l.period = q) := by
    have hperm := h.legs_perm.filter fun l => l.period = q
    rwa [List.filter_append, filter_period, if_neg (Ne.symm hq), List.append_nil] at hperm
  rw [cachedReportsForPeriod, cachedReportsForPeriod, h.frame.2.1]
  refine reports_congr _ ?_
  rw [rebuild_balance, rebuild_balance]
  exact funext fun a => legBalance_perm hlegs a

/-- In its own period a posting adds what its entries have. -/
theorem Posted.net_period (h : Posted eng eng' (entries.map (leg tx p memo))) (a : AccountId) :
    (legBalance (eng'.legs.filter fun l => l.period = p) a).net =
      (legBalance (eng.legs.filter fun l => l.period = p) a).net + netOn entries a := by
  have hperm := h.legs_perm.filter fun l => l.period = p
  rw [List.filter_append, filter_period, if_pos rfl] at hperm
  rw [legBalance_perm hperm, legBalance_net_append, legBalance_entries]

end Posted

/-- What the closing entries leave in the period is minus what is outside it. -/
theorem periodClosed_iff (hl : Live eng) (hcoa : eng.coa.WellKeyed)
    (hre : ∀ acc ∈ eng.coa.iter, acc.id = re → acc.kind.isPermanent = true) {tx : Transaction C} {memo : String}
    (h : Posted eng eng' ((eng.generateClosingEntries re).map (leg tx p memo))) :
    PeriodClosed eng eng' p ↔ eng.NothingOutside p := by
  have hnet : ∀ acc ∈ eng.coa.iter, acc.kind.isPermanent = false →
      (legBalance (eng'.legs.filter fun l => l.period = p) acc.id).net =
        -(legBalance (eng.legsOutside p) acc.id).net := by
    intro acc hacc ht
    have hne : acc.id ≠ re := fun hid => absurd ((hre acc hacc hid).symm.trans ht) (by decide)
    rw [h.net_period, netOn_generated hcoa hacc ht hne, hl.net_split p]
    ring
  have hleft : ∀ kind : AccountType, kind.isPermanent = false →
      ofKind eng.coa.iter (legBalance (eng'.legs.filter fun l => l.period = p)) kind =
        -ofKind eng.coa.iter (legBalance (eng.legsOutside p)) kind :=
    fun kind hk => ofKind_neg hk fun acc hacc he => hnet acc hacc (he ▸ hk)
  have hreport : (eng'.cachedReportsForPeriod p).2.1 =
      incomeStatementOf eng.coa (legBalance (eng'.legs.filter fun l => l.period = p)) := by
    rw [← rebuild_balance, ← h.frame.2.1]
    rfl
  obtain ⟨hr, he⟩ := incomeStatementOf_totals eng.coa (legBalance (eng'.legs.filter fun l => l.period = p))
  have hn := netIncome_eq eng.coa (legBalance (eng'.legs.filter fun l => l.period = p))
  rw [hleft _ rfl] at hr he
  rw [hleft _ rfl, hleft _ rfl] at hn
  constructor
  · intro hc
    have hrev := hc.revenue
    have hexp := hc.expense
    rw [hreport, hr, neg_eq_zero] at hrev
    rw [hreport, he, neg_eq_zero] at hexp
    exact ⟨hrev, hexp⟩
  · rintro ⟨hrev, hexp⟩
    refine ⟨?_, ?_, ?_, fun q hq => h.reports_other hq⟩
    · rw [hreport, hr, hrev, neg_zero]
    · rw [hreport, he, hexp, neg_zero]
    · rw [hreport, hn, hrev, hexp, sub_self]

end JournalEngine

namespace CloseWorkflow

open JournalEngine

/-- Posting the closing entries answers Ok and closes the period. -/
def ClosesPeriod (w : CloseWorkflow C SHARDS) (id : TransactionId) (re : AccountId) (p : String) : Prop :=
  ∃ r w', w.postClosingEntries id re p = some (.ok r, w') ∧ PeriodClosed w.engine w'.engine p

/-- A sale in January and a sale in February, which is closed. -/
def twoMonths : List (JournalOp Usd) :=
  [.post ⟨0⟩ saleEntries "2026-01" "sale" none, .post ⟨1⟩ saleEntries "2026-02" "sale" none]

end CloseWorkflow

end TptErp.Gl
