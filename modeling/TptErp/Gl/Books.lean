import TptErp.Gl.Reporting
import TptErp.Lib.GroupBy
import TptErp.Lib.Run

/-!
# The books balance

Runs of postings on accounts of the chart.  The invariant `Booked` is about the posted legs: the
live balances are their sums, their accounts are on the chart, and for any choice of periods the
debits equal the credits, since a posting has all its legs in one period.  Everything the reports
show is a sum over the same legs (`books_balance`).
-/

namespace TptErp.Gl

open Ledger

variable {C : Type} {SHARDS : Nat}

/-! ## Sums over legs -/

/-- The legs' amounts on one side. -/
def sideTotal (legs : List (PostedLeg C)) (side : EntrySide) : Money C :=
  ((legs.filter fun l => l.side = side).map (·.amount)).sum

/-- What legs add to the balance of an account. -/
def legBalance (legs : List (PostedLeg C)) (a : AccountId) : AccountBalance C :=
  { debits := sideTotal (legs.filter fun l => l.account = a) .debit
    credits := sideTotal (legs.filter fun l => l.account = a) .credit }

theorem sideTotal_perm {l₁ l₂ : List (PostedLeg C)} (h : l₁.Perm l₂) (side : EntrySide) :
    sideTotal l₁ side = sideTotal l₂ side :=
  ((h.filter _).map _).sum_eq

theorem sideTotal_append (l₁ l₂ : List (PostedLeg C)) (side : EntrySide) :
    sideTotal (l₁ ++ l₂) side = sideTotal l₁ side + sideTotal l₂ side := by
  simp [sideTotal]

theorem legBalance_perm {l₁ l₂ : List (PostedLeg C)} (h : l₁.Perm l₂) (a : AccountId) :
    legBalance l₁ a = legBalance l₂ a := by
  ext
  · exact sideTotal_perm (h.filter _) _
  · exact sideTotal_perm (h.filter _) _

theorem filter_account_side (legs : List (PostedLeg C)) (a : AccountId) (side : EntrySide) :
    ((legs.filter fun l => l.account = a ∧ l.side = side).map (·.amount)).sum =
      sideTotal (legs.filter fun l => l.account = a) side := by
  unfold sideTotal
  rw [List.filter_filter]
  congr 2
  apply List.filter_congr
  intro l _
  rw [Bool.decide_and, Bool.and_comm]

/-- Grouped by a key that covers them, the legs have the same total. -/
theorem sideTotal_groups {κ : Type} [DecidableEq κ] (key : PostedLeg C → κ) {keys : List κ} (hk : keys.Nodup)
    {legs : List (PostedLeg C)} (hc : ∀ l ∈ legs, key l ∈ keys) (side : EntrySide) :
    (keys.map fun k => sideTotal (legs.filter fun l => key l = k) side).sum = sideTotal legs side := by
  have hside : ∀ l ∈ legs.filter (fun l => l.side = side), key l ∈ keys :=
    fun l hl => hc l (List.mem_filter.mp hl).1
  have hs := GroupBy.sum_groups key (fun l : PostedLeg C => l.amount) hk hside
  rw [show sideTotal legs side = ((legs.filter fun l => l.side = side).map (·.amount)).sum from rfl, ← hs]
  congr 1
  apply List.map_congr_left
  intro k _
  unfold sideTotal
  rw [List.filter_filter, List.filter_filter]
  congr 2
  apply List.filter_congr
  intro l _
  exact Bool.and_comm ..

/-- The replay adds up the legs of each account. -/
theorem foldl_apply (legs : List (PostedLeg C)) (proj : JournalProjection C) (a : AccountId) :
    (legs.foldl JournalProjection.apply proj).balance a =
      { debits := (proj.balance a).debits + (legBalance legs a).debits
        credits := (proj.balance a).credits + (legBalance legs a).credits } := by
  induction legs generalizing proj with
  | nil => simp [legBalance, sideTotal]
  | cons l legs ih =>
    rw [List.foldl_cons, ih]
    have hb : (proj.apply l).balance a =
        if a = l.account then (proj.balance a).post l.side l.amount else proj.balance a := by
      simp only [JournalProjection.apply, JournalProjection.balance, AssocMap.getD, AssocMap.lookup_insert_eq]
      by_cases ha : a = l.account
      · rw [if_pos ha, if_pos ha, ha]
        rfl
      · rw [if_neg ha, if_neg ha]
    rw [hb]
    by_cases ha : a = l.account
    · rw [if_pos ha]
      cases hs : l.side
      · ext <;> simp [AccountBalance.post, legBalance, sideTotal, ha, hs, add_assoc]
      · ext <;> simp [AccountBalance.post, legBalance, sideTotal, ha, hs, add_assoc]
    · rw [if_neg ha]
      simp [legBalance, Ne.symm ha]

theorem replayed_balance (legs : List (PostedLeg C)) (a : AccountId) :
    (legs.foldl JournalProjection.apply {}).balance a = legBalance legs a := by
  rw [foldl_apply]
  show ({ debits := 0 + _, credits := 0 + _ } : AccountBalance C) = _
  rw [zero_add, zero_add]

/-! ## The chart -/

/-- A chart with these accounts registered. -/
def chart (accounts : List Account) : ChartOfAccounts := accounts.foldl ChartOfAccounts.add .new

/-- Each account is listed under its id. -/
def ChartOfAccounts.WellKeyed (coa : ChartOfAccounts) : Prop :=
  ∀ id account, coa.get id = some account → account.id = id

theorem wellKeyed_chart (accounts : List Account) : (chart accounts).WellKeyed := by
  have hadd : ∀ (accounts : List Account) (coa : ChartOfAccounts), coa.WellKeyed →
      (accounts.foldl ChartOfAccounts.add coa).WellKeyed := by
    intro accounts
    induction accounts with
    | nil => exact fun coa h => h
    | cons account accounts ih =>
      intro coa h
      apply ih
      intro id acc hg
      rw [ChartOfAccounts.get_add] at hg
      split at hg
      · next hid =>
        cases hg
        exact hid.symm
      · exact h id acc hg
  apply hadd
  intro id acc hg
  cases hg

theorem ids_eq_keys {coa : ChartOfAccounts} (h : coa.WellKeyed) :
    coa.iter.map (·.id) = coa.accounts.keys := by
  show (coa.accounts.entries.map (·.2)).map (·.id) = coa.accounts.entries.map Sigma.fst
  rw [List.map_map]
  apply List.map_congr_left
  intro e he
  exact h e.1 e.2 (AList.mem_lookup_iff.mpr he)

theorem nodup_ids {coa : ChartOfAccounts} (h : coa.WellKeyed) : (coa.iter.map (·.id)).Nodup := by
  rw [ids_eq_keys h]
  exact AList.keys_nodup _

theorem mem_ids {coa : ChartOfAccounts} (h : coa.WellKeyed) {a : AccountId} (ha : (coa.get a).isSome) :
    a ∈ coa.iter.map (·.id) := by
  rw [ids_eq_keys h]
  exact AList.lookup_isSome.mp ha

/-! ## Runs -/

/-- A posting, by either of the unguarded entry points, or a change of a period's status. -/
inductive PostOp (C : Type)
  | post (id : TransactionId) (entries : List (LedgerEntry C)) (period memo : String)
  | setPeriodStatus (period : String) (status : PeriodStatus)

/-- The entries are on accounts of the chart. -/
def PostOp.OnChart (coa : ChartOfAccounts) : PostOp C → Prop
  | .post _ entries _ _ => ∀ e ∈ entries, (coa.get e.account).isSome
  | .setPeriodStatus _ _ => True

/-- The engine after a call (`none`: a posting that never returns). -/
def PostOp.step (eng : JournalEngine C SHARDS) : PostOp C → Option (JournalEngine C SHARDS)
  | .post id entries period memo => (eng.postTransaction id entries period memo).map (·.2)
  | .setPeriodStatus period status => some (eng.setPeriodStatus period status)

namespace JournalEngine

/-- A posting leaves the engine alone, or is valid and posts every leg. -/
theorem postTransaction_engine {eng eng' : JournalEngine C SHARDS} {id : TransactionId}
    {entries : List (LedgerEntry C)} {period memo : String}
    (h : (eng.postTransaction id entries period memo).map (·.2) = some eng') :
    eng' = eng ∨ (⟨id, entries⟩ : Transaction C).validate = .ok () ∧
      Posted eng eng' (entries.map (leg ⟨id, entries⟩ period memo)) := by
  cases hv : (⟨id, entries⟩ : Transaction C).validate with
  | error e =>
    left
    simp only [postTransaction, post, hv, Option.map_some, Option.some.injEq] at h
    exact h.symm
  | ok u =>
    rcases eng.postTransaction_cases id entries period memo hv with ⟨-, hp⟩ | ⟨-, -, hp⟩ | ⟨-, -, mid, hp, hposted⟩
    · rw [hp] at h
      cases h
    · rw [hp] at h
      cases h
      exact Or.inl rfl
    · rw [hp] at h
      cases h
      exact Or.inr ⟨rfl, hposted⟩

/-- The new legs join the ones posted before. -/
theorem Posted.legs_perm {eng eng' : JournalEngine C SHARDS} {ls : List (PostedLeg C)} (h : Posted eng eng' ls) :
    eng'.legs.Perm (eng.legs ++ ls) := by
  have hl : eng'.legs = (List.finRange SHARDS).flatMap fun i =>
      ((eng.shards i).store.log.map (·.payload)) ++ ls.filter fun l => eng.shardIndex l.account = i := by
    unfold legs
    congr 1
    funext i
    exact h.log i
  rw [hl]
  refine (List.flatMap_append_perm _ _ _).symm.trans (List.Perm.append_left _ ?_)
  exact GroupBy.groups_perm _ (List.nodup_finRange SHARDS) fun l _ => List.mem_finRange _

/-! ## The invariant -/

/-- The balances are the sums of the legs, which are on the chart and balance in any periods. -/
structure Booked (eng : JournalEngine C SHARDS) : Prop where
  live : ∀ a, eng.balanceOf a = legBalance eng.legs a
  onChart : ∀ l ∈ eng.legs, (eng.coa.get l.account).isSome
  balanced : ∀ chosen : String → Bool,
    sideTotal (eng.legs.filter fun l => chosen l.period) .debit =
      sideTotal (eng.legs.filter fun l => chosen l.period) .credit

theorem legs_new (shardIndex : AccountId → Fin SHARDS) (coa : ChartOfAccounts) (cache : Bool) :
    (new shardIndex coa cache : JournalEngine C SHARDS).legs = [] :=
  List.flatMap_eq_nil_iff.mpr fun _ _ => rfl

theorem booked_new (shardIndex : AccountId → Fin SHARDS) (coa : ChartOfAccounts) (cache : Bool) :
    Booked (new shardIndex coa cache : JournalEngine C SHARDS) := by
  refine ⟨fun a => ?_, fun l hl => ?_, fun chosen => ?_⟩
  · rw [legs_new]
    rfl
  · rw [legs_new] at hl
    cases hl
  · rw [legs_new]
    rfl

/-- The legs of a valid transaction balance. -/
theorem sideTotal_entries {id : TransactionId} {entries : List (LedgerEntry C)} (period memo : String)
    (hv : (⟨id, entries⟩ : Transaction C).validate = .ok ()) :
    sideTotal (entries.map (leg ⟨id, entries⟩ period memo)) .debit =
      sideTotal (entries.map (leg ⟨id, entries⟩ period memo)) .credit := by
  have hside : ∀ side, sideTotal (entries.map (leg ⟨id, entries⟩ period memo)) side =
      (⟨id, entries⟩ : Transaction C).total side := by
    intro side
    rw [Transaction.total_eq_sum, sideTotal, List.filter_map, List.map_map]
    rfl
  rw [hside, hside]
  exact ((Transaction.validate_ok_iff _).mp hv).2

/-- The running balances are those of the posted legs. -/
def Live (eng : JournalEngine C SHARDS) : Prop := ∀ a, eng.balanceOf a = legBalance eng.legs a

theorem Live.posted {ls : List (PostedLeg C)} (hl : Live eng) (h : Posted eng eng' ls) : Live eng' := by
  intro a
  rw [legBalance_perm h.legs_perm]
  ext
  · rw [h.debits a, filter_account_side, hl a]
    simp only [legBalance, List.filter_append, sideTotal_append]
  · rw [h.credits a, filter_account_side, hl a]
    simp only [legBalance, List.filter_append, sideTotal_append]

theorem booked_posted {eng eng' : JournalEngine C SHARDS} (h : Booked eng) {id : TransactionId}
    {entries : List (LedgerEntry C)} {period memo : String} (hc : ∀ e ∈ entries, (eng.coa.get e.account).isSome)
    (hv : (⟨id, entries⟩ : Transaction C).validate = .ok ())
    (hp : Posted eng eng' (entries.map (leg ⟨id, entries⟩ period memo))) : Booked eng' := by
  have hperm := hp.legs_perm
  refine ⟨Live.posted h.live hp, fun l hl => ?_, fun chosen => ?_⟩
  · rw [hp.frame.2.1]
    rcases List.mem_append.mp (hperm.subset hl) with hl | hl
    · exact h.onChart l hl
    · obtain ⟨e, he, rfl⟩ := List.mem_map.mp hl
      exact hc e he
  · have hsplit : ∀ side, sideTotal (eng'.legs.filter fun l => chosen l.period) side =
        sideTotal (eng.legs.filter fun l => chosen l.period) side +
          sideTotal ((entries.map (leg ⟨id, entries⟩ period memo)).filter fun l => chosen l.period) side := by
      intro side
      rw [sideTotal_perm (hperm.filter _), List.filter_append, sideTotal_append]
    rw [hsplit, hsplit, h.balanced chosen]
    congr 1
    -- the posting's legs are all in its period: all of them are chosen, or none
    cases hchosen : chosen period with
    | true =>
      have hall : (entries.map (leg ⟨id, entries⟩ period memo)).filter (fun l => chosen l.period) =
          entries.map (leg ⟨id, entries⟩ period memo) := by
        rw [List.filter_eq_self]
        intro l hl
        obtain ⟨e, -, rfl⟩ := List.mem_map.mp hl
        exact hchosen
      rw [hall]
      exact sideTotal_entries period memo hv
    | false =>
      have hnone : (entries.map (leg ⟨id, entries⟩ period memo)).filter (fun l => chosen l.period) = [] := by
        rw [List.filter_eq_nil_iff]
        intro l hl
        obtain ⟨e, -, rfl⟩ := List.mem_map.mp hl
        show ¬ chosen period = true
        rw [hchosen]
        decide
      rw [hnone]
      rfl

/-- Whatever a run has posted, the books are kept, and the chart is the same. -/
theorem booked_run {coa : ChartOfAccounts} {ops : List (PostOp C)} (hops : ∀ op ∈ ops, op.OnChart coa)
    {eng eng' : JournalEngine C SHARDS} (hcoa : eng.coa = coa) (h : Booked eng)
    (hrun : LabelledRun.exec PostOp.step eng ops = some eng') : Booked eng' ∧ eng'.coa = coa := by
  induction ops generalizing eng with
  | nil =>
    cases hrun
    exact ⟨h, hcoa⟩
  | cons op ops ih =>
    simp only [LabelledRun.exec, Option.bind_eq_some_iff] at hrun
    obtain ⟨mid, hstep, hrun⟩ := hrun
    have hon := hops op List.mem_cons_self
    have hmid : Booked mid ∧ mid.coa = coa := by
      cases op with
      | setPeriodStatus period status =>
        cases hstep
        exact ⟨⟨h.live, h.onChart, h.balanced⟩, hcoa⟩
      | post id entries period memo =>
        rcases postTransaction_engine hstep with rfl | ⟨hv, hp⟩
        · exact ⟨h, hcoa⟩
        · exact ⟨booked_posted h (by rwa [hcoa]) hv hp, hp.frame.2.1.trans hcoa⟩
    exact ih (fun op hop => hops op (List.mem_cons_of_mem _ hop)) hmid.2 hmid.1 hrun

/-! ## The reports -/

/-- The periods that have legs. -/
def periodsPosted (eng : JournalEngine C SHARDS) : List String := (eng.legs.map (·.period)).dedup

theorem mem_periodsPosted {eng : JournalEngine C SHARDS} {l : PostedLeg C} (hl : l ∈ eng.legs) :
    l.period ∈ eng.periodsPosted :=
  List.mem_dedup.mpr (List.mem_map_of_mem hl)

end JournalEngine

/-- Over a chart that has all their accounts, the balances of legs add up to the legs' totals. -/
theorem sum_legBalance {coa : ChartOfAccounts} (hcoa : coa.WellKeyed) {legs : List (PostedLeg C)}
    (hl : ∀ l ∈ legs, (coa.get l.account).isSome) :
    (coa.iter.map fun acc => (legBalance legs acc.id).debits).sum = sideTotal legs .debit ∧
      (coa.iter.map fun acc => (legBalance legs acc.id).credits).sum = sideTotal legs .credit := by
  have hg := sideTotal_groups (fun l : PostedLeg C => l.account) (nodup_ids hcoa) fun l h => mem_ids hcoa (hl l h)
  simp only [List.map_map] at hg
  exact ⟨hg .debit, hg .credit⟩

/-- The reports of legs that are on the chart and balance. -/
theorem reports_balanced {coa : ChartOfAccounts} (hcoa : coa.WellKeyed) {legs : List (PostedLeg C)}
    (hl : ∀ l ∈ legs, (coa.get l.account).isSome) (hb : sideTotal legs .debit = sideTotal legs .credit) :
    let proj : JournalProjection C := legs.foldl JournalProjection.apply {}
    let income := incomeStatement coa proj
    let sheet := balanceSheet coa proj income.netIncome
    (trialBalance coa proj).isBalanced = true ∧ sheet.isBalanced = true ∧
      sheet.totalAssets = sheet.totalLiabilities + (sheet.equity.map (·.balance)).sum + income.netIncome := by
  intro proj income sheet
  have hproj : proj.balance = legBalance legs := funext fun a => replayed_balance legs a
  obtain ⟨hd, hc⟩ := sum_legBalance hcoa hl
  obtain ⟨htd, htc⟩ := trialBalanceOf_totals coa proj.balance
  obtain ⟨ha, hli, he, hs⟩ := balanceSheet_totals coa proj income.netIncome
  have hn : income.netIncome = ofKind coa.iter proj.balance .revenue - ofKind coa.iter proj.balance .expense :=
    netIncome_eq coa proj.balance
  have heq := equation coa.iter proj.balance
  rw [hproj, hd, hc, hb, sub_self, ← hproj, ← hn] at heq
  refine ⟨?_, ?_, ?_⟩
  · rw [TrialBalance.isBalanced, trialBalance, htd, htc, hproj, hd, hc]
    exact decide_eq_true hb
  · rw [BalanceSheet.isBalanced, ha, hli, he]
    exact decide_eq_true (by linarith)
  · rw [ha, hli, hs]
    linarith

/-- What the reports of an engine show: the replay gives the live balances, the trial balance and
the balance sheet balance, over all periods and in each one, the periods add up, and the reports
read from the live balances are the replayed ones. -/
structure BooksBalance (eng : JournalEngine C SHARDS) : Prop where
  replayed : ∀ a, eng.rebuildReadModels.balance a = eng.balanceOf a
  trialBalance : (trialBalance eng.coa eng.rebuildReadModels).isBalanced = true
  balanceSheet :
    let income := incomeStatement eng.coa eng.rebuildReadModels
    let sheet := balanceSheet eng.coa eng.rebuildReadModels income.netIncome
    sheet.isBalanced = true ∧
      sheet.totalAssets = sheet.totalLiabilities + (sheet.equity.map (·.balance)).sum + income.netIncome
  period : ∀ period, (eng.cachedReportsForPeriod period).1.isBalanced = true ∧
    (eng.cachedReportsForPeriod period).2.2.isBalanced = true
  periods : ∀ a,
    (eng.periodsPosted.map fun p => ((eng.rebuildReadModelsForPeriod p).balance a).debits).sum =
        (eng.rebuildReadModels.balance a).debits ∧
      (eng.periodsPosted.map fun p => ((eng.rebuildReadModelsForPeriod p).balance a).credits).sum =
        (eng.rebuildReadModels.balance a).credits
  live : (eng.trialBalanceNow, eng.incomeStatementNow, eng.balanceSheetNow) = eng.cachedReports

namespace JournalEngine

/-- The projection of the live balances has them for every account of the chart. -/
theorem liveProjection_balance (eng : JournalEngine C SHARDS) {acc : Account} (h : acc ∈ eng.coa.iter) :
    eng.liveProjection.balance acc.id = eng.balanceOf acc.id := by
  have hfold : ∀ (accs : List Account) (m : AssocMap AccountId (AccountBalance C)),
      acc ∈ accs ∨ m.lookup acc.id = some (eng.balanceOf acc.id) →
      (accs.foldl (fun m acc => m.insert acc.id (eng.balanceOf acc.id)) m).lookup acc.id =
        some (eng.balanceOf acc.id) := by
    intro accs
    induction accs with
    | nil =>
      rintro m (hm | hm)
      · cases hm
      · exact hm
    | cons a accs ih =>
      rintro m hm
      apply ih
      rw [AssocMap.lookup_insert_eq]
      by_cases ha : acc.id = a.id
      · right
        rw [if_pos ha, ha]
      · rw [if_neg ha]
        rcases hm with hm | hm
        · rcases List.mem_cons.mp hm with rfl | hm
          · exact absurd rfl ha
          · exact Or.inl hm
        · exact Or.inr hm
  have hl := hfold eng.coa.iter ∅ (Or.inl h)
  rw [JournalProjection.balance, AssocMap.getD, liveProjection, hl]
  rfl

theorem foldl_balanceSheet_congr {balance balance' : AccountId → AccountBalance C} (accs : List Account)
    (h : ∀ acc ∈ accs, balance acc.id = balance' acc.id) (bs : BalanceSheet C) :
    accs.foldl (fun bs acc => bs.add acc (balance acc.id)) bs =
      accs.foldl (fun bs acc => bs.add acc (balance' acc.id)) bs := by
  induction accs generalizing bs with
  | nil => rfl
  | cons acc accs ih =>
    rw [List.foldl_cons, List.foldl_cons, h acc List.mem_cons_self]
    exact ih (fun acc hacc => h acc (List.mem_cons_of_mem _ hacc)) _

/-- The balance sheet reads the balances of the chart's accounts only. -/
theorem balanceSheet_congr {coa : ChartOfAccounts} {proj proj' : JournalProjection C}
    (h : ∀ acc ∈ coa.iter, proj.balance acc.id = proj'.balance acc.id) (netIncome : Money C) :
    balanceSheet coa proj netIncome = balanceSheet coa proj' netIncome := by
  unfold balanceSheet
  rw [foldl_balanceSheet_congr coa.iter h]

theorem live_reports {eng : JournalEngine C SHARDS}
    (h : ∀ a, eng.rebuildReadModels.balance a = eng.balanceOf a) :
    (eng.trialBalanceNow, eng.incomeStatementNow, eng.balanceSheetNow) = eng.cachedReports := by
  have hb : eng.rebuildReadModels.balance = eng.balanceOf := funext h
  have ht : eng.trialBalanceNow = trialBalance eng.coa eng.rebuildReadModels := by
    rw [trialBalanceNow, trialBalance, hb]
  have hi : eng.incomeStatementNow = incomeStatement eng.coa eng.rebuildReadModels := by
    rw [incomeStatementNow, incomeStatement, hb]
  have hs : eng.balanceSheetNow =
      balanceSheet eng.coa eng.rebuildReadModels (incomeStatement eng.coa eng.rebuildReadModels).netIncome := by
    rw [balanceSheetNow, hi]
    apply balanceSheet_congr
    intro acc hacc
    rw [eng.liveProjection_balance hacc, h]
  rw [ht, hi, hs]
  rfl

/-- The periods posted to share out an account's balance. -/
theorem sum_periods {eng : JournalEngine C SHARDS} (a : AccountId) (side : EntrySide) :
    (eng.periodsPosted.map fun p =>
      sideTotal ((eng.legs.filter fun l => l.period = p).filter fun l => l.account = a) side).sum =
      sideTotal (eng.legs.filter fun l => l.account = a) side := by
  have hposted : ∀ l ∈ eng.legs.filter (fun l => l.account = a), l.period ∈ eng.periodsPosted :=
    fun l hl => mem_periodsPosted (List.mem_filter.mp hl).1
  rw [← sideTotal_groups (fun l : PostedLeg C => l.period) (List.nodup_dedup _) hposted]
  congr 1
  apply List.map_congr_left
  intro p _
  rw [List.filter_filter, List.filter_filter]
  congr 1
  apply List.filter_congr
  intro l _
  exact Bool.and_comm ..

/-- **The books always balance**, after any run of postings on accounts of the chart. -/
theorem books_balance (shardIndex : AccountId → Fin SHARDS) (accounts : List Account) (cache : Bool)
    (ops : List (PostOp C)) (hops : ∀ op ∈ ops, op.OnChart (chart accounts)) (eng : JournalEngine C SHARDS)
    (hrun : LabelledRun.exec PostOp.step (new shardIndex (chart accounts) cache) ops = some eng) :
    BooksBalance eng := by
  obtain ⟨hbooked, hcoa⟩ := booked_run hops rfl (booked_new shardIndex (chart accounts) cache) hrun
  have hwell : eng.coa.WellKeyed := by
    rw [hcoa]
    exact wellKeyed_chart accounts
  have hreplayed : ∀ a, eng.rebuildReadModels.balance a = eng.balanceOf a := by
    intro a
    rw [hbooked.live a]
    exact replayed_balance eng.legs a
  have hall := hbooked.balanced fun _ => true
  rw [List.filter_true] at hall
  have hfull := reports_balanced hwell hbooked.onChart hall
  refine ⟨hreplayed, hfull.1, hfull.2, fun p => ?_, fun a => ?_, live_reports hreplayed⟩
  · have hon : ∀ l ∈ eng.legs.filter (fun l => l.period = p), (eng.coa.get l.account).isSome :=
      fun l hl => hbooked.onChart l (List.mem_filter.mp hl).1
    have hp := reports_balanced hwell hon (hbooked.balanced fun q => q = p)
    exact ⟨hp.1, hp.2.1⟩
  · have hb : ∀ p, (eng.rebuildReadModelsForPeriod p).balance a =
        legBalance (eng.legs.filter fun l => l.period = p) a := fun p => replayed_balance _ a
    have hf : eng.rebuildReadModels.balance a = legBalance eng.legs a := replayed_balance _ a
    simp only [hb, hf]
    exact ⟨sum_periods a .debit, sum_periods a .credit⟩

/-- Cash, sales and rent. -/
def shopAccounts : List Account :=
  [⟨⟨1⟩, "1000", "Cash", .asset⟩, ⟨⟨2⟩, "4000", "Sales", .revenue⟩, ⟨⟨3⟩, "5000", "Rent", .expense⟩]

def saleEntries : List (LedgerEntry Usd) := [⟨⟨1⟩, .debit, 100⟩, ⟨⟨2⟩, .credit, 100⟩]

def rentEntries : List (LedgerEntry Usd) := [⟨⟨3⟩, .debit, 40⟩, ⟨⟨1⟩, .credit, 40⟩]

/-- A sale in January, after whose close rent is paid in February. -/
def shopRun : List (PostOp Usd) :=
  [.post ⟨0⟩ saleEntries "2026-01" "sale", .setPeriodStatus "2026-01" .closed,
    .post ⟨1⟩ rentEntries "2026-02" "rent"]

theorem shop_books : ∃ eng : JournalEngine Usd 64,
    LabelledRun.exec PostOp.step (new (fun a => mod64 a.uuid) (chart shopAccounts) false) shopRun = some eng ∧
      BooksBalance eng := by
  obtain ⟨eng, hrun⟩ : ∃ eng : JournalEngine Usd 64,
      LabelledRun.exec PostOp.step (new (fun a => mod64 a.uuid) (chart shopAccounts) false) shopRun = some eng :=
    Option.isSome_iff_exists.mp (by decide +kernel)
  have hsale : ∀ e ∈ saleEntries, ((chart shopAccounts).get e.account).isSome := by decide
  have hrent : ∀ e ∈ rentEntries, ((chart shopAccounts).get e.account).isSome := by decide
  have hops : ∀ op ∈ shopRun, op.OnChart (chart shopAccounts) := by
    simp only [shopRun, List.forall_mem_cons]
    exact ⟨hsale, trivial, hrent, List.forall_mem_nil _⟩
  exact ⟨eng, hrun, books_balance _ shopAccounts false shopRun hops eng hrun⟩

end JournalEngine

end TptErp.Gl
