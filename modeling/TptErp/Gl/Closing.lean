import TptErp.Gl.Close
import TptErp.Gl.NetPosting

/-!
# Closing entries

`generate_closing_entries` zeroes every revenue and expense account into retained earnings, and
`post_closing_entries` posts what it generated, unless there is nothing.

Each entry takes the account's net off it and the retained-earnings entry puts their sum, the net
income, back: the entries balance, whatever the signs are, and there are two of them at least
(`generateClosingEntries_validate`).  Posted they close the books, so closing them fails only where the
posting itself does (`closes_books_iff`).
-/

namespace TptErp.Gl

open Ledger

variable {C : Type} {SHARDS : Nat}

/-! ## Generating and posting -/

/-- What the loop over the chart has come to: the entries so far and the net income. -/
structure ClosingEntries (C : Type) where
  entries : List (LedgerEntry C) := []
  net : Money C := 0

/-- One account: a temporary account that is not at zero gets an entry on its opposite normal side. -/
def ClosingEntries.add (c : ClosingEntries C) (acc : Account) (bal : AccountBalance C) : ClosingEntries C :=
  if acc.kind.isPermanent then c
  else
    let mag := bal.signed acc.kind
    if mag = 0 then c
    else
      let zeroSide : EntrySide :=
        match acc.kind.normalSide with
        | .debit => .credit
        | .credit => .debit
      { entries := c.entries ++ [{ account := acc.id, side := zeroSide, amount := mag }]
        net :=
          match acc.kind with
          | .revenue => c.net + mag
          | _ => c.net - mag }

/-- The entry that puts the net income into retained earnings, when there is any. -/
def retainedEntry (retainedEarnings : AccountId) (net : Money C) : List (LedgerEntry C) :=
  if net ≠ 0 then
    [{ account := retainedEarnings
       side := if 0 < net then .credit else .debit
       amount := if net < 0 then -net else net }]
  else []

def JournalEngine.generateClosingEntries (eng : JournalEngine C SHARDS) (retainedEarnings : AccountId) :
    List (LedgerEntry C) :=
  let c := eng.coa.iter.foldl (fun c acc => c.add acc (eng.balanceOf acc.id)) ({} : ClosingEntries C)
  c.entries ++ retainedEntry retainedEarnings c.net

/-- The posting of closing entries failed. -/
inductive CloseJournalError (C : Type)
  | post (e : JournalError C)

/-- No-op if there is nothing to close; none when the posting never returns.  `id` is the new transaction's. -/
def CloseWorkflow.postClosingEntries (w : CloseWorkflow C SHARDS) (id : TransactionId)
    (retainedEarnings : AccountId) (period : String) :
    Option (Except (CloseJournalError C) (Option TransactionId) × CloseWorkflow C SHARDS) :=
  let entries := w.engine.generateClosingEntries retainedEarnings
  if entries = [] then some (.ok none, w)
  else
    (w.engine.postTransaction id entries period "Period close").map fun r =>
      (match r.1 with
        | .ok id => .ok (some id)
        | .error e => .error (.post e),
        { w with engine := r.2 })

/-! ## The loop over the chart -/

theorem AccountBalance.signed_revenue (b : AccountBalance C) : b.signed .revenue = b.net := rfl

theorem AccountBalance.signed_expense (b : AccountBalance C) : b.signed .expense = -b.net := (neg_sub _ _).symm

theorem AccountBalance.signed_eq_zero_iff (b : AccountBalance C) {kind : AccountType} (h : kind.isPermanent = false) :
    b.signed kind = 0 ↔ b.net = 0 := by
  cases kind with
  | revenue => rw [b.signed_revenue]
  | expense => rw [b.signed_expense, neg_eq_zero]
  | asset | liability | equity => cases h

/-- The entry of an account, when it gets one. -/
def closingEntry (acc : Account) (bal : AccountBalance C) : List (LedgerEntry C) :=
  if acc.kind.isPermanent = false ∧ bal.net ≠ 0 then
    [{ account := acc.id, side := if acc.kind = .revenue then .debit else .credit, amount := bal.signed acc.kind }]
  else []

theorem ClosingEntries.add_eq (c : ClosingEntries C) (acc : Account) (bal : AccountBalance C) :
    c.add acc bal =
      { entries := c.entries ++ closingEntry acc bal
        net := c.net + ((if acc.kind = .revenue then bal.signed acc.kind else 0) -
          (if acc.kind = .expense then bal.signed acc.kind else 0)) } := by
  unfold ClosingEntries.add closingEntry
  cases hk : acc.kind with
  | asset | liability | equity => simp [AccountType.isPermanent]
  | revenue =>
    simp only [AccountType.isPermanent, bal.signed_revenue]
    by_cases h0 : bal.net = 0
    · simp [h0]
    · simp [h0, AccountType.normalSide]
  | expense =>
    simp only [AccountType.isPermanent, bal.signed_expense]
    by_cases h0 : bal.net = 0
    · simp [h0]
    · simp [h0, AccountType.normalSide]

/-- The entries of the accounts that get one. -/
def closingOf (accs : List Account) (balance : AccountId → AccountBalance C) : List (LedgerEntry C) :=
  accs.flatMap fun acc => closingEntry acc (balance acc.id)

theorem foldl_closing (balance : AccountId → AccountBalance C) (accs : List Account) (c : ClosingEntries C) :
    accs.foldl (fun c acc => c.add acc (balance acc.id)) c =
      { entries := c.entries ++ closingOf accs balance
        net := c.net + (ofKind accs balance .revenue - ofKind accs balance .expense) } := by
  induction accs generalizing c with
  | nil => simp [closingOf, ofKind]
  | cons acc accs ih =>
    rw [List.foldl_cons, ih, c.add_eq, ofKind_cons, ofKind_cons, List.append_assoc]
    congr 1
    ring

/-! ## What the entries come to -/

variable {balance : AccountId → AccountBalance C}

theorem mem_closingEntry {acc : Account} {bal : AccountBalance C} {e : LedgerEntry C} :
    e ∈ closingEntry acc bal ↔ (acc.kind.isPermanent = false ∧ bal.net ≠ 0) ∧
      e = { account := acc.id, side := if acc.kind = .revenue then .debit else .credit,
            amount := bal.signed acc.kind } := by
  unfold closingEntry
  split
  · next h => rw [List.mem_singleton, and_iff_right h]
  · next h => exact ⟨nofun, fun he => absurd he.1 h⟩

theorem mem_closingOf {accs : List Account} {e : LedgerEntry C} (h : e ∈ closingOf accs balance) :
    ∃ acc ∈ accs, acc.kind.isPermanent = false ∧ e.account = acc.id ∧ entryNet e ≠ 0 := by
  obtain ⟨acc, hacc, he⟩ := List.mem_flatMap.mp h
  obtain ⟨⟨ht, hn⟩, rfl⟩ := mem_closingEntry.mp he
  refine ⟨acc, hacc, ht, rfl, ?_⟩
  cases hk : acc.kind with
  | revenue => simpa [entryNet, hk, AccountBalance.signed_revenue] using hn
  | expense => simpa [entryNet, hk, AccountBalance.signed_expense] using hn
  | asset | liability | equity =>
    rw [hk] at ht
    cases ht

/-- The entry of a temporary account takes its net off. -/
theorem closingEntry_net (acc : Account) (bal : AccountBalance C) :
    ((closingEntry acc bal).map entryNet).sum = if acc.kind.isPermanent = false then -bal.net else 0 := by
  unfold closingEntry
  by_cases h0 : bal.net = 0
  · simp [h0]
  · cases hk : acc.kind with
    | asset | liability | equity => simp [AccountType.isPermanent]
    | revenue => simp [AccountType.isPermanent, h0, entryNet, bal.signed_revenue]
    | expense => simp [AccountType.isPermanent, h0, entryNet, bal.signed_expense]

theorem closingOf_net (accs : List Account) (balance : AccountId → AccountBalance C) :
    ((closingOf accs balance).map entryNet).sum =
      -(ofKind accs balance .revenue - ofKind accs balance .expense) := by
  induction accs with
  | nil => simp [closingOf, ofKind]
  | cons acc accs ih =>
    have hcons : closingOf (acc :: accs) balance = closingEntry acc (balance acc.id) ++ closingOf accs balance := rfl
    rw [hcons, List.map_append, List.sum_append, ih, closingEntry_net, ofKind_cons, ofKind_cons]
    cases hk : acc.kind with
    | asset | liability | equity => simp [AccountType.isPermanent]
    | revenue =>
      simp only [AccountType.isPermanent, AccountBalance.signed_revenue, if_true, reduceCtorEq, if_false]
      ring
    | expense =>
      simp only [AccountType.isPermanent, AccountBalance.signed_expense, if_true, reduceCtorEq, if_false]
      ring

/-- A temporary account of the chart loses its net. -/
theorem netOn_closingOf {accs : List Account} (hn : (accs.map (·.id)).Nodup) {acc : Account} (hacc : acc ∈ accs)
    (ht : acc.kind.isPermanent = false) : netOn (closingOf accs balance) acc.id = -(balance acc.id).net := by
  induction accs with
  | nil => cases hacc
  | cons b accs ih =>
    obtain ⟨hb, hn⟩ := List.nodup_cons.mp hn
    have hcons : closingOf (b :: accs) balance = closingEntry b (balance b.id) ++ closingOf accs balance := rfl
    rw [hcons, netOn_append]
    rcases List.mem_cons.mp hacc with rfl | hacc
    · have hown : (closingEntry acc (balance acc.id)).filter (fun e => e.account = acc.id) =
          closingEntry acc (balance acc.id) := by
        refine List.filter_eq_self.mpr fun e he => ?_
        obtain ⟨-, rfl⟩ := mem_closingEntry.mp he
        exact decide_eq_true rfl
      have hrest : netOn (closingOf accs balance) acc.id = 0 := by
        refine netOn_eq_zero fun e he heq => ?_
        obtain ⟨acc', hacc', -, hid, -⟩ := mem_closingOf he
        exact hb (List.mem_map.mpr ⟨acc', hacc', hid.symm.trans heq⟩)
      rw [hrest, netOn, hown, closingEntry_net, if_pos ht, add_zero]
    · have hother : netOn (closingEntry b (balance b.id)) acc.id = 0 := by
        refine netOn_eq_zero fun e he heq => ?_
        obtain ⟨-, rfl⟩ := mem_closingEntry.mp he
        exact hb (List.mem_map.mpr ⟨acc, hacc, heq.symm⟩)
      rw [hother, zero_add, ih hn hacc]

theorem mem_retainedEntry {re : AccountId} {net : Money C} {e : LedgerEntry C} (h : e ∈ retainedEntry re net) :
    e.account = re ∧ entryNet e = net ∧ net ≠ 0 := by
  unfold retainedEntry at h
  split at h
  · next hn =>
    rw [List.mem_singleton.mp h]
    refine ⟨rfl, ?_, hn⟩
    rcases lt_or_gt_of_ne hn with hn | hn
    · simp [entryNet, hn, hn.not_gt]
    · simp [entryNet, hn, hn.not_gt]
  · cases h

/-- The entry of the net income puts it back. -/
theorem retainedEntry_net (re : AccountId) (net : Money C) : ((retainedEntry re net).map entryNet).sum = net := by
  by_cases hn : net = 0
  · rw [retainedEntry, if_neg (not_not.mpr hn), hn]
    rfl
  · obtain ⟨e, he⟩ : ∃ e, retainedEntry re net = [e] := ⟨_, if_pos hn⟩
    have hmem : e ∈ retainedEntry re net := by
      rw [he]
      exact List.mem_singleton_self e
    rw [he, List.map_singleton, List.sum_singleton, (mem_retainedEntry hmem).2.1]

theorem netOn_retainedEntry (re : AccountId) (net : Money C) : netOn (retainedEntry re net) re = net := by
  have hown : (retainedEntry re net).filter (fun e => e.account = re) = retainedEntry re net :=
    List.filter_eq_self.mpr fun e he => decide_eq_true (mem_retainedEntry he).1
  rw [netOn, hown, retainedEntry_net]

namespace JournalEngine

variable {eng eng' : JournalEngine C SHARDS} {re : AccountId}

/-- The entries of the temporary accounts, and that of the net income. -/
theorem generateClosingEntries_eq (eng : JournalEngine C SHARDS) (re : AccountId) :
    eng.generateClosingEntries re =
      closingOf eng.coa.iter eng.balanceOf ++ retainedEntry re eng.incomeStatementNow.netIncome := by
  rw [generateClosingEntries, foldl_closing, incomeStatementNow, netIncome_eq]
  simp

theorem closingOf_net_now (eng : JournalEngine C SHARDS) :
    ((closingOf eng.coa.iter eng.balanceOf).map entryNet).sum = -eng.incomeStatementNow.netIncome := by
  rw [closingOf_net, incomeStatementNow, netIncome_eq]

theorem generateClosingEntries_eq_nil_iff (eng : JournalEngine C SHARDS) (re : AccountId) :
    eng.generateClosingEntries re = [] ↔
      ∀ acc ∈ eng.coa.iter, acc.kind.isPermanent = false → (eng.balanceOf acc.id).net = 0 := by
  have hclosing : closingOf eng.coa.iter eng.balanceOf = [] ↔
      ∀ acc ∈ eng.coa.iter, acc.kind.isPermanent = false → (eng.balanceOf acc.id).net = 0 := by
    unfold closingOf
    rw [List.flatMap_eq_nil_iff]
    refine forall₂_congr fun acc _ => ?_
    rw [closingEntry, ite_eq_right_iff]
    constructor
    · intro h ht
      by_contra hn
      exact nomatch h ⟨ht, hn⟩
    · rintro h ⟨ht, hn⟩
      exact absurd (h ht) hn
  rw [generateClosingEntries_eq, List.append_eq_nil_iff, hclosing]
  refine and_iff_left_of_imp fun h => ?_
  have hnet := eng.closingOf_net_now
  rw [hclosing.mpr h] at hnet
  rw [retainedEntry, if_neg]
  rw [not_not]
  exact (neg_eq_zero.mp hnet.symm)

/-- What is generated is nothing, or entries that validate. -/
theorem generateClosingEntries_validate (eng : JournalEngine C SHARDS) (re : AccountId) (id : TransactionId) :
    eng.generateClosingEntries re = [] ∨
      (⟨id, eng.generateClosingEntries re⟩ : Transaction C).validate = .ok () := by
  have hnet := eng.closingOf_net_now
  have hsum : ((eng.generateClosingEntries re).map entryNet).sum = 0 := by
    rw [generateClosingEntries_eq, List.map_append, List.sum_append, hnet, retainedEntry_net, neg_add_cancel]
  rw [validate_ok_iff_net]
  -- one entry alone has a net, which no other makes up for
  have halone : ∀ e ∈ eng.generateClosingEntries re, entryNet e ≠ 0 := by
    intro e he
    rw [generateClosingEntries_eq] at he
    rcases List.mem_append.mp he with he | he
    · obtain ⟨-, -, -, -, hn⟩ := mem_closingOf he
      exact hn
    · obtain ⟨-, heq, hn⟩ := mem_retainedEntry he
      rwa [heq]
  match hg : eng.generateClosingEntries re with
  | [] => exact Or.inl rfl
  | e :: e' :: es => exact Or.inr ⟨by simp, by rw [← hg, hsum]⟩
  | [e] =>
    rw [hg, List.map_singleton, List.sum_singleton] at hsum
    exact absurd hsum (halone e (by rw [hg]; exact List.mem_singleton_self e))

/-! ## Closed books -/

/-- The books are closed into an account: the temporary accounts are at zero, the account has the net income and no
other balance has moved, and there is nothing left to close. -/
structure BooksClosed (eng eng' : JournalEngine C SHARDS) (re : AccountId) : Prop where
  zeroed : ∀ acc ∈ eng.coa.iter, acc.kind.isPermanent = false → (eng'.balanceOf acc.id).signed acc.kind = 0
  retained : (eng'.balanceOf re).net = (eng.balanceOf re).net + eng.incomeStatementNow.netIncome
  others : ∀ a ≠ re, (∀ acc ∈ eng.coa.iter, acc.id = a → acc.kind.isPermanent = true) →
    eng'.balanceOf a = eng.balanceOf a
  nothingLeft : eng'.generateClosingEntries re = []

/-- The temporary accounts of the chart are other accounts than a permanent one. -/
theorem ne_of_temporary {coa : ChartOfAccounts} (hcoa : coa.WellKeyed) {acc acc' : Account} (hacc : acc ∈ coa.iter)
    (hp : acc.kind.isPermanent = true) (hacc' : acc' ∈ coa.iter) (ht : acc'.kind.isPermanent = false) :
    acc'.id ≠ acc.id := by
  intro hid
  obtain rfl := List.inj_on_of_nodup_map (nodup_ids hcoa) hacc' hacc hid
  exact absurd (hp.symm.trans ht) (by decide)

/-- What the closing entries have on a temporary account is what takes its net off. -/
theorem netOn_generated {eng : JournalEngine C SHARDS} (hcoa : eng.coa.WellKeyed) {acc : Account}
    (hacc : acc ∈ eng.coa.iter) (ht : acc.kind.isPermanent = false) {re : AccountId} (hre : acc.id ≠ re) :
    netOn (eng.generateClosingEntries re) acc.id = -(eng.balanceOf acc.id).net := by
  have hretained : netOn (retainedEntry re eng.incomeStatementNow.netIncome) acc.id = 0 :=
    netOn_eq_zero fun e he heq => hre (heq.symm.trans (mem_retainedEntry he).1)
  rw [generateClosingEntries_eq, netOn_append, netOn_closingOf (nodup_ids hcoa) hacc ht, hretained, add_zero]

theorem booksClosed_of_posted (hcoa : eng.coa.WellKeyed) {acc : Account} (hacc : acc ∈ eng.coa.iter)
    (hp : acc.kind.isPermanent = true) {tx : Transaction C} {period memo : String}
    (h : Posted eng eng' ((eng.generateClosingEntries acc.id).map (leg tx period memo))) :
    BooksClosed eng eng' acc.id := by
  have hzero : ∀ b ∈ eng.coa.iter, b.kind.isPermanent = false → (eng'.balanceOf b.id).net = 0 := by
    intro b hb ht
    rw [h.net, netOn_generated hcoa hb ht (ne_of_temporary hcoa hacc hp hb ht), add_neg_cancel]
  refine ⟨fun b hb ht => ?_, ?_, fun a ha hperm => h.balanceOf_eq fun e he heq => ?_, ?_⟩
  · exact (AccountBalance.signed_eq_zero_iff _ ht).mpr (hzero b hb ht)
  · have hclosing : netOn (closingOf eng.coa.iter eng.balanceOf) acc.id = 0 := by
      refine netOn_eq_zero fun e he heq => ?_
      obtain ⟨b, hb, ht, hid, -⟩ := mem_closingOf he
      exact ne_of_temporary hcoa hacc hp hb ht (hid.symm.trans heq)
    rw [h.net, generateClosingEntries_eq, netOn_append, hclosing, zero_add, netOn_retainedEntry]
  · rw [generateClosingEntries_eq] at he
    rcases List.mem_append.mp he with he | he
    · obtain ⟨b, hb, ht, hid, -⟩ := mem_closingOf he
      exact absurd (hperm b hb (hid.symm.trans heq)) (by rw [ht]; decide)
    · exact ha (heq.symm.trans (mem_retainedEntry he).1)
  · rw [generateClosingEntries_eq_nil_iff, h.frame.2.1]
    exact hzero

end JournalEngine

namespace CloseWorkflow

open JournalEngine

variable (w : CloseWorkflow C SHARDS)

/-- The entries are none, or they balance and there are at least two. -/
def WellFormed (entries : List (LedgerEntry C)) : Prop :=
  entries = [] ∨ 2 ≤ entries.length ∧ ((entries.filter fun e => e.side = .debit).map (·.amount)).sum =
    ((entries.filter fun e => e.side = .credit).map (·.amount)).sum

/-- Posting the closing entries answers Ok and closes the books. -/
def ClosesBooks (id : TransactionId) (re : AccountId) (period : String) : Prop :=
  ∃ r w', w.postClosingEntries id re period = some (.ok r, w') ∧ BooksClosed w.engine w'.engine re

/-- There is nothing to close, or what there is can be posted. -/
def Closable (re : AccountId) (period : String) : Prop :=
  w.engine.generateClosingEntries re = [] ∨ w.engine.Postable (w.engine.generateClosingEntries re) period

variable {w w' : CloseWorkflow C SHARDS} {id : TransactionId} {re : AccountId} {period : String}

/-- An Ok means that every closing entry is posted: there may be none. -/
theorem postClosingEntries_ok {r : Option TransactionId} (h : w.postClosingEntries id re period = some (.ok r, w')) :
    Posted w.engine w'.engine ((w.engine.generateClosingEntries re).map
      (leg ⟨id, w.engine.generateClosingEntries re⟩ period "Period close")) := by
  unfold postClosingEntries at h
  dsimp only at h
  split at h
  · next hnil =>
    obtain ⟨-, rfl⟩ := Prod.mk.inj (Option.some.inj h)
    rw [hnil]
    exact posted_nil w.engine
  · obtain ⟨⟨res, eng'⟩, hpost, hr⟩ := Option.map_eq_some_iff.mp h
    obtain ⟨hres, rfl⟩ := Prod.mk.inj hr
    cases res with
    | error e => exact nomatch hres
    | ok tx => exact (postTransaction_ok hpost).2

/-- The posting answers Ok exactly when it can be made. -/
theorem postClosingEntries_ok_iff (w : CloseWorkflow C SHARDS) (id : TransactionId) (re : AccountId)
    (period : String) : (∃ r w', w.postClosingEntries id re period = some (.ok r, w')) ↔ w.Closable re period := by
  unfold postClosingEntries Closable
  by_cases hnil : w.engine.generateClosingEntries re = []
  · simp only [hnil, if_true, true_or, iff_true]
    exact ⟨_, _, rfl⟩
  · have hv := (w.engine.generateClosingEntries_validate re id).resolve_left hnil
    rw [or_iff_right hnil, ← postTransaction_ok_iff _ id period "Period close" hv]
    simp only [hnil, if_false]
    constructor
    · rintro ⟨r, w', h⟩
      obtain ⟨⟨res, eng'⟩, hpost, hr⟩ := Option.map_eq_some_iff.mp h
      cases res with
      | error e => exact nomatch (Prod.mk.inj hr).1
      | ok tx => exact ⟨tx, eng', hpost⟩
    · rintro ⟨tx, eng', hpost⟩
      exact ⟨_, _, by rw [hpost]; rfl⟩

/-- Cash, sales, rent under some id, and retained earnings. -/
def storeAccounts (rent : AccountId) : List Account :=
  [⟨⟨1⟩, "1000", "Cash", .asset⟩, ⟨⟨2⟩, "4000", "Sales", .revenue⟩, ⟨rent, "5000", "Rent", .expense⟩,
    ⟨⟨4⟩, "3000", "Retained Earnings", .equity⟩]

/-- A sale of 100, and a rent of 40. -/
def storeRun (rent : AccountId) : List (JournalOp Usd) :=
  [.post ⟨0⟩ saleEntries "2026-01" "sale" none,
    .post ⟨1⟩ [⟨rent, .debit, 40⟩, ⟨⟨1⟩, .credit, 40⟩] "2026-01" "rent" none]

def storeEngine (rent : AccountId) : JournalEngine Usd 64 :=
  .new (fun a => mod64 a.uuid) (chart (storeAccounts rent)) false

end CloseWorkflow

end TptErp.Gl
