import TptErp.Gl.NetPosting
import Mathlib.Tactic.Linarith

/-!
# Revaluation

The rate table and `revalue`, which marks the accounts of a foreign ledger to the closing rate: what an
account gains over its book rate is posted in the reporting ledger, and the closing rate becomes its
book rate.

The book rates are kept beside the foreign engine.  A gain counts on the debit side (`gainOf`): each
posting takes it off the net of the revaluation account and adds it to that of the FX account, whatever
kind the account is of and whatever the signs are (`netOn_revaluationEntries`).  `revalue_iff` says when
the loop over the chart comes to its end.
-/

namespace TptErp.Gl

open Ledger

/-! ## The rate table -/

/-- A currency marker with its code. -/
class CurrencyCode (C : Type) where
  CODE : String

/-- The currency marker of the euro. -/
inductive Eur

instance : CurrencyCode Usd := ⟨"USD"⟩

instance : CurrencyCode Eur := ⟨"EUR"⟩

/-- For each pair of currencies the observed rates, each with its time. -/
structure FxRateTable where
  rates : AssocMap (String × String) (List (Int × ℚ)) := ∅

/-- The observation with the largest time, the last one of several. -/
def latest (hist : List (Int × ℚ)) : Option (Int × ℚ) :=
  hist.foldl
    (fun best p =>
      match best with
      | none => some p
      | some b => if b.1 ≤ p.1 then some p else some b)
    none

namespace FxRateTable

variable (table : FxRateTable)

def setRate (source target : String) (asOf : Int) (rate : ℚ) : FxRateTable :=
  ⟨table.rates.insert (source, target) (AssocMap.getD table.rates (source, target) [] ++ [(asOf, rate)])⟩

/-- The most recent rate at or before `asOf`. -/
def rate (source target : String) (asOf : Int) : Option ℚ :=
  if source = target then some 1
  else
    match table.rates.lookup (source, target) with
    | none => none
    | some hist => (latest (hist.filter fun p => p.1 ≤ asOf)).map (·.2)

def convert (F R : Type) [CurrencyCode F] [CurrencyCode R] (amount : Money F) (asOf : Int) : Option (Money R) :=
  (table.rate (CurrencyCode.CODE F) (CurrencyCode.CODE R) asOf).map fun r => amount * r

end FxRateTable

/-! ## Revaluation -/

variable {F R : Type} {FS RS : Nat}

structure RevaluationAdjustment (F R : Type) where
  account : AccountId
  foreignBalance : Money F
  bookLocal : Money R
  closingLocal : Money R
  adjustment : Money R

def opposite : EntrySide → EntrySide
  | .debit => .credit
  | .credit => .debit

/-- The foreign ledger with its book rates, the reporting ledger, and the next transaction id. -/
structure FxBooks (F R : Type) (FS RS : Nat) where
  foreign : JournalEngine F FS
  bookRates : AccountId → Option ℚ := fun _ => none
  reporting : JournalEngine R RS
  nextTx : Nat := 0

def FxBooks.setBookRate (b : FxBooks F R FS RS) (account : AccountId) (rate : ℚ) : FxBooks F R FS RS :=
  { b with bookRates := Function.update b.bookRates account (some rate) }

/-- What a call is given besides the ledgers. -/
structure RevalueArgs where
  table : FxRateTable
  asOf : Int
  revaluationAccount : AccountId
  fxAccount : AccountId
  period : String

namespace RevalueArgs

variable (args : RevalueArgs)

/-- The entries that book an adjustment of an account whose normal side is `normal`. -/
def revaluationEntries (normal : EntrySide) (adjustment : Money R) : List (LedgerEntry R) :=
  let amount := if adjustment < 0 then -adjustment else adjustment
  let foreignSide := if 0 ≤ adjustment then normal else opposite normal
  [{ account := args.revaluationAccount, side := foreignSide, amount },
    { account := args.fxAccount, side := opposite foreignSide, amount }]

variable [CurrencyCode F] [CurrencyCode R]

/-- The adjustment of an account; none where the loop goes on to the next. -/
def adjustmentOf (b : FxBooks F R FS RS) (acc : Account) : Option (RevaluationAdjustment F R) :=
  let foreignBalance := (b.foreign.balanceOf acc.id).signed acc.kind
  if foreignBalance = 0 then none
  else
    match b.bookRates acc.id with
    | none => none
    | some bookRate =>
      match args.table.convert F R foreignBalance args.asOf with
      | none => none
      | some closingLocal =>
        let bookLocal := foreignBalance * bookRate
        let adjustment := closingLocal - bookLocal
        if adjustment = 0 then none
        else some { account := acc.id, foreignBalance, bookLocal, closingLocal, adjustment }

/-- The loop over the accounts; none when a posting never returns. -/
def revalueAccounts (closingRate : ℚ) :
    List Account → FxBooks F R FS RS →
      Option (Except (JournalError R) (List (RevaluationAdjustment F R)) × FxBooks F R FS RS)
  | [], b => some (.ok [], b)
  | acc :: accs, b =>
    match args.adjustmentOf b acc with
    | none => revalueAccounts closingRate accs b
    | some adj =>
      match b.reporting.postTransaction ⟨b.nextTx⟩ (args.revaluationEntries acc.kind.normalSide adj.adjustment)
          args.period "FX revaluation" with
      | none => none
      | some (.error e, reporting) => some (.error e, { b with reporting, nextTx := b.nextTx + 1 })
      | some (.ok _, reporting) =>
        let b := ({ b with reporting, nextTx := b.nextTx + 1 } : FxBooks F R FS RS).setBookRate acc.id closingRate
        (revalueAccounts closingRate accs b).map fun r => (r.1.map (adj :: ·), r.2)

def revalue (b : FxBooks F R FS RS) :
    Option (Except (JournalError R) (List (RevaluationAdjustment F R)) × FxBooks F R FS RS) :=
  match args.table.rate (CurrencyCode.CODE F) (CurrencyCode.CODE R) args.asOf with
  | none => some (.ok [], b)
  | some closingRate => args.revalueAccounts closingRate b.foreign.coa.iter b

/-! ## What an account gains -/

/-- The closing rate, when the table has one. -/
def closing (F R : Type) [CurrencyCode F] [CurrencyCode R] (args : RevalueArgs) : Option ℚ :=
  args.table.rate (CurrencyCode.CODE F) (CurrencyCode.CODE R) args.asOf

end RevalueArgs

/-- The debit balance times what the closing rate is above the book rate; nothing without a rate. -/
def FxBooks.gainOf (b : FxBooks F R FS RS) (closing : Option ℚ) (acc : Account) : ℚ :=
  match closing, b.bookRates acc.id with
  | some closingRate, some bookRate =>
    ((b.foreign.balanceOf acc.id).debits - (b.foreign.balanceOf acc.id).credits) * (closingRate - bookRate)
  | _, _ => 0

/-- What the accounts gain together. -/
def FxBooks.gain (b : FxBooks F R FS RS) (closing : Option ℚ) : ℚ :=
  (b.foreign.coa.iter.map (b.gainOf closing)).sum

theorem FxBooks.gainOf_congr {b b' : FxBooks F R FS RS} {acc : Account} (hf : b'.foreign = b.foreign)
    (hr : b'.bookRates acc.id = b.bookRates acc.id) (closing : Option ℚ) :
    b'.gainOf closing acc = b.gainOf closing acc := by
  unfold FxBooks.gainOf
  rw [hf, hr]

/-- At the closing rate there is nothing to gain. -/
theorem FxBooks.gainOf_closing {b : FxBooks F R FS RS} {acc : Account} {closingRate : ℚ}
    (h : b.bookRates acc.id = some closingRate) : b.gainOf (some closingRate) acc = 0 := by
  simp only [FxBooks.gainOf, h, sub_self, mul_zero]

theorem AccountBalance.signed_eq {C : Type} (bal : AccountBalance C) (kind : AccountType) :
    bal.signed kind = onDebit kind.normalSide (bal.debits - bal.credits) := by
  unfold AccountBalance.signed
  cases kind.normalSide with
  | debit => rfl
  | credit => exact (neg_sub _ _).symm

namespace RevalueArgs

variable (args : RevalueArgs)

/-- On the revaluation account the adjustment counts against its normal side, on the FX account with it. -/
theorem netOn_revaluationEntries (hne : args.revaluationAccount ≠ args.fxAccount) (normal : EntrySide) (x : Money R) :
    netOn (args.revaluationEntries normal x) args.revaluationAccount = -onDebit normal x ∧
      netOn (args.revaluationEntries normal x) args.fxAccount = onDebit normal x := by
  unfold revaluationEntries netOn
  simp only [List.filter_cons, hne, hne.symm, decide_true, decide_false, if_true, Bool.false_eq_true, if_false,
    List.filter_nil, List.map_cons, List.map_nil, List.sum_cons, List.sum_nil, add_zero]
  by_cases hx : x < 0
  · simp only [hx, hx.not_ge, if_true, if_false]
    cases normal <;> simp [entryNet, opposite, onDebit]
  · simp only [hx, not_lt.mp hx, if_true, if_false]
    cases normal <;> simp [entryNet, opposite, onDebit]

theorem validate_revaluationEntries (id : TransactionId) (normal : EntrySide) (x : Money R) :
    (⟨id, args.revaluationEntries normal x⟩ : Transaction R).validate = .ok () := by
  rw [validate_ok_iff_net]
  refine ⟨le_rfl, ?_⟩
  unfold revaluationEntries
  simp only [List.map_cons, List.map_nil, List.sum_cons, List.sum_nil, add_zero]
  generalize (if 0 ≤ x then normal else opposite normal) = side
  cases side with
  | debit => exact neg_add_cancel _
  | credit => exact add_neg_cancel _

/-- The revaluation account's debit balance has moved by the gain, the FX account's by the opposite, and nothing else;
the ledger's debits have grown as much as its credits. -/
structure Moved (r r' : JournalEngine R RS) (gain : ℚ) : Prop where
  revaluation : (r'.balanceOf args.revaluationAccount).debits - (r'.balanceOf args.revaluationAccount).credits =
    (r.balanceOf args.revaluationAccount).debits - (r.balanceOf args.revaluationAccount).credits + gain
  fx : (r'.balanceOf args.fxAccount).debits - (r'.balanceOf args.fxAccount).credits =
    (r.balanceOf args.fxAccount).debits - (r.balanceOf args.fxAccount).credits - gain
  others : ∀ a, a ≠ args.revaluationAccount → a ≠ args.fxAccount → r'.balanceOf a = r.balanceOf a
  balanced : sideTotal r'.legs .debit - sideTotal r.legs .debit = sideTotal r'.legs .credit - sideTotal r.legs .credit
  frame : r'.shardIndex = r.shardIndex ∧ r'.periodStatus = r.periodStatus

theorem Moved.refl (r : JournalEngine R RS) : args.Moved r r 0 :=
  ⟨(add_zero _).symm, (sub_zero _).symm, fun _ _ _ => rfl, by rw [sub_self, sub_self], rfl, rfl⟩

theorem Moved.trans {args : RevalueArgs} {r₁ r₂ r₃ : JournalEngine R RS} {x y : ℚ} (h₁ : args.Moved r₁ r₂ x)
    (h₂ : args.Moved r₂ r₃ y) : args.Moved r₁ r₃ (x + y) := by
  refine ⟨?_, ?_, fun a hr hf => (h₂.others a hr hf).trans (h₁.others a hr hf), ?_, h₂.frame.1.trans h₁.frame.1,
    h₂.frame.2.trans h₁.frame.2⟩
  · rw [h₂.revaluation, h₁.revaluation, add_assoc]
  · rw [h₂.fx, h₁.fx, sub_sub]
  · linarith [h₁.balanced, h₂.balanced]

/-- One posting. -/
theorem moved_of_posted {args : RevalueArgs} (hne : args.revaluationAccount ≠ args.fxAccount)
    {r r' : JournalEngine R RS} {id : TransactionId} {normal : EntrySide} {x : Money R} {memo : String}
    (h : r.Posted r' ((args.revaluationEntries normal x).map
      (JournalEngine.leg ⟨id, args.revaluationEntries normal x⟩ args.period memo))) :
    args.Moved r r' (onDebit normal x) := by
  obtain ⟨hr, hf⟩ := args.netOn_revaluationEntries hne normal x
  have hnr := h.net args.revaluationAccount
  have hnf := h.net args.fxAccount
  rw [hr, AccountBalance.net, AccountBalance.net] at hnr
  rw [hf, AccountBalance.net, AccountBalance.net] at hnf
  refine ⟨?_, ?_, fun a ha hfa => h.balanceOf_eq fun e he heq => ?_, ?_, h.frame.1, h.frame.2.2.2⟩
  · linarith
  · linarith
  · rcases List.mem_cons.mp he with rfl | he
    · exact ha heq.symm
    · rw [List.mem_singleton.mp he] at heq
      exact hfa heq.symm
  · have hside := JournalEngine.sideTotal_entries args.period memo (args.validate_revaluationEntries id normal x)
    rw [sideTotal_perm h.legs_perm, sideTotal_perm h.legs_perm, sideTotal_append, sideTotal_append, hside]
    linarith

/-- The two accounts are on different shards. -/
def Separate (r : JournalEngine R RS) : Prop :=
  r.shardIndex args.revaluationAccount ≠ r.shardIndex args.fxAccount

theorem lockSequence_revaluation {args : RevalueArgs} (hne : args.revaluationAccount ≠ args.fxAccount)
    (r : JournalEngine R RS) (normal : EntrySide) (x : Money R) :
    (r.lockSequence (args.revaluationEntries normal x)).Nodup ↔ args.Separate r := by
  rw [r.lockSequence_nodup_iff]
  unfold revaluationEntries Separate
  simp only [List.forall_mem_cons, List.not_mem_nil, false_implies, implies_true, and_true]
  constructor
  · exact fun h hs => hne (h.1.2 hs)
  · exact fun h => ⟨⟨trivial, fun hs => absurd hs h⟩, fun hs => absurd hs.symm h⟩

variable [CurrencyCode F] [CurrencyCode R] (b : FxBooks F R FS RS) (acc : Account)

/-- An account is passed over when it gains nothing; else its adjustment is its gain, on its normal side. -/
theorem adjustmentOf_cases :
    (b.gainOf (args.closing F R) acc = 0 ∧ args.adjustmentOf b acc = none) ∨
      (b.gainOf (args.closing F R) acc ≠ 0 ∧ ∃ adj, args.adjustmentOf b acc = some adj ∧
        b.gainOf (args.closing F R) acc = onDebit acc.kind.normalSide adj.adjustment) := by
  unfold adjustmentOf FxBooks.gainOf FxRateTable.convert closing
  rw [AccountBalance.signed_eq]
  generalize (b.foreign.balanceOf acc.id).debits - (b.foreign.balanceOf acc.id).credits = d
  cases b.bookRates acc.id with
  | none =>
    left
    cases args.table.rate (CurrencyCode.CODE F) (CurrencyCode.CODE R) args.asOf <;> simp
  | some bookRate =>
    cases args.table.rate (CurrencyCode.CODE F) (CurrencyCode.CODE R) args.asOf with
    | none =>
      left
      simp
    | some closingRate =>
      -- the balance on the normal side, and the adjustment it gets
      generalize hbal : onDebit acc.kind.normalSide d = balance
      have hgain : d * (closingRate - bookRate) =
          onDebit acc.kind.normalSide (balance * closingRate - balance * bookRate) := by
        rw [← hbal]
        cases acc.kind.normalSide with
        | debit => exact mul_sub ..
        | credit =>
          show _ = -(-d * closingRate - -d * bookRate)
          ring
      have hzero : d * (closingRate - bookRate) = 0 ↔ balance * closingRate - balance * bookRate = 0 := by
        rw [hgain, onDebit_eq_zero_iff]
      by_cases hx : balance * closingRate - balance * bookRate = 0
      · left
        refine ⟨hzero.mpr hx, ?_⟩
        simp only [Option.map_some, hx, if_true, ite_self]
      · right
        have hne : balance ≠ 0 := by
          rintro rfl
          exact hx (by ring)
        refine ⟨mt hzero.mp hx, ?_⟩
        simp only [Option.map_some, hx, hne, if_false]
        exact ⟨_, rfl, hgain⟩

/-! ## The loop over the chart -/

/-- With the accounts on different shards and the period open, the loop comes to its end; the accounts it went over have
nothing more to gain. -/
theorem revalueAccounts_ends {args : RevalueArgs} (hne : args.revaluationAccount ≠ args.fxAccount) {closingRate : ℚ}
    (hrate : args.closing F R = some closingRate) (accs : List Account) (hn : (accs.map (·.id)).Nodup)
    (b : FxBooks F R FS RS) (hs : args.Separate b.reporting) (ho : b.reporting.periodIsClosed args.period = false) :
    ∃ out b', args.revalueAccounts closingRate accs b = some (.ok out, b') ∧
      args.Moved b.reporting b'.reporting (accs.map (b.gainOf (some closingRate))).sum ∧
      (∀ acc ∈ accs, b'.gainOf (some closingRate) acc = 0) ∧ b'.foreign = b.foreign ∧
      ∀ a, a ∉ accs.map (·.id) → b'.bookRates a = b.bookRates a := by
  induction accs generalizing b with
  | nil => exact ⟨[], b, rfl, Moved.refl args b.reporting, fun _ h => absurd h List.not_mem_nil, rfl, fun _ _ => rfl⟩
  | cons acc accs ih =>
    obtain ⟨hacc, hn⟩ := List.nodup_cons.mp hn
    rw [revalueAccounts, List.map_cons, List.sum_cons]
    have hcases := args.adjustmentOf_cases b acc
    rw [hrate] at hcases
    rcases hcases with ⟨hgain, hadj⟩ | ⟨-, adj, hadj, hgain⟩
    · obtain ⟨out, b', hrun, hmoved, hdone, hf, hr⟩ := ih hn b hs ho
      refine ⟨out, b', by rw [hadj]; exact hrun, by rwa [hgain, zero_add], ?_, hf, fun a ha => hr a ?_⟩
      · exact List.forall_mem_cons.mpr ⟨(FxBooks.gainOf_congr hf (hr acc.id hacc) _).trans hgain, hdone⟩
      · exact fun h => ha (List.mem_cons_of_mem _ h)
    · have hv := args.validate_revaluationEntries ⟨b.nextTx⟩ acc.kind.normalSide adj.adjustment
      obtain ⟨tx, r', hpost⟩ := (JournalEngine.postTransaction_ok_iff b.reporting ⟨b.nextTx⟩ args.period
        "FX revaluation" hv).mpr ⟨(lockSequence_revaluation hne ..).mpr hs, ho⟩
      have hone := moved_of_posted hne (JournalEngine.postTransaction_ok hpost).2
      rw [← hgain] at hone
      let b₁ : FxBooks F R FS RS :=
        ({ b with reporting := r', nextTx := b.nextTx + 1 } : FxBooks F R FS RS).setBookRate acc.id closingRate
      have hs₁ : args.Separate b₁.reporting := by
        show r'.shardIndex _ ≠ r'.shardIndex _
        rw [hone.frame.1]
        exact hs
      have ho₁ : b₁.reporting.periodIsClosed args.period = false := by
        show r'.periodIsClosed args.period = false
        rw [JournalEngine.periodIsClosed, hone.frame.2]
        exact ho
      obtain ⟨out, b', hrun, hmoved, hdone, hf, hr⟩ := ih hn b₁ hs₁ ho₁
      have hsame : accs.map (b₁.gainOf (some closingRate)) = accs.map (b.gainOf (some closingRate)) := by
        refine List.map_congr_left fun acc' hacc' => ?_
        have hrate : b₁.bookRates acc'.id = b.bookRates acc'.id :=
          Function.update_of_ne (fun hid => hacc (List.mem_map.mpr ⟨acc', hacc', hid⟩)) _ _
        have hforeign : b₁.foreign = b.foreign := rfl
        exact FxBooks.gainOf_congr hforeign hrate _
      rw [hsame] at hmoved
      refine ⟨adj :: out, b', ?_, hone.trans hmoved, ?_, hf, fun a ha => ?_⟩
      · rw [hadj]
        dsimp only
        rw [hpost]
        dsimp only
        rw [show args.revalueAccounts closingRate accs _ = _ from hrun]
        rfl
      · refine List.forall_mem_cons.mpr ⟨FxBooks.gainOf_closing ?_, hdone⟩
        rw [hr acc.id hacc]
        exact Function.update_self ..
      · rw [List.map_cons, List.mem_cons, not_or] at ha
        rw [hr a ha.2]
        exact Function.update_of_ne ha.1 _ _

/-- With the accounts on one shard, the loop waits for ever at the first account that gains or loses something. -/
theorem revalueAccounts_waits {args : RevalueArgs} (hne : args.revaluationAccount ≠ args.fxAccount) {closingRate : ℚ}
    (hrate : args.closing F R = some closingRate) (accs : List Account) (b : FxBooks F R FS RS)
    (hs : ¬ args.Separate b.reporting) (hdue : ∃ acc ∈ accs, b.gainOf (some closingRate) acc ≠ 0) :
    args.revalueAccounts closingRate accs b = none := by
  induction accs with
  | nil =>
    obtain ⟨acc, hacc, -⟩ := hdue
    cases hacc
  | cons acc accs ih =>
    rw [revalueAccounts]
    have hcases := args.adjustmentOf_cases b acc
    rw [hrate] at hcases
    rcases hcases with ⟨hgain, hadj⟩ | ⟨-, adj, hadj, -⟩
    · rw [hadj]
      obtain ⟨acc', hacc', hdue⟩ := hdue
      rcases List.mem_cons.mp hacc' with rfl | hacc'
      · exact absurd hgain hdue
      · exact ih ⟨acc', hacc', hdue⟩
    · have hv := args.validate_revaluationEntries ⟨b.nextTx⟩ acc.kind.normalSide adj.adjustment
      rw [hadj]
      dsimp only
      rcases b.reporting.postTransaction_cases ⟨b.nextTx⟩ _ args.period "FX revaluation" hv with
        ⟨-, hp⟩ | ⟨hn, -⟩ | ⟨hn, -⟩
      · rw [hp]
      · exact absurd ((lockSequence_revaluation hne ..).mp hn) hs
      · exact absurd ((lockSequence_revaluation hne ..).mp hn) hs

/-- Where no account gains or loses anything, nothing is posted. -/
theorem revalueAccounts_idle {args : RevalueArgs} {closingRate : ℚ} (hrate : args.closing F R = some closingRate)
    (accs : List Account) (b : FxBooks F R FS RS) (h : ∀ acc ∈ accs, b.gainOf (some closingRate) acc = 0) :
    args.revalueAccounts closingRate accs b = some (.ok [], b) := by
  induction accs with
  | nil => rfl
  | cons acc accs ih =>
    obtain ⟨hacc, h⟩ := List.forall_mem_cons.mp h
    rw [revalueAccounts]
    have hcases := args.adjustmentOf_cases b acc
    rw [hrate] at hcases
    rcases hcases with ⟨-, hadj⟩ | ⟨hdue, -⟩
    · rw [hadj]
      exact ih h
    · exact absurd hacc hdue

/-- A revaluation answers Ok, has moved the two accounts by the gain, and called again posts nothing. -/
def BooksRateDifference (b : FxBooks F R FS RS) : Prop :=
  ∃ out b', args.revalue b = some (.ok out, b') ∧ args.Moved b.reporting b'.reporting (b.gain (args.closing F R)) ∧
    args.revalue b' = some (.ok [], b')

/-- No account of the foreign chart is worth another amount at the closing rate. -/
def NothingDue (b : FxBooks F R FS RS) : Prop :=
  ∀ acc ∈ b.foreign.coa.iter, b.gainOf (args.closing F R) acc = 0

theorem revalue_idle (b : FxBooks F R FS RS) (h : args.NothingDue b) : args.revalue b = some (.ok [], b) := by
  unfold revalue
  cases hrate : args.table.rate (CurrencyCode.CODE F) (CurrencyCode.CODE R) args.asOf with
  | none => rfl
  | some closingRate =>
    have hc : args.closing F R = some closingRate := hrate
    rw [NothingDue, hc] at h
    exact revalueAccounts_idle hc _ b h

theorem gain_eq_zero {b : FxBooks F R FS RS} (h : args.NothingDue b) : b.gain (args.closing F R) = 0 := by
  refine List.sum_eq_zero fun x hx => ?_
  obtain ⟨acc, hacc, rfl⟩ := List.mem_map.mp hx
  exact h acc hacc

/-- **Revaluation books the rate difference**: for distinct accounts and an open period, exactly when the two accounts
are on different shards or there is nothing to book. -/
theorem revalue_iff {accounts : List Account} (b : FxBooks F R FS RS) (hcoa : b.foreign.coa = chart accounts)
    (hne : args.revaluationAccount ≠ args.fxAccount) (ho : b.reporting.periodIsClosed args.period = false) :
    args.BooksRateDifference b ↔ args.Separate b.reporting ∨ args.NothingDue b := by
  have hn : (b.foreign.coa.iter.map (·.id)).Nodup := by
    rw [hcoa]
    exact nodup_ids (wellKeyed_chart accounts)
  have hidle : args.NothingDue b → args.BooksRateDifference b := by
    intro h
    have hrun := args.revalue_idle b h
    refine ⟨[], b, hrun, ?_, hrun⟩
    rw [args.gain_eq_zero h]
    exact Moved.refl args b.reporting
  cases hrate : args.table.rate (CurrencyCode.CODE F) (CurrencyCode.CODE R) args.asOf with
  | none =>
    have hdue : args.NothingDue b := by
      intro acc _
      rw [show args.closing F R = none from hrate]
      rfl
    exact iff_of_true (hidle hdue) (Or.inr hdue)
  | some closingRate =>
    have hc : args.closing F R = some closingRate := hrate
    have hrevalue : ∀ b : FxBooks F R FS RS,
        args.revalue b = args.revalueAccounts closingRate b.foreign.coa.iter b := by
      intro b
      unfold revalue
      rw [hrate]
    constructor
    · rintro ⟨out, b', hrun, -⟩
      by_contra hcon
      obtain ⟨hs, hdue⟩ := not_or.mp hcon
      rw [NothingDue, hc] at hdue
      push Not at hdue
      rw [hrevalue, revalueAccounts_waits hne hc _ b hs hdue] at hrun
      exact nomatch hrun
    · rintro (hs | hdue)
      · obtain ⟨out, b', hrun, hmoved, hdone, hf, -⟩ := revalueAccounts_ends hne hc _ hn b hs ho
        rw [← hrevalue] at hrun
        refine ⟨out, b', hrun, by rw [hc]; exact hmoved, args.revalue_idle b' fun acc hacc => ?_⟩
        rw [hc]
        exact hdone acc (hf ▸ hacc)
      · exact hidle hdue

/-- 100 EUR of cash against stock, booked at par; the euro is worth 1.10. -/
def euroBooks : FxBooks Eur Usd 64 64 where
  foreign :=
    ((JournalEngine.new (fun a => mod64 a.uuid) (chart [⟨⟨1⟩, "1000", "Cash", .asset⟩, ⟨⟨2⟩, "3000", "Stock", .equity⟩])
      false).withLeg ⟨⟨0⟩, ⟨1⟩, .debit, 100, "2026-01", "invest"⟩).withLeg ⟨⟨0⟩, ⟨2⟩, .credit, 100, "2026-01", "invest"⟩
  bookRates := Function.update (fun _ => none) ⟨1⟩ (some 1)
  reporting := .new (fun a => mod64 a.uuid) .new false

def euroArgs (fxAccount : AccountId) : RevalueArgs where
  table := ({} : FxRateTable).setRate "EUR" "USD" 0 (11 / 10)
  asOf := 0
  revaluationAccount := ⟨5⟩
  fxAccount
  period := "2026-01"

theorem euro_revalued : (euroArgs ⟨6⟩).BooksRateDifference euroBooks :=
  (revalue_iff (euroArgs ⟨6⟩) euroBooks rfl (by decide) rfl).mpr (Or.inl (by unfold Separate; decide))

/-- The two accounts are on one shard: the posting waits for itself. -/
theorem euro_not_revalued :
    ¬ ∀ (args : RevalueArgs) (accounts : List Account) (b : FxBooks Eur Usd 64 64), b.foreign.coa = chart accounts →
      args.revaluationAccount ≠ args.fxAccount → b.reporting.periodIsClosed args.period = false →
        args.BooksRateDifference b := by
  intro h
  have hrun : ((euroArgs ⟨69⟩).revalue euroBooks).isSome = false := by decide +kernel
  obtain ⟨out, b', hr, -⟩ := h (euroArgs ⟨69⟩) _ euroBooks rfl (by decide) rfl
  rw [hr] at hrun
  exact nomatch hrun

end RevalueArgs

end TptErp.Gl
