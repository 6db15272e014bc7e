import TptErp.Gl.NetPosting
import TptErp.Lib.Places
import Mathlib.Data.List.Sort

/-!
# Consolidation

Each entity keeps its own books; `consolidate` puts their trial balances side by side, and `eliminate`
takes the inter-company balances out, pair by pair: a due-from row of one entity (an asset or expense,
on the debit side) against a due-to row of another (a liability or equity, on the credit side).
`derive_elimination_pairs` finds the pairs from tags on the accounts.

A step of the loop takes the same amount off the debits of one row and off the credits of another, and
no more than either row's balance when that is positive (`pair_ok`).  So whatever rows the pairs share,
the totals fall together and no balance is overdrawn (`eliminate_sound`).
-/

namespace TptErp.Gl

open Ledger Places

variable {C : Type} {SHARDS : Nat}

/-! ## Trial balances -/

/-- Marker of legal entities. -/
inductive LegalEntity

abbrev EntityId := Id LegalEntity

/-- One account's totals for a single entity. -/
structure EntityBalance (C : Type) where
  account : AccountId
  kind : AccountType
  debits : Money C
  credits : Money C

structure EntityTrialBalance (C : Type) where
  entity : EntityId
  rows : List (EntityBalance C)

def EntityTrialBalance.isBalanced (tb : EntityTrialBalance C) : Bool :=
  (tb.rows.map (·.debits)).foldl (· + ·) 0 = (tb.rows.map (·.credits)).foldl (· + ·) 0

def entityTrialBalance (eng : JournalEngine C SHARDS) (entity : EntityId) : EntityTrialBalance C :=
  { entity
    rows := eng.coa.iter.map fun acc =>
      { account := acc.id, kind := acc.kind, debits := (eng.balanceOf acc.id).debits
        credits := (eng.balanceOf acc.id).credits } }

/-- A single (entity, account) balance of the group. -/
structure ConsolidatedRow (C : Type) where
  entity : EntityId
  account : AccountId
  kind : AccountType
  debits : Money C
  credits : Money C

/-- The balance in the account's normal direction. -/
def ConsolidatedRow.signed (r : ConsolidatedRow C) : Money C :=
  match r.kind.normalSide with
  | .debit => r.debits - r.credits
  | .credit => r.credits - r.debits

structure ConsolidatedTrialBalance (C : Type) where
  rows : List (ConsolidatedRow C) := []
  totalDebits : Money C := 0
  totalCredits : Money C := 0

namespace ConsolidatedTrialBalance

def isBalanced (ctb : ConsolidatedTrialBalance C) : Bool := ctb.totalDebits = ctb.totalCredits

/-- The row of an account of an entity. -/
def find (ctb : ConsolidatedTrialBalance C) (entity : EntityId) (account : AccountId) : Option (ConsolidatedRow C) :=
  ctb.rows.find? fun r => r.entity = entity ∧ r.account = account

def add (ctb : ConsolidatedTrialBalance C) (entity : EntityId) (r : EntityBalance C) : ConsolidatedTrialBalance C :=
  { rows := ctb.rows ++
      [{ entity, account := r.account, kind := r.kind, debits := r.debits, credits := r.credits }]
    totalDebits := ctb.totalDebits + r.debits
    totalCredits := ctb.totalCredits + r.credits }

end ConsolidatedTrialBalance

/-- By entity, then by account. -/
def rowLe (a b : ConsolidatedRow C) : Prop :=
  a.entity < b.entity ∨ a.entity = b.entity ∧ a.account ≤ b.account

instance : DecidableRel (rowLe (C := C)) := fun _ _ => inferInstanceAs (Decidable (_ ∨ _))

def consolidate (inputs : List (EntityTrialBalance C)) : ConsolidatedTrialBalance C :=
  let ctb := inputs.foldl
    (fun ctb input => input.rows.foldl (fun ctb r => ctb.add input.entity r) ctb) ({} : ConsolidatedTrialBalance C)
  { ctb with rows := ctb.rows.insertionSort rowLe }

/-! ## Eliminating pairs -/

structure EliminationPair where
  fromEntity : EntityId
  fromAccount : AccountId
  toEntity : EntityId
  toAccount : AccountId

/-- An entry of the parent ledger. -/
structure EliminationEntry (C : Type) where
  account : AccountId
  side : EntrySide
  amount : Money C

structure EliminationResult (C : Type) where
  trialBalance : ConsolidatedTrialBalance C
  entries : List (EliminationEntry C)
  totalEliminated : Money C

inductive ConsolidationError
  | unknownAccount (entity : EntityId) (account : AccountId)

/-- What the loop over the pairs has come to. -/
structure Elimination (C : Type) where
  rows : List (ConsolidatedRow C)
  entries : List (EliminationEntry C) := []
  totalEliminated : Money C := 0

def position (rows : List (ConsolidatedRow C)) (entity : EntityId) (account : AccountId) : Option Nat :=
  rows.findIdx? fun r => r.entity = entity ∧ r.account = account

def signedAt (rows : List (ConsolidatedRow C)) (i : Nat) : Money C := (rows[i]?.map (·.signed)).getD 0

def ConsolidatedRow.takeDebits (amount : Money C) (r : ConsolidatedRow C) : ConsolidatedRow C :=
  { r with debits := r.debits - amount }

def ConsolidatedRow.takeCredits (amount : Money C) (r : ConsolidatedRow C) : ConsolidatedRow C :=
  { r with credits := r.credits - amount }

/-- One pair. -/
def Elimination.pair (st : Elimination C) (p : EliminationPair) : Except ConsolidationError (Elimination C) :=
  match position st.rows p.fromEntity p.fromAccount, position st.rows p.toEntity p.toAccount with
  | none, _ => .error (.unknownAccount p.fromEntity p.fromAccount)
  | some _, none => .error (.unknownAccount p.toEntity p.toAccount)
  | some i, some j =>
    let overlap := min (signedAt st.rows i) (signedAt st.rows j)
    let amount := if 0 < overlap then overlap else 0
    if 0 < amount then
      .ok
        { rows := (st.rows.modify i (·.takeDebits amount)).modify j (·.takeCredits amount)
          entries := st.entries ++
            [{ account := p.fromAccount, side := .credit, amount }, { account := p.toAccount, side := .debit, amount }]
          totalEliminated := st.totalEliminated + amount }
    else .ok st

def Elimination.pairs : List EliminationPair → Elimination C → Except ConsolidationError (Elimination C)
  | [], st => .ok st
  | p :: ps, st =>
    match st.pair p with
    | .error e => .error e
    | .ok st => pairs ps st

def eliminate (ctb : ConsolidatedTrialBalance C) (pairs : List EliminationPair) :
    Except ConsolidationError (EliminationResult C) :=
  match Elimination.pairs pairs { rows := ctb.rows } with
  | .error e => .error e
  | .ok st =>
    .ok
      { trialBalance :=
          { rows := st.rows
            totalDebits := st.rows.foldl (fun total r => total + r.debits) 0
            totalCredits := st.rows.foldl (fun total r => total + r.credits) 0 }
        entries := st.entries
        totalEliminated := st.totalEliminated }

/-- The entries as entries of the parent ledger. -/
def eliminationLedgerEntries (entries : List (EliminationEntry C)) : List (LedgerEntry C) :=
  entries.map fun e => { account := e.account, side := e.side, amount := e.amount }

/-! ## Deriving the pairs -/

/-- The tagged rows: for an entity and its counterparty the due-to row seen last, and all due-from rows. -/
structure DueRows (C : Type) where
  dueTo : AssocMap (EntityId × EntityId) (ConsolidatedRow C) := ∅
  dueFrom : List (ConsolidatedRow C) := []

def DueRows.add (tags : AccountId → Option EntityId) (due : DueRows C) (row : ConsolidatedRow C) : DueRows C :=
  match tags row.account with
  | none => due
  | some counterparty =>
    match row.kind with
    | .asset | .expense => { due with dueFrom := due.dueFrom ++ [row] }
    | .liability | .equity => { due with dueTo := due.dueTo.insert (row.entity, counterparty) row }
    | .revenue => due

/-- By the due-from side, then by the due-to side, each by entity and account. -/
def pairLe (a b : EliminationPair) : Prop :=
  a.fromEntity < b.fromEntity ∨ a.fromEntity = b.fromEntity ∧
    (a.fromAccount < b.fromAccount ∨ a.fromAccount = b.fromAccount ∧
      (a.toEntity < b.toEntity ∨ a.toEntity = b.toEntity ∧ a.toAccount ≤ b.toAccount))

instance : DecidableRel pairLe := fun _ _ => inferInstanceAs (Decidable (_ ∨ _))

def deriveEliminationPairs (ctb : ConsolidatedTrialBalance C) (tags : AccountId → Option EntityId) :
    List EliminationPair :=
  let due := ctb.rows.foldl (DueRows.add tags) ({} : DueRows C)
  let pairs := due.dueFrom.filterMap fun row =>
    match tags row.account with
    | none => none
    | some counterparty =>
      (due.dueTo.lookup (counterparty, row.entity)).map fun dueTo =>
        { fromEntity := row.entity, fromAccount := row.account, toEntity := dueTo.entity, toAccount := dueTo.account }
  pairs.insertionSort pairLe

/-! ## One pair -/

theorem position_eq_some {rows : List (ConsolidatedRow C)} {entity : EntityId} {account : AccountId} {i : Nat}
    (h : position rows entity account = some i) :
    ∃ r, rows[i]? = some r ∧ r.entity = entity ∧ r.account = account := by
  obtain ⟨hi, hr, -⟩ := List.findIdx?_eq_some_iff_getElem.mp h
  exact ⟨rows[i], List.getElem?_eq_getElem hi, of_decide_eq_true hr⟩

theorem position_isSome {rows : List (ConsolidatedRow C)} {r : ConsolidatedRow C} (h : r ∈ rows) :
    (position rows r.entity r.account).isSome := by
  rw [position, List.findIdx?_isSome]
  exact List.any_eq_true.mpr ⟨r, h, decide_eq_true ⟨rfl, rfl⟩⟩

/-- A step takes the rows' common balance off both, when it is positive. -/
theorem Elimination.pair_ok {st st' : Elimination C} {p : EliminationPair} (h : st.pair p = .ok st') :
    ∃ i j, position st.rows p.fromEntity p.fromAccount = some i ∧ position st.rows p.toEntity p.toAccount = some j ∧
      ∃ amount, amount = max 0 (min (signedAt st.rows i) (signedAt st.rows j)) ∧
        st'.rows = (st.rows.modify i (·.takeDebits amount)).modify j (·.takeCredits amount) ∧
        st'.totalEliminated = st.totalEliminated + amount ∧
        (st'.entries = st.entries ++
            [{ account := p.fromAccount, side := .credit, amount },
              { account := p.toAccount, side := .debit, amount }] ∨
          st'.entries = st.entries) := by
  unfold Elimination.pair at h
  split at h
  · cases h
  · cases h
  · next i j hi hj =>
    refine ⟨i, j, hi, hj, max 0 (min (signedAt st.rows i) (signedAt st.rows j)), rfl, ?_⟩
    dsimp only at h
    generalize min (signedAt st.rows i) (signedAt st.rows j) = overlap at h ⊢
    by_cases hpos : 0 < overlap
    · rw [if_pos hpos, if_pos hpos] at h
      obtain rfl := Except.ok.inj h
      rw [max_eq_right hpos.le]
      exact ⟨rfl, rfl, Or.inl rfl⟩
    · rw [if_neg hpos, if_neg (lt_irrefl _)] at h
      obtain rfl := Except.ok.inj h
      have hdebits : (fun r : ConsolidatedRow C => r.takeDebits 0) = id :=
        funext fun r => by rw [ConsolidatedRow.takeDebits, sub_zero]; rfl
      have hcredits : (fun r : ConsolidatedRow C => r.takeCredits 0) = id :=
        funext fun r => by rw [ConsolidatedRow.takeCredits, sub_zero]; rfl
      rw [max_eq_left (not_lt.mp hpos), hdebits, hcredits, List.modify_id, List.modify_id, add_zero]
      exact ⟨rfl, rfl, Or.inr rfl⟩

theorem ConsolidatedRow.takeDebits_signed (amount : Money C) (r : ConsolidatedRow C) :
    (r.takeDebits amount).signed = r.signed - onDebit r.kind.normalSide amount := by
  unfold takeDebits signed onDebit
  cases r.kind.normalSide with
  | debit => show r.debits - amount - r.credits = r.debits - r.credits - amount; ring
  | credit => show r.credits - (r.debits - amount) = r.credits - r.debits - -amount; ring

theorem ConsolidatedRow.takeCredits_signed (amount : Money C) (r : ConsolidatedRow C) :
    (r.takeCredits amount).signed = r.signed + onDebit r.kind.normalSide amount := by
  unfold takeCredits signed onDebit
  cases r.kind.normalSide with
  | debit => show r.debits - (r.credits - amount) = r.debits - r.credits + amount; ring
  | credit => show r.credits - amount - r.debits = r.credits - r.debits + -amount; ring

/-! ## What the loop keeps -/

/-- The pair names the row on one of its sides. -/
def EliminationPair.Names (p : EliminationPair) (r : ConsolidatedRow C) : Prop :=
  (r.entity = p.fromEntity ∧ r.account = p.fromAccount) ∨ (r.entity = p.toEntity ∧ r.account = p.toAccount)

/-- A row after the pairs: the same account, not overdrawn, and untouched when no pair names it. -/
structure RowKept (pairs : List EliminationPair) (r r' : ConsolidatedRow C) : Prop where
  account : r'.entity = r.entity ∧ r'.account = r.account ∧ r'.kind = r.kind
  signed : 0 ≤ r.signed → 0 ≤ r'.signed
  unnamed : (∀ p ∈ pairs, ¬ p.Names r) → r' = r

theorem RowKept.refl (pairs : List EliminationPair) (r : ConsolidatedRow C) : RowKept pairs r r :=
  ⟨⟨rfl, rfl, rfl⟩, id, fun _ => rfl⟩

theorem RowKept.trans {pairs : List EliminationPair} {r₁ r₂ r₃ : ConsolidatedRow C} (h₁ : RowKept pairs r₁ r₂)
    (h₂ : RowKept pairs r₂ r₃) : RowKept pairs r₁ r₃ := by
  obtain ⟨he, ha, hk⟩ := h₁.account
  obtain ⟨he', ha', hk'⟩ := h₂.account
  refine ⟨⟨he'.trans he, ha'.trans ha, hk'.trans hk⟩, fun h => h₂.signed (h₁.signed h), fun hn => ?_⟩
  have heq := h₁.unnamed hn
  rw [← heq] at hn
  exact (h₂.unnamed hn).trans heq

/-- What the loop has come to, against the rows it started from. -/
structure Progress (pairs : List EliminationPair) (rows : List (ConsolidatedRow C)) (st : Elimination C) : Prop where
  kept : List.Forall₂ (RowKept pairs) rows st.rows
  debits : (st.rows.map (·.debits)).sum = (rows.map (·.debits)).sum - st.totalEliminated
  credits : (st.rows.map (·.credits)).sum = (rows.map (·.credits)).sum - st.totalEliminated
  entries : ((st.entries.filter fun e => e.side = .debit).map (·.amount)).sum =
    ((st.entries.filter fun e => e.side = .credit).map (·.amount)).sum

theorem Progress.start (pairs : List EliminationPair) (rows : List (ConsolidatedRow C)) :
    Progress pairs rows { rows } :=
  ⟨List.forall₂_same.mpr fun r _ => RowKept.refl pairs r, (sub_zero _).symm, (sub_zero _).symm, rfl⟩

theorem kept_pair {pairs : List EliminationPair} {p : EliminationPair} (hp : p ∈ pairs) {st st' : Elimination C}
    (h : st.pair p = .ok st') : List.Forall₂ (RowKept pairs) st.rows st'.rows := by
  obtain ⟨i, j, hi, hj, amount, hamount, hrows, -⟩ := Elimination.pair_ok h
  obtain ⟨r, hr, hre, hra⟩ := position_eq_some hi
  obtain ⟨q, hq, hqe, hqa⟩ := position_eq_some hj
  have hsr : signedAt st.rows i = r.signed := by rw [signedAt, hr]; rfl
  have hsq : signedAt st.rows j = q.signed := by rw [signedAt, hq]; rfl
  rw [hsr, hsq] at hamount
  have hpos : 0 ≤ amount := hamount ▸ le_max_left ..
  have hler : 0 ≤ r.signed → amount ≤ r.signed := fun h => hamount ▸ max_le h (min_le_left ..)
  have hleq : 0 ≤ q.signed → amount ≤ q.signed := fun h => hamount ▸ max_le h (min_le_right ..)
  rw [hrows]
  have hfrom : List.Forall₂ (RowKept pairs) st.rows (st.rows.modify i (·.takeDebits amount)) := by
    refine forall₂_modify (RowKept.refl pairs) fun a ha => ?_
    obtain rfl := Option.some.inj (hr.symm.trans ha)
    refine ⟨⟨rfl, rfl, rfl⟩, fun h => ?_, fun hn => absurd (Or.inl ⟨hre, hra⟩) (hn p hp)⟩
    rw [ConsolidatedRow.takeDebits_signed]
    cases r.kind.normalSide with
    | debit => exact sub_nonneg.mpr (hler h)
    | credit => exact sub_nonneg.mpr ((neg_nonpos.mpr hpos).trans h)
  refine forall₂_trans (fun _ _ _ h₁ h₂ => h₁.trans h₂) hfrom (forall₂_modify (RowKept.refl pairs) fun a ha => ?_)
  by_cases hij : i = j
  · -- the pair names one row on both sides: its balance stays
    subst hij
    obtain rfl := Option.some.inj (hr.symm.trans hq)
    rw [List.getElem?_modify_eq, hr] at ha
    obtain rfl := Option.some.inj ha
    refine ⟨⟨rfl, rfl, rfl⟩, fun h => ?_, fun hn => absurd (Or.inl ⟨hre, hra⟩) (hn p hp)⟩
    have hback : ((r.takeDebits amount).takeCredits amount).signed = r.signed := by
      rw [ConsolidatedRow.takeCredits_signed, ConsolidatedRow.takeDebits_signed]
      exact sub_add_cancel ..
    rw [hback]
    by_contra hneg
    rw [min_self, max_eq_left (not_le.mp hneg).le] at hamount
    rw [ConsolidatedRow.takeDebits_signed, hamount, (onDebit_eq_zero_iff _ _).mpr rfl, sub_zero] at h
    exact hneg h
  · rw [List.getElem?_modify_ne _ _ hij] at ha
    obtain rfl := Option.some.inj (hq.symm.trans ha)
    refine ⟨⟨rfl, rfl, rfl⟩, fun h => ?_, fun hn => absurd (Or.inr ⟨hqe, hqa⟩) (hn p hp)⟩
    rw [ConsolidatedRow.takeCredits_signed]
    cases q.kind.normalSide with
    | debit => exact add_nonneg h hpos
    | credit => exact (sub_nonneg.mpr (hleq h)).trans_eq (sub_eq_add_neg ..)

/-- Debits taken off one row, credits off another: both totals fall by the amount. -/
theorem sum_take {rows : List (ConsolidatedRow C)} {i j : Nat} (hi : i < rows.length) (hj : j < rows.length)
    (amount : Money C) :
    (((rows.modify i (·.takeDebits amount)).modify j (·.takeCredits amount)).map (·.debits)).sum =
        (rows.map (·.debits)).sum - amount ∧
      (((rows.modify i (·.takeDebits amount)).modify j (·.takeCredits amount)).map (·.credits)).sum =
        (rows.map (·.credits)).sum - amount := by
  have hdebits := map_modify_eq (f := fun r : ConsolidatedRow C => r.debits) (g := fun r => r.takeCredits amount)
    (fun _ => rfl) (rows.modify i (·.takeDebits amount)) j
  have hcredits := map_modify_eq (f := fun r : ConsolidatedRow C => r.credits) (g := fun r => r.takeDebits amount)
    (fun _ => rfl) rows i
  constructor
  · rw [hdebits, sum_map_modify (d := -amount) (fun r => sub_eq_add_neg r.debits amount) hi, ← sub_eq_add_neg]
  · rw [sum_map_modify (d := -amount) (fun r => sub_eq_add_neg r.credits amount) (by rwa [List.length_modify]),
      hcredits, ← sub_eq_add_neg]

theorem progress_pair {pairs : List EliminationPair} {p : EliminationPair} (hp : p ∈ pairs)
    {rows : List (ConsolidatedRow C)} {st st' : Elimination C} (hst : Progress pairs rows st)
    (h : st.pair p = .ok st') : Progress pairs rows st' := by
  obtain ⟨i, j, hi, hj, amount, -, hrows, htotal, hentries⟩ := Elimination.pair_ok h
  obtain ⟨r, hr, -⟩ := position_eq_some hi
  obtain ⟨q, hq, -⟩ := position_eq_some hj
  obtain ⟨hdebits, hcredits⟩ :=
    sum_take (List.getElem?_eq_some_iff.mp hr).1 (List.getElem?_eq_some_iff.mp hq).1 amount
  refine ⟨forall₂_trans (fun _ _ _ h₁ h₂ => h₁.trans h₂) hst.kept (kept_pair hp h), ?_, ?_, ?_⟩
  · rw [hrows, hdebits, hst.debits, htotal, sub_sub]
  · rw [hrows, hcredits, hst.credits, htotal, sub_sub]
  · rcases hentries with hentries | hentries
    · rw [hentries, List.filter_append, List.filter_append, List.map_append, List.map_append, List.sum_append,
        List.sum_append, hst.entries]
      rfl
    · rw [hentries, hst.entries]

/-- The pair's accounts have rows. -/
def EliminationPair.Known (p : EliminationPair) (rows : List (ConsolidatedRow C)) : Prop :=
  (position rows p.fromEntity p.fromAccount).isSome ∧ (position rows p.toEntity p.toAccount).isSome

theorem position_kept {pairs : List EliminationPair} {rows rows' : List (ConsolidatedRow C)}
    (h : List.Forall₂ (RowKept pairs) rows rows') (entity : EntityId) (account : AccountId) :
    position rows' entity account = position rows entity account := by
  induction h with
  | nil => rfl
  | cons hr _ ih =>
    obtain ⟨he, ha, -⟩ := hr.account
    unfold position at ih ⊢
    rw [List.findIdx?_cons, List.findIdx?_cons, he, ha, ih]

theorem Elimination.pair_isOk {st : Elimination C} {p : EliminationPair} (h : p.Known st.rows) :
    ∃ st', st.pair p = .ok st' := by
  obtain ⟨i, hi⟩ := Option.isSome_iff_exists.mp h.1
  obtain ⟨j, hj⟩ := Option.isSome_iff_exists.mp h.2
  unfold Elimination.pair
  rw [hi, hj]
  dsimp only
  split
  · exact ⟨_, rfl⟩
  · exact ⟨_, rfl⟩

/-- Pairs whose accounts have rows are eliminated to the end. -/
theorem progress_pairs {pairs : List EliminationPair} {rows : List (ConsolidatedRow C)}
    (hknown : ∀ p ∈ pairs, p.Known rows) {ps : List EliminationPair} (hps : ∀ p ∈ ps, p ∈ pairs) {st : Elimination C}
    (hst : Progress pairs rows st) : ∃ st', Elimination.pairs ps st = .ok st' ∧ Progress pairs rows st' := by
  induction ps generalizing st with
  | nil => exact ⟨st, rfl, hst⟩
  | cons p ps ih =>
    obtain ⟨hp, hps⟩ := List.forall_mem_cons.mp hps
    have hk : p.Known st.rows := by
      rw [EliminationPair.Known, position_kept hst.kept, position_kept hst.kept]
      exact hknown p hp
    obtain ⟨st', h⟩ := Elimination.pair_isOk hk
    rw [Elimination.pairs, h]
    exact ih hps (progress_pair hp hst h)

/-! ## Derived pairs -/

/-- The kinds of the due-from side. -/
def AccountType.isDueFrom : AccountType → Bool
  | .asset | .expense => true
  | _ => false

/-- The kinds of the due-to side. -/
def AccountType.isDueTo : AccountType → Bool
  | .liability | .equity => true
  | _ => false

variable (tags : AccountId → Option EntityId)

/-- A row of an entity on the given side that is tagged with a counterparty. -/
def isDue (side : AccountType → Bool) (entity counterparty : EntityId) (r : ConsolidatedRow C) : Bool :=
  r.entity = entity ∧ side r.kind = true ∧ tags r.account = some counterparty

theorem isDue_iff {side : AccountType → Bool} {entity counterparty : EntityId} {r : ConsolidatedRow C} :
    isDue tags side entity counterparty r = true ↔
      r.entity = entity ∧ side r.kind = true ∧ tags r.account = some counterparty := decide_eq_true_iff

/-- The due-to rows of an entity that are tagged with a counterparty. -/
def dueTo (rows : List (ConsolidatedRow C)) (entity counterparty : EntityId) : List (ConsolidatedRow C) :=
  rows.filter (isDue tags AccountType.isDueTo entity counterparty)

theorem foldl_dueFrom (rows : List (ConsolidatedRow C)) (due : DueRows C) :
    (rows.foldl (DueRows.add tags) due).dueFrom =
      due.dueFrom ++ rows.filter fun r => r.kind.isDueFrom = true ∧ (tags r.account).isSome := by
  induction rows generalizing due with
  | nil => exact (List.append_nil _).symm
  | cons r rows ih =>
    rw [List.foldl_cons, ih, DueRows.add]
    cases ht : tags r.account with
    | none => rw [List.filter_cons_of_neg (by simp [ht])]
    | some counterparty =>
      cases hk : r.kind with
      | asset | expense =>
        rw [List.filter_cons_of_pos (by simp [ht, hk, AccountType.isDueFrom]), List.append_assoc]
        rfl
      | liability | equity | revenue => rw [List.filter_cons_of_neg (by simp [hk, AccountType.isDueFrom])]

theorem foldl_dueTo (rows : List (ConsolidatedRow C)) (due : DueRows C) (entity counterparty : EntityId) :
    (rows.foldl (DueRows.add tags) due).dueTo.lookup (entity, counterparty) =
      ((dueTo tags rows entity counterparty).getLast?).or (due.dueTo.lookup (entity, counterparty)) := by
  induction rows generalizing due with
  | nil => rfl
  | cons r rows ih =>
    rw [List.foldl_cons, ih, DueRows.add]
    by_cases hr : r.entity = entity ∧ r.kind.isDueTo = true ∧ tags r.account = some counterparty
    · have hcons : dueTo tags (r :: rows) entity counterparty = r :: dueTo tags rows entity counterparty :=
        List.filter_cons_of_pos (decide_eq_true hr)
      obtain ⟨he, hk, ht⟩ := hr
      rw [hcons, ht, List.getLast?_cons]
      have hinsert : (due.dueTo.insert (r.entity, counterparty) r).lookup (entity, counterparty) = some r := by
        rw [AssocMap.lookup_insert_eq, he, if_pos rfl]
      cases hkind : r.kind with
      | liability | equity =>
        dsimp only
        rw [hinsert]
        cases (dueTo tags rows entity counterparty).getLast? <;> rfl
      | asset | expense | revenue =>
        rw [hkind] at hk
        exact nomatch hk
    · have hcons : dueTo tags (r :: rows) entity counterparty = dueTo tags rows entity counterparty :=
        List.filter_cons_of_neg fun h => hr (of_decide_eq_true h)
      rw [hcons]
      congr 1
      cases ht : tags r.account with
      | none => rfl
      | some tag =>
        cases hk : r.kind with
        | asset | expense | revenue => rfl
        | liability | equity =>
          dsimp only
          rw [AssocMap.lookup_insert_eq, if_neg]
          rintro heq
          obtain ⟨rfl, rfl⟩ := Prod.mk.inj heq
          exact hr ⟨rfl, by rw [hk]; rfl, ht⟩

/-- The derived pairs: each due-from row with the last due-to row of its counterparty that is tagged with its entity. -/
theorem mem_deriveEliminationPairs {ctb : ConsolidatedTrialBalance C} {p : EliminationPair} :
    p ∈ deriveEliminationPairs ctb tags ↔
      ∃ r ∈ ctb.rows, r.kind.isDueFrom = true ∧ ∃ counterparty, tags r.account = some counterparty ∧
        ∃ q, (dueTo tags ctb.rows counterparty r.entity).getLast? = some q ∧
          p = { fromEntity := r.entity, fromAccount := r.account, toEntity := q.entity, toAccount := q.account } := by
  have hto : ∀ entity counterparty : EntityId,
      (ctb.rows.foldl (DueRows.add tags) ({} : DueRows C)).dueTo.lookup (entity, counterparty) =
        (dueTo tags ctb.rows entity counterparty).getLast? := by
    intro entity counterparty
    rw [foldl_dueTo]
    exact Option.or_none
  unfold deriveEliminationPairs
  dsimp only
  rw [List.mem_insertionSort, List.mem_filterMap, foldl_dueFrom]
  constructor
  · rintro ⟨r, hr, h⟩
    obtain ⟨hr, hd⟩ := List.mem_filter.mp hr
    obtain ⟨hk, -⟩ := of_decide_eq_true hd
    split at h
    · cases h
    · next counterparty ht =>
      obtain ⟨q, hq, rfl⟩ := Option.map_eq_some_iff.mp h
      rw [hto] at hq
      exact ⟨r, hr, hk, counterparty, ht, q, hq, rfl⟩
  · rintro ⟨r, hr, hk, counterparty, ht, q, hq, rfl⟩
    refine ⟨r, List.mem_filter.mpr ⟨hr, decide_eq_true ⟨hk, by rw [ht]; rfl⟩⟩, ?_⟩
    rw [ht]
    dsimp only
    rw [hto, hq]
    rfl

/-- The accounts of a derived pair have rows. -/
theorem known_deriveEliminationPairs {ctb : ConsolidatedTrialBalance C} {p : EliminationPair}
    (hp : p ∈ deriveEliminationPairs ctb tags) : p.Known ctb.rows := by
  obtain ⟨r, hr, -, counterparty, -, q, hq, rfl⟩ := (mem_deriveEliminationPairs tags).mp hp
  exact ⟨position_isSome hr, position_isSome (List.mem_of_mem_filter (List.mem_of_getLast? hq))⟩

/-! ## Consolidated totals -/

/-- The totals are those of the rows. -/
structure ConsolidatedTrialBalance.Totalled (ctb : ConsolidatedTrialBalance C) : Prop where
  debits : ctb.totalDebits = (ctb.rows.map (·.debits)).sum
  credits : ctb.totalCredits = (ctb.rows.map (·.credits)).sum

theorem foldl_total {α : Type} (f : α → Money C) (l : List α) :
    l.foldl (fun total a => total + f a) 0 = (l.map f).sum := by
  rw [List.sum_eq_foldl, List.foldl_map]

/-- An entity's rows bring in the entity's own totals. -/
theorem foldl_add_totals (entity : EntityId) (rows : List (EntityBalance C)) {ctb : ConsolidatedTrialBalance C}
    (h : ctb.Totalled) :
    (rows.foldl (fun ctb r => ctb.add entity r) ctb).Totalled ∧
      (rows.foldl (fun ctb r => ctb.add entity r) ctb).totalDebits =
        ctb.totalDebits + (rows.map (·.debits)).sum ∧
      (rows.foldl (fun ctb r => ctb.add entity r) ctb).totalCredits =
        ctb.totalCredits + (rows.map (·.credits)).sum := by
  induction rows generalizing ctb with
  | nil => exact ⟨h, (add_zero _).symm, (add_zero _).symm⟩
  | cons r rows ih =>
    have hadd : (ctb.add entity r).Totalled := by
      constructor
      · rw [ConsolidatedTrialBalance.add, List.map_append, List.sum_append, ← h.debits, List.map_singleton,
          List.sum_singleton]
      · rw [ConsolidatedTrialBalance.add, List.map_append, List.sum_append, ← h.credits, List.map_singleton,
          List.sum_singleton]
    obtain ⟨ht, hd, hc⟩ := ih hadd
    rw [List.foldl_cons, List.map_cons, List.map_cons, List.sum_cons, List.sum_cons, ← add_assoc, ← add_assoc]
    exact ⟨ht, hd, hc⟩

/-- The row of an entity's balance. -/
def EntityBalance.row (entity : EntityId) (r : EntityBalance C) : ConsolidatedRow C :=
  { entity, account := r.account, kind := r.kind, debits := r.debits, credits := r.credits }

theorem foldl_add_rows (entity : EntityId) (rows : List (EntityBalance C)) (ctb : ConsolidatedTrialBalance C) :
    (rows.foldl (fun ctb r => ctb.add entity r) ctb).rows = ctb.rows ++ rows.map (·.row entity) := by
  induction rows generalizing ctb with
  | nil => exact (List.append_nil _).symm
  | cons r rows ih =>
    rw [List.foldl_cons, ih, ConsolidatedTrialBalance.add, List.map_cons, List.append_assoc]
    rfl

/-- Every entity's rows, in some order. -/
theorem consolidate_rows (inputs : List (EntityTrialBalance C)) :
    (consolidate inputs).rows.Perm (inputs.flatMap fun tb => tb.rows.map (·.row tb.entity)) := by
  have hfold : ∀ ctb : ConsolidatedTrialBalance C,
      (inputs.foldl (fun ctb input => input.rows.foldl (fun ctb r => ctb.add input.entity r) ctb) ctb).rows =
        ctb.rows ++ inputs.flatMap fun tb => tb.rows.map (·.row tb.entity) := by
    induction inputs with
    | nil => exact fun _ => (List.append_nil _).symm
    | cons tb inputs ih =>
      intro ctb
      rw [List.foldl_cons, ih, foldl_add_rows, List.flatMap_cons, List.append_assoc]
  refine (List.perm_insertionSort rowLe _).trans ?_
  rw [hfold]
  exact List.Perm.refl _

theorem EntityTrialBalance.isBalanced_iff (tb : EntityTrialBalance C) :
    tb.isBalanced = true ↔ (tb.rows.map (·.debits)).sum = (tb.rows.map (·.credits)).sum := by
  rw [isBalanced, decide_eq_true_iff, List.sum_eq_foldl, List.sum_eq_foldl]

/-- A group of balanced books is balanced, and its totals are those of its rows. -/
theorem consolidate_balanced {inputs : List (EntityTrialBalance C)} (h : ∀ tb ∈ inputs, tb.isBalanced = true) :
    (consolidate inputs).Totalled ∧ (consolidate inputs).totalDebits = (consolidate inputs).totalCredits := by
  have hfold : ∀ ctb : ConsolidatedTrialBalance C, ctb.Totalled ∧ ctb.totalDebits = ctb.totalCredits →
      let out := inputs.foldl (fun ctb input => input.rows.foldl (fun ctb r => ctb.add input.entity r) ctb) ctb
      out.Totalled ∧ out.totalDebits = out.totalCredits := by
    induction inputs with
    | nil => exact fun _ h => h
    | cons tb inputs ih =>
      intro ctb ⟨ht, hb⟩
      obtain ⟨htb, h⟩ := List.forall_mem_cons.mp h
      obtain ⟨ht, hd, hc⟩ := foldl_add_totals tb.entity tb.rows ht
      refine ih h _ ⟨ht, ?_⟩
      rw [hd, hc, hb, (EntityTrialBalance.isBalanced_iff tb).mp htb]
  obtain ⟨⟨hd, hc⟩, hb⟩ := hfold {} ⟨⟨rfl, rfl⟩, rfl⟩
  have hperm := List.perm_insertionSort rowLe
    (inputs.foldl (fun ctb input => input.rows.foldl (fun ctb r => ctb.add input.entity r) ctb)
      ({} : ConsolidatedTrialBalance C)).rows
  exact ⟨⟨hd.trans (hperm.map _).sum_eq.symm, hc.trans (hperm.map _).sum_eq.symm⟩, hb⟩

/-! ## Elimination -/

/-- What an elimination gives: the books balance, both totals have fallen by what was eliminated, every row is kept
and the entries balance. -/
structure Eliminated (pairs : List EliminationPair) (ctb : ConsolidatedTrialBalance C) (res : EliminationResult C) :
    Prop where
  balanced : res.trialBalance.isBalanced = true
  debits : res.trialBalance.totalDebits = ctb.totalDebits - res.totalEliminated
  credits : res.trialBalance.totalCredits = ctb.totalCredits - res.totalEliminated
  rows : List.Forall₂ (RowKept pairs) ctb.rows res.trialBalance.rows
  entries : ∀ id, ({ id, entries := eliminationLedgerEntries res.entries } : Transaction C).isBalanced = true

theorem total_ledgerEntries (id : TransactionId) (entries : List (EliminationEntry C)) (side : EntrySide) :
    ({ id, entries := eliminationLedgerEntries entries } : Transaction C).total side =
      ((entries.filter fun e => e.side = side).map (·.amount)).sum := by
  rw [Transaction.total_eq_sum, eliminationLedgerEntries, List.filter_map, List.map_map]
  rfl

theorem eliminate_progress {ctb : ConsolidatedTrialBalance C} {pairs : List EliminationPair} (ht : ctb.Totalled)
    (hb : ctb.totalDebits = ctb.totalCredits) (hknown : ∀ p ∈ pairs, p.Known ctb.rows) :
    ∃ res, eliminate ctb pairs = .ok res ∧ Eliminated pairs ctb res := by
  obtain ⟨st, hrun, hst⟩ := progress_pairs hknown (fun _ hp => hp) (Progress.start pairs ctb.rows)
  unfold eliminate
  rw [hrun]
  have hdebits : st.rows.foldl (fun total r => total + r.debits) 0 = ctb.totalDebits - st.totalEliminated := by
    rw [foldl_total, hst.debits, ht.debits]
  have hcredits : st.rows.foldl (fun total r => total + r.credits) 0 = ctb.totalCredits - st.totalEliminated := by
    rw [foldl_total, hst.credits, ht.credits]
  refine ⟨_, rfl, ?_, hdebits, hcredits, hst.kept, fun id => ?_⟩
  · refine decide_eq_true ?_
    rw [hdebits, hcredits, hb]
  · refine decide_eq_true ?_
    rw [Transaction.debits, Transaction.credits, total_ledgerEntries, total_ledgerEntries, hst.entries]

/-- The first entity has lent 100 to the second, which books it on two accounts. -/
def group : List (EntityTrialBalance Usd) :=
  [⟨⟨1⟩, [⟨⟨11⟩, .asset, 100, 0⟩, ⟨⟨12⟩, .equity, 0, 100⟩]⟩,
    ⟨⟨2⟩, [⟨⟨21⟩, .asset, 100, 0⟩, ⟨⟨22⟩, .liability, 0, 60⟩, ⟨⟨23⟩, .liability, 0, 40⟩]⟩]

def groupTags (account : AccountId) : Option EntityId :=
  if account = ⟨11⟩ then some ⟨2⟩ else if account = ⟨22⟩ ∨ account = ⟨23⟩ then some ⟨1⟩ else none

end TptErp.Gl
