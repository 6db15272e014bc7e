import TptErp.Money
import TptErp.Lib.AssocMap
import TptErp.Lib.GroupBy
import TptErp.Lib.SortDedup
import TptErp.Lib.Effective
import Mathlib.Data.String.Basic
import Mathlib.Algebra.BigOperators.Group.List.Basic

/-!
# Tax

A rate table keyed by jurisdiction, tax type and effective date, and the tax payable for a list of
taxable lines.  Amounts and rates are exact.  When every line has a rate in force,

    compute_tax table lines as_of = .ok r  →
      one row for each jurisdiction of the lines, in order: the sums of its lines' bases and rounded taxes
      total_base = ∑ base,  total_tax = ∑ round (base * rate)                        (computeTax_eq)

and the rate of a line is the last one inserted for the latest date that is not after `as_of`
(`rate_eq_some_iff`), whatever the order of the insertions.
-/

namespace TptErp

structure Jurisdiction where
  code : String

namespace Jurisdiction

theorem code_injective : Function.Injective code := by
  rintro ⟨a⟩ ⟨b⟩ h
  exact congrArg Jurisdiction.mk h

instance : LinearOrder Jurisdiction := LinearOrder.lift' code code_injective

end Jurisdiction

inductive TaxType
  | sales
  | vat
  | corporate
  | withholding
deriving DecidableEq

/-- A rate as a decimal fraction, and the instant it became effective. -/
structure TaxRateRow where
  rate : ℚ
  effective : Int
  note : String
deriving DecidableEq

structure TaxRateTable where
  rates : AssocMap (Jurisdiction × TaxType) (List TaxRateRow)

namespace TaxRateTable

def new : TaxRateTable := ⟨∅⟩

/-- Duplicate effective dates collapse to the last one inserted. -/
def insert (self : TaxRateTable) (jurisdiction : Jurisdiction) (tax_type : TaxType) (effective : Int) (rate : ℚ)
    (note : String) : TaxRateTable :=
  let entry : TaxRateRow := { rate, effective, note }
  let list := self.rates.getD (jurisdiction, tax_type) []
  ⟨self.rates.insert (jurisdiction, tax_type) (Effective.put TaxRateRow.effective entry list)⟩

/-- The rate in effect at or before `as_of`. -/
def rate (self : TaxRateTable) (jurisdiction : Jurisdiction) (tax_type : TaxType) (as_of : Int) : Option TaxRateRow :=
  (self.rates.lookup (jurisdiction, tax_type)).bind fun hist => Effective.asOf TaxRateRow.effective as_of hist

end TaxRateTable

structure TaxableLine (C : Type) where
  jurisdiction : Jurisdiction
  tax_type : TaxType
  account : Option String
  base : Money C

structure TaxByJurisdiction (C : Type) where
  jurisdiction : Jurisdiction
  taxable_base : Money C
  tax_payable : Money C

structure TaxResult (C : Type) where
  by_jurisdiction : List (TaxByJurisdiction C)
  total_base : Money C
  total_tax : Money C

inductive TaxError
  | noRate (jurisdiction : Jurisdiction) (tax_type : TaxType)
deriving DecidableEq

namespace Tax

variable {C : Type} [Currency C]

/-! ## Algorithm -/

/-- `round_dp_with_strategy(dp, MidpointAwayFromZero)`. -/
def roundMidpointAway (dp : Nat) (x : ℚ) : ℚ :=
  let n := ⌊|x| * 10 ^ dp + 1 / 2⌋
  if 0 ≤ x then n / 10 ^ dp else -(n / 10 ^ dp)

/-- `Money::<C>::new(base * rate).round(MidpointAwayFromZero)`. -/
def roundedTax (base : Money C) (row : TaxRateRow) : Money C :=
  roundMidpointAway (Currency.MINOR_UNITS C) (base * row.rate)

/-- The accumulators of `compute_tax`. -/
structure Acc where
  per_jur : AssocMap Jurisdiction (ℚ × ℚ) := ∅
  total_base : ℚ := 0
  total_tax : ℚ := 0

/-- One line. -/
def addLine (table : TaxRateTable) (as_of : Int) (acc : Acc) (line : TaxableLine C) : Except TaxError Acc :=
  match table.rate line.jurisdiction line.tax_type as_of with
  | none => .error (.noRate line.jurisdiction line.tax_type)
  | some row =>
    let tax := roundedTax line.base row
    let entry := acc.per_jur.getD line.jurisdiction (0, 0)
    .ok
      { per_jur := acc.per_jur.insert line.jurisdiction (entry.1 + line.base, entry.2 + tax)
        total_base := acc.total_base + line.base
        total_tax := acc.total_tax + tax }

/-- Compute tax payable per jurisdiction, using the rate in effect at `as_of` for each line. -/
def computeTax (table : TaxRateTable) (lines : List (TaxableLine C)) (as_of : Int) : Except TaxError (TaxResult C) := do
  let acc ← lines.foldlM (addLine table as_of) {}
  let rows : List (TaxByJurisdiction C) := acc.per_jur.entries.map fun e => ⟨e.1, e.2.1, e.2.2⟩
  return {
    by_jurisdiction := rows.insertionSort fun a b => a.jurisdiction ≤ b.jurisdiction
    total_base := acc.total_base
    total_tax := acc.total_tax }

/-! ## The rate in force -/

/-- One call of `insert`. -/
structure Insertion where
  jurisdiction : Jurisdiction
  tax_type : TaxType
  row : TaxRateRow

/-- The table after these insertions, in order. -/
def tableOf (log : List Insertion) : TaxRateTable :=
  log.foldl (fun t e => t.insert e.jurisdiction e.tax_type e.row.effective e.row.rate e.row.note) .new

/-- The rows that were inserted for a key, in order. -/
def rowsFor (log : List Insertion) (jurisdiction : Jurisdiction) (tax_type : TaxType) : List TaxRateRow :=
  (log.filter fun e => (e.jurisdiction, e.tax_type) = (jurisdiction, tax_type)).map Insertion.row

theorem getD_tableOf (log : List Insertion) (jurisdiction : Jurisdiction) (tax_type : TaxType) :
    (tableOf log).rates.getD (jurisdiction, tax_type) [] =
      Effective.fill TaxRateRow.effective (rowsFor log jurisdiction tax_type) := by
  have hrates : ∀ (log : List Insertion) (t : TaxRateTable),
      (log.foldl (fun t e => t.insert e.jurisdiction e.tax_type e.row.effective e.row.rate e.row.note) t).rates =
        log.foldl (fun m e => m.insert (e.jurisdiction, e.tax_type)
          (Effective.put TaxRateRow.effective e.row (m.getD (e.jurisdiction, e.tax_type) []))) t.rates := by
    intro log
    induction log with
    | nil => exact fun _ => rfl
    | cons e log ih => exact fun t => ih _
  unfold tableOf
  rw [hrates, AssocMap.getD_foldl_insert (fun e : Insertion => (e.jurisdiction, e.tax_type))
    (fun hist e => Effective.put TaxRateRow.effective e.row hist), rowsFor, Effective.fill, List.foldl_map]
  rfl

theorem rate_tableOf (log : List Insertion) (jurisdiction : Jurisdiction) (tax_type : TaxType) (as_of : Int) :
    (tableOf log).rate jurisdiction tax_type as_of =
      Effective.asOf TaxRateRow.effective as_of
        (Effective.fill TaxRateRow.effective (rowsFor log jurisdiction tax_type)) := by
  rw [← getD_tableOf, TaxRateTable.rate, AssocMap.getD]
  cases (tableOf log).rates.lookup (jurisdiction, tax_type) with
  | none => rfl
  | some hist => rfl

/-- **The rate of a line** is the last one inserted for its key at the latest date not after `as_of`. -/
theorem rate_eq_some_iff (log : List Insertion) (jurisdiction : Jurisdiction) (tax_type : TaxType) (as_of : Int)
    (row : TaxRateRow) :
    (tableOf log).rate jurisdiction tax_type as_of = some row ↔
      (∃ before after, rowsFor log jurisdiction tax_type = before ++ row :: after ∧
        ∀ r ∈ after, r.effective ≠ row.effective) ∧
      row.effective ≤ as_of ∧
      ∀ r ∈ rowsFor log jurisdiction tax_type, r.effective ≤ as_of → r.effective ≤ row.effective := by
  rw [rate_tableOf]
  exact Effective.asOf_fill TaxRateRow.effective _ as_of row

theorem rate_eq_none_iff (log : List Insertion) (jurisdiction : Jurisdiction) (tax_type : TaxType) (as_of : Int) :
    (tableOf log).rate jurisdiction tax_type as_of = none ↔
      ∀ r ∈ rowsFor log jurisdiction tax_type, as_of < r.effective := by
  rw [rate_tableOf]
  exact Effective.asOf_eq_none TaxRateRow.effective _ as_of

/-- Only the order of the insertions of one date (for one key) matters, and no date after `as_of`. -/
theorem rate_congr {log log' : List Insertion} {as_of : Int}
    (h : ∀ j t, ∀ d ≤ as_of,
      (rowsFor log j t).filter (fun r => r.effective = d) = (rowsFor log' j t).filter fun r => r.effective = d)
    (j : Jurisdiction) (t : TaxType) : (tableOf log).rate j t as_of = (tableOf log').rate j t as_of := by
  rw [rate_tableOf, rate_tableOf]
  exact Effective.asOf_congr TaxRateRow.effective (h j t)

/-- A rate effective later changes nothing. -/
theorem rate_insert_of_lt (before after : List Insertion) (e : Insertion) {as_of : Int} (h : as_of < e.row.effective)
    (j : Jurisdiction) (t : TaxType) :
    (tableOf (before ++ e :: after)).rate j t as_of = (tableOf (before ++ after)).rate j t as_of := by
  rw [rate_tableOf, rate_tableOf, rowsFor, rowsFor, List.filter_append, List.filter_append, List.map_append,
    List.map_append]
  by_cases hk : (e.jurisdiction, e.tax_type) = (j, t)
  · rw [List.filter_cons_of_pos (by simpa using hk)]
    exact Effective.asOf_insert_of_lt TaxRateRow.effective _ _ h
  · rw [List.filter_cons_of_neg (by simpa using hk)]

/-! ## The computation -/

/-- The rounded tax of a line (0: it has no rate). -/
def lineTax (table : TaxRateTable) (as_of : Int) (line : TaxableLine C) : Money C :=
  ((table.rate line.jurisdiction line.tax_type as_of).map (roundedTax line.base)).getD 0

/-- The line has a rate in force. -/
def Rated (table : TaxRateTable) (as_of : Int) (line : TaxableLine C) : Prop :=
  (table.rate line.jurisdiction line.tax_type as_of).isSome

/-- A rated line, added to the accumulators. -/
def addRated (table : TaxRateTable) (as_of : Int) (acc : Acc) (line : TaxableLine C) : Acc where
  per_jur := acc.per_jur.insert line.jurisdiction
    ((acc.per_jur.getD line.jurisdiction (0, 0)).1 + line.base,
      (acc.per_jur.getD line.jurisdiction (0, 0)).2 + lineTax table as_of line)
  total_base := acc.total_base + line.base
  total_tax := acc.total_tax + lineTax table as_of line

variable (table : TaxRateTable) (as_of : Int)

theorem addLine_eq (acc : Acc) (line : TaxableLine C) :
    addLine table as_of acc line =
      if (table.rate line.jurisdiction line.tax_type as_of).isSome then .ok (addRated table as_of acc line)
      else .error (.noRate line.jurisdiction line.tax_type) := by
  unfold addLine addRated lineTax
  cases table.rate line.jurisdiction line.tax_type as_of with
  | none => rfl
  | some row => rfl

theorem foldlM_addLine_ok (lines : List (TaxableLine C)) (acc : Acc) (h : ∀ line ∈ lines, Rated table as_of line) :
    lines.foldlM (addLine table as_of) acc = .ok (lines.foldl (addRated table as_of) acc) := by
  induction lines generalizing acc with
  | nil => rfl
  | cons line lines ih =>
    have hline : (table.rate line.jurisdiction line.tax_type as_of).isSome := h line List.mem_cons_self
    rw [List.foldlM_cons, addLine_eq, if_pos hline, List.foldl_cons]
    exact ih _ fun l hl => h l (List.mem_cons_of_mem line hl)

/-- The first line without a rate is the one the error names. -/
theorem foldlM_addLine_error (before after : List (TaxableLine C)) (line : TaxableLine C) (acc : Acc)
    (hbefore : ∀ l ∈ before, Rated table as_of l) (hline : table.rate line.jurisdiction line.tax_type as_of = none) :
    (before ++ line :: after).foldlM (addLine table as_of) acc = .error (.noRate line.jurisdiction line.tax_type) := by
  rw [List.foldlM_append, foldlM_addLine_ok table as_of before acc hbefore]
  show List.foldlM (addLine table as_of) _ (line :: after) = _
  rw [List.foldlM_cons, addLine_eq, hline]
  rfl

/-- The lines of a jurisdiction. -/
def linesOf (lines : List (TaxableLine C)) (j : Jurisdiction) : List (TaxableLine C) :=
  lines.filter fun line => line.jurisdiction = j

/-- A jurisdiction's row, from its lines. -/
def rowOf (lines : List (TaxableLine C)) (j : Jurisdiction) : TaxByJurisdiction C where
  jurisdiction := j
  taxable_base := ((linesOf lines j).map TaxableLine.base).sum
  tax_payable := ((linesOf lines j).map (lineTax table as_of)).sum

theorem foldl_addRated (lines : List (TaxableLine C)) (acc : Acc) :
    (lines.foldl (addRated table as_of) acc).total_base = acc.total_base + (lines.map TaxableLine.base).sum ∧
      (lines.foldl (addRated table as_of) acc).total_tax = acc.total_tax + (lines.map (lineTax table as_of)).sum ∧
      (lines.foldl (addRated table as_of) acc).per_jur = lines.foldl (fun m line => m.insert line.jurisdiction
        ((m.getD line.jurisdiction (0, 0)).1 + line.base,
          (m.getD line.jurisdiction (0, 0)).2 + lineTax table as_of line))
        acc.per_jur := by
  induction lines generalizing acc with
  | nil => exact ⟨(add_zero _).symm, (add_zero _).symm, rfl⟩
  | cons line lines ih =>
    obtain ⟨h1, h2, h3⟩ := ih (addRated table as_of acc line)
    refine ⟨?_, ?_, h3⟩
    · rw [List.foldl_cons, h1, List.map_cons, List.sum_cons, ← add_assoc]
      rfl
    · rw [List.foldl_cons, h2, List.map_cons, List.sum_cons, ← add_assoc]
      rfl

/-- Two sums in one pass. -/
theorem foldl_pair {α : Type} (f g : α → ℚ) (l : List α) (v : ℚ × ℚ) :
    l.foldl (fun v a => (v.1 + f a, v.2 + g a)) v = (v.1 + (l.map f).sum, v.2 + (l.map g).sum) := by
  induction l generalizing v with
  | nil => simp
  | cons a l ih => simp only [List.foldl_cons, ih, List.map_cons, List.sum_cons, add_assoc]

/-- The rows before they are sorted: one for each jurisdiction. -/
theorem rows_perm (lines : List (TaxableLine C)) :
    ((lines.foldl (addRated table as_of) {}).per_jur.entries.map fun e =>
      (⟨e.1, e.2.1, e.2.2⟩ : TaxByJurisdiction C)).Perm
        ((SortDedup.sortDedup (lines.map TaxableLine.jurisdiction)).map (rowOf table as_of lines)) := by
  rw [(foldl_addRated table as_of lines {}).2.2]
  generalize hm : lines.foldl (fun (m : AssocMap Jurisdiction (ℚ × ℚ)) line => m.insert line.jurisdiction
    ((m.getD line.jurisdiction (0, 0)).1 + line.base,
      (m.getD line.jurisdiction (0, 0)).2 + lineTax table as_of line)) ∅ = m
  have hvalue : ∀ k, m.getD k (0, 0) =
      (((linesOf lines k).map TaxableLine.base).sum, ((linesOf lines k).map (lineTax table as_of)).sum) := by
    intro k
    rw [← hm, AssocMap.getD_foldl_insert TaxableLine.jurisdiction
      (fun v line => (v.1 + line.base, v.2 + lineTax table as_of line))]
    rw [foldl_pair]
    exact Prod.ext (zero_add _) (zero_add _)
  have hkeys : ∀ k, k ∈ m.entries.map Sigma.fst ↔ k ∈ SortDedup.sortDedup (lines.map TaxableLine.jurisdiction) := by
    intro k
    rw [SortDedup.mem_sortDedup]
    have := AssocMap.mem_foldl_insert TaxableLine.jurisdiction (fun (m : AssocMap Jurisdiction (ℚ × ℚ)) line =>
      ((m.getD line.jurisdiction (0, 0)).1 + line.base, (m.getD line.jurisdiction (0, 0)).2 + lineTax table as_of line))
      lines ∅ k
    rw [hm] at this
    exact (this.trans (or_iff_right (AList.notMem_empty k))).trans List.mem_map.symm
  have hrow : m.entries.map (fun e => (⟨e.1, e.2.1, e.2.2⟩ : TaxByJurisdiction C)) =
      (m.entries.map Sigma.fst).map (rowOf table as_of lines) := by
    rw [List.map_map]
    apply List.map_congr_left
    rintro ⟨k, v⟩ he
    have hl : m.lookup k = some v := (List.mem_dlookup_iff m.nodupKeys).mpr he
    have hv := hvalue k
    rw [AssocMap.getD, hl, Option.getD_some] at hv
    rw [hv]
    rfl
  rw [hrow]
  apply List.Perm.map
  apply (List.perm_ext_iff_of_nodup m.nodupKeys _).mpr hkeys
  exact (SortDedup.sortDedup_pairwise _).imp ne_of_lt

/-- **The result**, when every line has a rate. -/
theorem computeTax_eq (lines : List (TaxableLine C)) (h : ∀ line ∈ lines, Rated table as_of line) :
    computeTax table lines as_of = .ok
      { by_jurisdiction := (SortDedup.sortDedup (lines.map TaxableLine.jurisdiction)).map (rowOf table as_of lines)
        total_base := (lines.map TaxableLine.base).sum
        total_tax := (lines.map (lineTax table as_of)).sum } := by
  have htotal : Std.Total fun a b : TaxByJurisdiction C => a.jurisdiction ≤ b.jurisdiction := ⟨fun _ _ => le_total _ _⟩
  have htrans : IsTrans (TaxByJurisdiction C) fun a b => a.jurisdiction ≤ b.jurisdiction := ⟨fun _ _ _ => le_trans⟩
  have hrows := rows_perm table as_of lines
  obtain ⟨h1, h2, -⟩ := foldl_addRated table as_of lines {}
  have hsorted : ((SortDedup.sortDedup (lines.map TaxableLine.jurisdiction)).map (rowOf table as_of lines)).Pairwise
      fun a b => a.jurisdiction < b.jurisdiction := by
    rw [List.pairwise_map]
    exact SortDedup.sortDedup_pairwise _
  have hsort : ((lines.foldl (addRated table as_of) {}).per_jur.entries.map fun e =>
      (⟨e.1, e.2.1, e.2.2⟩ : TaxByJurisdiction C)).insertionSort (fun a b => a.jurisdiction ≤ b.jurisdiction) =
      (SortDedup.sortDedup (lines.map TaxableLine.jurisdiction)).map (rowOf table as_of lines) := by
    have hperm := List.Perm.trans
      (List.perm_insertionSort (fun a b : TaxByJurisdiction C => a.jurisdiction ≤ b.jurisdiction) _) hrows
    refine List.Perm.eq_of_pairwise ?_ (List.pairwise_insertionSort _ _) (hsorted.imp le_of_lt) hperm
    intro a b ha hb hab hba
    -- two rows of one jurisdiction are the same
    obtain ⟨j, -, rfl⟩ := List.mem_map.mp (hperm.mem_iff.mp ha)
    obtain ⟨j', -, rfl⟩ := List.mem_map.mp hb
    rw [show j = j' from le_antisymm hab hba]
  unfold computeTax
  rw [foldlM_addLine_ok table as_of lines {} h]
  simp only [pure, Except.pure, bind, Except.bind]
  rw [hsort, h1, h2]
  exact congrArg Except.ok (by
    rw [show ({} : Acc).total_base = 0 from rfl, show ({} : Acc).total_tax = 0 from rfl, zero_add, zero_add])

omit [Currency C] in
/-- Every line is rated, or there is a first one that is not. -/
theorem rated_or_first (lines : List (TaxableLine C)) :
    (∀ line ∈ lines, Rated table as_of line) ∨
      ∃ before line after, lines = before ++ line :: after ∧ (∀ l ∈ before, Rated table as_of l) ∧
        table.rate line.jurisdiction line.tax_type as_of = none := by
  induction lines with
  | nil => exact .inl fun _ h => absurd h List.not_mem_nil
  | cons line lines ih =>
    cases hr : table.rate line.jurisdiction line.tax_type as_of with
    | none => exact .inr ⟨[], line, lines, rfl, fun _ h => absurd h List.not_mem_nil, hr⟩
    | some row =>
      have hline : Rated table as_of line := Option.isSome_of_mem hr
      rcases ih with hall | ⟨before, l, after, rfl, hbefore, hl⟩
      · exact .inl (List.forall_mem_cons.mpr ⟨hline, hall⟩)
      · exact .inr ⟨line :: before, l, after, rfl, List.forall_mem_cons.mpr ⟨hline, hbefore⟩, hl⟩

/-- The error names the first line without a rate. -/
theorem computeTax_error {before after : List (TaxableLine C)} {line : TaxableLine C}
    (hbefore : ∀ l ∈ before, Rated table as_of l) (hline : table.rate line.jurisdiction line.tax_type as_of = none) :
    computeTax table (before ++ line :: after) as_of = .error (.noRate line.jurisdiction line.tax_type) := by
  unfold computeTax
  rw [foldlM_addLine_error table as_of before after line {} hbefore hline]
  rfl

theorem computeTax_error_iff (lines : List (TaxableLine C)) :
    (∃ e, computeTax table lines as_of = .error e) ↔
      ∃ line ∈ lines, table.rate line.jurisdiction line.tax_type as_of = none := by
  rcases rated_or_first table as_of lines with hall | ⟨before, line, after, rfl, hbefore, hline⟩
  · refine iff_of_false ?_ ?_
    · rintro ⟨e, he⟩
      rw [computeTax_eq table as_of lines hall] at he
      cases he
    · rintro ⟨line, hl, hn⟩
      have := hall line hl
      rw [Rated, hn] at this
      cases this
  · exact iff_of_true ⟨_, computeTax_error table as_of hbefore hline⟩
      ⟨line, List.mem_append_right before List.mem_cons_self, hline⟩

theorem rated_of_ok {lines : List (TaxableLine C)} {r : TaxResult C} (h : computeTax table lines as_of = .ok r) :
    ∀ line ∈ lines, Rated table as_of line := by
  rcases rated_or_first table as_of lines with hall | ⟨before, line, after, rfl, hbefore, hline⟩
  · exact hall
  · rw [computeTax_error table as_of hbefore hline] at h
    cases h

/-! ## Rows and totals -/

/-- One row for each jurisdiction; the rows add up to the totals, which are those of the lines. -/
theorem computeTax_rows {lines : List (TaxableLine C)} {r : TaxResult C} (h : computeTax table lines as_of = .ok r) :
    (r.by_jurisdiction.map TaxByJurisdiction.jurisdiction).Nodup ∧
    (∀ j, j ∈ r.by_jurisdiction.map TaxByJurisdiction.jurisdiction ↔ ∃ line ∈ lines, line.jurisdiction = j) ∧
    r.total_base = (r.by_jurisdiction.map TaxByJurisdiction.taxable_base).sum ∧
    r.total_tax = (r.by_jurisdiction.map TaxByJurisdiction.tax_payable).sum ∧
    r.total_base = (lines.map TaxableLine.base).sum ∧
    r.total_tax = (lines.map (lineTax table as_of)).sum := by
  rw [computeTax_eq table as_of lines (rated_of_ok table as_of h)] at h
  cases h
  have hkeys : ((SortDedup.sortDedup (lines.map TaxableLine.jurisdiction)).map (rowOf table as_of lines)).map
      TaxByJurisdiction.jurisdiction = SortDedup.sortDedup (lines.map TaxableLine.jurisdiction) := by
    rw [List.map_map]
    exact List.map_id _
  have hnodup : (SortDedup.sortDedup (lines.map TaxableLine.jurisdiction)).Nodup :=
    (SortDedup.sortDedup_pairwise _).imp ne_of_lt
  have hcover : ∀ line ∈ lines, line.jurisdiction ∈ SortDedup.sortDedup (lines.map TaxableLine.jurisdiction) := by
    intro line hl
    rw [SortDedup.mem_sortDedup]
    exact List.mem_map_of_mem hl
  refine ⟨?_, ?_, ?_, ?_, rfl, rfl⟩
  · rw [hkeys]
    exact hnodup
  · intro j
    rw [hkeys, SortDedup.mem_sortDedup, List.mem_map]
  · rw [List.map_map]
    exact (GroupBy.sum_groups TaxableLine.jurisdiction TaxableLine.base hnodup hcover).symm
  · rw [List.map_map]
    exact (GroupBy.sum_groups TaxableLine.jurisdiction (lineTax table as_of) hnodup hcover).symm

/-- The order of the lines does not matter. -/
theorem computeTax_perm {lines lines' : List (TaxableLine C)} {r : TaxResult C}
    (h : computeTax table lines as_of = .ok r)
    (hp : lines'.Perm lines) : computeTax table lines' as_of = .ok r := by
  have hrated := rated_of_ok table as_of h
  rw [computeTax_eq table as_of lines hrated] at h
  cases h
  rw [computeTax_eq table as_of lines' fun line hl => hrated line (hp.mem_iff.mp hl)]
  have hrow : rowOf table as_of lines' = rowOf table as_of lines := by
    funext j
    have hj : (linesOf lines' j).Perm (linesOf lines j) := hp.filter _
    simp only [rowOf, (hj.map TaxableLine.base).sum_eq, (hj.map (lineTax table as_of)).sum_eq]
  rw [hrow, SortDedup.sortDedup_congr fun j => (hp.map TaxableLine.jurisdiction).mem_iff,
    (hp.map TaxableLine.base).sum_eq, (hp.map (lineTax table as_of)).sum_eq]

/-- The amounts in a jurisdiction's row (0: it has none). -/
def TaxResult.amounts (r : TaxResult C) (j : Jurisdiction) : ℚ × ℚ :=
  ((r.by_jurisdiction.find? fun row => row.jurisdiction = j).map fun row => (row.taxable_base, row.tax_payable)).getD
    (0, 0)

theorem find_rowOf (lines : List (TaxableLine C)) (js : List Jurisdiction) (j : Jurisdiction) :
    ((js.map (rowOf table as_of lines)).find? fun row => row.jurisdiction = j) =
      if j ∈ js then some (rowOf table as_of lines j) else none := by
  induction js with
  | nil => rfl
  | cons k js ih =>
    rw [List.map_cons, List.find?_cons]
    by_cases hk : k = j
    · have hpos : decide ((rowOf table as_of lines k).jurisdiction = j) = true := decide_eq_true hk
      rw [hpos, if_pos (List.mem_cons.mpr (Or.inl hk.symm)), hk]
    · have hneg : decide ((rowOf table as_of lines k).jurisdiction = j) = false := decide_eq_false hk
      simp only [hneg, ih, List.mem_cons, Ne.symm hk, false_or]

theorem amounts_eq {lines : List (TaxableLine C)} {r : TaxResult C} (h : computeTax table lines as_of = .ok r)
    (j : Jurisdiction) :
    TaxResult.amounts r j =
      (((linesOf lines j).map TaxableLine.base).sum, ((linesOf lines j).map (lineTax table as_of)).sum) := by
  rw [computeTax_eq table as_of lines (rated_of_ok table as_of h)] at h
  cases h
  rw [TaxResult.amounts]
  simp only [find_rowOf, SortDedup.mem_sortDedup, List.mem_map]
  split
  · rfl
  · next hno =>
    have hnil : linesOf lines j = [] := by
      rw [linesOf, List.filter_eq_nil_iff]
      intro line hl he
      exact hno ⟨line, hl, of_decide_eq_true he⟩
    rw [hnil]
    rfl

/-- Two lists of lines, one after the other. -/
theorem computeTax_append {lines more : List (TaxableLine C)} {r r' : TaxResult C}
    (h : computeTax table lines as_of = .ok r) (h' : computeTax table more as_of = .ok r') :
    ∃ sum, computeTax table (lines ++ more) as_of = .ok sum ∧
      sum.total_base = r.total_base + r'.total_base ∧ sum.total_tax = r.total_tax + r'.total_tax ∧
      ∀ j, TaxResult.amounts sum j = TaxResult.amounts r j + TaxResult.amounts r' j := by
  have hsum := computeTax_eq table as_of (lines ++ more)
    (List.forall_mem_append.mpr ⟨rated_of_ok table as_of h, rated_of_ok table as_of h'⟩)
  obtain ⟨-, -, -, -, hb, ht⟩ := computeTax_rows table as_of h
  obtain ⟨-, -, -, -, hb', ht'⟩ := computeTax_rows table as_of h'
  refine ⟨_, hsum, ?_, ?_, ?_⟩
  · rw [hb, hb', ← List.sum_append, ← List.map_append]
  · rw [ht, ht', ← List.sum_append, ← List.map_append]
  · intro j
    rw [amounts_eq table as_of hsum, amounts_eq table as_of h, amounts_eq table as_of h', linesOf, List.filter_append,
      List.map_append, List.map_append, List.sum_append, List.sum_append]
    rfl

/-- The table is read at `as_of` only. -/
theorem computeTax_congr {table table' : TaxRateTable} {as_of : Int}
    (h : ∀ j t, table.rate j t as_of = table'.rate j t as_of) (lines : List (TaxableLine C)) :
    computeTax table lines as_of = computeTax table' lines as_of := by
  have hline : addLine (C := C) table as_of = addLine table' as_of := by
    funext acc line
    rw [addLine, addLine, h]
  rw [computeTax, computeTax, hline]

/-- **Tax computation is additive and point-in-time.** -/
theorem compute_tax_point_in_time (log : List Insertion) (as_of : Int) (lines : List (TaxableLine C)) :
    ((∃ e, computeTax (tableOf log) lines as_of = .error e) ↔
      ∃ line ∈ lines, ∀ row ∈ rowsFor log line.jurisdiction line.tax_type, as_of < row.effective) ∧
    (∀ r, computeTax (tableOf log) lines as_of = .ok r →
      ((r.by_jurisdiction.map TaxByJurisdiction.jurisdiction).Nodup ∧
        (∀ j, j ∈ r.by_jurisdiction.map TaxByJurisdiction.jurisdiction ↔ ∃ line ∈ lines, line.jurisdiction = j) ∧
        r.total_base = (r.by_jurisdiction.map TaxByJurisdiction.taxable_base).sum ∧
        r.total_tax = (r.by_jurisdiction.map TaxByJurisdiction.tax_payable).sum ∧
        r.total_base = (lines.map TaxableLine.base).sum ∧
        r.total_tax = (lines.map (lineTax (tableOf log) as_of)).sum) ∧
      (∀ j, TaxResult.amounts r j =
        (((linesOf lines j).map TaxableLine.base).sum, ((linesOf lines j).map (lineTax (tableOf log) as_of)).sum)) ∧
      (∀ lines', lines'.Perm lines → computeTax (tableOf log) lines' as_of = .ok r) ∧
      ∀ more r', computeTax (tableOf log) more as_of = .ok r' →
        ∃ sum, computeTax (tableOf log) (lines ++ more) as_of = .ok sum ∧
          sum.total_base = r.total_base + r'.total_base ∧ sum.total_tax = r.total_tax + r'.total_tax ∧
          ∀ j, TaxResult.amounts sum j = TaxResult.amounts r j + TaxResult.amounts r' j) ∧
    (∀ j t row, (tableOf log).rate j t as_of = some row ↔
      (∃ before after, rowsFor log j t = before ++ row :: after ∧ ∀ r ∈ after, r.effective ≠ row.effective) ∧
      row.effective ≤ as_of ∧ ∀ r ∈ rowsFor log j t, r.effective ≤ as_of → r.effective ≤ row.effective) ∧
    (∀ log', (∀ j t, ∀ d ≤ as_of, (rowsFor log' j t).filter (fun r => r.effective = d) =
        (rowsFor log j t).filter fun r => r.effective = d) →
      (∀ j t, (tableOf log').rate j t as_of = (tableOf log).rate j t as_of) ∧
        computeTax (tableOf log') lines as_of = computeTax (tableOf log) lines as_of) ∧
    (∀ before after, log = before ++ after → ∀ e : Insertion, as_of < e.row.effective →
      (∀ j t, (tableOf (before ++ e :: after)).rate j t as_of = (tableOf log).rate j t as_of) ∧
        computeTax (tableOf (before ++ e :: after)) lines as_of = computeTax (tableOf log) lines as_of) := by
  refine ⟨?_, ?_, ?_, ?_, ?_⟩
  · simp only [computeTax_error_iff, rate_eq_none_iff]
  · intro r hr
    exact ⟨computeTax_rows (tableOf log) as_of hr, amounts_eq (tableOf log) as_of hr,
      fun lines' hp => computeTax_perm (tableOf log) as_of hr hp,
      fun more r' hr' => computeTax_append (tableOf log) as_of hr hr'⟩
  · exact fun j t row => rate_eq_some_iff log j t as_of row
  · intro log' h
    have hrate := rate_congr h
    exact ⟨hrate, computeTax_congr hrate lines⟩
  · rintro before after rfl e he
    have hrate := rate_insert_of_lt before after e he
    exact ⟨hrate, computeTax_congr hrate lines⟩

end Tax

end TptErp
