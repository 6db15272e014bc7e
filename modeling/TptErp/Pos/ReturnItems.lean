import TptErp.Pos.Returns
import TptErp.Lib.GroupBy
import Mathlib.Algebra.BigOperators.Group.List.Basic
import Mathlib.Tactic.Ring
import Mathlib.Tactic.Linarith

/-!
# Returned items

How many units of which item come back, and what they were sold for.  Everything rests on one equation:
a return is valued by taking the whole quantity asked for of an item off *every* line of that item, and
off no line when the item was not bought (`merchandiseOf_eq`).  What this counts beyond the units that
come back is `overcount`.
-/

namespace TptErp.Pos

/-- The units of an item that the return lines ask for. -/
def requested (returns : List ReturnLine) (item : Id PosItem) : Nat :=
  ((returns.filter fun r => r.item = item).map fun r => r.qty.1).sum

/-- The units of an item that were bought. -/
def purchased (lines : List LineItem) (item : Id PosItem) : Nat :=
  ((lines.filter fun l => l.item = item).map fun l => l.qty).sum

/-- Of no item more is asked for than was bought. -/
def WithinPurchase (lines : List LineItem) (returns : List ReturnLine) : Prop :=
  ∀ item, requested returns item ≤ purchased lines item

theorem withinPurchase_iff {lines : List LineItem} {returns : List ReturnLine} :
    WithinPurchase lines returns ↔ ∀ r ∈ returns, requested returns r.item ≤ purchased lines r.item := by
  refine ⟨fun h r _ => h r.item, fun h item => ?_⟩
  by_cases hi : ∃ r ∈ returns, r.item = item
  · obtain ⟨r, hr, rfl⟩ := hi
    exact h r hr
  · unfold requested
    rw [List.filter_eq_nil_iff.mpr (fun r hr => by simpa using fun e => hi ⟨r, hr, e⟩)]
    exact Nat.zero_le _

instance (lines : List LineItem) (returns : List ReturnLine) : Decidable (WithinPurchase lines returns) :=
  decidable_of_iff _ withinPurchase_iff.symm

/-- `units` lists how many units of each line come back. -/
structure Taken (lines : List LineItem) (asked : Id PosItem → Nat) (units : List Nat) : Prop where
  bought : List.Forall₂ (fun (l : LineItem) n => n ≤ l.qty) lines units
  asked : ∀ item, (((lines.zip units).filter fun p => p.1.item = item).map fun p => p.2).sum = asked item

/-- What those units were sold for. -/
def soldFor (lines : List LineItem) (units : List Nat) : Money Usd :=
  ((lines.zip units).map fun p => p.1.unitPrice * (p.2 : ℚ)).sum

namespace SaleRecord

variable (record : SaleRecord)

/-- The units of each line that were bought. -/
def bought : List Nat := record.lines.map (·.qty)

/-- What the subtotal has over the merchandise of the lines. -/
def slack : Money Usd := record.subtotal - soldFor record.lines record.bought

end SaleRecord

/-- What the quantities asked for come to on all lines, beyond those units. -/
def overcount (lines : List LineItem) (returns : List ReturnLine) (units : List Nat) : Money Usd :=
  ((lines.zip units).map fun p => p.1.unitPrice * ((requested returns p.1.item : ℚ) - p.2)).sum

/-! ## The value of a return -/

theorem requested_nil (item : Id PosItem) : requested [] item = 0 := rfl

theorem requested_cons (r : ReturnLine) (returns : List ReturnLine) (item : Id PosItem) :
    requested (r :: returns) item = (if r.item = item then r.qty.1 else 0) + requested returns item := by
  unfold requested
  by_cases h : r.item = item
  · rw [List.filter_cons_of_pos (by simpa using h), if_pos h, List.map_cons, List.sum_cons]
  · rw [List.filter_cons_of_neg (by simpa using h), if_neg h, zero_add]

theorem le_requested {returns : List ReturnLine} {r : ReturnLine} (h : r ∈ returns) :
    r.qty.1 ≤ requested returns r.item :=
  List.le_sum_of_mem (List.mem_map_of_mem (List.mem_filter.mpr ⟨h, by simp⟩))

theorem purchased_of_not_bought {lines : List LineItem} {item : Id PosItem} (h : ∀ l ∈ lines, l.item ≠ item) :
    purchased lines item = 0 := by
  unfold purchased
  rw [List.filter_eq_nil_iff.mpr (fun l hl => by simpa using h l hl)]
  rfl

theorem purchased_cons (l : LineItem) (lines : List LineItem) (item : Id PosItem) :
    purchased (l :: lines) item = (if l.item = item then l.qty else 0) + purchased lines item := by
  unfold purchased
  by_cases h : l.item = item
  · rw [List.filter_cons_of_pos (by simpa using h), if_pos h, List.map_cons, List.sum_cons]
  · rw [List.filter_cons_of_neg (by simpa using h), if_neg h, zero_add]

/-- One return line is worth its quantity on every line of its item. -/
theorem matched_eq (lines : List LineItem) (r : ReturnLine) :
    ((lines.filter fun l => l.item = r.item).map fun l => l.unitPrice * (r.qty.1 : ℚ)).foldl (fun a b => a + b) 0 =
      (lines.map fun l => l.unitPrice * ((if r.item = l.item then r.qty.1 else 0 : Nat) : ℚ)).sum := by
  rw [← List.sum_eq_foldl]
  induction lines with
  | nil => rfl
  | cons l lines ih =>
    rw [List.map_cons, List.sum_cons]
    by_cases h : l.item = r.item
    · rw [List.filter_cons_of_pos (by simpa using h), List.map_cons, List.sum_cons, ih, if_pos h.symm]
    · rw [List.filter_cons_of_neg (by simpa using h), ih, if_neg (fun e => h e.symm), Nat.cast_zero, mul_zero,
        zero_add]

theorem foldl_matched (lines : List LineItem) (returns : List ReturnLine) (m : Money Usd) :
    returns.foldl
      (fun sum r =>
        sum + ((lines.filter fun l => l.item = r.item).map fun l => l.unitPrice * (r.qty.1 : ℚ)).foldl
          (fun a b => a + b) 0) m =
      m + (lines.map fun l => l.unitPrice * (requested returns l.item : ℚ)).sum := by
  induction returns generalizing m with
  | nil => simp [requested_nil]
  | cons r returns ih =>
    rw [List.foldl_cons, ih, matched_eq, add_assoc, ← List.sum_map_add]
    congr 3
    funext l
    rw [requested_cons, Nat.cast_add, mul_add]

theorem merchandiseOf_eq (record : SaleRecord) {returns : List ReturnLine} (h : returns ≠ []) :
    merchandiseOf record returns =
      (record.lines.map fun l => l.unitPrice * (requested returns l.item : ℚ)).sum := by
  unfold merchandiseOf
  rw [if_neg h, foldl_matched, zero_add]

theorem soldFor_add_overcount {lines : List LineItem} {units : List Nat} (returns : List ReturnLine)
    (h : lines.length = units.length) :
    soldFor lines units + overcount lines returns units =
      (lines.map fun l => l.unitPrice * (requested returns l.item : ℚ)).sum := by
  unfold soldFor overcount
  rw [← List.sum_map_add]
  have hz : lines.map (fun l => l.unitPrice * (requested returns l.item : ℚ)) =
      (lines.zip units).map fun p => p.1.unitPrice * (requested returns p.1.item : ℚ) := by
    conv_lhs => rw [← @List.map_fst_zip _ _ lines units h.le, List.map_map]
    rfl
  rw [hz]
  congr 2
  funext p
  ring

/-- Beyond all that was bought. -/
theorem overcount_bought (record : SaleRecord) (returns : List ReturnLine) :
    overcount record.lines returns record.bought =
      (record.lines.map fun l => l.unitPrice * ((requested returns l.item : ℚ) - l.qty)).sum := by
  unfold overcount SaleRecord.bought
  have hz : record.lines.zip (record.lines.map (·.qty)) = record.lines.map fun l => (l, l.qty) := by
    rw [← List.zip_map', List.map_id']
  rw [hz, List.map_map]
  rfl

/-! ## Units for every request within the purchase -/

/-- Whatever is asked for within the purchase can be taken off the lines, the first lines first. -/
theorem exists_taken (lines : List LineItem) (asked : Id PosItem → Nat)
    (h : ∀ item, asked item ≤ purchased lines item) : ∃ units, Taken lines asked units := by
  induction lines generalizing asked with
  | nil =>
    refine ⟨[], List.Forall₂.nil, fun item => ?_⟩
    have := h item
    simp only [purchased, List.filter_nil, List.map_nil, List.sum_nil, Nat.le_zero] at this
    rw [this]
    rfl
  | cons l lines ih =>
    let n := min (asked l.item) l.qty
    obtain ⟨units, hu⟩ := ih (fun item => asked item - if l.item = item then n else 0) (by
      intro item
      have hi := h item
      rw [purchased_cons] at hi
      by_cases he : l.item = item
      · subst he
        simp only [if_true] at hi ⊢
        omega
      · rw [if_neg he] at hi ⊢
        omega)
    refine ⟨n :: units, List.Forall₂.cons (Nat.min_le_right _ _) hu.bought, fun item => ?_⟩
    have ha := hu.asked item
    rw [List.zip_cons_cons]
    by_cases he : l.item = item
    · rw [if_pos he] at ha
      rw [List.filter_cons_of_pos (by simpa using he), List.map_cons, List.sum_cons, ha]
      subst he
      show n + _ = _
      omega
    · rw [if_neg he] at ha
      rw [List.filter_cons_of_neg (by simpa using he), ha]
      rfl

/-! ## Validation item by item -/

/-- A return is validated item by item: it is accepted when it stays within the purchase, at what the
units were sold for. -/
structure PerItem (record : SaleRecord) (returns : List ReturnLine) : Prop where
  accepts : (∃ v, returnedMerchandise record returns = .ok v) ↔ WithinPurchase record.lines returns
  values : ∀ v, returnedMerchandise record returns = .ok v →
    ∃ units, Taken record.lines (requested returns) units ∧ v = soldFor record.lines units
  rejects : ∀ r ∈ returns, 0 < r.qty.1 → (∀ l ∈ record.lines, l.item ≠ r.item) →
    ∃ e, returnedMerchandise record returns = .error e

namespace SaleRecord

variable (record : SaleRecord)

/-- The values tell the quantities apart: within the purchase nothing is counted beyond the units that
come back, nor more than the sale has room for; and what goes beyond the purchase is worth more than the
units it leaves on the lines. -/
structure Telling (returns : List ReturnLine) : Prop where
  exact : WithinPurchase record.lines returns →
    ∃ units, Taken record.lines (requested returns) units ∧ overcount record.lines returns units = 0
  fits : WithinPurchase record.lines returns →
    overcount record.lines returns record.bought ≤ record.slack
  shows : ¬ WithinPurchase record.lines returns →
    record.slack < overcount record.lines returns record.bought

end SaleRecord

/-! ## Each item on one line -/

/-- On a sale with each item on one line, the units that come back of a line are those asked for. -/
theorem Taken.units_eq {lines : List LineItem} {asked : Id PosItem → Nat} {units : List Nat}
    (h : Taken lines asked units) (hone : lines.Pairwise fun l m => l.item ≠ m.item) {p : LineItem × Nat}
    (hp : p ∈ lines.zip units) : p.2 = asked p.1.item := by
  have hnodup : ((lines.zip units).map fun p => p.1.item).Nodup := by
    rw [← List.map_fst_zip h.bought.length_eq.le, List.pairwise_map] at hone
    exact List.pairwise_map.mpr hone
  rw [← h.asked, GroupBy.filter_key_eq hnodup hp]
  simp

/-- A sale with each item on one line and no price below zero: only what goes beyond the purchase can
stay hidden. -/
theorem telling_iff_of_one_line {record : SaleRecord} (returns : List ReturnLine)
    (hone : record.lines.Pairwise fun l m => l.item ≠ m.item) (hprice : ∀ l ∈ record.lines, 0 ≤ l.unitPrice)
    (hsub : record.subtotal = soldFor record.lines record.bought) :
    record.Telling returns ↔
      (¬ WithinPurchase record.lines returns → 0 < overcount record.lines returns record.bought) := by
  have hslack : record.slack = 0 := by unfold SaleRecord.slack; rw [hsub, sub_self]
  refine ⟨fun ht hw => hslack ▸ ht.shows hw, fun hs => ⟨fun hw => ?_, fun hw => ?_, fun hw => hslack ▸ hs hw⟩⟩
  · obtain ⟨units, hu⟩ := exists_taken record.lines (requested returns) hw
    refine ⟨units, hu, List.sum_eq_zero fun x hx => ?_⟩
    obtain ⟨p, hp, rfl⟩ := List.mem_map.mp hx
    rw [hu.units_eq hone hp, sub_self, mul_zero]
  · rw [hslack, overcount_bought]
    refine (List.sum_le_card_nsmul _ 0 fun x hx => ?_).trans (nsmul_zero _).le
    obtain ⟨l, hl, rfl⟩ := List.mem_map.mp hx
    have hq : (requested returns l.item : ℚ) ≤ l.qty := by
      have := hw l.item
      unfold purchased at this
      rw [GroupBy.filter_key_eq (List.pairwise_map.mpr hone) hl] at this
      exact_mod_cast (by simpa using this : requested returns l.item ≤ l.qty)
    have := hprice l hl
    nlinarith

/-! ## Accepted returns -/

theorem returnedMerchandise_ok_iff (record : SaleRecord) {returns : List ReturnLine} (h : returns ≠ [])
    (v : Money Usd) :
    returnedMerchandise record returns = .ok v ↔
      v = merchandiseOf record returns ∧ overcount record.lines returns record.bought ≤ record.slack := by
  have hm := soldFor_add_overcount returns (show record.lines.length = record.bought.length from
    (List.length_map _).symm)
  rw [← merchandiseOf_eq record h] at hm
  have hle : overcount record.lines returns record.bought ≤ record.slack ↔
      ¬ record.subtotal < merchandiseOf record returns := by
    unfold SaleRecord.slack
    rw [← hm, not_lt, le_sub_iff_add_le, add_comm]
  unfold returnedMerchandise
  dsimp only
  rw [hle]
  split
  · next hlt => exact ⟨fun h => (by cases h), fun h => absurd hlt h.2⟩
  · next hlt =>
    constructor
    · intro h
      cases h
      exact ⟨rfl, hlt⟩
    · rintro ⟨rfl, -⟩
      rfl

theorem returnedMerchandise_perItem_iff (record : SaleRecord) {returns : List ReturnLine} (h : returns ≠ []) :
    PerItem record returns ↔ record.Telling returns := by
  have hval : ∀ units, Taken record.lines (requested returns) units →
      (merchandiseOf record returns = soldFor record.lines units ↔
        overcount record.lines returns units = 0) := by
    intro units hu
    rw [merchandiseOf_eq record h, ← soldFor_add_overcount returns hu.bought.length_eq]
    exact add_eq_left
  have hok := returnedMerchandise_ok_iff record h
  constructor
  · intro hp
    have hfits : WithinPurchase record.lines returns →
        overcount record.lines returns record.bought ≤ record.slack := by
      intro hw
      obtain ⟨v, hv⟩ := hp.accepts.mpr hw
      exact ((hok v).mp hv).2
    refine ⟨fun hw => ?_, hfits, fun hw => ?_⟩
    · obtain ⟨units, hu, hs⟩ := hp.values _ ((hok _).mpr ⟨rfl, hfits hw⟩)
      exact ⟨units, hu, (hval units hu).mp hs⟩
    · by_contra hle
      exact hw (hp.accepts.mp ⟨_, (hok _).mpr ⟨rfl, not_lt.mp hle⟩⟩)
  · intro ht
    have hw : overcount record.lines returns record.bought ≤ record.slack →
        WithinPurchase record.lines returns := by
      intro hle
      by_contra hw
      exact not_lt.mpr hle (ht.shows hw)
    refine ⟨⟨?_, fun hw => ⟨_, (hok _).mpr ⟨rfl, ht.fits hw⟩⟩⟩, fun v hv => ?_, fun r hr hq hn => ?_⟩
    · rintro ⟨v, hv⟩
      exact hw ((hok v).mp hv).2
    · obtain ⟨rfl, hle⟩ := (hok v).mp hv
      obtain ⟨units, hu, h0⟩ := ht.exact (hw hle)
      exact ⟨units, hu, (hval units hu).mpr h0⟩
    · cases hr' : returnedMerchandise record returns with
      | error e => exact ⟨e, rfl⟩
      | ok v =>
        have h1 := hw ((hok v).mp hr').2 r.item
        have h2 := le_requested hr
        rw [purchased_of_not_bought hn] at h1
        omega

/-- One unit of item 1 at 10 and one of item 2 at 5. -/
def twoItems : SaleRecord where
  id := ⟨0⟩
  status := .captured
  subtotal := 15
  discount := 0
  tax := 0
  total := 15
  tenders := [{ kind := .cash, amount := 15 }]
  lines :=
    [{ item := ⟨1⟩, name := "hat", qty := 1, unitPrice := 10, tax := 0 },
     { item := ⟨2⟩, name := "mug", qty := 1, unitPrice := 5, tax := 0 }]

theorem perItem_one_mug : PerItem twoItems [{ item := ⟨2⟩, qty := u32 1 }] :=
  (returnedMerchandise_perItem_iff twoItems (List.cons_ne_nil _ _)).mpr
    ((telling_iff_of_one_line _ (by decide) (by decide +kernel) (by decide +kernel)).mpr
      fun h => absurd (by decide) h)

/-- Three of an item that was bought once, worth no more than the sale: accepted. -/
theorem three_mugs_accepted :
    ¬ ∀ (record : SaleRecord) (returns : List ReturnLine), returns ≠ [] → PerItem record returns := by
  intro h
  have hok : returnedMerchandise twoItems [{ item := ⟨2⟩, qty := u32 3 }] = .ok 15 :=
    (returnedMerchandise_ok_iff twoItems (List.cons_ne_nil _ _) 15).mpr (by decide +kernel)
  have hw := (h twoItems _ (List.cons_ne_nil _ _)).accepts.mp ⟨15, hok⟩
  exact absurd hw (by decide)

end TptErp.Pos
