import TptErp.Oms.Fulfilment
import TptErp.Oms.SagaErrors

/-!
# Late fulfilment

The saga's `fulfill_backorders` is given the backordered lines of one order.  It fills whatever the
engine can fill, bills each SKU at the price of the last of the given lines that has it, confirms all
the new holds and reports the order shipped.

`OnlyOwn` is what a late fulfilment of one order should do; `fulfils_own_iff` says when this one does.
-/

namespace TptErp.Oms

open Ledger Gl

variable {SHARDS GLS : Nat}

/-! ## An order and its backorders -/

/-- The line's backorder is outstanding. -/
def Outstanding (c : Core SHARDS) (p : SagaLine × HoldId) : Prop :=
  (c.stateOf p.1.sku).backorders.lookup p.2 ≠ none

instance (c : Core SHARDS) (p : SagaLine × HoldId) : Decidable (Outstanding c p) := inferInstanceAs (Decidable (_ ≠ _))

/-- An order's backordered lines, each with the id it was placed under: as long as the backorder is
outstanding it is for the line's quantity. -/
structure Backordered (c : Core SHARDS) where
  own : List (SagaLine × HoldId)
  nodup : (own.map fun p => (p.1.sku, p.2)).Nodup
  qty : ∀ p ∈ own, ∀ qty, (c.stateOf p.1.sku).backorders.lookup p.2 = some qty → qty = p.1.qty.1

/-- The units of a line that are still on backorder. -/
def unitsLeft (c : Core SHARDS) (p : SagaLine × HoldId) : Nat := if Outstanding c p then p.1.qty.1 else 0

/-- The units of a line that were filled between two states. -/
def unitsFilled (c c' : Core SHARDS) (p : SagaLine × HoldId) : Nat := unitsLeft c p - unitsLeft c' p

namespace Backordered

variable {c : Core SHARDS} (o : Backordered c)

def lines : List SagaLine := o.own.map (·.1)

def places : List (SkuId × HoldId) := o.own.map fun p => (p.1.sku, p.2)

/-- The sum of a number of units over the lines of a SKU. -/
def unitsOn (units : SagaLine × HoldId → Nat) (sku : SkuId) : Nat :=
  (o.own.map fun p => if p.1.sku = sku then units p else 0).sum

/-- Each line's units at a price of its own. -/
def priced (units : SagaLine × HoldId → Nat) (price : SagaLine → Money Usd) : Money Usd :=
  (o.own.map fun p => price p.1 * (units p : ℚ)).sum

end Backordered

/-- A world in which nothing happens between the saga's steps. -/
def World.alone (core : Core SHARDS) (journal : JournalEngine Usd GLS) (nextTx : Nat) : World SHARDS GLS :=
  { core, journal, nextTx }

namespace OrderSaga

variable (saga : OrderSaga)

/-- A late fulfilment that touched its own order only. -/
structure OnlyOwn {c : Core SHARDS} (o : Backordered c) (j : JournalEngine Usd GLS) (out : SagaOutcome)
    (w' : World SHARDS GLS) : Prop where
  committed : ∀ sku, (w'.stateOf sku).committed =
    (c.stateOf sku).committed + (o.unitsOn (unitsFilled c w'.core) sku : Int)
  revenue : (w'.journal.balanceOf saga.coa.salesRevenue).credits =
    (j.balanceOf saga.coa.salesRevenue).credits + o.priced (unitsFilled c w'.core) (·.unitPrice)
  backorders : ∀ sku id, (sku, id) ∉ o.places →
    (w'.stateOf sku).backorders.lookup id = (c.stateOf sku).backorders.lookup id
  holds : ∀ sku id, (w'.stateOf sku).holds.lookup id = (c.stateOf sku).holds.lookup id
  shipped : out.status = .shipped → ∀ p ∈ o.own, ¬ Outstanding w'.core p

/-- The journal takes the saga's postings. -/
def Postable (j : JournalEngine Usd GLS) : Prop :=
  (j.lockSequence (saga.saleEntries 0)).Nodup ∧ j.periodIsClosed saga.period = false

end OrderSaga

/-- The order has the stock to itself: no other order's backorder fits, all that is left of its own fits
together, and billing each SKU at its last price comes to the same as billing each line at its own. -/
structure Backordered.Undisturbed {c : Core SHARDS} (o : Backordered c) : Prop where
  foreign : ∀ sku id qty, (c.stateOf sku).Satisfiable id qty → (sku, id) ∈ o.places
  fits : ∀ p ∈ o.own, Outstanding c p → (o.unitsOn (unitsLeft c) p.1.sku : Int) ≤ (c.stateOf p.1.sku).available
  prices : o.priced (unitsLeft c) (fun l => OrderSaga.priceFor o.lines l.sku) =
    o.priced (unitsLeft c) (·.unitPrice)

/-! ## What the fills come to for the order -/

section
variable {c c' : Core SHARDS} {fs : List Fill} (o : Backordered c)

theorem unitsLeft_eq_getD {p : SagaLine × HoldId} (hp : p ∈ o.own) :
    unitsLeft c p = AssocMap.getD (c.stateOf p.1.sku).backorders p.2 0 := by
  cases hl : (c.stateOf p.1.sku).backorders.lookup p.2 with
  | none =>
    have hno : ¬ Outstanding c p := fun ho => ho hl
    unfold unitsLeft AssocMap.getD
    rw [if_neg hno, hl]
    rfl
  | some qty =>
    have ho : Outstanding c p := by
      intro hn
      rw [hl] at hn
      exact nomatch hn
    unfold unitsLeft AssocMap.getD
    rw [if_pos ho, hl, o.qty p hp qty hl]
    rfl

/-- A line is outstanding after the fills when it was and its place is not among them. -/
theorem outstanding_fills (h : Fills c fs c') (p : SagaLine × HoldId) :
    Outstanding c' p ↔ (p.1.sku, p.2) ∉ fs.map Fill.place ∧ Outstanding c p := by
  show (c'.stateOf p.1.sku).backorders.lookup p.2 ≠ none ↔ _ ∧ (c.stateOf p.1.sku).backorders.lookup p.2 ≠ none
  rw [h.backorders]
  by_cases hm : (p.1.sku, p.2) ∈ fs.map Fill.place
  · rw [if_pos hm]
    exact iff_of_false (fun hn => hn rfl) fun hn => hn.1 hm
  · rw [if_neg hm, and_iff_right hm]

theorem unitsLeft_fills (h : Fills c fs c') (p : SagaLine × HoldId) :
    unitsLeft c' p = if (p.1.sku, p.2) ∈ fs.map Fill.place then 0 else unitsLeft c p := by
  unfold unitsLeft
  by_cases hm : (p.1.sku, p.2) ∈ fs.map Fill.place
  · rw [if_pos hm, if_neg fun ho => ((outstanding_fills h p).mp ho).1 hm]
  · rw [if_neg hm]
    exact if_congr ((outstanding_fills h p).trans (and_iff_right hm)) rfl rfl

theorem unitsFilled_add_left (h : Fills c fs c') (p : SagaLine × HoldId) :
    unitsFilled c c' p + unitsLeft c' p = unitsLeft c p := by
  unfold unitsFilled
  rw [unitsLeft_fills h]
  split
  · omega
  · omega

/-- When only backorders of the order were filled, a sum over the fills is a sum over its lines. -/
theorem sum_fills {M : Type} [AddCommMonoid M] (h : Fills c fs c') (hf : IdsFresh c)
    (hown : ∀ f ∈ fs, f.place ∈ o.places) (v : SkuId → Nat → M) (hv : ∀ sku, v sku 0 = 0) :
    (fs.map fun f => v f.sku f.qty).sum = (o.own.map fun p => v p.1.sku (unitsFilled c c' p)).sum := by
  obtain ⟨hnodup, hcov⟩ := h.covered hf
  let filled : SagaLine × HoldId → Prop := fun p => (p.1.sku, p.2) ∈ fs.map Fill.place
  let at' : SkuId × HoldId → M := fun q => v q.1 (AssocMap.getD (c.stateOf q.1).backorders q.2 0)
  have hperm : ((o.own.filter fun p => filled p).map fun p => (p.1.sku, p.2)).Perm (fs.map Fill.place) := by
    refine (List.perm_ext_iff_of_nodup (o.nodup.sublist (List.filter_sublist.map _)) hnodup).mpr fun q => ?_
    constructor
    · intro hq
      obtain ⟨p, hp, rfl⟩ := List.mem_map.mp hq
      exact of_decide_eq_true (List.mem_filter.mp hp).2
    · intro hq
      obtain ⟨f, hmem, rfl⟩ := List.mem_map.mp hq
      obtain ⟨p, hp, he⟩ := List.mem_map.mp (hown f hmem)
      refine List.mem_map.mpr ⟨p, List.mem_filter.mpr ⟨hp, ?_⟩, he⟩
      exact decide_eq_true (show (p.1.sku, p.2) ∈ _ by rw [he]; exact hq)
  have hfill : (fs.map fun f => v f.sku f.qty) = (fs.map Fill.place).map at' := by
    rw [List.map_map]
    refine List.map_congr_left fun f hmem => ?_
    show v f.sku f.qty = v f.sku (AssocMap.getD (c.stateOf f.sku).backorders f.bo 0)
    unfold AssocMap.getD
    rw [(hcov f hmem).1]
    rfl
  have hgone : (o.own.filter fun p => filled p).map (fun p => at' (p.1.sku, p.2)) =
      (o.own.filter fun p => filled p).map fun p => v p.1.sku (unitsFilled c c' p) := by
    refine List.map_congr_left fun p hp => ?_
    obtain ⟨hmem, hin⟩ := List.mem_filter.mp hp
    unfold unitsFilled
    rw [unitsLeft_fills h, if_pos (of_decide_eq_true hin), unitsLeft_eq_getD o hmem]
    rfl
  have hrest : ((o.own.filter fun p => ¬ filled p).map fun p => v p.1.sku (unitsFilled c c' p)).sum = 0 := by
    refine List.sum_eq_zero fun x hx => ?_
    obtain ⟨p, hp, rfl⟩ := List.mem_map.mp hx
    have hin := of_decide_eq_true (List.mem_filter.mp hp).2
    unfold unitsFilled
    rw [unitsLeft_fills h, if_neg hin, Nat.sub_self, hv]
  calc (fs.map fun f => v f.sku f.qty).sum
      = (((o.own.filter fun p => filled p).map fun p => (p.1.sku, p.2)).map at').sum := by
        rw [hfill, (hperm.map _).sum_eq]
    _ = ((o.own.filter fun p => filled p).map fun p => v p.1.sku (unitsFilled c c' p)).sum := by
        rw [List.map_map, ← hgone]
        rfl
    _ = (o.own.map fun p => v p.1.sku (unitsFilled c c' p)).sum := by
        rw [← List.sum_map_filter_add_sum_map_filter_not filled _ o.own, hrest, add_zero]

end

/-! ## The steps of the saga -/

/-- Confirming a hold moves its units to the committed ones. -/
theorem Core.confirm_held {c : Core SHARDS} {sku : SkuId} {hold : HoldId} {qty : Nat}
    (hl : (c.stateOf sku).holds.lookup hold = some qty) :
    ∃ c', c.confirm sku hold = .ok c' ∧ ∀ k,
      (c'.stateOf k).committed = (c.stateOf k).committed + ((if sku = k then qty else 0 : Nat) : Int) ∧
      (c'.stateOf k).backorders = (c.stateOf k).backorders ∧
      ∀ id, (c'.stateOf k).holds.lookup id =
        if (k, id) = (sku, hold) then none else (c.stateOf k).holds.lookup id := by
  rcases c.confirm_cases sku hold with ⟨qty', hl', c', hok, -, hst⟩ | ⟨hno, -⟩
  · obtain rfl : qty' = qty := Option.some.inj (hl'.symm.trans hl)
    refine ⟨c', hok, fun k => ?_⟩
    rw [hst k]
    by_cases hk : k = sku
    · subst hk
      rw [if_pos rfl, if_pos rfl]
      refine ⟨rfl, rfl, fun id => ?_⟩
      show ((c.stateOf k).holds.erase hold).lookup id = _
      rw [AssocMap.lookup_erase_eq]
      exact if_congr ⟨fun h => by rw [h], fun h => (Prod.mk.inj h).2⟩ rfl rfl
    · rw [if_neg hk, if_neg (Ne.symm hk)]
      refine ⟨(add_zero _).symm, rfl, fun id => ?_⟩
      rw [if_neg fun h => hk (Prod.mk.inj h).1]
  · rw [hl] at hno
    exact nomatch hno

namespace World

theorem wait_of_no_gaps {w : World SHARDS GLS} (h : w.gaps = []) : w.wait = w := by
  unfold wait
  rw [h]

/-- Confirming the holds of a list of fills. -/
theorem confirmAll_fills (fs : List Fill) {w : World SHARDS GLS} (hg : w.gaps = [])
    (hn : (fs.map Fill.held).Nodup) (hh : ∀ f ∈ fs, (w.stateOf f.sku).holds.lookup f.hold = some f.qty) :
    ∃ w', confirmAll (fs.map Fill.held) w = (.ok (), w') ∧ w'.journal = w.journal ∧ ∀ k,
      (w'.stateOf k).committed = (w.stateOf k).committed + (Fill.unitsOn fs k : Int) ∧
      (w'.stateOf k).backorders = (w.stateOf k).backorders ∧
      ∀ id, (w'.stateOf k).holds.lookup id =
        if (k, id) ∈ fs.map Fill.held then none else (w.stateOf k).holds.lookup id := by
  induction fs generalizing w with
  | nil => exact ⟨w, rfl, rfl, fun k => ⟨(add_zero _).symm, rfl, fun _ => rfl⟩⟩
  | cons f fs ih =>
    rw [List.map_cons, List.nodup_cons] at hn
    obtain ⟨c', hok, hst⟩ := Core.confirm_held (hh f List.mem_cons_self)
    have hst : ∀ k, ((w.withCore c').stateOf k).committed =
          (w.stateOf k).committed + ((if f.sku = k then f.qty else 0 : Nat) : Int) ∧
        ((w.withCore c').stateOf k).backorders = (w.stateOf k).backorders ∧
        ∀ id, ((w.withCore c').stateOf k).holds.lookup id =
          if (k, id) = f.held then none else (w.stateOf k).holds.lookup id := hst
    obtain ⟨w', hconf, hj, hw'⟩ := ih (w := w.withCore c') hg hn.2 fun g hmem => by
      have hne : (g.sku, g.hold) ≠ f.held := fun he => hn.1 (List.mem_map.mpr ⟨g, hmem, he⟩)
      rw [(hst g.sku).2.2, if_neg hne]
      exact hh g (List.mem_cons_of_mem _ hmem)
    refine ⟨w', ?_, hj, fun k => ?_⟩
    · rw [List.map_cons]
      unfold Fill.held confirmAll
      dsimp only
      rw [wait_of_no_gaps hg, hok]
      exact hconf
    · obtain ⟨h1, h2, h3⟩ := hw' k
      refine ⟨?_, h2.trans (hst k).2.1, fun id => ?_⟩
      · rw [h1, (hst k).1, Fill.unitsOn_cons, Nat.cast_add, add_assoc]
      · rw [h3, (hst k).2.2, List.map_cons]
        by_cases hin : (k, id) ∈ fs.map Fill.held
        · rw [if_pos hin, if_pos (List.mem_cons_of_mem _ hin)]
        · rw [if_neg hin]
          refine if_congr ?_ rfl rfl
          rw [List.mem_cons, or_iff_left hin]

end World

namespace OrderSaga

variable (saga : OrderSaga)

/-- What the fills are billed. -/
def billed (lines : List SagaLine) (fs : List Fill) : Money Usd :=
  (fs.map fun f => priceFor lines f.sku * (f.qty : ℚ)).sum

theorem total_eq_billed (lines : List SagaLine) (fs : List Fill) :
    (fs.map Fill.answer).foldl (fun total f => total + priceFor lines f.1 * (f.2.2 : ℚ)) 0 = billed lines fs := by
  unfold billed
  rw [List.sum_eq_foldl, List.foldl_map, List.foldl_map]
  rfl

/-- A posted sale adds its total to the credits of the revenue account. -/
theorem revenue_of_sale {j j' : JournalEngine Usd GLS} {total : Money Usd} {id : TransactionId} {p m : String}
    (h : JournalEngine.Posted j j' ((saga.saleEntries total).map (JournalEngine.leg ⟨id, saga.saleEntries total⟩ p m))) :
    (j'.balanceOf saga.coa.salesRevenue).credits = (j.balanceOf saga.coa.salesRevenue).credits + total := by
  rw [h.credits]
  simp [saleEntries, JournalEngine.leg]

/-- What a late fulfilment that succeeds has done, by its fills. -/
structure Fulfilled (lines : List SagaLine) (c c₁ : Core SHARDS) (j : JournalEngine Usd GLS) (fs : List Fill)
    (w' : World SHARDS GLS) : Prop where
  committed : ∀ k, (w'.stateOf k).committed = (c.stateOf k).committed + (Fill.unitsOn fs k : Int)
  backorders : ∀ k, (w'.stateOf k).backorders = (c₁.stateOf k).backorders
  holds : ∀ k id, (w'.stateOf k).holds.lookup id = (c.stateOf k).holds.lookup id
  revenue : (w'.journal.balanceOf saga.coa.salesRevenue).credits =
    (j.balanceOf saga.coa.salesRevenue).credits + billed lines fs

/-- The sale and the confirmations of the fills' holds go through when the journal takes the sale. -/
theorem sale_cases {c c₁ : Core SHARDS} {fs : List Fill} (hf : IdsFresh c) (hfills : Fills c fs c₁)
    (j : JournalEngine Usd GLS) (n : Nat) (lines : List SagaLine) :
    (saga.Postable j ∧ ∃ id w₂ w₃,
      saga.postSale (billed lines fs) ((World.alone c j n).withCore c₁) = some (.ok id, w₂) ∧
      World.confirmAll (fs.map Fill.held) w₂ = (.ok (), w₃) ∧ saga.Fulfilled lines c c₁ j fs w₃) ∨
    (¬ saga.Postable j ∧
      ∀ id w₂, saga.postSale (billed lines fs) ((World.alone c j n).withCore c₁) ≠ some (.ok id, w₂)) := by
  unfold postSale
  rcases post_cases ((World.alone c j n).withCore c₁) saga.period "oms sale"
    (saga.saleEntries_validate _ (billed lines fs)) with
    ⟨hno, he⟩ | ⟨e, w', he, -, -, -, hclosed⟩ | ⟨id, w₂, he, hcore, hgaps, hn, hopen, hposted⟩
  · rw [he]
    exact Or.inr ⟨fun hp => hno hp.1, fun _ _ h => nomatch h⟩
  · rw [he]
    refine Or.inr ⟨fun hp => ?_, fun _ _ h => nomatch h⟩
    have hop : j.periodIsClosed saga.period = false := hp.2
    rw [show j.periodIsClosed saga.period = true from hclosed] at hop
    exact nomatch hop
  · rw [he]
    obtain ⟨hnodup, hheld⟩ := hfills.holds
    have hst : ∀ k, w₂.stateOf k = c₁.stateOf k := by
      intro k
      show w₂.core.stateOf k = _
      rw [hcore]
      rfl
    obtain ⟨w₃, hconf, hj, hw₃⟩ := World.confirmAll_fills fs (w := w₂) hgaps hnodup
      fun f hmem => by rw [hst]; exact hheld f hmem
    refine Or.inl ⟨⟨hn, hopen⟩, id, w₂, w₃, rfl, hconf, fun k => ?_, fun k => ?_, fun k id => ?_, ?_⟩
    · rw [(hw₃ k).1, hst, hfills.committed]
    · rw [(hw₃ k).2.1, hst]
    · rw [(hw₃ k).2.2, hst]
      by_cases hm : (k, id) ∈ fs.map Fill.held
      · -- a new hold
        obtain ⟨f, hmem, hfk⟩ := List.mem_map.mp hm
        obtain ⟨rfl, rfl⟩ := Prod.mk.inj hfk
        rw [if_pos hm]
        exact (hf f.sku f.hold (hfills.nextId_le hmem)).holds.symm
      · rw [if_neg hm]
        exact hfills.holds_of_notMem hm
    · rw [hj]
      exact saga.revenue_of_sale hposted

/-- It succeeds when there is a line, something to fill, and the journal takes the sale. -/
theorem fulfillBackorders_cases (order : HashOrder SHARDS) (lines : List SagaLine) {c : Core SHARDS}
    (hf : IdsFresh c) (j : JournalEngine Usd GLS) (n : Nat) :
    ∃ fs, Fills c fs (c.fulfillBackorders order).2 ∧
      (∀ sku, NoneSatisfiable ((c.fulfillBackorders order).2.stateOf sku)) ∧
      (lines ≠ [] ∧ fs ≠ [] ∧ saga.Postable j → ∃ out w',
        saga.fulfillBackorders order lines (.alone c j n) = some (.ok out, w') ∧
        out.status = .shipped ∧ saga.Fulfilled lines c (c.fulfillBackorders order).2 j fs w') ∧
      ∀ out w', saga.fulfillBackorders order lines (.alone c j n) = some (.ok out, w') →
        lines ≠ [] ∧ fs ≠ [] ∧ saga.Postable j := by
  obtain ⟨fs, hfills, hans, hnone⟩ := Core.fulfillBackorders_fills order hf
  refine ⟨fs, hfills, hnone, ?_⟩
  unfold fulfillBackorders
  by_cases hlines : lines = []
  · rw [if_pos hlines]
    exact ⟨fun h => absurd hlines h.1, fun _ _ h => nomatch h⟩
  · rw [if_neg hlines]
    rcases hcore : c.fulfillBackorders order with ⟨filled, c₁⟩
    rw [show (World.alone c j n : World SHARDS GLS).core = c from rfl, hcore]
    rw [hcore] at hfills hans
    dsimp only at hfills hans ⊢
    rw [hans]
    by_cases hnil : fs = []
    · rw [if_pos (by rw [hnil]; rfl)]
      exact ⟨fun h => absurd hnil h.2.1, fun _ _ h => nomatch h⟩
    · rw [if_neg fun h => hnil (List.map_eq_nil_iff.mp h), total_eq_billed, List.map_map,
        show ((fun f : SkuId × HoldId × Nat => (f.1, f.2.1)) ∘ Fill.answer) = Fill.held from rfl,
        World.wait_of_no_gaps rfl]
      rw [and_iff_right hlines, and_iff_right hnil]
      rcases saga.sale_cases hf hfills j n lines with
        ⟨hp, id, w₂, w₃, hsale, hconf, hdone⟩ | ⟨hp, hno⟩
      · rw [hsale]
        dsimp only
        rw [hconf]
        exact ⟨fun _ => ⟨_, w₃, rfl, rfl, hdone⟩, fun _ _ _ => hp⟩
      · refine ⟨fun h => absurd h hp, fun out w' h => ?_⟩
        rcases hsale : saga.postSale (billed lines fs) ((World.alone c j n).withCore c₁) with _ | ⟨_ | id, w₂⟩
        · rw [hsale] at h
          exact nomatch h
        · rw [hsale] at h
          exact nomatch h
        · exact absurd hsale (hno id w₂)

end OrderSaga

/-! ## Its own order only -/

section
variable {c c' : Core SHARDS} {fs : List Fill} (o : Backordered c)

/-- States with the same backorders have the same lines outstanding. -/
theorem outstanding_congr {c₁ c₂ : Core SHARDS} (h : ∀ k, (c₁.stateOf k).backorders = (c₂.stateOf k).backorders)
    (p : SagaLine × HoldId) : Outstanding c₁ p ↔ Outstanding c₂ p := by
  unfold Outstanding
  rw [h]

theorem unitsFilled_congr {c₁ c₂ : Core SHARDS} (h : ∀ k, (c₁.stateOf k).backorders = (c₂.stateOf k).backorders) :
    unitsFilled c c₁ = unitsFilled c c₂ := by
  funext p
  unfold unitsFilled unitsLeft
  rw [if_congr (outstanding_congr h p) rfl rfl]

theorem unitsOn_fills (h : Fills c fs c') (hf : IdsFresh c) (hown : ∀ f ∈ fs, f.place ∈ o.places) (k : SkuId) :
    Fill.unitsOn fs k = o.unitsOn (unitsFilled c c') k :=
  sum_fills o h hf hown (fun sku q => if sku = k then q else 0) fun _ => ite_self 0

theorem billed_fills (h : Fills c fs c') (hf : IdsFresh c) (hown : ∀ f ∈ fs, f.place ∈ o.places)
    (lines : List SagaLine) : OrderSaga.billed lines fs =
      o.priced (unitsFilled c c') fun l => OrderSaga.priceFor lines l.sku :=
  sum_fills o h hf hown (fun sku q => OrderSaga.priceFor lines sku * (q : ℚ)) fun _ => by
    rw [Nat.cast_zero, mul_zero]

/-- The order's units on a SKU are those filled and those left. -/
theorem unitsOn_add (h : Fills c fs c') (k : SkuId) :
    o.unitsOn (unitsFilled c c') k + o.unitsOn (unitsLeft c') k = o.unitsOn (unitsLeft c) k := by
  unfold Backordered.unitsOn
  rw [← List.sum_map_add]
  congr 1
  refine List.map_congr_left fun p _ => ?_
  split
  · exact unitsFilled_add_left h p
  · rfl

/-- When nothing of the order is left, all its units were filled. -/
theorem unitsFilled_of_done {p : SagaLine × HoldId} (hdone : ¬ Outstanding c' p) :
    unitsFilled c c' p = unitsLeft c p := by
  have h0 : unitsLeft c' p = 0 := if_neg hdone
  unfold unitsFilled
  rw [h0]
  rfl

/-- The same for the bill. -/
theorem priced_of_done (hdone : ∀ p ∈ o.own, ¬ Outstanding c' p) (price : SagaLine → Money Usd) :
    o.priced (unitsFilled c c') price = o.priced (unitsLeft c) price := by
  unfold Backordered.priced
  congr 1
  refine List.map_congr_left fun p hp => ?_
  rw [unitsFilled_of_done (hdone p hp)]

theorem unitsOn_of_done (hdone : ∀ p ∈ o.own, ¬ Outstanding c' p) (k : SkuId) :
    o.unitsOn (unitsFilled c c') k = o.unitsOn (unitsLeft c) k := by
  unfold Backordered.unitsOn
  congr 1
  refine List.map_congr_left fun p hp => ?_
  rw [unitsFilled_of_done (hdone p hp)]

/-- An undisturbed order's fills are its own, and leave nothing of it. -/
theorem Backordered.Undisturbed.fills {o : Backordered c} (hu : o.Undisturbed) (hf : IdsFresh c)
    (h : Fills c fs c') (hnone : ∀ sku, NoneSatisfiable (c'.stateOf sku)) :
    (∀ f ∈ fs, f.place ∈ o.places) ∧ ∀ p ∈ o.own, ¬ Outstanding c' p := by
  have hown : ∀ f ∈ fs, f.place ∈ o.places := fun f hmem => hu.foreign _ _ _ ((h.covered hf).2 f hmem)
  refine ⟨hown, fun p hp ho => ?_⟩
  -- what is left of the order would still fit
  obtain ⟨qty, hl⟩ := Option.ne_none_iff_exists'.mp ho
  have hbefore : (c.stateOf p.1.sku).backorders.lookup p.2 = some qty := by
    rw [h.backorders] at hl
    split at hl
    · exact nomatch hl
    · exact hl
  have hfits := hu.fits p hp ((outstanding_fills h p).mp ho).2
  have hav := h.available hf p.1.sku
  have hsum := unitsOn_add o h p.1.sku
  rw [unitsOn_fills o h hf hown] at hav
  have hleft : unitsLeft c' p ≤ o.unitsOn (unitsLeft c') p.1.sku := by
    refine List.single_le_sum (fun _ _ => Nat.zero_le _) _ (List.mem_map.mpr ⟨p, hp, ?_⟩)
    exact if_pos rfl
  have hq : unitsLeft c' p = qty := (if_pos ho).trans (o.qty p hp qty hbefore).symm
  exact (noneSatisfiable_iff _).mp (hnone p.1.sku) p.2 qty ⟨hl, by omega⟩

end

namespace OrderSaga

variable (saga : OrderSaga) {c c₁ : Core SHARDS} {o : Backordered c} {j : JournalEngine Usd GLS}
  {fs : List Fill} {out : SagaOutcome} {w' : World SHARDS GLS}

theorem onlyOwn_of_undisturbed (hu : o.Undisturbed) (hf : IdsFresh c) (h : Fills c fs c₁)
    (hnone : ∀ sku, NoneSatisfiable (c₁.stateOf sku)) (hd : saga.Fulfilled o.lines c c₁ j fs w') :
    saga.OnlyOwn o j out w' := by
  obtain ⟨hown, hdone⟩ := hu.fills hf h hnone
  have hb : ∀ k, (w'.core.stateOf k).backorders = (c₁.stateOf k).backorders := hd.backorders
  refine ⟨fun k => ?_, ?_, fun k id hn => ?_, hd.holds, fun _ p hp => ?_⟩
  · rw [hd.committed, unitsOn_fills o h hf hown, unitsFilled_congr hb]
  · rw [hd.revenue, billed_fills o h hf hown, unitsFilled_congr hb, priced_of_done o hdone, hu.prices,
      priced_of_done o hdone]
  · rw [hd.backorders, h.backorders, if_neg]
    intro hm
    obtain ⟨f, hmem, he⟩ := List.mem_map.mp hm
    exact hn (he ▸ hown f hmem)
  · exact mt (outstanding_congr hb p).mp (hdone p hp)

/-- When a fulfilment touches its own order only, whichever backorder comes first, the order is
undisturbed. -/
theorem undisturbed_of_onlyOwn (hf : IdsFresh c)
    (hall : ∀ order : HashOrder SHARDS, ∃ fs out, ∃ w' : World SHARDS GLS,
      Fills c fs (c.fulfillBackorders order).2 ∧ out.status = .shipped ∧
      saga.Fulfilled o.lines c (c.fulfillBackorders order).2 j fs w' ∧ saga.OnlyOwn o j out w') :
    o.Undisturbed := by
  have hforeign : ∀ sku id qty, (c.stateOf sku).Satisfiable id qty → (sku, id) ∈ o.places := by
    intro sku id qty hs
    by_contra hn
    -- the order in which it comes first
    obtain ⟨fs, out, w', -, -, hd, hown⟩ := hall (putFirst id)
    have hsame := hown.backorders sku id hn
    rw [hd.backorders, putFirst_filled hf hs, hs.1] at hsame
    exact nomatch hsame
  obtain ⟨fs, out, w', h, hs, hd, honly⟩ := hall (putFirst ⟨0⟩)
  have hb : ∀ k, (w'.core.stateOf k).backorders = ((c.fulfillBackorders (putFirst ⟨0⟩)).2.stateOf k).backorders :=
    hd.backorders
  have hown : ∀ f ∈ fs, f.place ∈ o.places := fun f hmem => hforeign _ _ _ ((h.covered hf).2 f hmem)
  have hdone : ∀ p ∈ o.own, ¬ Outstanding (c.fulfillBackorders (putFirst ⟨0⟩)).2 p :=
    fun p hp => mt (outstanding_congr hb p).mpr (honly.shipped hs p hp)
  refine ⟨hforeign, fun p hp ho => ?_, ?_⟩
  · -- the line was filled, so the pool was not negative
    have hin : (p.1.sku, p.2) ∈ fs.map Fill.place := by
      by_contra hn
      exact hdone p hp ((outstanding_fills h p).mpr ⟨hn, ho⟩)
    obtain ⟨f, hmem, he⟩ := List.mem_map.mp hin
    have hsku : f.sku = p.1.sku := (Prod.mk.inj he).1
    have hcov := ((h.covered hf).2 f hmem).2
    rw [hsku] at hcov
    have hav := h.available hf p.1.sku
    have hpos := h.available_nonneg hf (k := p.1.sku) (by omega)
    rw [unitsOn_fills o h hf hown, unitsOn_of_done o hdone] at hav
    omega
  · have hrev := hd.revenue.symm.trans honly.revenue
    rw [add_right_inj, billed_fills o h hf hown, unitsFilled_congr hb, priced_of_done o hdone,
      priced_of_done o hdone] at hrev
    exact hrev

/-- A late fulfilment that succeeds touches its own order only, in whatever order the hash maps are
iterated, exactly when it cannot succeed or the order is undisturbed. -/
theorem fulfils_own_iff {c : Core SHARDS} (hf : IdsFresh c) (o : Backordered c) (j : JournalEngine Usd GLS) (n : Nat) :
    (∀ order out w', saga.fulfillBackorders order o.lines (.alone c j n) = some (.ok out, w') →
        saga.OnlyOwn o j out w') ↔
      o.own = [] ∨ (∀ sku id qty, ¬ (c.stateOf sku).Satisfiable id qty) ∨ ¬ saga.Postable j ∨ o.Undisturbed := by
  have hlines : o.lines ≠ [] ↔ o.own ≠ [] := by
    unfold Backordered.lines
    rw [Ne, List.map_eq_nil_iff]
  constructor
  · intro hall
    by_cases hown : o.own = []
    · exact Or.inl hown
    by_cases hfit : ∃ sku id qty, (c.stateOf sku).Satisfiable id qty
    · by_cases hpost : saga.Postable j
      · refine Or.inr (Or.inr (Or.inr (saga.undisturbed_of_onlyOwn (j := j) hf fun order => ?_)))
        obtain ⟨fs, h, hnone, hok, -⟩ := saga.fulfillBackorders_cases order o.lines hf j n
        obtain ⟨out, w', hrun, hs, hd⟩ := hok ⟨hlines.mpr hown, (h.ne_nil_iff hf hnone).mpr hfit, hpost⟩
        exact ⟨fs, out, w', h, hs, hd, hall order out w' hrun⟩
      · exact Or.inr (Or.inr (Or.inl hpost))
    · exact Or.inr (Or.inl fun sku id qty hs => hfit ⟨sku, id, qty, hs⟩)
  · intro hcond order out w' hrun
    obtain ⟨fs, h, hnone, hok, honly⟩ := saga.fulfillBackorders_cases order o.lines hf j n
    have hpre := honly out w' hrun
    obtain ⟨out', w'', hrun', -, hd⟩ := hok hpre
    obtain ⟨-, rfl⟩ := Prod.mk.inj (Option.some.inj (hrun.symm.trans hrun'))
    rcases hcond with hown | hfit | hpost | hu
    · exact absurd hown (hlines.mp hpre.1)
    · obtain ⟨sku, id, qty, hs⟩ := (h.ne_nil_iff hf hnone).mp hpre.2.1
      exact absurd hs (hfit sku id qty)
    · exact absurd hpre.2.2 hpost
    · exact saga.onlyOwn_of_undisturbed hu hf h hnone hd

/-- Ten units of SKU 7 arrive. -/
def tenArrive (c : Core 64) : Core 64 := c.withEngine (c.engine.receive ⟨7⟩ 10)

/-- Four units of SKU 7 on backorder 0. -/
def oneWaiting : Core 64 := (initCore modShard false 0).backorderUnits ⟨7⟩ 0 4

theorem idsFresh_backorderUnits {c : Core 64} (hf : IdsFresh c) (sku : SkuId) (qty : Nat) :
    IdsFresh (c.backorderUnits sku 0 qty) := by
  unfold Core.backorderUnits
  split
  · exact idsFresh_instr (i := .backorder sku qty) (k := .only) hf rfl
  · exact hf

theorem idsFresh_tenArrive {c : Core 64} (hf : IdsFresh c) : IdsFresh (tenArrive c) :=
  idsFresh_instr (i := .receive ⟨7⟩ (i64 10)) (k := .only) hf rfl

theorem backorders_tenArrive (c : Core 64) (k : SkuId) :
    ((tenArrive c).stateOf k).backorders = (c.stateOf k).backorders := by
  have h : ((c.stateOf ⟨7⟩).addStock 10).backorders = (c.stateOf ⟨7⟩).backorders := rfl
  exact c.engine.left_record (·.backorders) ⟨7⟩ "received" (.received 10) h k

theorem place_of_oneWaiting {k : SkuId} {id : HoldId} {qty : Nat}
    (h : (oneWaiting.stateOf k).backorders.lookup id = some qty) : (k, id) = (⟨7⟩, ⟨0⟩) := by
  have hst : oneWaiting.stateOf k = if k = ⟨7⟩ then ({} : SkuState).placeBackorder ⟨0⟩ 4 else {} :=
    ReservationEngine.stateOf_record ..
  rw [hst] at h
  split at h
  · next hk =>
    have h : (AList.insert ⟨0⟩ 4 ∅ : AssocMap HoldId Nat).lookup id = some qty := h
    rw [AssocMap.lookup_insert_eq] at h
    split at h
    · next hid => rw [hk, hid]
    · exact nomatch h
  · exact nomatch h

/-- Four units at $5, on backorder 0. -/
def fourWaiting : SagaLine × HoldId := (⟨⟨7⟩, u32 4, 5⟩, ⟨0⟩)

/-- The one order of `oneWaiting`. -/
def oneOrder : Backordered (tenArrive oneWaiting) where
  own := [fourWaiting]
  nodup := List.nodup_singleton _
  qty p hp qty hl := by
    obtain rfl := List.mem_singleton.mp hp
    have hq : ((tenArrive oneWaiting).stateOf ⟨7⟩).backorders.lookup ⟨0⟩ = some 4 := by decide +kernel
    exact Option.some.inj (hl.symm.trans hq)

/-- An order that is alone on its SKU is fulfilled as it should be. -/
theorem lone_order_fulfilled :
    (∃ order out w', demo.fulfillBackorders order oneOrder.lines
      (.alone (tenArrive oneWaiting) tenUnits.journal 0) = some (.ok out, w')) ∧
    ∀ order out w', demo.fulfillBackorders order oneOrder.lines
      (.alone (tenArrive oneWaiting) tenUnits.journal 0) = some (.ok out, w') →
        demo.OnlyOwn oneOrder tenUnits.journal out w' := by
  constructor
  · have hrun : (demo.fulfillBackorders (putFirst ⟨0⟩) oneOrder.lines
        (.alone (tenArrive oneWaiting) tenUnits.journal 0)).map (fun r => r.1.isOk) = some true := by
      decide +kernel
    obtain ⟨⟨res, w'⟩, hr, hok⟩ := Option.map_eq_some_iff.mp hrun
    cases res with
    | error e => exact nomatch hok
    | ok out => exact ⟨putFirst ⟨0⟩, out, w', hr⟩
  · have hf : IdsFresh (tenArrive oneWaiting) :=
      idsFresh_tenArrive (idsFresh_backorderUnits (idsFresh_init modShard false 0) _ _)
    refine (demo.fulfils_own_iff hf oneOrder tenUnits.journal 0).mpr
      (Or.inr (Or.inr (Or.inr ⟨fun sku id qty hs => ?_, fun p hp _ => ?_, ?_⟩)))
    · have hl := hs.1
      rw [backorders_tenArrive] at hl
      rw [place_of_oneWaiting hl]
      exact List.mem_singleton_self _
    · obtain rfl := List.mem_singleton.mp hp
      decide +kernel
    · decide +kernel

/-- Four units of SKU 7 on backorder 0, and three of another order on backorder 1. -/
def twoWaiting : Core 64 := oneWaiting.backorderUnits ⟨7⟩ 0 3

/-- One of the two orders of `twoWaiting`. -/
def firstOrder : Backordered (tenArrive twoWaiting) where
  own := [fourWaiting]
  nodup := List.nodup_singleton _
  qty p hp qty hl := by
    obtain rfl := List.mem_singleton.mp hp
    have hq : ((tenArrive twoWaiting).stateOf ⟨7⟩).backorders.lookup ⟨0⟩ = some 4 := by decide +kernel
    exact Option.some.inj (hl.symm.trans hq)

/-- Fulfilling the one order fills the other's backorder as well. -/
theorem other_order_fulfilled_too : IdsFresh (tenArrive twoWaiting) ∧
    ∃ order out w', demo.fulfillBackorders order firstOrder.lines
      (.alone (tenArrive twoWaiting) tenUnits.journal 0) = some (.ok out, w') ∧
      ¬ demo.OnlyOwn firstOrder tenUnits.journal out w' := by
  refine ⟨idsFresh_tenArrive (idsFresh_backorderUnits
    (idsFresh_backorderUnits (idsFresh_init modShard false 0) _ _) _ _), ?_⟩
  have hrun : (demo.fulfillBackorders (putFirst ⟨0⟩) firstOrder.lines
      (.alone (tenArrive twoWaiting) tenUnits.journal 0)).map
      (fun r => (r.1.isOk, (r.2.stateOf ⟨7⟩).backorders.lookup ⟨1⟩)) = some (true, none) := by
    decide +kernel
  obtain ⟨⟨res, w'⟩, hr, he⟩ := Option.map_eq_some_iff.mp hrun
  obtain ⟨hok, hbo⟩ := Prod.mk.inj he
  cases res with
  | error e => exact nomatch hok
  | ok out =>
    refine ⟨putFirst ⟨0⟩, out, w', hr, fun honly => ?_⟩
    have hsame := honly.backorders ⟨7⟩ ⟨1⟩ (by decide +kernel)
    have hbefore : ((tenArrive twoWaiting).stateOf ⟨7⟩).backorders.lookup ⟨1⟩ = some 3 := by decide +kernel
    rw [hbefore] at hsame
    exact nomatch hbo.symm.trans hsame

end OrderSaga

end TptErp.Oms
