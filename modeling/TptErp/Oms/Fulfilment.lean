import TptErp.Oms.Saga

/-!
# What a fulfilment fills

`fulfill_backorders` goes through all shards, SKUs and backorders, whoever placed them, in the orders
its hash maps happen to have.  `Fills` says what such a call does as a list of fills, each of a
backorder that the pool covered at its time; the call ends when the pool covers no backorder any more
(`fulfillBackorders_fills`).  In which order it fills them decides what is left when the pool does not
cover all; `putFirst` is the order that tries one backorder before all others.
-/

namespace TptErp.Oms

variable {SHARDS : Nat}

/-- A backorder of a SKU, the hold it became, and its units. -/
structure Fill where
  sku : SkuId
  bo : HoldId
  hold : HoldId
  qty : Nat

namespace Fill

def place (f : Fill) : SkuId × HoldId := (f.sku, f.bo)

def held (f : Fill) : SkuId × HoldId := (f.sku, f.hold)

/-- What `fulfill_backorders` answers for it. -/
def answer (f : Fill) : SkuId × HoldId × Nat := (f.sku, f.hold, f.qty)

/-- The units filled on one SKU. -/
def unitsOn (fs : List Fill) (sku : SkuId) : Nat := (fs.map fun f => if f.sku = sku then f.qty else 0).sum

theorem unitsOn_cons (f : Fill) (fs : List Fill) (sku : SkuId) :
    unitsOn (f :: fs) sku = (if f.sku = sku then f.qty else 0) + unitsOn fs sku := rfl

end Fill

/-- Fills one after the other. -/
inductive Fills : Core SHARDS → List Fill → Core SHARDS → Prop
  | nil (c : Core SHARDS) : Fills c [] c
  | cons {c c' : Core SHARDS} {sku : SkuId} {bo : HoldId} {qty : Nat} {fs : List Fill}
      (fits : (c.stateOf sku).Satisfiable bo qty) (rest : Fills (c.fill sku bo qty) fs c') :
      Fills c (⟨sku, bo, c.newId, qty⟩ :: fs) c'

theorem SkuState.Satisfiable.mem_keys {st : SkuState} {bo : HoldId} {qty : Nat} (h : st.Satisfiable bo qty) :
    bo ∈ st.backorders.keys :=
  AList.mem_keys.mp (AList.lookup_isSome.mp (by rw [h.1]; rfl))

theorem noneSatisfiable_iff (st : SkuState) : NoneSatisfiable st ↔ ∀ bo qty, ¬ st.Satisfiable bo qty := by
  unfold NoneSatisfiable SkuState.Satisfiable
  constructor
  · rintro h bo qty ⟨hl, hav⟩
    exact h ⟨bo, qty⟩ (AList.mem_lookup_iff.mp hl) hav
  · intro h e he hav
    exact h e.1 e.2 ⟨AList.mem_lookup_iff.mpr he, hav⟩

/-- A SKU that no shard knows has no backorder. -/
theorem noneSatisfiable_of_notMem {c : Core SHARDS} {sku : SkuId}
    (h : sku ∉ skusOf c.engine (c.engine.shardIndex sku)) : NoneSatisfiable (c.stateOf sku) := by
  have hst : c.stateOf sku = {} := by
    show AssocMap.getD (c.engine.shards (c.engine.shardIndex sku)).states sku {} = {}
    unfold AssocMap.getD
    rw [AList.lookup_eq_none.mpr fun hm => h (AList.mem_keys.mp hm)]
    rfl
  rw [hst]
  exact nofun

/-! ## One fill -/

section
variable {c : Core SHARDS} {sku : SkuId} {bo : HoldId} {qty : Nat}

theorem stateOf_fill (c : Core SHARDS) (sku : SkuId) (bo : HoldId) (qty : Nat) (k : SkuId) :
    (c.fill sku bo qty).stateOf k =
      if k = sku then (c.stateOf sku).fill bo c.newId qty (c.now + hundredYears) else c.stateOf k :=
  c.engine.stateOf_record ..

theorem idsFresh_fill (hf : IdsFresh c) : IdsFresh (c.fill sku bo qty) :=
  idsFresh_instr (i := .fill sku bo qty (c.now + hundredYears)) (k := .only) hf rfl

/-- What changes under one SKU, and there at one id. -/
theorem ite_at {V : Type} {k : SkuId} {id i : HoldId} {x y z : V} (h : k = sku → y = z) :
    (if k = sku then if id = i then x else y else z) = if (k, id) = (sku, i) then x else z := by
  by_cases hk : k = sku
  · rw [if_pos hk]
    by_cases hid : id = i
    · rw [if_pos hid, if_pos (by rw [hk, hid])]
    · rw [if_neg hid, if_neg fun he => hid (Prod.mk.inj he).2, h hk]
  · rw [if_neg hk, if_neg fun he => hk (Prod.mk.inj he).1]

theorem backorders_fill (c : Core SHARDS) (sku : SkuId) (bo : HoldId) (qty : Nat) (k : SkuId) (id : HoldId) :
    ((c.fill sku bo qty).stateOf k).backorders.lookup id =
      if (k, id) = (sku, bo) then none else (c.stateOf k).backorders.lookup id := by
  rw [stateOf_fill, apply_ite (fun st : SkuState => st.backorders.lookup id)]
  show (if k = sku then ((c.stateOf sku).backorders.erase bo).lookup id else _) = _
  rw [AssocMap.lookup_erase_eq]
  exact ite_at fun hk => by rw [hk]

theorem holds_fill (c : Core SHARDS) (sku : SkuId) (bo : HoldId) (qty : Nat) (k : SkuId) (id : HoldId) :
    ((c.fill sku bo qty).stateOf k).holds.lookup id =
      if (k, id) = (sku, c.newId) then some qty else (c.stateOf k).holds.lookup id := by
  rw [stateOf_fill, apply_ite (fun st : SkuState => st.holds.lookup id)]
  show (if k = sku then ((c.stateOf sku).holds.insert c.newId qty).lookup id else _) = _
  rw [AssocMap.lookup_insert_eq]
  exact ite_at fun hk => by rw [hk]

theorem available_fill (hf : IdsFresh c) (k : SkuId) :
    ((c.fill sku bo qty).stateOf k).available =
      (c.stateOf k).available - ((if sku = k then qty else 0 : Nat) : Int) := by
  rw [stateOf_fill]
  by_cases hk : k = sku
  · subst hk
    rw [if_pos rfl, if_pos rfl]
    exact SkuState.available_fill bo qty _ (lacks_newId hf k).holds
  · rw [if_neg hk, if_neg (Ne.symm hk), Nat.cast_zero, sub_zero]

theorem committed_fill (c : Core SHARDS) (sku : SkuId) (bo : HoldId) (qty : Nat) (k : SkuId) :
    ((c.fill sku bo qty).stateOf k).committed = (c.stateOf k).committed := by
  rw [stateOf_fill]
  split
  · next hk => rw [hk]; rfl
  · rfl

end

/-! ## A list of fills -/

namespace Fills

variable {c c' c'' : Core SHARDS} {fs gs : List Fill}

theorem append (h : Fills c fs c') (h' : Fills c' gs c'') : Fills c (fs ++ gs) c'' := by
  induction h with
  | nil => exact h'
  | cons fits _ ih => exact .cons fits (ih h')

theorem idsFresh (h : Fills c fs c') (hf : IdsFresh c) : IdsFresh c' := by
  induction h with
  | nil => exact hf
  | cons _ _ ih => exact ih (idsFresh_fill hf)

theorem shardIndex (h : Fills c fs c') : c'.engine.shardIndex = c.engine.shardIndex := by
  induction h with
  | nil => rfl
  | cons _ _ ih => exact ih

/-- The backorders that were filled are gone, the others are as before. -/
theorem backorders (h : Fills c fs c') (k : SkuId) (id : HoldId) :
    (c'.stateOf k).backorders.lookup id =
      if (k, id) ∈ fs.map Fill.place then none else (c.stateOf k).backorders.lookup id := by
  induction h with
  | nil => rfl
  | @cons c c' sku bo qty fs _ _ ih =>
    rw [ih, backorders_fill, List.map_cons]
    by_cases hmem : (k, id) ∈ fs.map Fill.place
    · rw [if_pos hmem, if_pos (List.mem_cons_of_mem _ hmem)]
    · rw [if_neg hmem]
      by_cases he : (k, id) = (sku, bo)
      · rw [if_pos he, if_pos (he ▸ List.mem_cons_self)]
      · rw [if_neg he, if_neg]
        intro hm
        rcases List.mem_cons.mp hm with hm | hm
        · exact he hm
        · exact hmem hm

/-- A SKU without fills is as before. -/
theorem stateOf_of_ne (h : Fills c fs c') {k : SkuId} (hk : ∀ f ∈ fs, f.sku ≠ k) :
    c'.stateOf k = c.stateOf k := by
  induction h with
  | nil => rfl
  | cons _ _ ih =>
    rw [ih fun f hmem => hk f (List.mem_cons_of_mem _ hmem), stateOf_fill]
    exact if_neg (hk _ List.mem_cons_self).symm

theorem committed (h : Fills c fs c') (k : SkuId) : (c'.stateOf k).committed = (c.stateOf k).committed := by
  induction h with
  | nil => rfl
  | cons _ _ ih => rw [ih, committed_fill]

/-- Every fill takes its units out of the pool of its SKU. -/
theorem available (h : Fills c fs c') (hf : IdsFresh c) (k : SkuId) :
    (c'.stateOf k).available = (c.stateOf k).available - (Fill.unitsOn fs k : Int) := by
  induction h with
  | nil => exact (sub_zero _).symm
  | cons _ _ ih =>
    rw [ih (idsFresh_fill hf), available_fill hf, Fill.unitsOn_cons, Nat.cast_add]
    exact Int.sub_sub _ _ _

/-- What is filled was outstanding, once, and covered by the pool of before. -/
theorem covered (h : Fills c fs c') (hf : IdsFresh c) :
    (fs.map Fill.place).Nodup ∧ ∀ f ∈ fs, (c.stateOf f.sku).Satisfiable f.bo f.qty := by
  induction h with
  | nil => exact ⟨List.nodup_nil, nofun⟩
  | @cons c c' sku bo qty fs fits _ ih =>
    obtain ⟨hnodup, hcov⟩ := ih (idsFresh_fill hf)
    have hnew : ∀ f ∈ fs, f.place ≠ (sku, bo) ∧ (c.stateOf f.sku).Satisfiable f.bo f.qty := by
      intro f hmem
      obtain ⟨hl, hav⟩ := hcov f hmem
      rw [backorders_fill] at hl
      rw [available_fill hf] at hav
      split at hl
      · exact nomatch hl
      · next hne => exact ⟨hne, hl, by omega⟩
    rw [List.map_cons, List.nodup_cons]
    refine ⟨⟨fun hm => ?_, hnodup⟩, fun f hmem => ?_⟩
    · obtain ⟨f, hmem, he⟩ := List.mem_map.mp hm
      exact (hnew f hmem).1 he
    · rcases List.mem_cons.mp hmem with rfl | hmem
      · exact fits
      · exact (hnew f hmem).2

/-- No fill overdraws a pool. -/
theorem available_nonneg (h : Fills c fs c') (hf : IdsFresh c) {k : SkuId} (hk : 0 ≤ (c.stateOf k).available) :
    0 ≤ (c'.stateOf k).available := by
  induction h with
  | nil => exact hk
  | @cons c c' sku bo qty fs fits _ ih =>
    refine ih (idsFresh_fill hf) ?_
    rw [available_fill hf]
    split
    · next he =>
      have := fits.2
      rw [he] at this
      omega
    · omega

theorem nextId_le (h : Fills c fs c') {f : Fill} (hmem : f ∈ fs) : c.nextId ≤ f.hold.uuid := by
  induction h with
  | nil => exact nomatch hmem
  | cons _ _ ih =>
    rcases List.mem_cons.mp hmem with rfl | hmem
    · exact le_rfl
    · exact (Nat.le_succ _).trans (ih hmem)

/-- Holds that are not the fills' are as before. -/
theorem holds_of_notMem (h : Fills c fs c') {k : SkuId} {id : HoldId} (hn : (k, id) ∉ fs.map Fill.held) :
    (c'.stateOf k).holds.lookup id = (c.stateOf k).holds.lookup id := by
  induction h with
  | nil => rfl
  | cons _ _ ih =>
    rw [List.map_cons, List.mem_cons, not_or] at hn
    rw [ih hn.2, holds_fill]
    exact if_neg hn.1

/-- Each fill has a hold of its own. -/
theorem holds (h : Fills c fs c') :
    (fs.map Fill.held).Nodup ∧ ∀ f ∈ fs, (c'.stateOf f.sku).holds.lookup f.hold = some f.qty := by
  induction h with
  | nil => exact ⟨List.nodup_nil, nofun⟩
  | @cons c c' sku bo qty fs _ rest ih =>
    have hnew : (sku, c.newId) ∉ fs.map Fill.held := by
      intro hm
      obtain ⟨f, hmem, he⟩ := List.mem_map.mp hm
      have hle : c.nextId + 1 ≤ f.hold.uuid := rest.nextId_le hmem
      have hid : f.hold = c.newId := (Prod.mk.inj he).2
      rw [hid] at hle
      exact absurd hle (Nat.not_succ_le_self _)
    rw [List.map_cons, List.nodup_cons]
    refine ⟨⟨hnew, ih.1⟩, fun f hmem => ?_⟩
    rcases List.mem_cons.mp hmem with rfl | hmem
    · show (c'.stateOf sku).holds.lookup c.newId = some qty
      rw [rest.holds_of_notMem hnew, holds_fill, if_pos rfl]
    · exact ih.2 f hmem

/-- A pool that covers no backorder covers none after the fills. -/
theorem noneSatisfiable (h : Fills c fs c') (hf : IdsFresh c) {k : SkuId} (hn : NoneSatisfiable (c.stateOf k)) :
    NoneSatisfiable (c'.stateOf k) := by
  rw [noneSatisfiable_iff] at hn ⊢
  rintro id qty ⟨hl, hav⟩
  rw [h.backorders] at hl
  split at hl
  · exact nomatch hl
  · rw [h.available hf] at hav
    exact hn id qty ⟨hl, by omega⟩

/-- A call that ends with no pool covering a backorder has filled something unless none did before. -/
theorem ne_nil_iff (h : Fills c fs c') (hf : IdsFresh c) (hnone : ∀ sku, NoneSatisfiable (c'.stateOf sku)) :
    fs ≠ [] ↔ ∃ sku bo qty, (c.stateOf sku).Satisfiable bo qty := by
  constructor
  · intro hne
    obtain ⟨f, hmem⟩ := List.exists_mem_of_ne_nil fs hne
    exact ⟨f.sku, f.bo, f.qty, (h.covered hf).2 f hmem⟩
  · rintro ⟨sku, bo, qty, hs⟩ rfl
    cases h
    exact (noneSatisfiable_iff _).mp (hnone sku) bo qty hs

end Fills

/-! ## The loops -/

namespace Core

variable (order : HashOrder SHARDS)

theorem pick_some {c : Core SHARDS} {sku : SkuId} {bo : HoldId} (h : c.pick order sku = some bo) :
    (c.stateOf sku).Satisfiable bo (AssocMap.getD (c.stateOf sku).backorders bo 0) := by
  have hfits := List.find?_some h
  unfold AssocMap.getD
  cases hl : (c.stateOf sku).backorders.lookup bo with
  | none =>
    rw [hl] at hfits
    exact nomatch hfits
  | some qty =>
    rw [hl] at hfits
    exact ⟨hl, of_decide_eq_true hfits⟩

theorem pick_none {c : Core SHARDS} {sku : SkuId} (h : c.pick order sku = none) :
    NoneSatisfiable (c.stateOf sku) := by
  rw [noneSatisfiable_iff]
  rintro bo qty ⟨hl, hav⟩
  have hmem : bo ∈ order.backorders c sku :=
    (order.backorders_perm c sku).mem_iff.mpr (SkuState.Satisfiable.mem_keys ⟨hl, hav⟩)
  have hno := List.find?_eq_none.mp h bo hmem
  rw [hl] at hno
  exact hno (decide_eq_true hav)

theorem fillLoop_fills (sku : SkuId) (fuel : Nat) (c : Core SHARDS) :
    ∃ fs, Fills c fs (fillLoop order sku fuel c).2 ∧
      (fillLoop order sku fuel c).1 = fs.map (fun f => (f.hold, f.qty)) ∧ (∀ f ∈ fs, f.sku = sku) ∧
      ((c.stateOf sku).backorders.keys.length ≤ fuel →
        NoneSatisfiable ((fillLoop order sku fuel c).2.stateOf sku)) := by
  induction fuel generalizing c with
  | zero =>
    refine ⟨[], .nil c, rfl, nofun, fun hlen => (noneSatisfiable_iff _).mpr fun bo qty hs => ?_⟩
    have hmem := hs.mem_keys
    have hnil : (c.stateOf sku).backorders.keys = [] := List.length_eq_zero_iff.mp (Nat.le_zero.mp hlen)
    rw [show (fillLoop order sku 0 c).2 = c from rfl, hnil] at hmem
    exact nomatch hmem
  | succ fuel ih =>
    unfold fillLoop
    cases hp : c.pick order sku with
    | none => exact ⟨[], .nil c, rfl, nofun, fun _ => pick_none order hp⟩
    | some bo =>
      have hs := pick_some order hp
      obtain ⟨fs, hfills, hans, hsku, hnone⟩ := ih (c.fill sku bo (AssocMap.getD (c.stateOf sku).backorders bo 0))
      refine ⟨_, .cons hs hfills, ?_, fun f hmem => ?_, fun hlen => hnone ?_⟩
      · dsimp only
        rw [hans]
        rfl
      · rcases List.mem_cons.mp hmem with rfl | hmem
        · rfl
        · exact hsku f hmem
      · -- one backorder less
        have hmem := hs.mem_keys
        rw [stateOf_fill, if_pos rfl]
        show ((c.stateOf sku).backorders.erase bo).keys.length ≤ fuel
        rw [AList.keys_erase, List.length_erase_of_mem hmem]
        omega

theorem fulfillBackordersFor_fills (sku : SkuId) (c : Core SHARDS) :
    ∃ fs, Fills c fs (c.fulfillBackordersFor order sku).2 ∧
      (c.fulfillBackordersFor order sku).1 = fs.map (fun f => (f.hold, f.qty)) ∧ (∀ f ∈ fs, f.sku = sku) ∧
      NoneSatisfiable ((c.fulfillBackordersFor order sku).2.stateOf sku) := by
  have hlen : (c.stateOf sku).backorders.keys.length = (c.stateOf sku).backorders.entries.length :=
    List.length_map _
  obtain ⟨fs, hfills, hans, hsku, hnone⟩ :=
    fillLoop_fills order sku (c.stateOf sku).backorders.entries.length c
  exact ⟨fs, hfills, hans, hsku, hnone hlen.le⟩

theorem fulfillSkus_fills (skus : List SkuId) {c : Core SHARDS} (hf : IdsFresh c) :
    ∃ fs, Fills c fs (fulfillSkus order skus c).2 ∧ (fulfillSkus order skus c).1 = fs.map Fill.answer ∧
      ∀ sku ∈ skus, NoneSatisfiable ((fulfillSkus order skus c).2.stateOf sku) := by
  induction skus generalizing c with
  | nil => exact ⟨[], .nil c, rfl, nofun⟩
  | cons sku skus ih =>
    obtain ⟨fs, hfills, hans, hsku, hnone⟩ := fulfillBackordersFor_fills order sku c
    obtain ⟨gs, hgills, hgans, hrest⟩ := ih (hfills.idsFresh hf)
    refine ⟨fs ++ gs, hfills.append hgills, ?_, fun k hk => ?_⟩
    · unfold fulfillSkus
      dsimp only
      rw [hans, hgans, List.map_append, List.map_map]
      congr 1
      refine List.map_congr_left fun f hmem => ?_
      show (sku, f.hold, f.qty) = f.answer
      rw [← hsku f hmem]
      rfl
    · rcases List.mem_cons.mp hk with rfl | hk
      · exact hgills.noneSatisfiable (hfills.idsFresh hf) hnone
      · exact hrest k hk

theorem fulfillShards_fills (shards : List (Fin SHARDS)) {c : Core SHARDS} (hf : IdsFresh c) :
    ∃ fs, Fills c fs (fulfillShards order shards c).2 ∧ (fulfillShards order shards c).1 = fs.map Fill.answer ∧
      ∀ sku, c.engine.shardIndex sku ∈ shards → NoneSatisfiable ((fulfillShards order shards c).2.stateOf sku) := by
  induction shards generalizing c with
  | nil => exact ⟨[], .nil c, rfl, fun _ h => nomatch h⟩
  | cons i shards ih =>
    obtain ⟨fs, hfills, hans, hnone⟩ := fulfillSkus_fills order (order.skus c i) hf
    obtain ⟨gs, hgills, hgans, hrest⟩ := ih (hfills.idsFresh hf)
    refine ⟨fs ++ gs, hfills.append hgills, ?_, fun sku hsku => ?_⟩
    · unfold fulfillShards
      dsimp only
      rw [hans, hgans, List.map_append]
    · rcases List.mem_cons.mp hsku with hi | hin
      · refine hgills.noneSatisfiable (hfills.idsFresh hf) ?_
        by_cases hk : sku ∈ skusOf c.engine i
        · exact hnone sku ((order.skus_perm c i).mem_iff.mpr hk)
        · -- the SKU was never touched
          rw [← hi] at hk
          exact hfills.noneSatisfiable hf (noneSatisfiable_of_notMem hk)
      · exact hrest sku (by rw [hfills.shardIndex]; exact hin)

/-- The call fills backorders until the pools cover none. -/
theorem fulfillBackorders_fills {c : Core SHARDS} (hf : IdsFresh c) :
    ∃ fs, Fills c fs (c.fulfillBackorders order).2 ∧ (c.fulfillBackorders order).1 = fs.map Fill.answer ∧
      ∀ sku, NoneSatisfiable ((c.fulfillBackorders order).2.stateOf sku) := by
  obtain ⟨fs, hfills, hans, hnone⟩ := fulfillShards_fills order (List.finRange SHARDS) hf
  exact ⟨fs, hfills, hans, fun sku => hnone sku (List.mem_finRange _)⟩

/-- What every SKU's loop preserves, the whole call does. -/
theorem fulfillBackorders_induct {P : Core SHARDS → Prop}
    (hstep : ∀ c sku, P c → P (c.fulfillBackordersFor order sku).2) {c : Core SHARDS} (h : P c) :
    P (c.fulfillBackorders order).2 := by
  have hskus : ∀ (skus : List SkuId) (c : Core SHARDS), P c → P (fulfillSkus order skus c).2 := by
    intro skus
    induction skus with
    | nil => exact fun _ h => h
    | cons sku skus ih => exact fun c h => ih _ (hstep c sku h)
  have hshards : ∀ (shards : List (Fin SHARDS)) (c : Core SHARDS), P c → P (fulfillShards order shards c).2 := by
    intro shards
    induction shards with
    | nil => exact fun _ h => h
    | cons i shards ih => exact fun c h => ih _ (hskus _ c h)
  exact hshards _ c h

end Core

/-! ## One backorder before the others -/

/-- The order in which a given backorder comes first among those of its SKU. -/
def putFirst (bo : HoldId) : HashOrder SHARDS where
  skus c i := skusOf c.engine i
  skus_perm _ _ := .refl _
  backorders c sku :=
    let keys := (c.stateOf sku).backorders.keys
    if bo ∈ keys then bo :: keys.erase bo else keys
  backorders_perm c sku := by
    dsimp only
    split
    · next h => exact (List.perm_cons_erase h).symm
    · exact .refl _

theorem pick_putFirst {c : Core SHARDS} {sku : SkuId} {bo : HoldId} {qty : Nat}
    (h : (c.stateOf sku).Satisfiable bo qty) : c.pick (putFirst bo) sku = some bo := by
  have hlist : (putFirst bo : HashOrder SHARDS).backorders c sku = bo :: (c.stateOf sku).backorders.keys.erase bo :=
    if_pos h.mem_keys
  unfold Core.pick
  rw [hlist]
  refine List.find?_cons_of_pos ?_
  rw [h.1]
  exact decide_eq_true h.2

/-- A SKU's loop fills the backorder that comes first, when it fits. -/
theorem putFirst_step {c : Core SHARDS} {sku : SkuId} {bo : HoldId} {qty : Nat} (k : SkuId)
    (h : (c.stateOf sku).Satisfiable bo qty ∨ (c.stateOf sku).backorders.lookup bo = none) :
    ((c.fulfillBackordersFor (putFirst bo) k).2.stateOf sku).Satisfiable bo qty ∨
      ((c.fulfillBackordersFor (putFirst bo) k).2.stateOf sku).backorders.lookup bo = none := by
  have hgone : ∀ {c c' : Core SHARDS} {fs : List Fill}, Fills c fs c' →
      (c.stateOf sku).backorders.lookup bo = none → (c'.stateOf sku).backorders.lookup bo = none := by
    intro c c' fs hfills hn
    rw [hfills.backorders, hn, ite_self]
  obtain ⟨fs, hfills, -, hsku, -⟩ := Core.fulfillBackordersFor_fills (putFirst bo) k c
  rcases h with hs | hn
  · by_cases hk : k = sku
    · subst hk
      right
      have hpos : 0 < (c.stateOf k).backorders.entries.length := by
        have := List.length_pos_of_mem hs.mem_keys
        rwa [show (c.stateOf k).backorders.keys.length = (c.stateOf k).backorders.entries.length from
          List.length_map _] at this
      obtain ⟨fuel, hfuel⟩ := Nat.exists_eq_succ_of_ne_zero hpos.ne'
      unfold Core.fulfillBackordersFor
      rw [hfuel]
      unfold Core.fillLoop
      rw [pick_putFirst hs]
      obtain ⟨gs, hgills, -⟩ := Core.fillLoop_fills (putFirst bo) k fuel
        (c.fill k bo (AssocMap.getD (c.stateOf k).backorders bo 0))
      refine hgone hgills ?_
      rw [backorders_fill, if_pos rfl]
    · left
      rw [hfills.stateOf_of_ne fun f hmem he => hk ((hsku f hmem).symm.trans he)]
      exact hs
  · exact Or.inr (hgone hfills hn)

/-- A backorder that fits at the start and comes first is filled, whoever placed it. -/
theorem putFirst_filled {c : Core SHARDS} (hf : IdsFresh c) {sku : SkuId} {bo : HoldId} {qty : Nat}
    (h : (c.stateOf sku).Satisfiable bo qty) :
    ((c.fulfillBackorders (putFirst bo)).2.stateOf sku).backorders.lookup bo = none := by
  -- on the way it fits or is gone
  have hway := Core.fulfillBackorders_induct (putFirst bo)
    (P := fun c => (c.stateOf sku).Satisfiable bo qty ∨ (c.stateOf sku).backorders.lookup bo = none)
    (fun c k hc => putFirst_step k hc) (Or.inl h)
  obtain ⟨fs, -, -, hnone⟩ := Core.fulfillBackorders_fills (putFirst bo) hf
  rcases hway with hs | hgone
  · exact absurd hs ((noneSatisfiable_iff _).mp (hnone sku) bo qty)
  · exact hgone

end TptErp.Oms
