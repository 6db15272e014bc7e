import TptErp.Wms.Inventory

/-!
# Lots and pick plans

What `update` and `find` of a lot do to its quantity, and what a pick plan takes: all that was
asked for, and from lots that have it.
-/

namespace TptErp.Wms

@[simp] theorem take_lot (ld : LotDetail) (qty : Nat) : (ld.take qty).lot = ld.lot := rfl

@[simp] theorem take_onHand (ld : LotDetail) (qty : Nat) : (ld.take qty).onHand = ld.onHand - qty := rfl

theorem lotOnHand_of_find {lots : List LotDetail} {lot : LotNumber} {ld : LotDetail}
    (h : findLot lots lot = some ld) : lotOnHand lots lot = ld.onHand := by
  unfold lotOnHand
  rw [h]
  rfl

theorem lotOnHand_of_find_none {lots : List LotDetail} {lot : LotNumber} (h : findLot lots lot = none) :
    lotOnHand lots lot = 0 := by
  unfold lotOnHand
  rw [h]
  rfl

theorem findLot_cons (ld : LotDetail) (lots : List LotDetail) (lot : LotNumber) :
    findLot (ld :: lots) lot = if ld.lot = lot then some ld else findLot lots lot := by
  unfold findLot
  by_cases h : ld.lot = lot
  · simp [h]
  · simp [h]

theorem findLot_updateLot {f : LotDetail → LotDetail} (hf : ∀ ld, (f ld).lot = ld.lot) (lots : List LotDetail)
    (lot lot' : LotNumber) :
    findLot (updateLot lot f lots) lot' = if lot' = lot then (findLot lots lot').map f else findLot lots lot' := by
  induction lots with
  | nil => simp [updateLot, findLot]
  | cons ld lots ih =>
    unfold updateLot
    by_cases h : ld.lot = lot
    · rw [if_pos h, findLot_cons, findLot_cons, hf]
      by_cases h' : lot' = lot
      · rw [if_pos (h.trans h'.symm), if_pos (h.trans h'.symm), if_pos h']
        rfl
      · have hn : ld.lot ≠ lot' := fun he => h' (he.symm.trans h)
        rw [if_neg hn, if_neg hn, if_neg h']
    · rw [if_neg h, findLot_cons, findLot_cons, ih]
      by_cases h' : ld.lot = lot'
      · have hn : lot' ≠ lot := fun he => h (h'.trans he)
        rw [if_pos h', if_pos h', if_neg hn]
      · rw [if_neg h', if_neg h']

/-- Taking from a lot lowers its quantity and no other. -/
theorem lotOnHand_updateLot (lots : List LotDetail) (lot lot' : LotNumber) (qty : Nat) :
    lotOnHand (updateLot lot (fun ld => ld.take qty) lots) lot' =
      if lot' = lot then lotOnHand lots lot' - qty else lotOnHand lots lot' := by
  unfold lotOnHand
  rw [findLot_updateLot fun ld => take_lot ld qty]
  by_cases h : lot' = lot
  · rw [if_pos h, if_pos h]
    cases findLot lots lot' with
    | none => exact (Nat.zero_sub qty).symm
    | some ld => rfl
  · rw [if_neg h, if_neg h]

theorem updateLot_ne {lots : List LotDetail} {lot : LotNumber} {qty : Nat} (h0 : 0 < qty)
    (hq : qty ≤ lotOnHand lots lot) : updateLot lot (fun ld => ld.take qty) lots ≠ lots := by
  intro h
  have hl := lotOnHand_updateLot lots lot lot qty
  rw [h, if_pos rfl] at hl
  omega

/-! ## Plans -/

/-- A lot may be issued on that day. -/
def LotDetail.issuableOn (asOf : Int) (ld : LotDetail) : Bool := ld.expiry.all fun e => asOf ≤ e

/-- The units of the lots that may be issued. -/
def issuable (lots : List LotDetail) (asOf : Int) : Nat :=
  ((lots.filter (·.issuableOn asOf)).map (·.onHand)).sum

/-- The units a plan takes. -/
def planned (plan : List (Nat × Nat)) : Nat := (plan.map (·.2)).sum

theorem planLoop_rest (cs : List (LotDetail × Nat)) (qty : Nat) :
    (planLoop cs qty).2 = qty - (cs.map (·.1.onHand)).sum := by
  induction cs generalizing qty with
  | nil => simp [planLoop]
  | cons c cs ih =>
    obtain ⟨ld, i⟩ := c
    simp only [planLoop, List.map_cons, List.sum_cons]
    split
    · omega
    · split
      · rw [ih]; omega
      · show (planLoop cs (qty - min ld.onHand qty)).2 = _
        rw [ih]; omega

theorem planned_planLoop (cs : List (LotDetail × Nat)) (qty : Nat) :
    planned (planLoop cs qty).1 + (planLoop cs qty).2 = qty := by
  induction cs generalizing qty with
  | nil => simp [planLoop, planned]
  | cons c cs ih =>
    obtain ⟨ld, i⟩ := c
    simp only [planLoop]
    split
    · simp [planned]
    · split
      · exact ih qty
      · have := ih (qty - min ld.onHand qty)
        simp only [planned, List.map_cons, List.sum_cons] at this ⊢
        omega

/-- A plan takes something from each of its lots, and no more than is there. -/
theorem mem_planLoop {cs : List (LotDetail × Nat)} {qty : Nat} {p : Nat × Nat}
    (h : p ∈ (planLoop cs qty).1) : 0 < p.2 ∧ ∃ c ∈ cs, c.2 = p.1 ∧ p.2 ≤ c.1.onHand := by
  induction cs generalizing qty with
  | nil => simp [planLoop] at h
  | cons c cs ih =>
    obtain ⟨ld, i⟩ := c
    simp only [planLoop] at h
    split at h
    · simp at h
    · split at h
      · obtain ⟨h0, c, hc, hp⟩ := ih h
        exact ⟨h0, c, List.mem_cons_of_mem _ hc, hp⟩
      · next h1 =>
        rcases List.mem_cons.mp h with rfl | h
        · exact ⟨Nat.pos_of_ne_zero h1, (ld, i), List.mem_cons_self, rfl, Nat.min_le_left _ _⟩
        · obtain ⟨h0, c, hc, hp⟩ := ih h
          exact ⟨h0, c, List.mem_cons_of_mem _ hc, hp⟩

theorem pickCandidates_perm (lots : List LotDetail) (asOf : Int) :
    (pickCandidates lots asOf).Perm (lots.zipIdx.filter fun p => p.1.issuableOn asOf) :=
  List.perm_insertionSort _ _

theorem mem_pickCandidates {lots : List LotDetail} {asOf : Int} {c : LotDetail × Nat} :
    c ∈ pickCandidates lots asOf ↔ lots[c.2]? = some c.1 ∧ c.1.issuableOn asOf = true := by
  rw [(pickCandidates_perm lots asOf).mem_iff, List.mem_filter, List.mem_zipIdx_iff_getElem?]

theorem pickCandidates_nodup (lots : List LotDetail) (asOf : Int) : ((pickCandidates lots asOf).map (·.2)).Nodup := by
  rw [((pickCandidates_perm lots asOf).map (·.2)).nodup_iff]
  apply List.Nodup.sublist (List.filter_sublist.map _)
  rw [List.zipIdx_map_snd]
  exact List.nodup_range'

theorem getElem?_of_candidate {lots : List LotDetail} {asOf : Int} {c : LotDetail × Nat}
    (h : c ∈ pickCandidates lots asOf) : lots[c.2]? = some c.1 := (mem_pickCandidates.mp h).1

theorem sum_candidates (lots : List LotDetail) (asOf : Int) :
    ((pickCandidates lots asOf).map (·.1.onHand)).sum = issuable lots asOf := by
  rw [((pickCandidates_perm lots asOf).map _).sum_eq, issuable]
  have hf : (lots.zipIdx.filter fun p => p.1.issuableOn asOf).map Prod.fst =
      lots.filter (·.issuableOn asOf) := by
    conv_rhs => rw [← List.zipIdx_map_fst 0 lots]
    rw [List.filter_map]
    rfl
  rw [← hf, List.map_map]
  rfl

/-- A plan exists exactly when the lots that may be issued have the quantity. -/
theorem buildPickPlan_cases (lots : List LotDetail) (qty : Nat) (asOf : Int) (key : StockKey) :
    (issuable lots asOf < qty ∧ ∃ e, buildPickPlan lots qty asOf key = .error e) ∨
    (qty ≤ issuable lots asOf ∧ planned (planLoop (pickCandidates lots asOf) qty).1 = qty ∧
      buildPickPlan lots qty asOf key = .ok (planLoop (pickCandidates lots asOf) qty).1) := by
  have hr := planLoop_rest (pickCandidates lots asOf) qty
  have hp := planned_planLoop (pickCandidates lots asOf) qty
  rw [sum_candidates] at hr
  simp only [buildPickPlan]
  by_cases h : issuable lots asOf < qty
  · left
    refine ⟨h, ?_⟩
    rw [if_pos (by omega)]
    split
    · exact ⟨_, rfl⟩
    · exact ⟨_, rfl⟩
  · right
    refine ⟨by omega, by omega, ?_⟩
    rw [if_neg (by omega)]

/-! ## Carrying a plan out -/

/-- The units of a list of consumptions. -/
def consumed (cs : List LotConsumption) : Nat := (cs.map (·.qty)).sum

theorem consumed_takePlan (lots : List LotDetail) (plan : List (Nat × Nat))
    (h : ∀ p ∈ plan, p.1 < lots.length) : consumed (takePlan lots plan).2 = planned plan := by
  induction plan generalizing lots with
  | nil => rfl
  | cons p plan ih =>
    obtain ⟨i, qty⟩ := p
    have hi : i < lots.length := h (i, qty) List.mem_cons_self
    have ht := ih (lots.set i (lots[i].take qty)) fun p hp => by
      rw [List.length_set]
      exact h p (List.mem_cons_of_mem _ hp)
    unfold takePlan
    rw [List.getElem?_eq_getElem hi]
    simp only [consumed, planned, List.map_cons, List.sum_cons] at ht ⊢
    rw [ht]

/-- No lot gains units. -/
theorem takePlan_le (lots : List LotDetail) (plan : List (Nat × Nat)) (i : Nat) {ld : LotDetail}
    (h : (takePlan lots plan).1[i]? = some ld) : ∃ ld₀, lots[i]? = some ld₀ ∧ ld.onHand ≤ ld₀.onHand := by
  induction plan generalizing lots with
  | nil => exact ⟨ld, h, le_rfl⟩
  | cons p plan ih =>
    obtain ⟨j, qty⟩ := p
    unfold takePlan at h
    split at h
    · next ld₁ hj =>
      obtain ⟨ld₂, h2, hle⟩ := ih _ h
      by_cases hij : j = i
      · subst hij
        rw [List.getElem?_set_self (List.getElem?_eq_some_iff.mp hj).1] at h2
        obtain rfl := Option.some.inj h2
        exact ⟨ld₁, hj, hle.trans (Nat.sub_le _ _)⟩
      · rw [List.getElem?_set_ne hij] at h2
        exact ⟨ld₂, h2, hle⟩
    · exact ih lots h

/-- A plan whose first step takes something changes the lots. -/
theorem takePlan_ne {lots : List LotDetail} {i qty : Nat} {plan : List (Nat × Nat)} {ld : LotDetail}
    (hi : lots[i]? = some ld) (h0 : 0 < qty) (hq : qty ≤ ld.onHand) :
    (takePlan lots ((i, qty) :: plan)).1 ≠ lots := by
  intro h
  have he : (takePlan lots ((i, qty) :: plan)).1 = (takePlan (lots.set i (ld.take qty)) plan).1 := by
    rw [takePlan, hi]
  rw [he] at h
  have hf : (takePlan (lots.set i (ld.take qty)) plan).1[i]? = some ld := by rw [h, hi]
  obtain ⟨ld₀, h1, hle⟩ := takePlan_le _ _ _ hf
  rw [List.getElem?_set_self (List.getElem?_eq_some_iff.mp hi).1] at h1
  obtain rfl := Option.some.inj h1
  rw [take_onHand] at hle
  omega

/-- A pick that is planned takes its quantity, and changes the lots. -/
theorem takePlan_spec {lots : List LotDetail} {qty : Nat} {asOf : Int} (h0 : 0 < qty)
    (hp : planned (planLoop (pickCandidates lots asOf) qty).1 = qty) :
    consumed (takePlan lots (planLoop (pickCandidates lots asOf) qty).1).2 = qty ∧
      (takePlan lots (planLoop (pickCandidates lots asOf) qty).1).1 ≠ lots := by
  have hm : ∀ p ∈ (planLoop (pickCandidates lots asOf) qty).1, 0 < p.2 ∧
      ∃ ld, lots[p.1]? = some ld ∧ p.2 ≤ ld.onHand := by
    intro p h
    obtain ⟨h1, c, hc, hi, hle⟩ := mem_planLoop h
    exact ⟨h1, c.1, hi ▸ getElem?_of_candidate hc, hle⟩
  constructor
  · rw [consumed_takePlan _ _ fun p h => ?_, hp]
    obtain ⟨-, ld, hi, -⟩ := hm p h
    exact (List.getElem?_eq_some_iff.mp hi).1
  · cases hl : (planLoop (pickCandidates lots asOf) qty).1 with
    | nil =>
      rw [hl] at hp
      simp [planned] at hp
      omega
    | cons p plan =>
      obtain ⟨h1, ld, hi, hle⟩ := hm p (by rw [hl]; exact List.mem_cons_self)
      exact takePlan_ne hi h1 hle

/-! ## The units of a key's lots -/

/-- The units of all lots. -/
def units (lots : List LotDetail) : Nat := (lots.map (·.onHand)).sum

theorem units_cons (ld : LotDetail) (lots : List LotDetail) : units (ld :: lots) = ld.onHand + units lots := rfl

/-- Taking from a lot that has the units. -/
theorem units_updateLot {lots : List LotDetail} {lot : LotNumber} {ld : LotDetail} {qty : Nat}
    (hf : findLot lots lot = some ld) (hq : qty ≤ ld.onHand) :
    units (updateLot lot (fun ld => ld.take qty) lots) + qty = units lots := by
  induction lots with
  | nil => cases hf
  | cons l lots ih =>
    unfold findLot at hf
    unfold updateLot
    by_cases hl : l.lot = lot
    · rw [List.find?_cons_of_pos (by simpa using hl)] at hf
      obtain rfl := Option.some.inj hf
      rw [if_pos hl, units_cons, units_cons, take_onHand]
      omega
    · rw [List.find?_cons_of_neg (by simpa using hl)] at hf
      have := ih hf
      rw [if_neg hl, units_cons, units_cons]
      omega

/-- A receipt adds its units, or fewer when the lot's `u32` wraps. -/
theorem units_addToLot (lots : List LotDetail) (lot : LotNumber) (qty : Nat) (expiry : Option Int)
    (serials : List SerialNumber) : units (addToLot lots lot qty expiry serials) ≤ units lots + qty := by
  unfold addToLot
  split
  · clear * -
    induction lots with
    | nil => exact Nat.zero_le _
    | cons l lots ih =>
      unfold updateLot
      by_cases hl : l.lot = lot
      · have := Nat.mod_le (l.onHand + qty) (2 ^ 32)
        rw [if_pos hl, units_cons, units_cons]
        dsimp only
        omega
      · rw [if_neg hl, units_cons, units_cons]
        omega
  · unfold units
    simp

theorem units_set {lots : List LotDetail} {i qty : Nat} {ld : LotDetail} (hi : lots[i]? = some ld)
    (hq : qty ≤ ld.onHand) : units (lots.set i (ld.take qty)) + qty = units lots := by
  induction lots generalizing i with
  | nil => cases hi
  | cons l lots ih =>
    cases i with
    | zero =>
      obtain rfl : l = ld := Option.some.inj hi
      rw [List.set_cons_zero, units_cons, units_cons, take_onHand]
      omega
    | succ i =>
      have := ih hi
      rw [List.set_cons_succ, units_cons, units_cons]
      omega

theorem units_filter (lots : List LotDetail) : units (lots.filter fun l => 0 < l.onHand) = units lots := by
  induction lots with
  | nil => rfl
  | cons l lots ih =>
    by_cases h : 0 < l.onHand
    · rw [List.filter_cons_of_pos (by simpa using h), units_cons, units_cons, ih]
    · rw [List.filter_cons_of_neg (by simpa using h), units_cons, ih]
      omega

/-- A plan for the lots: no lot twice, and no more from a lot than it has. -/
def PlanFits (lots : List LotDetail) (plan : List (Nat × Nat)) : Prop :=
  (plan.map (·.1)).Nodup ∧ ∀ p ∈ plan, ∃ ld, lots[p.1]? = some ld ∧ p.2 ≤ ld.onHand

theorem planLoop_sublist (cs : List (LotDetail × Nat)) (qty : Nat) :
    ((planLoop cs qty).1.map (·.1)).Sublist (cs.map (·.2)) := by
  induction cs generalizing qty with
  | nil => exact .slnil
  | cons c cs ih =>
    obtain ⟨ld, i⟩ := c
    simp only [planLoop]
    split
    · exact List.nil_sublist _
    · split
      · exact (ih qty).cons i
      · exact (ih (qty - min ld.onHand qty)).cons_cons i

theorem planFits_planLoop (lots : List LotDetail) (qty : Nat) (asOf : Int) :
    PlanFits lots (planLoop (pickCandidates lots asOf) qty).1 := by
  constructor
  · exact List.Nodup.sublist (planLoop_sublist _ _) (pickCandidates_nodup lots asOf)
  · intro p hp
    obtain ⟨-, c, hc, hi, hle⟩ := mem_planLoop hp
    exact ⟨c.1, hi ▸ getElem?_of_candidate hc, hle⟩

/-- The rest of a plan fits the lots that its first step leaves. -/
theorem planFits_tail {lots : List LotDetail} {i qty : Nat} {plan : List (Nat × Nat)} {ld : LotDetail}
    (h : PlanFits lots ((i, qty) :: plan)) : PlanFits (lots.set i ld) plan := by
  obtain ⟨hn, hall⟩ := h
  obtain ⟨hi, hn⟩ := List.nodup_cons.mp hn
  refine ⟨hn, ?_⟩
  intro p hp
  have hne : i ≠ p.1 := by
    intro he
    exact hi (List.mem_map.mpr ⟨p, hp, he.symm⟩)
  rw [List.getElem?_set_ne hne]
  exact hall p (List.mem_cons_of_mem _ hp)

/-- A plan that fits takes its units out of the lots. -/
theorem units_takePlan {lots : List LotDetail} {plan : List (Nat × Nat)} (h : PlanFits lots plan) :
    units (takePlan lots plan).1 + planned plan = units lots := by
  induction plan generalizing lots with
  | nil => rfl
  | cons p plan ih =>
    obtain ⟨i, qty⟩ := p
    obtain ⟨ld, hi, hq⟩ := h.2 (i, qty) List.mem_cons_self
    have hfits : PlanFits (lots.set i (ld.take qty)) plan := planFits_tail h
    have hrest := ih hfits
    have hset : units (lots.set i (ld.take qty)) + qty = units lots := units_set hi hq
    have hp : planned ((i, qty) :: plan) = qty + planned plan := rfl
    have ht : (takePlan lots ((i, qty) :: plan)).1 = (takePlan (lots.set i (ld.take qty)) plan).1 := by
      rw [takePlan, hi]
    rw [ht, hp]
    omega

/-! ## The lot of a number -/

/-- No two lots have one number. -/
def Distinct (lots : List LotDetail) : Prop := (lots.map (·.lot)).Nodup

/-- A lot after a receipt into it. -/
def LotDetail.receive (ld : LotDetail) (qty : Nat) (expiry : Option Int) (serials : List SerialNumber) : LotDetail :=
  { ld with
    onHand := (ld.onHand + qty) % 2 ^ 32
    serials := ld.serials ++ serials
    expiry := if expiry.isSome then expiry else ld.expiry }

theorem receive_lot (ld : LotDetail) (qty : Nat) (expiry : Option Int) (serials : List SerialNumber) :
    (ld.receive qty expiry serials).lot = ld.lot := rfl

theorem lot_of_find {lots : List LotDetail} {lot : LotNumber} {ld : LotDetail} (h : findLot lots lot = some ld) :
    ld.lot = lot := by
  simpa using List.find?_some h

theorem findLot_addToLot (lots : List LotDetail) (lot : LotNumber) (qty : Nat) (expiry : Option Int)
    (serials : List SerialNumber) (lot' : LotNumber) :
    findLot (addToLot lots lot qty expiry serials) lot' =
      if lot' = lot then
        some (((findLot lots lot).map fun ld => ld.receive qty expiry serials).getD
          { lot, expiry, onHand := qty, serials })
      else findLot lots lot' := by
  unfold addToLot
  cases hf : findLot lots lot with
  | some ld =>
    show findLot (updateLot lot (fun ld => ld.receive qty expiry serials) lots) lot' = _
    rw [findLot_updateLot (fun ld => receive_lot ld qty expiry serials)]
    split
    · next h =>
      rw [h, hf]
      rfl
    · rfl
  | none =>
    show (lots ++ [_]).find? _ = _
    rw [List.find?_append]
    by_cases h : lot' = lot
    · have hn : lots.find? (fun ld => ld.lot = lot) = none := hf
      rw [if_pos h, h, hn]
      simp
    · have hn : ¬ lot = lot' := fun he => h he.symm
      rw [if_neg h]
      unfold findLot
      simp [hn]

theorem map_lot_updateLot {f : LotDetail → LotDetail} (hf : ∀ ld, (f ld).lot = ld.lot) (lot : LotNumber)
    (lots : List LotDetail) : (updateLot lot f lots).map (·.lot) = lots.map (·.lot) := by
  induction lots with
  | nil => rfl
  | cons ld lots ih =>
    unfold updateLot
    split
    · rw [List.map_cons, List.map_cons, hf]
    · rw [List.map_cons, List.map_cons, ih]

theorem notMem_of_find_none {lots : List LotDetail} {lot : LotNumber} (h : findLot lots lot = none) :
    lot ∉ lots.map (·.lot) := by
  intro hm
  obtain ⟨ld, hld, rfl⟩ := List.mem_map.mp hm
  have hne := List.find?_eq_none.mp h ld hld
  simp at hne

theorem distinct_updateLot {f : LotDetail → LotDetail} (hf : ∀ ld, (f ld).lot = ld.lot) {lots : List LotDetail}
    (h : Distinct lots) (lot : LotNumber) : Distinct (updateLot lot f lots) := by
  unfold Distinct
  rw [map_lot_updateLot hf]
  exact h

theorem distinct_addToLot {lots : List LotDetail} (h : Distinct lots) (lot : LotNumber) (qty : Nat)
    (expiry : Option Int) (serials : List SerialNumber) : Distinct (addToLot lots lot qty expiry serials) := by
  unfold addToLot
  cases hf : findLot lots lot with
  | some ld => exact distinct_updateLot (fun ld => receive_lot ld qty expiry serials) h lot
  | none =>
    show ((lots ++ [_]).map _).Nodup
    rw [List.map_append]
    apply List.Nodup.append h (List.nodup_singleton _)
    intro l hl hl'
    obtain rfl : l = lot := List.mem_singleton.mp hl'
    exact notMem_of_find_none hf hl

theorem distinct_filter {lots : List LotDetail} (h : Distinct lots) (p : LotDetail → Bool) :
    Distinct (lots.filter p) :=
  List.Nodup.sublist (List.filter_sublist.map _) h

theorem mem_iff_findLot {lots : List LotDetail} (h : Distinct lots) (ld : LotDetail) :
    ld ∈ lots ↔ findLot lots ld.lot = some ld := by
  constructor
  · intro hm
    induction lots with
    | nil => cases hm
    | cons l lots ih =>
      obtain ⟨hn, h⟩ := List.nodup_cons.mp h
      rw [findLot_cons]
      rcases List.mem_cons.mp hm with rfl | hm
      · rw [if_pos rfl]
      · have hne : l.lot ≠ ld.lot := by
          intro he
          exact hn (List.mem_map.mpr ⟨ld, hm, he.symm⟩)
        rw [if_neg hne]
        exact ih h hm
  · intro hf
    exact List.mem_of_find?_eq_some hf

theorem findLot_filter {lots : List LotDetail} (h : Distinct lots) (p : LotDetail → Bool) (lot : LotNumber) :
    findLot (lots.filter p) lot = (findLot lots lot).filter p := by
  ext ld
  have key : ∀ {ls : List LotDetail}, Distinct ls → (findLot ls lot = some ld ↔ ld ∈ ls ∧ ld.lot = lot) := by
    intro ls hls
    constructor
    · intro hf
      exact ⟨List.mem_of_find?_eq_some hf, lot_of_find hf⟩
    · rintro ⟨hm, rfl⟩
      exact (mem_iff_findLot hls ld).mp hm
  rw [key (distinct_filter h p), Option.filter_eq_some_iff, key h, List.mem_filter]
  constructor
  · rintro ⟨⟨hm, hp⟩, hl⟩
    exact ⟨⟨hm, hl⟩, hp⟩
  · rintro ⟨⟨hm, hl⟩, hp⟩
    exact ⟨⟨hm, hp⟩, hl⟩

/-! ## Consumptions, lot by lot -/

/-- Consumptions taken out of the lots one after the other: each from a lot that has its units, with the
serials that come first in it. -/
inductive TakesLots : List LotDetail → List LotConsumption → List LotDetail → Prop
  | nil (lots : List LotDetail) : TakesLots lots [] lots
  | cons {lots lots' : List LotDetail} {c : LotConsumption} {cs : List LotConsumption} (ld : LotDetail)
      (found : findLot lots c.lot = some ld) (enough : c.qty ≤ ld.onHand)
      (serials : c.serials = ld.takenSerials c.qty)
      (rest : TakesLots (updateLot c.lot (fun ld => ld.take c.qty) lots) cs lots') : TakesLots lots (c :: cs) lots'

/-- The lot at a place is the lot of its number. -/
theorem set_eq_updateLot {lots : List LotDetail} (h : Distinct lots) {i : Nat} {ld : LotDetail}
    (hi : lots[i]? = some ld) (f : LotDetail → LotDetail) : lots.set i (f ld) = updateLot ld.lot f lots := by
  induction lots generalizing i with
  | nil => cases hi
  | cons l lots ih =>
    obtain ⟨hn, h⟩ := List.nodup_cons.mp h
    unfold updateLot
    cases i with
    | zero =>
      obtain rfl : l = ld := Option.some.inj hi
      rw [if_pos rfl]
      rfl
    | succ i =>
      have hne : l.lot ≠ ld.lot := by
        intro he
        exact hn (List.mem_map.mpr ⟨ld, List.mem_of_getElem? hi, he.symm⟩)
      rw [if_neg hne, List.set_cons_succ, ih h hi]

theorem takesLots_takePlan {lots : List LotDetail} {plan : List (Nat × Nat)} (h : Distinct lots)
    (hp : PlanFits lots plan) : TakesLots lots (takePlan lots plan).2 (takePlan lots plan).1 := by
  induction plan generalizing lots with
  | nil => exact .nil lots
  | cons p plan ih =>
    obtain ⟨i, qty⟩ := p
    obtain ⟨ld, hi, hq⟩ := hp.2 (i, qty) List.mem_cons_self
    have hset := set_eq_updateLot h hi fun ld => ld.take qty
    have hfits : PlanFits (lots.set i (ld.take qty)) plan := planFits_tail hp
    have hd : Distinct (lots.set i (ld.take qty)) := by
      rw [hset]
      exact distinct_updateLot (fun ld => take_lot ld qty) h _
    have hrest := ih hd hfits
    have ht : takePlan lots ((i, qty) :: plan) = ((takePlan (lots.set i (ld.take qty)) plan).1,
        { lot := ld.lot, qty, serials := ld.takenSerials qty } :: (takePlan (lots.set i (ld.take qty)) plan).2) := by
      rw [takePlan, hi]
    rw [ht]
    apply TakesLots.cons ld ((mem_iff_findLot h ld).mp (List.mem_of_getElem? hi)) hq rfl
    rw [← hset]
    exact hrest

end TptErp.Wms
