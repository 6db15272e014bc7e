import TptErp.Wms.Lots
import TptErp.Lib.GroupBy

/-!
# First expired, first out

What a pick plan takes from each lot, and when that is the order the plan is meant to have: the lot that expires
first is emptied first, and a lot without expiry comes last.

`Option<NaiveDate>` puts `None` before every date, so the candidates without expiry come first
(`takenFrom_candidate` says what each gives).  And a shortage is put down to an expired lot whether or not that lot
has anything left.  `plansRight_iff`: the plan, or the error, is right exactly when neither matters.
-/

namespace TptErp.Wms

/-! ## The candidates -/

theorem expiryLe_total (a b : Option Int) : expiryLe a b = true ∨ expiryLe b a = true := by
  cases a with
  | none => exact Or.inl rfl
  | some x =>
    cases b with
    | none => exact Or.inr rfl
    | some y =>
      simp only [expiryLe, decide_eq_true_eq]
      omega

theorem expiryLe_trans {a b c : Option Int} (h1 : expiryLe a b = true) (h2 : expiryLe b c = true) :
    expiryLe a c = true := by
  cases a with
  | none => rfl
  | some x =>
    cases b with
    | none => cases h1
    | some y =>
      cases c with
      | none => cases h2
      | some z =>
        simp only [expiryLe, decide_eq_true_eq] at h1 h2 ⊢
        omega

theorem pickCandidates_pairwise (lots : List LotDetail) (asOf : Int) :
    (pickCandidates lots asOf).Pairwise fun a b => expiryLe a.1.expiry b.1.expiry = true := by
  have : Std.Total fun a b : LotDetail × Nat => expiryLe a.1.expiry b.1.expiry = true :=
    ⟨fun a b => expiryLe_total a.1.expiry b.1.expiry⟩
  have : IsTrans (LotDetail × Nat) fun a b => expiryLe a.1.expiry b.1.expiry = true :=
    ⟨fun a b c => expiryLe_trans⟩
  exact List.pairwise_insertionSort _ _

/-! ## What the plan takes from each candidate -/

/-- The units of candidates. -/
def stock (cs : List (LotDetail × Nat)) : Nat := (cs.map (·.1.onHand)).sum

/-- The units a plan takes from a place. -/
def takenFrom (plan : List (Nat × Nat)) (i : Nat) : Nat := ((plan.filter fun p => p.1 = i).map (·.2)).sum

theorem takenFrom_cons (p : Nat × Nat) (plan : List (Nat × Nat)) (i : Nat) :
    takenFrom (p :: plan) i = (if p.1 = i then p.2 else 0) + takenFrom plan i := by
  unfold takenFrom
  by_cases h : p.1 = i
  · simp [h]
  · simp [h]

theorem takenFrom_of_notMem {plan : List (Nat × Nat)} {i : Nat} (h : i ∉ plan.map (·.1)) : takenFrom plan i = 0 := by
  unfold takenFrom
  rw [List.filter_eq_nil_iff.mpr]
  · rfl
  · intro p hp he
    exact h (List.mem_map.mpr ⟨p, hp, of_decide_eq_true he⟩)

theorem takenFrom_of_mem {plan : List (Nat × Nat)} (hn : (plan.map (·.1)).Nodup) {p : Nat × Nat} (hp : p ∈ plan) :
    takenFrom plan p.1 = p.2 := by
  unfold takenFrom
  rw [GroupBy.filter_key_eq hn hp]
  simp

/-- **What a candidate gives**: what the candidates before it leave to be taken, as far as it goes. -/
theorem takenFrom_planLoop (before after : List (LotDetail × Nat)) (c : LotDetail × Nat) (qty : Nat)
    (hn : ((before ++ c :: after).map (·.2)).Nodup) :
    takenFrom (planLoop (before ++ c :: after) qty).1 c.2 = min c.1.onHand (qty - stock before) := by
  induction before generalizing qty with
  | nil =>
    have hnot : ∀ q, c.2 ∉ (planLoop after q).1.map (·.1) := fun q hm =>
      (List.nodup_cons.mp hn).1 ((planLoop_sublist after q).subset hm)
    rw [List.nil_append]
    simp only [planLoop]
    split
    · next h => simp [takenFrom, h]
    · split
      · next h0 =>
        rw [takenFrom_of_notMem (hnot _)]
        simp only [stock, List.map_nil, List.sum_nil]
        omega
      · rw [takenFrom_cons, if_pos rfl, takenFrom_of_notMem (hnot _)]
        simp [stock]
  | cons d before ih =>
    rw [List.cons_append, List.map_cons, List.nodup_cons] at hn
    have hne : d.2 ≠ c.2 := by
      intro he
      refine hn.1 ?_
      rw [he]
      simp
    have hs : stock (d :: before) = d.1.onHand + stock before := rfl
    rw [List.cons_append]
    simp only [planLoop]
    split
    · next h => simp [takenFrom, h]
    · split
      · next h0 =>
        rw [ih qty hn.2]
        omega
      · rw [takenFrom_cons, if_neg hne, Nat.zero_add]
        show takenFrom (planLoop (before ++ c :: after) (qty - min d.1.onHand qty)).1 c.2 = _
        rw [ih _ hn.2]
        omega

/-! ## First expired, first out -/

/-- No expiry is after every expiry. -/
def ExpiresBefore (a b : LotDetail) : Prop :=
  match a.expiry, b.expiry with
  | some x, some y => x < y
  | some _, none => True
  | none, _ => False

/-- The plan takes the quantity from lots that are not expired, each at most once and no more than it has, and from
a lot only when those that expire before it are emptied. -/
structure Fefo (lots : List LotDetail) (qty : Nat) (asOf : Int) (plan : List (Nat × Nat)) : Prop where
  once : (plan.map (·.1)).Nodup
  fromLots : ∀ p ∈ plan, ∃ ld, lots[p.1]? = some ld ∧ ld.issuableOn asOf = true ∧ p.2 ≤ ld.onHand
  total : planned plan = qty
  first : ∀ p ∈ plan, ∀ (i : Nat) ld ld', lots[p.1]? = some ld → lots[i]? = some ld' → ld'.issuableOn asOf = true →
    ExpiresBefore ld' ld → takenFrom plan i = ld'.onHand

/-- Stock without expiry, and stock with one, are not both there to choose from. -/
def OneKind (lots : List LotDetail) (qty : Nat) (asOf : Int) : Prop :=
  qty = 0 ∨ qty = issuable lots asOf ∨ (∀ ld ∈ lots, ld.expiry = none → ld.onHand = 0) ∨
    ∀ ld ∈ lots, ld.expiry.isSome → ld.issuableOn asOf = true → ld.onHand = 0

section
variable {lots : List LotDetail} {qty : Nat} {asOf : Int}

theorem takenFrom_candidate (qty : Nat) {before after : List (LotDetail × Nat)} {c : LotDetail × Nat}
    (h : pickCandidates lots asOf = before ++ c :: after) :
    takenFrom (planLoop (pickCandidates lots asOf) qty).1 c.2 = min c.1.onHand (qty - stock before) := by
  have hn := pickCandidates_nodup lots asOf
  rw [h] at hn ⊢
  exact takenFrom_planLoop before after c qty hn

theorem stock_append (cs ds : List (LotDetail × Nat)) : stock (cs ++ ds) = stock cs + stock ds := by
  simp [stock]

theorem stock_cons (c : LotDetail × Nat) (cs : List (LotDetail × Nat)) : stock (c :: cs) = c.1.onHand + stock cs := rfl

/-- A lot that the plan takes from, as a candidate: what is taken from it, and that the candidates before it are
taken completely. -/
theorem candidate_of_mem_plan {p : Nat × Nat} (hp : p ∈ (planLoop (pickCandidates lots asOf) qty).1) :
    ∃ before c after, pickCandidates lots asOf = before ++ c :: after ∧ c.2 = p.1 ∧ 0 < c.1.onHand ∧
      stock before < qty := by
  obtain ⟨h0, c, hc, hi, hle⟩ := mem_planLoop hp
  obtain ⟨before, after, he⟩ := List.append_of_mem hc
  have htaken := takenFrom_candidate qty he
  rw [hi, takenFrom_of_mem (planFits_planLoop lots qty asOf).1 hp] at htaken
  exact ⟨before, c, after, he, hi, by omega, by omega⟩

/-- The plan empties the candidates before one it takes from. -/
theorem takenFrom_before {before after : List (LotDetail × Nat)} {c d : LotDetail × Nat}
    (h : pickCandidates lots asOf = before ++ c :: after) (hlt : stock before < qty) (hd : d ∈ before) :
    takenFrom (planLoop (pickCandidates lots asOf) qty).1 d.2 = d.1.onHand := by
  obtain ⟨before', between, rfl⟩ := List.append_of_mem hd
  rw [stock_append, stock_cons] at hlt
  have he : pickCandidates lots asOf = before' ++ d :: (between ++ c :: after) := by
    rw [h, List.append_assoc, List.cons_append]
  rw [takenFrom_candidate qty he]
  omega

theorem first_of_oneKind (h : OneKind lots qty asOf) {p : Nat × Nat}
    (hp : p ∈ (planLoop (pickCandidates lots asOf) qty).1) {i : Nat} {ld ld' : LotDetail}
    (hl : lots[p.1]? = some ld) (hl' : lots[i]? = some ld') (hissue : ld'.issuableOn asOf = true)
    (hbefore : ExpiresBefore ld' ld) :
    takenFrom (planLoop (pickCandidates lots asOf) qty).1 i = ld'.onHand := by
  obtain ⟨before, c, after, he, hi, h0, hlt⟩ := candidate_of_mem_plan hp
  have hc : c ∈ pickCandidates lots asOf := by rw [he]; simp
  obtain rfl : c.1 = ld := by
    have := (mem_pickCandidates.mp hc).1
    rw [hi, hl] at this
    exact (Option.some.inj this).symm
  have hmem : (ld', i) ∈ pickCandidates lots asOf := mem_pickCandidates.mpr ⟨hl', hissue⟩
  cases hexp : c.1.expiry with
  | some y =>
    -- the lots that expire before a dated one are candidates before it
    have hin : (ld', i) ∈ before := by
      rw [he] at hmem
      rcases List.mem_append.mp hmem with hb | hb
      · exact hb
      · exfalso
        have hsort := pickCandidates_pairwise lots asOf
        rw [he] at hsort
        have hle : expiryLe c.1.expiry ld'.expiry = true := by
          rcases List.mem_cons.mp hb with rfl | hb
          · rcases expiryLe_total ld'.expiry ld'.expiry with h | h
            · exact h
            · exact h
          · exact (List.pairwise_cons.mp (List.pairwise_append.mp hsort).2.1).1 _ hb
        unfold ExpiresBefore at hbefore
        rw [hexp] at hle hbefore
        cases hexp' : ld'.expiry with
        | none =>
          rw [hexp'] at hle
          cases hle
        | some x =>
          rw [hexp'] at hle hbefore
          simp only [expiryLe, decide_eq_true_eq] at hle
          dsimp only at hbefore
          omega
    exact takenFrom_before he hlt hin
  | none =>
    have hdated : ld'.expiry.isSome := by
      unfold ExpiresBefore at hbefore
      cases hexp' : ld'.expiry with
      | none =>
        rw [hexp'] at hbefore
        exact hbefore.elim
      | some x => rfl
    obtain ⟨before', after', he'⟩ := List.append_of_mem hmem
    have htaken := takenFrom_candidate qty he'
    dsimp only at htaken
    rw [htaken]
    rcases h with h | h | h | h
    · omega
    · -- everything is taken
      have hsum : stock (pickCandidates lots asOf) = issuable lots asOf := sum_candidates lots asOf
      rw [he', stock_append, stock_cons] at hsum
      dsimp only at hsum
      omega
    · have := h c.1 (List.mem_of_getElem? hl) hexp
      omega
    · have := h ld' (List.mem_of_getElem? hl') hdated hissue
      omega

end

/-- The first item with a property. -/
theorem exists_first {α : Type} {P : α → Prop} {l : List α} (h : ∃ x ∈ l, P x) :
    ∃ before x after, l = before ++ x :: after ∧ P x ∧ ∀ y ∈ before, ¬ P y := by
  induction l with
  | nil =>
    obtain ⟨x, hx, -⟩ := h
    cases hx
  | cons a l ih =>
    by_cases ha : P a
    · exact ⟨[], a, l, rfl, ha, fun y hy => nomatch hy⟩
    · obtain ⟨x, hx, hP⟩ := h
      rcases List.mem_cons.mp hx with rfl | hx
      · exact absurd hP ha
      · obtain ⟨before, y, after, rfl, hy, hall⟩ := ih ⟨x, hx, hP⟩
        exact ⟨a :: before, y, after, rfl, hy, List.forall_mem_cons.mpr ⟨ha, hall⟩⟩

/-- The last item with a property. -/
theorem exists_last {α : Type} {P : α → Prop} {l : List α} (h : ∃ x ∈ l, P x) :
    ∃ before x after, l = before ++ x :: after ∧ P x ∧ ∀ y ∈ after, ¬ P y := by
  obtain ⟨x, hx, hP⟩ := h
  obtain ⟨before, y, after, he, hy, hall⟩ := exists_first ⟨x, List.mem_reverse.mpr hx, hP⟩
  refine ⟨after.reverse, y, before.reverse, ?_, hy, fun z hz => hall z (List.mem_reverse.mp hz)⟩
  have := congrArg List.reverse he
  simpa using this

theorem stock_eq_zero {cs : List (LotDetail × Nat)} (h : ∀ c ∈ cs, ¬ 0 < c.1.onHand) : stock cs = 0 := by
  induction cs with
  | nil => rfl
  | cons c cs ih =>
    obtain ⟨hc, hcs⟩ := List.forall_mem_cons.mp h
    rw [stock_cons, ih hcs]
    omega

section
variable {lots : List LotDetail} {qty : Nat} {asOf : Int}

/-- When there is stock of both kinds, the first lot with stock has no expiry, and the last one has. -/
theorem first_and_last {u d : LotDetail} (hu : u ∈ lots) (hu0 : u.onHand ≠ 0) (hun : u.expiry = none) (hd : d ∈ lots)
    (hd0 : d.onHand ≠ 0) (hds : d.expiry.isSome) (hdi : d.issuableOn asOf = true) :
    (∃ before c after, pickCandidates lots asOf = before ++ c :: after ∧ 0 < c.1.onHand ∧ stock before = 0 ∧
        c.1.expiry = none) ∧
      ∃ before z after, pickCandidates lots asOf = before ++ z :: after ∧ 0 < z.1.onHand ∧ stock after = 0 ∧
        z.1.expiry.isSome := by
  have hcand : ∀ {ld : LotDetail}, ld ∈ lots → ld.issuableOn asOf = true →
      ∃ i, (ld, i) ∈ pickCandidates lots asOf := by
    intro ld hld hi
    obtain ⟨i, hi', rfl⟩ := List.mem_iff_getElem.mp hld
    exact ⟨i, mem_pickCandidates.mpr ⟨List.getElem?_eq_getElem hi', hi⟩⟩
  have hui : u.issuableOn asOf = true := by
    unfold LotDetail.issuableOn
    rw [hun]
    rfl
  obtain ⟨i, hui⟩ := hcand hu hui
  obtain ⟨j, hdj⟩ := hcand hd hdi
  have hsort := pickCandidates_pairwise lots asOf
  constructor
  · obtain ⟨before, c, after, he, hc, hall⟩ :=
      exists_first (P := fun c : LotDetail × Nat => 0 < c.1.onHand) ⟨_, hui, Nat.pos_of_ne_zero hu0⟩
    refine ⟨before, c, after, he, hc, stock_eq_zero hall, ?_⟩
    rw [he] at hui hsort
    rcases List.mem_append.mp hui with hb | hb
    · exact absurd (Nat.pos_of_ne_zero hu0) (hall _ hb)
    · rcases List.mem_cons.mp hb with rfl | hb
      · exact hun
      · have hle := (List.pairwise_cons.mp (List.pairwise_append.mp hsort).2.1).1 _ hb
        dsimp only at hle
        rw [hun] at hle
        cases hx : c.1.expiry with
        | none => rfl
        | some x =>
          rw [hx] at hle
          cases hle
  · obtain ⟨before, z, after, he, hz, hall⟩ :=
      exists_last (P := fun c : LotDetail × Nat => 0 < c.1.onHand) ⟨_, hdj, Nat.pos_of_ne_zero hd0⟩
    refine ⟨before, z, after, he, hz, stock_eq_zero hall, ?_⟩
    rw [he] at hdj hsort
    rcases List.mem_append.mp hdj with hb | hb
    · have hle := (List.pairwise_append.mp hsort).2.2 _ hb z List.mem_cons_self
      dsimp only at hle
      obtain ⟨x, hx⟩ := Option.isSome_iff_exists.mp hds
      rw [hx] at hle
      cases hz' : z.1.expiry with
      | none =>
        rw [hz'] at hle
        cases hle
      | some y => rfl
    · rcases List.mem_cons.mp hb with rfl | hb
      · exact hds
      · exact absurd (Nat.pos_of_ne_zero hd0) (hall _ hb)

theorem oneKind_of_fefo (hq : qty ≤ issuable lots asOf)
    (h : Fefo lots qty asOf (planLoop (pickCandidates lots asOf) qty).1) : OneKind lots qty asOf := by
  by_contra hno
  unfold OneKind at hno
  simp only [not_or, not_forall] at hno
  obtain ⟨hq0, hqi, ⟨u, hu, hun, hu0⟩, d, hd, hds, hdi, hd0⟩ := hno
  obtain ⟨⟨before, c, after, hc, hc0, hbefore, hcn⟩, before', z, after', hz, hz0, hafter, hzs⟩ :=
    first_and_last hu hu0 hun hd hd0 hds hdi
  -- the first lot is taken from, so the last one should be emptied
  have htaken := takenFrom_candidate qty hc
  have hin : c.2 ∈ (planLoop (pickCandidates lots asOf) qty).1.map (·.1) := by
    by_contra hn
    rw [takenFrom_of_notMem hn] at htaken
    omega
  obtain ⟨p, hp, hpc⟩ := List.mem_map.mp hin
  have hcm := mem_pickCandidates.mp (show c ∈ pickCandidates lots asOf by rw [hc]; simp)
  have hzm := mem_pickCandidates.mp (show z ∈ pickCandidates lots asOf by rw [hz]; simp)
  have hempty := h.first p hp z.2 c.1 z.1 (hpc ▸ hcm.1) hzm.1 hzm.2 (by
    unfold ExpiresBefore
    obtain ⟨x, hx⟩ := Option.isSome_iff_exists.mp hzs
    rw [hcn, hx]
    trivial)
  rw [takenFrom_candidate qty hz] at hempty
  have hsum : stock (pickCandidates lots asOf) = issuable lots asOf := sum_candidates lots asOf
  rw [hz, stock_append, stock_cons, hafter] at hsum
  omega

/-- The plan is first expired, first out, exactly when there is stock of one kind only to choose from. -/
theorem fefo_iff_oneKind (hq : qty ≤ issuable lots asOf)
    (hp : planned (planLoop (pickCandidates lots asOf) qty).1 = qty) :
    Fefo lots qty asOf (planLoop (pickCandidates lots asOf) qty).1 ↔ OneKind lots qty asOf := by
  refine ⟨oneKind_of_fefo hq, fun h => ?_⟩
  obtain ⟨hnodup, hfits⟩ := planFits_planLoop lots qty asOf
  refine ⟨hnodup, ?_, hp, fun p hm i ld ld' hl hl' => first_of_oneKind h hm hl hl'⟩
  intro p hm
  obtain ⟨-, c, hc, hi, hle⟩ := mem_planLoop hm
  obtain ⟨hl, hissue⟩ := mem_pickCandidates.mp hc
  exact ⟨c.1, hi ▸ hl, hissue, hle⟩

end

/-! ## The plan, or the error -/

/-- A lot that is expired has stock left. -/
def ExpiredStock (lots : List LotDetail) (asOf : Int) : Prop :=
  ∃ ld ∈ lots, ld.issuableOn asOf = false ∧ 0 < ld.onHand

/-- A plan when the lots that may be issued have the quantity, and the right error when they do not. -/
structure PlansRight (lots : List LotDetail) (qty : Nat) (asOf : Int) (key : StockKey) : Prop where
  plan : qty ≤ issuable lots asOf → ∃ plan, buildPickPlan lots qty asOf key = .ok plan ∧ Fefo lots qty asOf plan
  error : issuable lots asOf < qty →
    (∃ lot, buildPickPlan lots qty asOf key = .error (.expiredLot key lot) ∧ ExpiredStock lots asOf) ∨
      ∃ have_ need, buildPickPlan lots qty asOf key = .error (.insufficientStock key have_ need)

theorem minExpiry_eq_none_iff (lots : List LotDetail) : minExpiry lots = none ↔ lots = [] := by
  cases lots with
  | nil => exact iff_of_true rfl rfl
  | cons ld lots =>
    refine iff_of_false ?_ (List.cons_ne_nil _ _)
    unfold minExpiry
    cases minExpiry lots with
    | none => exact Option.some_ne_none _
    | some best =>
      dsimp only
      split
      · exact Option.some_ne_none _
      · exact Option.some_ne_none _

theorem expired_eq (ld : LotDetail) (asOf : Int) :
    (ld.expiry.any fun e => decide (e < asOf)) = !ld.issuableOn asOf := by
  unfold LotDetail.issuableOn
  cases ld.expiry with
  | none => rfl
  | some e =>
    show decide (e < asOf) = !decide (asOf ≤ e)
    by_cases h : e < asOf
    · simp [h]
    · simp [h, not_lt.mp h]

/-- The error of a pick that is short: an expired lot, when there is one. -/
theorem buildPickPlan_short {lots : List LotDetail} {qty : Nat} {asOf : Int} (key : StockKey)
    (h : issuable lots asOf < qty) :
    ((∃ ld ∈ lots, ld.issuableOn asOf = false) ∧ ∃ lot, buildPickPlan lots qty asOf key = .error (.expiredLot key lot)) ∨
      (∀ ld ∈ lots, ld.issuableOn asOf = true) ∧
        ∃ have_ need, buildPickPlan lots qty asOf key = .error (.insufficientStock key have_ need) := by
  have hr := planLoop_rest (pickCandidates lots asOf) qty
  rw [sum_candidates] at hr
  simp only [buildPickPlan]
  rw [if_pos (by omega)]
  split
  · next ld hld =>
    refine Or.inl ⟨?_, _, rfl⟩
    have hne : lots.filter (fun l => l.expiry.any fun e => e < asOf) ≠ [] := by
      intro he
      rw [he] at hld
      cases hld
    obtain ⟨l, hl⟩ := List.exists_mem_of_ne_nil _ hne
    obtain ⟨hm, hx⟩ := List.mem_filter.mp hl
    rw [expired_eq] at hx
    exact ⟨l, hm, by simpa using hx⟩
  · next hnone =>
    refine Or.inr ⟨?_, _, _, rfl⟩
    intro l hl
    rw [minExpiry_eq_none_iff, List.filter_eq_nil_iff] at hnone
    have := hnone l hl
    rw [expired_eq] at this
    simpa using this

/-- **First expired, first out**: exactly when, with enough in the lots that may be issued, there is stock of one kind
only to choose from, and otherwise there is no expired lot, or one with stock left. -/
theorem plansRight_iff (lots : List LotDetail) (qty : Nat) (asOf : Int) (key : StockKey) :
    PlansRight lots qty asOf key ↔
      if qty ≤ issuable lots asOf then OneKind lots qty asOf
      else (∀ ld ∈ lots, ld.issuableOn asOf = true) ∨ ExpiredStock lots asOf := by
  rcases buildPickPlan_cases lots qty asOf key with ⟨hlt, -⟩ | ⟨hle, hp, he⟩
  · rw [if_neg (by omega)]
    rcases buildPickPlan_short key hlt with ⟨⟨l, hl, hx⟩, lot, he⟩ | ⟨hall, have_, need, he⟩
    · constructor
      · intro h
        rcases h.error hlt with ⟨_, -, hs⟩ | ⟨_, _, he'⟩
        · exact Or.inr hs
        · rw [he] at he'
          cases he'
      · rintro (hall | hs)
        · rw [hall l hl] at hx
          cases hx
        · exact ⟨fun hle => absurd hlt (not_lt.mpr hle), fun _ => Or.inl ⟨lot, he, hs⟩⟩
    · exact iff_of_true ⟨fun hle => absurd hlt (not_lt.mpr hle), fun _ => Or.inr ⟨have_, need, he⟩⟩ (Or.inl hall)
  · rw [if_pos hle, ← fefo_iff_oneKind hle hp]
    constructor
    · intro h
      obtain ⟨plan, he', hfefo⟩ := h.plan hle
      rw [he] at he'
      cases he'
      exact hfefo
    · intro h
      exact ⟨fun _ => ⟨_, he, h⟩, fun hlt => absurd hlt (not_lt.mpr hle)⟩

/-- Five units of a lot that expires and five of one that does not: the plan takes the second. -/
theorem undated_lot_first :
    ¬ PlansRight
      [{ lot := ⟨"A"⟩, expiry := some 10, onHand := 5, serials := [] },
        { lot := ⟨"B"⟩, expiry := none, onHand := 5, serials := [] }] 5 0 ⟨⟨1⟩, ⟨1⟩⟩ := by
  intro h
  obtain ⟨plan, he, hfefo⟩ := h.plan (by decide)
  obtain rfl : plan = [(1, 5)] := by
    have hplan : buildPickPlan
        [{ lot := ⟨"A"⟩, expiry := some 10, onHand := 5, serials := [] },
          { lot := ⟨"B"⟩, expiry := none, onHand := 5, serials := [] }] 5 0 ⟨⟨1⟩, ⟨1⟩⟩ = .ok [(1, 5)] := rfl
    rw [hplan] at he
    exact (Except.ok.inj he).symm
  have := hfefo.first (1, 5) (List.mem_singleton.mpr rfl) 0 _ _ rfl rfl rfl trivial
  exact absurd this (by decide)

end TptErp.Wms
