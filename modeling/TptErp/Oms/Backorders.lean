import TptErp.Oms.Fulfilment

/-!
# Every backorder is filled once

`fulfill_backorders` picks a backorder that the pool covers in one section, and takes it out and inserts a hold for
it in another, which does not look whether it still waits.  A run is followed with a history of the backorders that
were placed, the fills, and the holds that were taken out again.

`filled_once_iff`: in every interleaving of the engine's calls every backorder is filled at most once, with exactly
its units, and waits exactly until then, if and only if every fill finds its backorder waiting; and in every state a
`fulfill_backorders` that runs alone ends, with no backorder left that the pool covers.
-/

namespace TptErp.Oms

variable {SHARDS : Nat}

/-- What has become of the backorders. -/
structure BackorderHistory where
  placed : List ((SkuId × HoldId) × Nat) := []
  fills : List Fill := []
  /-- The holds that were confirmed or released. -/
  taken : List (SkuId × HoldId) := []

/-- The hold that an instruction takes out. -/
def takes (c : Core SHARDS) (i : Instr SHARDS) : List (SkuId × HoldId) :=
  (named i).toList.filter fun p => ((c.stateOf p.1).holds.lookup p.2).isSome

/-- What an instruction adds. -/
def BackorderHistory.record (h : BackorderHistory) (c : Core SHARDS) (i : Instr SHARDS) : BackorderHistory where
  placed :=
    match i with
    | .backorder sku qty => ((sku, c.newId), qty) :: h.placed
    | _ => h.placed
  fills :=
    match i with
    | .fill sku bo qty _ => ⟨sku, bo, c.newId, qty⟩ :: h.fills
    | _ => h.fills
  taken := takes c i ++ h.taken

/-- The engine's calls with the history. -/
def tracked (SHARDS : Nat) : Machine (BackorderHistory × Core SHARDS) (Instr SHARDS) Choice Op Nat :=
  (calls SHARDS).withHistory BackorderHistory.record

/-- Every backorder is filled at most once, with exactly its units; it waits until it is filled, and from then on it
has a hold, until that is confirmed or released. -/
structure FilledOnce (h : BackorderHistory) (c : Core SHARDS) : Prop where
  once : (h.fills.map Fill.place).Nodup
  units : ∀ f ∈ h.fills, (f.place, f.qty) ∈ h.placed
  waits : ∀ p ∈ h.placed, (c.stateOf p.1.1).backorders.lookup p.1.2 =
    if p.1 ∈ h.fills.map Fill.place then none else some p.2
  holds : ∀ f ∈ h.fills, f.held ∉ h.taken → (c.stateOf f.sku).holds.lookup f.hold = some f.qty

/-- A `fulfill_backorders` that runs alone ends, and leaves no backorder that the pool covers. -/
def FulfilsAlone (c : Core SHARDS) : Prop :=
  (calls SHARDS).Ends (fun c' => ∀ sku, NoneSatisfiable (c'.stateOf sku)) c (prog .fulfillBackorders)

/-- A fill finds its backorder waiting. -/
def StillWaiting (c : Core SHARDS) : Instr SHARDS → Choice → Prop
  | .fill sku bo qty _, _ => (c.stateOf sku).backorders.lookup bo = some qty
  | _, _ => True

/-! ## What an instruction does to the backorders and the holds -/

/-- What an instruction leaves of a backorder; only placing and filling change one. -/
def Core.backorderAfter (c : Core SHARDS) (sku : SkuId) (bo : HoldId) : Instr SHARDS → Option Nat
  | .backorder s qty => if (sku, bo) = (s, c.newId) then some qty else (c.stateOf sku).backorders.lookup bo
  | .fill s b _ _ => if (sku, bo) = (s, b) then none else (c.stateOf sku).backorders.lookup bo
  | _ => (c.stateOf sku).backorders.lookup bo

section
variable {c c' : Core SHARDS} {i : Instr SHARDS} {k : Choice} {more : List (Instr SHARDS)}

theorem backorders_instr (hi : instr c i k = some (c', more)) (sku : SkuId) (bo : HoldId) :
    (c'.stateOf sku).backorders.lookup bo = c.backorderAfter sku bo i := by
  rcases instr_change hi with ⟨hs, -, hno⟩ | ⟨s, kind, ev, st, hc, he, -⟩
  · have hst : c'.stateOf sku = c.stateOf sku := hs.stateOf sku
    rw [hst]
    cases i with
    | backorder s qty => exact absurd (.backorder s qty) (hno _ _ _)
    | fill s b qty expires => exact absurd (.fill s b qty expires) (hno _ _ _)
    | _ => rfl
  · have hst : c'.stateOf sku = if sku = s then st else c.stateOf sku := by
      rw [Core.stateOf, he, ReservationEngine.stateOf_record]
      rfl
    have hother (hb : st.backorders = (c.stateOf s).backorders) :
        (c'.stateOf sku).backorders.lookup bo = (c.stateOf sku).backorders.lookup bo := by
      rw [hst]
      split
      · next hk => rw [hk, hb]
      · rfl
    have hplace (b : HoldId) (v : Option Nat)
        (hl : st.backorders.lookup bo = if bo = b then v else (c.stateOf s).backorders.lookup bo) :
        (c'.stateOf sku).backorders.lookup bo =
          if (sku, bo) = (s, b) then v else (c.stateOf sku).backorders.lookup bo := by
      rw [hst]
      by_cases hk : sku = s
      · subst hk
        rw [if_pos rfl, hl]
        by_cases hbo : bo = b
        · rw [if_pos hbo, if_pos (by rw [hbo])]
        · rw [if_neg hbo, if_neg fun h => hbo (Prod.mk.inj h).2]
      · rw [if_neg hk]
        exact (if_neg fun h => hk (Prod.mk.inj h).1).symm
    cases hc with
    | backorder s qty => exact hplace _ _ (AssocMap.lookup_insert_eq _ _ _ _)
    | fill s b qty expires => exact hplace _ _ (AssocMap.lookup_erase_eq _ _ _)
    | _ => exact hother rfl

/-- A hold stays until it is confirmed or released; a new one has the new id. -/
theorem holds_instr (hi : instr c i k = some (c', more)) {sku : SkuId} {hold : HoldId} {qty : Nat}
    (hh : (c.stateOf sku).holds.lookup hold = some qty) (hold_lt : hold.uuid < c.nextId) :
    (c'.stateOf sku).holds.lookup hold = some qty ∨ named i = some (sku, hold) := by
  have hne : hold ≠ c.newId := by
    rintro rfl
    exact absurd hold_lt (lt_irrefl _)
  rcases instr_change hi with ⟨hs, -, -⟩ | ⟨s, kind, ev, st, hc, he, -⟩
  · have hst : c'.stateOf sku = c.stateOf sku := hs.stateOf sku
    rw [hst]
    exact Or.inl hh
  · have hst : c'.stateOf sku = if sku = s then st else c.stateOf sku := by
      rw [Core.stateOf, he, ReservationEngine.stateOf_record]
      rfl
    rw [hst]
    by_cases hk : sku = s
    · subst hk
      rw [if_pos rfl]
      have hdrop (x : HoldId) (hx : named i = some (sku, x)) (hl : st.holds = (c.stateOf sku).holds.erase x) :
          st.holds.lookup hold = some qty ∨ named i = some (sku, hold) := by
        rw [hl, AssocMap.lookup_erase_eq]
        by_cases he : hold = x
        · exact Or.inr (by rw [hx, he])
        · exact Or.inl (by rw [if_neg he, hh])
      have hinsert (q : Nat) (hl : st.holds = (c.stateOf sku).holds.insert c.newId q) :
          st.holds.lookup hold = some qty ∨ named i = some (sku, hold) := by
        rw [hl, AssocMap.lookup_insert_eq, if_neg hne]
        exact Or.inl hh
      cases hc with
      | receive => exact Or.inl hh
      | returnStock => exact Or.inl hh
      | backorder => exact Or.inl hh
      | reserve _ q => exact hinsert q rfl
      | hold _ q => exact hinsert q rfl
      | fill _ _ q => exact hinsert q rfl
      | confirm _ x => exact hdrop x rfl rfl
      | release _ x => exact hdrop x rfl rfl
      | sweepRelease _ x => exact hdrop x rfl rfl
    · rw [if_neg hk]
      exact Or.inl hh

end

/-! ## The invariant -/

/-- Placed backorders have used ids, and so have the holds of the fills; what waits was placed. -/
structure BackorderInv (h : BackorderHistory) (c : Core SHARDS) : Prop where
  fresh : IdsFresh c
  used : ∀ p ∈ h.placed, p.1.2.uuid < c.nextId
  held : ∀ f ∈ h.fills, f.hold.uuid < c.nextId
  placed : ∀ sku bo qty, (c.stateOf sku).backorders.lookup bo = some qty → ((sku, bo), qty) ∈ h.placed

/-- What is about to be filled was placed. -/
def WasPlaced (hc : BackorderHistory × Core SHARDS) : Instr SHARDS → Prop
  | .stampFill sku bo qty => ((sku, bo), qty) ∈ hc.1.placed
  | .fill sku bo qty _ => ((sku, bo), qty) ∈ hc.1.placed
  | _ => True

/-- An instruction places a backorder, fills one, or does neither. -/
theorem record_cases (i : Instr SHARDS) :
    (∃ sku qty, i = .backorder sku qty) ∨ (∃ sku bo qty expires, i = .fill sku bo qty expires) ∨
      ∀ (h : BackorderHistory) (c : Core SHARDS), (h.record c i).placed = h.placed ∧ (h.record c i).fills = h.fills ∧
        (∀ sku bo, c.backorderAfter sku bo i = (c.stateOf sku).backorders.lookup bo) ∧ ∀ k, StillWaiting c i k := by
  cases i with
  | backorder sku qty => exact Or.inl ⟨sku, qty, rfl⟩
  | fill sku bo qty expires => exact Or.inr (Or.inl ⟨sku, bo, qty, expires, rfl⟩)
  | _ => exact Or.inr (Or.inr fun _ _ => ⟨rfl, rfl, fun _ _ => rfl, fun _ => trivial⟩)

section
variable {h : BackorderHistory} {c c' : Core SHARDS} {i : Instr SHARDS} {k : Choice} {more : List (Instr SHARDS)}

theorem nextId_instr (hi : instr c i k = some (c', more)) : c.nextId ≤ c'.nextId := by
  rcases instr_change hi with ⟨-, hn, -⟩ | ⟨-, -, ev, -, -, -, hn⟩
  · exact hn.ge
  · omega

theorem placed_mono (h : BackorderHistory) (c : Core SHARDS) (i : Instr SHARDS) {p : (SkuId × HoldId) × Nat}
    (hp : p ∈ h.placed) : p ∈ (h.record c i).placed := by
  cases i with
  | backorder sku qty => exact List.mem_cons_of_mem _ hp
  | _ => exact hp

theorem backorderInv_instr (hinv : BackorderInv h c) (hi : instr c i k = some (c', more)) :
    BackorderInv (h.record c i) c' := by
  have hle := nextId_instr hi
  have hfresh := idsFresh_instr hinv.fresh hi
  have hused : ∀ p ∈ h.placed, p.1.2.uuid < c'.nextId := fun p hp => lt_of_lt_of_le (hinv.used p hp) hle
  have hheld : ∀ f ∈ h.fills, f.hold.uuid < c'.nextId := fun f hf => lt_of_lt_of_le (hinv.held f hf) hle
  have hb := backorders_instr hi
  rcases record_cases i with ⟨sku, qty, rfl⟩ | ⟨sku, bo, qty, expires, rfl⟩ | hother
  · have hn : c'.nextId = c.nextId + 1 := by
      cases hi
      rfl
    refine ⟨hfresh, fun p hp => ?_, hheld, fun s b q hl => ?_⟩
    · rcases List.mem_cons.mp hp with rfl | hp
      · show c.nextId < c'.nextId
        omega
      · exact hused p hp
    · rw [hb] at hl
      simp only [Core.backorderAfter] at hl
      split at hl
      · next he =>
        cases hl
        rw [he]
        exact List.mem_cons_self
      · exact List.mem_cons_of_mem _ (hinv.placed s b q hl)
  · have hn : c'.nextId = c.nextId + 1 := by
      cases hi
      rfl
    refine ⟨hfresh, hused, fun f hf => ?_, fun s b q hl => ?_⟩
    · rcases List.mem_cons.mp hf with rfl | hf
      · show c.nextId < c'.nextId
        omega
      · exact hheld f hf
    · rw [hb] at hl
      simp only [Core.backorderAfter] at hl
      split at hl
      · cases hl
      · exact hinv.placed s b q hl
  · obtain ⟨hp, hf, hbo, -⟩ := hother h c
    refine ⟨hfresh, ?_, ?_, fun s b q hl => ?_⟩
    · rw [hp]
      exact hused
    · rw [hf]
      exact hheld
    · rw [hb, hbo] at hl
      rw [hp]
      exact hinv.placed s b q hl

theorem wasPlaced_handsOn (hc : BackorderHistory × Core SHARDS) : ∀ j ∈ handsOn c i, WasPlaced hc j := by
  have hindex (id : HoldId) (expires : Int) (ttl : Nat) :
      ∀ j ∈ [Instr.indexInsert id expires, .cachePut id ttl], WasPlaced hc j :=
    List.forall_mem_cons.mpr ⟨trivial, List.forall_mem_singleton.mpr trivial⟩
  have hdrop (id : HoldId) : ∀ j ∈ dropIndexes id, WasPlaced hc j :=
    List.forall_mem_cons.mpr ⟨trivial, List.forall_mem_singleton.mpr trivial⟩
  cases i with
  | reserve sku qty expires ttl => exact hindex _ _ _
  | hold sku qty short expires ttl =>
    refine List.forall_mem_append.mpr ⟨?_, hindex _ _ _⟩
    split
    · exact List.forall_mem_singleton.mpr trivial
    · exact List.forall_mem_nil _
  | confirm sku hold => exact hdrop _
  | release sku hold => exact hdrop _
  | sweepRelease sku hold checkedAt =>
    exact List.forall_mem_append.mpr ⟨hdrop _, List.forall_mem_singleton.mpr trivial⟩
  | _ => exact List.forall_mem_nil _

/-- What a call goes on with fills what was placed. -/
theorem wasPlaced_more (hinv : BackorderInv h c) (hw : WasPlaced (h, c) i) (hi : instr c i k = some (c', more)) :
    ∀ j ∈ more, WasPlaced (h.record c i, c') j := by
  cases does_instr hi with
  | changed kind change => exact wasPlaced_handsOn _
  | pick sku bo qty waits covered =>
    exact List.forall_mem_cons.mpr ⟨hinv.placed sku bo qty waits, List.forall_mem_singleton.mpr trivial⟩
  | stampFill sku bo qty => exact List.forall_mem_singleton.mpr hw
  | shardKeys i shards order perm =>
    refine List.forall_mem_append.mpr ⟨?_, List.forall_mem_singleton.mpr trivial⟩
    exact List.forall_mem_map.mpr fun _ _ => trivial
  | expired sku hold rest =>
    exact List.forall_mem_cons.mpr ⟨trivial, List.forall_mem_singleton.mpr trivial⟩
  | reservable sku qty expires ttl =>
    split
    · exact List.forall_mem_singleton.mpr trivial
    · split
      · exact List.forall_mem_singleton.mpr trivial
      · exact List.forall_mem_nil _
  | scan i shards found order perm => exact List.forall_mem_singleton.mpr trivial
  | scanned found => exact List.forall_mem_singleton.mpr trivial
  | notExpired sku hold rest => exact List.forall_mem_singleton.mpr trivial
  | stampReserve sku qty ttl => exact List.forall_mem_singleton.mpr trivial
  | stampReservable sku qty ttl => exact List.forall_mem_singleton.mpr trivial
  | _ => exact List.forall_mem_nil _

/-- What was placed stays placed. -/
theorem WasPlaced.mono {hc hc' : BackorderHistory × Core SHARDS} {j : Instr SHARDS} (hj : WasPlaced hc j)
    (hp : ∀ p ∈ hc.1.placed, p ∈ hc'.1.placed) : WasPlaced hc' j := by
  cases j with
  | stampFill sku bo qty => exact hp _ hj
  | fill sku bo qty expires => exact hp _ hj
  | _ => trivial

/-! ## Filled once -/

/-- The holds of the fills stay until they are taken out. -/
theorem holds_kept (hinv : BackorderInv h c) (hP : FilledOnce h c) (hi : instr c i k = some (c', more)) :
    ∀ f ∈ h.fills, f.held ∉ (h.record c i).taken → (c'.stateOf f.sku).holds.lookup f.hold = some f.qty := by
  intro f hf hnot
  have hnot' : f.held ∉ takes c i ∧ f.held ∉ h.taken := by
    constructor
    · exact fun hm => hnot (List.mem_append_left _ hm)
    · exact fun hm => hnot (List.mem_append_right _ hm)
  have hh := hP.holds f hf hnot'.2
  rcases holds_instr hi hh (hinv.held f hf) with hkept | hnamed
  · exact hkept
  · refine absurd (List.mem_filter.mpr ⟨?_, ?_⟩) hnot'.1
    · rw [hnamed]
      exact List.mem_singleton.mpr rfl
    · show ((c.stateOf f.sku).holds.lookup f.hold).isSome = true
      rw [hh]
      rfl

/-- A fill inserts its hold. -/
theorem holds_fill_instr {sku : SkuId} {bo : HoldId} {qty : Nat} {expires : Int}
    (hi : instr c (.fill sku bo qty expires) k = some (c', more)) :
    (c'.stateOf sku).holds.lookup c.newId = some qty := by
  cases hi
  show ((c.engine.fill sku bo c.newId qty expires).stateOf sku).holds.lookup c.newId = some qty
  rw [ReservationEngine.fill, ReservationEngine.stateOf_record, if_pos rfl]
  show ((c.engine.stateOf sku).holds.insert c.newId qty).lookup c.newId = some qty
  rw [AssocMap.lookup_insert_eq, if_pos rfl]

theorem filledOnce_place (hinv : BackorderInv h c) (hP : FilledOnce h c) {sku : SkuId} {qty : Nat}
    (hi : instr c (.backorder sku qty) k = some (c', more)) :
    FilledOnce (h.record c (.backorder sku qty)) c' := by
  -- the id of a new backorder is not that of an old one
  have hnew : ∀ p ∈ h.placed, p.1 ≠ (sku, c.newId) := by
    intro p hp he
    have hlt := hinv.used p hp
    rw [he] at hlt
    exact absurd hlt (lt_irrefl _)
  have hkept := holds_kept hinv hP hi
  refine ⟨hP.once, fun f hf => List.mem_cons_of_mem _ (hP.units f hf), fun p hp => ?_, hkept⟩
  rw [backorders_instr hi]
  rcases List.mem_cons.mp hp with rfl | hp
  · have hno : (sku, c.newId) ∉ h.fills.map Fill.place := by
      intro hm
      obtain ⟨f, hf, he⟩ := List.mem_map.mp hm
      exact hnew _ (hP.units f hf) he
    exact (if_pos rfl).trans (if_neg hno).symm
  · exact (if_neg (hnew p hp)).trans (hP.waits p hp)

theorem filledOnce_fill_iff (hinv : BackorderInv h c) (hP : FilledOnce h c) {sku : SkuId} {bo : HoldId} {qty : Nat}
    {expires : Int} (hw : ((sku, bo), qty) ∈ h.placed) (hi : instr c (.fill sku bo qty expires) k = some (c', more)) :
    FilledOnce (h.record c (.fill sku bo qty expires)) c' ↔ (c.stateOf sku).backorders.lookup bo = some qty := by
  have hwait : (c.stateOf sku).backorders.lookup bo =
      if (sku, bo) ∈ h.fills.map Fill.place then none else some qty := hP.waits _ hw
  constructor
  · intro hP'
    have hno : (sku, bo) ∉ h.fills.map Fill.place := (List.nodup_cons.mp hP'.once).1
    rw [if_neg hno] at hwait
    exact hwait
  · intro hstill
    have hno : (sku, bo) ∉ h.fills.map Fill.place := by
      intro hm
      rw [if_pos hm] at hwait
      exact nomatch hwait.symm.trans hstill
    refine ⟨List.nodup_cons.mpr ⟨hno, hP.once⟩, fun f hf => ?_, fun p hp => ?_, fun f hf hnot => ?_⟩
    · rcases List.mem_cons.mp hf with rfl | hf
      · exact hw
      · exact hP.units f hf
    · rw [backorders_instr hi]
      show (if p.1 = (sku, bo) then none else (c.stateOf p.1.1).backorders.lookup p.1.2) =
        if p.1 ∈ (sku, bo) :: h.fills.map Fill.place then none else some p.2
      by_cases he : p.1 = (sku, bo)
      · rw [if_pos he, if_pos (he ▸ List.mem_cons_self)]
      · rw [if_neg he, hP.waits p hp]
        simp only [List.mem_cons, he, false_or]
    · rcases List.mem_cons.mp hf with rfl | hf
      · exact holds_fill_instr hi
      · exact holds_kept hinv hP hi f hf hnot

/-- Exactly the fills that find their backorder waiting keep every backorder filled once. -/
theorem filledOnce_instr_iff (hinv : BackorderInv h c) (hP : FilledOnce h c) (hw : WasPlaced (h, c) i)
    (hi : instr c i k = some (c', more)) : FilledOnce (h.record c i) c' ↔ StillWaiting c i k := by
  rcases record_cases i with ⟨sku, qty, rfl⟩ | ⟨sku, bo, qty, expires, rfl⟩ | hother
  · exact iff_of_true (filledOnce_place hinv hP hi) trivial
  · exact filledOnce_fill_iff hinv hP hw hi
  · obtain ⟨hp, hf, hbo, hok⟩ := hother h c
    refine iff_of_true ⟨?_, ?_, ?_, ?_⟩ (hok k)
    · rw [hf]
      exact hP.once
    · rw [hf, hp]
      exact hP.units
    · rw [hf, hp]
      intro p hpl
      rw [backorders_instr hi, hbo]
      exact hP.waits p hpl
    · rw [hf]
      exact holds_kept hinv hP hi

end

/-! ## A fulfilment alone -/

/-- A picking section finds a backorder or none. -/
theorem pick_possible (c : Core SHARDS) (sku : SkuId) : ∃ k r, instr c (.pick sku) k = some r := by
  by_cases h : NoneSatisfiable (c.stateOf sku)
  · exact ⟨.backorder none, (c, []), if_pos h⟩
  · rw [noneSatisfiable_iff] at h
    push Not at h
    obtain ⟨bo, qty, hl, hav⟩ := h
    refine ⟨.backorder (some bo), (c, [.stampFill sku bo qty, .pick sku]), ?_⟩
    simp only [instr, hl, if_pos hav]

section
variable {Q : Core SHARDS → Prop} {tail : List (Instr SHARDS)}

/-- The loop of one SKU ends, and leaves nothing that the pool covers; its measure is the number of backorders. -/
theorem ends_pick (sku : SkuId) (c : Core SHARDS)
    (htail : ∀ c' : Core SHARDS, c'.engine.shardIndex = c.engine.shardIndex →
      (∀ s, NoneSatisfiable (c.stateOf s) → NoneSatisfiable (c'.stateOf s)) → NoneSatisfiable (c'.stateOf sku) →
        (calls SHARDS).Ends Q c' tail) :
    (calls SHARDS).Ends Q c (.pick sku :: tail) := by
  induction hn : (c.stateOf sku).backorders.keys.length using Nat.strong_induction_on generalizing c with
  | h n ih =>
    refine .step (pick_possible c sku) fun k c' more hi => ?_
    cases does_instr hi with
    | changed kind change => cases change
    | unknown s hold hnamed => cases hnamed
    | picked _ hnone => exact htail c rfl (fun _ h => h) hnone
    | pick _ bo qty waits covered =>
      have hs : (c.stateOf sku).Satisfiable bo qty := ⟨waits, covered⟩
      refine .step ⟨.only, _, rfl⟩ fun k c' more hi => ?_
      cases hi
      refine .step ⟨.only, _, rfl⟩ fun k c' more hi => ?_
      cases hi
      show (calls SHARDS).Ends Q (c.fill sku bo qty) (.pick sku :: tail)
      -- the pool covers a backorder of this SKU, so no other SKU changes that had none
      have hmono : ∀ s, NoneSatisfiable (c.stateOf s) → NoneSatisfiable ((c.fill sku bo qty).stateOf s) := by
        intro s hnone
        rw [stateOf_fill]
        split
        · next he =>
          rw [he] at hnone
          exact absurd hs ((noneSatisfiable_iff _).mp hnone bo qty)
        · exact hnone
      have hlen : ((c.fill sku bo qty).stateOf sku).backorders.keys.length < n := by
        have hmem := hs.mem_keys
        have hpos := List.length_pos_of_mem hmem
        rw [stateOf_fill, if_pos rfl]
        show ((c.stateOf sku).backorders.erase bo).keys.length < n
        rw [AList.keys_erase, List.length_erase_of_mem hmem]
        omega
      refine ih _ hlen (c.fill sku bo qty) (fun c' hidx hnone hsku => ?_) rfl
      exact htail c' hidx (fun s h => hnone s (hmono s h)) hsku

theorem ends_picks (skus : List SkuId) (c : Core SHARDS)
    (htail : ∀ c' : Core SHARDS, c'.engine.shardIndex = c.engine.shardIndex →
      (∀ s, NoneSatisfiable (c.stateOf s) → NoneSatisfiable (c'.stateOf s)) →
        (∀ s ∈ skus, NoneSatisfiable (c'.stateOf s)) → (calls SHARDS).Ends Q c' tail) :
    (calls SHARDS).Ends Q c (skus.map .pick ++ tail) := by
  induction skus generalizing c with
  | nil => exact htail c rfl (fun _ h => h) nofun
  | cons sku skus ih =>
    refine ends_pick sku c fun c₁ hidx₁ hnone₁ hsku => ih c₁ fun c' hidx hnone hrest => ?_
    refine htail c' (hidx.trans hidx₁) (fun s h => hnone s (hnone₁ s h)) fun s hs => ?_
    rcases List.mem_cons.mp hs with rfl | hs
    · exact hnone s hsku
    · exact hrest s hs

end

/-- What the shards to come do not hold is not covered. -/
theorem ends_shardKeys (shards : List (Fin SHARDS)) (c : Core SHARDS)
    (hleft : ∀ sku, c.engine.shardIndex sku ∈ shards ∨ NoneSatisfiable (c.stateOf sku)) :
    (calls SHARDS).Ends (fun c' => ∀ sku, NoneSatisfiable (c'.stateOf sku)) c [.shardKeys shards] := by
  induction shards generalizing c with
  | nil =>
    refine .step ⟨.only, _, rfl⟩ fun k c' more hi => ?_
    cases hi
    exact .done fun sku => (hleft sku).resolve_left (nomatch ·)
  | cons i shards ih =>
    refine .step ⟨.skus (skusOf c.engine i), (c, (skusOf c.engine i).map .pick ++ [.shardKeys shards]), ?_⟩
      fun k c' more hi => ?_
    · show (if _ then _ else _) = _
      rw [if_pos (List.Perm.refl _)]
    · cases does_instr hi with
      | changed kind change => cases change
      | unknown s hold hnamed => cases hnamed
      | shardKeys _ _ order perm =>
        rw [List.append_nil]
        refine ends_picks order c fun c' hidx hnone hsku => ih c' fun s => ?_
        rw [hidx]
        rcases hleft s with hs | hs
        · rcases List.mem_cons.mp hs with he | hs
          · right
            by_cases hmem : s ∈ skusOf c.engine (c.engine.shardIndex s)
            · rw [he] at hmem
              exact hsku s (perm.mem_iff.mpr hmem)
            · exact hnone s (noneSatisfiable_of_notMem hmem)
          · exact Or.inl hs
        · exact Or.inr (hnone s hs)

/-- From every state. -/
theorem fulfilsAlone (c : Core SHARDS) : FulfilsAlone c :=
  ends_shardKeys (List.finRange SHARDS) c fun _ => Or.inl (List.mem_finRange _)

/-! ## Whole runs -/

theorem backorderInv_init (shardIndex : SkuId → Fin SHARDS) (withCache : Bool) (now : Int) :
    BackorderInv {} (initCore shardIndex withCache now) :=
  ⟨idsFresh_init shardIndex withCache now, nofun, nofun, nofun⟩

theorem wasPlaced_prog (hc : BackorderHistory × Core SHARDS) (op : Op) : ∀ i ∈ prog op, WasPlaced hc i := by
  have hsweep (j : Instr SHARDS) (hj : WasPlaced hc j) : ∀ i ∈ [sweep, j], WasPlaced hc i :=
    List.forall_mem_cons.mpr ⟨trivial, List.forall_mem_singleton.mpr hj⟩
  cases op with
  | reserve sku qty ttl => exact hsweep (.stampReserve sku qty ttl) trivial
  | reserveOrBackorder sku qty ttl => exact hsweep (.stampReservable sku qty ttl) trivial
  | _ => exact List.forall_mem_singleton.mpr trivial

/-- **When every backorder is filled once.**  In every interleaving of the engine's calls each backorder is filled at
most once, with exactly its units, and waits exactly until then, if and only if every fill finds its backorder
waiting.  From every state a `fulfill_backorders` that runs alone ends, and leaves no backorder that the pool
covers. -/
theorem filled_once_iff (shardIndex : SkuId → Fin SHARDS) (withCache : Bool) (now : Int)
    (labels : List (Machine.Label Choice Op Nat)) :
    LabelledRun.AllStates (tracked SHARDS).step (fun w => FilledOnce w.core.1 w.core.2 ∧ FulfilsAlone w.core.2)
        { core := ({}, initCore shardIndex withCache now) } labels ↔
      (calls SHARDS).RunDoes StillWaiting { core := initCore shardIndex withCache now } labels := by
  have hforget := (calls SHARDS).runDoes_withHistory BackorderHistory.record StillWaiting
    { core := ({}, initCore shardIndex withCache now) } labels
  refine Iff.trans ?_ hforget
  refine (tracked SHARDS).allStates_iff_allSteps (fun hc => BackorderInv hc.1 hc.2) WasPlaced
    (P := fun hc => FilledOnce hc.1 hc.2 ∧ FulfilsAlone hc.2) (fun hc op _ => wasPlaced_prog hc op) ?_ ?_ ?_ ?_
    labels (backorderInv_init shardIndex withCache now) ?_
  · rintro ⟨h, c⟩ d hinv
    have hmono (j : Instr SHARDS) (hj : WasPlaced (h, c) j) : WasPlaced (h, c.tick d) j := hj.mono fun _ hp => hp
    exact ⟨⟨hinv.fresh, hinv.used, hinv.held, hinv.placed⟩, fun _ hj => (nomatch hj), hmono⟩
  · rintro ⟨h, c⟩ i k hc' more hinv hw _ _ hi
    obtain ⟨r, hr, he⟩ := Option.map_eq_some_iff.mp hi
    cases he
    exact ⟨backorderInv_instr hinv hr, wasPlaced_more hinv hw hr,
      fun j hj => hj.mono fun _ hp => placed_mono h c i hp⟩
  · rintro ⟨h, c⟩ d _ hP
    exact ⟨⟨hP.1.once, hP.1.units, hP.1.waits, hP.1.holds⟩, fulfilsAlone _⟩
  · rintro ⟨h, c⟩ i k hc' more hinv hw hP hi
    obtain ⟨r, hr, he⟩ := Option.map_eq_some_iff.mp hi
    cases he
    have hiff : FilledOnce (h.record c i) r.1 ↔ StillWaiting c i k := filledOnce_instr_iff hinv hP.1 hw hr
    rw [← hiff]
    exact and_iff_left (fulfilsAlone _)
  · exact ⟨⟨List.nodup_nil, nofun, nofun, nofun⟩, fulfilsAlone _⟩

/-- Call `th` goes through the shards before that of SKU 7 and comes to its backorders. -/
def toSeven (th : Nat) : List (Machine.Label Choice Op Nat) :=
  List.replicate 7 (.run th (.skus [])) ++ [.run th (.skus [⟨7⟩])]

/-- Five units are backordered and ten come in; two calls pick the backorder before either of them fills it. -/
def bothPickIt : List (Machine.Label Choice Op Nat) :=
  [.spawn (.reserveOrBackorder ⟨7⟩ 5 60)] ++ emptySweep 0 ++ [.run 0 .only, .run 0 .only, .run 0 .only,
    .spawn (.receive ⟨7⟩ (i64 10)), .run 1 .only, .spawn .fulfillBackorders, .spawn .fulfillBackorders] ++
  toSeven 2 ++ toSeven 3 ++ [.run 2 (.backorder (some ⟨0⟩)), .run 3 (.backorder (some ⟨0⟩)), .run 2 .only,
    .run 3 .only, .run 2 .only, .run 3 .only]

/-- One backorder of five units becomes two holds of five. -/
theorem backorder_filled_twice :
    ¬ LabelledRun.AllStates (tracked 64).step (fun w => FilledOnce w.core.1 w.core.2 ∧ FulfilsAlone w.core.2)
      { core := ({}, initCore modShard false 0) } bothPickIt := by
  intro h
  have hx : (LabelledRun.exec (tracked 64).step { core := ({}, initCore modShard false 0) } bothPickIt).map
      (fun w => decide (w.core.1.fills.map Fill.place).Nodup) = some false := by
    decide +kernel
  obtain ⟨t, ht, hno⟩ := Option.map_eq_some_iff.mp hx
  exact of_decide_eq_false hno (h.last _ ht).1.once

end TptErp.Oms
