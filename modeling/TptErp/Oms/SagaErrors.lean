import TptErp.Oms.Saga

/-!
# What a failed saga leaves behind

A saga that fails releases its holds and refunds its posting.  It does not take its backorders back,
and a hold it has confirmed is no hold any more when it comes to be released: `Smooth` is the exact
condition for a failed run to have had no net effect (`run_err_nil_iff`).

    Shrunk     what releases do: holds go, everything else stays
    Reserved   the state during the first step: the old holds and backorders, and the saga's own
-/

namespace TptErp.Oms

open Ledger Gl

variable {SHARDS GLS : Nat}

/-! ## Releases -/

/-- Some holds are gone, everything else is the same. -/
structure Shrunk (c c' : Core SHARDS) : Prop where
  nextId : c'.nextId = c.nextId
  onHand : ∀ sku, (c'.stateOf sku).onHand = (c.stateOf sku).onHand
  committed : ∀ sku, (c'.stateOf sku).committed = (c.stateOf sku).committed
  backorders : ∀ sku, (c'.stateOf sku).backorders = (c.stateOf sku).backorders
  holds : ∀ sku hold qty, (c'.stateOf sku).holds.lookup hold = some qty →
    (c.stateOf sku).holds.lookup hold = some qty

theorem Shrunk.refl (c : Core SHARDS) : Shrunk c c :=
  ⟨rfl, fun _ => rfl, fun _ => rfl, fun _ => rfl, fun _ _ _ h => h⟩

theorem Shrunk.trans {a b c : Core SHARDS} (h₁ : Shrunk a b) (h₂ : Shrunk b c) : Shrunk a c :=
  ⟨h₂.nextId.trans h₁.nextId, fun sku => (h₂.onHand sku).trans (h₁.onHand sku),
    fun sku => (h₂.committed sku).trans (h₁.committed sku),
    fun sku => (h₂.backorders sku).trans (h₁.backorders sku),
    fun sku hold qty h => h₁.holds sku hold qty (h₂.holds sku hold qty h)⟩

/-- The SKUs' states are the same. -/
theorem Shrunk.of_same {c c' : Core SHARDS} (hn : c'.nextId = c.nextId)
    (hs : ∀ sku, c'.stateOf sku = c.stateOf sku) : Shrunk c c' :=
  ⟨hn, fun sku => by rw [hs], fun sku => by rw [hs], fun sku => by rw [hs], fun sku _ _ h => by rwa [hs] at h⟩

/-- A hold that is gone stays gone. -/
theorem Shrunk.gone {c c' : Core SHARDS} (h : Shrunk c c') {sku : SkuId} {hold : HoldId}
    (hg : (c.stateOf sku).holds.lookup hold = none) : (c'.stateOf sku).holds.lookup hold = none := by
  cases hl : (c'.stateOf sku).holds.lookup hold with
  | none => rfl
  | some qty =>
    have := h.holds sku hold qty hl
    rw [hg] at this
    exact nomatch this

namespace Core

variable (c : Core SHARDS)

theorem release_cases (sku : SkuId) (hold : HoldId) :
    (∃ qty, (c.stateOf sku).holds.lookup hold = some qty ∧ ∃ c', c.release sku hold = .ok c' ∧
      c'.nextId = c.nextId ∧
      ∀ k, c'.stateOf k = if k = sku then (c.stateOf sku).dropHold hold else c.stateOf k) ∨
    ((c.stateOf sku).holds.lookup hold = none ∧ ∃ e, c.release sku hold = .error e) := by
  unfold release
  cases hl : (c.stateOf sku).holds.lookup hold with
  | some qty =>
    rw [(release_ok_iff c.engine _ sku hold).mpr ⟨qty, hl, rfl⟩]
    exact Or.inl ⟨qty, rfl, _, rfl, rfl, fun k => c.engine.stateOf_record ..⟩
  | none =>
    obtain ⟨e, he⟩ := (not_release_iff c.engine sku hold).mpr hl
    rw [he]
    exact Or.inr ⟨rfl, _, rfl⟩

theorem confirm_cases (sku : SkuId) (hold : HoldId) :
    (∃ qty, (c.stateOf sku).holds.lookup hold = some qty ∧ ∃ c', c.confirm sku hold = .ok c' ∧
      c'.nextId = c.nextId ∧
      ∀ k, c'.stateOf k = if k = sku then (c.stateOf sku).capture hold qty else c.stateOf k) ∨
    ((c.stateOf sku).holds.lookup hold = none ∧ ∃ e, c.confirm sku hold = .error e) := by
  unfold confirm
  cases hl : (c.stateOf sku).holds.lookup hold with
  | some qty =>
    rw [(confirm_ok_iff c.engine _ sku hold).mpr ⟨qty, hl, rfl⟩]
    exact Or.inl ⟨qty, rfl, _, rfl, rfl, fun k => c.engine.stateOf_record ..⟩
  | none =>
    obtain ⟨e, he⟩ := (not_confirm_iff c.engine sku hold).mpr hl
    rw [he]
    exact Or.inr ⟨rfl, _, rfl⟩

theorem shrunk_release {sku : SkuId} {hold : HoldId} {c' : Core SHARDS} (h : c.release sku hold = .ok c') :
    Shrunk c c' := by
  rcases c.release_cases sku hold with ⟨qty, -, c₁, he, hn, hs⟩ | ⟨-, e, he⟩
  · obtain rfl : c₁ = c' := Except.ok.inj (he.symm.trans h)
    have hstate : ∀ k, (c₁.stateOf k).onHand = (c.stateOf k).onHand ∧
        (c₁.stateOf k).committed = (c.stateOf k).committed ∧
        (c₁.stateOf k).backorders = (c.stateOf k).backorders ∧
        ∀ hold' qty', (c₁.stateOf k).holds.lookup hold' = some qty' →
          (c.stateOf k).holds.lookup hold' = some qty' := by
      intro k
      rw [hs k]
      split
      · next hk =>
        subst hk
        refine ⟨rfl, rfl, rfl, fun hold' qty' hl => ?_⟩
        have hl : ((c.stateOf k).holds.erase hold).lookup hold' = some qty' := hl
        rw [AssocMap.lookup_erase_eq] at hl
        split at hl
        · exact nomatch hl
        · exact hl
      · exact ⟨rfl, rfl, rfl, fun _ _ hl => hl⟩
    exact ⟨hn, fun k => (hstate k).1, fun k => (hstate k).2.1, fun k => (hstate k).2.2.1,
      fun k => (hstate k).2.2.2⟩
  · rw [he] at h
    exact nomatch h

/-- After a release, tried or done, the hold is gone. -/
theorem shrunk_tryRelease (sku : SkuId) (hold : HoldId) :
    Shrunk c (c.tryRelease sku hold) ∧ ((c.tryRelease sku hold).stateOf sku).holds.lookup hold = none := by
  unfold tryRelease
  rcases c.release_cases sku hold with ⟨qty, -, c', he, hn, hs⟩ | ⟨hl, e, he⟩
  · rw [he]
    refine ⟨c.shrunk_release he, ?_⟩
    show (c'.stateOf sku).holds.lookup hold = none
    rw [hs sku, if_pos rfl]
    exact AList.lookup_erase _ _
  · rw [he]
    exact ⟨.refl c, hl⟩

theorem shrunk_sweepExpired : Shrunk c c.sweepExpired := by
  unfold sweepExpired
  generalize (List.finRange SHARDS).flatMap c.engine.candidates = ps
  induction ps generalizing c with
  | nil => exact .refl c
  | cons p ps ih =>
    rw [List.foldl_cons]
    refine Shrunk.trans ?_ (ih _)
    split
    · split
      · next c' he => exact (c.shrunk_release he).trans (.of_same rfl fun _ => rfl)
      · exact .refl c
    · exact .refl c

end Core

namespace World

variable (w : World SHARDS GLS)

theorem shrunk_wait : Shrunk w.core w.wait.core := by
  unfold wait
  split
  · exact .refl _
  · next gap gaps _ =>
    have h : ∀ (ps : List (SkuId × HoldId)) (c : Core SHARDS),
        Shrunk c (ps.foldl (fun c p => c.tryRelease p.1 p.2) c) := by
      intro ps
      induction ps with
      | nil => exact fun c => .refl c
      | cons p ps ih => exact fun c => (c.shrunk_tryRelease p.1 p.2).1.trans (ih _)
    exact (h gap.released w.core).trans (.of_same rfl fun _ => rfl)

@[simp] theorem journal_wait : w.wait.journal = w.journal := by
  unfold wait
  split
  · rfl
  · rfl

/-- After releasing a list of holds all of them are gone. -/
theorem releaseAll_spec (holds : List (SkuId × HoldId)) : Shrunk w.core (releaseAll holds w).core ∧
    (releaseAll holds w).journal = w.journal ∧
    ∀ p ∈ holds, ((releaseAll holds w).stateOf p.1).holds.lookup p.2 = none := by
  induction holds generalizing w with
  | nil => exact ⟨.refl _, rfl, nofun⟩
  | cons p holds ih =>
    obtain ⟨sku, hold⟩ := p
    obtain ⟨ht, hgone⟩ := w.wait.core.shrunk_tryRelease sku hold
    obtain ⟨hs, hj, hall⟩ := ih (w.wait.withCore (w.wait.core.tryRelease sku hold))
    unfold releaseAll
    refine ⟨(w.shrunk_wait.trans ht).trans hs, hj.trans w.journal_wait, fun p hp => ?_⟩
    rcases List.mem_cons.mp hp with rfl | hp
    · exact hs.gone hgone
    · exact hall p hp

end World

/-! ## No net effect -/

/-- The units of the holds of before that others have released. -/
def givenBack (st st' : SkuState) : Int :=
  AssocMap.droppedSum (fun q : Nat => (q : Int)) st.holds st'.holds

/-- A run has had no net effect: what is sellable differs only by what others gave back, and what is
committed, the backorders and the balances are as before. -/
structure NilEffect (w w' : World SHARDS GLS) : Prop where
  available : ∀ sku, (w'.stateOf sku).available =
    (w.stateOf sku).available + givenBack (w.stateOf sku) (w'.stateOf sku)
  committed : ∀ sku, (w'.stateOf sku).committed = (w.stateOf sku).committed
  backorders : ∀ sku id, (w'.stateOf sku).backorders.lookup id = (w.stateOf sku).backorders.lookup id
  balances : ∀ a, (w'.journal.balanceOf a).net = (w.journal.balanceOf a).net

/-- During the first step: what others left of the old holds, the saga's own (`mine`), and the old
backorders with the saga's own (`placed`). -/
structure Reserved (c₀ c : Core SHARDS) (mine placed : List (SkuId × HoldId × Nat)) : Prop where
  ids : c₀.nextId ≤ c.nextId
  onHand : ∀ sku, (c.stateOf sku).onHand = (c₀.stateOf sku).onHand
  committed : ∀ sku, (c.stateOf sku).committed = (c₀.stateOf sku).committed
  holds : ∀ sku hold qty, (c.stateOf sku).holds.lookup hold = some qty →
    (c₀.stateOf sku).holds.lookup hold = some qty ∨ (sku, hold, qty) ∈ mine
  own : ∀ p ∈ mine, 0 < p.2.2 ∧ c₀.nextId ≤ p.2.1.uuid
  backorders : ∀ sku id, (∀ qty, (sku, id, qty) ∉ placed) →
    (c.stateOf sku).backorders.lookup id = (c₀.stateOf sku).backorders.lookup id
  placed : ∀ p ∈ placed, (c.stateOf p.1).backorders.lookup p.2.1 = some p.2.2 ∧
    (c₀.stateOf p.1).backorders.lookup p.2.1 = none ∧ p.2.1.uuid < c.nextId

theorem Reserved.start (c : Core SHARDS) : Reserved c c [] [] :=
  ⟨le_rfl, fun _ => rfl, fun _ => rfl, fun _ _ _ h => Or.inl h, nofun, fun _ _ _ => rfl, nofun⟩

section
variable {c₀ c c' : Core SHARDS} {mine placed : List (SkuId × HoldId × Nat)}

theorem Reserved.shrink (h : Reserved c₀ c mine placed) (hs : Shrunk c c') : Reserved c₀ c' mine placed := by
  refine ⟨hs.nextId ▸ h.ids, fun sku => (hs.onHand sku).trans (h.onHand sku),
    fun sku => (hs.committed sku).trans (h.committed sku),
    fun sku hold qty hl => h.holds sku hold qty (hs.holds sku hold qty hl), h.own, fun sku id hn => ?_,
    fun p hp => ?_⟩
  · rw [hs.backorders]
    exact h.backorders sku id hn
  · rw [hs.backorders, hs.nextId]
    exact h.placed p hp

/-- The saga inserts a hold of its own. -/
theorem Reserved.hold (h : Reserved c₀ c mine placed) (sku : SkuId) {qty : Nat} (expires : Int) (hq : 0 < qty) :
    Reserved c₀ (c.withNewId (c.engine.insertHold sku c.newId qty expires))
      (mine ++ [(sku, c.newId, qty)]) placed := by
  have hst : ∀ k, (c.withNewId (c.engine.insertHold sku c.newId qty expires)).stateOf k =
      if k = sku then (c.stateOf sku).insertHold c.newId qty expires else c.stateOf k :=
    fun k => c.engine.stateOf_record ..
  have hleft : ∀ {α : Type} (f : SkuState → α),
      f ((c.stateOf sku).insertHold c.newId qty expires) = f (c.stateOf sku) → ∀ k,
        f ((c.withNewId (c.engine.insertHold sku c.newId qty expires)).stateOf k) = f (c.stateOf k) :=
    fun f hf => c.engine.left_record f sku _ _ hf
  refine ⟨h.ids.trans (Nat.le_succ _), fun k => (hleft (·.onHand) rfl k).trans (h.onHand k),
    fun k => (hleft (·.committed) rfl k).trans (h.committed k), fun k hold q hl => ?_, ?_, fun k id hn => ?_,
    fun p hp => ?_⟩
  · rw [List.mem_append]
    rw [hst k] at hl
    split at hl
    · next hk =>
      subst hk
      have hl : ((c.stateOf k).holds.insert c.newId qty).lookup hold = some q := hl
      rw [AssocMap.lookup_insert_eq] at hl
      split at hl
      · next hid =>
        obtain rfl := Option.some.inj hl
        rw [hid]
        exact Or.inr (Or.inr List.mem_cons_self)
      · rcases h.holds k hold q hl with hl | hl
        · exact Or.inl hl
        · exact Or.inr (Or.inl hl)
    · rcases h.holds k hold q hl with hl | hl
      · exact Or.inl hl
      · exact Or.inr (Or.inl hl)
  · intro p hp
    rcases List.mem_append.mp hp with hp | hp
    · exact h.own p hp
    · obtain rfl := List.mem_singleton.mp hp
      exact ⟨hq, h.ids⟩
  · rw [← h.backorders k id hn, hleft (·.backorders) rfl k]
  · obtain ⟨h1, h2, h3⟩ := h.placed p hp
    refine ⟨?_, h2, h3.trans (Nat.lt_succ_self _)⟩
    rw [hleft (·.backorders) rfl]
    exact h1

/-- The saga places a backorder of its own. -/
theorem Reserved.backorder (h : Reserved c₀ c mine placed) (hf : IdsFresh c₀) (sku : SkuId) (qty : Nat) :
    Reserved c₀ (c.withNewId (c.engine.placeBackorder sku c.newId qty)) mine
      (placed ++ [(sku, c.newId, qty)]) := by
  have hst : ∀ k, (c.withNewId (c.engine.placeBackorder sku c.newId qty)).stateOf k =
      if k = sku then (c.stateOf sku).placeBackorder c.newId qty else c.stateOf k :=
    fun k => c.engine.stateOf_record ..
  have hleft : ∀ {α : Type} (f : SkuState → α),
      f ((c.stateOf sku).placeBackorder c.newId qty) = f (c.stateOf sku) → ∀ k,
        f ((c.withNewId (c.engine.placeBackorder sku c.newId qty)).stateOf k) = f (c.stateOf k) :=
    fun f hf => c.engine.left_record f sku _ _ hf
  refine ⟨h.ids.trans (Nat.le_succ _), fun k => (hleft (·.onHand) rfl k).trans (h.onHand k),
    fun k => (hleft (·.committed) rfl k).trans (h.committed k), fun k hold q hl => ?_, h.own, fun k id hn => ?_,
    fun p hp => ?_⟩
  · rw [hleft (·.holds) rfl] at hl
    exact h.holds k hold q hl
  · have hold : ∀ q, (k, id, q) ∉ placed := fun q hm => hn q (List.mem_append_left _ hm)
    rw [← h.backorders k id hold, hst k]
    split
    · next hk =>
      subst hk
      show ((c.stateOf k).backorders.insert c.newId qty).lookup id = _
      rw [AssocMap.lookup_insert_eq, if_neg]
      rintro rfl
      exact hn qty (List.mem_append_right _ List.mem_cons_self)
    · rfl
  · rw [hst]
    rcases List.mem_append.mp hp with hp | hp
    · obtain ⟨h1, h2, h3⟩ := h.placed p hp
      refine ⟨?_, h2, h3.trans (Nat.lt_succ_self _)⟩
      split
      · next hk =>
        show ((c.stateOf sku).backorders.insert c.newId qty).lookup p.2.1 = some p.2.2
        have hne : p.2.1 ≠ c.newId := by
          intro he
          rw [he] at h3
          exact lt_irrefl _ h3
        rw [AssocMap.lookup_insert_eq, if_neg hne, ← hk]
        exact h1
      · exact h1
    · obtain rfl := List.mem_singleton.mp hp
      refine ⟨?_, (hf sku c.newId h.ids).backorders, Nat.lt_succ_self _⟩
      rw [if_pos rfl]
      exact AList.lookup_insert _

/-- With its own holds gone and no backorder placed, the saga has had no effect on the stock. -/
theorem Reserved.nil (h : Reserved c₀ c mine []) (hg : ∀ p ∈ mine, (c.stateOf p.1).holds.lookup p.2.1 = none)
    (sku : SkuId) :
    (c.stateOf sku).available =
        (c₀.stateOf sku).available + givenBack (c₀.stateOf sku) (c.stateOf sku) ∧
      (c.stateOf sku).committed = (c₀.stateOf sku).committed ∧
      ∀ id, (c.stateOf sku).backorders.lookup id = (c₀.stateOf sku).backorders.lookup id := by
  have hsub : ∀ hold qty, (c.stateOf sku).holds.lookup hold = some qty →
      (c₀.stateOf sku).holds.lookup hold = some qty := by
    intro hold qty hl
    rcases h.holds sku hold qty hl with hl' | hm
    · exact hl'
    · rw [hg _ hm] at hl
      exact nomatch hl
  have hsum := AssocMap.sumOf_eq_add_droppedSum (fun q : Nat => (q : Int)) hsub
  refine ⟨?_, h.committed sku, fun id => h.backorders sku id fun _ hm => nomatch hm⟩
  show (c.stateOf sku).onHand - (c.stateOf sku).committed - AssocMap.sumOf _ (c.stateOf sku).holds =
    (c₀.stateOf sku).onHand - (c₀.stateOf sku).committed - AssocMap.sumOf _ (c₀.stateOf sku).holds +
      AssocMap.droppedSum _ (c₀.stateOf sku).holds (c.stateOf sku).holds
  rw [h.onHand, h.committed, hsum]
  omega

end

/-! ## The first step -/

/-- A line's SKU has the line's quantity when the line's turn comes, after the sweep it starts with. -/
def LineCovered (line : SagaLine) (w : World SHARDS GLS) : Prop :=
  line.qty.1 ≤ asU32 (w.wait.core.sweepExpired.stateOf line.sku).available

section
variable {c₀ c : Core SHARDS} {mine placed : List (SkuId × HoldId × Nat)}

theorem Reserved.holdUnits (h : Reserved c₀ c mine placed) (sku : SkuId) (qty : Nat) (expires : Int) :
    Reserved c₀ (c.holdUnits sku qty expires) (mine ++ if 0 < qty then [(sku, c.newId, qty)] else []) placed := by
  unfold Core.holdUnits
  by_cases hq : 0 < qty
  · rw [if_pos hq, if_pos hq]
    exact h.hold sku expires hq
  · rw [if_neg hq, if_neg hq, List.append_nil]
    exact h

theorem Reserved.backorderUnits (h : Reserved c₀ c mine placed) (hf : IdsFresh c₀) (sku : SkuId)
    (reserved qty : Nat) :
    Reserved c₀ (c.backorderUnits sku reserved qty) mine
      (placed ++ if reserved < qty then [(sku, c.newId, qty - reserved)] else []) := by
  unfold Core.backorderUnits
  by_cases hq : reserved < qty
  · rw [if_pos hq, if_pos hq]
    exact h.backorder hf sku _
  · rw [if_neg hq, if_neg hq, List.append_nil]
    exact h

theorem shrunk_indexUnits (c : Core SHARDS) (hold : HoldId) (qty : Nat) (expires : Int) (ttl : Nat) :
    Shrunk c (c.indexUnits hold qty expires ttl) := by
  unfold Core.indexUnits
  split
  · exact .of_same rfl fun _ => rfl
  · exact .refl c

/-- What a call reserves and backorders is the saga's own. -/
theorem Reserved.reserveOrBackorder (h : Reserved c₀ c mine placed) (hf : IdsFresh c₀) (sku : SkuId) (qty : U32)
    (ttl : Nat) :
    ∃ m b, Reserved c₀ (c.reserveOrBackorder sku qty ttl).2 (mine ++ m) (placed ++ b) ∧
      m = (c.reserveOrBackorder sku qty ttl).1.1.toList.map (fun p => (sku, p.1, p.2.1)) ∧
      (b = [] ↔ qty.1 ≤ asU32 (c.sweepExpired.stateOf sku).available) := by
  have hr : c.sweepExpired.engine.reservable sku qty.1 =
      min (asU32 (c.sweepExpired.stateOf sku).available) qty.1 := rfl
  have h₁ : Reserved c₀ (c.sweepExpired.withEngine (c.sweepExpired.engine.touch sku)) mine placed :=
    (h.shrink c.shrunk_sweepExpired).shrink (.of_same rfl fun k => c.sweepExpired.engine.stateOf_touch sku k)
  have h₂ := (h₁.holdUnits sku (c.sweepExpired.engine.reservable sku qty.1)
    (c.sweepExpired.now + chronoTtl ttl)).backorderUnits hf sku (c.sweepExpired.engine.reservable sku qty.1) qty.1
  refine ⟨_, _, h₂.shrink (shrunk_indexUnits _ _ _ _ _), ?_, ?_⟩
  · unfold Core.reserveOrBackorder
    dsimp only
    split
    · rfl
    · rfl
  · split
    · next hq => exact iff_of_false (List.cons_ne_nil _ _) (by omega)
    · next hq => exact iff_of_true rfl (by omega)

end

namespace OrderSaga

variable (saga : OrderSaga)

/-- Every line is covered when its turn comes. -/
def LinesCovered : List SagaLine → Reserving → World SHARDS GLS → Prop
  | [], _, _ => True
  | line :: lines, r, w =>
    LineCovered line w ∧ LinesCovered lines (saga.reserveLine line r w).1 (saga.reserveLine line r w).2

/-- The ids of the saga's holds. -/
def idsOf (mine : List (SkuId × HoldId × Nat)) : List (SkuId × HoldId) := mine.map fun p => (p.1, p.2.1)

theorem reserveLine_spec {c₀ : Core SHARDS} {w : World SHARDS GLS} {mine placed : List (SkuId × HoldId × Nat)}
    (h : Reserved c₀ w.core mine placed) (hf : IdsFresh c₀) (line : SagaLine) {r : Reserving}
    (hr : r.holds = idsOf mine) :
    ∃ m b, Reserved c₀ (saga.reserveLine line r w).2.core (mine ++ m) (placed ++ b) ∧
      (saga.reserveLine line r w).1.holds = idsOf (mine ++ m) ∧ (b = [] ↔ LineCovered line w) ∧
      (saga.reserveLine line r w).2.journal = w.journal := by
  obtain ⟨m, b, h', hm, hb⟩ := (h.shrink w.shrunk_wait).reserveOrBackorder hf line.sku line.qty saga.holdTtl
  refine ⟨m, b, h', ?_, hb, w.journal_wait⟩
  unfold reserveLine
  dsimp only
  have hback : ∀ (r' : Reserving) (o : Option (HoldId × U32)), (r'.addBackorder line o).holds = r'.holds := by
    intro r' o
    cases o with
    | none => rfl
    | some p => rfl
  rw [hback, hm]
  cases (w.wait.core.reserveOrBackorder line.sku line.qty saga.holdTtl).1.1 with
  | none =>
    show r.holds = _
    rw [hr, Option.toList_none, List.map_nil, List.append_nil]
  | some p =>
    show r.holds ++ [(line.sku, p.1)] = _
    rw [hr]
    unfold idsOf
    rw [List.map_append]
    rfl

/-- The first step as a whole. -/
theorem reserveLines_spec {c₀ : Core SHARDS} (hf : IdsFresh c₀) (lines : List SagaLine) {w : World SHARDS GLS}
    {mine placed : List (SkuId × HoldId × Nat)} (h : Reserved c₀ w.core mine placed) {r : Reserving}
    (hr : r.holds = idsOf mine) :
    ∃ m b, Reserved c₀ (saga.reserveLines lines r w).2.core (mine ++ m) (placed ++ b) ∧
      (saga.reserveLines lines r w).1.holds = idsOf (mine ++ m) ∧ (b = [] ↔ saga.LinesCovered lines r w) ∧
      (saga.reserveLines lines r w).2.journal = w.journal := by
  induction lines generalizing w mine placed r with
  | nil =>
    refine ⟨[], [], ?_, ?_, iff_of_true rfl trivial, rfl⟩
    · rw [List.append_nil, List.append_nil]
      exact h
    · rw [List.append_nil]
      exact hr
  | cons line lines ih =>
    obtain ⟨m₁, b₁, h₁, hr₁, hb₁, hj₁⟩ := saga.reserveLine_spec h hf line hr
    obtain ⟨m₂, b₂, h₂, hr₂, hb₂, hj₂⟩ := ih h₁ hr₁
    refine ⟨m₁ ++ m₂, b₁ ++ b₂, ?_, ?_, ?_, hj₂.trans hj₁⟩
    · rw [← List.append_assoc, ← List.append_assoc]
      exact h₂
    · rw [← List.append_assoc]
      exact hr₂
    · rw [List.append_eq_nil_iff, hb₁, hb₂]
      exact Iff.rfl

/-! ## The postings -/

theorem saleEntries_validate (id : TransactionId) (total : Money Usd) :
    (⟨id, saga.saleEntries total⟩ : Transaction Usd).validate = .ok () := by
  rw [Transaction.validate_ok_iff]
  refine ⟨le_rfl, ?_⟩
  rw [Transaction.debits, Transaction.credits, Transaction.total_eq_sum, Transaction.total_eq_sum]
  simp [saleEntries]

theorem refundEntries_validate (id : TransactionId) (total : Money Usd) :
    (⟨id, saga.refundEntries total⟩ : Transaction Usd).validate = .ok () := by
  rw [Transaction.validate_ok_iff]
  refine ⟨le_rfl, ?_⟩
  rw [Transaction.debits, Transaction.credits, Transaction.total_eq_sum, Transaction.total_eq_sum]
  simp [refundEntries]

/-- A sale and its refund leave every balance where it was. -/
theorem net_sale_refund {j j₁ j₂ : JournalEngine Usd GLS} {total : Money Usd} {id id' : TransactionId}
    {p p' m m' : String}
    (h₁ : JournalEngine.Posted j j₁ ((saga.saleEntries total).map (JournalEngine.leg ⟨id, saga.saleEntries total⟩ p m)))
    (h₂ : JournalEngine.Posted j₁ j₂
      ((saga.refundEntries total).map (JournalEngine.leg ⟨id', saga.refundEntries total⟩ p' m')))
    (a : AccountId) : (j₂.balanceOf a).net = (j.balanceOf a).net := by
  unfold AccountBalance.net
  rw [h₂.credits a, h₂.debits a, h₁.credits a, h₁.debits a]
  simp only [saleEntries, refundEntries, JournalEngine.leg, List.map_cons, List.map_nil, List.filter_cons,
    List.filter_nil]
  by_cases hr : saga.coa.accountsReceivable = a
  · by_cases hs : saga.coa.salesRevenue = a
    · simp [hr, hs]
    · simp [hr, hs]
  · by_cases hs : saga.coa.salesRevenue = a
    · simp [hr, hs]
    · simp [hr, hs]

/-- A posting of entries that validate: what it answers, and that it leaves the stock alone. -/
theorem post_cases (w : World SHARDS GLS) {entries : List (LedgerEntry Usd)} (period memo : String)
    (hv : (⟨⟨w.nextTx⟩, entries⟩ : Transaction Usd).validate = .ok ()) :
    (¬ (w.journal.lockSequence entries).Nodup ∧ w.post entries period memo = none) ∨
    (∃ e w', w.post entries period memo = some (.error e, w') ∧ w'.core = w.core ∧ w'.gaps = w.gaps ∧
      w'.journal = w.journal ∧ w.journal.periodIsClosed period = true) ∨
    (∃ id w', w.post entries period memo = some (.ok id, w') ∧ w'.core = w.core ∧ w'.gaps = w.gaps ∧
      (w.journal.lockSequence entries).Nodup ∧ w.journal.periodIsClosed period = false ∧
      JournalEngine.Posted w.journal w'.journal (entries.map (JournalEngine.leg ⟨⟨w.nextTx⟩, entries⟩ period memo))) := by
  unfold World.post
  rcases w.journal.postTransaction_cases ⟨w.nextTx⟩ entries period memo hv with
    ⟨hn, he⟩ | ⟨-, hp, he⟩ | ⟨hn, hp, j', he, hposted⟩
  · rw [he]
    exact Or.inl ⟨hn, rfl⟩
  · rw [he]
    exact Or.inr (Or.inl ⟨_, _, rfl, rfl, rfl, rfl, hp⟩)
  · rw [he]
    exact Or.inr (Or.inr ⟨_, _, rfl, rfl, rfl, hn, hp, hposted⟩)

/-- The refund of a sale that was posted goes through, and leaves every balance where it was before the
sale. -/
theorem refund_of_sale {w w₁ w₂ : World SHARDS GLS} {total : Money Usd} {id : TransactionId}
    (hs : saga.postSale total w = some (.ok id, w₁)) (hj : w₂.journal = w₁.journal) :
    ∃ w₃, saga.refund total w₂ = some w₃ ∧ w₃.core = w₂.core ∧
      ∀ a, (w₃.journal.balanceOf a).net = (w.journal.balanceOf a).net := by
  unfold postSale at hs
  unfold refund
  rcases post_cases w saga.period "oms sale" (saga.saleEntries_validate _ total) with
    ⟨-, he⟩ | ⟨e, w', he, -⟩ | ⟨id', w', he, -, -, hn, hp, hposted⟩
  · rw [he] at hs
    exact nomatch hs
  · rw [he] at hs
    exact nomatch hs
  · rw [he] at hs
    obtain ⟨-, rfl⟩ := Prod.mk.inj (Option.some.inj hs)
    obtain ⟨hi, -, -, hst⟩ := hposted.frame
    -- the refund has the sale's accounts, and the period is as it was
    have hn₂ : (w₂.journal.lockSequence (saga.refundEntries total)).Nodup := by
      have hl : w₂.journal.lockSequence (saga.refundEntries total) =
          w.journal.lockSequence (saga.saleEntries total) := by
        unfold JournalEngine.lockSequence
        rw [hj, hi]
        rfl
      rw [hl]
      exact hn
    have hp₂ : w₂.journal.periodIsClosed saga.period = false := by
      rw [← hp]
      unfold JournalEngine.periodIsClosed
      rw [hj, hst]
    rcases w₂.journal.postTransaction_cases ⟨w₂.nextTx⟩ (saga.refundEntries total) saga.period "oms refund"
      (saga.refundEntries_validate _ total) with ⟨hno, -⟩ | ⟨-, hc, -⟩ | ⟨-, -, j', hpost, hposted₂⟩
    · exact absurd hn₂ hno
    · rw [hp₂] at hc
      exact nomatch hc
    · unfold World.post
      rw [hpost]
      refine ⟨_, rfl, rfl, fun a => ?_⟩
      rw [hj] at hposted₂
      exact saga.net_sale_refund hposted hposted₂ a

end OrderSaga

/-! ## The confirmations -/

namespace World

/-- Each hold is still outstanding when its turn to be confirmed comes. -/
def HeldAtTurn : List (SkuId × HoldId) → World SHARDS GLS → Prop
  | [], _ => True
  | (sku, hold) :: holds, w => (w.wait.stateOf sku).holds.lookup hold ≠ none ∧
    ∀ core, w.wait.core.confirm sku hold = .ok core → HeldAtTurn holds (w.wait.withCore core)

/-- Each hold after the first is. -/
def LaterHeldAtTurn : List (SkuId × HoldId) → World SHARDS GLS → Prop
  | [], _ => True
  | (sku, hold) :: holds, w =>
    ∀ core, w.wait.core.confirm sku hold = .ok core → HeldAtTurn holds (w.wait.withCore core)

variable (w : World SHARDS GLS)

theorem journal_confirmAll (holds : List (SkuId × HoldId)) : (confirmAll holds w).2.journal = w.journal := by
  induction holds generalizing w with
  | nil => rfl
  | cons p holds ih =>
    obtain ⟨sku, hold⟩ := p
    simp only [confirmAll]
    split
    · exact w.journal_wait
    · exact (ih _).trans w.journal_wait

theorem confirmAll_of_held {holds : List (SkuId × HoldId)} (h : HeldAtTurn holds w) :
    (confirmAll holds w).1 = .ok () := by
  induction holds generalizing w with
  | nil => rfl
  | cons p holds ih =>
    obtain ⟨sku, hold⟩ := p
    obtain ⟨hh, hrest⟩ := h
    simp only [confirmAll]
    rcases w.wait.core.confirm_cases sku hold with ⟨qty, -, c', he, -⟩ | ⟨hl, -⟩
    · rw [he]
      exact ih _ (hrest c' he)
    · exact absurd hl hh

/-- Confirming takes nothing back. -/
theorem committed_confirmAll (holds : List (SkuId × HoldId)) (sku : SkuId) :
    (w.stateOf sku).committed ≤ ((confirmAll holds w).2.stateOf sku).committed := by
  induction holds generalizing w with
  | nil => exact le_rfl
  | cons p holds ih =>
    obtain ⟨sku', hold⟩ := p
    have hw : (w.wait.stateOf sku).committed = (w.stateOf sku).committed := w.shrunk_wait.committed sku
    simp only [confirmAll]
    rw [← hw]
    rcases w.wait.core.confirm_cases sku' hold with ⟨qty, -, c', he, -, hs⟩ | ⟨-, e, he⟩
    · rw [he]
      refine le_trans ?_ (ih _)
      show (w.wait.core.stateOf sku).committed ≤ (c'.stateOf sku).committed
      rw [hs sku]
      split
      · next hk =>
        rw [hk]
        show _ ≤ (w.wait.core.stateOf sku').committed + (qty : Int)
        omega
      · exact le_rfl
    · rw [he]

end World

/-! ## A run that fails -/

namespace OrderSaga

variable (saga : OrderSaga)

/-- Every line is covered when its turn comes and, once the sale is posted, no hold but the first is
gone when its turn to be confirmed comes. -/
def Smooth (lines : List SagaLine) (w : World SHARDS GLS) : Prop :=
  saga.LinesCovered lines {} w ∧
    ∀ id w', saga.postSale (saga.reserveLines lines {} w).1.total (saga.reserveLines lines {} w).2.wait =
      some (.ok id, w') → World.LaterHeldAtTurn (saga.reserveLines lines {} w).1.holds w'

/-- When the saga's holds are released and its posting is undone, only its backorders are left. -/
theorem nilEffect_iff_placed {w w' : World SHARDS GLS} {mine placed : List (SkuId × HoldId × Nat)}
    (h : Reserved w.core w'.core mine placed)
    (hg : ∀ p ∈ mine, (w'.stateOf p.1).holds.lookup p.2.1 = none)
    (hj : ∀ a, (w'.journal.balanceOf a).net = (w.journal.balanceOf a).net) : NilEffect w w' ↔ placed = [] := by
  constructor
  · intro hn
    cases placed with
    | nil => rfl
    | cons p placed =>
      obtain ⟨h1, h2, -⟩ := h.placed p List.mem_cons_self
      have hb : (w'.core.stateOf p.1).backorders.lookup p.2.1 = (w.core.stateOf p.1).backorders.lookup p.2.1 :=
        hn.backorders p.1 p.2.1
      rw [h1, h2] at hb
      exact nomatch hb
  · rintro rfl
    exact ⟨fun sku => (h.nil hg sku).1, fun sku => (h.nil hg sku).2.1, fun sku => (h.nil hg sku).2.2, hj⟩

/-- A confirmation that failed, once the holds are released: without effect exactly when no hold was
confirmed before it. -/
theorem confirm_failed_nil_iff {w w₂ w₃ w₄ : World SHARDS GLS} {mine placed : List (SkuId × HoldId × Nat)}
    {holds : List (SkuId × HoldId)} {e : ReservationError} (hf : IdsFresh w.core)
    (h₂ : Reserved w.core w₂.wait.core mine placed) (hholds : holds = idsOf mine)
    (hc : World.confirmAll holds w₂ = (.error e, w₃)) (hcore : w₄.core = w₃.wait.core)
    (hend : Reserved w.core w₄.core mine placed → (NilEffect w (World.releaseAll holds w₄) ↔ placed = [])) :
    NilEffect w (World.releaseAll holds w₄) ↔ placed = [] ∧ World.LaterHeldAtTurn holds w₂ := by
  cases holds with
  | nil => exact nomatch hc
  | cons p rest =>
    obtain ⟨sku, hold⟩ := p
    simp only [World.confirmAll] at hc
    rcases w₂.wait.core.confirm_cases sku hold with ⟨qty, hl, c', hok, -, hst⟩ | ⟨-, e', herr⟩
    · -- the first hold is confirmed, and nothing takes that back
      rw [hok] at hc
      have hc : World.confirmAll rest (w₂.wait.withCore c') = (.error e, w₃) := hc
      have hmem : (sku, hold, qty) ∈ mine := by
        rcases h₂.holds sku hold qty hl with h0 | hm
        · have hin : (sku, hold) ∈ idsOf mine := hholds ▸ List.mem_cons_self
          obtain ⟨p, hp, hpe⟩ := List.mem_map.mp hin
          obtain ⟨-, rfl⟩ := Prod.mk.inj hpe
          have hnone := (hf sku p.2.1 (h₂.own p hp).2).holds
          rw [show (w.core.stateOf sku).holds.lookup p.2.1 = some qty from h0] at hnone
          exact nomatch hnone
        · exact hm
      have hpos : 0 < qty := (h₂.own _ hmem).1
      refine iff_of_false (fun hnil => ?_) fun hl' => ?_
      · have hbefore : (w₂.wait.core.stateOf sku).committed = (w.stateOf sku).committed := h₂.committed sku
        have hfirst : (c'.stateOf sku).committed = (w₂.wait.core.stateOf sku).committed + (qty : Int) := by
          rw [hst sku, if_pos rfl]
          rfl
        have hrest := (w₂.wait.withCore c').committed_confirmAll rest sku
        rw [hc] at hrest
        have hafter : ((World.releaseAll ((sku, hold) :: rest) w₄).stateOf sku).committed =
            (w₃.stateOf sku).committed := by
          have hs := (w₄.releaseAll_spec ((sku, hold) :: rest)).1.committed sku
          rw [hcore] at hs
          exact hs.trans (w₃.shrunk_wait.committed sku)
        have hsame := hnil.committed sku
        have hrest : (c'.stateOf sku).committed ≤ (w₃.stateOf sku).committed := hrest
        omega
      · have hheld := (w₂.wait.withCore c').confirmAll_of_held (hl'.2 c' hok)
        rw [hc] at hheld
        exact nomatch hheld
    · rw [herr] at hc
      obtain ⟨-, rfl⟩ := Prod.mk.inj hc
      have h₄ : Reserved w.core w₄.core mine placed := by
        rw [hcore]
        exact h₂.shrink w₂.wait.shrunk_wait
      refine (hend h₄).trans (and_iff_left fun core hok => ?_).symm
      rw [herr] at hok
      exact nomatch hok

/-- The saga of the demo: a 15-minute hold, accounts 1 and 2. -/
def demo : OrderSaga := { coa := ⟨⟨1⟩, ⟨2⟩⟩, holdTtl := 900 * 10 ^ 9, period := "2026-01" }

/-- Ten units of SKU 7 and an empty journal. -/
def tenUnits : World 64 64 where
  core := (initCore modShard false 0).withEngine ((initCore modShard false 0).engine.receive ⟨7⟩ 10)
  journal := .new (fun a => mod64 a.uuid) .new false

theorem idsFresh_tenUnits : IdsFresh tenUnits.core :=
  idsFresh_instr (i := .receive ⟨7⟩ (i64 10)) (k := .only) (idsFresh_init modShard false 0) rfl

/-- Four of the ten units, and before the hold is confirmed someone releases it. -/
def holdReleased : World 64 64 := { tenUnits with gaps := [{}, {}, { released := [(⟨7⟩, ⟨0⟩)] }] }

/-- The period is closed. -/
def closedPeriod : World 64 64 := { tenUnits with journal := tenUnits.journal.setPeriodStatus "2026-01" .closed }

end OrderSaga

end TptErp.Oms
