import TptErp.Lib.Greedy
import Mathlib.Algebra.Order.Field.Rat
import Mathlib.Data.List.FinRange
import Mathlib.Tactic.Linarith

/-!
# Route optimization

A list of stops becomes a visiting order: a nearest-neighbour seed from the depot `stops[0]`, then
2-opt local search.  The distance of two positions is any function into the rationals.  A tour is a
list of stop indices, so that an index out of range (where the source would panic) cannot be written.

One pass of 2-opt scores all segment reversals in parallel; in which order the improvements are
gathered is left open (`Gather`), and the first one of the smallest `delta` is applied.

    optimize stops max_passes ~ 1 .. n-1
    two_opt_improve tour ~ tour,  tour_distance (two_opt_improve tour) ≤ tour_distance tour     (optimize_valid)

and no segment reversal is left that gains more than the threshold, unless every pass was used up.
-/

namespace TptErp

/-- A stop to be visited. -/
structure Stop (P : Type) where
  id : Nat
  pos : P

/-- An improving swap: its two ends and what it changes the length by. -/
abbrev Improvement := Nat × Nat × ℚ

/-- The order in which a pass's parallel search gathers the improvements. -/
structure Gather where
  order : Nat → List Improvement → List Improvement
  perm : ∀ pass l, (order pass l).Perm l

namespace Route

variable {P : Type} (haversine_km : P → P → ℚ)

/-! ## Algorithm -/

/-- Indices into the stops. -/
abbrev Tour (stops : List (Stop P)) := List (Fin stops.length)

def dist (a b : Stop P) : ℚ := haversine_km a.pos b.pos

section
variable {stops : List (Stop P)}

/-- The distance between two stops, by index. -/
def hop (i j : Fin stops.length) : ℚ := dist haversine_km (stops.get i) (stops.get j)

/-- The legs between neighbours of the tour (`tour.windows(2)`). -/
def legs : Tour stops → ℚ
  | i :: j :: rest => hop haversine_km i j + legs (j :: rest)
  | _ => 0

/-- Total length of a closed tour from the depot. -/
def tourDistance : Tour stops → ℚ
  | [] => 0
  | t :: ts =>
    let depot : Fin stops.length := ⟨0, t.pos⟩
    hop haversine_km depot t + legs haversine_km (t :: ts) + hop haversine_km ((t :: ts).getLast (by simp)) depot

/-- One step of the inner loop of the greedy search, at the stop `j`. -/
def consider (visited : Fin stops.length → Bool) (current : Fin stops.length) (best : Option (Fin stops.length × ℚ))
    (j : Fin stops.length) : Option (Fin stops.length × ℚ) :=
  if visited j then best
  else
    let d := hop haversine_km current j
    match best with
    | none => some (j, d)
    | some (b, bd) => if d < bd then some (j, d) else some (b, bd)

/-- The inner loop, over the stops `1..n`. -/
def nearest (visited : Fin stops.length → Bool) (current : Fin stops.length) : Option (Fin stops.length × ℚ) :=
  ((List.finRange stops.length).drop 1).foldl (consider haversine_km visited current) none

/-- The outer loop, for so many rounds. -/
def nearestLoop : Nat → (Fin stops.length → Bool) → Fin stops.length → Tour stops
  | 0, _, _ => []
  | rounds + 1, visited, current =>
    match nearest haversine_km visited current with
    | some (j, _) => j :: nearestLoop rounds (Function.update visited j true) j
    | none => nearestLoop rounds visited current

end

/-- Greedy nearest-neighbour seed tour starting from the depot. -/
def nearestNeighborTour (stops : List (Stop P)) : Tour stops :=
  if h : stops.length ≤ 1 then []
  else nearestLoop haversine_km (stops.length - 1) (fun j => j.val = 0) ⟨0, by omega⟩

/-- `tour[i..=j].reverse()`. -/
def reverseSegment {α : Type} (tour : List α) (i j : Nat) : List α :=
  tour.take i ++ ((tour.take (j + 1)).drop i).reverse ++ tour.drop (j + 1)

/-- The pairs `i < j < len`. -/
def pairs (len : Nat) : List (Nat × Nat) :=
  (List.range len).flatMap fun i => (List.range' (i + 1) (len - (i + 1))).map fun j => (i, j)

section
variable {stops : List (Stop P)}

/-- Only a gain of more than this counts. -/
def THRESHOLD : ℚ := 1 / 10 ^ 9

/-- Every swap of the tour that reduces its length. -/
def improvements (tour : Tour stops) : List Improvement :=
  (pairs tour.length).filterMap fun p =>
    let candidate := reverseSegment tour p.1 p.2
    let delta := tourDistance haversine_km candidate - tourDistance haversine_km tour
    if delta < -THRESHOLD then some (p.1, p.2, delta) else none

/-- The passes: so many are left, `pass` is the number of the next one.  Returns the tour, and how
many passes have applied a swap (which the source does not report). -/
def twoOptLoop (gather : Gather) : Nat → Nat → Tour stops → Tour stops × Nat
  | 0, _, tour => (tour, 0)
  | left + 1, pass, tour =>
    if tour.length < 2 then (tour, 0)
    else
      match Greedy.firstMin (fun x : Improvement => x.2.2) (gather.order pass (improvements haversine_km tour)) with
      | none => (tour, 0)
      | some (bi, bj, _) =>
        let r := twoOptLoop gather left (pass + 1) (reverseSegment tour bi bj)
        (r.1, r.2 + 1)

def twoOptImprove (gather : Gather) (initial : Tour stops) (max_passes : Nat) : Tour stops :=
  (twoOptLoop haversine_km gather max_passes 0 initial).1

/-- The passes of `two_opt_improve` that applied a swap. -/
def swapsApplied (gather : Gather) (initial : Tour stops) (max_passes : Nat) : Nat :=
  (twoOptLoop haversine_km gather max_passes 0 initial).2

end

/-- Build a full optimized tour (seed + 2-opt). -/
def optimize (gather : Gather) (stops : List (Stop P)) (max_passes : Nat) : Tour stops :=
  twoOptImprove haversine_km gather (nearestNeighborTour haversine_km stops) max_passes

/-! ## The seed -/

section
variable {stops : List (Stop P)}

/-- The best so far carries its distance. -/
theorem foldl_consider (visited : Fin stops.length → Bool) (current : Fin stops.length) (l : Tour stops)
    (best : Option (Fin stops.length)) :
    l.foldl (consider haversine_km visited current) (best.map fun j => (j, hop haversine_km current j)) =
      ((Greedy.unvisited l visited).foldl (Greedy.better (hop haversine_km current)) best).map
        fun j => (j, hop haversine_km current j) := by
  refine Greedy.foldl_carry (fun best => best.map fun j => (j, hop haversine_km current j)) ?_ ?_ l best
  · intro s j hv
    exact if_pos hv
  · intro best j hv
    rw [consider, if_neg (by simp [hv])]
    cases best with
    | none => rfl
    | some b =>
      simp only [Option.map_some, Greedy.better_some]
      by_cases hlt : hop haversine_km current j < hop haversine_km current b
      · rw [if_pos hlt, if_pos hlt, Option.map_some]
      · rw [if_neg hlt, if_neg hlt, Option.map_some]

/-- The stops but the depot. -/
def others (stops : List (Stop P)) : Tour stops := (List.finRange stops.length).drop 1

theorem nodup_others (stops : List (Stop P)) : (others stops).Nodup :=
  (List.nodup_finRange stops.length).sublist (List.drop_sublist 1 _)

/-- The rounds are those of a greedy search. -/
theorem nearestLoop_eq (rounds : Nat) (visited : Fin stops.length → Bool) (current : Fin stops.length)
    (h : rounds = (Greedy.unvisited (others stops) visited).length) :
    nearestLoop haversine_km rounds visited current =
      Greedy.visit (hop haversine_km) id rounds (Greedy.unvisited (others stops) visited) current := by
  induction rounds generalizing visited current with
  | zero => rfl
  | succ rounds ih =>
    have hfold : nearest haversine_km visited current = _ :=
      foldl_consider haversine_km visited current (others stops) none
    have hne : Greedy.unvisited (others stops) visited ≠ [] := by
      intro he
      rw [he] at h
      cases h
    obtain ⟨j, hj⟩ := Greedy.exists_firstMin (hop haversine_km current) hne
    have hmem := (Greedy.firstMin_some hj).1
    rw [nearestLoop, hfold, Greedy.visit]
    unfold Greedy.firstMin at hj ⊢
    rw [hj]
    simp only [Option.map_some]
    rw [ih, Greedy.unvisited_update (nodup_others stops)]
    · rfl
    · rw [Greedy.unvisited_update (nodup_others stops), List.length_erase_of_mem hmem, ← h]
      rfl

end

theorem nearestNeighborTour_perm (stops : List (Stop P)) :
    (nearestNeighborTour haversine_km stops).Perm (others stops) := by
  have hlen : (others stops).length = stops.length - 1 := by
    rw [others, List.length_drop, List.length_finRange]
  unfold nearestNeighborTour
  split
  · next h => rw [List.eq_nil_of_length_eq_zero (by omega : (others stops).length = 0)]
  · next h =>
    have hun : Greedy.unvisited (others stops) (fun j : Fin stops.length => decide (j.val = 0)) = others stops := by
      apply List.filter_eq_self.mpr
      intro j hj
      obtain ⟨k, hk, rfl⟩ := List.mem_iff_getElem.mp hj
      simp [others]
    rw [nearestLoop_eq haversine_km _ _ _ (by rw [hun, hlen]), hun, ← hlen]
    exact (Greedy.visit_tour _ _).perm

/-! ## Segment reversals -/

theorem reverseSegment_perm {α : Type} (tour : List α) (i j : Nat) (h : i ≤ j) :
    (reverseSegment tour i j).Perm tour := by
  have hsplit : tour.take i ++ (tour.take (j + 1)).drop i = tour.take (j + 1) := by
    have := List.take_append_drop i (tour.take (j + 1))
    rwa [List.take_take, Nat.min_eq_left (by omega)] at this
  unfold reverseSegment
  calc
    (tour.take i ++ ((tour.take (j + 1)).drop i).reverse ++ tour.drop (j + 1)).Perm
        (tour.take i ++ (tour.take (j + 1)).drop i ++ tour.drop (j + 1)) :=
      ((List.reverse_perm _).append_left _).append_right _
    _ = tour := by rw [hsplit, List.take_append_drop]

/-- A segment of one stop. -/
theorem reverseSegment_self {α : Type} (tour : List α) (i : Nat) : reverseSegment tour i i = tour := by
  have hone : ((tour.take (i + 1)).drop i).reverse = (tour.take (i + 1)).drop i := by
    have hlen : ((tour.take (i + 1)).drop i).length ≤ 1 := by
      rw [List.length_drop, List.length_take]
      omega
    match (tour.take (i + 1)).drop i, hlen with
    | [], _ => rfl
    | [_], _ => rfl
  have hsplit := List.take_append_drop i (tour.take (i + 1))
  rw [List.take_take, Nat.min_eq_left (by omega)] at hsplit
  rw [reverseSegment, hone, hsplit, List.take_append_drop]

theorem mem_pairs {len i j : Nat} : (i, j) ∈ pairs len ↔ i < j ∧ j < len := by
  simp only [pairs, List.mem_flatMap, List.mem_range, List.mem_map, List.mem_range'_1, Prod.mk.injEq]
  constructor
  · rintro ⟨i', hi, j', hj, rfl, rfl⟩
    omega
  · rintro ⟨hij, hj⟩
    exact ⟨i, by omega, j, by omega, rfl, rfl⟩

section
variable {stops : List (Stop P)}

theorem mem_improvements {tour : Tour stops} {x : Improvement} :
    x ∈ improvements haversine_km tour ↔ x.1 < x.2.1 ∧ x.2.1 < tour.length ∧
      x.2.2 = tourDistance haversine_km (reverseSegment tour x.1 x.2.1) - tourDistance haversine_km tour ∧
      x.2.2 < -THRESHOLD := by
  obtain ⟨i, j, delta⟩ := x
  simp only [improvements, List.mem_filterMap]
  constructor
  · rintro ⟨⟨i', j'⟩, hp, he⟩
    obtain ⟨hij, hj⟩ := mem_pairs.mp hp
    split at he
    · next hlt =>
      cases he
      exact ⟨hij, hj, rfl, hlt⟩
    · cases he
  · rintro ⟨hij, hj, rfl, hlt⟩
    exact ⟨(i, j), mem_pairs.mpr ⟨hij, hj⟩, if_pos hlt⟩

/-! ## The passes -/

/-- No reversal of one segment gains more than the threshold. -/
def LocallyOptimal (tour : Tour stops) : Prop :=
  ∀ i j, i ≤ j → j < tour.length →
    tourDistance haversine_km tour - THRESHOLD ≤ tourDistance haversine_km (reverseSegment tour i j)

theorem locallyOptimal_of_improvements {tour : Tour stops} (h : improvements haversine_km tour = []) :
    LocallyOptimal haversine_km tour := by
  intro i j hij hj
  have hpos : (0 : ℚ) < THRESHOLD := by norm_num [THRESHOLD]
  rcases Nat.lt_or_eq_of_le hij with hlt | rfl
  · by_contra hgain
    have hmem : (i, j, tourDistance haversine_km (reverseSegment tour i j) - tourDistance haversine_km tour) ∈
        improvements haversine_km tour := by
      refine (mem_improvements haversine_km).mpr ⟨hlt, hj, rfl, ?_⟩
      show tourDistance haversine_km (reverseSegment tour i j) - tourDistance haversine_km tour < -THRESHOLD
      linarith
    rw [h] at hmem
    cases hmem
  · rw [reverseSegment_self]
    linarith

theorem locallyOptimal_of_short {tour : Tour stops} (h : tour.length < 2) : LocallyOptimal haversine_km tour := by
  apply locallyOptimal_of_improvements
  apply List.eq_nil_iff_forall_not_mem.mpr
  intro x hx
  obtain ⟨hij, hj, -⟩ := (mem_improvements haversine_km).mp hx
  omega

/-- What the passes keep, and what holds when one of them finds nothing to improve. -/
theorem twoOptLoop_spec (gather : Gather) (left pass : Nat) (tour : Tour stops) :
    let r := twoOptLoop haversine_km gather left pass tour
    r.1.Perm tour ∧ tourDistance haversine_km r.1 ≤ tourDistance haversine_km tour ∧
      (r.2 < left → LocallyOptimal haversine_km r.1) := by
  induction left generalizing pass tour with
  | zero => exact ⟨List.Perm.refl _, le_refl _, fun h => absurd h (Nat.not_lt_zero _)⟩
  | succ left ih =>
    have hperm := gather.perm pass (improvements haversine_km tour)
    rw [twoOptLoop]
    split
    · next hshort => exact ⟨List.Perm.refl _, le_refl _, fun _ => locallyOptimal_of_short haversine_km hshort⟩
    · split
      · next hnone =>
        refine ⟨List.Perm.refl _, le_refl _, fun _ => locallyOptimal_of_improvements haversine_km ?_⟩
        by_contra hne
        have hne' : gather.order pass (improvements haversine_km tour) ≠ [] := by
          intro he
          rw [he] at hperm
          exact hne hperm.symm.eq_nil
        obtain ⟨x, hx⟩ := Greedy.exists_firstMin (fun x : Improvement => x.2.2) hne'
        rw [hx] at hnone
        cases hnone
      · next bi bj delta hsome =>
        have hmem := hperm.mem_iff.mp (Greedy.firstMin_some hsome).1
        obtain ⟨hij, -, hdelta, hlt⟩ := (mem_improvements haversine_km).mp hmem
        obtain ⟨hp, hd, hopt⟩ := ih (pass + 1) (reverseSegment tour bi bj)
        have hpos : (0 : ℚ) < THRESHOLD := by norm_num [THRESHOLD]
        simp only at hij hdelta hlt
        refine ⟨hp.trans (reverseSegment_perm tour bi bj (by omega)), ?_, ?_⟩
        · calc
            _ ≤ tourDistance haversine_km (reverseSegment tour bi bj) := hd
            _ ≤ tourDistance haversine_km tour := by linarith
        · intro h
          exact hopt (Nat.lt_of_succ_lt_succ h)

end

/-- **Route optimization returns a valid, no-worse tour.** -/
theorem optimize_valid (gather : Gather) (stops : List (Stop P)) (max_passes : Nat) :
    ((optimize haversine_km gather stops max_passes).map Fin.val).Perm (List.range' 1 (stops.length - 1)) ∧
    (stops.length ≤ 1 → optimize haversine_km gather stops max_passes = []) ∧
    ∀ tour : Tour stops,
      (twoOptImprove haversine_km gather tour max_passes).Perm tour ∧
      tourDistance haversine_km (twoOptImprove haversine_km gather tour max_passes) ≤ tourDistance haversine_km tour ∧
      (swapsApplied haversine_km gather tour max_passes < max_passes →
        ∀ i j, i ≤ j → j < (twoOptImprove haversine_km gather tour max_passes).length →
          tourDistance haversine_km (twoOptImprove haversine_km gather tour max_passes) - 1 / 10 ^ 9 ≤
            tourDistance haversine_km (reverseSegment (twoOptImprove haversine_km gather tour max_passes) i j)) := by
  have hspec := fun tour : Tour stops => twoOptLoop_spec haversine_km gather max_passes 0 tour
  have hperm : (optimize haversine_km gather stops max_passes).Perm (others stops) :=
    (hspec _).1.trans (nearestNeighborTour_perm haversine_km stops)
  refine ⟨?_, ?_, hspec⟩
  · have hvals : (others stops).map Fin.val = List.range' 1 (stops.length - 1) := by
      rw [others, List.map_drop, List.map_coe_finRange_eq_range, List.range_eq_range', List.drop_range']
    rw [← hvals]
    exact hperm.map Fin.val
  · intro h
    rw [others, List.drop_eq_nil_of_le (by rw [List.length_finRange]; exact h)] at hperm
    exact hperm.eq_nil

example : (optimize (fun a b : Int => ((|a - b| : Int) : ℚ)) ⟨fun _ l => l, fun _ l => .refl l⟩
    [⟨0, 0⟩, ⟨1, 3⟩, ⟨2, 1⟩, ⟨3, 2⟩] 5).map Fin.val = [2, 3, 1] := by decide +kernel

end Route

end TptErp
