import TptErp.Primitives
import TptErp.Lib.Greedy
import TptErp.Lib.GroupBy
import Mathlib.Data.List.FinRange
import Mathlib.Data.List.Sort

/-!
# Picking routes

The four picker-path strategies and their comparison.  A location is named by its index into the
list; a route is a list of indices.  Distances are values of any linear order with a sum; the greedy
search starts its minimum at `f64::MAX`, which is above every distance (`Metric`).

    naive_route, nearest_neighbor_route, batch_route, s_shape_route ~ 0 .. n-1     (picking_routes_valid)

with the nearest-neighbour route greedy at every step, the batch route sorted by `(x, y)`, the
S-shape route aisle by aisle in alternating direction, and `best` a shortest of the four.
-/

namespace TptErp

inductive Picking.Bin

/-- A physical pick location: `x` is the aisle, `y` the position along the aisle. -/
structure BinLocation where
  id : Id Picking.Bin
  x : I32
  y : I32

/-- A distance function, and `f64::MAX`: no distance between two `i32` positions reaches it. -/
structure Metric (D : Type) [LinearOrder D] where
  dist : I32 → I32 → I32 → I32 → D
  max : D
  lt_max : ∀ ax ay bx «by», dist ax ay bx «by» < max

/-- Summary of a route-planning comparison. -/
structure RouteComparison (D : Type) where
  naive : D
  nearest_neighbor : D
  batch : D
  s_shape : D
  best : String
deriving DecidableEq

namespace Picking

variable {D : Type} [LinearOrder D]

/-! ## Algorithm -/

theorem zero_mem_i32 : -2 ^ 31 ≤ (0 : Int) ∧ (0 : Int) < 2 ^ 31 := by decide

/-- The depot's coordinates. -/
def zero : I32 := ⟨0, zero_mem_i32⟩

section
variable (metric : Metric D) (locs : List BinLocation)

/-- The legs of `route_distance` from a position on: through the locations, and back to the depot. -/
def distanceFrom [Add D] : D → I32 → I32 → List (Fin locs.length) → D
  | total, cx, cy, [] => total + metric.dist cx cy zero zero
  | total, cx, cy, i :: order =>
    let l := locs.get i
    distanceFrom (total + metric.dist cx cy l.x l.y) l.x l.y order

/-- Total travel distance of an ordered route that starts and ends at the depot. -/
def routeDistance [Zero D] [Add D] (order : List (Fin locs.length)) : D := distanceFrom metric locs 0 zero zero order

/-- Visit locations in the order they were handed over. -/
def naiveRoute : List (Fin locs.length) := List.finRange locs.length

/-- One step of the greedy search: the best index so far with its distance, at the location `i`. -/
def closer (visited : Fin locs.length → Bool) (cx cy : I32) (best : Option (Fin locs.length) × D)
    (i : Fin locs.length) :
    Option (Fin locs.length) × D :=
  if visited i then best
  else
    let d := metric.dist cx cy (locs.get i).x (locs.get i).y
    if d < best.2 then (some i, d) else best

/-- The rounds of the greedy search (`none`: `best.unwrap()` of a round that found nothing). -/
def nearestLoop : Nat → (Fin locs.length → Bool) → I32 → I32 → Option (List (Fin locs.length))
  | 0, _, _, _ => some []
  | rounds + 1, visited, cx, cy =>
    match ((List.finRange locs.length).foldl (closer metric locs visited cx cy) (none, metric.max)).1 with
    | none => none
    | some i =>
      (nearestLoop rounds (Function.update visited i true) (locs.get i).x (locs.get i).y).map fun order => i :: order

/-- From the depot, repeatedly jump to the closest unvisited location. -/
def nearestNeighborRoute : Option (List (Fin locs.length)) :=
  nearestLoop metric locs locs.length (fun _ => false) zero zero

/-- `(locs[a].x, locs[a].y) <= (locs[b].x, locs[b].y)`. -/
def AisleLe (a b : Fin locs.length) : Prop :=
  (locs.get a).x < (locs.get b).x ∨ ((locs.get a).x = (locs.get b).x ∧ (locs.get a).y ≤ (locs.get b).y)

instance : DecidableRel (AisleLe locs) := fun a b => by unfold AisleLe; infer_instance

/-- Sort all locations by aisle then position. -/
def batchRoute : List (Fin locs.length) := (List.finRange locs.length).insertionSort (AisleLe locs)

/-- The indices by aisle, the aisles in ascending order. -/
def byAisle : List (I32 × List (Fin locs.length)) :=
  GroupBy.sortedGroups (fun i => (locs.get i).x) (List.finRange locs.length)

/-- An aisle's members in the order they are visited: even aisles ascend, odd aisles descend. -/
def snake (aisle_idx : Nat) (members : List (Fin locs.length)) : List (Fin locs.length) :=
  let members := members.insertionSort fun a b => (locs.get a).y ≤ (locs.get b).y
  if aisle_idx % 2 = 1 then members.reverse else members

/-- Visit aisles in order, snaking up one aisle and down the next. -/
def sShapeRoute : List (Fin locs.length) := (byAisle locs).zipIdx.flatMap fun g => snake locs g.2 g.1.2

/-- Plan and compare all picker-path strategies for one pick list. -/
def compareRoutes [Zero D] [Add D] : Option (RouteComparison D) :=
  (nearestNeighborRoute metric locs).bind fun nearest =>
    let naive := routeDistance metric locs (naiveRoute locs)
    let nn := routeDistance metric locs nearest
    let batch := routeDistance metric locs (batchRoute locs)
    let s := routeDistance metric locs (sShapeRoute locs)
    (Greedy.firstMin (fun r : String × D => r.2)
      [("naive", naive), ("nearest_neighbor", nn), ("batch", batch), ("s_shape", s)]).map fun best =>
        { naive, nearest_neighbor := nn, batch, s_shape := s, best := best.1 }

end

/-! ## The greedy route -/

section
variable (metric : Metric D) (locs : List BinLocation)

/-- A location's position. -/
def position (i : Fin locs.length) : I32 × I32 := ((locs.get i).x, (locs.get i).y)

/-- The distance from a position to a location. -/
def distTo (p : I32 × I32) (i : Fin locs.length) : D := metric.dist p.1 p.2 (locs.get i).x (locs.get i).y

/-- The best so far, with its distance. -/
def withDist (p : I32 × I32) : Option (Fin locs.length) → Option (Fin locs.length) × D
  | none => (none, metric.max)
  | some i => (some i, distTo metric locs p i)

theorem foldl_closer (visited : Fin locs.length → Bool) (p : I32 × I32) (l : List (Fin locs.length))
    (best : Option (Fin locs.length)) :
    l.foldl (closer metric locs visited p.1 p.2) (withDist metric locs p best) =
      withDist metric locs p ((Greedy.unvisited l visited).foldl (Greedy.better (distTo metric locs p)) best) := by
  refine Greedy.foldl_carry (withDist metric locs p) ?_ ?_ l best
  · intro s i hv
    exact if_pos hv
  · intro best i hv
    rw [closer, if_neg (by simp [hv])]
    cases best with
    | none => exact if_pos (metric.lt_max _ _ _ _)
    | some b =>
      simp only [withDist, Greedy.better_some]
      by_cases hlt : distTo metric locs p i < distTo metric locs p b
      · rw [if_pos hlt]
        exact if_pos hlt
      · rw [if_neg hlt]
        exact if_neg hlt

/-- The rounds are those of a greedy search. -/
theorem nearestLoop_eq (rounds : Nat) (visited : Fin locs.length → Bool) (p : I32 × I32)
    (h : rounds = (Greedy.unvisited (naiveRoute locs) visited).length) :
    nearestLoop metric locs rounds visited p.1 p.2 =
      some (Greedy.visit (distTo metric locs) (position locs) rounds
        (Greedy.unvisited (naiveRoute locs) visited) p) := by
  have hnodup : (naiveRoute locs).Nodup := List.nodup_finRange locs.length
  induction rounds generalizing visited p with
  | zero => rfl
  | succ rounds ih =>
    have hfold := foldl_closer metric locs visited p (naiveRoute locs) none
    have hne : Greedy.unvisited (naiveRoute locs) visited ≠ [] := by
      intro he
      rw [he] at h
      cases h
    obtain ⟨i, hi⟩ := Greedy.exists_firstMin (distTo metric locs p) hne
    have hmem := (Greedy.firstMin_some hi).1
    have hrest := ih (Function.update visited i true) (position locs i) (by
      rw [Greedy.unvisited_update hnodup, List.length_erase_of_mem hmem, ← h]
      rfl)
    rw [Greedy.unvisited_update hnodup] at hrest
    rw [nearestLoop, Greedy.visit, hi]
    unfold Greedy.firstMin at hi
    rw [hi] at hfold
    unfold naiveRoute withDist at hfold
    rw [hfold]
    simp only
    unfold position at hrest
    rw [hrest]
    rfl

theorem nearestNeighborRoute_tour :
    ∃ route, nearestNeighborRoute metric locs = some route ∧
      Greedy.Tour (distTo metric locs) (position locs) (zero, zero) (naiveRoute locs) route := by
  have hun : Greedy.unvisited (naiveRoute locs) (fun _ => false) = naiveRoute locs :=
    List.filter_eq_self.mpr fun _ _ => rfl
  have hlen : (naiveRoute locs).length = locs.length := List.length_finRange
  have hloop := nearestLoop_eq metric locs locs.length (fun _ => false) (zero, zero) (by rw [hun, hlen])
  rw [hun] at hloop
  refine ⟨_, hloop, ?_⟩
  have htour : Greedy.Tour (distTo metric locs) (position locs) (zero, zero) (naiveRoute locs) _ :=
    Greedy.visit_tour _ _
  rwa [hlen] at htour

end

/-! ## The sorted routes -/

section
variable (locs : List BinLocation)

theorem batchRoute_sorted : (batchRoute locs).Pairwise (AisleLe locs) := by
  have htotal : Std.Total (AisleLe locs) := by
    constructor
    intro a b
    unfold AisleLe
    rcases lt_trichotomy (locs.get a).x (locs.get b).x with h | h | h
    · exact .inl (.inl h)
    · rcases le_total (locs.get a).y (locs.get b).y with hy | hy
      · exact .inl (.inr ⟨h, hy⟩)
      · exact .inr (.inr ⟨h.symm, hy⟩)
    · exact .inr (.inl h)
  have htrans : IsTrans (Fin locs.length) (AisleLe locs) := by
    constructor
    intro a b c hab hbc
    unfold AisleLe at hab hbc ⊢
    rcases hab with hab | ⟨hab, hyab⟩
    · rcases hbc with hbc | ⟨hbc, -⟩
      · exact .inl (lt_trans hab hbc)
      · exact .inl (hbc ▸ hab)
    · rcases hbc with hbc | ⟨hbc, hybc⟩
      · exact .inl (hab ▸ hbc)
      · exact .inr ⟨hab.trans hbc, le_trans hyab hybc⟩
  exact List.pairwise_insertionSort (AisleLe locs) _

theorem snake_perm (aisle_idx : Nat) (members : List (Fin locs.length)) :
    (snake locs aisle_idx members).Perm members := by
  have hsort := List.perm_insertionSort (fun a b => (locs.get a).y ≤ (locs.get b).y) members
  unfold snake
  simp only
  split
  · exact (List.reverse_perm _).trans hsort
  · exact hsort

/-- Up one aisle and down the next. -/
theorem snake_sorted (aisle_idx : Nat) (members : List (Fin locs.length)) :
    (aisle_idx % 2 = 0 → (snake locs aisle_idx members).Pairwise fun a b => (locs.get a).y ≤ (locs.get b).y) ∧
    (aisle_idx % 2 = 1 → (snake locs aisle_idx members).Pairwise fun a b => (locs.get b).y ≤ (locs.get a).y) := by
  have htotal : Std.Total fun a b : Fin locs.length => (locs.get a).y ≤ (locs.get b).y := ⟨fun _ _ => le_total _ _⟩
  have htrans : IsTrans (Fin locs.length) fun a b => (locs.get a).y ≤ (locs.get b).y := ⟨fun _ _ _ => le_trans⟩
  have hsort := List.pairwise_insertionSort (fun a b : Fin locs.length => (locs.get a).y ≤ (locs.get b).y) members
  unfold snake
  constructor
  · intro h
    simp only
    rw [if_neg (by omega)]
    exact hsort
  · intro h
    simp only
    rw [if_pos h, List.pairwise_reverse]
    exact hsort

theorem byAisle_groups : GroupBy.Groups (fun i => (locs.get i).x) (naiveRoute locs) (byAisle locs) :=
  GroupBy.sortedGroups_groups _ _

theorem sShapeRoute_perm : (sShapeRoute locs).Perm (naiveRoute locs) := by
  have hgroups : ((byAisle locs).zipIdx.flatMap fun g => g.1.2).Perm (naiveRoute locs) := by
    have := (byAisle_groups locs).flatMap_perm
    rwa [← List.zipIdx_map_fst 0 (byAisle locs), List.flatMap_map] at this
  exact (List.Perm.flatMap_left _ fun g _ => snake_perm locs g.2 g.1.2).trans hgroups

/-- The aisles in ascending order, and what is visited in each. -/
theorem sShapeRoute_aisles : ∃ (aisles : List I32) (visits : List (List (Fin locs.length))),
    sShapeRoute locs = visits.flatten ∧ visits.length = aisles.length ∧ aisles.Pairwise (· < ·) ∧
    (∀ a, a ∈ aisles ↔ ∃ i, (locs.get i).x = a) ∧
    ∀ (k : Nat) a members, aisles[k]? = some a → visits[k]? = some members →
      (∀ i, i ∈ members ↔ (locs.get i).x = a) ∧
      (k % 2 = 0 → members.Pairwise fun i j => (locs.get i).y ≤ (locs.get j).y) ∧
      (k % 2 = 1 → members.Pairwise fun i j => (locs.get j).y ≤ (locs.get i).y) := by
  have hg := byAisle_groups locs
  have hfull : ∀ i, i ∈ naiveRoute locs := List.mem_finRange
  refine ⟨(byAisle locs).map Prod.fst, (byAisle locs).zipIdx.map fun g => snake locs g.2 g.1.2, ?_, ?_, hg.sorted, ?_,
    ?_⟩
  · rw [sShapeRoute, List.flatMap_def]
  · rw [List.length_map, List.length_map, List.length_zipIdx]
  · intro a
    rw [List.mem_map]
    constructor
    · rintro ⟨⟨a, ms⟩, hmem, rfl⟩
      obtain ⟨rfl, hne⟩ := (hg.mem _ _).mp hmem
      obtain ⟨i, hi⟩ := List.exists_mem_of_ne_nil _ hne
      exact ⟨i, of_decide_eq_true (List.mem_filter.mp hi).2⟩
    · rintro ⟨i, rfl⟩
      refine ⟨(_, _), (hg.mem _ _).mpr ⟨rfl, ?_⟩, rfl⟩
      exact List.ne_nil_of_mem (List.mem_filter.mpr ⟨hfull i, decide_eq_true rfl⟩)
  · intro k a members ha hmembers
    rw [List.getElem?_map, Option.map_eq_some_iff] at ha
    obtain ⟨⟨a', ms⟩, hk, rfl⟩ := ha
    rw [List.getElem?_map, List.getElem?_zipIdx, hk] at hmembers
    simp only [Option.map_some, Nat.zero_add, Option.some.injEq] at hmembers
    subst hmembers
    obtain ⟨rfl, -⟩ := (hg.mem _ _).mp (List.mem_of_getElem? hk)
    refine ⟨?_, snake_sorted locs k _⟩
    intro i
    rw [(snake_perm locs k _).mem_iff, List.mem_filter, decide_eq_true_eq]
    exact and_iff_right (hfull i)

end

/-! ## The comparison -/

theorem compareRoutes_some [Zero D] [Add D] (metric : Metric D) (locs : List BinLocation)
    {route : List (Fin locs.length)} (h : nearestNeighborRoute metric locs = some route) :
    ∃ c, compareRoutes metric locs = some c ∧ c.naive = routeDistance metric locs (naiveRoute locs) ∧
      c.nearest_neighbor = routeDistance metric locs route ∧ c.batch = routeDistance metric locs (batchRoute locs) ∧
      c.s_shape = routeDistance metric locs (sShapeRoute locs) ∧
      ∃ d, (c.best, d) ∈ [("naive", c.naive), ("nearest_neighbor", c.nearest_neighbor), ("batch", c.batch),
          ("s_shape", c.s_shape)] ∧
        d ≤ c.naive ∧ d ≤ c.nearest_neighbor ∧ d ≤ c.batch ∧ d ≤ c.s_shape := by
  obtain ⟨best, hbest⟩ := Greedy.exists_firstMin (fun r : String × D => r.2)
    (l := [("naive", routeDistance metric locs (naiveRoute locs)),
      ("nearest_neighbor", routeDistance metric locs route), ("batch", routeDistance metric locs (batchRoute locs)),
      ("s_shape", routeDistance metric locs (sShapeRoute locs))])
    (List.cons_ne_nil _ _)
  obtain ⟨hmem, hleast⟩ := Greedy.firstMin_some hbest
  rw [compareRoutes, h]
  simp only [Option.bind_some]
  rw [hbest]
  refine ⟨_, rfl, rfl, rfl, rfl, rfl, best.2, hmem, ?_⟩
  simpa only [List.forall_mem_cons, List.not_mem_nil, false_implies, implies_true, and_true] using hleast

/-- **Every picking strategy visits every location once**, each in its own order, and the comparison
names a shortest route. -/
theorem picking_routes_valid [Zero D] [Add D] (metric : Metric D) (locs : List BinLocation) :
    (naiveRoute locs).Perm (List.finRange locs.length) ∧
    (batchRoute locs).Perm (List.finRange locs.length) ∧
    (sShapeRoute locs).Perm (List.finRange locs.length) ∧
    (∃ route c, nearestNeighborRoute metric locs = some route ∧ route.Perm (List.finRange locs.length) ∧
      (∀ before i after, route = before ++ i :: after → ∀ j, j ∉ before →
        distTo metric locs (Greedy.stand (position locs) (zero, zero) before) i ≤
          distTo metric locs (Greedy.stand (position locs) (zero, zero) before) j) ∧
      compareRoutes metric locs = some c ∧
      ∃ d, (c.best, d) ∈ [("naive", routeDistance metric locs (naiveRoute locs)),
          ("nearest_neighbor", routeDistance metric locs route), ("batch", routeDistance metric locs (batchRoute locs)),
          ("s_shape", routeDistance metric locs (sShapeRoute locs))] ∧
        d ≤ routeDistance metric locs (naiveRoute locs) ∧ d ≤ routeDistance metric locs route ∧
        d ≤ routeDistance metric locs (batchRoute locs) ∧ d ≤ routeDistance metric locs (sShapeRoute locs)) ∧
    (batchRoute locs).Pairwise (fun i j => (locs.get i).x < (locs.get j).x ∨
      ((locs.get i).x = (locs.get j).x ∧ (locs.get i).y ≤ (locs.get j).y)) ∧
    ∃ (aisles : List I32) (visits : List (List (Fin locs.length))),
      sShapeRoute locs = visits.flatten ∧ visits.length = aisles.length ∧ aisles.Pairwise (· < ·) ∧
      (∀ a, a ∈ aisles ↔ ∃ i, (locs.get i).x = a) ∧
      ∀ (k : Nat) a members, aisles[k]? = some a → visits[k]? = some members →
        (∀ i, i ∈ members ↔ (locs.get i).x = a) ∧
        (k % 2 = 0 → members.Pairwise fun i j => (locs.get i).y ≤ (locs.get j).y) ∧
        (k % 2 = 1 → members.Pairwise fun i j => (locs.get j).y ≤ (locs.get i).y) := by
  obtain ⟨route, hroute, htour⟩ := nearestNeighborRoute_tour metric locs
  obtain ⟨c, hc, h1, h2, h3, h4, hbest⟩ := compareRoutes_some metric locs hroute
  rw [h1, h2, h3, h4] at hbest
  refine ⟨List.Perm.refl _, List.perm_insertionSort _ _, sShapeRoute_perm locs,
    ⟨route, c, hroute, htour.perm, ?_, hc, hbest⟩, batchRoute_sorted locs, sShapeRoute_aisles locs⟩
  rintro before i after rfl j hj
  have hmem : j ∈ before ++ i :: after := htour.perm.mem_iff.mpr (List.mem_finRange j)
  rcases List.mem_append.mp hmem with hb | hmem
  · exact absurd hb hj
  · rcases List.mem_cons.mp hmem with rfl | ha
    · exact le_refl _
    · exact htour.least_at j ha

/-- Walking along the aisles and across them. -/
def walking : Metric Int where
  dist ax ay bx «by» := |ax.1 - bx.1| + |ay.1 - «by».1|
  max := 2 ^ 34
  lt_max := by
    rintro ⟨ax, h1, h2⟩ ⟨ay, h3, h4⟩ ⟨bx, h5, h6⟩ ⟨«by», h7, h8⟩
    have hx : |ax - bx| < 2 ^ 33 := abs_lt.mpr ⟨by omega, by omega⟩
    have hy : |ay - «by»| < 2 ^ 33 := abs_lt.mpr ⟨by omega, by omega⟩
    show |ax - bx| + |ay - «by»| < 2 ^ 34
    omega

example : (compareRoutes walking
      [⟨⟨0⟩, ⟨5, by decide⟩, zero⟩, ⟨⟨1⟩, ⟨-1, by decide⟩, zero⟩, ⟨⟨2⟩, ⟨6, by decide⟩, zero⟩]).map
    RouteComparison.best = some "nearest_neighbor" := by decide +kernel

end Picking

end TptErp
