import TptErp.Lib.ClosedWalk
import TptErp.Ingest
import Mathlib.Algebra.Ring.BooleanRing
import Mathlib.Algebra.Order.Field.Rat
import Mathlib.Tactic.FieldSimp
import Mathlib.Tactic.Linarith
import Mathlib.Tactic.Ring

/-!
# Geofences

A zone of the fleet is a circle or a polygon ring, and two samples of a vehicle's position are a crossing
if the zone contains one of them and not the other.  Coordinates are rational; the great-circle distance
is a parameter, rounded to a rational.

A polygon contains a point if a ray from it crosses an odd number of edges.  So containment is the sum,
modulo two, of the edges around the ring (`pointInPolygon_eq_around`), and rings are added along chords:

    rotate, reverse:   the same
    a vertex on an edge is inserted:   the same
    whole ring = one part ^^ the other                                 (pointInPolygon_cuts)
-/

namespace TptErp

namespace Tms.Geo

open TptErp.Tms.Ingest ClosedWalk

/-! ## Zones and crossings -/

/-- A fleet zone. -/
inductive Geofence
  | circle (center : LatLng ℚ) (radius_m : ℚ)
  | polygon (points : List (LatLng ℚ))

/-- Whether the ray from `p` towards larger longitudes crosses the edge between `a` and `b`. -/
def intersect (p a b : LatLng ℚ) : Bool :=
  (decide (p.lat < a.lat) != decide (p.lat < b.lat)) &&
    decide (p.lng < (b.lng - a.lng) * (p.lat - a.lat) / (b.lat - a.lat) + a.lng)

/-- The loop over the vertices; `b` is the vertex `j`, the one before. -/
def castRay (p b : LatLng ℚ) (inside : Bool) : List (LatLng ℚ) → Bool
  | [] => inside
  | a :: poly => castRay p a (if intersect p a b then !inside else inside) poly

theorem ne_nil_of_three_le {poly : List (LatLng ℚ)} (h : ¬ poly.length < 3) : poly ≠ [] := by
  rintro rfl
  exact h (by decide)

/-- Even-odd rule; a ring of at most two vertices contains nothing. -/
def pointInPolygon (p : LatLng ℚ) (poly : List (LatLng ℚ)) : Bool :=
  if h : poly.length < 3 then false
  else castRay p (poly.getLast (ne_nil_of_three_le h)) false poly

/-- `haversineKm` is the distance on the sphere. -/
def Geofence.contains (haversineKm : LatLng ℚ → LatLng ℚ → ℚ) (fence : Geofence) (point : LatLng ℚ) : Bool :=
  match fence with
  | .circle center radius_m =>
    let km := haversineKm center point
    decide (km * 1000 ≤ radius_m)
  | .polygon points => pointInPolygon point points

/-- An entry or an exit. -/
structure ZoneEvent where
  entered : Bool
  point : LatLng ℚ
deriving DecidableEq

def Geofence.crossing (haversineKm : LatLng ℚ → LatLng ℚ → ℚ) (fence : Geofence) (previous point : LatLng ℚ) :
    Option ZoneEvent :=
  let was_inside := fence.contains haversineKm previous
  let is_inside := fence.contains haversineKm point
  if was_inside = is_inside then none
  else some { entered := is_inside, point }

/-! ## One edge -/

section Edge

variable {p a b v : LatLng ℚ}

/-- Where the line through `a` and `b` is at a latitude. -/
def lngAt (a b : LatLng ℚ) (lat : ℚ) : ℚ := (b.lng - a.lng) * (lat - a.lat) / (b.lat - a.lat) + a.lng

/-- `v` lies on the edge between `a` and `b`, its ends included. -/
def OnEdge (a b v : LatLng ℚ) : Prop :=
  ∃ t : ℚ, 0 ≤ t ∧ t ≤ 1 ∧ v.lat = a.lat + t * (b.lat - a.lat) ∧ v.lng = a.lng + t * (b.lng - a.lng)

theorem OnEdge.symm (h : OnEdge a b v) : OnEdge b a v := by
  obtain ⟨t, ht0, ht1, hlat, hlng⟩ := h
  exact ⟨1 - t, by linarith, by linarith, by rw [hlat]; ring, by rw [hlng]; ring⟩

theorem lngAt_comm (h : a.lat ≠ b.lat) (lat : ℚ) : lngAt a b lat = lngAt b a lat := by
  have h₁ : b.lat - a.lat ≠ 0 := sub_ne_zero.mpr h.symm
  have h₂ : a.lat - b.lat ≠ 0 := sub_ne_zero.mpr h
  unfold lngAt
  field_simp
  ring

/-- The two parts of an edge lie on the line of the whole. -/
theorem lngAt_onEdge (hv : OnEdge a b v) (hav : a.lat ≠ v.lat) (lat : ℚ) : lngAt a v lat = lngAt a b lat := by
  obtain ⟨t, -, -, hlat, hlng⟩ := hv
  have ht : t ≠ 0 := by
    rintro rfl
    exact hav (by rw [hlat]; ring)
  have hab : b.lat - a.lat ≠ 0 := by
    intro h
    exact hav (by rw [hlat, h]; ring)
  have h₁ : v.lat - a.lat = t * (b.lat - a.lat) := by rw [hlat]; ring
  have h₂ : v.lng - a.lng = t * (b.lng - a.lng) := by rw [hlng]; ring
  unfold lngAt
  rw [h₁, h₂]
  field_simp

/-- An edge whose ends are on one side of the ray's latitude is not crossed. -/
theorem intersect_level (h : p.lat < a.lat ↔ p.lat < b.lat) : intersect p a b = false := by
  simp [intersect, h]

/-- One whose ends are on either side is crossed beyond `p`. -/
theorem intersect_across (h : ¬ (p.lat < a.lat ↔ p.lat < b.lat)) :
    intersect p a b = decide (p.lng < lngAt a b p.lat) := by
  have hne : (decide (p.lat < a.lat) != decide (p.lat < b.lat)) = true := by simpa using h
  unfold intersect
  rw [hne, Bool.true_and]
  rfl

theorem lat_ne_of_across (h : ¬ (p.lat < a.lat ↔ p.lat < b.lat)) : a.lat ≠ b.lat := by
  intro heq
  exact h (by rw [heq])

theorem intersect_comm (p a b : LatLng ℚ) : intersect p a b = intersect p b a := by
  by_cases h : p.lat < a.lat ↔ p.lat < b.lat
  · rw [intersect_level h, intersect_level h.symm]
  · have h' : ¬ (p.lat < b.lat ↔ p.lat < a.lat) := fun hba => h hba.symm
    rw [intersect_across h, intersect_across h', lngAt_comm (lat_ne_of_across h)]

/-- Between two ends on one side there is nothing on the other. -/
theorem OnEdge.level (hv : OnEdge a b v) (h : p.lat < a.lat ↔ p.lat < b.lat) : p.lat < a.lat ↔ p.lat < v.lat := by
  obtain ⟨t, ht0, ht1, hlat, -⟩ := hv
  have hmid : v.lat = (1 - t) * a.lat + t * b.lat := by rw [hlat]; ring
  constructor
  · intro ha
    have hb := h.mp ha
    rcases eq_or_lt_of_le ht0 with rfl | ht
    · linarith
    · nlinarith
  · intro hpv
    by_contra ha
    have hb : ¬ p.lat < b.lat := fun hb => ha (h.mpr hb)
    nlinarith

theorem intersect_onEdge (p : LatLng ℚ) (hv : OnEdge a b v) :
    intersect p a b = (intersect p a v ^^ intersect p v b) := by
  by_cases hab : p.lat < a.lat ↔ p.lat < b.lat
  · have hav := hv.level hab
    rw [intersect_level hab, intersect_level hav, intersect_level (hav.symm.trans hab)]
    rfl
  · by_cases hav : p.lat < a.lat ↔ p.lat < v.lat
    · -- `v` is on the side of `a`, and the crossing is between `v` and `b`
      have hvb : ¬ (p.lat < b.lat ↔ p.lat < v.lat) := fun h => hab (hav.trans h.symm)
      rw [intersect_level hav, Bool.false_xor, intersect_comm p a, intersect_comm p v,
        intersect_across (fun h => hab h.symm), intersect_across hvb, lngAt_onEdge hv.symm (lat_ne_of_across hvb)]
    · have hvb : p.lat < v.lat ↔ p.lat < b.lat := by tauto
      rw [intersect_level hvb, Bool.xor_false, intersect_across hab, intersect_across hav,
        lngAt_onEdge hv (lat_ne_of_across hav)]

end Edge

/-! ## The ring -/

theorem intersect_cancels (p a b : LatLng ℚ) : intersect p a b + intersect p b a = 0 := by
  rw [intersect_comm p b a]
  exact Bool.xor_self _

theorem castRay_eq_along (p b : LatLng ℚ) (inside : Bool) (poly : List (LatLng ℚ)) :
    castRay p b inside poly = inside + along (intersect p) b poly := by
  induction poly generalizing b inside with
  | nil => exact (add_zero inside).symm
  | cons a poly ih =>
    have hflip : (if intersect p a b then !inside else inside) = inside + intersect p b a := by
      rw [intersect_comm p b a, Bool.add_eq_xor]
      cases intersect p a b <;> cases inside <;> rfl
    rw [castRay, ih, hflip, along_cons, add_assoc]

/-- A ring of at most two vertices would be even anyway. -/
theorem pointInPolygon_eq_around (p : LatLng ℚ) (poly : List (LatLng ℚ)) :
    pointInPolygon p poly = around (intersect p) poly := by
  match poly with
  | [] => rfl
  | [a] => exact (intersect_level Iff.rfl).symm.trans (add_zero (intersect p a a)).symm
  | [a, b] =>
    calc pointInPolygon p [a, b] = 0 := rfl
      _ = intersect p a b + intersect p b a := (intersect_cancels p a b).symm
      _ = around (intersect p) [a, b] := by simp [around_cons]
  | a :: b :: c :: poly =>
    have h : ¬ (a :: b :: c :: poly).length < 3 := by simp
    calc pointInPolygon p (a :: b :: c :: poly)
        = castRay p ((a :: b :: c :: poly).getLast (ne_nil_of_three_le h)) false (a :: b :: c :: poly) := dif_neg h
      _ = along (intersect p) ((a :: b :: c :: poly).getLast (ne_nil_of_three_le h)) (a :: b :: c :: poly) := by
          rw [castRay_eq_along]
          exact zero_add _
      _ = along (intersect p) a (b :: c :: poly) +
            intersect p ((a :: b :: c :: poly).getLast (ne_nil_of_three_le h)) a := by
          rw [along_cons, add_comm]
      _ = around (intersect p) (a :: b :: c :: poly) := along_concat.symm

/-- Rotated, reversed, with a vertex `v` put into an edge, and along a chord.  The edge runs from `a` to `b`, the
last and the first vertex of the rest of the ring as it is read from `v`. -/
theorem pointInPolygon_cuts (p : LatLng ℚ) :
    (∀ poly n, pointInPolygon p (poly.rotate n) = pointInPolygon p poly) ∧
      (∀ poly, pointInPolygon p poly.reverse = pointInPolygon p poly) ∧
      (∀ before after a b v, a ∈ (after ++ before).getLast? → b ∈ (after ++ before).head? → OnEdge a b v →
        pointInPolygon p (before ++ v :: after) = pointInPolygon p (before ++ after)) ∧
      ∀ before middle after a b, pointInPolygon p (before ++ a :: middle ++ b :: after) =
        (pointInPolygon p (a :: middle ++ [b]) ^^ pointInPolygon p (before ++ a :: b :: after)) := by
  simp only [pointInPolygon_eq_around]
  refine ⟨around_rotate _, ?reversed, ?inserted, around_cut (intersect_cancels p)⟩
  case reversed =>
    intro poly
    rw [around_reverse]
    congr 1
    funext a b
    exact intersect_comm p b a
  case inserted =>
    intro before after a b v ha hb hv
    exact around_insert before after ha hb (intersect_onEdge p hv)

/-- The unit square, and its halves along a diagonal. -/
example :
    (pointInPolygon ⟨1 / 4, 1 / 2⟩ [⟨0, 0⟩, ⟨0, 1⟩, ⟨1, 1⟩, ⟨1, 0⟩],
      pointInPolygon ⟨1 / 4, 1 / 2⟩ [⟨0, 0⟩, ⟨0, 1⟩, ⟨1, 1⟩],
      pointInPolygon ⟨1 / 4, 1 / 2⟩ [⟨0, 0⟩, ⟨1, 1⟩, ⟨1, 0⟩]) = (true, true, false) := by
  decide +kernel

/-- Modulo two, the triangles of a fan that contain the point. -/
theorem pointInPolygon_fan (p o a : LatLng ℚ) (poly : List (LatLng ℚ)) :
    pointInPolygon p (o :: a :: poly) = along (fun b c => pointInPolygon p [o, b, c]) a poly := by
  simp only [pointInPolygon_eq_around]
  exact around_fan (intersect_cancels p) o a poly

/-- What contains nothing in a ring of two, agrees on triangles and adds along chords agrees on every ring. -/
theorem pointInPolygon_unique (p : LatLng ℚ) (inside : List (LatLng ℚ) → Bool)
    (hshort : ∀ poly, poly.length < 3 → inside poly = false)
    (htriangle : ∀ a b c, inside [a, b, c] = pointInPolygon p [a, b, c])
    (hcut : ∀ before middle after a b,
      inside (before ++ a :: middle ++ b :: after) =
        (inside (a :: middle ++ [b]) ^^ inside (before ++ a :: b :: after)))
    (poly : List (LatLng ℚ)) : inside poly = pointInPolygon p poly := by
  match poly with
  | [] => exact hshort [] (by decide)
  | [a] => exact hshort [a] (by simp)
  | a :: b :: poly =>
    induction poly generalizing b with
    | nil => exact hshort [a, b] (by simp)
    | cons c poly ih =>
      calc inside (a :: b :: c :: poly) = (inside [a, b, c] ^^ inside (a :: c :: poly)) := hcut [] [b] poly a c
        _ = (pointInPolygon p [a, b, c] ^^ pointInPolygon p (a :: c :: poly)) := by rw [htriangle, ih]
        _ = pointInPolygon p (a :: b :: c :: poly) := by
            simp only [pointInPolygon_eq_around]
            exact (around_cut (intersect_cancels p) [] [b] poly a c).symm

/-! ## Crossings -/

theorem crossing_isSome (haversineKm : LatLng ℚ → LatLng ℚ → ℚ) (fence : Geofence) (previous point : LatLng ℚ) :
    (fence.crossing haversineKm previous point).isSome =
      (fence.contains haversineKm previous ^^ fence.contains haversineKm point) := by
  unfold Geofence.crossing
  cases fence.contains haversineKm previous <;> cases fence.contains haversineKm point <;> rfl

/-- A zone cut in two is crossed when one of the parts is and the other is not. -/
theorem crossing_cut (haversineKm : LatLng ℚ → LatLng ℚ → ℚ) (before middle after : List (LatLng ℚ))
    (a b previous point : LatLng ℚ) :
    ((Geofence.polygon (before ++ a :: middle ++ b :: after)).crossing haversineKm previous point).isSome =
      (((Geofence.polygon (a :: middle ++ [b])).crossing haversineKm previous point).isSome ^^
        ((Geofence.polygon (before ++ a :: b :: after)).crossing haversineKm previous point).isSome) := by
  simp only [crossing_isSome, Geofence.contains, pointInPolygon_eq_around,
    around_cut (intersect_cancels previous) before, around_cut (intersect_cancels point) before]
  exact add_add_add_comm _ _ _ _

end Tms.Geo

end TptErp
