import TptErp.Tms.Geo
import Mathlib.Algebra.Order.Field.Basic
import Mathlib.Data.List.Count
import Mathlib.Tactic.LinearCombination

/-!
# What a polygon contains

The ray of `point_in_polygon` runs towards larger longitudes.  Off the sides of a triangle its count says
whether the point is in the interior, which has nothing to do with a ray:

    pointInPolygon p [a, b, c] = true ↔ p ∈ interior of a b c                  (pointInPolygon_triangle)

A ring is the fan of its triangles from the first vertex, so it contains the points that are in the interior
of an odd number of them (`contains_odd`), and containment is the same in all affine coordinates
(`contains_affine`).
-/

namespace TptErp

namespace Tms.Geo

open TptErp.Tms.Ingest ClosedWalk

/-! ## Sides -/

/-- Twice the area of `a b p`, negative when `p` is on the other side of the edge. -/
def side (a b p : LatLng ℚ) : ℚ := (b.lng - a.lng) * (p.lat - a.lat) - (b.lat - a.lat) * (p.lng - a.lng)

/-- Not on the edge, its ends included. -/
def OffEdge (p a b : LatLng ℚ) : Prop := ¬ OnEdge a b p

section Triangle

variable {p a b c : LatLng ℚ}

theorem side_swap (a b p : LatLng ℚ) : side b a p = -side a b p := by
  unfold side
  ring

theorem side_sum (a b c p : LatLng ℚ) : side a b p + side b c p + side c a p = side a b c := by
  unfold side
  ring

/-- The sides of `p` are the weights of the opposite corners. -/
theorem side_lat (a b c p : LatLng ℚ) :
    side b c p * (a.lat - p.lat) + side c a p * (b.lat - p.lat) + side a b p * (c.lat - p.lat) = 0 := by
  unfold side
  ring

theorem side_lng (a b c p : LatLng ℚ) :
    side b c p * (a.lng - p.lng) + side c a p * (b.lng - p.lng) + side a b p * (c.lng - p.lng) = 0 := by
  unfold side
  ring

theorem OffEdge.symm (h : OffEdge p a b) : OffEdge p b a := fun hon => h hon.symm

/-- An edge up across the ray's latitude is crossed when the point is on its positive side. -/
theorem intersect_up (ha : ¬ p.lat < a.lat) (hb : p.lat < b.lat) : intersect p a b = decide (0 < side a b p) := by
  have hup : 0 < b.lat - a.lat := by linarith
  rw [intersect_across (by simp [ha, hb])]
  apply decide_eq_decide.mpr
  unfold lngAt side
  rw [← sub_lt_iff_lt_add, lt_div_iff₀ hup, sub_pos, mul_comm (p.lng - a.lng)]

theorem intersect_down (ha : p.lat < a.lat) (hb : ¬ p.lat < b.lat) : intersect p a b = decide (side a b p < 0) := by
  rw [intersect_comm, intersect_up hb ha, side_swap]
  exact decide_eq_decide.mpr neg_pos

/-- On the line of an edge, between the latitudes of its ends, a point is on the edge. -/
theorem onEdge_of_side (hside : side a b p = 0) (hne : a.lat ≠ b.lat)
    (hbetween : (p.lat - a.lat) * (b.lat - p.lat) ≥ 0) : OnEdge a b p := by
  have hd : b.lat - a.lat ≠ 0 := sub_ne_zero.mpr (Ne.symm hne)
  have hsq : 0 < (b.lat - a.lat) ^ 2 := by positivity
  have ht : (p.lat - a.lat) / (b.lat - a.lat) = (p.lat - a.lat) * (b.lat - a.lat) / (b.lat - a.lat) ^ 2 := by
    field_simp
  refine ⟨(p.lat - a.lat) / (b.lat - a.lat), ?_, ?_, ?_, ?_⟩
  · rw [ht]
    apply div_nonneg _ hsq.le
    nlinarith [sq_nonneg (p.lat - a.lat)]
  · rw [ht, div_le_one₀ hsq]
    nlinarith [sq_nonneg (b.lat - p.lat)]
  · field_simp
    ring
  · unfold side at hside
    field_simp
    linarith

theorem offEdge_of_side (h : side a b p ≠ 0) : OffEdge p a b := by
  rintro ⟨t, -, -, hlat, hlng⟩
  apply h
  unfold side
  rw [hlat, hlng]
  ring

/-- On a level edge. -/
theorem onEdge_of_level (ha : a.lat = p.lat) (hb : b.lat = p.lat) (hap : a.lng ≤ p.lng) (hpb : p.lng ≤ b.lng) :
    OnEdge a b p := by
  rcases eq_or_lt_of_le (hap.trans hpb) with heq | hlt
  · refine ⟨0, le_rfl, zero_le_one, by rw [ha, hb]; ring, ?_⟩
    have : p.lng = a.lng := by linarith
    rw [this]
    ring
  · have hd : b.lng - a.lng ≠ 0 := by linarith
    refine ⟨(p.lng - a.lng) / (b.lng - a.lng), ?_, ?_, by rw [ha, hb]; ring, by field_simp; ring⟩
    · exact div_nonneg (by linarith) (by linarith)
    · rw [div_le_one₀ (by linarith)]
      linarith

/-- Where an edge meets the ray's latitude, a point off the edge is on one of its sides. -/
theorem side_ne_zero (hoff : OffEdge p a b) (hne : a.lat ≠ b.lat) (hbetween : (p.lat - a.lat) * (b.lat - p.lat) ≥ 0) :
    side a b p ≠ 0 :=
  fun h => hoff (onEdge_of_side h hne hbetween)

/-! ## Triangles -/

/-- Strictly on the same side of all three edges. -/
def SameSide (p a b c : LatLng ℚ) : Prop :=
  (0 < side a b p ∧ 0 < side b c p ∧ 0 < side c a p) ∨ (side a b p < 0 ∧ side b c p < 0 ∧ side c a p < 0)

theorem sameSide_rotate : SameSide p b c a ↔ SameSide p a b c := by
  unfold SameSide
  tauto

theorem pointInPolygon_three (p a b c : LatLng ℚ) :
    pointInPolygon p [a, b, c] = (intersect p a b ^^ (intersect p b c ^^ intersect p c a)) := by
  rw [pointInPolygon_eq_around]
  show intersect p a b + (intersect p b c + (intersect p c a + 0)) = _
  rw [add_zero]
  rfl

theorem pointInPolygon_rotate_three (p a b c : LatLng ℚ) : pointInPolygon p [b, c, a] = pointInPolygon p [a, b, c] := by
  rw [pointInPolygon_three, pointInPolygon_three, Bool.xor_comm (intersect p a b), Bool.xor_assoc]

/-- No corner above the ray, or all. -/
theorem not_sameSide_of_level (hb : p.lat < a.lat ↔ p.lat < b.lat) (hc : p.lat < a.lat ↔ p.lat < c.lat) :
    ¬ SameSide p a b c := by
  have hbary := side_lat a b c p
  by_cases ha : p.lat < a.lat
  · have hb := hb.mp ha
    have hc := hc.mp ha
    rintro (⟨hw, hu, hv⟩ | ⟨hw, hu, hv⟩)
    · nlinarith [mul_pos hu (sub_pos.mpr ha), mul_pos hv (sub_pos.mpr hb), mul_pos hw (sub_pos.mpr hc)]
    · nlinarith [mul_neg_of_neg_of_pos hu (sub_pos.mpr ha), mul_neg_of_neg_of_pos hv (sub_pos.mpr hb),
        mul_neg_of_neg_of_pos hw (sub_pos.mpr hc)]
  · have hb := le_of_not_gt (hb.not.mp ha)
    have hc := le_of_not_gt (hc.not.mp ha)
    have ha := le_of_not_gt ha
    -- the weighted heights add up to zero, so all three corners are at the height of the point
    intro h
    have hflat : a.lat = p.lat ∧ b.lat = p.lat := by
      rcases h with ⟨hw, hu, hv⟩ | ⟨hw, hu, hv⟩
      · constructor <;> nlinarith [mul_nonneg hu.le (sub_nonneg.mpr ha), mul_nonneg hv.le (sub_nonneg.mpr hb),
          mul_nonneg hw.le (sub_nonneg.mpr hc)]
      · constructor <;> nlinarith [mul_nonneg (neg_pos.mpr hu).le (sub_nonneg.mpr ha),
          mul_nonneg (neg_pos.mpr hv).le (sub_nonneg.mpr hb), mul_nonneg (neg_pos.mpr hw).le (sub_nonneg.mpr hc)]
    have hzero : side a b p = 0 := by
      unfold side
      rw [hflat.1, hflat.2]
      ring
    rcases h with ⟨hw, -⟩ | ⟨hw, -⟩
    · exact absurd hzero hw.ne'
    · exact absurd hzero hw.ne

/-- Only the corner `a` above the ray: two sides are those of the crossed edges, the third follows. -/
theorem sameSide_of_one_above (ha : p.lat < a.lat) (hb : b.lat ≤ p.lat) (hc : c.lat ≤ p.lat) (hbc : OffEdge p b c)
    (hw : side a b p ≠ 0) (hv : side c a p ≠ 0) : SameSide p a b c ↔ (side a b p < 0 ↔ side c a p < 0) := by
  have hbary := side_lat a b c p
  unfold SameSide
  rcases lt_or_gt_of_ne hw with hw | hw <;> rcases lt_or_gt_of_ne hv with hv | hv
  · refine iff_of_true (Or.inr ⟨hw, ?_, hv⟩) (iff_of_true hw hv)
    by_contra hu
    have hu := le_of_not_gt hu
    have hflat : b.lat = p.lat ∧ c.lat = p.lat := by
      constructor <;> nlinarith [mul_nonneg hu (sub_pos.mpr ha).le, mul_nonneg (neg_pos.mpr hv).le (sub_nonneg.mpr hb),
        mul_nonneg (neg_pos.mpr hw).le (sub_nonneg.mpr hc)]
    refine hbc (onEdge_of_level hflat.2 hflat.1 ?_ ?_).symm
    · unfold side at hv
      rw [hflat.2] at hv
      nlinarith
    · unfold side at hw
      rw [hflat.1] at hw
      nlinarith
  · exact iff_of_false (by rintro (⟨h, -, -⟩ | ⟨-, -, h⟩) <;> linarith)
      fun h => absurd (h.mp hw) (lt_asymm hv)
  · exact iff_of_false (by rintro (⟨-, -, h⟩ | ⟨h, -, -⟩) <;> linarith)
      fun h => absurd (h.mpr hv) (lt_asymm hw)
  · refine iff_of_true (Or.inl ⟨hw, ?_, hv⟩) (iff_of_false (lt_asymm hw) (lt_asymm hv))
    by_contra hu
    have hu := le_of_not_gt hu
    have hflat : b.lat = p.lat ∧ c.lat = p.lat := by
      constructor <;> nlinarith [mul_nonneg (neg_nonneg.mpr hu) (sub_pos.mpr ha).le,
        mul_nonneg hv.le (sub_nonneg.mpr hb), mul_nonneg hw.le (sub_nonneg.mpr hc)]
    refine hbc (onEdge_of_level hflat.1 hflat.2 ?_ ?_)
    · unfold side at hw
      rw [hflat.1] at hw
      nlinarith
    · unfold side at hv
      rw [hflat.2] at hv
      nlinarith

/-- Only the corner `a` not above the ray. -/
theorem sameSide_of_two_above (ha : a.lat ≤ p.lat) (hb : p.lat < b.lat) (hc : p.lat < c.lat)
    (hw : side a b p ≠ 0) (hv : side c a p ≠ 0) : SameSide p a b c ↔ (side a b p < 0 ↔ side c a p < 0) := by
  have hbary := side_lat a b c p
  unfold SameSide
  rcases lt_or_gt_of_ne hw with hw | hw <;> rcases lt_or_gt_of_ne hv with hv | hv
  · refine iff_of_true (Or.inr ⟨hw, ?_, hv⟩) (iff_of_true hw hv)
    by_contra hu
    nlinarith [mul_nonneg (le_of_not_gt hu) (sub_nonneg.mpr ha), mul_pos (neg_pos.mpr hv) (sub_pos.mpr hb),
      mul_pos (neg_pos.mpr hw) (sub_pos.mpr hc)]
  · exact iff_of_false (by rintro (⟨h, -, -⟩ | ⟨-, -, h⟩) <;> linarith)
      fun h => absurd (h.mp hw) (lt_asymm hv)
  · exact iff_of_false (by rintro (⟨-, -, h⟩ | ⟨h, -, -⟩) <;> linarith)
      fun h => absurd (h.mpr hv) (lt_asymm hw)
  · refine iff_of_true (Or.inl ⟨hw, ?_, hv⟩) (iff_of_false (lt_asymm hw) (lt_asymm hv))
    by_contra hu
    nlinarith [mul_nonneg (neg_nonneg.mpr (le_of_not_gt hu)) (sub_nonneg.mpr ha), mul_pos hv (sub_pos.mpr hb),
      mul_pos hw (sub_pos.mpr hc)]

/-- The corner `a` is alone on its side of the ray. -/
theorem pointInPolygon_of_lone (hab : ¬ (p.lat < a.lat ↔ p.lat < b.lat)) (hbc : p.lat < b.lat ↔ p.lat < c.lat)
    (hoab : OffEdge p a b) (hobc : OffEdge p b c) (hoca : OffEdge p c a) :
    pointInPolygon p [a, b, c] = true ↔ SameSide p a b c := by
  have hca : ¬ (p.lat < c.lat ↔ p.lat < a.lat) := fun h => hab (h.symm.trans hbc.symm)
  rw [pointInPolygon_three, intersect_level hbc, Bool.false_xor]
  by_cases ha : p.lat < a.lat
  · have hb : ¬ p.lat < b.lat := fun hb => hab (iff_of_true ha hb)
    have hc : ¬ p.lat < c.lat := fun hc => hca (iff_of_true hc ha)
    have hw := side_ne_zero hoab (lat_ne_of_across hab) (by nlinarith)
    have hv := side_ne_zero hoca (lat_ne_of_across hca) (by nlinarith)
    rw [sameSide_of_one_above ha (le_of_not_gt hb) (le_of_not_gt hc) hobc hw hv, intersect_down ha hb,
      intersect_up hc ha]
    rcases lt_or_gt_of_ne hv with hv | hv <;> simp [hv, hv.le, not_lt_of_ge]
  · have hb : p.lat < b.lat := by tauto
    have hc : p.lat < c.lat := hbc.mp hb
    have hw := side_ne_zero hoab (lat_ne_of_across hab) (by nlinarith)
    have hv := side_ne_zero hoca (lat_ne_of_across hca) (by nlinarith)
    rw [sameSide_of_two_above (le_of_not_gt ha) hb hc hw hv, intersect_up ha hb, intersect_down hc ha]
    rcases lt_or_gt_of_ne hw with hw | hw <;> simp [hw, hw.le, not_lt_of_ge]

theorem pointInPolygon_sameSide (hab : OffEdge p a b) (hbc : OffEdge p b c) (hca : OffEdge p c a) :
    pointInPolygon p [a, b, c] = true ↔ SameSide p a b c := by
  by_cases hlab : p.lat < a.lat ↔ p.lat < b.lat
  · by_cases hlac : p.lat < a.lat ↔ p.lat < c.lat
    · refine iff_of_false ?_ (not_sameSide_of_level hlab hlac)
      rw [pointInPolygon_three, intersect_level hlab, intersect_level (hlab.symm.trans hlac),
        intersect_level hlac.symm]
      decide
    · rw [pointInPolygon_rotate_three p c a b]
      exact (pointInPolygon_of_lone (fun h => hlac h.symm) hlab hca hab hbc).trans sameSide_rotate.symm
  · by_cases hlac : p.lat < a.lat ↔ p.lat < c.lat
    · rw [← pointInPolygon_rotate_three p a b c]
      exact (pointInPolygon_of_lone (fun h => hlab (hlac.trans h.symm)) hlac.symm hbc hca hab).trans sameSide_rotate
    · exact pointInPolygon_of_lone hlab (by tauto) hab hbc hca

/-- A positive mean of the corners of a triangle that is not flat. -/
def Interior (p a b c : LatLng ℚ) : Prop :=
  side a b c ≠ 0 ∧ ∃ x y z : ℚ, 0 < x ∧ 0 < y ∧ 0 < z ∧ x + y + z = 1 ∧
    p.lat = x * a.lat + y * b.lat + z * c.lat ∧ p.lng = x * a.lng + y * b.lng + z * c.lng

theorem interior_iff_sameSide : Interior p a b c ↔ SameSide p a b c := by
  constructor
  · rintro ⟨harea, x, y, z, hx, hy, hz, hsum, hlat, hlng⟩
    obtain rfl : z = 1 - x - y := by linarith
    have hw : side a b p = (1 - x - y) * side a b c := by unfold side; rw [hlat, hlng]; ring
    have hu : side b c p = x * side a b c := by unfold side; rw [hlat, hlng]; ring
    have hv : side c a p = y * side a b c := by unfold side; rw [hlat, hlng]; ring
    unfold SameSide
    rw [hw, hu, hv]
    rcases lt_or_gt_of_ne harea with h | h
    · exact Or.inr ⟨mul_neg_of_pos_of_neg hz h, mul_neg_of_pos_of_neg hx h, mul_neg_of_pos_of_neg hy h⟩
    · exact Or.inl ⟨mul_pos hz h, mul_pos hx h, mul_pos hy h⟩
  · intro h
    have hsum := side_sum a b c p
    have hlat := side_lat a b c p
    have hlng := side_lng a b c p
    have harea : side a b c ≠ 0 := by
      rcases h with ⟨hw, hu, hv⟩ | ⟨hw, hu, hv⟩
      · exact (by linarith : 0 < side a b c).ne'
      · exact (by linarith : side a b c < 0).ne
    have hpos : ∀ s, (0 < s ∧ 0 < side a b c) ∨ (s < 0 ∧ side a b c < 0) → 0 < s / side a b c := by
      rintro s (⟨hs, hc⟩ | ⟨hs, hc⟩)
      · exact div_pos hs hc
      · exact div_pos_of_neg_of_neg hs hc
    refine ⟨harea, side b c p / side a b c, side c a p / side a b c, side a b p / side a b c, ?_, ?_, ?_, ?_, ?_, ?_⟩
    · apply hpos
      rcases h with ⟨hw, hu, hv⟩ | ⟨hw, hu, hv⟩
      · exact Or.inl ⟨hu, by linarith⟩
      · exact Or.inr ⟨hu, by linarith⟩
    · apply hpos
      rcases h with ⟨hw, hu, hv⟩ | ⟨hw, hu, hv⟩
      · exact Or.inl ⟨hv, by linarith⟩
      · exact Or.inr ⟨hv, by linarith⟩
    · apply hpos
      rcases h with ⟨hw, hu, hv⟩ | ⟨hw, hu, hv⟩
      · exact Or.inl ⟨hw, by linarith⟩
      · exact Or.inr ⟨hw, by linarith⟩
    · field_simp
      linarith
    · field_simp
      linear_combination (-p.lat) * hsum - hlat
    · field_simp
      linear_combination (-p.lng) * hsum - hlng

instance (p a b c : LatLng ℚ) : Decidable (SameSide p a b c) := inferInstanceAs (Decidable (_ ∨ _))

instance (p a b c : LatLng ℚ) : Decidable (Interior p a b c) := decidable_of_iff _ interior_iff_sameSide.symm

/-- **A triangle** contains, of the points off its edges, those in its interior. -/
theorem pointInPolygon_triangle (hab : OffEdge p a b) (hbc : OffEdge p b c) (hca : OffEdge p c a) :
    pointInPolygon p [a, b, c] = decide (Interior p a b c) := by
  rw [Bool.eq_iff_iff, pointInPolygon_sameSide hab hbc hca, decide_eq_true_iff, interior_iff_sameSide]

end Triangle

/-! ## Rings -/

/-- The point is on no side of a triangle of the fan from `o` over the walk through `l`. -/
structure OffFan (p o : LatLng ℚ) (l : List (LatLng ℚ)) : Prop where
  spokes : ∀ a ∈ l, OffEdge p o a
  rim : ∀ e ∈ l.zip l.tail, OffEdge p e.1 e.2

theorem OffFan.tail {p o a : LatLng ℚ} {l : List (LatLng ℚ)} (h : OffFan p o (a :: l)) : OffFan p o l := by
  refine ⟨fun b hb => h.spokes b (List.mem_cons_of_mem _ hb), fun e he => h.rim e ?_⟩
  cases l with
  | nil => exact absurd he (by simp)
  | cons b l => exact List.mem_cons_of_mem _ he

theorem offFan_of_side {p o : LatLng ℚ} {l : List (LatLng ℚ)} (hspokes : ∀ a ∈ l, side o a p ≠ 0)
    (hrim : ∀ e ∈ l.zip l.tail, side e.1 e.2 p ≠ 0) : OffFan p o l :=
  ⟨fun a ha => offEdge_of_side (hspokes a ha), fun e he => offEdge_of_side (hrim e he)⟩

theorem count_parity (inside : Bool) (n : Nat) :
    (inside ^^ decide (Odd n)) = decide (Odd (n + if inside then 1 else 0)) := by
  cases inside with
  | false => simp
  | true =>
    rw [Bool.true_xor, ← decide_not, if_pos rfl]
    exact decide_eq_decide.mpr Nat.odd_add_one.symm

/-- **A ring** contains, of the points that are on no side of a triangle of its fan, those in the interior of an
odd number of these triangles. -/
theorem contains_odd (p o : LatLng ℚ) (l : List (LatLng ℚ)) (h : OffFan p o l) :
    pointInPolygon p (o :: l) = decide (Odd ((l.zip l.tail).countP fun e => Interior p o e.1 e.2)) := by
  induction l with
  | nil => rfl
  | cons a l ih =>
    cases l with
    | nil => rfl
    | cons b l =>
      have hrim := h.rim (a, b) List.mem_cons_self
      have hspoke := h.spokes b (List.mem_cons_of_mem _ List.mem_cons_self)
      have htriangle := pointInPolygon_triangle (h.spokes a List.mem_cons_self) hrim hspoke.symm
      calc pointInPolygon p (o :: a :: b :: l)
          = (pointInPolygon p [o, a, b] ^^ pointInPolygon p (o :: b :: l)) := by
            simp only [pointInPolygon_eq_around]
            exact around_cut (intersect_cancels p) [] [a] l o b
        _ = (decide (Interior p o a b) ^^
              decide (Odd (((b :: l).zip l).countP fun e => Interior p o e.1 e.2))) := by
            rw [htriangle, ih h.tail]
            rfl
        _ = decide (Odd (((a, b) :: (b :: l).zip l).countP fun e => Interior p o e.1 e.2)) := by
            rw [count_parity, List.countP_cons]


/-- A pentagram, from the second corner on. -/
def star : List (LatLng ℚ) := [⟨2, 6⟩, ⟨4, 0⟩, ⟨-1, 4⟩, ⟨5, 4⟩]

/-- Its middle is in two of the three triangles, and so not inside. -/
theorem contains_odd_star :
    pointInPolygon ⟨2, 3⟩ (⟨0, 0⟩ :: star) =
      decide (Odd ((star.zip star.tail).countP fun e => Interior ⟨2, 3⟩ ⟨0, 0⟩ e.1 e.2)) :=
  contains_odd ⟨2, 3⟩ ⟨0, 0⟩ star (offFan_of_side (by decide +kernel) (by decide +kernel))

/-! ## Coordinates -/

/-- An invertible affine change of coordinates: other units, an exchange of the axes, a rotation. -/
structure Affine where
  latLat : ℚ
  latLng : ℚ
  lngLat : ℚ
  lngLng : ℚ
  lat : ℚ
  lng : ℚ
  invertible : latLat * lngLng - latLng * lngLat ≠ 0

def Affine.apply (m : Affine) (p : LatLng ℚ) : LatLng ℚ :=
  { lat := m.latLat * p.lat + m.latLng * p.lng + m.lat, lng := m.lngLat * p.lat + m.lngLng * p.lng + m.lng }

namespace Affine

variable (m : Affine) (p a b c : LatLng ℚ)

theorem side_apply :
    side (m.apply a) (m.apply b) (m.apply p) = (m.latLat * m.lngLng - m.latLng * m.lngLat) * side a b p := by
  unfold side apply
  ring

/-- Only zero is mapped to zero by the linear part. -/
theorem eq_zero_of_linear {x y : ℚ} (hlat : m.latLat * x + m.latLng * y = 0) (hlng : m.lngLat * x + m.lngLng * y = 0) :
    x = 0 ∧ y = 0 := by
  have hx : (m.latLat * m.lngLng - m.latLng * m.lngLat) * x = 0 := by
    linear_combination m.lngLng * hlat - m.latLng * hlng
  have hy : (m.latLat * m.lngLng - m.latLng * m.lngLat) * y = 0 := by
    linear_combination m.latLat * hlng - m.lngLat * hlat
  exact ⟨(mul_eq_zero.mp hx).resolve_left m.invertible, (mul_eq_zero.mp hy).resolve_left m.invertible⟩

theorem onEdge_apply : OnEdge (m.apply a) (m.apply b) (m.apply p) ↔ OnEdge a b p := by
  constructor
  · rintro ⟨t, ht0, ht1, hlat, hlng⟩
    unfold apply at hlat hlng
    dsimp only at hlat hlng
    obtain ⟨hx, hy⟩ := m.eq_zero_of_linear (x := p.lat - a.lat - t * (b.lat - a.lat))
      (y := p.lng - a.lng - t * (b.lng - a.lng)) (by linear_combination hlat) (by linear_combination hlng)
    exact ⟨t, ht0, ht1, by linarith, by linarith⟩
  · rintro ⟨t, ht0, ht1, hlat, hlng⟩
    refine ⟨t, ht0, ht1, ?_, ?_⟩
    · unfold apply
      rw [hlat, hlng]
      ring
    · unfold apply
      rw [hlat, hlng]
      ring

theorem sameSide_apply : SameSide (m.apply p) (m.apply a) (m.apply b) (m.apply c) ↔ SameSide p a b c := by
  unfold SameSide
  rw [side_apply, side_apply, side_apply]
  rcases lt_or_gt_of_ne m.invertible with hdet | hdet
  · -- a reflection exchanges the two sides
    simp only [mul_pos_iff, mul_neg_iff, hdet, lt_asymm hdet, true_and, false_and, false_or]
    exact or_comm
  · simp only [mul_pos_iff, mul_neg_iff, hdet, lt_asymm hdet, true_and, false_and, or_false]

theorem interior_apply : Interior (m.apply p) (m.apply a) (m.apply b) (m.apply c) ↔ Interior p a b c := by
  rw [interior_iff_sameSide, interior_iff_sameSide, sameSide_apply]

end Affine

theorem OffFan.apply {p o : LatLng ℚ} {l : List (LatLng ℚ)} (h : OffFan p o l) (m : Affine) :
    OffFan (m.apply p) (m.apply o) (l.map m.apply) := by
  constructor
  · intro a ha
    obtain ⟨x, hx, rfl⟩ := List.mem_map.mp ha
    exact fun hon => h.spokes x hx ((m.onEdge_apply p o x).mp hon)
  · intro e he
    rw [← List.map_tail, List.zip_map] at he
    obtain ⟨x, hx, rfl⟩ := List.mem_map.mp he
    exact fun hon => h.rim x hx ((m.onEdge_apply p x.1 x.2).mp hon)

/-- **Containment does not depend on the coordinates**, and so not on the direction of the ray, for a point that is
on no side of a triangle of the ring's fan. -/
theorem contains_affine (m : Affine) (p o : LatLng ℚ) (l : List (LatLng ℚ)) (h : OffFan p o l) :
    pointInPolygon (m.apply p) ((o :: l).map m.apply) = pointInPolygon p (o :: l) := by
  rw [List.map_cons, contains_odd _ _ _ (h.apply m), contains_odd _ _ _ h, ← List.map_tail, List.zip_map,
    List.countP_map]
  congr 3
  funext e
  exact decide_eq_decide.mpr (m.interior_apply p o e.1 e.2)

/-- Latitude and longitude exchanged. -/
def Affine.axes : Affine :=
  { latLat := 0, latLng := 1, lngLat := 1, lngLng := 0, lat := 0, lng := 0, invertible := by decide +kernel }

theorem contains_affine_star :
    pointInPolygon (Affine.axes.apply ⟨2, 3⟩) ((⟨0, 0⟩ :: star).map Affine.axes.apply) =
      pointInPolygon ⟨2, 3⟩ (⟨0, 0⟩ :: star) :=
  contains_affine Affine.axes ⟨2, 3⟩ ⟨0, 0⟩ star (offFan_of_side (by decide +kernel) (by decide +kernel))

end Tms.Geo

end TptErp
