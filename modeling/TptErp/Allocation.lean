import TptErp.Money
import TptErp.Lib.Places
import Mathlib.Algebra.Order.BigOperators.Group.List
import Mathlib.Tactic.LinearCombination

/-!
# Allocations

What `Money::allocate` hands out.  An amount of `t` minor units is cut into the truncated shares, whose remainders
add up to the units left over (times the sum of the ratios); each unit left over goes to another part, largest
remainder first.

* `allocate_parts`: each part of an allocation is its truncated share, or one unit more where the share was cut.
* `allocate_exactAndFair_iff`: the parts add up to the amount, each less than one unit from its exact share,
  exactly when the amount is not negative or no share has to be cut.  A negative amount leaves a negative rest,
  and a rest is handed out only from one unit up.
-/

namespace TptErp

theorem trunc_div (n : Int) (d : Nat) : trunc ((n : ℚ) / d) = n.tdiv d := by
  unfold trunc
  by_cases h : 0 ≤ n
  · have hq : (0 : ℚ) ≤ (n : ℚ) / d := div_nonneg (by exact_mod_cast h) (by positivity)
    rw [if_pos hq, Rat.floor_intCast_div_natCast, Int.tdiv_eq_ediv_of_nonneg h]
  · rcases Nat.eq_zero_or_pos d with rfl | hd
    · simp
    · have hq : ¬ (0 : ℚ) ≤ (n : ℚ) / d := by
        have hn : (n : ℚ) < 0 := by exact_mod_cast not_le.mp h
        exact not_le.mpr (div_neg_of_neg_of_pos hn (by exact_mod_cast hd))
      have hm : (0 : Int) ≤ -n := by omega
      rw [if_neg hq, ← neg_neg ((n : ℚ) / d), Int.ceil_neg, ← neg_div]
      have hc : -(n : ℚ) = ((-n : Int) : ℚ) := by push_cast; rfl
      rw [hc, Rat.floor_intCast_div_natCast, ← Int.tdiv_eq_ediv_of_nonneg hm, Int.neg_tdiv, neg_neg]

namespace Money

/-! ## Giving out what is left over -/

theorem length_giveLeftover (unit : ℚ) (order : List (Nat × ℚ)) (parts : List ℚ) (leftover : ℚ) :
    (giveLeftover unit order parts leftover).length = parts.length := by
  induction order generalizing parts leftover with
  | nil => rfl
  | cons p order ih =>
    unfold giveLeftover
    split
    · rw [ih, List.length_modify]
    · exact ih parts leftover

/-- As many units are given out as are left over and there are parts for. -/
theorem sum_giveLeftover {unit : ℚ} (hu : 0 < unit) (order : List (Nat × ℚ)) (parts : List ℚ) (left : Int)
    (h : ∀ p ∈ order, p.1 < parts.length) :
    (giveLeftover unit order parts (left * unit)).sum =
      parts.sum + ((max 0 (min left order.length) : Int) : ℚ) * unit := by
  induction order generalizing parts left with
  | nil =>
    have h0 : max 0 (min left ((List.length ([] : List (Nat × ℚ)) : Nat) : Int)) = 0 := by
      rw [List.length_nil]
      omega
    rw [h0]
    simp [giveLeftover]
  | cons p order ih =>
    have hle : unit ≤ left * unit ↔ 1 ≤ left := by
      rw [le_mul_iff_one_le_left hu]
      exact_mod_cast Iff.rfl
    have hrest : ∀ q ∈ order, q.1 < parts.length := fun q hq => h q (List.mem_cons_of_mem _ hq)
    unfold giveLeftover
    by_cases h1 : 1 ≤ left
    · have hsub : (left : ℚ) * unit - unit = ((left - 1 : Int) : ℚ) * unit := by
        push_cast
        ring
      have hmax : max 0 (min left ((p :: order).length : Int)) = max 0 (min (left - 1) (order.length : Int)) + 1 := by
        rw [List.length_cons]
        push_cast
        omega
      rw [if_pos (hle.mpr h1), hsub, ih _ (left - 1), Places.sum_modify_add (h p List.mem_cons_self), hmax]
      · push_cast
        ring
      · intro q hq
        rw [List.length_modify]
        exact hrest q hq
    · have hmax : max 0 (min left ((p :: order).length : Int)) = max 0 (min left (order.length : Int)) := by
        rw [List.length_cons]
        push_cast
        omega
      rw [if_neg (fun hc => h1 (hle.mp hc)), ih parts left hrest, hmax]

/-- A unit goes to each of the first parts of the order, as many as are left over. -/
theorem getElem?_giveLeftover {unit : ℚ} (hu : 0 < unit) (order : List (Nat × ℚ)) (parts : List ℚ) (left : Int)
    (hnd : (order.map (·.1)).Nodup) (i : Nat) :
    (giveLeftover unit order parts (left * unit))[i]? =
      parts[i]?.map (· + if i ∈ (order.take left.toNat).map (·.1) then unit else 0) := by
  induction order generalizing parts left with
  | nil => simp [giveLeftover]
  | cons p order ih =>
    have hle : unit ≤ left * unit ↔ 1 ≤ left := by
      rw [le_mul_iff_one_le_left hu]
      exact_mod_cast Iff.rfl
    rw [List.map_cons, List.nodup_cons] at hnd
    unfold giveLeftover
    by_cases h1 : 1 ≤ left
    · have hsub : (left : ℚ) * unit - unit = ((left - 1 : Int) : ℚ) * unit := by
        push_cast
        ring
      have htake : left.toNat = (left - 1).toNat + 1 := by omega
      rw [if_pos (hle.mpr h1), hsub, ih _ (left - 1) hnd.2, List.getElem?_modify, htake, List.take_succ_cons,
        List.map_cons]
      by_cases hi : p.1 = i
      · subst hi
        have hnot : p.1 ∉ (order.take (left - 1).toNat).map (·.1) := fun hm =>
          hnd.1 (((List.take_sublist _ order).map _).subset hm)
        rw [if_neg hnot, if_pos List.mem_cons_self]
        cases parts[p.1]? with
        | none => rfl
        | some x => simp
      · have hmem : i ∈ p.1 :: (order.take (left - 1).toNat).map (·.1) ↔ i ∈ (order.take (left - 1).toNat).map (·.1) := by
          rw [List.mem_cons, or_iff_right (Ne.symm hi)]
        simp only [if_neg hi, hmem]
        cases parts[i]? with
        | none => rfl
        | some x => rfl
    · have htake : left.toNat = 0 := by omega
      rw [if_neg (fun hc => h1 (hle.mp hc)), ih parts left hnd.2, htake]
      simp

/-- In a descending list of numbers below `s` that add up to more than `n - 1` times `s`, the first `n` are
positive. -/
theorem pos_of_mem_take {rs : List ℚ} {s : ℚ} (hs : 0 < s) (hsort : rs.Pairwise fun a b => b ≤ a)
    (hlt : ∀ r ∈ rs, r < s) (n : Nat) (hn : n * s < rs.sum + s) : ∀ r ∈ rs.take n, 0 < r := by
  induction rs generalizing n with
  | nil => intro r hr; simp at hr
  | cons x rs ih =>
    cases n with
    | zero => intro r hr; simp at hr
    | succ n =>
      rw [List.pairwise_cons] at hsort
      rw [List.sum_cons] at hn
      push_cast at hn
      have hx : 0 < x := by
        by_contra hx
        have hle : rs.sum ≤ rs.length • 0 :=
          List.sum_le_card_nsmul _ _ fun r hr => (hsort.1 r hr).trans (not_lt.mp hx)
        rw [smul_zero] at hle
        have h0 : 0 ≤ (n : ℚ) * s := by positivity
        linarith
      have hxs := hlt x List.mem_cons_self
      rw [List.take_succ_cons]
      exact List.forall_mem_cons.mpr
        ⟨hx, ih hsort.2 (fun r hr => hlt r (List.mem_cons_of_mem _ hr)) n (by linarith)⟩

/-! ## The shares in minor units -/

variable {C : Type} [Currency C]

theorem minorUnit_pos : 0 < minorUnit C := by
  unfold minorUnit
  positivity

theorem minorUnit_usd : minorUnit Usd = 1 / 100 := by
  show (1 : ℚ) / 10 ^ 2 = 1 / 100
  norm_num

/-- A share of `t` minor units cut off, and `s` times what that leaves over. -/
theorem share_units (t : Int) (w s : Nat) (hs : 0 < s) :
    share (C := C) (t * minorUnit C) s w = ((t * w).tdiv s * minorUnit C, (t * w).tmod s * minorUnit C) := by
  have h0 : (s : ℚ) ≠ 0 := by exact_mod_cast hs.ne'
  have h10 : (10 : ℚ) ^ Currency.MINOR_UNITS C ≠ 0 := by positivity
  have hw : roundToZero (Currency.MINOR_UNITS C) (t * minorUnit C * w / s) = (t * w).tdiv s * minorUnit C := by
    have hx : (t : ℚ) * minorUnit C * w / s * 10 ^ Currency.MINOR_UNITS C = ((t * w : Int) : ℚ) / s := by
      unfold minorUnit
      push_cast
      field_simp
    unfold roundToZero
    rw [hx, trunc_div]
    unfold minorUnit
    ring
  have hm : ((t * w : Int) : ℚ) = s * ((t * w).tdiv s : Int) + ((t * w).tmod s : Int) := by
    exact_mod_cast (Int.mul_tdiv_add_tmod (t * w) s).symm
  unfold share
  dsimp only
  rw [hw]
  refine Prod.ext rfl ?_
  push_cast at hm
  linear_combination (minorUnit C) * hm

/-- A sum of whole units. -/
theorem sum_map_units (f : Nat → Int) (ratios : List Nat) :
    (ratios.map fun w => (f w : ℚ) * minorUnit C).sum = ((ratios.map f).sum : Int) * minorUnit C := by
  induction ratios with
  | nil => simp
  | cons w ratios ih =>
    simp only [List.map_cons, List.sum_cons]
    rw [ih]
    push_cast
    ring

/-- The units of the shares of `t` units, cut off. -/
def wholeUnits (t : Int) (s : Nat) (ratios : List Nat) : Int := (ratios.map fun w : Nat => (t * w).tdiv s).sum

/-- What cutting off the shares leaves over, `s` times. -/
def cutRest (t : Int) (s : Nat) (ratios : List Nat) : Int := (ratios.map fun w : Nat => (t * w).tmod s).sum

theorem wholeUnits_add_cutRest (t : Int) (s : Nat) (ratios : List Nat) :
    s * wholeUnits t s ratios + cutRest t s ratios = t * ratios.sum := by
  unfold wholeUnits cutRest
  induction ratios with
  | nil => simp
  | cons w ratios ih =>
    have hw := Int.mul_tdiv_add_tmod (t * w) s
    simp only [List.map_cons, List.sum_cons]
    rw [Nat.cast_add]
    linear_combination ih + hw

/-- The units left over, `s` times. -/
theorem mul_left_units (t : Int) (ratios : List Nat) :
    ratios.sum * (t - wholeUnits t ratios.sum ratios) = cutRest t ratios.sum ratios := by
  linear_combination -(wholeUnits_add_cutRest t ratios.sum ratios)

theorem cutRest_le {t : Int} {s : Nat} (hs : 0 < s) (ratios : List Nat) :
    cutRest t s ratios ≤ s * ratios.length := by
  have hle : cutRest t s ratios ≤ (ratios.map fun w : Nat => (t * w).tmod s).length • (s : Int) := by
    apply List.sum_le_card_nsmul
    intro r hr
    obtain ⟨w, -, rfl⟩ := List.mem_map.mp hr
    exact (Int.tmod_lt_of_pos (t * w) (by exact_mod_cast hs)).le
  rw [List.length_map, nsmul_eq_mul] at hle
  linarith

theorem cutRest_nonneg {t : Int} (ht : 0 ≤ t) (s : Nat) (ratios : List Nat) : 0 ≤ cutRest t s ratios := by
  apply List.sum_nonneg
  intro r hr
  obtain ⟨w, -, rfl⟩ := List.mem_map.mp hr
  exact Int.tmod_nonneg _ (by positivity)

theorem tmod_nonpos {n : Int} (hn : n ≤ 0) (s : Int) : n.tmod s ≤ 0 := by
  have h := Int.tmod_nonneg s (show 0 ≤ -n by omega)
  rw [Int.neg_tmod] at h
  omega

theorem cutRest_nonpos {t : Int} (ht : t ≤ 0) (s : Nat) (ratios : List Nat) : cutRest t s ratios ≤ 0 := by
  unfold cutRest
  induction ratios with
  | nil => exact le_refl 0
  | cons w ratios ih =>
    have hw := tmod_nonpos (mul_nonpos_of_nonpos_of_nonneg ht (Int.natCast_nonneg w)) s
    rw [List.map_cons, List.sum_cons]
    omega

/-- Of an amount that is not positive there is no more than nothing left over. -/
theorem left_units_nonpos {t : Int} (ht : t ≤ 0) {ratios : List Nat} (hpos : 0 < ratios.sum) :
    t - wholeUnits t ratios.sum ratios ≤ 0 := by
  have hs : (0 : Int) < ratios.sum := by exact_mod_cast hpos
  refine le_of_mul_le_mul_left ?_ hs
  rw [mul_zero, mul_left_units]
  exact cutRest_nonpos ht _ _

/-- Of a negative amount nothing is left over exactly when no share is cut. -/
theorem cutRest_eq_zero_iff {t : Int} (ht : t ≤ 0) (s : Nat) (ratios : List Nat) :
    cutRest t s ratios = 0 ↔ ∀ w ∈ ratios, (t * w).tmod s = 0 := by
  unfold cutRest
  induction ratios with
  | nil => exact iff_of_true rfl fun w hw => nomatch hw
  | cons w ratios ih =>
    have hw := tmod_nonpos (mul_nonpos_of_nonpos_of_nonneg ht (Int.natCast_nonneg w)) s
    have hrest := cutRest_nonpos ht s ratios
    unfold cutRest at hrest
    rw [List.map_cons, List.sum_cons, List.forall_mem_cons, ← ih]
    omega

/-- Of a non-negative amount there is no less than nothing left over, and no more units than parts. -/
theorem left_units_bounds {t : Int} (ht : 0 ≤ t) {ratios : List Nat} (hpos : 0 < ratios.sum) :
    0 ≤ t - wholeUnits t ratios.sum ratios ∧ t - wholeUnits t ratios.sum ratios ≤ ratios.length := by
  have hs : (0 : Int) < ratios.sum := by exact_mod_cast hpos
  have h := mul_left_units t ratios
  constructor
  · refine le_of_mul_le_mul_left ?_ hs
    rw [mul_zero, h]
    exact cutRest_nonneg ht _ _
  · refine le_of_mul_le_mul_left ?_ hs
    rw [h]
    exact cutRest_le hpos ratios

/-! ## The order in which units are handed out -/

/-- The remainders with the parts they belong to, largest first. -/
def largestFirst (C : Type) [Currency C] (t : Int) (s : Nat) (ratios : List Nat) : List (Nat × ℚ) :=
  ((ratios.map fun w : Nat => ((t * w).tmod s : ℚ) * minorUnit C).zipIdx.map fun p => (p.2, p.1)).insertionSort
    fun a b => b.2 ≤ a.2

variable (t : Int) (s : Nat) (ratios : List Nat)

theorem largestFirst_perm :
    (largestFirst C t s ratios).Perm
      ((ratios.map fun w : Nat => ((t * w).tmod s : ℚ) * minorUnit C).zipIdx.map fun p => (p.2, p.1)) :=
  List.perm_insertionSort _ _

theorem mem_largestFirst {i : Nat} {r : ℚ} :
    (i, r) ∈ largestFirst C t s ratios ↔ ∃ w, ratios[i]? = some w ∧ (t * w : Int).tmod s * minorUnit C = r := by
  rw [(largestFirst_perm t s ratios).mem_iff, List.mem_map]
  constructor
  · rintro ⟨⟨r', i'⟩, hm, he⟩
    cases he
    rw [List.mk_mem_zipIdx_iff_getElem?, List.getElem?_map, Option.map_eq_some_iff] at hm
    exact hm
  · intro h
    refine ⟨(r, i), ?_, rfl⟩
    rw [List.mk_mem_zipIdx_iff_getElem?, List.getElem?_map, Option.map_eq_some_iff]
    exact h

theorem length_largestFirst : (largestFirst C t s ratios).length = ratios.length := by
  rw [(largestFirst_perm t s ratios).length_eq, List.length_map, List.length_zipIdx, List.length_map]

theorem largestFirst_nodup : ((largestFirst C t s ratios).map (·.1)).Nodup := by
  have hp := (largestFirst_perm (C := C) t s ratios).map (·.1)
  rw [hp.nodup_iff, List.map_map]
  show (List.map Prod.snd _).Nodup
  rw [List.zipIdx_map_snd]
  exact List.nodup_range'

theorem largestFirst_pairwise : ((largestFirst C t s ratios).map (·.2)).Pairwise fun a b => b ≤ a := by
  have : Std.Total fun a b : Nat × ℚ => b.2 ≤ a.2 := ⟨fun a b => le_total b.2 a.2⟩
  have : IsTrans (Nat × ℚ) fun a b => b.2 ≤ a.2 := ⟨fun a b c h1 h2 => h2.trans h1⟩
  exact List.pairwise_map.mpr (List.pairwise_insertionSort _ _)

theorem sum_largestFirst : ((largestFirst C t s ratios).map (·.2)).sum = cutRest t s ratios * minorUnit C := by
  have hp := (largestFirst_perm (C := C) t s ratios).map (·.2)
  rw [hp.sum_eq, List.map_map]
  show (List.map Prod.fst _).sum = _
  rw [List.zipIdx_map_fst]
  exact sum_map_units (fun w : Nat => (t * w).tmod s) ratios

/-! ## The parts -/

theorem allocate_eq {t : Int} {ratios : List Nat} (hpos : 0 < sumU64 ratios) :
    allocate (C := C) (t * minorUnit C) ratios =
      .ok (giveLeftover (minorUnit C) (largestFirst C t (sumU64 ratios) ratios)
        (ratios.map fun w : Nat => ((t * w).tdiv (sumU64 ratios) : ℚ) * minorUnit C)
        ((t - wholeUnits t (sumU64 ratios) ratios : Int) * minorUnit C)) := by
  have hne : ratios ≠ [] := by
    rintro rfl
    exact absurd hpos (by decide)
  have hs : ((sumU64 ratios : Nat) : ℚ) ≠ 0 := by exact_mod_cast hpos.ne'
  have hshare : ratios.map (share (C := C) (t * minorUnit C) (sumU64 ratios : ℚ)) =
      ratios.map fun w : Nat => (((t * w).tdiv (sumU64 ratios) : ℚ) * minorUnit C,
        ((t * w).tmod (sumU64 ratios) : ℚ) * minorUnit C) :=
    List.map_congr_left fun w _ => share_units t w _ hpos
  have hsum : (ratios.map fun w : Nat => ((t * w).tdiv (sumU64 ratios) : ℚ) * minorUnit C).sum =
      wholeUnits t (sumU64 ratios) ratios * minorUnit C :=
    sum_map_units (fun w : Nat => (t * w).tdiv (sumU64 ratios)) ratios
  unfold allocate
  rw [if_neg hne]
  dsimp only
  rw [if_neg hs, hshare, List.map_map, List.map_map, ← List.sum_eq_foldl]
  have hleft : (t : ℚ) * minorUnit C - (ratios.map fun w : Nat =>
      ((t * w).tdiv (sumU64 ratios) : ℚ) * minorUnit C).sum =
      (t - wholeUnits t (sumU64 ratios) ratios : Int) * minorUnit C := by
    rw [hsum]
    push_cast
    ring
  rw [← hleft]
  rfl

/-- What the parts of `t` units add up to. -/
theorem allocate_sum {t : Int} {ratios : List Nat} (hpos : 0 < sumU64 ratios) :
    ∃ parts, allocate (C := C) (t * minorUnit C) ratios = .ok parts ∧ parts.length = ratios.length ∧
      List.sum (α := ℚ) parts = (wholeUnits t (sumU64 ratios) ratios +
        max 0 (min (t - wholeUnits t (sumU64 ratios) ratios) ratios.length) : Int) * minorUnit C := by
  refine ⟨_, allocate_eq hpos, ?_, ?_⟩
  · rw [length_giveLeftover, List.length_map]
  · have hidx : ∀ p ∈ largestFirst C t (sumU64 ratios) ratios,
        p.1 < (ratios.map fun w : Nat => ((t * w).tdiv (sumU64 ratios) : ℚ) * minorUnit C).length := by
      rintro ⟨i, r⟩ hp
      obtain ⟨w, hw, -⟩ := (mem_largestFirst t _ ratios).mp hp
      rw [List.length_map]
      exact (List.getElem?_eq_some_iff.mp hw).1
    rw [sum_giveLeftover minorUnit_pos _ _ _ hidx, length_largestFirst]
    have hsum : (ratios.map fun w : Nat => ((t * w).tdiv (sumU64 ratios) : ℚ) * minorUnit C).sum =
        wholeUnits t (sumU64 ratios) ratios * minorUnit C :=
      sum_map_units (fun w : Nat => (t * w).tdiv (sumU64 ratios)) ratios
    rw [hsum]
    push_cast
    ring

/-- **Largest remainders first.**  Of an amount that is not negative, a unit goes only to shares that were cut. -/
theorem rest_pos_of_given {t : Int} (ht : 0 ≤ t) {s : Nat} (hpos : 0 < s) {ratios : List Nat} (hle : s ≤ ratios.sum)
    {i : Nat} (hi : i ∈ ((largestFirst C t s ratios).take (t - wholeUnits t s ratios).toNat).map (·.1))
    {w : Nat} (hw : ratios[i]? = some w) : 0 < (t * w).tmod s := by
  have hs : (0 : ℚ) < s := by exact_mod_cast hpos
  have hu := minorUnit_pos (C := C)
  obtain ⟨⟨i', r⟩, hp, rfl⟩ := List.mem_map.mp hi
  have hr : 0 < r := by
    have hleft : 0 ≤ t - wholeUnits t s ratios := by
      by_contra hneg
      rw [Int.toNat_of_nonpos (by omega)] at hp
      simp at hp
    have hrest : (s : Int) * (t - wholeUnits t s ratios) ≤ cutRest t s ratios := by
      have h := wholeUnits_add_cutRest t s ratios
      have hts : t * s ≤ t * ratios.sum := mul_le_mul_of_nonneg_left (by exact_mod_cast hle) ht
      linarith
    have hcast : ((t - wholeUnits t s ratios).toNat : ℚ) = (t - wholeUnits t s ratios : Int) := by
      exact_mod_cast congrArg (Int.cast (R := ℚ)) (Int.toNat_of_nonneg hleft)
    have hrestq : (s : ℚ) * (t - wholeUnits t s ratios : Int) ≤ cutRest t s ratios := by
      rw [← Int.cast_natCast (R := ℚ) s, ← Int.cast_mul]
      exact Int.cast_le.mpr hrest
    have hpos := pos_of_mem_take (s := s * minorUnit C) (mul_pos hs hu)
      (largestFirst_pairwise (C := C) t s ratios) ?_ (t - wholeUnits t s ratios).toNat ?_
    · refine hpos r ?_
      rw [← List.map_take]
      exact List.mem_map.mpr ⟨_, hp, rfl⟩
    · intro r hr
      obtain ⟨⟨j, r'⟩, hm, rfl⟩ := List.mem_map.mp hr
      obtain ⟨v, -, rfl⟩ := (mem_largestFirst t _ ratios).mp hm
      refine mul_lt_mul_of_pos_right ?_ hu
      rw [← Int.cast_natCast (R := ℚ) s]
      exact Int.cast_lt.mpr (Int.tmod_lt_of_pos (t * v) (Int.natCast_pos.mpr hpos))
    · rw [sum_largestFirst, hcast]
      have h : 0 < (s : ℚ) * minorUnit C := mul_pos hs hu
      nlinarith
  obtain ⟨v, hv, hre⟩ := (mem_largestFirst t _ ratios).mp (List.mem_of_mem_take hp)
  obtain rfl : v = w := Option.some.inj (hv.symm.trans hw)
  rw [← hre] at hr
  exact_mod_cast pos_of_mul_pos_left hr hu.le

/-- **The parts.**  Each is its share cut off, and one unit more only where the share was cut: when the amount is
not negative, or the ratios' sum does not wrap. -/
theorem allocate_parts {t : Int} {ratios : List Nat} (hpos : 0 < sumU64 ratios)
    (ht : 0 ≤ t ∨ ratios.sum < 2 ^ 64) {parts : List (Money C)}
    (h : allocate (C := C) (t * minorUnit C) ratios = .ok parts) {i w : Nat} (hw : ratios[i]? = some w) :
    parts[i]? = some ((t * w).tdiv (sumU64 ratios) * minorUnit C) ∨
      parts[i]? = some (((t * w).tdiv (sumU64 ratios) + 1 : Int) * minorUnit C) ∧
        0 < (t * w).tmod (sumU64 ratios) := by
  rw [allocate_eq hpos] at h
  cases h
  rw [getElem?_giveLeftover minorUnit_pos _ _ _ (largestFirst_nodup t _ ratios), List.getElem?_map, hw]
  simp only [Option.map_some]
  split
  · next hi =>
    right
    refine ⟨?_, ?_⟩
    · push_cast
      ring_nf
    · by_cases h0 : 0 ≤ t
      · exact rest_pos_of_given h0 hpos (Nat.mod_le _ _) hi hw
      · -- a negative amount leaves no unit to hand out
        have hs : sumU64 ratios = ratios.sum := Nat.mod_eq_of_lt (ht.resolve_left h0)
        have hneg : (t - wholeUnits t (sumU64 ratios) ratios).toNat = 0 :=
          Int.toNat_of_nonpos (hs ▸ left_units_nonpos (not_le.mp h0).le (hs ▸ hpos))
        rw [hneg] at hi
        simp at hi
  · left
    rw [add_zero]

/-- The parts add up to the amount when it is not negative, and to a negative one only when no share is cut. -/
theorem allocate_sum_eq_iff {t : Int} {ratios : List Nat} (hpos : 0 < ratios.sum) (hlt : ratios.sum < 2 ^ 64)
    {parts : List (Money C)} (h : allocate (C := C) (t * minorUnit C) ratios = .ok parts) :
    List.sum (α := ℚ) parts = t * minorUnit C ↔ 0 ≤ t ∨ ∀ w ∈ ratios, (t * w).tmod ratios.sum = 0 := by
  have hs : sumU64 ratios = ratios.sum := Nat.mod_eq_of_lt hlt
  obtain ⟨parts', he, -, hsum⟩ := allocate_sum (C := C) (t := t) (show 0 < sumU64 ratios from hs ▸ hpos)
  rw [h] at he
  cases he
  rw [hsum, hs, mul_left_inj' minorUnit_pos.ne', Int.cast_inj]
  by_cases ht : 0 ≤ t
  · have hb := left_units_bounds ht hpos
    exact iff_of_true (by omega) (Or.inl ht)
  · have hneg := left_units_nonpos (not_le.mp ht).le hpos
    have hleft := mul_left_units t ratios
    have hs0 : (ratios.sum : Int) ≠ 0 := by exact_mod_cast hpos.ne'
    rw [or_iff_right ht, ← cutRest_eq_zero_iff (not_le.mp ht).le, ← hleft, mul_eq_zero, or_iff_right hs0]
    omega

/-- A whole number of minor units. -/
def IsMinor (C : Type) [Currency C] (x : ℚ) : Prop := ∃ t : Int, x = t * minorUnit C

theorem isMinor_add {x y : ℚ} (hx : IsMinor C x) (hy : IsMinor C y) : IsMinor C (x + y) := by
  obtain ⟨m, rfl⟩ := hx
  obtain ⟨n, rfl⟩ := hy
  exact ⟨m + n, by push_cast; ring⟩

theorem isMinor_sum {xs : List ℚ} (h : ∀ x ∈ xs, IsMinor C x) : IsMinor C xs.sum := by
  induction xs with
  | nil => exact ⟨0, by simp⟩
  | cons x xs ih =>
    obtain ⟨hx, hxs⟩ := List.forall_mem_cons.mp h
    rw [List.sum_cons]
    exact isMinor_add hx (ih hxs)

theorem isMinor_giveLeftover (order : List (Nat × ℚ)) (parts : List ℚ) (leftover : ℚ)
    (h : ∀ p ∈ parts, IsMinor C p) : ∀ p ∈ giveLeftover (minorUnit C) order parts leftover, IsMinor C p := by
  induction order generalizing parts leftover with
  | nil => exact h
  | cons o order ih =>
    unfold giveLeftover
    split
    · refine ih _ _ fun p hp => ?_
      obtain ⟨i, hi, rfl⟩ := List.mem_iff_getElem.mp hp
      rw [List.length_modify] at hi
      rw [List.getElem_modify]
      split
      · exact isMinor_add (h _ (List.getElem_mem hi)) ⟨1, by simp⟩
      · exact h _ (List.getElem_mem hi)
    · exact ih _ _ h

/-- Whatever is allocated, the parts add up to a whole number of units. -/
theorem isMinor_sum_of_allocate {amount : Money C} {ratios : List Nat} {parts : List (Money C)}
    (h : allocate amount ratios = .ok parts) : IsMinor C (List.sum (α := ℚ) parts) := by
  unfold allocate at h
  split at h
  · cases h
  · dsimp only at h
    split at h
    · cases h
    · cases h
      refine isMinor_sum (isMinor_giveLeftover _ _ _ fun p hp => ?_)
      obtain ⟨s, hs, rfl⟩ := List.mem_map.mp hp
      obtain ⟨w, -, rfl⟩ := List.mem_map.mp hs
      exact ⟨_, by unfold share roundToZero minorUnit; rw [mul_one_div]⟩

theorem sumU64_pos_of_allocate {amount : Money C} {ratios : List Nat} {parts : List (Money C)}
    (h : allocate amount ratios = .ok parts) : 0 < sumU64 ratios := by
  unfold allocate at h
  split at h
  · cases h
  · dsimp only at h
    split at h
    · cases h
    · next hne => exact Nat.pos_of_ne_zero fun h0 => hne (by rw [h0]; rfl)

/-- What the parts of an allocation should be. -/
structure ExactAndFair (amount : Money C) (ratios : List Nat) (parts : List (Money C)) : Prop where
  length : parts.length = ratios.length
  sum : List.sum (α := ℚ) parts = amount
  minor : ∀ p ∈ parts, IsMinor C p
  near : ∀ (i : Nat) p w, parts[i]? = some p → ratios[i]? = some w → |p - amount * w / ratios.sum| < minorUnit C
  zero : ∀ (i : Nat) p, parts[i]? = some p → ratios[i]? = some 0 → p = 0

/-- A share is a whole number of units exactly when it is not cut. -/
theorem isMinor_share_iff (t : Int) (w : Nat) {s : Nat} (hs : 0 < s) :
    IsMinor C (t * minorUnit C * w / s) ↔ (t * w).tmod s = 0 := by
  have hu := minorUnit_pos (C := C)
  have hs0 : (s : ℚ) ≠ 0 := by exact_mod_cast hs.ne'
  rw [← Int.dvd_iff_tmod_eq_zero]
  constructor
  · rintro ⟨n, hn⟩
    refine ⟨n, ?_⟩
    rw [div_eq_iff hs0] at hn
    have h : ((t * w : Int) : ℚ) = (s * n : Int) := by
      refine mul_right_cancel₀ hu.ne' ?_
      push_cast
      linear_combination hn
    exact_mod_cast h
  · rintro ⟨n, hn⟩
    refine ⟨n, ?_⟩
    have h : ((t * w : Int) : ℚ) = (s * n : Int) := congrArg _ hn
    push_cast at h
    rw [div_eq_iff hs0]
    linear_combination minorUnit C * h

/-- How far a part is from its exact share. -/
theorem near_of_tdiv {t : Int} {w s : Nat} (hs : 0 < s) {k : Int} (h : k = 0 ∨ k = 1 ∧ 0 < (t * w).tmod s) :
    |(((t * w).tdiv s + k : Int) : ℚ) * minorUnit C - t * minorUnit C * w / s| < minorUnit C := by
  have hu := minorUnit_pos (C := C)
  have hs0 : (0 : ℚ) < s := by exact_mod_cast hs
  have hm : (t : ℚ) * w = s * ((t * w).tdiv s : Int) + ((t * w).tmod s : Int) := by
    exact_mod_cast (Int.mul_tdiv_add_tmod (t * w) s).symm
  have hlt : (t * w).tmod s < s := Int.tmod_lt_of_pos _ (by exact_mod_cast hs)
  have hgt : -(s : Int) < (t * w).tmod s := Int.lt_tmod_of_pos _ (by exact_mod_cast hs)
  have hx : (((t * w).tdiv s + k : Int) : ℚ) * minorUnit C - t * minorUnit C * w / s =
      ((k * s - (t * w).tmod s : Int) : ℚ) / s * minorUnit C := by
    field_simp
    push_cast
    linear_combination -hm
  have hk : -(s : Int) < k * s - (t * w).tmod s ∧ k * s - (t * w).tmod s < s := by
    rcases h with rfl | ⟨rfl, hpos⟩ <;> omega
  have hlo : (-(s : ℚ)) < ((k * s - (t * w).tmod s : Int) : ℚ) := by exact_mod_cast hk.1
  have hhi : ((k * s - (t * w).tmod s : Int) : ℚ) < s := by exact_mod_cast hk.2
  rw [hx, abs_mul, abs_of_pos hu]
  refine mul_lt_of_lt_one_left hu ?_
  rw [abs_div, abs_of_pos hs0, div_lt_one hs0]
  exact abs_lt.mpr ⟨hlo, hhi⟩

/-- **Allocation is exact and fair** when the amount is not negative or no share has to be cut, and only then. -/
theorem allocate_exactAndFair_iff {amount : Money C} (hm : IsMinor C amount) {ratios : List Nat}
    (hpos : ratios.sum ≠ 0) (hlt : ratios.sum < 2 ^ 64) :
    (∃ parts, allocate amount ratios = .ok parts ∧ ExactAndFair amount ratios parts) ↔
      0 ≤ amount ∨ ∀ w ∈ ratios, IsMinor C (amount * w / ratios.sum) := by
  obtain ⟨t, rfl⟩ := hm
  have hs := Nat.pos_of_ne_zero hpos
  have hu := minorUnit_pos (C := C)
  have hs64 : sumU64 ratios = ratios.sum := Nat.mod_eq_of_lt hlt
  have hcond : (0 ≤ (t : ℚ) * minorUnit C ∨ ∀ w ∈ ratios, IsMinor C (t * minorUnit C * w / ratios.sum)) ↔
      (0 ≤ t ∨ ∀ w ∈ ratios, (t * w).tmod ratios.sum = 0) := by
    rw [mul_nonneg_iff_of_pos_right hu, Int.cast_nonneg_iff]
    exact or_congr Iff.rfl (forall₂_congr fun w _ => isMinor_share_iff t w hs)
  obtain ⟨parts, h, hlen, -⟩ := allocate_sum (C := C) (t := t) (show 0 < sumU64 ratios from hs64 ▸ hs)
  rw [hcond, ← allocate_sum_eq_iff hs hlt h]
  constructor
  · rintro ⟨parts', h', hfair⟩
    rw [h] at h'
    cases h'
    exact hfair.sum
  · intro hsum
    have hparts := fun i w => allocate_parts (i := i) (w := w) (hs64 ▸ hs) (Or.inr hlt) h
    simp only [hs64] at hparts
    refine ⟨parts, h, hlen, hsum, ?_, ?_, ?_⟩
    · intro p hp
      obtain ⟨i, hi, rfl⟩ := List.mem_iff_getElem.mp hp
      rcases hparts i _ (List.getElem?_eq_getElem (hlen ▸ hi)) with he | ⟨he, -⟩
      · exact ⟨_, List.getElem_eq_iff hi |>.mpr he⟩
      · exact ⟨_, List.getElem_eq_iff hi |>.mpr he⟩
    · intro i p w hp hw
      rcases hparts i w hw with he | ⟨he, hr⟩
      · rw [hp] at he
        cases he
        simpa using near_of_tdiv hs (Or.inl rfl)
      · rw [hp] at he
        cases he
        exact near_of_tdiv hs (Or.inr ⟨rfl, hr⟩)
    · intro i p hp hw
      have h0 : (t * (0 : Nat)).tmod ratios.sum = 0 := by simp
      rcases hparts i 0 hw with he | ⟨-, hr⟩
      · rw [hp] at he
        cases he
        simp
      · omega

theorem allocate_hundred_three_ways :
    ∃ parts, allocate (C := Usd) (100 : ℚ) [1, 1, 1] = .ok parts ∧ ExactAndFair (C := Usd) (100 : ℚ) [1, 1, 1] parts :=
  (allocate_exactAndFair_iff (C := Usd) ⟨10000, by decide +kernel⟩ (show ([1, 1, 1] : List Nat).sum ≠ 0 by decide)
    (by decide)).mpr (Or.inl (by decide +kernel))

/-- A refund of one hundred dollars over three equal shares loses a cent. -/
theorem allocate_refund_three_ways :
    IsMinor Usd (-100) ∧ ([1, 1, 1] : List Nat).sum ≠ 0 ∧ ([1, 1, 1] : List Nat).sum < 2 ^ 64 ∧
      ¬ ∃ parts, allocate (C := Usd) (-100 : ℚ) [1, 1, 1] = .ok parts ∧
        ExactAndFair (C := Usd) (-100 : ℚ) [1, 1, 1] parts := by
  refine ⟨⟨-10000, by decide +kernel⟩, by decide, by decide, ?_⟩
  rintro ⟨parts, h, hfair⟩
  have hparts : allocate (C := Usd) (-100 : ℚ) [1, 1, 1] = .ok [-3333 / 100, -3333 / 100, -3333 / 100] := by
    decide +kernel
  rw [h] at hparts
  cases hparts
  exact absurd hfair.sum (by decide +kernel)

end Money

end TptErp
