import TptErp.Lib.Select
import Mathlib.Data.List.Induction
import Mathlib.Data.List.Sort

/-!
# Effective-dated histories

A history holds items with dates, in the order of their dates.  `put` replaces the item of the same
date, or adds the new one at its place; `asOf t` is the item with the latest date not after `t`.  When
a history is filled from a log of items, in any order of dates,

    asOf t (log.foldl put []) = some x ↔
      x is the last of its date in the log, date x ≤ t, and no date of the log lies in between   (asOf_fill)

so only the last item of each date matters, and none of a later date (`asOf_congr`).
-/

namespace Effective

variable {α D : Type} [LinearOrder D] (date : α → D)

/-- The list with its first item that meets `p` replaced. -/
def replaceFirst (p : α → Bool) (x : α) : List α → Option (List α)
  | [] => none
  | y :: l => if p y then some (x :: l) else (replaceFirst p x l).map fun l => y :: l

def put (x : α) (hist : List α) : List α :=
  match replaceFirst (fun y => decide (date y = date x)) x hist with
  | some hist => hist
  | none => (hist ++ [x]).insertionSort fun a b => date a ≤ date b

/-- The last of the items with the greatest date (`max_by_key`). -/
def lastMax (l : List α) : Option α := Select.pick (fun b a => !decide (date a < date b)) l

def asOf (t : D) (hist : List α) : Option α := lastMax date (hist.filter fun x => decide (date x ≤ t))

/-- The history of a log of items. -/
def fill (log : List α) : List α := log.foldl (fun hist x => put date x hist) []

theorem lastMax_some {l : List α} {a : α} (h : lastMax date l = some a) : a ∈ l ∧ ∀ b ∈ l, date b ≤ date a := by
  refine @Select.pick_some α (fun b a => !decide (date a < date b)) (fun a b => date b ≤ date a)
    (fun a => le_refl (date a)) (fun _ _ _ hab hbc => le_trans hbc hab) (fun b a => ?_) l a h
  by_cases hlt : date a < date b
  · rw [if_neg (by simpa using hlt)]
    exact le_of_lt hlt
  · rw [if_pos (by simpa using hlt)]
    exact not_lt.mp hlt

theorem replaceFirst_cases (p : α → Bool) (x : α) (l : List α) :
    (∃ before y after, l = before ++ y :: after ∧ p y = true ∧ replaceFirst p x l = some (before ++ x :: after)) ∨
      ((∀ y ∈ l, p y = false) ∧ replaceFirst p x l = none) := by
  induction l with
  | nil => exact .inr ⟨fun y hy => absurd hy List.not_mem_nil, rfl⟩
  | cons y l ih =>
    rw [replaceFirst]
    cases hp : p y with
    | true => exact .inl ⟨[], y, l, rfl, hp, rfl⟩
    | false =>
      rw [if_neg (by decide)]
      rcases ih with ⟨before, z, after, rfl, hz, he⟩ | ⟨hall, he⟩
      · exact .inl ⟨y :: before, z, after, rfl, hz, by rw [he]; rfl⟩
      · refine .inr ⟨?_, by rw [he]; rfl⟩
        intro z hz
        rcases List.mem_cons.mp hz with rfl | hz
        · exact hp
        · exact hall z hz

/-- What a `put` does: it replaces the item of the date, or adds the item at its place. -/
theorem put_cases (x : α) (hist : List α) :
    (∃ before y after, hist = before ++ y :: after ∧ date y = date x ∧ put date x hist = before ++ x :: after) ∨
      ((∀ y ∈ hist, date y ≠ date x) ∧
        put date x hist = (hist ++ [x]).insertionSort fun a b => date a ≤ date b) := by
  unfold put
  rcases replaceFirst_cases (fun y => decide (date y = date x)) x hist with
    ⟨before, y, after, hhist, hy, he⟩ | ⟨hall, he⟩
  · exact .inl ⟨before, y, after, hhist, of_decide_eq_true hy, by rw [he]⟩
  · exact .inr ⟨fun y hy => of_decide_eq_false (hall y hy), by rw [he]⟩

/-- In a history the dates ascend. -/
theorem put_sorted {hist : List α} (h : hist.Pairwise fun a b => date a < date b) (x : α) :
    (put date x hist).Pairwise fun a b => date a < date b := by
  rcases put_cases date x hist with ⟨before, y, after, rfl, hy, he⟩ | ⟨hnew, he⟩
  · rw [he]
    rw [List.pairwise_append, List.pairwise_cons] at h
    obtain ⟨hbefore, ⟨hya, hafter⟩, hcross⟩ := h
    rw [List.pairwise_append, List.pairwise_cons]
    refine ⟨hbefore, ⟨fun b hb => hy ▸ hya b hb, hafter⟩, ?_⟩
    intro a ha b hb
    rcases List.mem_cons.mp hb with rfl | hb
    · exact hy ▸ hcross a ha y List.mem_cons_self
    · exact hcross a ha b (List.mem_cons_of_mem y hb)
  · have htotal : Std.Total fun a b : α => date a ≤ date b := ⟨fun a b => le_total (date a) (date b)⟩
    have htrans : IsTrans α fun a b => date a ≤ date b := ⟨fun _ _ _ => le_trans⟩
    have hle := List.pairwise_insertionSort (fun a b => date a ≤ date b) (hist ++ [x])
    have hperm := List.perm_insertionSort (fun a b => date a ≤ date b) (hist ++ [x])
    have hne : (hist ++ [x]).Pairwise fun a b => date a ≠ date b := by
      rw [List.pairwise_append]
      refine ⟨h.imp fun hlt => ne_of_lt hlt, List.pairwise_singleton _ _, ?_⟩
      intro a ha b hb
      rw [List.mem_singleton.mp hb]
      exact hnew a ha
    rw [he]
    exact hle.imp₂ (fun a b hab hd => lt_of_le_of_ne hab hd) (hperm.symm.pairwise hne fun hd => hd.symm)

/-- The new item takes the place of the items of its date. -/
theorem mem_put {hist : List α} (h : hist.Pairwise fun a b => date a < date b) (x z : α) :
    z ∈ put date x hist ↔ z = x ∨ (z ∈ hist ∧ date z ≠ date x) := by
  rcases put_cases date x hist with ⟨before, y, after, rfl, hy, he⟩ | ⟨hnew, he⟩
  · rw [List.pairwise_append, List.pairwise_cons] at h
    obtain ⟨-, ⟨hya, -⟩, hcross⟩ := h
    rw [he]
    simp only [List.mem_append, List.mem_cons]
    constructor
    · rintro (hz | rfl | hz)
      · exact .inr ⟨.inl hz, fun hd => ne_of_lt (hcross z hz y List.mem_cons_self) (hd.trans hy.symm)⟩
      · exact .inl rfl
      · exact .inr ⟨.inr (.inr hz), fun hd => ne_of_gt (hya z hz) (hd.trans hy.symm)⟩
    · rintro (rfl | ⟨hz | rfl | hz, hd⟩)
      · exact .inr (.inl rfl)
      · exact .inl hz
      · exact absurd hy hd
      · exact .inr (.inr hz)
  · rw [he, (List.perm_insertionSort (fun a b => date a ≤ date b) (hist ++ [x])).mem_iff, List.mem_append,
      List.mem_singleton]
    constructor
    · rintro (hz | rfl)
      · exact .inr ⟨hz, hnew z hz⟩
      · exact .inl rfl
    · rintro (rfl | ⟨hz, -⟩)
      · exact .inr rfl
      · exact .inl hz

/-- The item is the last of its date in the log. -/
def Current (log : List α) (x : α) : Prop :=
  ∃ before after, log = before ++ x :: after ∧ ∀ y ∈ after, date y ≠ date x

omit [LinearOrder D] in
theorem Current.mem {log : List α} {x : α} (h : Current date log x) : x ∈ log := by
  obtain ⟨before, after, rfl, -⟩ := h
  exact List.mem_append_right before List.mem_cons_self

omit [LinearOrder D] in
theorem current_concat (log : List α) (x z : α) :
    Current date (log ++ [x]) z ↔ z = x ∨ (Current date log z ∧ date z ≠ date x) := by
  constructor
  · rintro ⟨before, after, he, hlast⟩
    rcases List.eq_nil_or_concat after with rfl | ⟨after, y, rfl⟩
    · obtain ⟨-, hz⟩ := List.append_inj' he rfl
      exact .inl (List.cons.inj hz).1.symm
    · rw [List.concat_eq_append, ← List.cons_append, ← List.append_assoc] at he
      obtain ⟨hlog, hy⟩ := List.append_inj' he rfl
      obtain rfl : x = y := (List.cons.inj hy).1
      rw [List.concat_eq_append] at hlast
      refine .inr ⟨⟨before, after, hlog, fun y hy => hlast y (List.mem_append_left _ hy)⟩, ?_⟩
      exact (hlast x (List.mem_append_right _ (List.mem_singleton.mpr rfl))).symm
  · rintro (rfl | ⟨⟨before, after, rfl, hlast⟩, hd⟩)
    · exact ⟨log, [], rfl, fun y hy => absurd hy List.not_mem_nil⟩
    · refine ⟨before, after ++ [x], by simp, ?_⟩
      intro y hy
      rcases List.mem_append.mp hy with hy | hy
      · exact hlast y hy
      · rw [List.mem_singleton.mp hy]
        exact hd.symm

/-- The history of a log: in order, and of each date the last item. -/
theorem fill_spec (log : List α) :
    (fill date log).Pairwise (fun a b => date a < date b) ∧ ∀ x, x ∈ fill date log ↔ Current date log x := by
  induction log using List.reverseRecOn with
  | nil =>
    refine ⟨List.Pairwise.nil, fun x => iff_of_false List.not_mem_nil ?_⟩
    exact fun h => List.not_mem_nil h.mem
  | append_singleton log x ih =>
    have hfill : fill date (log ++ [x]) = put date x (fill date log) := by
      rw [fill, List.foldl_append]
      rfl
    rw [hfill]
    refine ⟨put_sorted date ih.1 x, fun z => ?_⟩
    rw [mem_put date ih.1, ih.2, current_concat]

/-- Every date of the log has a current item. -/
theorem exists_current (log : List α) {x : α} (h : x ∈ log) : ∃ y, Current date log y ∧ date y = date x := by
  induction log using List.reverseRecOn with
  | nil => exact absurd h List.not_mem_nil
  | append_singleton log z ih =>
    by_cases hd : date x = date z
    · exact ⟨z, (current_concat date log z z).mpr (.inl rfl), hd.symm⟩
    · rcases List.mem_append.mp h with h | h
      · obtain ⟨y, hy, hyx⟩ := ih h
        exact ⟨y, (current_concat date log z y).mpr (.inr ⟨hy, by rw [hyx]; exact hd⟩), hyx⟩
      · exact absurd (by rw [List.mem_singleton.mp h]) hd

/-- **The item in force at `t`.** -/
theorem asOf_fill (log : List α) (t : D) (x : α) :
    asOf date t (fill date log) = some x ↔
      Current date log x ∧ date x ≤ t ∧ ∀ y ∈ log, date y ≤ t → date y ≤ date x := by
  obtain ⟨hsorted, hmem⟩ := fill_spec date log
  have hin : ∀ z, z ∈ (fill date log).filter (fun x => decide (date x ≤ t)) ↔ Current date log z ∧ date z ≤ t := by
    intro z
    rw [List.mem_filter, hmem, decide_eq_true_eq]
  have hsound : ∀ z, asOf date t (fill date log) = some z →
      Current date log z ∧ date z ≤ t ∧ ∀ y ∈ log, date y ≤ t → date y ≤ date z := by
    intro z hz
    obtain ⟨hzin, hmax⟩ := lastMax_some date hz
    obtain ⟨hcur, hle⟩ := (hin z).mp hzin
    refine ⟨hcur, hle, ?_⟩
    intro y hy hyt
    obtain ⟨y', hcur', hd⟩ := exists_current date log hy
    have := hmax y' ((hin y').mpr ⟨hcur', hd ▸ hyt⟩)
    rwa [hd] at this
  constructor
  · exact hsound x
  · rintro ⟨hcur, hle, hmax⟩
    have hne : (fill date log).filter (fun x => decide (date x ≤ t)) ≠ [] :=
      List.ne_nil_of_mem ((hin x).mpr ⟨hcur, hle⟩)
    obtain ⟨z, hz⟩ : ∃ z, asOf date t (fill date log) = some z := Select.exists_pick hne
    obtain ⟨hzcur, hzle, hzmax⟩ := hsound z hz
    -- two items of one date in a history are the same
    have hd : date z = date x := le_antisymm (hmax z hzcur.mem hzle) (hzmax x hcur.mem hle)
    rcases List.pairwise_iff_getElem.mp hsorted with hsorted'
    obtain ⟨i, hi, rfl⟩ := List.mem_iff_getElem.mp ((hmem z).mpr hzcur)
    obtain ⟨j, hj, rfl⟩ := List.mem_iff_getElem.mp ((hmem x).mpr hcur)
    rcases Nat.lt_trichotomy i j with hij | rfl | hij
    · exact absurd hd (ne_of_lt (hsorted' i j hi hj hij))
    · exact hz
    · exact absurd hd (ne_of_gt (hsorted' j i hj hi hij))

theorem asOf_eq_none (log : List α) (t : D) : asOf date t (fill date log) = none ↔ ∀ x ∈ log, t < date x := by
  constructor
  · intro h x hx
    by_contra hle
    obtain ⟨y, hy, hd⟩ := exists_current date log hx
    have hin : y ∈ (fill date log).filter (fun x => decide (date x ≤ t)) := by
      rw [List.mem_filter, (fill_spec date log).2, decide_eq_true_eq, hd]
      exact ⟨hy, not_lt.mp hle⟩
    obtain ⟨z, hz⟩ : ∃ z, asOf date t (fill date log) = some z := Select.exists_pick (List.ne_nil_of_mem hin)
    rw [h] at hz
    cases hz
  · intro h
    cases ha : asOf date t (fill date log) with
    | none => rfl
    | some x =>
      obtain ⟨hcur, hle, -⟩ := (asOf_fill date log t x).mp ha
      exact absurd hle (not_le.mpr (h x hcur.mem))

/-- The item is the last one of its own date's part of the log. -/
theorem current_iff_filter (log : List α) (x : α) :
    Current date log x ↔ (log.filter fun y => date y = date x).getLast? = some x := by
  induction log using List.reverseRecOn with
  | nil => exact iff_of_false (fun h => List.not_mem_nil h.mem) (by simp)
  | append_singleton log z ih =>
    rw [current_concat, ih, List.filter_append]
    by_cases hd : date z = date x
    · rw [List.filter_cons_of_pos (by simpa using hd), List.filter_nil, List.getLast?_concat, Option.some.injEq]
      constructor
      · rintro (rfl | ⟨-, hne⟩)
        · rfl
        · exact absurd hd.symm hne
      · exact fun h => .inl h.symm
    · rw [List.filter_cons_of_neg (by simpa using hd), List.filter_nil, List.append_nil]
      constructor
      · rintro (rfl | ⟨h, -⟩)
        · exact absurd rfl hd
        · exact h
      · exact fun h => .inr ⟨h, Ne.symm hd⟩

/-- Only the order within each date matters, and no later date does. -/
theorem asOf_congr {log log' : List α} {t : D}
    (h : ∀ d ≤ t, (log.filter fun x => date x = d) = log'.filter fun x => date x = d) :
    asOf date t (fill date log) = asOf date t (fill date log') := by
  have hmem : ∀ x, date x ≤ t → (x ∈ log ↔ x ∈ log') := by
    intro x hx
    have := congrArg (x ∈ ·) (h (date x) hx)
    simpa [List.mem_filter] using this
  apply Option.ext
  intro x
  rw [asOf_fill, asOf_fill, current_iff_filter, current_iff_filter]
  constructor
  · rintro ⟨hcur, hle, hmax⟩
    exact ⟨h (date x) hle ▸ hcur, hle, fun y hy hyt => hmax y ((hmem y hyt).mpr hy) hyt⟩
  · rintro ⟨hcur, hle, hmax⟩
    exact ⟨h (date x) hle ▸ hcur, hle, fun y hy hyt => hmax y ((hmem y hyt).mp hy) hyt⟩

/-- An item of a later date changes nothing, wherever it stands in the log. -/
theorem asOf_insert_of_lt (before after : List α) {x : α} {t : D} (h : t < date x) :
    asOf date t (fill date (before ++ x :: after)) = asOf date t (fill date (before ++ after)) := by
  refine asOf_congr date fun d hd => ?_
  have hne : ¬ date x = d := fun he => absurd hd (not_le.mpr (he ▸ h))
  rw [List.filter_append, List.filter_append, List.filter_cons_of_neg (by simpa using hne)]

end Effective
