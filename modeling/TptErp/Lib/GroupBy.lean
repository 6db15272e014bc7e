import Mathlib.Algebra.BigOperators.Group.List.Basic
import Mathlib.Data.List.Nodup
import Mathlib.Order.Lattice

/-!
# Grouping by a key

The items of each of several keys, one group after the other, are the items of those keys
(`flatMap_filter_perm`); so a sum over the items is the sum of the groups' sums (`sum_groups`).  A list is
determined by its groups and the order of the keys (`eq_of_filters`).  `sortedGroups` groups the items in
one pass, keeping the groups in the order of their keys (`sortedGroups_groups`).
-/

namespace GroupBy

variable {α κ : Type} [DecidableEq κ] (key : α → κ)

/-- The groups of distinct keys, put together again. -/
theorem flatMap_filter_perm {keys : List κ} (hk : keys.Nodup) (items : List α) :
    (keys.flatMap fun k => items.filter fun x => key x = k).Perm (items.filter fun x => key x ∈ keys) := by
  induction keys with
  | nil => simp
  | cons k keys ih =>
    obtain ⟨hn, hk⟩ := List.nodup_cons.mp hk
    rw [List.flatMap_cons]
    -- among the items of all keys, those of the first one and the others
    have hsplit := List.filter_append_perm (fun x => decide (key x = k)) (items.filter fun x => key x ∈ k :: keys)
    rw [List.filter_filter, List.filter_filter] at hsplit
    refine List.Perm.trans (List.Perm.append ?_ ((ih hk).trans ?_)) hsplit
    · apply List.Perm.of_eq
      apply List.filter_congr
      intro x _
      by_cases h : key x = k
      · simp [h]
      · simp [h]
    · apply List.Perm.of_eq
      apply List.filter_congr
      intro x _
      by_cases h : key x = k
      · simp [h, hn]
      · simp [h]

/-- Grouping by keys that cover the items. -/
theorem groups_perm {keys : List κ} (hk : keys.Nodup) {items : List α} (hc : ∀ x ∈ items, key x ∈ keys) :
    (keys.flatMap fun k => items.filter fun x => key x = k).Perm items := by
  have hp := flatMap_filter_perm key hk items
  rwa [List.filter_eq_self.mpr fun x hx => decide_eq_true (hc x hx)] at hp

/-- The sum over the items is the sum of the groups' sums. -/
theorem sum_groups {M : Type} [AddCommMonoid M] (f : α → M) {keys : List κ} (hk : keys.Nodup)
    {items : List α} (hc : ∀ x ∈ items, key x ∈ keys) :
    (keys.map fun k => ((items.filter fun x => key x = k).map f).sum).sum = (items.map f).sum := by
  rw [← ((groups_perm key hk hc).map f).sum_eq]
  clear hc hk
  induction keys with
  | nil => rfl
  | cons k keys ih => simp [ih]

/-- In a list without repeated keys a key picks one item. -/
theorem filter_key_eq {key : α → κ} {l : List α} (hn : (l.map key).Nodup) {a : α}
    (ha : a ∈ l) : (l.filter fun x => key x = key a) = [a] := by
  induction l with
  | nil => cases ha
  | cons b l ih =>
    rw [List.map_cons, List.nodup_cons] at hn
    rcases List.mem_cons.mp ha with rfl | ha
    · rw [List.filter_cons_of_pos (by simp), List.filter_eq_nil_iff.mpr]
      intro x hx he
      exact hn.1 (List.mem_map.mpr ⟨x, hx, of_decide_eq_true he⟩)
    · rw [List.filter_cons_of_neg, ih hn.2 ha]
      intro he
      exact hn.1 (List.mem_map.mpr ⟨a, ha, (of_decide_eq_true he).symm⟩)

/-- A group that is the only one with items. -/
theorem flatMap_eq_of_single {ι : Type} {l : List ι} (hl : l.Nodup) {i : ι} (hi : i ∈ l) {f : ι → List α}
    (h : ∀ j ∈ l, j ≠ i → f j = []) : l.flatMap f = f i := by
  induction l with
  | nil => exact absurd hi List.not_mem_nil
  | cons j l ih =>
    obtain ⟨hn, hl⟩ := List.nodup_cons.mp hl
    rw [List.flatMap_cons]
    by_cases hj : j = i
    · subst hj
      have hrest : l.flatMap f = [] := by
        rw [List.flatMap_eq_nil_iff]
        intro j' hj'
        exact h j' (List.mem_cons_of_mem _ hj') fun he => hn (he ▸ hj')
      rw [hrest, List.append_nil]
    · rw [h j List.mem_cons_self hj, List.nil_append]
      apply ih hl
      · exact (List.mem_cons.mp hi).resolve_left (Ne.symm hj)
      · intro j' hj'
        exact h j' (List.mem_cons_of_mem _ hj')

/-- A list is determined by the keys of its items, in order, and by the items of each key. -/
theorem eq_of_filters {xs ys : List α} (hk : xs.map key = ys.map key)
    (h : ∀ k, xs.filter (fun x => key x = k) = ys.filter fun x => key x = k) : xs = ys := by
  induction xs generalizing ys with
  | nil => exact (List.map_eq_nil_iff.mp hk.symm).symm
  | cons x xs ih =>
    cases ys with
    | nil => cases hk
    | cons y ys =>
      obtain ⟨hxy, hrest⟩ := List.cons_eq_cons.mp hk
      -- both first items come first in their common group
      have hg := h (key x)
      rw [List.filter_cons_of_pos (by simp), List.filter_cons_of_pos (by simp [hxy])] at hg
      obtain ⟨rfl, -⟩ := List.cons_eq_cons.mp hg
      congr 1
      apply ih hrest
      intro k
      have hk' := h k
      by_cases hx : key x = k
      · rw [List.filter_cons_of_pos (by simpa using hx), List.filter_cons_of_pos (by simpa using hx)] at hk'
        exact (List.cons_eq_cons.mp hk').2
      · rwa [List.filter_cons_of_neg (by simpa using hx), List.filter_cons_of_neg (by simpa using hx)] at hk'

/-! ## Groups in the order of their keys -/

section
variable {α κ : Type} [LinearOrder κ]

/-- The item is appended to the group of its key; a new group takes its place in the order of the
keys. -/
def push (k : κ) (a : α) : List (κ × List α) → List (κ × List α)
  | [] => [(k, [a])]
  | g :: m =>
    if k < g.1 then (k, [a]) :: g :: m
    else if k = g.1 then (g.1, g.2 ++ [a]) :: m
    else g :: push k a m

/-- The items grouped by `key`, in one pass. -/
def sortedGroups (key : α → κ) (items : List α) : List (κ × List α) :=
  items.foldl (fun m a => push (key a) a m) []

/-- `m` groups the items: the keys ascend, and each key that occurs has its items, in their order. -/
structure Groups (key : α → κ) (items : List α) (m : List (κ × List α)) : Prop where
  sorted : (m.map Prod.fst).Pairwise (· < ·)
  mem : ∀ k ms, (k, ms) ∈ m ↔ ms = (items.filter fun a => key a = k) ∧ ms ≠ []

/-- What a push does: the groups of the smaller keys stay in front and those of the greater keys behind; the
key's own group is new, or has one item more. -/
theorem push_cases {k : κ} {a : α} {m : List (κ × List α)} (h : (m.map Prod.fst).Pairwise (· < ·)) :
    ∃ before after : List (κ × List α), (∀ g ∈ before, g.1 < k) ∧ (∀ g ∈ after, k < g.1) ∧
      ((m = before ++ after ∧ push k a m = before ++ (k, [a]) :: after) ∨
        ∃ old, m = before ++ (k, old) :: after ∧ push k a m = before ++ (k, old ++ [a]) :: after) := by
  induction m with
  | nil => exact ⟨[], [], by simp, by simp, .inl ⟨rfl, rfl⟩⟩
  | cons g m ih =>
    rw [List.map_cons, List.pairwise_cons] at h
    obtain ⟨hg, hm⟩ := h
    have hlater : ∀ g' ∈ m, g.1 < g'.1 := fun g' hg' => hg _ (List.mem_map_of_mem hg')
    rw [push]
    split
    · next hlt =>
      refine ⟨[], g :: m, by simp, ?_, .inl ⟨rfl, rfl⟩⟩
      exact List.forall_mem_cons.mpr ⟨hlt, fun g' hg' => lt_trans hlt (hlater g' hg')⟩
    · next hnlt =>
      split
      · next he =>
        subst he
        exact ⟨[], m, by simp, hlater, .inr ⟨g.2, rfl, rfl⟩⟩
      · next hne =>
        have hgk : g.1 < k := lt_of_le_of_ne (not_lt.mp hnlt) (Ne.symm hne)
        obtain ⟨before, after, hbefore, hafter, hcase⟩ := ih hm
        refine ⟨g :: before, after, List.forall_mem_cons.mpr ⟨hgk, hbefore⟩, hafter, ?_⟩
        rcases hcase with ⟨rfl, hpush⟩ | ⟨old, rfl, hpush⟩
        · exact .inl ⟨rfl, by rw [hpush, List.cons_append]⟩
        · exact .inr ⟨old, rfl, by rw [hpush, List.cons_append]⟩

theorem push_sorted {k : κ} {a : α} {m : List (κ × List α)} (h : (m.map Prod.fst).Pairwise (· < ·)) :
    ((push k a m).map Prod.fst).Pairwise (· < ·) := by
  obtain ⟨before, after, hbefore, hafter, ⟨rfl, hpush⟩ | ⟨old, rfl, hpush⟩⟩ := push_cases (k := k) (a := a) h
  · rw [List.map_append, List.pairwise_append] at h
    obtain ⟨hb, ha, hcross⟩ := h
    rw [hpush, List.map_append, List.map_cons, List.pairwise_append, List.pairwise_cons]
    refine ⟨hb, ⟨List.forall_mem_map.mpr hafter, ha⟩, ?_⟩
    intro k' hk' k'' hk''
    rcases List.mem_cons.mp hk'' with rfl | hk''
    · obtain ⟨g, hg, rfl⟩ := List.mem_map.mp hk'
      exact hbefore g hg
    · exact hcross k' hk' k'' hk''
  · rw [hpush]
    simpa only [List.map_append, List.map_cons] using h

/-- The groups after a push: the key's own group is longer, the others are as they were. -/
theorem mem_push {k : κ} {a : α} {m : List (κ × List α)} (h : (m.map Prod.fst).Pairwise (· < ·)) (k' : κ)
    (ms : List α) :
    (k', ms) ∈ push k a m ↔
      (k' ≠ k ∧ (k', ms) ∈ m) ∨
      (k' = k ∧ ((∃ old, (k, old) ∈ m ∧ ms = old ++ [a]) ∨ (k ∉ m.map Prod.fst ∧ ms = [a]))) := by
  obtain ⟨before, after, hbefore, hafter, hcase⟩ := push_cases (k := k) (a := a) h
  have hb : ∀ l, (k, l) ∉ before := fun l hmem => lt_irrefl _ (hbefore _ hmem)
  have ha : ∀ l, (k, l) ∉ after := fun l hmem => lt_irrefl _ (hafter _ hmem)
  rcases hcase with ⟨rfl, hpush⟩ | ⟨old, rfl, hpush⟩
  · rw [hpush, List.perm_middle.mem_iff, List.mem_cons, Prod.mk.injEq]
    by_cases hk : k' = k
    · subst hk
      simp [hb, ha]
    · simp [hk]
  · rw [hpush, List.perm_middle.mem_iff, List.perm_middle.mem_iff, List.mem_cons, List.mem_cons, Prod.mk.injEq,
      Prod.mk.injEq]
    by_cases hk : k' = k
    · subst hk
      simp [hb, ha]
    · simp [hk]

theorem Groups.push {key : α → κ} {items : List α} {m : List (κ × List α)} (h : Groups key items m) (a : α) :
    Groups key (items ++ [a]) (push (key a) a m) := by
  refine ⟨push_sorted h.sorted, ?_⟩
  intro k ms
  rw [mem_push h.sorted, List.filter_append]
  by_cases hk : k = key a
  · subst hk
    have hkey : key a ∈ m.map Prod.fst ↔ (items.filter fun b => key b = key a) ≠ [] := by
      rw [List.mem_map]
      constructor
      · rintro ⟨⟨k, ms⟩, hmem, rfl⟩
        obtain ⟨rfl, hne⟩ := (h.mem _ _).mp hmem
        exact hne
      · intro hne
        exact ⟨_, (h.mem _ _).mpr ⟨rfl, hne⟩, rfl⟩
    simp only [ne_eq, not_true_eq_false, false_and, true_and, false_or, hkey, h.mem, List.filter_cons, decide_true,
      if_true, List.filter_nil]
    constructor
    · rintro (⟨old, ⟨rfl, -⟩, rfl⟩ | ⟨hnil, rfl⟩)
      · exact ⟨rfl, by simp⟩
      · exact ⟨by rw [not_not.mp hnil, List.nil_append], by simp⟩
    · rintro ⟨rfl, -⟩
      by_cases hnil : (items.filter fun b => decide (key b = key a)) = []
      · exact .inr ⟨not_not.mpr hnil, by rw [hnil, List.nil_append]⟩
      · exact .inl ⟨_, ⟨rfl, hnil⟩, rfl⟩
  · have hne : ¬ key a = k := fun he => hk he.symm
    simp only [hk, hne, ne_eq, not_false_eq_true, true_and, false_and, or_false, h.mem, List.filter_cons, decide_false,
      Bool.false_eq_true, if_false, List.filter_nil, List.append_nil]

/-- The groups, one after the other, are the items. -/
theorem Groups.flatMap_perm {key : α → κ} {items : List α} {m : List (κ × List α)} (h : Groups key items m) :
    (m.flatMap Prod.snd).Perm items := by
  have hkeys : (m.map Prod.fst).Nodup := h.sorted.imp ne_of_lt
  have hcover : ∀ a ∈ items, key a ∈ m.map Prod.fst := by
    intro a ha
    have hne : (items.filter fun b => key b = key a) ≠ [] :=
      List.ne_nil_of_mem (List.mem_filter.mpr ⟨ha, decide_eq_true rfl⟩)
    exact List.mem_map.mpr ⟨_, (h.mem (key a) _).mpr ⟨rfl, hne⟩, rfl⟩
  have hp := groups_perm key hkeys hcover
  rw [List.flatMap_map] at hp
  refine List.Perm.trans (List.Perm.of_eq ?_) hp
  apply List.flatMap_congr
  rintro ⟨k, ms⟩ hmem
  exact ((h.mem k ms).mp hmem).1

theorem sortedGroups_groups (key : α → κ) (items : List α) : Groups key items (sortedGroups key items) := by
  have hall : ∀ (rest done : List α) m, Groups key done m →
      Groups key (done ++ rest) (rest.foldl (fun m a => GroupBy.push (key a) a m) m) := by
    intro rest
    induction rest with
    | nil =>
      intro done m h
      rwa [List.append_nil]
    | cons a rest ih =>
      intro done m h
      have := ih (done ++ [a]) _ (h.push a)
      rwa [List.append_assoc] at this
  refine hall items [] [] ⟨List.Pairwise.nil, fun k ms => ?_⟩
  simp only [List.not_mem_nil, List.filter_nil, false_iff, not_and, not_not]
  exact fun h => h

end

end GroupBy
