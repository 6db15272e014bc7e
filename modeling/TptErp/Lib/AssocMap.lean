import Mathlib.Data.List.AList
import Mathlib.Algebra.BigOperators.Group.List.Basic

/-!
# Finite maps and sums over their values

`AssocMap K V` is Mathlib's association list without repeated keys, at one value type.  What is
added here is the sum of a weight over the values, `sumOf`, and how inserting and erasing a key
changes it; and what a map that is folded from events has at a key (`getD_foldl_insert`).
-/

/-- A finite map: an association list without repeated keys. -/
abbrev AssocMap (K V : Type) := AList fun _ : K => V

namespace AssocMap

section
variable {K V M : Type} [AddCommMonoid M] (f : V → M)

/-- The sum of `f` over the values. -/
def sumOf (m : AssocMap K V) : M := (m.entries.map fun e => f e.2).sum

/-- The sum does not depend on the order of the entries. -/
theorem sumOf_perm {m n : AssocMap K V} (h : m.entries.Perm n.entries) : sumOf f m = sumOf f n :=
  (h.map _).sum_eq

end

section
variable {K V M : Type} [DecidableEq K] [AddCommMonoid M] (f : V → M)

/-- The value at `k`, or `d` when there is none. -/
def getD (m : AssocMap K V) (k : K) (d : V) : V := (m.lookup k).getD d

/-- Two maps with the same lookups have the same sum. -/
theorem sumOf_congr {m n : AssocMap K V} (h : ∀ k, m.lookup k = n.lookup k) : sumOf f m = sumOf f n :=
  sumOf_perm f (List.lookup_ext m.nodupKeys n.nodupKeys fun k v => by
    have := h k
    simp only [AList.lookup] at this
    rw [this])

theorem sumOf_insert_of_notMem {m : AssocMap K V} {k : K} (v : V) (h : m.lookup k = none) :
    sumOf f (m.insert k v) = f v + sumOf f m := by
  have hk : k ∉ m := AList.lookup_eq_none.mp h
  rw [sumOf, AList.entries_insert_of_notMem hk]
  rfl

/-- Erasing a key takes its value out of the sum. -/
theorem sumOf_erase {m : AssocMap K V} {k : K} {v : V} (h : m.lookup k = some v) :
    f v + sumOf f (m.erase k) = sumOf f m := by
  rw [← sumOf_insert_of_notMem f v (AList.lookup_erase k m)]
  refine sumOf_congr f fun k' => ?_
  by_cases hk : k' = k
  · subst hk; rw [AList.lookup_insert, h]
  · rw [AList.lookup_insert_ne hk, AList.lookup_erase_ne hk]

theorem lookup_insert_eq (m : AssocMap K V) (k k' : K) (v : V) :
    (m.insert k v).lookup k' = if k' = k then some v else m.lookup k' := by
  split
  · next h => rw [h, AList.lookup_insert]
  · next h => rw [AList.lookup_insert_ne h]

theorem lookup_erase_eq (m : AssocMap K V) (k k' : K) :
    (m.erase k).lookup k' = if k' = k then none else m.lookup k' := by
  split
  · next h => rw [h, AList.lookup_erase]
  · next h => rw [AList.lookup_erase_ne h]

theorem lookup_foldl_erase (ks : List K) (m : AssocMap K V) (k : K) :
    (ks.foldl (fun m k => m.erase k) m).lookup k = if k ∈ ks then none else m.lookup k := by
  induction ks generalizing m with
  | nil => simp
  | cons k' ks ih =>
    rw [List.foldl_cons, ih, lookup_erase_eq]
    by_cases hk : k = k'
    · simp [hk]
    · simp [hk]

theorem lookup_foldl_insert (ks : List K) (v : V) (m : AssocMap K V) (k : K) :
    (ks.foldl (fun m k => m.insert k v) m).lookup k = if k ∈ ks then some v else m.lookup k := by
  induction ks generalizing m with
  | nil => simp
  | cons k' ks ih =>
    rw [List.foldl_cons, ih, lookup_insert_eq]
    by_cases hk : k = k'
    · simp [hk]
    · simp [hk]

/-- The entries whose keys meet `p`. -/
def retain (p : K → Bool) (m : AssocMap K V) : AssocMap K V where
  entries := m.entries.filter fun e => p e.1
  nodupKeys := m.nodupKeys.sublist List.filter_sublist

theorem lookup_retain (p : K → Bool) (m : AssocMap K V) (k : K) :
    (m.retain p).lookup k = if p k then m.lookup k else none := by
  have hmem : ∀ v, (m.retain p).lookup k = some v ↔ m.lookup k = some v ∧ p k = true := by
    intro v
    simp only [AList.lookup, retain]
    rw [← Option.mem_def, ← Option.mem_def, List.mem_dlookup_iff (m.nodupKeys.sublist List.filter_sublist),
      List.mem_dlookup_iff m.nodupKeys, List.mem_filter]
  apply Option.ext
  intro v
  rw [hmem]
  by_cases hp : p k = true
  · simp [hp]
  · simp [hp]

/-- The sum of `g` over the entries, which may look at the keys. -/
def sumEntries (g : K → V → M) (m : AssocMap K V) : M := (m.entries.map fun e => g e.1 e.2).sum

theorem sumEntries_insert_of_notMem (g : K → V → M) {m : AssocMap K V} {k : K} (v : V) (h : m.lookup k = none) :
    sumEntries g (m.insert k v) = g k v + sumEntries g m := by
  have hk : k ∉ m := AList.lookup_eq_none.mp h
  rw [sumEntries, AList.entries_insert_of_notMem hk]
  rfl

theorem sumEntries_congr (g : K → V → M) {m n : AssocMap K V} (h : ∀ k, m.lookup k = n.lookup k) :
    sumEntries g m = sumEntries g n := by
  have hp : m.entries.Perm n.entries := List.lookup_ext m.nodupKeys n.nodupKeys fun k v => by
    have := h k
    simp only [AList.lookup] at this
    rw [this]
  exact (hp.map _).sum_eq

/-- Inserting at a key replaces the key's part of the sum. -/
theorem sumEntries_insert (g : K → V → M) (m : AssocMap K V) (k : K) (v : V) :
    sumEntries g (m.insert k v) + ((m.lookup k).map (g k)).getD 0 = g k v + sumEntries g m := by
  have he : sumEntries g (m.insert k v) = g k v + sumEntries g (m.erase k) := by
    rw [← sumEntries_insert_of_notMem g v (AList.lookup_erase k m)]
    apply sumEntries_congr
    intro k'
    rw [lookup_insert_eq, lookup_insert_eq, lookup_erase_eq]
    split
    · rfl
    · rfl
  cases hl : m.lookup k with
  | none =>
    rw [sumEntries_insert_of_notMem g v hl]
    exact add_zero _
  | some v₀ =>
    have hm : sumEntries g m = g k v₀ + sumEntries g (m.erase k) := by
      rw [← sumEntries_insert_of_notMem g v₀ (AList.lookup_erase k m)]
      apply sumEntries_congr
      intro k'
      rw [lookup_insert_eq, lookup_erase_eq]
      split
      · next hk => rw [hk, hl]
      · rfl
    rw [he, hm, Option.map_some, Option.getD_some, add_assoc, add_comm (sumEntries g (m.erase k))]

/-- The same for a sum of values, a missing key counting as a value of weight 0. -/
theorem sumOf_insert (m : AssocMap K V) (k : K) (v : V) {d : V} (hd : f d = 0) :
    sumOf f (m.insert k v) + f (getD m k d) = f v + sumOf f m := by
  have h := sumEntries_insert (fun _ : K => f) m k v
  unfold getD
  cases hl : m.lookup k with
  | none =>
    rw [hl] at h
    rw [Option.getD_none, hd]
    exact h
  | some w =>
    rw [hl] at h
    exact h

theorem getD_insert_eq (m : AssocMap K V) (k k' : K) (v d : V) :
    getD (m.insert k v) k' d = if k' = k then v else getD m k' d := by
  simp only [getD, lookup_insert_eq]
  split <;> rfl

/-- **A fold over events, key by key**: each key's value is the fold of that key's events. -/
theorem getD_foldl_insert {E : Type} (key : E → K) (f : V → E → V) (d : V) (events : List E)
    (m : AssocMap K V) (k : K) :
    getD (events.foldl (fun m e => m.insert (key e) (f (getD m (key e) d) e)) m) k d =
      (events.filter fun e => key e = k).foldl f (getD m k d) := by
  induction events generalizing m with
  | nil => rfl
  | cons e events ih =>
    rw [List.foldl_cons, ih, getD_insert_eq]
    by_cases h : key e = k
    · rw [List.filter_cons_of_pos (by simpa using h), List.foldl_cons, if_pos h.symm, h]
    · rw [List.filter_cons_of_neg (by simpa using h), if_neg (Ne.symm h)]

/-- The keys of a map folded from events. -/
theorem mem_foldl_insert {E : Type} (key : E → K) (val : AssocMap K V → E → V) (events : List E)
    (m : AssocMap K V) (k : K) :
    k ∈ events.foldl (fun m e => m.insert (key e) (val m e)) m ↔ k ∈ m ∨ ∃ e ∈ events, key e = k := by
  induction events generalizing m with
  | nil => simp
  | cons e events ih =>
    rw [List.foldl_cons, ih, AList.mem_insert, List.exists_mem_cons_iff]
    constructor
    · rintro ((rfl | h) | h)
      · exact .inr (.inl rfl)
      · exact .inl h
      · exact .inr (.inr h)
    · rintro (h | rfl | h)
      · exact .inl (.inr h)
      · exact .inl (.inl rfl)
      · exact .inr h

/-- The map with each value computed from its key and value. -/
def mapEntries {W : Type} (g : K → V → W) (m : AssocMap K V) : AssocMap K W where
  entries := m.entries.map fun e => ⟨e.1, g e.1 e.2⟩
  nodupKeys := by
    have h := m.nodupKeys
    rw [List.NodupKeys, List.keys] at h ⊢
    rwa [List.map_map]

theorem lookup_mapEntries {W : Type} (g : K → V → W) (m : AssocMap K V) (k : K) :
    (m.mapEntries g).lookup k = (m.lookup k).map (g k) := by
  apply Option.ext
  intro w
  have hn : (m.entries.map fun e => (⟨e.1, g e.1 e.2⟩ : Sigma fun _ : K => W)).NodupKeys := (m.mapEntries g).nodupKeys
  simp only [AList.lookup, mapEntries]
  rw [← Option.mem_def, List.mem_dlookup_iff hn, Option.map_eq_some_iff, List.mem_map]
  constructor
  · rintro ⟨⟨k', v⟩, hv, he⟩
    cases he
    exact ⟨v, (List.mem_dlookup_iff m.nodupKeys).mpr hv, rfl⟩
  · rintro ⟨v, hv, rfl⟩
    exact ⟨⟨k, v⟩, (List.mem_dlookup_iff m.nodupKeys).mp hv, rfl⟩

/-- The map `m` with the entries of `n` inserted. -/
def extend (m n : AssocMap K V) : AssocMap K V := n.entries.foldl (fun m e => m.insert e.1 e.2) m

theorem lookup_foldl_insert_of_notMem (es : List (Sigma fun _ : K => V)) (m : AssocMap K V) {k : K}
    (h : k ∉ es.keys) : (es.foldl (fun m e => m.insert e.1 e.2) m).lookup k = m.lookup k := by
  induction es generalizing m with
  | nil => rfl
  | cons e es ih =>
    rw [List.keys_cons, List.mem_cons, not_or] at h
    rw [List.foldl_cons, ih _ h.2, lookup_insert_eq, if_neg h.1]

theorem lookup_extend (m n : AssocMap K V) (k : K) :
    (m.extend n).lookup k = (n.lookup k).or (m.lookup k) := by
  obtain ⟨es, hn⟩ := n
  simp only [extend, AList.lookup]
  induction es generalizing m with
  | nil => rfl
  | cons e es ih =>
    obtain ⟨he, hes⟩ := List.nodupKeys_cons.mp hn
    obtain ⟨k', v⟩ := e
    rw [List.foldl_cons]
    by_cases hk : k = k'
    · subst hk
      rw [List.dlookup_cons_eq]
      have := lookup_foldl_insert_of_notMem es (m.insert k v) he
      simp only [AList.lookup] at this
      rw [this]
      exact AList.lookup_insert m
    · have := ih (m.insert k' v) hes
      rw [this, List.dlookup_cons_ne _ _ hk]
      congr 1
      exact AList.lookup_insert_ne hk

/-- The sum of `f` over the values of `m` whose keys `n` does not have. -/
def droppedSum (m n : AssocMap K V) : M :=
  ((m.entries.filter fun e => (n.lookup e.1).isNone).map fun e => f e.2).sum

/-- A part of a map, and what it leaves out. -/
theorem sumOf_eq_add_droppedSum {m n : AssocMap K V}
    (h : ∀ k v, n.lookup k = some v → m.lookup k = some v) : sumOf f m = sumOf f n + droppedSum f m n := by
  have hsub : (m.entries.filter fun e => (n.lookup e.1).isSome).NodupKeys :=
    m.nodupKeys.sublist List.filter_sublist
  have hn : n.entries.Perm (m.entries.filter fun e => (n.lookup e.1).isSome) := by
    refine List.lookup_ext n.nodupKeys hsub fun k v => ?_
    rw [List.mem_dlookup_iff hsub, List.mem_filter, ← List.mem_dlookup_iff m.nodupKeys]
    constructor
    · intro hv
      have hl : n.lookup k = some v := hv
      exact ⟨h k v hl, by rw [hl]; rfl⟩
    · rintro ⟨hv, hs⟩
      obtain ⟨v', hv'⟩ := Option.isSome_iff_exists.mp hs
      have hm : m.lookup k = some v := hv
      obtain rfl : v' = v := Option.some.inj ((h k v' hv').symm.trans hm)
      exact hv'
  have hp : ((m.entries.filter fun e => (n.lookup e.1).isSome) ++
      (m.entries.filter fun e => (n.lookup e.1).isNone)).Perm m.entries := by
    have := List.filter_append_perm (fun e : Sigma fun _ : K => V => (n.lookup e.1).isSome) m.entries
    simpa only [Option.not_isSome] using this
  unfold sumOf droppedSum
  rw [(hn.map _).sum_eq, ← (hp.map _).sum_eq, List.map_append, List.sum_append]

end

end AssocMap
