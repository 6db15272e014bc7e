import Mathlib.Data.List.Basic

/-!
# Fields with a separator

A line `x ++ c :: y` determines `x` and `y` unless one `x` goes on past another (`append_cons_cases`), so it
does when `c` is not in `x` (`append_cons_inj`).  A list of fields joined with `c` determines the fields when
`c` is in none of them (`intercalate_inj`).
-/

namespace Separated

variable {α : Type} {c : α}

/-- Two readings of a line `x ++ c :: y`: they are the same, or one `x` goes on past the end of the other. -/
theorem append_cons_cases {x₁ x₂ y₁ y₂ : List α} (h : x₁ ++ c :: y₁ = x₂ ++ c :: y₂) :
    x₁ = x₂ ∧ y₁ = y₂ ∨ x₁ ++ [c] <+: x₂ ∨ x₂ ++ [c] <+: x₁ := by
  rcases List.append_eq_append_iff.mp h with ⟨z, hx, hy⟩ | ⟨z, hx, hy⟩
  · cases z with
    | nil =>
      rw [List.append_nil] at hx
      exact .inl ⟨hx.symm, (List.cons_eq_cons.mp hy).2⟩
    | cons a z =>
      obtain ⟨rfl, -⟩ := List.cons_eq_cons.mp hy
      exact .inr (.inl ⟨z, by rw [hx, List.append_assoc, List.singleton_append]⟩)
  · cases z with
    | nil =>
      rw [List.append_nil] at hx
      exact .inl ⟨hx, (List.cons_eq_cons.mp hy).2.symm⟩
    | cons a z =>
      obtain ⟨rfl, -⟩ := List.cons_eq_cons.mp hy
      exact .inr (.inr ⟨z, by rw [hx, List.append_assoc, List.singleton_append]⟩)

/-- The first field of a line, and the rest of it. -/
theorem append_cons_inj {x₁ x₂ y₁ y₂ : List α} (h₁ : c ∉ x₁) (h₂ : c ∉ x₂) :
    x₁ ++ c :: y₁ = x₂ ++ c :: y₂ ↔ x₁ = x₂ ∧ y₁ = y₂ := by
  constructor
  · intro h
    rcases append_cons_cases h with heq | hle | hle
    · exact heq
    · exact absurd (hle.subset (by simp)) h₂
    · exact absurd (hle.subset (by simp)) h₁
  · rintro ⟨rfl, rfl⟩
    rfl

/-- Fields without the separator, joined: the line says what they were. -/
theorem intercalate_inj [DecidableEq α] {xs ys : List (List α)} (hx : ∀ x ∈ xs, c ∉ x ∧ x ≠ [])
    (hy : ∀ y ∈ ys, c ∉ y ∧ y ≠ []) : [c].intercalate xs = [c].intercalate ys ↔ xs = ys := by
  constructor
  · intro h
    have hnil : ∀ {zs : List (List α)}, (∀ z ∈ zs, c ∉ z ∧ z ≠ []) → [c].intercalate zs = [] → zs = [] := by
      intro zs hz h
      by_contra hne
      have hs := List.splitOn_intercalate c (fun z hm => (hz z hm).1) hne
      rw [h, List.splitOn_nil] at hs
      exact (hz [] (by rw [← hs]; exact List.mem_cons_self)).2 rfl
    by_cases hxe : xs = []
    · rw [hxe, List.intercalate_nil] at h
      rw [hxe, hnil hy h.symm]
    · by_cases hye : ys = []
      · rw [hye, List.intercalate_nil] at h
        exact absurd (hnil hx h) hxe
      · rw [← List.splitOn_intercalate c (fun x hm => (hx x hm).1) hxe, h,
          List.splitOn_intercalate c (fun y hm => (hy y hm).1) hye]
  · rintro rfl
    rfl

/-- A joined line holds its fields' letters and the separator only. -/
theorem not_mem_intercalate {a : α} (ha : a ≠ c) {xs : List (List α)} (h : ∀ x ∈ xs, a ∉ x) :
    a ∉ [c].intercalate xs := by
  induction xs with
  | nil => exact List.not_mem_nil
  | cons x xs ih =>
    obtain ⟨hx, hxs⟩ := List.forall_mem_cons.mp h
    cases xs with
    | nil => rwa [List.intercalate_singleton]
    | cons y xs =>
      rw [List.intercalate_cons_cons, List.mem_append, List.mem_append, List.mem_singleton]
      rintro ((hm | hm) | hm)
      · exact hx hm
      · exact ha hm
      · exact ih hxs hm

end Separated
