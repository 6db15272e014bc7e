import Mathlib.Data.List.Basic

/-!
# Selecting one item in a pass

`pick replace l` goes through `l` with the item it holds, and takes the next one instead when
`replace` says so.  When the held item stays behind in an order `le` exactly as `replace` decides,
what is picked is `le` all items (`pick_some`).
-/

namespace Select

variable {α : Type} (replace : α → α → Bool)

/-- One item of the pass: the item held so far, and the next one. -/
def better : Option α → α → Option α
  | none, a => some a
  | some b, a => if replace b a then some a else some b

def pick (l : List α) : Option α := l.foldl (better replace) none

variable {replace} {le : α → α → Prop}

theorem foldl_better_some (hrefl : ∀ a, le a a) (htrans : ∀ a b c, le a b → le b c → le a c)
    (hreplace : ∀ b a, if replace b a then le a b else le b a) (l : List α) (b : α) :
    ∃ a, l.foldl (better replace) (some b) = some a ∧ (a = b ∨ a ∈ l) ∧ le a b ∧ ∀ c ∈ l, le a c := by
  induction l generalizing b with
  | nil => exact ⟨b, rfl, .inl rfl, hrefl b, fun c hc => absurd hc List.not_mem_nil⟩
  | cons x l ih =>
    have hx := hreplace b x
    rw [List.foldl_cons, better]
    split
    · next h =>
      rw [if_pos h] at hx
      obtain ⟨a, ha, hmem, hle, hall⟩ := ih x
      refine ⟨a, ha, ?_, htrans a x b hle hx, ?_⟩
      · rcases hmem with rfl | hmem
        · exact .inr List.mem_cons_self
        · exact .inr (List.mem_cons_of_mem x hmem)
      · intro c hc
        rcases List.mem_cons.mp hc with rfl | hc
        · exact hle
        · exact hall c hc
    · next h =>
      rw [if_neg h] at hx
      obtain ⟨a, ha, hmem, hle, hall⟩ := ih b
      refine ⟨a, ha, ?_, hle, ?_⟩
      · rcases hmem with rfl | hmem
        · exact .inl rfl
        · exact .inr (List.mem_cons_of_mem x hmem)
      · intro c hc
        rcases List.mem_cons.mp hc with rfl | hc
        · exact htrans a b c hle hx
        · exact hall c hc

theorem pick_eq_none {l : List α} : pick replace l = none ↔ l = [] := by
  cases l with
  | nil => exact iff_of_true rfl rfl
  | cons x l =>
    have hsome : ∀ (l : List α) (b : α), l.foldl (better replace) (some b) ≠ none := by
      intro l
      induction l with
      | nil => exact fun b h => by cases h
      | cons y l ih =>
        intro b
        rw [List.foldl_cons, better]
        split
        · exact ih y
        · exact ih b
    exact iff_of_false (hsome l x) (List.cons_ne_nil x l)

theorem exists_pick {l : List α} (h : l ≠ []) : ∃ a, pick replace l = some a := by
  cases hp : pick replace l with
  | none => exact absurd (pick_eq_none.mp hp) h
  | some a => exact ⟨a, rfl⟩

/-- **What is picked** is an item of the list, and comes before all of them. -/
theorem pick_some (hrefl : ∀ a, le a a) (htrans : ∀ a b c, le a b → le b c → le a c)
    (hreplace : ∀ b a, if replace b a then le a b else le b a) {l : List α} {a : α} (h : pick replace l = some a) :
    a ∈ l ∧ ∀ b ∈ l, le a b := by
  cases l with
  | nil => cases h
  | cons x l =>
    obtain ⟨a', ha', hmem, hle, hall⟩ := foldl_better_some hrefl htrans hreplace l x
    obtain rfl : a' = a := Option.some.inj (ha'.symm.trans h)
    constructor
    · rcases hmem with rfl | hmem
      · exact List.mem_cons_self
      · exact List.mem_cons_of_mem x hmem
    · intro b hb
      rcases List.mem_cons.mp hb with rfl | hb
      · exact hle
      · exact hall b hb

end Select
