import Mathlib.Data.List.Infix

/-!
# Glob patterns

Patterns with `*`, `?`, classes `[a-c]`, `[^a-c]` and `\` before a character that stands for itself.

    Glob.test (text ++ "*") key ↔ text <+: key        (test_append_many, when no character of the text is special)
-/

namespace Glob

inductive Token
  | one (c : Char)
  | any
  | many
  | oneOf (negated : Bool) (ranges : List (Char × Char))

namespace Token

/-- Whether a token other than `many` matches a character. -/
def accepts : Token → Char → Bool
  | one c, x => c = x
  | any, _ => true
  | many, _ => false
  | oneOf negated ranges, x => (ranges.any fun r => r.1 ≤ x ∧ x ≤ r.2 ∨ r.2 ≤ x ∧ x ≤ r.1) != negated

end Token

/-- The whole of the text matches the pattern. -/
def fits : List Token → List Char → Bool
  | [], xs => xs.isEmpty
  | .many :: ts, xs => xs.tails.any (fits ts)
  | t :: ts, xs =>
    match xs with
    | [] => false
    | x :: xs => t.accepts x && fits ts xs

/-- Reads a pattern; within a class, what has been read of it.  A class that is not closed ends with the pattern. -/
def parse : Option (Bool × List (Char × Char)) → List Char → List Token
  | none, [] => []
  | none, '*' :: cs => .many :: parse none cs
  | none, '?' :: cs => .any :: parse none cs
  | none, '\\' :: c :: cs => .one c :: parse none cs
  | none, '[' :: '^' :: cs => parse (some (true, [])) cs
  | none, '[' :: cs => parse (some (false, [])) cs
  | none, c :: cs => .one c :: parse none cs
  | some (negated, ranges), [] => [.oneOf negated ranges]
  | some (negated, ranges), '\\' :: c :: cs => parse (some (negated, (c, c) :: ranges)) cs
  | some (negated, ranges), ']' :: cs => .oneOf negated ranges :: parse none cs
  | some (negated, ranges), a :: '-' :: b :: cs => parse (some (negated, (a, b) :: ranges)) cs
  | some (negated, ranges), c :: cs => parse (some (negated, (c, c) :: ranges)) cs

def test (pattern key : String) : Bool := fits (parse none pattern.toList) key.toList

/-- The characters that do not stand for themselves. -/
def specials : List Char := ['*', '?', '[', '\\']

theorem plain_of_all {text : List Char} (h : (text.all fun c => !specials.contains c) = true) :
    ∀ c ∈ text, c ∉ specials := by
  intro c hc
  have hcontains := List.all_eq_true.mp h c hc
  simpa using hcontains

/-! ## A text and a star -/

theorem parse_cons {c : Char} (h : c ∉ specials) (cs : List Char) :
    parse none (c :: cs) = .one c :: parse none cs := by
  simp only [specials, List.mem_cons, List.not_mem_nil, or_false, not_or] at h
  obtain ⟨hstar, hquestion, hclass, hescape⟩ := h
  rw [parse]
  · exact hstar
  · exact hquestion
  · exact fun _ _ hc _ => hescape hc
  · exact fun _ hc _ => hclass hc
  · exact hclass

theorem parse_append_many {text : List Char} (h : ∀ c ∈ text, c ∉ specials) :
    parse none (text ++ ['*']) = text.map Token.one ++ [Token.many] := by
  induction text with
  | nil => rfl
  | cons c text ih =>
    rw [List.forall_mem_cons] at h
    rw [List.cons_append, parse_cons h.1, ih h.2]
    rfl

theorem fits_many (xs : List Char) : fits [Token.many] xs = true := by
  show xs.tails.any (fits []) = true
  rw [List.any_eq_true]
  exact ⟨[], (List.mem_tails _ _).mpr List.nil_suffix, rfl⟩

theorem fits_append_many (text xs : List Char) :
    fits (text.map Token.one ++ [Token.many]) xs = true ↔ text <+: xs := by
  induction text generalizing xs with
  | nil => exact iff_of_true (fits_many xs) List.nil_prefix
  | cons c text ih =>
    cases xs with
    | nil => simp [fits]
    | cons x xs =>
      rw [List.cons_prefix_cons, ← ih xs]
      simp [fits, Token.accepts]

/-- **A text and a star** match the keys that begin with the text. -/
theorem test_append_many {text : String} (h : ∀ c ∈ text.toList, c ∉ specials) (key : String) :
    test (text ++ "*") key = true ↔ text.toList <+: key.toList := by
  unfold test
  rw [String.toList_append]
  show fits (parse none (text.toList ++ ['*'])) key.toList = true ↔ _
  rw [parse_append_many h, fits_append_many]

example : test "b[a-c]?\\*" "bbx*" = true := by decide +kernel

end Glob
