import Mathlib.Algebra.Group.Basic
import Mathlib.Data.List.Rotate
import Mathlib.Tactic.Abel

/-!
# Sums along closed walks

A weight `f a b` for the step from `a` to `b`, and its sum over the steps of a walk through a list of
places: `along` from a place, `around` and back to where the walk began.

Where the walk begins does not matter (`around_rotate`), and the walk backwards weighs what the forward
walk does under the weights of the steps backwards (`around_reverse`).  A place put into a step whose
weight it splits changes nothing (`around_insert`).  Where a step and the step back cancel, a chord cuts
a closed walk into two, and the weights add up (`around_cut`); so the weight of every closed walk is the
sum over the triangles of a fan (`around_fan`).
-/

namespace ClosedWalk

variable {α G : Type}

/-- From `a` through the places of a list. -/
def along [AddCommMonoid G] (f : α → α → G) : α → List α → G
  | _, [] => 0
  | a, b :: l => f a b + along f b l

/-- Through the places of a list, and from the last to the first. -/
def around [AddCommMonoid G] (f : α → α → G) : List α → G
  | [] => 0
  | a :: l => along f a (l ++ [a])

section Monoid

variable [AddCommMonoid G] {f : α → α → G} {a b v : α} {l m : List α}

@[simp] theorem along_nil : along f a [] = 0 := rfl

@[simp] theorem along_cons : along f a (b :: l) = f a b + along f b l := rfl

theorem around_cons : around f (a :: l) = along f a (l ++ [a]) := rfl

/-- A walk may be broken at any of its places. -/
theorem along_append : along f a (l ++ b :: m) = along f a (l ++ [b]) + along f b m := by
  induction l generalizing a with
  | nil => simp
  | cons c l ih => simp only [List.cons_append, along_cons, ih, add_assoc]

theorem along_concat : along f a (l ++ [b]) = along f a l + f ((a :: l).getLast (List.cons_ne_nil a l)) b := by
  induction l generalizing a with
  | nil => simp
  | cons c l ih => simp only [List.cons_append, along_cons, ih, add_assoc, List.getLast_cons_cons]

/-! ## Where the walk begins -/

theorem around_append_comm (f : α → α → G) (l m : List α) : around f (l ++ m) = around f (m ++ l) := by
  cases l with
  | nil => rw [List.append_nil, List.nil_append]
  | cons a l =>
    cases m with
    | nil => rw [List.append_nil, List.nil_append]
    | cons b m =>
      calc around f (a :: l ++ b :: m) = along f a (l ++ b :: (m ++ [a])) := by
            rw [List.cons_append, around_cons, List.append_assoc, List.cons_append]
        _ = along f a (l ++ [b]) + along f b (m ++ [a]) := along_append
        _ = along f b (m ++ [a]) + along f a (l ++ [b]) := add_comm _ _
        _ = along f b (m ++ a :: (l ++ [b])) := along_append.symm
        _ = around f (b :: m ++ a :: l) := by
            rw [List.cons_append, around_cons, List.append_assoc, List.cons_append]

theorem around_rotate (f : α → α → G) (l : List α) (n : Nat) : around f (l.rotate n) = around f l := by
  rw [List.rotate_eq_drop_append_take_mod, around_append_comm, List.take_append_drop]

/-! ## Backwards -/

theorem along_reverse : along f a (l.reverse ++ [b]) = along (fun x y => f y x) b (l ++ [a]) := by
  induction l generalizing b with
  | nil => simp
  | cons c l ih =>
    calc along f a ((c :: l).reverse ++ [b]) = along f a (l.reverse ++ [c]) + along f c [b] := by
          rw [List.reverse_cons, List.append_assoc]
          exact along_append
      _ = along (fun x y => f y x) c (l ++ [a]) + f c b := by rw [ih, along_cons, along_nil, add_zero]
      _ = along (fun x y => f y x) b (c :: l ++ [a]) := add_comm _ _

theorem around_reverse (f : α → α → G) (l : List α) : around f l.reverse = around (fun x y => f y x) l := by
  cases l with
  | nil => rfl
  | cons a l =>
    calc around f (a :: l).reverse = around f (l.reverse ++ [a]) := by rw [List.reverse_cons]
      _ = around f (a :: l.reverse) := around_append_comm f _ _
      _ = around (fun x y => f y x) (a :: l) := along_reverse

/-! ## A place put into a step -/

/-- `v` stands in the step from the last place of the rest to its first. -/
theorem around_insert (before after : List α) (ha : a ∈ (after ++ before).getLast?) (hb : b ∈ (after ++ before).head?)
    (hv : f a b = f a v + f v b) : around f (before ++ v :: after) = around f (before ++ after) := by
  rw [around_append_comm f before, around_append_comm f before, List.cons_append]
  cases h : after ++ before with
  | nil =>
    rw [h] at hb
    exact absurd hb (by simp)
  | cons c l =>
    rw [h] at ha hb
    obtain rfl : c = b := Option.some.inj hb
    obtain rfl : (c :: l).getLast (List.cons_ne_nil c l) = a := by
      rw [List.getLast?_eq_some_getLast (List.cons_ne_nil c l)] at ha
      exact Option.some.inj ha
    rw [around_cons, around_cons, List.cons_append, along_cons, along_concat, along_concat, hv]
    abel

end Monoid

/-! ## Chords -/

section Group

variable [AddCommGroup G] {f : α → α → G}

/-- The chord between `a` and `b` is a step of each part, once in either direction. -/
theorem around_cut (hf : ∀ a b, f a b + f b a = 0) (before middle after : List α) (a b : α) :
    around f (before ++ a :: middle ++ b :: after) =
      around f (a :: middle ++ [b]) + around f (before ++ a :: b :: after) := by
  have hwhole : around f (before ++ a :: middle ++ b :: after) =
      along f a (middle ++ [b]) + along f b (after ++ before ++ [a]) := by
    rw [List.append_assoc, around_append_comm, List.cons_append, List.cons_append, around_cons, List.append_assoc,
      List.append_assoc, List.cons_append, along_append, List.append_assoc]
  have hpart : around f (a :: middle ++ [b]) = along f a (middle ++ [b]) + f b a := by
    rw [List.cons_append, around_cons, List.append_assoc]
    exact along_append.trans (by simp)
  have hrest : around f (before ++ a :: b :: after) = f a b + along f b (after ++ before ++ [a]) := by
    rw [around_append_comm, List.cons_append, List.cons_append, around_cons, List.cons_append, along_cons]
  calc around f (before ++ a :: middle ++ b :: after)
      = along f a (middle ++ [b]) + along f b (after ++ before ++ [a]) := hwhole
    _ = along f a (middle ++ [b]) + (f a b + f b a) + along f b (after ++ before ++ [a]) := by rw [hf, add_zero]
    _ = along f a (middle ++ [b]) + f b a + (f a b + along f b (after ++ before ++ [a])) := by abel
    _ = around f (a :: middle ++ [b]) + around f (before ++ a :: b :: after) := by rw [hpart, hrest]

/-- The triangles of `o` with each step of a walk. -/
theorem around_fan (hf : ∀ a b, f a b + f b a = 0) (o a : α) (l : List α) :
    around f (o :: a :: l) = along (fun x y => around f [o, x, y]) a l := by
  induction l generalizing a with
  | nil => simpa [around_cons] using hf o a
  | cons b l ih =>
    calc around f (o :: a :: b :: l) = around f [o, a, b] + around f (o :: b :: l) :=
          around_cut hf [] [a] l o b
      _ = along (fun x y => around f [o, x, y]) a (b :: l) := by rw [ih b, along_cons]

end Group

end ClosedWalk
