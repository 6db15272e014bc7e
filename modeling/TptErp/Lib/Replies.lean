import Mathlib.Data.List.Forall2

/-!
# Systems that reply

A system answers a request and moves on: `step : σ → α → Option (ρ × σ)`, where `none` says that there is no such
request in that state.  `run` collects the replies to a list of requests and the state they lead to.

One system implements another when, from related states, a request is possible in both or in neither, the replies
agree and the states stay related (`Implements`).  Then every run of the one is a run of the other, with the same
replies (`Implements.run`).

States with a list of parts are related part by part: `rel_getElem?` and `rel_set`.
-/

namespace ReplyingSystem

variable {σ τ α β ρ π : Type}

def run (step : σ → α → Option (ρ × σ)) : σ → List α → Option (List ρ × σ)
  | s, [] => some ([], s)
  | s, a :: as => (step s a).bind fun r => (run step r.2 as).map fun q => (r.1 :: q.1, q.2)

/-- The two are possible together, with `g` of the other's reply and related states. -/
def Agree (g : π → ρ) (R : σ → τ → Prop) (r : Option (ρ × σ)) (q : Option (π × τ)) : Prop :=
  Option.Rel (fun p p' => p.1 = g p'.1 ∧ R p.2 p'.2) r q

/-- `step` implements `step'`: requests are read by `f`, replies by `g`, states are related by `R`. -/
def Implements (step : σ → α → Option (ρ × σ)) (step' : τ → β → Option (π × τ)) (f : α → β) (g : π → ρ)
    (R : σ → τ → Prop) : Prop :=
  ∀ s t a, R s t → Agree g R (step s a) (step' t (f a))

variable {step : σ → α → Option (ρ × σ)} {step' : τ → β → Option (π × τ)} {f : α → β} {g : π → ρ} {R : σ → τ → Prop}

/-- One more reply at the front. -/
theorem Agree.cons {r : Option (List ρ × σ)} {q : Option (List π × τ)} (h : Agree (List.map g) R r q) {a : ρ} {b : π}
    (hab : a = g b) : Agree (List.map g) R (r.map fun p => (a :: p.1, p.2)) (q.map fun p => (b :: p.1, p.2)) := by
  cases h with
  | none => exact .none
  | some hpq =>
    refine .some ⟨?_, hpq.2⟩
    dsimp only
    rw [hab, hpq.1, List.map_cons]

/-- **Every run of an implementation is one of what it implements.** -/
theorem Implements.run (h : Implements step step' f g R) {s : σ} {t : τ} (hst : R s t) (as : List α) :
    Agree (List.map g) R (run step s as) (run step' t (as.map f)) := by
  induction as generalizing s t with
  | nil => exact .some ⟨rfl, hst⟩
  | cons a as ih =>
    have ha := h s t a hst
    rw [List.map_cons]
    unfold ReplyingSystem.run
    generalize step s a = r, step' t (f a) = q at ha
    cases ha with
    | none => exact .none
    | some hrq => exact (ih hrq.2).cons hrq.1

/-- What is the same in related states is the same after a run. -/
theorem Agree.map_eq {γ : Type} {r : Option (ρ × σ)} {q : Option (π × τ)} (h : Agree g R r q) {v : σ → γ} {v' : τ → γ}
    (hv : ∀ s t, R s t → v s = v' t) : r.map (fun p => (p.1, v p.2)) = q.map fun p => (g p.1, v' p.2) := by
  cases h with
  | none => rfl
  | some hpq => exact congrArg some (Prod.ext hpq.1 (hv _ _ hpq.2))

/-! ## Parts -/

variable {S : σ → τ → Prop}

/-- The parts at an index: related, or missing on both sides. -/
theorem rel_getElem? {l : List σ} {m : List τ} (h : List.Forall₂ S l m) (i : Nat) :
    Option.Rel S l[i]? m[i]? := by
  induction h generalizing i with
  | nil => exact .none
  | cons hab _ ih =>
    cases i with
    | zero => exact .some hab
    | succ i => exact ih i

/-- Related parts in the place of others. -/
theorem rel_set {l : List σ} {m : List τ} (h : List.Forall₂ S l m) (i : Nat) {a : σ} {b : τ} (hab : S a b) :
    List.Forall₂ S (l.set i a) (m.set i b) := by
  induction h generalizing i with
  | nil => exact .nil
  | cons hcd hrest ih =>
    cases i with
    | zero => exact .cons hab hrest
    | succ i => exact .cons hcd (ih i)

/-- A part on one side that is still related to the other side's. -/
theorem rel_set_left {l : List σ} {m : List τ} (h : List.Forall₂ S l m) {i : Nat} {a : σ} {b : τ} (hb : m[i]? = some b)
    (hab : S a b) : List.Forall₂ S (l.set i a) m := by
  obtain ⟨hi, rfl⟩ := List.getElem?_eq_some_iff.mp hb
  have hset := rel_set h i hab
  rwa [List.set_getElem_self hi] at hset

end ReplyingSystem
