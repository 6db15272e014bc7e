import Mathlib.Logic.Basic

/-!
# Runs of a labelled system

A system is a partial step function `step : σ → α → Option σ`: the label carries every choice the
step makes (which thread runs, which value an iteration meets first), and `none` says that the
label is not possible in that state.

* `exec`: the state a list of labels leads to.
* `AllStates P`: `P` in every state the run goes through, the first one included.
* `AllSteps ok`: `ok` in the state before each step, with that step's label.
* `tally f`: the sum of `f` over the steps.

The rules: `allStates_of_allSteps` (an invariant kept by every step that meets `ok`) and
`allStates_iff_allSteps` (when a step keeps `P` exactly if it meets `ok`).
-/

namespace LabelledRun

variable {σ α : Type} (step : σ → α → Option σ)

/-- The state that the labels lead to (`none`: one of them was not possible). -/
def exec : σ → List α → Option σ
  | s, [] => some s
  | s, a :: as => (step s a).bind fun t => exec t as

/-- `P` holds in every state the run goes through. -/
def AllStates (P : σ → Prop) : σ → List α → Prop
  | s, [] => P s
  | s, a :: as => P s ∧ ∀ t, step s a = some t → AllStates P t as

/-- Every step of the run meets `ok` in the state it is taken from. -/
def AllSteps (ok : σ → α → Prop) : σ → List α → Prop
  | _, [] => True
  | s, a :: as => ok s a ∧ ∀ t, step s a = some t → AllSteps ok t as

attribute [simp] exec AllStates AllSteps

theorem exec_append (s : σ) (as bs : List α) :
    exec step s (as ++ bs) = (exec step s as).bind fun t => exec step t bs := by
  induction as generalizing s with
  | nil => rfl
  | cons a as ih =>
    simp only [List.cons_append, exec]
    cases step s a with
    | none => rfl
    | some t => exact ih t

theorem AllStates.head {P : σ → Prop} {s : σ} {as : List α} (h : AllStates step P s as) : P s := by
  cases as with
  | nil => exact h
  | cons a as => exact h.1

/-- The last state of a run is one it goes through. -/
theorem AllStates.last {P : σ → Prop} {s t : σ} {as : List α} (h : AllStates step P s as)
    (he : exec step s as = some t) : P t := by
  induction as generalizing s with
  | nil => exact Option.some.inj he ▸ h
  | cons a as ih =>
    simp only [exec, Option.bind_eq_some_iff] at he
    obtain ⟨u, hu, he⟩ := he
    exact ih (h.2 u hu) he

theorem AllStates.left {P : σ → Prop} {s : σ} {as bs : List α} (h : AllStates step P s (as ++ bs)) :
    AllStates step P s as := by
  induction as generalizing s with
  | nil => exact h.head
  | cons a as ih => exact ⟨h.1, fun t ht => ih (h.2 t ht)⟩

/-- The states of a run's second half. -/
theorem AllStates.right {P : σ → Prop} {s t : σ} {as bs : List α} (h : AllStates step P s (as ++ bs))
    (he : exec step s as = some t) : AllStates step P t bs := by
  induction as generalizing s with
  | nil => exact Option.some.inj he ▸ h
  | cons a as ih =>
    simp only [exec, Option.bind_eq_some_iff] at he
    obtain ⟨u, hu, he⟩ := he
    exact ih (h.2 u hu) he

theorem AllStates.mono {P Q : σ → Prop} (hPQ : ∀ s, P s → Q s) {s : σ} {as : List α}
    (h : AllStates step P s as) : AllStates step Q s as := by
  induction as generalizing s with
  | nil => exact hPQ s h
  | cons a as ih => exact ⟨hPQ s h.1, fun t ht => ih (h.2 t ht)⟩

/-- **Invariant rule.**  An invariant kept by every step that meets `ok` holds throughout a run
whose steps all meet `ok`. -/
theorem allStates_of_allSteps {Inv : σ → Prop} {ok : σ → α → Prop}
    (hstep : ∀ s a t, Inv s → ok s a → step s a = some t → Inv t) {s : σ} {as : List α} (hs : Inv s)
    (h : AllSteps step ok s as) : AllStates step Inv s as := by
  induction as generalizing s with
  | nil => exact hs
  | cons a as ih => exact ⟨hs, fun t ht => ih (hstep s a t hs h.1 ht) (h.2 t ht)⟩

/-- An invariant of every step holds throughout every run. -/
theorem allStates_of_step {Inv : σ → Prop} (hstep : ∀ s a t, Inv s → step s a = some t → Inv t)
    {s : σ} (as : List α) (hs : Inv s) : AllStates step Inv s as := by
  induction as generalizing s with
  | nil => exact hs
  | cons a as ih => exact ⟨hs, fun t ht => ih (hstep s a t hs ht)⟩

/-- What holds of a step taken from any state with `P` holds of every step of a run through such
states. -/
theorem allSteps_of_allStates {P : σ → Prop} {ok : σ → α → Prop} (h : ∀ s a, P s → ok s a) {s : σ}
    {as : List α} (hs : AllStates step P s as) : AllSteps step ok s as := by
  induction as generalizing s with
  | nil => trivial
  | cons a as ih => exact ⟨h s a hs.1, fun t ht => ih (hs.2 t ht)⟩

theorem allSteps_of_labels {ok : α → Prop} {as : List α} (h : ∀ a ∈ as, ok a) (s : σ) :
    AllSteps step (fun _ a => ok a) s as := by
  induction as generalizing s with
  | nil => trivial
  | cons a as ih =>
    obtain ⟨ha, h⟩ := List.forall_mem_cons.mp h
    exact ⟨ha, fun t _ => ih h t⟩

theorem AllSteps.left {ok : σ → α → Prop} {s : σ} {as bs : List α} (h : AllSteps step ok s (as ++ bs)) :
    AllSteps step ok s as := by
  induction as generalizing s with
  | nil => trivial
  | cons a as ih => exact ⟨h.1, fun t ht => ih (h.2 t ht)⟩

/-- The steps of a run's second half. -/
theorem AllSteps.right {ok : σ → α → Prop} {s t : σ} {as bs : List α} (h : AllSteps step ok s (as ++ bs))
    (he : exec step s as = some t) : AllSteps step ok t bs := by
  induction as generalizing s with
  | nil => exact Option.some.inj he ▸ h
  | cons a as ih =>
    simp only [exec, Option.bind_eq_some_iff] at he
    obtain ⟨u, hu, he⟩ := he
    exact ih (h.2 u hu) he

theorem AllSteps.mono {ok ok' : σ → α → Prop} (himp : ∀ s a, ok s a → ok' s a) {s : σ} {as : List α}
    (h : AllSteps step ok s as) : AllSteps step ok' s as := by
  induction as generalizing s with
  | nil => trivial
  | cons a as ih => exact ⟨himp s a h.1, fun t ht => ih (h.2 t ht)⟩

theorem allSteps_congr {ok ok' : σ → α → Prop} (h : ∀ s a, ok s a ↔ ok' s a) (s : σ) (as : List α) :
    AllSteps step ok s as ↔ AllSteps step ok' s as := by
  have hfun : ok = ok' := by
    funext s a
    exact propext (h s a)
  rw [hfun]

theorem allSteps_forall {ι : Type} {ok : ι → σ → α → Prop} (s : σ) (as : List α) :
    (∀ i, AllSteps step (ok i) s as) ↔ AllSteps step (fun s a => ∀ i, ok i s a) s as := by
  induction as generalizing s with
  | nil => exact iff_of_true (fun _ => trivial) trivial
  | cons a as ih =>
    constructor
    · intro h
      exact ⟨fun i => (h i).1, fun t ht => (ih t).mp fun i => (h i).2 t ht⟩
    · intro h i
      exact ⟨h.1 i, fun t ht => (ih t).mpr (h.2 t ht) i⟩

/-- A preorder that every step follows holds between the ends of a run. -/
theorem rel_of_exec {R : σ → σ → Prop} (hrefl : ∀ s, R s s) (htrans : ∀ s t u, R s t → R t u → R s u)
    (hstep : ∀ s a t, step s a = some t → R s t) {s t : σ} {as : List α} (he : exec step s as = some t) :
    R s t := by
  induction as generalizing s with
  | nil => exact Option.some.inj he ▸ hrefl s
  | cons a as ih =>
    simp only [exec, Option.bind_eq_some_iff] at he
    obtain ⟨u, hu, he⟩ := he
    exact htrans s u t (hstep s a u hu) (ih he)

/-- The sum of `f` over the steps of a run. -/
def tally (f : σ → α → Int) : σ → List α → Int
  | _, [] => 0
  | s, a :: as =>
    match step s a with
    | none => 0
    | some t => f s a + tally f t as

attribute [simp] tally

/-- A quantity that every step from a state with `Inv` changes by `f` has changed by the tally. -/
theorem eq_add_tally (Inv : σ → Prop) (v : σ → Int) (f : σ → α → Int)
    (hinv : ∀ s a t, Inv s → step s a = some t → Inv t) (hstep : ∀ s a t, Inv s → step s a = some t → v t = v s + f s a)
    {s t : σ} {as : List α} (hs : Inv s) (he : exec step s as = some t) : v t = v s + tally step f s as := by
  induction as generalizing s with
  | nil =>
    obtain rfl := Option.some.inj he
    exact (Int.add_zero _).symm
  | cons a as ih =>
    simp only [exec, Option.bind_eq_some_iff] at he
    obtain ⟨u, hu, he⟩ := he
    rw [ih (hinv s a u hs hu) he, hstep s a u hs hu]
    simp only [tally, hu, Int.add_assoc]

theorem tally_sub (f g : σ → α → Int) (s : σ) (as : List α) :
    tally step (fun s a => f s a - g s a) s as = tally step f s as - tally step g s as := by
  induction as generalizing s with
  | nil => rfl
  | cons a as ih =>
    simp only [tally]
    cases step s a with
    | none => rfl
    | some t =>
      dsimp only
      rw [ih t]
      omega

theorem tally_nonneg {f : σ → α → Int} (hf : ∀ s a, 0 ≤ f s a) (s : σ) (as : List α) : 0 ≤ tally step f s as := by
  induction as generalizing s with
  | nil => exact Int.le_refl 0
  | cons a as ih =>
    simp only [tally]
    cases step s a with
    | none => exact Int.le_refl 0
    | some t => exact Int.add_nonneg (hf s a) (ih t)

/-- A tally of what is never negative is 0 when each possible step adds 0. -/
theorem tally_eq_zero_iff {f : σ → α → Int} (hf : ∀ s a, 0 ≤ f s a) (s : σ) (as : List α) :
    tally step f s as = 0 ↔ AllSteps step (fun s a => ∀ t, step s a = some t → f s a = 0) s as := by
  induction as generalizing s with
  | nil => exact iff_of_true rfl trivial
  | cons a as ih =>
    simp only [tally, AllSteps]
    cases hst : step s a with
    | none => simp
    | some t =>
      have h1 := hf s a
      have h2 := tally_nonneg step hf t as
      have h3 := ih t
      simp only [Option.some.injEq, forall_eq']
      rw [← h3]
      omega

/-- `AllSteps` for a computed `ok`. -/
def checkSteps (ok : σ → α → Bool) : σ → List α → Bool
  | _, [] => true
  | s, a :: as => ok s a && (step s a).all fun t => checkSteps ok t as

theorem checkSteps_iff {ok : σ → α → Prop} {okb : σ → α → Bool} (hok : ∀ s a, okb s a = true ↔ ok s a) (s : σ)
    (as : List α) : checkSteps step okb s as = true ↔ AllSteps step ok s as := by
  induction as generalizing s with
  | nil => exact iff_of_true rfl trivial
  | cons a as ih =>
    rw [checkSteps, Bool.and_eq_true, hok]
    apply and_congr_right
    intro _
    cases step s a with
    | none => exact iff_of_true rfl fun t ht => absurd ht (by simp)
    | some t =>
      rw [Option.all_some, ih]
      constructor
      · intro h u hu
        cases hu
        exact h
      · intro h
        exact h t rfl

instance (ok : σ → α → Prop) [∀ s a, Decidable (ok s a)] (s : σ) (as : List α) : Decidable (AllSteps step ok s as) :=
  decidable_of_iff (checkSteps step (fun s a => decide (ok s a)) s as = true)
    (checkSteps_iff step (fun _ _ => decide_eq_true_iff) s as)

/-- **Exactness rule.**  Let `Inv` be kept by every step that meets `ok`.  If from a state with
`Inv` and `P` a possible step keeps `P` exactly when it meets `ok`, then `P` holds throughout a
run exactly when every possible step of the run meets `ok`. -/
theorem allStates_iff_allSteps (Inv : σ → Prop) {P : σ → Prop} {ok : σ → α → Prop}
    (hinv : ∀ s a t, Inv s → P s → ok s a → step s a = some t → Inv t)
    (hiff : ∀ s a t, Inv s → P s → step s a = some t → (P t ↔ ok s a)) {s : σ} {as : List α}
    (hs : Inv s) (hP : P s) :
    AllStates step P s as ↔ AllSteps step (fun u a => ∀ t, step u a = some t → ok u a) s as := by
  induction as generalizing s with
  | nil => exact ⟨fun _ => trivial, fun _ => hP⟩
  | cons a as ih =>
    constructor
    · rintro ⟨-, h⟩
      refine ⟨fun t ht => (hiff s a t hs hP ht).mp (h t ht).head, fun t ht => ?_⟩
      have hok := (hiff s a t hs hP ht).mp (h t ht).head
      exact (ih (hinv s a t hs hP hok ht) (h t ht).head).mp (h t ht)
    · rintro ⟨hok, h⟩
      refine ⟨hP, fun t ht => ?_⟩
      have hPt := (hiff s a t hs hP ht).mpr (hok t ht)
      exact (ih (hinv s a t hs hP (hok t ht) ht) hPt).mpr (h t ht)

/-- The same rule when a label that is not possible meets `ok`. -/
theorem allStates_iff_allSteps_of_none (Inv : σ → Prop) {P : σ → Prop} {ok : σ → α → Prop}
    (hinv : ∀ s a t, Inv s → P s → ok s a → step s a = some t → Inv t)
    (hiff : ∀ s a t, Inv s → P s → step s a = some t → (P t ↔ ok s a))
    (hnone : ∀ s a, step s a = none → ok s a) {s : σ} {as : List α} (hs : Inv s) (hP : P s) :
    AllStates step P s as ↔ AllSteps step ok s as := by
  rw [allStates_iff_allSteps step Inv hinv hiff hs hP]
  apply allSteps_congr
  intro u a
  constructor
  · intro h
    cases ht : step u a with
    | none => exact hnone u a ht
    | some t => exact h t ht
  · exact fun h _ _ => h

end LabelledRun
