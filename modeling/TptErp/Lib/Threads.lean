import TptErp.Lib.Run
import Mathlib.Algebra.BigOperators.Group.List.Basic

/-!
# Interleaved calls

Calls of one object, cut into atomic instructions.  A `Machine` says which instructions a call
starts with (`prog`), what an instruction does to the object and which instructions the call goes
on with (`instr`; the choice stands for whatever the instruction may choose), and what the
environment may do in between (`env`).  A state is the object with the rest of every call.

The rules: an invariant of the object together with a property `pending` of every instruction that
is still to come (`Good`) is kept by every step when each instruction keeps it (`Machine.good_step`),
and the exactness rule of `LabelledRun` comes down to single instructions
(`Machine.allStates_iff_allSteps`).
-/

/-- Calls of type `O` on an object of type `σ`, in instructions of type `ι`. -/
structure Machine (σ ι κ O ε : Type) where
  /-- The instructions of a call. -/
  prog : O → List ι
  /-- One instruction, with its choice: the object afterwards and what the call does next. -/
  instr : σ → ι → κ → Option (σ × List ι)
  /-- A step of the environment. -/
  env : σ → ε → σ

namespace Machine

variable {σ ι κ O ε : Type}

/-- The object, and for each call the instructions it still has to carry out. -/
structure State (σ ι : Type) where
  core : σ
  threads : List (List ι) := []

inductive Label (κ O ε : Type)
  | spawn (op : O)
  | run (th : Nat) (choice : κ)
  | env (e : ε)

variable (m : Machine σ ι κ O ε)

def step (w : State σ ι) : Label κ O ε → Option (State σ ι)
  | .spawn op => some { w with threads := w.threads ++ [m.prog op] }
  | .run th choice =>
    match w.threads[th]? with
    | some (i :: rest) =>
      (m.instr w.core i choice).map fun r => { core := r.1, threads := w.threads.set th (r.2 ++ rest) }
    | _ => none
  | .env e => some { w with core := m.env w.core e }

/-- The next instruction of a call. -/
def Next (w : State σ ι) (th : Nat) (i : ι) : Prop := ∃ rest, w.threads[th]? = some (i :: rest)

/-- **The possible steps.** -/
inductive Moves (w : State σ ι) : Label κ O ε → State σ ι → Prop
  | spawn (op : O) : Moves w (.spawn op) { w with threads := w.threads ++ [m.prog op] }
  | run {th : Nat} {choice : κ} {i : ι} {rest more : List ι} {core : σ}
      (next : w.threads[th]? = some (i :: rest)) (instr : m.instr w.core i choice = some (core, more)) :
      Moves w (.run th choice) { core, threads := w.threads.set th (more ++ rest) }
  | env (e : ε) : Moves w (.env e) { w with core := m.env w.core e }

theorem moves_of_step {w t : State σ ι} {a : Label κ O ε} (h : m.step w a = some t) : m.Moves w a t := by
  cases a with
  | spawn op => cases h; exact .spawn op
  | env e => cases h; exact .env e
  | run th choice =>
    simp only [step] at h
    split at h
    · next i rest hth =>
      rw [Option.map_eq_some_iff] at h
      obtain ⟨⟨core, more⟩, hi, rfl⟩ := h
      exact .run hth hi
    · cases h

theorem step_run {w : State σ ι} {th : Nat} {choice : κ} {i : ι} {rest more : List ι} {core : σ}
    (hth : w.threads[th]? = some (i :: rest)) (hi : m.instr w.core i choice = some (core, more)) :
    m.step w (.run th choice) = some { core, threads := w.threads.set th (more ++ rest) } := by
  simp only [step, hth, hi, Option.map_some]

/-- A call that takes no step keeps its instructions. -/
theorem threads_kept {w t : State σ ι} {as : List (Label κ O ε)} {th : Nat} {prog : List ι}
    (h : LabelledRun.exec m.step w as = some t) (hw : w.threads[th]? = some prog)
    (others : ∀ a ∈ as, ∀ k, a ≠ .run th k) : t.threads[th]? = some prog := by
  induction as generalizing w with
  | nil => exact Option.some.inj h ▸ hw
  | cons a as ih =>
    obtain ⟨ha, others⟩ := List.forall_mem_cons.mp others
    obtain ⟨u, hu, h⟩ := Option.bind_eq_some_iff.mp h
    refine ih h ?_ others
    cases m.moves_of_step hu with
    | spawn op => exact List.getElem?_append_left (List.getElem?_eq_some_iff.mp hw).1 ▸ hw
    | env e => exact hw
    | @run th' k i rest more core hth hi =>
      have hne : th' ≠ th := fun he => ha k (by rw [he])
      exact (List.getElem?_set_ne hne).trans hw

/-- Where the next instruction of a call comes from: the call is new, the step was another's, or it was the
call's own. -/
theorem next_cases {w t : State σ ι} {a : Label κ O ε} {th : Nat} {j : ι} (ht : m.step w a = some t)
    (hj : Next t th j) :
    (∃ op, j ∈ m.prog op) ∨ (Next w th j ∧ ∀ k, a ≠ .run th k) ∨
      ∃ k i rest core more, a = .run th k ∧ w.threads[th]? = some (i :: rest) ∧
        m.instr w.core i k = some (core, more) ∧ (more ++ rest).head? = some j := by
  obtain ⟨rest', hj⟩ := hj
  cases m.moves_of_step ht with
  | spawn op =>
    by_cases hlt : th < w.threads.length
    · refine Or.inr (Or.inl ⟨⟨rest', ?_⟩, fun k hk => nomatch hk⟩)
      rw [← hj]
      exact (List.getElem?_append_left hlt).symm
    · left
      have hmem : j :: rest' ∈ [m.prog op] := by
        rw [List.getElem?_append_right (Nat.le_of_not_lt hlt)] at hj
        exact List.mem_of_getElem? hj
      refine ⟨op, ?_⟩
      rw [← List.mem_singleton.mp hmem]
      exact List.mem_cons_self
  | env e => exact Or.inr (Or.inl ⟨⟨rest', hj⟩, fun k hk => nomatch hk⟩)
  | @run th' k i rest more core hth hi =>
    by_cases he : th' = th
    · subst he
      refine Or.inr (Or.inr ⟨k, i, rest, core, more, rfl, hth, hi, ?_⟩)
      have hset : (w.threads.set th' (more ++ rest))[th']? = some (j :: rest') := hj
      rw [List.getElem?_set_self (List.getElem?_eq_some_iff.mp hth).1] at hset
      rw [Option.some.inj hset]
      rfl
    · refine Or.inr (Or.inl ⟨⟨rest', ?_⟩, ?_⟩)
      · have hset : (w.threads.set th' (more ++ rest))[th]? = some (j :: rest') := hj
        rw [List.getElem?_set_ne he] at hset
        exact hset
      · rintro k' hk
        cases hk
        exact he rfl

/-! ## A call alone -/

/-- Some choices take a call that runs alone on `c` to its end, with the object at `c'`. -/
def RunsAlone (c : σ) (prog : List ι) (c' : σ) : Prop :=
  ∃ choices : List κ, LabelledRun.exec m.step { core := c, threads := [prog] } (choices.map (.run 0)) =
    some { core := c', threads := [[]] }

theorem runsAlone_nil (c : σ) : m.RunsAlone c [] c := ⟨[], rfl⟩

theorem runsAlone_cons {c c' : σ} {i : ι} {rest : List ι} (choice : κ) (c₁ : σ) (more : List ι)
    (hi : m.instr c i choice = some (c₁, more)) (h : m.RunsAlone c₁ (more ++ rest) c') :
    m.RunsAlone c (i :: rest) c' := by
  obtain ⟨choices, h⟩ := h
  refine ⟨choice :: choices, ?_⟩
  rw [List.map_cons, LabelledRun.exec, m.step_run (w := { core := c, threads := [i :: rest] }) rfl hi]
  exact h

/-- The same for a call that comes to the instructions `prog'`. -/
def RunsTo (c : σ) (prog : List ι) (c' : σ) (prog' : List ι) : Prop :=
  ∃ choices : List κ, LabelledRun.exec m.step { core := c, threads := [prog] } (choices.map (.run 0)) =
    some { core := c', threads := [prog'] }

theorem runsTo_refl (c : σ) (prog : List ι) : m.RunsTo c prog c prog := ⟨[], rfl⟩

theorem runsTo_cons {c c' : σ} {i : ι} {rest prog' : List ι} (choice : κ) (c₁ : σ) (more : List ι)
    (hi : m.instr c i choice = some (c₁, more)) (h : m.RunsTo c₁ (more ++ rest) c' prog') :
    m.RunsTo c (i :: rest) c' prog' := by
  obtain ⟨choices, h⟩ := h
  refine ⟨choice :: choices, ?_⟩
  rw [List.map_cons, LabelledRun.exec, m.step_run (w := { core := c, threads := [i :: rest] }) rfl hi]
  exact h

theorem runsTo_trans {c c₁ c' : σ} {prog prog₁ prog' : List ι} (h : m.RunsTo c prog c₁ prog₁)
    (h' : m.RunsTo c₁ prog₁ c' prog') : m.RunsTo c prog c' prog' := by
  obtain ⟨ks, h⟩ := h
  obtain ⟨ks', h'⟩ := h'
  refine ⟨ks ++ ks', ?_⟩
  rw [List.map_append, LabelledRun.exec_append, h]
  exact h'

/-- Whatever it chooses, a call that runs alone comes to its end, never stuck on the way, with the object
in `Q`. -/
inductive Ends (Q : σ → Prop) : σ → List ι → Prop
  | done {c : σ} (h : Q c) : Ends Q c []
  | step {c : σ} {i : ι} {rest : List ι} (go : ∃ k r, m.instr c i k = some r)
      (all : ∀ k c' more, m.instr c i k = some (c', more) → Ends Q c' (more ++ rest)) : Ends Q c (i :: rest)

/-- The same, whatever the environment does between the instructions. -/
inductive Finishes (Q : σ → Prop) : σ → List ι → Prop
  | done {c : σ} (h : Q c) : Finishes Q c []
  | step {c : σ} {i : ι} {rest : List ι} (go : ∀ es : List ε, ∃ k r, m.instr (es.foldl m.env c) i k = some r)
      (all : ∀ (es : List ε) k c' more, m.instr (es.foldl m.env c) i k = some (c', more) →
        Finishes Q c' (more ++ rest)) : Finishes Q c (i :: rest)

theorem Finishes.mono {Q Q' : σ → Prop} (hQ : ∀ c, Q c → Q' c) {c : σ} {prog : List ι} (h : m.Finishes Q c prog) :
    m.Finishes Q' c prog := by
  induction h with
  | done h => exact .done (hQ _ h)
  | step go all ih => exact .step go ih

theorem Finishes.and {Q Q' : σ → Prop} {c : σ} {prog : List ι} (h : m.Finishes Q c prog) (h' : m.Finishes Q' c prog) :
    m.Finishes (fun c => Q c ∧ Q' c) c prog := by
  induction h with
  | done h =>
    cases h' with
    | done h' => exact .done ⟨h, h'⟩
  | step go all ih =>
    cases h' with
    | step go' all' => exact .step go fun es k c' more hi => ih es k c' more hi (all' es k c' more hi)

/-- Some run comes to its end, so two things that hold at every end hold together at one. -/
theorem Finishes.meet {Q Q' : σ → Prop} {c : σ} {prog : List ι} (h : m.Finishes Q c prog)
    (h' : m.Finishes Q' c prog) : ∃ c', Q c' ∧ Q' c' := by
  induction h with
  | done h =>
    cases h' with
    | done h' => exact ⟨_, h, h'⟩
  | step go all ih =>
    cases h' with
    | step go' all' =>
      obtain ⟨k, ⟨c', more⟩, hi⟩ := go []
      exact ih [] k c' more hi (all' [] k c' more hi)

/-- A run that is over ended where every run ends. -/
theorem Finishes.of_exec {Q : σ → Prop} {c : σ} {prog : List ι} (h : m.Finishes Q c prog) {choices : List κ}
    {w : State σ ι} (hrun : LabelledRun.exec m.step { core := c, threads := [prog] } (choices.map (.run 0)) = some w)
    (hdone : w.threads = [[]]) : Q w.core := by
  induction choices generalizing c prog with
  | nil =>
    cases hrun
    cases hdone
    cases h with
    | done h => exact h
  | cons k ks ih =>
    rw [List.map_cons, LabelledRun.exec, Option.bind_eq_some_iff] at hrun
    obtain ⟨u, hu, hrun⟩ := hrun
    cases m.moves_of_step hu with
    | @run _ _ i rest more core next instr =>
      cases next
      cases h with
      | step go all => exact ih (all [] k core more instr) hrun

/-! ## Invariants -/

/-- The object meets `inv`, and every instruction to come meets `pending`. -/
structure Good (inv : σ → Prop) (pending : σ → ι → Prop) (w : State σ ι) : Prop where
  core : inv w.core
  threads : ∀ prog ∈ w.threads, ∀ i ∈ prog, pending w.core i

/-- What one instruction has to keep. -/
structure Keeps (inv : σ → Prop) (pending : σ → ι → Prop) (c c' : σ) (more : List ι) : Prop where
  inv : inv c'
  more : ∀ i ∈ more, pending c' i
  others : ∀ i, pending c i → pending c' i

theorem good_init {inv : σ → Prop} {pending : σ → ι → Prop} {c : σ} (h : inv c) :
    Good inv pending { core := c } :=
  ⟨h, fun _ hp => nomatch hp⟩

theorem mem_of_next {w : State σ ι} {th : Nat} {i : ι} {rest : List ι}
    (h : w.threads[th]? = some (i :: rest)) : i :: rest ∈ w.threads :=
  List.mem_of_getElem? h

/-- **Invariant rule.**  A step keeps the invariant if its instruction does. -/
theorem good_step {inv : σ → Prop} {pending : σ → ι → Prop}
    (hspawn : ∀ c op, inv c → ∀ i ∈ m.prog op, pending c i)
    (henv : ∀ c e, inv c → Keeps inv pending c (m.env c e) [])
    {w t : State σ ι} {a : Label κ O ε} (h : Good inv pending w) (ht : m.step w a = some t)
    (hinstr : ∀ th choice i core more, a = .run th choice → Next w th i → pending w.core i →
      m.instr w.core i choice = some (core, more) → Keeps inv pending w.core core more) :
    Good inv pending t := by
  cases m.moves_of_step ht with
  | spawn op =>
    refine ⟨h.core, fun p hp i hi => ?_⟩
    rcases List.mem_append.mp hp with hp | hp
    · exact h.threads p hp i hi
    · rw [List.mem_singleton.mp hp] at hi
      exact hspawn _ op h.core i hi
  | env e =>
    have hk := henv w.core e h.core
    exact ⟨hk.inv, fun p hp i hi => hk.others i (h.threads p hp i hi)⟩
  | @run th choice i rest more core hth hi =>
    have hmem := h.threads _ (mem_of_next hth)
    have hk := hinstr th choice i core more rfl ⟨rest, hth⟩ (hmem i List.mem_cons_self) hi
    refine ⟨hk.inv, fun p hp j hj => ?_⟩
    rcases List.mem_or_eq_of_mem_set hp with hp | rfl
    · exact hk.others j (h.threads p hp j hj)
    · rcases List.mem_append.mp hj with hj | hj
      · exact hk.more j hj
      · exact hk.others j (hmem j (List.mem_cons_of_mem _ hj))

/-! ## What is still to come -/

section
variable {M : Type} [AddCommMonoid M] (f : ι → M)

/-- The sum of `f` over the instructions to come. -/
def pendingSum (w : State σ ι) : M := (w.threads.map fun prog => (prog.map f).sum).sum

/-- Changing one item of a list changes one summand. -/
theorem sum_map_set {α : Type} (g : α → M) {l : List α} {n : Nat} {a : α} (h : l[n]? = some a) :
    ∃ rest, (l.map g).sum = g a + rest ∧ ∀ b, ((l.set n b).map g).sum = g b + rest := by
  induction l generalizing n with
  | nil => cases h
  | cons x l ih =>
    cases n with
    | zero =>
      obtain rfl : x = a := Option.some.inj h
      exact ⟨(l.map g).sum, by simp, fun b => by simp⟩
    | succ n =>
      obtain ⟨rest, h1, h2⟩ := ih h
      refine ⟨g x + rest, ?_, ?_⟩
      · rw [List.map_cons, List.sum_cons, h1, add_left_comm]
      · intro b
        rw [List.set_cons_succ, List.map_cons, List.sum_cons, h2, add_left_comm]

theorem pendingSum_spawn (w : State σ ι) (prog : List ι) :
    pendingSum f { w with threads := w.threads ++ [prog] } = pendingSum f w + (prog.map f).sum := by
  simp [pendingSum]

/-- A step takes its instruction away and adds those that the call goes on with. -/
theorem pendingSum_run {w : State σ ι} {th : Nat} {i : ι} {prog : List ι} (h : w.threads[th]? = some (i :: prog)) :
    ∃ rest, pendingSum f w = f i + rest ∧ ∀ (core : σ) (more : List ι),
      pendingSum f { core, threads := w.threads.set th (more ++ prog) } = (more.map f).sum + rest := by
  obtain ⟨rest, h1, h2⟩ := sum_map_set (fun prog => (prog.map f).sum) h
  refine ⟨(prog.map f).sum + rest, ?_, ?_⟩
  · rw [pendingSum, h1, List.map_cons, List.sum_cons, add_assoc]
  · intro core more
    rw [pendingSum, h2, List.map_append, List.sum_append, add_assoc]

end

/-- The value of `g` at the instruction that a step carries out, 0 for other steps. -/
def stepValue (g : σ → ι → Int) (w : State σ ι) : Label κ O ε → Int
  | .run th _ =>
    match w.threads[th]? with
    | some (i :: _) => g w.core i
    | _ => 0
  | _ => 0

theorem stepValue_run (g : σ → ι → Int) {w : State σ ι} {th : Nat} {choice : κ} {i : ι} {rest : List ι}
    (h : w.threads[th]? = some (i :: rest)) :
    stepValue g w (.run th choice : Label κ O ε) = g w.core i := by
  simp only [stepValue, h]

/-- The instruction that a step carries out meets `ok`. -/
def Does (ok : σ → ι → κ → Prop) (w : State σ ι) (a : Label κ O ε) : Prop :=
  ∀ th choice i, a = .run th choice → Next w th i → ok w.core i choice

/-- Values that are all 0 exactly at the instructions that meet `ok`. -/
theorem does_iff_stepValue {τ : Type} {g : τ → σ → ι → Int} {ok : σ → ι → Prop}
    (h : ∀ c i, (∀ x, g x c i = 0) ↔ ok c i) (w : State σ ι) (a : Label κ O ε) :
    (∀ x, stepValue (g x) w a = 0) ↔ Does (fun c i _ => ok c i) w a := by
  constructor
  · rintro hz th choice i rfl ⟨rest, hn⟩
    apply (h w.core i).mp
    intro x
    rw [← stepValue_run (g x) hn]
    exact hz x
  · intro hd x
    cases a with
    | run th choice =>
      simp only [stepValue]
      split
      · next i rest hn => exact (h w.core i).mpr (hd th choice i rfl ⟨rest, hn⟩) x
      · rfl
    | spawn op => rfl
    | env e => rfl

/-- A run in which every possible step carries out an instruction that meets `ok`. -/
def RunDoes (ok : σ → ι → κ → Prop) (w : State σ ι) (as : List (Label κ O ε)) : Prop :=
  LabelledRun.AllSteps m.step (fun u a => ∀ t, m.step u a = some t → Does ok u a) w as

/-- **Invariant rule for runs.**  An invariant that every instruction with `ok` keeps holds
throughout a run whose instructions all meet `ok`. -/
theorem allStates_good (inv : σ → Prop) (pending : σ → ι → Prop) {ok : σ → ι → κ → Prop}
    (hspawn : ∀ c op, inv c → ∀ i ∈ m.prog op, pending c i)
    (henv : ∀ c e, inv c → Keeps inv pending c (m.env c e) [])
    (hinstr : ∀ c i choice core more, inv c → pending c i → ok c i choice →
      m.instr c i choice = some (core, more) → Keeps inv pending c core more)
    {w : State σ ι} {as : List (Label κ O ε)} (hw : Good inv pending w) (h : m.RunDoes ok w as) :
    LabelledRun.AllStates m.step (Good inv pending) w as := by
  refine LabelledRun.allStates_of_allSteps m.step ?_ hw h
  intro u a t hu hok ht
  refine m.good_step hspawn henv hu ht ?_
  intro th choice i core more ha hn hp hi
  exact hinstr _ i choice core more hu.core hp (hok t ht th choice i ha hn) hi

/-- The instruction a step carries out meets a computed `ok`. -/
def checkStep (ok : σ → ι → κ → Bool) (w : State σ ι) : Label κ O ε → Bool
  | .run th choice =>
    match w.threads[th]? with
    | some (i :: _) => ok w.core i choice
    | _ => true
  | _ => true

/-- `RunDoes` for a computed `ok`. -/
def checkRun (ok : σ → ι → κ → Bool) : State σ ι → List (Label κ O ε) → Bool
  | _, [] => true
  | w, a :: as =>
    match m.step w a with
    | none => true
    | some t => checkStep ok w a && checkRun ok t as

theorem checkStep_iff {ok : σ → ι → κ → Prop} {okb : σ → ι → κ → Bool}
    (hok : ∀ c i k, okb c i k = true ↔ ok c i k) (w : State σ ι) (a : Label κ O ε) :
    checkStep okb w a = true ↔ Does ok w a := by
  cases a with
  | spawn op => exact iff_of_true rfl fun th choice i ha => nomatch ha
  | env e => exact iff_of_true rfl fun th choice i ha => nomatch ha
  | run th choice =>
    constructor
    · rintro hc th' choice' i ha ⟨rest, hn⟩
      cases ha
      simp only [checkStep, hn] at hc
      exact (hok _ _ _).mp hc
    · intro hd
      simp only [checkStep]
      split
      · next i rest hn => exact (hok _ _ _).mpr (hd th choice i rfl ⟨rest, hn⟩)
      · rfl

theorem checkRun_iff {ok : σ → ι → κ → Prop} {okb : σ → ι → κ → Bool}
    (hok : ∀ c i k, okb c i k = true ↔ ok c i k) (w : State σ ι) (as : List (Label κ O ε)) :
    m.checkRun okb w as = true ↔ m.RunDoes ok w as := by
  induction as generalizing w with
  | nil => exact iff_of_true rfl trivial
  | cons a as ih =>
    simp only [checkRun]
    cases ht : m.step w a with
    | none =>
      refine iff_of_true rfl ⟨fun t h => ?_, fun t h => ?_⟩
      · rw [ht] at h
        cases h
      · rw [ht] at h
        cases h
    | some t =>
      rw [Bool.and_eq_true, checkStep_iff hok, ih]
      constructor
      · rintro ⟨hd, hr⟩
        refine ⟨fun _ _ => hd, fun u hu => ?_⟩
        rw [ht] at hu
        cases hu
        exact hr
      · rintro ⟨hd, hr⟩
        exact ⟨hd t ht, hr t ht⟩

instance (ok : σ → ι → κ → Prop) [∀ c i k, Decidable (ok c i k)] (w : State σ ι)
    (as : List (Label κ O ε)) : Decidable (m.RunDoes ok w as) :=
  decidable_of_iff (m.checkRun (fun c i k => decide (ok c i k)) w as = true)
    (m.checkRun_iff (fun _ _ _ => decide_eq_true_iff) w as)

/-- **Exactness rule.**  When an instruction keeps the property `P` of the object exactly if it
meets `ok`, `P` holds throughout a run exactly when every instruction meets `ok`. -/
theorem allStates_iff_allSteps (inv : σ → Prop) (pending : σ → ι → Prop) {P : σ → Prop}
    {ok : σ → ι → κ → Prop}
    (hspawn : ∀ c op, inv c → ∀ i ∈ m.prog op, pending c i)
    (henv : ∀ c e, inv c → Keeps inv pending c (m.env c e) [])
    (hinstr : ∀ c i choice core more, inv c → pending c i → P c → ok c i choice →
      m.instr c i choice = some (core, more) → Keeps inv pending c core more)
    (henvP : ∀ c e, inv c → P c → P (m.env c e))
    (hiff : ∀ c i choice core more, inv c → pending c i → P c →
      m.instr c i choice = some (core, more) → (P core ↔ ok c i choice))
    {c : σ} (as : List (Label κ O ε)) (hc : inv c) (hP : P c) :
    LabelledRun.AllStates m.step (fun w => P w.core) { core := c } as ↔ m.RunDoes ok { core := c } as := by
  refine LabelledRun.allStates_iff_allSteps m.step (Good inv pending) ?_ ?_ (good_init hc) hP
  · intro w a t hw hPw hok ht
    refine m.good_step hspawn henv hw ht ?_
    intro th choice i core more ha hn hp hi
    exact hinstr _ i choice core more hw.core hp hPw (hok th choice i ha hn) hi
  · intro w a t hw hPw ht
    cases m.moves_of_step ht with
    | spawn op => exact iff_of_true hPw fun th choice i ha => nomatch ha
    | env e => exact iff_of_true (henvP _ e hw.core hPw) fun th choice i ha => nomatch ha
    | @run th choice i rest more core hth hi =>
      have hp := hw.threads _ (mem_of_next hth) i List.mem_cons_self
      rw [hiff w.core i choice core more hw.core hp hPw hi]
      constructor
      · intro hok th' choice' i' ha hn
        cases ha
        obtain ⟨rest', hn⟩ := hn
        rw [hth] at hn
        cases hn
        exact hok
      · intro hok
        exact hok th choice i rfl ⟨rest, hth⟩

/-! ## What a call changes itself -/

/-- No step of the call itself changes what `same` compares. -/
def LeavesAlone (same : σ → σ → Prop) (th : Nat) (w : State σ ι) (as : List (Label κ O ε)) : Prop :=
  LabelledRun.AllSteps m.step (fun u a => ∀ k t, a = .run th k → m.step u a = some t → same u.core t.core) w as

section
variable {same : σ → σ → Prop} {pending after : ι → Prop} {ok : σ → ι → κ → Prop}
  (hspawn : ∀ op, ∀ i ∈ m.prog op, pending i)
  (hmore : ∀ c i k core more, pending i → ok c i k → m.instr c i k = some (core, more) → ∀ j ∈ more, pending j)
  (hafter : ∀ c i k core more, pending i → ok c i k → m.instr c i k = some (core, more) →
    after i ∨ ¬ same c core → ∃ j rest, more = j :: rest ∧ after j)

include hspawn hmore in
theorem pending_step {w t : State σ ι} {a : Label κ O ε} (hw : ∀ prog ∈ w.threads, ∀ i ∈ prog, pending i)
    (ha : Does ok w a) (ht : m.step w a = some t) : ∀ prog ∈ t.threads, ∀ i ∈ prog, pending i := by
  have hg : Good (fun _ => True) (fun _ i => pending i) w := ⟨trivial, hw⟩
  refine (m.good_step (fun _ op _ => hspawn op) (fun _ _ _ => ⟨trivial, fun _ h => (nomatch h), fun _ h => h⟩) hg
    ht ?_).threads
  intro th k i core more hth hn hp hi
  exact ⟨trivial, hmore _ i k core more hp (ha th k i hth hn) hi, fun _ h => h⟩

include hafter in
/-- A step of another call leaves the next instruction as it is. -/
theorem after_step {w t : State σ ι} {a : Label κ O ε} {th : Nat}
    (hw : ∀ prog ∈ w.threads, ∀ i ∈ prog, pending i) (ha : Does ok w a) (ht : m.step w a = some t)
    (h : (∃ i, Next w th i ∧ after i) ∨ ∃ k, a = .run th k ∧ ¬ same w.core t.core) :
    ∃ j, Next t th j ∧ after j := by
  cases m.moves_of_step ht with
  | spawn op =>
    rcases h with ⟨i, ⟨rest, hn⟩, hi⟩ | ⟨k, hk, -⟩
    · exact ⟨i, ⟨rest, by rw [List.getElem?_append_left (List.getElem?_eq_some_iff.mp hn).1]; exact hn⟩, hi⟩
    · cases hk
  | env e =>
    rcases h with h | ⟨k, hk, -⟩
    · exact h
    · cases hk
  | @run th' k i rest more core hth hi =>
    by_cases he : th' = th
    · subst he
      have hp := hw _ (mem_of_next hth) i List.mem_cons_self
      obtain ⟨j, more, rfl, hj⟩ : ∃ j rest, more = j :: rest ∧ after j := by
        refine hafter _ i k core more hp (ha th' k i rfl ⟨rest, hth⟩) hi ?_
        rcases h with ⟨i', ⟨rest', hn⟩, hi'⟩ | ⟨-, -, hs⟩
        · rw [hth] at hn
          cases hn
          exact Or.inl hi'
        · exact Or.inr hs
      refine ⟨j, ⟨more ++ rest, ?_⟩, hj⟩
      show (w.threads.set th' _)[th']? = _
      rw [List.getElem?_set_self (List.getElem?_eq_some_iff.mp hth).1]
      rfl
    · rcases h with ⟨i', ⟨rest', hn⟩, hi'⟩ | ⟨k', hk, -⟩
      · refine ⟨i', ⟨rest', ?_⟩, hi'⟩
        show (w.threads.set th' _)[th]? = _
        rw [List.getElem?_set_ne he]
        exact hn
      · cases hk
        exact absurd rfl he

include hspawn hmore hafter in
theorem after_run {w t : State σ ι} {as : List (Label κ O ε)} {th : Nat}
    (hw : ∀ prog ∈ w.threads, ∀ i ∈ prog, pending i) (h : m.RunDoes ok w as)
    (ht : LabelledRun.exec m.step w as = some t) (hn : ∃ i, Next w th i ∧ after i) :
    ∃ j, Next t th j ∧ after j := by
  induction as generalizing w with
  | nil => exact Option.some.inj ht ▸ hn
  | cons a as ih =>
    simp only [LabelledRun.exec, Option.bind_eq_some_iff] at ht
    obtain ⟨u, hu, ht⟩ := ht
    exact ih (m.pending_step hspawn hmore hw (h.1 u hu) hu) (h.2 u hu) ht
      (m.after_step hafter hw (h.1 u hu) hu (Or.inl hn))

include hspawn hmore hafter in
/-- **A call that changes nothing.**  What a call that has changed something goes on with has `after`, and so
has everything it then comes to; a call that has come to something else has changed nothing. -/
theorem leavesAlone_of_next {w t : State σ ι} {as : List (Label κ O ε)} {th : Nat}
    (hw : ∀ prog ∈ w.threads, ∀ i ∈ prog, pending i) (h : m.RunDoes ok w as)
    (ht : LabelledRun.exec m.step w as = some t) (hn : ∀ j, Next t th j → ¬ after j) :
    m.LeavesAlone same th w as := by
  induction as generalizing w with
  | nil => trivial
  | cons a as ih =>
    simp only [LabelledRun.exec, Option.bind_eq_some_iff] at ht
    obtain ⟨u, hu, ht⟩ := ht
    have hwu := m.pending_step hspawn hmore hw (h.1 u hu) hu
    constructor
    · intro k t' hk ht'
      rw [hu] at ht'
      cases ht'
      by_contra hs
      obtain ⟨j, hj, ha⟩ := m.after_run hspawn hmore hafter hwu (h.2 u hu) ht
        (m.after_step hafter hw (h.1 u hu) hu (Or.inr ⟨k, hk, hs⟩))
      exact hn j hj ha
    · intro u' hu'
      rw [hu] at hu'
      cases hu'
      exact ih hwu (h.2 u hu) ht

end

/-! ## A history -/

section
variable {η : Type} (record : η → σ → ι → η)

/-- The calls with a history, which grows by what `record` says of each instruction. -/
def withHistory : Machine (η × σ) ι κ O ε where
  prog := m.prog
  instr hc i k := (m.instr hc.2 i k).map fun r => ((record hc.1 hc.2 i, r.1), r.2)
  env hc e := (hc.1, m.env hc.2 e)

/-- The state without the history. -/
def State.forget (w : State (η × σ) ι) : State σ ι := { core := w.core.2, threads := w.threads }

theorem step_forget (w : State (η × σ) ι) (a : Label κ O ε) :
    m.step w.forget a = ((m.withHistory record).step w a).map State.forget := by
  cases a with
  | spawn op => rfl
  | env e => rfl
  | run th k =>
    simp only [step, State.forget]
    split
    · show (m.instr w.core.2 _ k).map _ = (((m.instr w.core.2 _ k).map _).map _).map _
      rw [Option.map_map, Option.map_map]
      rfl
    · rfl

/-- A condition on instructions that does not look at the history. -/
theorem runDoes_withHistory (ok : σ → ι → κ → Prop) (w : State (η × σ) ι) (as : List (Label κ O ε)) :
    (m.withHistory record).RunDoes (fun hc i k => ok hc.2 i k) w as ↔ m.RunDoes ok w.forget as := by
  induction as generalizing w with
  | nil => exact Iff.rfl
  | cons a as ih =>
    have hstep := m.step_forget record w a
    constructor
    · rintro ⟨h, hall⟩
      constructor
      · intro t ht
        rw [hstep] at ht
        obtain ⟨u, hu, -⟩ := Option.map_eq_some_iff.mp ht
        exact h u hu
      · intro t ht
        rw [hstep] at ht
        obtain ⟨u, hu, rfl⟩ := Option.map_eq_some_iff.mp ht
        exact (ih u).mp (hall u hu)
    · rintro ⟨h, hall⟩
      constructor
      · intro u hu
        exact h u.forget (by rw [hstep, hu]; rfl)
      · intro u hu
        exact (ih u).mpr (hall u.forget (by rw [hstep, hu]; rfl))

end

end Machine
