import Mathlib.Data.List.Nodup
import Mathlib.Data.List.Perm.Basic
import Mathlib.Logic.Function.Basic

/-!
# Two-phase locking

Jobs work on cells, each of which has a lock.  A job takes locks one by one, then does its work on the cells that it
has locked, in steps of its own, and gives the locks back.

What a job that has begun its work is still going to do depends on its own cells alone (`LocalTo`), so it may as well
have been done at once: `Serial` relates the cells to those of an execution that does every work in one step, when it
is begun.  Its rules follow a job through its locks, its beginning, its steps and its end; when no job is at work, both
executions are in the same state and have given the same answers (`Serial.settled`).
-/

namespace TwoPhase

variable {I A R S : Type}

/-! ## Local work -/

/-- Work on cells, with its result. -/
abbrev Work (I A R : Type) := (I → A) → R × (I → A)

/-- The work reads and writes no other cells than those of `s`. -/
structure LocalTo (s : List I) (f : Work I A R) : Prop where
  reads : ∀ {c c' : I → A}, (∀ i ∈ s, c i = c' i) → (f c).1 = (f c').1
  writes : ∀ {c c' : I → A}, (∀ i ∈ s, c i = c' i) → ∀ i ∈ s, (f c).2 i = (f c').2 i
  frame : ∀ c : I → A, ∀ i ∉ s, (f c).2 i = c i

namespace LocalTo

variable {s : List I}

theorem pure (r : R) : LocalTo s (fun c : I → A => (r, c)) :=
  ⟨fun _ => rfl, fun h => h, fun _ _ _ => rfl⟩

/-- Work after work. -/
theorem bind {f : Work I A R} {g : R → Work I A S} (hf : LocalTo s f) (hg : ∀ r, LocalTo s (g r)) :
    LocalTo s fun c => g (f c).1 (f c).2 where
  reads h := by
    show (g _ _).1 = (g _ _).1
    rw [hf.reads h]
    exact (hg _).reads (hf.writes h)
  writes h i hi := by
    show (g _ _).2 i = (g _ _).2 i
    rw [hf.reads h]
    exact (hg _).writes (hf.writes h) i hi
  frame c i hi := ((hg _).frame _ i hi).trans (hf.frame c i hi)

/-- A choice that looks at the cells. -/
theorem choose {q : (I → A) → R} (hq : ∀ {c c' : I → A}, (∀ i ∈ s, c i = c' i) → q c = q c')
    {g : R → Work I A S} (hg : ∀ r, LocalTo s (g r)) : LocalTo s fun c => g (q c) c :=
  bind (f := fun c => (q c, c)) ⟨hq, fun h => h, fun _ _ _ => rfl⟩ hg

end LocalTo

/-! ## Jobs -/

/-- A job: the cells that it has locked, and the work that it has begun and not done yet. -/
structure Job (I A R : Type) where
  held : List I
  rest : Work I A (List R)
  isLocal : LocalTo held rest

/-- A job that is not at work. -/
def idle (held : List I) : Job I A R := { held, rest := fun c => ([], c), isLocal := .pure [] }

def heldBy (jobs : List (Job I A R)) : List I := jobs.flatMap Job.held

/-- The results to come. -/
def toCome (jobs : List (Job I A R)) (cells : I → A) : List R := jobs.flatMap fun job => (job.rest cells).1

variable {before after jobs : List (Job I A R)} {job job' other : Job I A R} {i : I}

theorem heldBy_middle : (heldBy (before ++ job :: after)).Perm (job.held ++ heldBy (before ++ after)) :=
  List.perm_middle.flatMap_right _

theorem toCome_middle (cells : I → A) :
    (toCome (before ++ job :: after) cells).Perm ((job.rest cells).1 ++ toCome (before ++ after) cells) :=
  List.perm_middle.flatMap_right _

theorem heldBy_congr (h : job'.held = job.held) : heldBy (before ++ job' :: after) = heldBy (before ++ job :: after) := by
  simp only [heldBy, List.flatMap_append, List.flatMap_cons, h]

theorem heldBy_idle (s : List I) :
    (heldBy (before ++ idle (R := R) s :: after)).Perm (s ++ heldBy (before ++ after)) :=
  heldBy_middle

theorem toCome_idle (s : List I) (cells : I → A) :
    (toCome (before ++ idle s :: after) cells).Perm (toCome (before ++ after) cells) :=
  toCome_middle cells

theorem mem_heldBy_of_mem (h : other ∈ jobs) (hi : i ∈ other.held) : i ∈ heldBy jobs :=
  List.mem_flatMap.mpr ⟨other, h, hi⟩

/-- The cells of different jobs are different ones. -/
theorem not_mem_held (h : (heldBy (before ++ job :: after)).Nodup) (hother : other ∈ before ++ after)
    (hi : i ∈ other.held) : i ∉ job.held := fun hjob =>
  List.disjoint_of_nodup_append (heldBy_middle.nodup_iff.mp h) hjob (mem_heldBy_of_mem hother hi)

theorem toCome_congr {cells cells' : I → A} (h : ∀ i ∈ heldBy jobs, cells i = cells' i) :
    toCome jobs cells = toCome jobs cells' := by
  induction jobs with
  | nil => rfl
  | cons job jobs ih =>
    have hjob : (job.rest cells).1 = (job.rest cells').1 :=
      job.isLocal.reads fun i hi => h i (List.mem_append_left _ hi)
    have hjobs := ih fun i hi => h i (List.mem_append_right _ hi)
    show (job.rest cells).1 ++ toCome jobs cells = (job.rest cells').1 ++ toCome jobs cells'
    rw [hjob, hjobs]

/-! ## Execution in one step -/

/-- What jobs, locks, cells and the results so far have to do with an execution in which every work that was begun is
done: its cells are `final`, its results are `results`. -/
structure Serial (jobs : List (Job I A R)) (locked : I → Bool) (cells : I → A) (done : List R) (final : I → A)
    (results : List R) : Prop where
  nodup : (heldBy jobs).Nodup
  locked_iff : ∀ i, locked i = true ↔ i ∈ heldBy jobs
  own : ∀ job ∈ jobs, ∀ i ∈ job.held, final i = (job.rest cells).2 i
  free : ∀ i ∉ heldBy jobs, final i = cells i
  results_perm : results.Perm (done ++ toCome jobs cells)

namespace Serial

variable {locked : I → Bool} {cells cells' final : I → A} {done new results : List R} {s : List I}

theorem init : Serial [] (fun _ => false) cells [] cells ([] : List R) where
  nodup := List.nodup_nil
  locked_iff := fun _ => iff_of_false Bool.false_ne_true List.not_mem_nil
  own := fun _ h => nomatch h
  free := fun _ _ => rfl
  results_perm := .refl _

/-- A new job. -/
theorem spawn (h : Serial jobs locked cells done final results) :
    Serial (jobs ++ [idle []]) locked cells done final results := by
  have hheld : heldBy (jobs ++ [idle []]) = heldBy jobs :=
    List.flatMap_append.trans (List.append_nil _)
  have hcome : toCome (jobs ++ [idle []]) cells = toCome jobs cells :=
    List.flatMap_append.trans (List.append_nil _)
  refine ⟨hheld ▸ h.nodup, fun i => hheld ▸ h.locked_iff i, ?_, fun i => hheld ▸ h.free i, hcome ▸ h.results_perm⟩
  intro job hjob i hi
  rcases List.mem_append.mp hjob with hjob | hjob
  · exact h.own job hjob i hi
  · rw [List.mem_singleton.mp hjob] at hi
    exact nomatch hi

/-- What becomes of the other jobs when a job takes a step. -/
theorem others (h : Serial (before ++ job :: after) locked cells done final results)
    (hcells : ∀ i ∉ job.held, cells' i = cells i) :
    (∀ other ∈ before ++ after, ∀ i ∈ other.held, final i = (other.rest cells').2 i) ∧
      toCome (before ++ after) cells' = toCome (before ++ after) cells := by
  have hagree : ∀ other ∈ before ++ after, ∀ i ∈ other.held, cells i = cells' i :=
    fun other hother i hi => (hcells i (not_mem_held h.nodup hother hi)).symm
  constructor
  · intro other hother i hi
    have hmem : other ∈ before ++ job :: after := List.perm_middle.mem_iff.mpr (List.mem_cons_of_mem _ hother)
    exact (h.own other hmem i hi).trans (other.isLocal.writes (hagree other hother) i hi)
  · refine (toCome_congr fun i hi => ?_).symm
    obtain ⟨other, hother, hi⟩ := List.mem_flatMap.mp hi
    exact hagree other hother i hi

/-- A job at work takes a step of it. -/
theorem advance (h : Serial (before ++ job :: after) locked cells done final results) (hheld : job'.held = job.held)
    (hcells : ∀ i ∉ job.held, cells' i = cells i)
    (hrest : ∀ i ∈ job.held, (job'.rest cells').2 i = (job.rest cells).2 i)
    (hresults : new ++ (job'.rest cells').1 = (job.rest cells).1) :
    Serial (before ++ job' :: after) locked cells' (done ++ new) final results := by
  obtain ⟨hown, hcome⟩ := h.others hcells
  have hsame : heldBy (before ++ job' :: after) = heldBy (before ++ job :: after) := heldBy_congr hheld
  refine ⟨hsame ▸ h.nodup, hsame ▸ h.locked_iff, ?_, ?_, ?_⟩
  · intro other hother i hi
    rcases List.mem_cons.mp (List.perm_middle.mem_iff.mp hother) with rfl | hother
    · rw [hheld] at hi
      exact (h.own job (List.mem_append_right _ List.mem_cons_self) i hi).trans (hrest i hi).symm
    · exact hown other hother i hi
  · intro i hi
    rw [hsame] at hi
    have hjob : i ∉ job.held := fun hmem => hi (heldBy_middle.mem_iff.mpr (List.mem_append_left _ hmem))
    exact (h.free i hi).trans (hcells i hjob).symm
  · refine h.results_perm.trans ?_
    rw [List.append_assoc]
    refine List.Perm.append_left done ((toCome_middle cells).trans ?_)
    rw [← hresults, List.append_assoc, ← hcome]
    exact List.Perm.append_left new (toCome_middle cells').symm

variable [DecidableEq I]

/-- A lock is taken. -/
theorem acquire (h : Serial (before ++ idle s :: after) locked cells done final results) (hi : locked i = false) :
    Serial (before ++ idle (s ++ [i]) :: after) (Function.update locked i true) cells done final results := by
  have hnew : i ∉ heldBy (before ++ idle s :: after) := fun hmem =>
    Bool.false_ne_true (hi.symm.trans ((h.locked_iff i).mpr hmem))
  have hperm : (heldBy (before ++ idle (s ++ [i]) :: after)).Perm (i :: heldBy (before ++ idle s :: after)) := by
    refine (heldBy_idle _).trans ?_
    rw [List.append_assoc]
    exact List.perm_middle.trans (List.Perm.cons i (heldBy_idle s).symm)
  refine ⟨hperm.nodup_iff.mpr (List.nodup_cons.mpr ⟨hnew, h.nodup⟩), fun j => ?_, ?_, ?_, ?_⟩
  · rw [hperm.mem_iff, List.mem_cons, ← h.locked_iff, Function.update_apply]
    split
    · next hj => exact iff_of_true rfl (Or.inl hj)
    · next hj => exact (or_iff_right hj).symm
  · intro other hother j hj
    rcases List.mem_cons.mp (List.perm_middle.mem_iff.mp hother) with rfl | hother
    · rcases List.mem_append.mp hj with hj | hj
      · exact h.own (idle s) (List.mem_append_right _ List.mem_cons_self) j hj
      · rw [List.mem_singleton.mp hj]
        exact h.free i hnew
    · exact h.own other (List.perm_middle.mem_iff.mpr (List.mem_cons_of_mem _ hother)) j hj
  · exact fun j hj => h.free j fun hmem => hj (hperm.mem_iff.mpr (List.mem_cons_of_mem _ hmem))
  · exact h.results_perm.trans (List.Perm.append_left done
      ((toCome_idle _ cells).trans (toCome_idle _ cells).symm))

/-- A lock is given back. -/
theorem release (h : Serial (before ++ idle (i :: s) :: after) locked cells done final results) :
    Serial (before ++ idle s :: after) (Function.update locked i false) cells done final results := by
  have hperm : (heldBy (before ++ idle (i :: s) :: after)).Perm (i :: heldBy (before ++ idle s :: after)) :=
    (heldBy_idle _).trans (List.Perm.cons i (heldBy_idle s).symm)
  obtain ⟨hgone, hnodup⟩ := List.nodup_cons.mp (hperm.nodup_iff.mp h.nodup)
  refine ⟨hnodup, fun j => ?_, ?_, ?_, ?_⟩
  · rw [Function.update_apply]
    split
    · next hj => exact iff_of_false Bool.false_ne_true (hj ▸ hgone)
    · next hj => rw [h.locked_iff, hperm.mem_iff, List.mem_cons, or_iff_right hj]
  · intro other hother j hj
    rcases List.mem_cons.mp (List.perm_middle.mem_iff.mp hother) with rfl | hother
    · exact h.own (idle (i :: s)) (List.mem_append_right _ List.mem_cons_self) j (List.mem_cons_of_mem _ hj)
    · exact h.own other (List.perm_middle.mem_iff.mpr (List.mem_cons_of_mem _ hother)) j hj
  · intro j hj
    by_cases hji : j = i
    · exact h.own (idle (i :: s)) (List.mem_append_right _ List.mem_cons_self) j (hji ▸ List.mem_cons_self)
    · exact h.free j fun hmem => hj ((List.mem_cons.mp (hperm.mem_iff.mp hmem)).resolve_left hji)
  · exact h.results_perm.trans (List.Perm.append_left done
      ((toCome_idle _ cells).trans (toCome_idle _ cells).symm))

omit [DecidableEq I] in
/-- A job begins its work: the other execution does it. -/
theorem begin (h : Serial (before ++ idle s :: after) locked cells done final results) {f : Work I A (List R)}
    (hf : LocalTo s f) :
    Serial (before ++ ⟨s, f, hf⟩ :: after) locked cells done (f final).2 (results ++ (f final).1) := by
  have hsame : ∀ i ∈ s, final i = cells i :=
    fun i hi => h.own (idle s) (List.mem_append_right _ List.mem_cons_self) i hi
  have hheld : heldBy (before ++ ⟨s, f, hf⟩ :: after) = heldBy (before ++ idle s :: after) := heldBy_congr rfl
  refine ⟨hheld ▸ h.nodup, hheld ▸ h.locked_iff, ?_, ?_, ?_⟩
  · intro other hother i hi
    rcases List.mem_cons.mp (List.perm_middle.mem_iff.mp hother) with rfl | hother
    · exact hf.writes hsame i hi
    · rw [hf.frame final i (not_mem_held h.nodup hother hi)]
      exact h.own other (List.perm_middle.mem_iff.mpr (List.mem_cons_of_mem _ hother)) i hi
  · intro i hi
    rw [hheld] at hi
    have hs : i ∉ s := fun hmem => hi (heldBy_middle.mem_iff.mpr (List.mem_append_left _ hmem))
    exact (hf.frame final i hs).trans (h.free i hi)
  · have hwork : (toCome (before ++ ⟨s, f, hf⟩ :: after) cells).Perm ((f cells).1 ++ toCome (before ++ after) cells) :=
      toCome_middle cells
    rw [hf.reads hsame]
    refine (List.Perm.append_right _ h.results_perm).trans ?_
    rw [List.append_assoc]
    refine List.Perm.append_left done (List.perm_append_comm.trans ?_)
    exact (List.Perm.append_left _ (toCome_idle s cells)).trans hwork.symm

omit [DecidableEq I] in
/-- When no job is at work, both executions are at the same point. -/
theorem settled (h : Serial jobs locked cells done final results) (hidle : ∀ job ∈ jobs, ∃ s, job = idle s) :
    final = cells ∧ results.Perm done := by
  constructor
  · funext i
    by_cases hi : i ∈ heldBy jobs
    · obtain ⟨job, hjob, hi⟩ := List.mem_flatMap.mp hi
      obtain ⟨s, rfl⟩ := hidle job hjob
      exact h.own _ hjob i hi
    · exact h.free i hi
  · have hnone : toCome jobs cells = [] := List.flatMap_eq_nil_iff.mpr fun job hjob => by
      obtain ⟨s, rfl⟩ := hidle job hjob
      rfl
    have hperm := h.results_perm
    rwa [hnone, List.append_nil] at hperm

end Serial

end TwoPhase
