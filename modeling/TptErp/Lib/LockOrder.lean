import Mathlib.Order.Extension.Linear
import Mathlib.Logic.Relation
import Mathlib.Data.List.Pairwise
import Mathlib.Logic.Function.Basic

/-!
# Threads that take several locks

Thread `i` takes the locks `locks i` one after the other, none of which may be held (not even by
itself: the locks are not re-entrant), and releases them together once it has them all.

* `Ordered locks`: one linear order of the locks in which every thread's locks increase.
* `TakenBefore locks`: some thread takes `l` and later `m`.
* `DeadlockFree locks`: in no reachable state does a thread wait for itself or on a cycle.

`ordered_iff_acyclic`: the locks are ordered exactly when `TakenBefore` has no cycle;
`deadlockFree_of_acyclic`: and then the threads cannot deadlock.
-/

namespace LockOrder

variable {ι L : Type}

/-- Thread `i` holds `l`: it has taken it and not yet released its locks.  `pc i` counts the locks
thread `i` has taken; it is one more than their number after the release. -/
def Holds (locks : ι → List L) (pc : ι → Nat) (i : ι) (l : L) : Prop :=
  pc i ≤ (locks i).length ∧ l ∈ (locks i).take (pc i)

/-- One thread takes its next lock, which is free, or releases all its locks. -/
inductive Step [DecidableEq ι] (locks : ι → List L) (pc : ι → Nat) : (ι → Nat) → Prop
  | acquire (i : ι) (l : L) (next : (locks i)[pc i]? = some l) (free : ∀ j, ¬ Holds locks pc j l) :
      Step locks pc (Function.update pc i (pc i + 1))
  | release (i : ι) (full : pc i = (locks i).length) :
      Step locks pc (Function.update pc i (pc i + 1))

def Reachable [DecidableEq ι] (locks : ι → List L) : (ι → Nat) → Prop :=
  Relation.ReflTransGen (Step locks) fun _ => 0

/-- Thread `i`'s next lock is held by thread `j` (which may be `i`). -/
def WaitsFor (locks : ι → List L) (pc : ι → Nat) (i j : ι) : Prop :=
  ∃ l, (locks i)[pc i]? = some l ∧ Holds locks pc j l

/-- No reachable state has a cycle of waiting threads (a thread waiting for itself is one). -/
def DeadlockFree [DecidableEq ι] (locks : ι → List L) : Prop :=
  ∀ pc, Reachable locks pc → ∀ i, ¬ Relation.TransGen (WaitsFor locks pc) i i

/-- One linear order of the locks in which every thread takes its locks. -/
def Ordered (locks : ι → List L) : Prop :=
  ∃ lt : L → L → Prop, IsStrictTotalOrder L lt ∧ ∀ i, (locks i).Pairwise lt

/-- Some thread takes `l` and later `m`. -/
def TakenBefore (locks : ι → List L) (l m : L) : Prop := ∃ i, List.Sublist [l, m] (locks i)

theorem nodup_of_ordered {locks : ι → List L} (h : Ordered locks) (i : ι) : (locks i).Nodup := by
  obtain ⟨lt, hlt, hp⟩ := h
  refine (hp i).imp fun {a b} (hab : lt a b) (he : a = b) => ?_
  exact hlt.irrefl b (he ▸ hab)

/-- A lock that is held comes before every lock its holder is still to take. -/
theorem takenBefore_of_holds {locks : ι → List L} {pc : ι → Nat} {j : ι} {l m : L}
    (hl : Holds locks pc j l) (hm : (locks j)[pc j]? = some m) : TakenBefore locks l m := by
  refine ⟨j, ?_⟩
  rw [← List.take_append_drop (pc j) (locks j)]
  have hd : m ∈ (locks j).drop (pc j) := by
    rw [List.mem_iff_getElem?]
    exact ⟨0, by rw [List.getElem?_drop, Nat.add_zero, hm]⟩
  exact (List.singleton_sublist.mpr hl.2).append (List.singleton_sublist.mpr hd)

/-- Along a chain of waiting threads, the locks waited for are taken one before the other. -/
theorem takenBefore_of_waits {locks : ι → List L} {pc : ι → Nat} {i j : ι}
    (h : Relation.TransGen (WaitsFor locks pc) i j) {m : L} (hm : (locks j)[pc j]? = some m) :
    ∃ l, (locks i)[pc i]? = some l ∧ Relation.TransGen (TakenBefore locks) l m := by
  induction h using Relation.TransGen.head_induction_on with
  | single hij =>
    obtain ⟨l, hl, hh⟩ := hij
    exact ⟨l, hl, .single (takenBefore_of_holds hh hm)⟩
  | head hij _ ih =>
    obtain ⟨l, hl, hh⟩ := hij
    obtain ⟨k, hk, hkm⟩ := ih
    exact ⟨l, hl, .head (takenBefore_of_holds hh hk) hkm⟩

/-- **Acyclic orders prevent deadlock.** -/
theorem deadlockFree_of_acyclic [DecidableEq ι] {locks : ι → List L}
    (h : ∀ l, ¬ Relation.TransGen (TakenBefore locks) l l) : DeadlockFree locks := by
  intro pc _ i hi
  obtain ⟨j, ⟨l, hl, -⟩, -⟩ := Relation.TransGen.head'_iff.mp hi
  obtain ⟨m, hm, hlm⟩ := takenBefore_of_waits hi hl
  rw [hl] at hm
  exact h l (Option.some.inj hm ▸ hlm)

/-- A strict order that contains `TakenBefore` has no cycle, whichever order it is. -/
theorem acyclic_of_ordered {locks : ι → List L} (h : Ordered locks) (l : L) :
    ¬ Relation.TransGen (TakenBefore locks) l l := by
  obtain ⟨lt, hlt, hp⟩ := h
  have hsub : ∀ a b, TakenBefore locks a b → lt a b := by
    rintro a b ⟨i, hi⟩
    exact List.pairwise_iff_forall_sublist.mp (hp i) hi
  have hle : ∀ a b, Relation.TransGen (TakenBefore locks) a b → lt a b := by
    intro a b hab
    induction hab with
    | single h1 => exact hsub _ _ h1
    | tail _ h1 ih => exact hlt.trans _ _ _ ih (hsub _ _ h1)
  exact fun hl => hlt.irrefl l (hle l l hl)

/-- **The locks can be ordered exactly when they are never taken in a cycle.** -/
theorem ordered_iff_acyclic {locks : ι → List L} :
    Ordered locks ↔ ∀ l, ¬ Relation.TransGen (TakenBefore locks) l l := by
  refine ⟨acyclic_of_ordered, fun h => ?_⟩
  have hpo : IsPartialOrder L (Relation.ReflTransGen (TakenBefore locks)) :=
    { refl := fun _ => .refl
      trans := fun _ _ _ => .trans
      antisymm := fun a b hab hba => by
        rcases Relation.reflTransGen_iff_eq_or_transGen.mp hab with rfl | hab
        · rfl
        · exact absurd (hab.trans_left hba) (h a) }
  obtain ⟨le, hle, hsub⟩ := extend_partialOrder (Relation.ReflTransGen (TakenBefore locks))
  refine ⟨fun a b => le a b ∧ a ≠ b, ?_, fun i => ?_⟩
  · exact
      { trichotomous := fun a b hab hba => by
          by_contra hne
          rcases hle.total a b with h1 | h1
          · exact hab ⟨h1, hne⟩
          · exact hba ⟨h1, Ne.symm hne⟩
        irrefl := fun a ha => ha.2 rfl
        trans := fun a b c hab hbc => ⟨hle.trans _ _ _ hab.1 hbc.1, fun hac => by
          subst hac
          exact hab.2 (hle.antisymm _ _ hab.1 hbc.1)⟩ }
  · refine List.pairwise_iff_forall_sublist.mpr fun {a b} hab => ?_
    have hab' : TakenBefore locks a b := ⟨i, hab⟩
    refine ⟨hsub a b (.single hab'), fun he => h a ?_⟩
    exact .single (he ▸ hab')

end LockOrder
