import TptErp.Lib.Run
import TptErp.Tms.Hos
import Mathlib.Algebra.BigOperators.Group.List.Basic
import Mathlib.Order.Bounds.Defs

/-!
# The duty log as a timeline

`append` checks an interval's own bounds and the transition of the status, not that it starts where the log ends.  A log
is a timeline as long as every accepted interval does:

    in every state ↔ at every accepted interval: as_of ≤ start        (timeline_iff)

A window that begins before the first `DateTime` panics in the source; here it is as long as it is asked to be.
-/

namespace TptErp.Tms

/-- A call of `append`; an error leaves the log as it was. -/
def HosLog.step (l : HosLog) (interval : DutyInterval) : Option HosLog :=
  match l.append interval with
  | .ok l' => some l'
  | .error _ => some l

/-- **A timeline**: one interval after the other, up to `as_of`, and no more on-duty time than time. -/
structure HosLog.Timeline (l : HosLog) : Prop where
  ordered : l.intervals.Pairwise fun a b => a.end ≤ b.start
  latest : ∀ asOf, l.asOf = some asOf → IsGreatest {t | ∃ iv ∈ l.intervals, iv.end = t} asOf
  bounded : ∀ days, (l.onDutyInDays days : Int) ≤ chronoDays days

/-- `append` accepts no interval that starts before the end of the log. -/
def HosLog.Continues (l : HosLog) (interval : DutyInterval) : Prop :=
  ∀ l', l.append interval = .ok l' → ∀ asOf, l.asOf = some asOf → asOf ≤ interval.start

namespace HosLog

theorem append_ok {l l' : HosLog} {interval : DutyInterval} (h : l.append interval = .ok l') :
    interval.start ≤ interval.end ∧ l'.intervals = l.intervals ++ [interval] := by
  unfold append at h
  split at h
  · cases h
  · next hle =>
    split at h
    · cases h
    · cases h
      exact ⟨not_lt.mp hle, rfl⟩

theorem asOf_mem {l : HosLog} {t : DateTime} (h : l.asOf = some t) : ∃ iv ∈ l.intervals, iv.end = t := by
  obtain ⟨iv, hiv, rfl⟩ := Option.map_eq_some_iff.mp h
  exact ⟨iv, List.mem_of_getLast? hiv, rfl⟩

end HosLog

/-! ## On-duty time -/

/-- The part of `start … end` in a window. -/
def within (lo hi start «end» : Int) : Nat := (min «end» hi - max start lo).toNat

theorem within_le {lo hi : Int} (hle : lo ≤ hi) (start «end» : Int) :
    (within lo hi start «end» : Int) ≤ max lo (min «end» hi) - lo := by
  unfold within
  omega

/-- What starts later has its part in the rest of the window. -/
theorem within_after {lo hi «end» start' : Int} (h : «end» ≤ start') (end' : Int) :
    within lo hi start' end' = within (max lo (min «end» hi)) hi start' end' := by
  unfold within
  omega

/-- The on-duty time of an interval in a window. -/
def share (lo hi : Int) (iv : DutyInterval) : Nat := if iv.status.isOnDuty then within lo hi iv.start iv.end else 0

theorem share_le {lo hi : Int} (hle : lo ≤ hi) (iv : DutyInterval) :
    (share lo hi iv : Int) ≤ max lo (min iv.end hi) - lo := by
  unfold share
  split
  · exact within_le hle iv.start iv.end
  · show (0 : Int) ≤ max lo (min iv.end hi) - lo
    omega

/-- The loop of `on_duty_in_days` adds up the shares. -/
theorem foldl_share (lo hi : Int) (ivs : List DutyInterval) (total : Nat) :
    ivs.foldl (fun total iv =>
      if iv.status.isOnDuty then
        let start := max iv.start lo
        let «end» := min iv.end hi
        if start < «end» then total + toStd («end» - start) else total
      else total) total = total + (ivs.map (share lo hi)).sum := by
  induction ivs generalizing total with
  | nil => simp
  | cons iv ivs ih =>
    rw [List.foldl_cons, ih, List.map_cons, List.sum_cons, ← Nat.add_assoc]
    congr 1
    unfold share
    dsimp only
    split
    · split
      · rfl
      · next hlt =>
        have hzero : within lo hi iv.start iv.end = 0 := Int.toNat_of_nonpos (Int.sub_nonpos_of_le (not_lt.mp hlt))
        rw [hzero, Nat.add_zero]
    · rfl

/-- Intervals one after the other have no more time in a window than there is. -/
theorem sum_share_le {ivs : List DutyInterval} (h : ivs.Pairwise fun a b => a.end ≤ b.start) {lo hi : Int}
    (hle : lo ≤ hi) : ((ivs.map (share lo hi)).sum : Int) ≤ hi - lo := by
  induction ivs generalizing lo with
  | nil =>
    show (0 : Int) ≤ hi - lo
    omega
  | cons iv ivs ih =>
    obtain ⟨hlater, hrest⟩ := List.pairwise_cons.mp h
    -- the others have their time in what the interval leaves of the window
    have hothers : ivs.map (share lo hi) = ivs.map (share (max lo (min iv.end hi)) hi) := by
      apply List.map_congr_left
      intro iv' hiv'
      unfold share
      rw [within_after (hlater iv' hiv') iv'.end]
    have hmid : max lo (min iv.end hi) ≤ hi := by omega
    have htime := ih hrest hmid
    have hone := share_le hle iv
    rw [List.map_cons, List.sum_cons, hothers, Int.natCast_add]
    calc (share lo hi iv : Int) + ((ivs.map (share (max lo (min iv.end hi)) hi)).sum : Nat)
        ≤ (max lo (min iv.end hi) - lo) + (hi - max lo (min iv.end hi)) := Int.add_le_add hone htime
      _ = hi - lo := by omega

theorem chronoDays_nonneg (days : Nat) : 0 ≤ chronoDays days := Int.natCast_nonneg _

theorem onDutyInDays_le {l : HosLog} (h : l.intervals.Pairwise fun a b => a.end ≤ b.start) (days : Nat) :
    (l.onDutyInDays days : Int) ≤ chronoDays days := by
  unfold HosLog.onDutyInDays
  cases hl : l.asOf with
  | none => exact chronoDays_nonneg days
  | some asOf =>
    have hsum := sum_share_le h (Int.sub_le_self asOf (chronoDays_nonneg days))
    dsimp only
    rw [foldl_share, Nat.zero_add]
    exact hsum.trans (by omega)

/-! ## Steps -/

/-- What every log has: no interval ends before it starts. -/
def HosLog.Proper (l : HosLog) : Prop := ∀ iv ∈ l.intervals, iv.start ≤ iv.end

theorem HosLog.step_cases {l t : HosLog} {interval : DutyInterval} (h : l.step interval = some t) :
    l.append interval = .ok t ∨ t = l ∧ ∃ e, l.append interval = .error e := by
  unfold HosLog.step at h
  split at h
  · next l' hl' =>
    cases h
    exact .inl hl'
  · next e he =>
    cases h
    exact .inr ⟨rfl, e, he⟩

theorem HosLog.step_ne_none (l : HosLog) (interval : DutyInterval) : l.step interval ≠ none := by
  unfold HosLog.step
  split
  · exact Option.some_ne_none _
  · exact Option.some_ne_none _

theorem proper_step {l t : HosLog} {interval : DutyInterval} (h : l.Proper) (hstep : l.step interval = some t) :
    t.Proper := by
  rcases HosLog.step_cases hstep with happend | ⟨rfl, -⟩
  · obtain ⟨hle, hivs⟩ := HosLog.append_ok happend
    intro iv hiv
    rw [hivs] at hiv
    rcases List.mem_append.mp hiv with hiv | hiv
    · exact h iv hiv
    · rw [List.mem_singleton.mp hiv]
      exact hle
  · exact h

/-- A log of proper intervals in order is a timeline. -/
theorem timeline_of_ordered {l : HosLog} (hproper : l.Proper) (h : l.intervals.Pairwise fun a b => a.end ≤ b.start) :
    l.Timeline where
  ordered := h
  latest asOf hasOf := by
    refine ⟨HosLog.asOf_mem hasOf, ?_⟩
    rintro _ ⟨iv, hiv, rfl⟩
    obtain ⟨last, hlast, rfl⟩ := Option.map_eq_some_iff.mp hasOf
    obtain ⟨ivs, hivs⟩ := List.getLast?_eq_some_iff.mp hlast
    have hmem : last ∈ l.intervals := List.mem_of_getLast? hlast
    rw [hivs] at h hiv
    rcases List.mem_append.mp hiv with hiv | hiv
    · exact ((List.pairwise_append.mp h).2.2 iv hiv last List.mem_cons_self).trans (hproper last hmem)
    · rw [List.mem_singleton.mp hiv]
  bounded := onDutyInDays_le h

/-- **One accepted interval** keeps the timeline when it starts no earlier than `as_of`, and only then. -/
theorem timeline_append_iff {l l' : HosLog} {interval : DutyInterval} (hproper : l.Proper) (h : l.Timeline)
    (happend : l.append interval = .ok l') :
    l'.Timeline ↔ ∀ asOf, l.asOf = some asOf → asOf ≤ interval.start := by
  have hivs := (HosLog.append_ok happend).2
  constructor
  · intro ht asOf hasOf
    obtain ⟨iv, hiv, rfl⟩ := HosLog.asOf_mem hasOf
    have hordered := ht.ordered
    rw [hivs] at hordered
    exact (List.pairwise_append.mp hordered).2.2 iv hiv interval List.mem_cons_self
  · intro hstart
    have hstep : l.step interval = some l' := by
      unfold HosLog.step
      rw [happend]
    apply timeline_of_ordered (proper_step hproper hstep)
    rw [hivs, List.pairwise_append]
    refine ⟨h.ordered, List.pairwise_singleton _ _, ?_⟩
    intro iv hiv last hlast
    rw [List.mem_singleton.mp hlast]
    obtain ⟨asOf, hasOf⟩ : ∃ asOf, l.asOf = some asOf := by
      cases hnone : l.asOf with
      | some asOf => exact ⟨asOf, rfl⟩
      | none =>
        rw [HosLog.asOf, Option.map_eq_none_iff, List.getLast?_eq_none_iff] at hnone
        rw [hnone] at hiv
        cases hiv
    exact ((h.latest asOf hasOf).2 ⟨iv, hiv, rfl⟩).trans (hstart asOf hasOf)

theorem timeline_step_iff {l t : HosLog} {interval : DutyInterval} (hproper : l.Proper) (h : l.Timeline)
    (hstep : l.step interval = some t) : t.Timeline ↔ l.Continues interval := by
  rcases HosLog.step_cases hstep with happend | ⟨rfl, e, he⟩
  · rw [timeline_append_iff hproper h happend]
    constructor
    · intro hstart l' hl'
      exact hstart
    · intro hc
      exact hc t happend
  · refine iff_of_true h ?_
    intro l' hl'
    rw [he] at hl'
    cases hl'

theorem timeline_new (driver : Id Driver) : (HosLog.new driver).Timeline :=
  timeline_of_ordered (fun iv hiv => by cases hiv) List.Pairwise.nil

/-- **The duty log is a timeline** throughout the runs in which no accepted interval starts before the end of the log, and
in no other. -/
theorem timeline_iff (driver : Id Driver) (intervals : List DutyInterval) :
    LabelledRun.AllStates HosLog.step HosLog.Timeline (.new driver) intervals ↔
      LabelledRun.AllSteps HosLog.step HosLog.Continues (.new driver) intervals := by
  have hproper : (HosLog.new driver).Proper := fun iv hiv => by cases hiv
  exact LabelledRun.allStates_iff_allSteps_of_none HosLog.step HosLog.Proper
    (fun l iv t h _ _ hstep => proper_step h hstep) (fun l iv t h hl hstep => timeline_step_iff h hl hstep)
    (fun l iv hnone => absurd hnone (l.step_ne_none iv)) hproper (timeline_new driver)

/-- The same day, logged on duty and then driving. -/
def dayTwice : List DutyInterval :=
  [{ status := .onDuty, start := 0, «end» := chronoDays 1 }, { status := .driving, start := 0, «end» := chronoDays 1 }]

/-- Both are accepted, and there are two days of on-duty time in one. -/
theorem not_timeline : ¬ LabelledRun.AllStates HosLog.step HosLog.Timeline (.new ⟨1⟩) dayTwice := by
  intro h
  have hlast := h.last HosLog.step rfl
  exact absurd (hlast.bounded 1) (by decide)

end TptErp.Tms
