import TptErp.Lib.AfterLast
import TptErp.Tms.Timeline

/-!
# A rest in two parts

A driver who rests in the berth and goes off duty without working in between has two intervals in the log.  The scans
look at one interval at a time:

    windows as after the rest ↔ one of the two resets them, or a later interval, or nothing precedes that counts
                                                                          (split_rest_iff)

The threshold is 10 hours off duty or 8 hours in the berth for the window of driving and on-duty time, and 30 minutes of
either for the break.
-/

namespace TptErp.Tms

open AfterLast

/-- A qualifying rest of the 11-hour and 14-hour window. -/
def resets (iv : DutyInterval) : Bool :=
  iv.status = .offDuty ∧ H10_OFF ≤ iv.duration ∨ iv.status = .sleeperBerth ∧ H8_SLEEP ≤ iv.duration

/-- A qualifying break. -/
def breaks (iv : DutyInterval) : Bool := (iv.status = .offDuty ∨ iv.status = .sleeperBerth) ∧ H30_BREAK ≤ iv.duration

def drivingTime (iv : DutyInterval) : Nat := if iv.status = .driving then iv.duration else 0

def onDutyTime (iv : DutyInterval) : Nat := if iv.status.isOnDuty then iv.duration else 0

/-! ## The scans as sums -/

theorem scan_cons (iv : DutyInterval) (ivs : List DutyInterval) (driving onDuty : Duration) :
    HosLog.scan (iv :: ivs) driving onDuty =
      if resets iv then { driving, onDuty } else HosLog.scan ivs (driving + drivingTime iv) (onDuty + onDutyTime iv) := by
  cases hst : iv.status with
  | driving => simp [HosLog.scan, hst, resets, drivingTime, onDutyTime, HosStatus.isOnDuty]
  | onDuty => simp [HosLog.scan, hst, resets, drivingTime, onDutyTime, HosStatus.isOnDuty]
  | offDuty => simp [HosLog.scan, hst, resets, drivingTime, onDutyTime, HosStatus.isOnDuty]
  | sleeperBerth => simp [HosLog.scan, hst, resets, drivingTime, onDutyTime, HosStatus.isOnDuty]

theorem sinceBreak_cons (iv : DutyInterval) (ivs : List DutyInterval) (d : Duration) :
    HosLog.sinceBreak (iv :: ivs) d = if breaks iv then d else HosLog.sinceBreak ivs (d + drivingTime iv) := by
  cases hst : iv.status with
  | driving => simp [HosLog.sinceBreak, hst, breaks, drivingTime]
  | onDuty => simp [HosLog.sinceBreak, hst, breaks, drivingTime]
  | offDuty => simp [HosLog.sinceBreak, hst, breaks, drivingTime]
  | sleeperBerth => simp [HosLog.sinceBreak, hst, breaks, drivingTime]

theorem scan_eq_sum (ivs : List DutyInterval) (driving onDuty : Duration) :
    HosLog.scan ivs driving onDuty =
      { driving := driving + ((ivs.takeWhile fun iv => !resets iv).map drivingTime).sum
        onDuty := onDuty + ((ivs.takeWhile fun iv => !resets iv).map onDutyTime).sum } := by
  induction ivs generalizing driving onDuty with
  | nil => rfl
  | cons iv ivs ih =>
    rw [scan_cons, ih, List.takeWhile_cons]
    by_cases hr : resets iv = true
    · simp [hr]
    · simp [hr, Nat.add_assoc]

theorem sinceBreak_eq_sum (ivs : List DutyInterval) (d : Duration) :
    HosLog.sinceBreak ivs d = d + ((ivs.takeWhile fun iv => !breaks iv).map drivingTime).sum := by
  induction ivs generalizing d with
  | nil => rfl
  | cons iv ivs ih =>
    rw [sinceBreak_cons, ih, List.takeWhile_cons]
    by_cases hb : breaks iv = true
    · simp [hb]
    · simp [hb, Nat.add_assoc]

/-- Scanning back adds up what comes after the last reset. -/
theorem tally_eq_sum (p : DutyInterval → Bool) (w : DutyInterval → Nat) (ivs : List DutyInterval) :
    tally p w ivs = ((ivs.reverse.takeWhile fun iv => !p iv).map w).sum := by
  unfold tally afterLast List.rtakeWhile
  rw [List.map_reverse, List.sum_reverse]

namespace HosLog

variable (l : HosLog)

theorem drivingInWindow_eq : l.drivingInWindow = tally resets drivingTime l.intervals := by
  rw [tally_eq_sum, drivingInWindow, scanWindow, scan_eq_sum]
  exact Nat.zero_add _

theorem onDutyInWindow_eq : l.onDutyInWindow = tally resets onDutyTime l.intervals := by
  rw [tally_eq_sum, onDutyInWindow, scanWindow, scan_eq_sum]
  exact Nat.zero_add _

theorem drivingSinceBreak_eq : l.drivingSinceBreak = tally breaks drivingTime l.intervals := by
  rw [tally_eq_sum, drivingSinceBreak, sinceBreak_eq_sum]
  exact Nat.zero_add _

end HosLog

/-! ## The rest -/

/-- The intervals of a log, around a `SleeperBerth` and the `OffDuty` that directly follows. -/
structure SplitRest where
  before : List DutyInterval
  berth : DutyInterval
  off : DutyInterval
  after : List DutyInterval
  berth_status : berth.status = .sleeperBerth
  off_status : off.status = .offDuty

namespace SplitRest

variable (r : SplitRest)

def intervals : List DutyInterval := r.before ++ r.berth :: r.off :: r.after

def duration : Duration := r.berth.duration + r.off.duration

/-- The log that holds only the intervals after the rest. -/
def rest (l : HosLog) : HosLog := { l with intervals := r.after }

/-- The window of the log is the one after the rest. -/
def WindowCounts (l : HosLog) : Prop :=
  l.drivingInWindow = (r.rest l).drivingInWindow ∧ l.onDutyInWindow = (r.rest l).onDutyInWindow

/-- The break is one after which the log has what comes after the rest. -/
def BreakCounts (l : HosLog) : Prop :=
  l.drivingSinceBreak = (r.rest l).drivingSinceBreak ∧ l.breakRequired = (r.rest l).breakRequired

/-- What the two intervals or a later one reset. -/
def Qualifies (p : DutyInterval → Bool) : Prop := (∃ iv ∈ r.after, p iv = true) ∨ p r.berth = true ∨ p r.off = true

/-- Nothing between the last reset and the rest has any weight. -/
def Idle (p : DutyInterval → Bool) (w : DutyInterval → Nat) : Prop := ∀ iv ∈ afterLast p r.before, w iv = 0

/-- The rest itself has no weight: the scans see what precedes it unless there is a reset. -/
theorem tally_iff (p : DutyInterval → Bool) {w : DutyInterval → Nat} (hberth : w r.berth = 0) (hoff : w r.off = 0) :
    tally p w r.intervals = tally p w r.after ↔ r.Qualifies p ∨ r.Idle p w := by
  have hsplit : r.intervals = (r.before ++ [r.berth, r.off]) ++ r.after := by
    unfold intervals
    simp
  have hrest : tally p w (r.before ++ [r.berth, r.off]) = 0 ↔ (p r.berth = true ∨ p r.off = true) ∨ r.Idle p w := by
    unfold Idle
    rw [← tally_eq_zero_iff, tally_append]
    have hzero : tally p w [r.berth, r.off] = 0 := by
      rw [tally_eq_zero_iff]
      intro iv hiv
      have hmem : iv ∈ [r.berth, r.off] := (List.rtakeWhile_suffix _ _).subset hiv
      rcases List.mem_pair.mp hmem with rfl | rfl
      · exact hberth
      · exact hoff
    by_cases hany : [r.berth, r.off].any p = true
    · rw [if_pos hany, hzero]
      exact iff_of_true rfl (.inl (by simpa using hany))
    · rw [if_neg hany]
      have hno : ¬ (p r.berth = true ∨ p r.off = true) := by simpa using hany
      simp [hberth, hoff, hno]
  rw [hsplit, tally_append_eq_iff, hrest, List.any_eq_true]
  exact or_assoc.symm

variable {r} {l : HosLog}

theorem windowCounts_iff (h : l.intervals = r.intervals) :
    r.WindowCounts l ↔ r.Qualifies resets ∨ r.Idle resets onDutyTime := by
  have hdriving : drivingTime r.berth = 0 ∧ drivingTime r.off = 0 := by simp [drivingTime, r.berth_status, r.off_status]
  have honDuty : onDutyTime r.berth = 0 ∧ onDutyTime r.off = 0 := by
    simp [onDutyTime, HosStatus.isOnDuty, r.berth_status, r.off_status]
  unfold WindowCounts
  rw [HosLog.drivingInWindow_eq, HosLog.drivingInWindow_eq, HosLog.onDutyInWindow_eq, HosLog.onDutyInWindow_eq, h]
  show tally resets drivingTime r.intervals = tally resets drivingTime r.after ∧
    tally resets onDutyTime r.intervals = tally resets onDutyTime r.after ↔ _
  rw [r.tally_iff resets hdriving.1 hdriving.2, r.tally_iff resets honDuty.1 honDuty.2]
  constructor
  · exact fun hboth => hboth.2
  · rintro (hq | hidle)
    · exact ⟨.inl hq, .inl hq⟩
    · refine ⟨.inr fun iv hiv => ?_, .inr hidle⟩
      -- driving is on duty
      have hzero := hidle iv hiv
      unfold drivingTime
      split
      · next hst => simpa [onDutyTime, HosStatus.isOnDuty, hst] using hzero
      · rfl

theorem breakCounts_iff (h : l.intervals = r.intervals) :
    r.BreakCounts l ↔ r.Qualifies breaks ∨ r.Idle breaks drivingTime := by
  have hdriving : drivingTime r.berth = 0 ∧ drivingTime r.off = 0 := by simp [drivingTime, r.berth_status, r.off_status]
  have hcounts : r.BreakCounts l ↔ l.drivingSinceBreak = (r.rest l).drivingSinceBreak := by
    constructor
    · exact fun hboth => hboth.1
    · intro heq
      refine ⟨heq, ?_⟩
      unfold HosLog.breakRequired
      rw [heq]
  rw [hcounts, HosLog.drivingSinceBreak_eq, HosLog.drivingSinceBreak_eq, h]
  exact r.tally_iff breaks hdriving.1 hdriving.2

end SplitRest

/-- **A rest in two parts**, in every log that is reached: what precedes it is left out of the window, or of the driving
since the break, when one of the two intervals qualifies, when a later one does, or when there is nothing to leave out,
and only then. -/
theorem split_rest_iff (driver : Id Driver) (calls : List DutyInterval) :
    LabelledRun.AllStates HosLog.step (fun l => ∀ r : SplitRest, l.intervals = r.intervals →
      (r.WindowCounts l ↔ r.Qualifies resets ∨ r.Idle resets onDutyTime) ∧
      (r.BreakCounts l ↔ r.Qualifies breaks ∨ r.Idle breaks drivingTime)) (.new driver) calls := by
  have hall : ∀ (l : HosLog) (r : SplitRest), l.intervals = r.intervals →
      (r.WindowCounts l ↔ r.Qualifies resets ∨ r.Idle resets onDutyTime) ∧
      (r.BreakCounts l ↔ r.Qualifies breaks ∨ r.Idle breaks drivingTime) :=
    fun l r h => ⟨SplitRest.windowCounts_iff h, SplitRest.breakCounts_iff h⟩
  exact LabelledRun.allStates_of_step HosLog.step (fun _ _ t _ _ => hall t) calls (hall _)

/-- In a log without gaps, two intervals that are together long enough are a qualifying rest. -/
def HosLog.CountsRests (l : HosLog) : Prop :=
  (l.intervals.IsChain fun a b => a.end = b.start) → ∀ r : SplitRest, l.intervals = r.intervals →
    (H10_OFF ≤ r.duration → r.WindowCounts l) ∧ (H30_BREAK ≤ r.duration → r.BreakCounts l)

/-- An hour on duty and an hour of driving, then a rest in the berth and off duty. -/
def inTwo (berth off : Duration) : SplitRest where
  before := layout 0 [⟨.onDuty, .fromSecs 3600⟩, ⟨.driving, .fromSecs 3600⟩]
  berth := { status := .sleeperBerth, start := Duration.fromSecs 7200, «end» := Duration.fromSecs 7200 + berth }
  off :=
    { status := .offDuty
      start := Duration.fromSecs 7200 + berth
      «end» := Duration.fromSecs 7200 + berth + off }
  after := []
  berth_status := rfl
  off_status := rfl

def HosLog.atRest (r : SplitRest) : HosLog := { driver := ⟨1⟩, status := .offDuty, intervals := r.intervals }

/-- Five hours of each leave the work before them in the window, twenty minutes of each the driving since the break. -/
theorem split_rest_missed :
    ¬ LabelledRun.AllStates HosLog.step HosLog.CountsRests (.new ⟨1⟩)
        (inTwo (.fromSecs 18000) (.fromSecs 18000)).intervals ∧
      ¬ LabelledRun.AllStates HosLog.step HosLog.CountsRests (.new ⟨1⟩)
        (inTwo (.fromSecs 1200) (.fromSecs 1200)).intervals := by
  constructor
  · intro h
    have hlog : LabelledRun.exec HosLog.step (.new ⟨1⟩) (inTwo (.fromSecs 18000) (.fromSecs 18000)).intervals =
      some (.atRest (inTwo (.fromSecs 18000) (.fromSecs 18000))) := rfl
    have hcounts := ((h.last HosLog.step hlog) (by decide) _ rfl).1 (by decide)
    exact absurd hcounts.1 (by decide)
  · intro h
    have hlog : LabelledRun.exec HosLog.step (.new ⟨1⟩) (inTwo (.fromSecs 1200) (.fromSecs 1200)).intervals =
      some (.atRest (inTwo (.fromSecs 1200) (.fromSecs 1200))) := rfl
    have hcounts := ((h.last HosLog.step hlog) (by decide) _ rfl).2 (by decide)
    exact absurd hcounts.1 (by decide)

end TptErp.Tms
