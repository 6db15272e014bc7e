import TptErp.Primitives
import Mathlib.Algebra.Order.Group.Int

/-!
# Hours of service

The two engines of a driver's duty time.  `HosClock` adds up durations as they come and forgets them when a
qualifying rest completes; `HosLog` keeps the intervals with their times and scans back from the latest one to the
latest qualifying rest.

Durations are nanoseconds, times are nanoseconds since the epoch.  A sum of durations past the range of `Duration`
panics in the source; intervals that lie within the range of `DateTime` do not come near it.

* `scanWindow_push`: what one more interval does to the backward scan.
* `agrees_run`: on the same periods laid out one after the other, the clock and the log take the same steps and
  hold the same window.
-/

namespace TptErp.Tms

inductive Driver

/-- Nanoseconds. -/
abbrev Duration := Nat

/-- Nanoseconds since the epoch. -/
abbrev DateTime := Int

namespace Duration

def fromSecs (secs : Nat) : Duration := secs * 10 ^ 9

end Duration

def H11 : Duration := .fromSecs (11 * 3600)
def H14 : Duration := .fromSecs (14 * 3600)
def H8_BREAK : Duration := .fromSecs (8 * 3600)
def H30_BREAK : Duration := .fromSecs (30 * 60)
def H10_OFF : Duration := .fromSecs (10 * 3600)
def H8_SLEEP : Duration := .fromSecs (8 * 3600)
def H60 : Duration := .fromSecs (60 * 3600)
def H70 : Duration := .fromSecs (70 * 3600)

/-- `to_std().unwrap_or(ZERO)` of a difference of times. -/
def toStd (x : Int) : Duration := x.toNat

/-- `chrono::Duration::days`. -/
def chronoDays (days : Nat) : Int := Duration.fromSecs (days * 86400)

/-! ## The duty status -/

inductive HosStatus
  | offDuty
  | onDuty
  | driving
  | sleeperBerth
deriving DecidableEq

structure HosStatusTransitionError where
  «from» : HosStatus
  «to» : HosStatus
deriving DecidableEq

namespace HosStatus

def canTransition : HosStatus → HosStatus → Bool
  | offDuty, onDuty
  | onDuty, offDuty
  | onDuty, driving
  | driving, onDuty
  | onDuty, sleeperBerth
  | sleeperBerth, onDuty
  | driving, sleeperBerth
  | sleeperBerth, offDuty => true
  | _, _ => false

def transition (self «to» : HosStatus) : Except HosStatusTransitionError HosStatus :=
  if self.canTransition «to» then .ok «to» else .error { «from» := self, «to» }

def isOnDuty : HosStatus → Bool
  | offDuty | sleeperBerth => false
  | onDuty | driving => true

end HosStatus

structure DutyPeriod where
  status : HosStatus
  duration : Duration

structure HosWindow where
  driving : Duration := 0
  onDuty : Duration := 0
deriving DecidableEq

inductive HosViolation
  | drivingLimit (driving : Duration)
  | onDutyLimit (onDuty : Duration)
  | breakRequired (sinceBreak : Duration)
  | cycleLimit (used limit : Duration) (days : Nat)
deriving DecidableEq

/-! ## The clock -/

structure HosClock where
  driver : Id Driver
  status : HosStatus
  window : HosWindow

namespace HosClock

def new (driver : Id Driver) : HosClock := { driver, status := .offDuty, window := {} }

def transition (c : HosClock) («to» : HosStatus) : Except HosStatusTransitionError HosClock :=
  (c.status.transition «to»).map fun status => { c with status }

/-- What a period does to the window: a qualifying rest empties it. -/
def accrue (window : HosWindow) (period : DutyPeriod) : HosWindow :=
  let resets := period.status = .offDuty ∧ H10_OFF ≤ period.duration ∨
    period.status = .sleeperBerth ∧ H8_SLEEP ≤ period.duration
  if resets then {}
  else
    match period.status with
    | .driving => { driving := window.driving + period.duration, onDuty := window.onDuty + period.duration }
    | .onDuty => { window with onDuty := window.onDuty + period.duration }
    | .offDuty | .sleeperBerth => window

/-- An error leaves the clock as it was. -/
def apply (c : HosClock) (period : DutyPeriod) : Except HosStatusTransitionError HosClock :=
  (c.transition period.status).map fun c => { c with window := accrue c.window period }

def violations (c : HosClock) : List HosViolation :=
  (if H11 < c.window.driving then [.drivingLimit c.window.driving] else []) ++
    if H14 < c.window.onDuty then [.onDutyLimit c.window.onDuty] else []

end HosClock

/-! ## The log -/

structure DutyInterval where
  status : HosStatus
  start : DateTime
  «end» : DateTime

namespace DutyInterval

def duration (iv : DutyInterval) : Duration := toStd (iv.end - iv.start)

end DutyInterval

inductive HosLogError
  | transition (e : HosStatusTransitionError)
  | invalidInterval (start «end» : DateTime)
deriving DecidableEq

structure HosLog where
  driver : Id Driver
  status : HosStatus
  intervals : List DutyInterval

namespace HosLog

def new (driver : Id Driver) : HosLog := { driver, status := .offDuty, intervals := [] }

def asOf (l : HosLog) : Option DateTime := l.intervals.getLast?.map (·.end)

/-- An error leaves the log as it was. -/
def append (l : HosLog) (interval : DutyInterval) : Except HosLogError HosLog :=
  if interval.end < interval.start then .error (.invalidInterval interval.start interval.end)
  else
    match l.status.transition interval.status with
    | .error e => .error (.transition e)
    | .ok status => .ok { l with status, intervals := l.intervals ++ [interval] }

/-- The loop of `scan_window`, over the intervals from the latest one. -/
def scan : List DutyInterval → Duration → Duration → HosWindow
  | [], driving, onDuty => { driving, onDuty }
  | iv :: rest, driving, onDuty =>
    match iv.status with
    | .driving => scan rest (driving + iv.duration) (onDuty + iv.duration)
    | .onDuty => scan rest driving (onDuty + iv.duration)
    | .offDuty => if H10_OFF ≤ iv.duration then { driving, onDuty } else scan rest driving onDuty
    | .sleeperBerth => if H8_SLEEP ≤ iv.duration then { driving, onDuty } else scan rest driving onDuty

def scanWindow (l : HosLog) : HosWindow := scan l.intervals.reverse 0 0

def drivingInWindow (l : HosLog) : Duration := l.scanWindow.driving

def onDutyInWindow (l : HosLog) : Duration := l.scanWindow.onDuty

/-- The loop of `driving_since_break`, over the intervals from the latest one. -/
def sinceBreak : List DutyInterval → Duration → Duration
  | [], d => d
  | iv :: rest, d =>
    match iv.status with
    | .driving => sinceBreak rest (d + iv.duration)
    | .onDuty => sinceBreak rest d
    | .offDuty | .sleeperBerth => if H30_BREAK ≤ iv.duration then d else sinceBreak rest d

def drivingSinceBreak (l : HosLog) : Duration := sinceBreak l.intervals.reverse 0

def breakRequired (l : HosLog) : Bool := H8_BREAK ≤ l.drivingSinceBreak

/-- The on-duty time within the last `days` days. -/
def onDutyInDays (l : HosLog) (days : Nat) : Duration :=
  match l.asOf with
  | none => 0
  | some asOf =>
    let windowStart := asOf - chronoDays days
    l.intervals.foldl (fun total iv =>
      if iv.status.isOnDuty then
        let start := max iv.start windowStart
        let «end» := min iv.end asOf
        if start < «end» then total + toStd («end» - start) else total
      else total) 0

def cycleViolation (l : HosLog) : Option HosViolation :=
  let in7 := l.onDutyInDays 7
  if H60 < in7 then some (.cycleLimit in7 H60 7)
  else
    let in8 := l.onDutyInDays 8
    if H70 < in8 then some (.cycleLimit in8 H70 8) else none

def violations (l : HosLog) : List HosViolation :=
  let w := l.scanWindow
  (if H11 < w.driving then [.drivingLimit w.driving] else []) ++
    (if H14 < w.onDuty then [.onDutyLimit w.onDuty] else []) ++
    (if l.breakRequired then [.breakRequired l.drivingSinceBreak] else []) ++
    l.cycleViolation.toList

end HosLog

/-! ## The backward scan, one interval at a time -/

/-- A scan that starts with some time has that time on top. -/
theorem scan_eq (ivs : List DutyInterval) (driving onDuty : Duration) :
    HosLog.scan ivs driving onDuty =
      { driving := driving + (HosLog.scan ivs 0 0).driving, onDuty := onDuty + (HosLog.scan ivs 0 0).onDuty } := by
  induction ivs generalizing driving onDuty with
  | nil => rfl
  | cons iv ivs ih =>
    cases hst : iv.status with
    | driving =>
      simp only [HosLog.scan, hst]
      rw [ih, ih (0 + iv.duration) (0 + iv.duration)]
      simp only [Nat.zero_add, Nat.add_assoc]
    | onDuty =>
      simp only [HosLog.scan, hst]
      rw [ih, ih 0 (0 + iv.duration)]
      simp only [Nat.zero_add, Nat.add_assoc]
    | offDuty =>
      simp only [HosLog.scan, hst]
      split
      · rfl
      · exact ih driving onDuty
    | sleeperBerth =>
      simp only [HosLog.scan, hst]
      split
      · rfl
      · exact ih driving onDuty

/-- **One more interval** does to the backward scan what its period does to the clock's window. -/
theorem scanWindow_push (ivs : List DutyInterval) (iv : DutyInterval) :
    HosLog.scan (ivs ++ [iv]).reverse 0 0 =
      HosClock.accrue (HosLog.scan ivs.reverse 0 0) { status := iv.status, duration := iv.duration } := by
  rw [List.reverse_append, List.reverse_singleton, List.singleton_append]
  cases hst : iv.status with
  | driving =>
    simp only [HosLog.scan, hst]
    rw [scan_eq]
    simp [HosClock.accrue, Nat.add_comm]
  | onDuty =>
    simp only [HosLog.scan, hst]
    rw [scan_eq]
    simp [HosClock.accrue, Nat.add_comm]
  | offDuty => simp [HosLog.scan, HosClock.accrue, hst]
  | sleeperBerth => simp [HosLog.scan, HosClock.accrue, hst]

/-! ## Both engines on the same periods -/

/-- The periods as intervals, each from where the one before ends. -/
def layout : DateTime → List DutyPeriod → List DutyInterval
  | _, [] => []
  | start, p :: ps => { status := p.status, start, «end» := start + p.duration } :: layout (start + p.duration) ps

/-- Feeds an engine one item after the other; a rejected item leaves it as it was. -/
def feed {σ α ε : Type} (step : σ → α → Except ε σ) : σ → List α → σ × List (Except ε Unit)
  | s, [] => (s, [])
  | s, a :: as =>
    match step s a with
    | .ok t => ((feed step t as).1, .ok () :: (feed step t as).2)
    | .error e => ((feed step s as).1, .error e :: (feed step s as).2)

/-- The clock and the log are in the same status, and hold the same window. -/
structure Agrees (c : HosClock) (l : HosLog) : Prop where
  status : c.status = l.status
  window : c.window = l.scanWindow

theorem agrees_new (driver : Id Driver) : Agrees (.new driver) (.new driver) := ⟨rfl, rfl⟩

theorem layout_take (start : DateTime) (steps : List DutyPeriod) (n : Nat) :
    (layout start steps).take n = layout start (steps.take n) := by
  induction steps generalizing start n with
  | nil => simp [layout]
  | cons p ps ih =>
    cases n with
    | zero => rfl
    | succ n =>
      simp only [layout, List.take_succ_cons]
      rw [ih]

/-- **One step**: both engines take it, or both reject it with the same transition. -/
theorem agrees_step {c : HosClock} {l : HosLog} (h : Agrees c l) (start : DateTime) (p : DutyPeriod) :
    (∃ c' l', c.apply p = .ok c' ∧ l.append { status := p.status, start, «end» := start + p.duration } = .ok l' ∧
        Agrees c' l') ∨
      ∃ e, c.apply p = .error e ∧
        l.append { status := p.status, start, «end» := start + p.duration } = .error (.transition e) := by
  have hle : ¬ start + (p.duration : Int) < start :=
    Int.not_lt.mpr (Int.le_add_of_nonneg_right (Int.natCast_nonneg p.duration))
  have hdur : toStd (start + (p.duration : Int) - start) = p.duration := by
    rw [add_sub_cancel_left]
    exact Int.toNat_natCast p.duration
  simp only [HosClock.apply, HosClock.transition, HosLog.append, h.status, if_neg hle]
  cases ht : l.status.transition p.status with
  | error e => exact Or.inr ⟨e, rfl, rfl⟩
  | ok status =>
    refine Or.inl ⟨_, _, rfl, rfl, rfl, ?_⟩
    show HosClock.accrue c.window p = HosLog.scan (l.intervals ++ [_]).reverse 0 0
    rw [scanWindow_push, h.window]
    simp only [DutyInterval.duration, hdur]
    rfl

/-- **Every run.** -/
theorem agrees_run {c : HosClock} {l : HosLog} (h : Agrees c l) (start : DateTime) (steps : List DutyPeriod) :
    Agrees (feed HosClock.apply c steps).1 (feed HosLog.append l (layout start steps)).1 ∧
      (feed HosLog.append l (layout start steps)).2 =
        (feed HosClock.apply c steps).2.map (Except.mapError .transition) := by
  induction steps generalizing c l start with
  | nil => exact ⟨h, rfl⟩
  | cons p ps ih =>
    rcases agrees_step h start p with ⟨c', l', hc, hl, h'⟩ | ⟨e, hc, hl⟩
    · obtain ⟨hagree, hres⟩ := ih h' (start + p.duration)
      simp only [feed, layout, hc, hl]
      exact ⟨hagree, congrArg _ hres⟩
    · obtain ⟨hagree, hres⟩ := ih h (start + p.duration)
      simp only [feed, layout, hc, hl]
      exact ⟨hagree, congrArg _ hres⟩

namespace HosViolation

/-- The violations of the 11-hour and the 14-hour window. -/
def ofWindow : HosViolation → Bool
  | drivingLimit _ | onDutyLimit _ => true
  | breakRequired _ | cycleLimit .. => false

end HosViolation

theorem ofWindow_cycleViolation (l : HosLog) : l.cycleViolation.toList.filter HosViolation.ofWindow = [] := by
  unfold HosLog.cycleViolation
  dsimp only
  split
  · rfl
  · split <;> rfl

/-- Engines that agree report the same violations of the window. -/
theorem Agrees.violations {c : HosClock} {l : HosLog} (h : Agrees c l) :
    c.violations = l.violations.filter HosViolation.ofWindow := by
  simp only [HosClock.violations, HosLog.violations, h.window, List.filter_append, ofWindow_cycleViolation]
  split <;> split <;> split <;> rfl

/-- **The two engines agree.** -/
theorem clock_agrees_with_log (driver : Id Driver) (start : DateTime) (steps : List DutyPeriod) (n : Nat) :
    let clock := feed HosClock.apply (.new driver) (steps.take n)
    let log := feed HosLog.append (.new driver) ((layout start steps).take n)
    log.2 = clock.2.map (Except.mapError .transition) ∧
      clock.1.window.driving = log.1.drivingInWindow ∧
      clock.1.window.onDuty = log.1.onDutyInWindow ∧
      clock.1.violations = log.1.violations.filter HosViolation.ofWindow := by
  intro clock log
  obtain ⟨hagree, hres⟩ := agrees_run (agrees_new driver) start (steps.take n)
  rw [← layout_take] at hagree hres
  exact ⟨hres, congrArg _ hagree.window, congrArg _ hagree.window, hagree.violations⟩

end TptErp.Tms
