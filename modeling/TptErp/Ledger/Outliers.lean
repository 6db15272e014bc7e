import TptErp.Ledger.Anomaly
import TptErp.Lib.Moments
import Mathlib.Analysis.Real.Sqrt

/-!
# Amount outliers

The outlier detector of `AnomalyProjector`, over any numbers: the projector runs it on floating-point numbers
(`run_detector`), and on real numbers it can be said what it computes.

    (run exact z n events).moments = batch (samples events)
    a balanced transaction is flagged ↔ its value is Outlying among those before it        (outliers_exact)

So the streaming statistics need no second pass, and a transaction is scored against the earlier ones alone.
-/

namespace TptErp.Ledger

open Server

/-- The functions of the numbers that the detector calls. -/
structure Numbers (K : Type) where
  ofNat : Nat → K
  ofDecimal : Decimal → Option K
  sqrt : K → K
  abs : K → K

structure Outlier (K : Type) where
  tx : TransactionId
  value : K
  zScore : K

/-- The part of `AnomalyProjector` that the outlier detector uses. -/
structure OutlierDetector (K : Type) where
  moments : Moments K
  outliers : List (Outlier K)

namespace OutlierDetector

section Program

variable {K : Type} [Zero K] [Add K] [Sub K] [Mul K] [Div K] [LT K] [DecidableLT K] (num : Numbers K)

def new : OutlierDetector K := { moments := .start, outliers := [] }

/-- What is found when a value comes after those of the moments. -/
def scored (zThreshold : K) (minSamples : Nat) (m : Moments K) (tx : TransactionId) (value : K) : List (Outlier K) :=
  if m.n ≥ minSamples then
    let variance := m.m2 / num.ofNat m.n
    let std := num.sqrt variance
    if std > 0 then
      let z := (value - m.mean) / std
      if num.abs z > zThreshold then [{ tx := tx, value := value, zScore := z }] else []
    else []
  else []

/-- `detect_amount`. -/
def detectAmount (zThreshold : K) (minSamples : Nat) (d : OutlierDetector K) (tx : TransactionId) (value : K) :
    OutlierDetector K :=
  { moments := d.moments.push num.ofNat value
    outliers := d.outliers ++ scored num zThreshold minSamples d.moments tx value }

/-- The value of a transaction: its amounts added up. -/
def valueOf (tx : Posting) : K := tx.entries.foldl (fun sum e => sum + (num.ofDecimal e.amount).getD 0) 0

/-- The sample that an event gives: only a balanced transaction gives one. -/
def sample : Server.LedgerEvent → Option (TransactionId × K)
  | .transactionPosted tx => if tx.isBalanced = some true then some (tx.id, valueOf num tx) else none

def apply (zThreshold : K) (minSamples : Nat) (d : OutlierDetector K) (ev : Server.LedgerEvent) : OutlierDetector K :=
  match sample num ev with
  | some (tx, value) => d.detectAmount num zThreshold minSamples tx value
  | none => d

def run (zThreshold : K) (minSamples : Nat) (events : List Server.LedgerEvent) : OutlierDetector K :=
  events.foldl (apply num zThreshold minSamples) new

/-- The values sampled from a stream, in order. -/
def samples (events : List Server.LedgerEvent) : List K := (events.filterMap (sample num)).map (·.2)

end Program

end OutlierDetector

/-! ## The projector runs the detector -/

open OutlierDetector

def floats (toF64 : Decimal → Option Float) : Numbers Float :=
  { ofNat := Nat.toFloat, ofDecimal := toF64, sqrt := Float.sqrt, abs := Float.abs }

def Outlier.anomaly (o : Outlier Float) : Anomaly := .amountOutlier o.tx (decimalOfI64 o.value.toInt64) o.zScore

def Anomaly.isOutlier : Anomaly → Bool
  | .amountOutlier .. => true
  | _ => false

/-- The projector has the detector's numbers and its findings. -/
structure AnomalyProjector.Runs (p : AnomalyProjector) (d : OutlierDetector Float) : Prop where
  n : p.n = d.moments.n
  mean : p.mean = d.moments.mean
  m2 : p.m2 = d.moments.m2
  outliers : p.anomalies.filter Anomaly.isOutlier = d.outliers.map Outlier.anomaly

namespace AnomalyProjector

variable {p : AnomalyProjector} {d : OutlierDetector Float} (toF64 : Decimal → Option Float)

theorem detectAmount_anomalies (tx : TransactionId) (value : Float) :
    (p.detectAmount tx value).anomalies = p.anomalies ++
      (scored (floats toF64) p.zThreshold p.minSamples ⟨p.n, p.mean, p.m2⟩ tx value).map Outlier.anomaly := by
  show p.anomalies ++ _ = _
  congr 1
  unfold scored
  dsimp only
  rw [apply_ite (List.map Outlier.anomaly), apply_ite (List.map Outlier.anomaly), apply_ite (List.map Outlier.anomaly)]
  rfl

theorem filter_anomaly (os : List (Outlier Float)) :
    (os.map Outlier.anomaly).filter Anomaly.isOutlier = os.map Outlier.anomaly := by
  apply List.filter_eq_self.mpr
  intro a ha
  obtain ⟨o, -, rfl⟩ := List.mem_map.mp ha
  rfl

theorem Runs.detectAmount (h : p.Runs d) (tx : TransactionId) (value : Float) :
    (p.detectAmount tx value).Runs (d.detectAmount (floats toF64) p.zThreshold p.minSamples tx value) := by
  obtain ⟨n, mean, m2, outliers⟩ := h
  have hmoments : (⟨p.n, p.mean, p.m2⟩ : Moments Float) = d.moments := by rw [n, mean, m2]
  have hpush : d.moments.push Nat.toFloat value = (⟨p.n, p.mean, p.m2⟩ : Moments Float).push Nat.toFloat value := by
    rw [hmoments]
  refine ⟨?_, ?_, ?_, ?_⟩
  · exact (congrArg Moments.n hpush).symm
  · exact (congrArg Moments.mean hpush).symm
  · exact (congrArg Moments.m2 hpush).symm
  · rw [detectAmount_anomalies toF64, List.filter_append, outliers, hmoments]
    rw [filter_anomaly]
    exact (List.map_append ..).symm

/-- A finding that is no outlier. -/
theorem Runs.found (h : p.Runs d) {a : Anomaly} (ha : a.isOutlier = false) :
    Runs { p with anomalies := p.anomalies ++ [a] } d := by
  refine ⟨h.n, h.mean, h.m2, ?_⟩
  show (p.anomalies ++ [a]).filter Anomaly.isOutlier = _
  rw [List.filter_append, List.filter_cons_of_neg (by simp [ha]), List.filter_nil, List.append_nil]
  exact h.outliers

theorem Runs.detectDuplicate (h : p.Runs d) (tx : Posting) :
    (p.detectDuplicate tx).Runs d ∧ (p.detectDuplicate tx).zThreshold = p.zThreshold ∧
      (p.detectDuplicate tx).minSamples = p.minSamples := by
  unfold AnomalyProjector.detectDuplicate
  dsimp only
  split
  · split
    · exact ⟨h.found rfl, rfl, rfl⟩
    · exact ⟨h, rfl, rfl⟩
  · exact ⟨⟨h.n, h.mean, h.m2, h.outliers⟩, rfl, rfl⟩

theorem Runs.apply (h : p.Runs d) (ev : Server.LedgerEvent) :
    (p.apply toF64 ev).Runs (d.apply (floats toF64) p.zThreshold p.minSamples ev) ∧
      (p.apply toF64 ev).zThreshold = p.zThreshold ∧ (p.apply toF64 ev).minSamples = p.minSamples := by
  obtain ⟨tx⟩ := ev
  unfold AnomalyProjector.apply OutlierDetector.apply sample
  dsimp only
  cases hb : tx.isBalanced with
  | none => exact ⟨h, rfl, rfl⟩
  | some balanced =>
    cases balanced with
    | false => exact ⟨h.found rfl, rfl, rfl⟩
    | true =>
      obtain ⟨hd, hz, hm⟩ := h.detectDuplicate tx
      have hdetect := hd.detectAmount toF64 tx.id (valueOf (floats toF64) tx)
      rw [hz, hm] at hdetect
      exact ⟨hdetect, hz, hm⟩

/-- The projector on a stream is the detector on the stream, over the floating-point numbers. -/
theorem run_detector (zThreshold : Float) (minSamples : Nat) (events : List Server.LedgerEvent) :
    ((withConfig zThreshold minSamples).run toF64 events).Runs
      (OutlierDetector.run (floats toF64) zThreshold minSamples events) := by
  suffices ∀ (events : List Server.LedgerEvent) (p : AnomalyProjector) (d : OutlierDetector Float), p.Runs d →
      (p.run toF64 events).Runs (events.foldl (OutlierDetector.apply (floats toF64) p.zThreshold p.minSamples) d) by
    exact this events (withConfig zThreshold minSamples) .new ⟨rfl, rfl, rfl, rfl⟩
  intro events
  induction events with
  | nil => exact fun _ _ h => h
  | cons ev events ih =>
    intro p d h
    obtain ⟨hr, hz, hm⟩ := h.apply toF64 ev
    have := ih _ _ hr
    rwa [hz, hm] at this

end AnomalyProjector

/-! ## Exact arithmetic -/

/-- The real numbers, with the values of decimals as they are. -/
noncomputable def exact : Numbers ℝ :=
  { ofNat := Nat.cast, ofDecimal := fun d => some (d.value : ℝ), sqrt := Real.sqrt, abs := fun x => |x| }

/-- The standard deviation. -/
noncomputable def deviation (xs : List ℝ) : ℝ := Real.sqrt (spread xs / xs.length)

theorem deviation_pos_iff (xs : List ℝ) : 0 < deviation xs ↔ ∃ x ∈ xs, ∃ y ∈ xs, x ≠ y := by
  unfold deviation
  rw [Real.sqrt_pos]
  cases xs with
  | nil => simp
  | cons x xs =>
    have hpos : (0 : ℝ) < ((x :: xs).length : ℝ) := by simp; positivity
    rw [div_pos_iff_of_pos_right hpos, (spread_nonneg _).lt_iff_ne', Ne, spread_eq_zero_iff]
    simp only [not_forall, exists_prop, ne_eq]

/-- Enough samples, not all of them equal, and further from their average than `zThreshold` deviations. -/
def Outlying (zThreshold : ℝ) (minSamples : Nat) (earlier : List ℝ) (value : ℝ) : Prop :=
  minSamples ≤ earlier.length ∧ (∃ x ∈ earlier, ∃ y ∈ earlier, x ≠ y) ∧
    zThreshold * deviation earlier < |value - average earlier|

/-- The score of a value. -/
noncomputable def outlier (earlier : List ℝ) (tx : TransactionId) (value : ℝ) : Outlier ℝ :=
  { tx := tx, value := value, zScore := (value - average earlier) / deviation earlier }

open Classical in
theorem scored_batch (zThreshold : ℝ) (minSamples : Nat) (earlier : List ℝ) (tx : TransactionId) (value : ℝ) :
    scored exact zThreshold minSamples (.batch earlier) tx value =
      if Outlying zThreshold minSamples earlier value then [outlier earlier tx value] else [] := by
  have hstd : exact.sqrt ((Moments.batch earlier).m2 / exact.ofNat (Moments.batch earlier).n) = deviation earlier := rfl
  unfold scored Outlying
  dsimp only
  rw [hstd]
  by_cases hn : minSamples ≤ earlier.length
  · rw [if_pos (show (Moments.batch earlier).n ≥ minSamples from hn)]
    by_cases hpos : 0 < deviation earlier
    · have habs : exact.abs ((value - (Moments.batch earlier).mean) / deviation earlier) > zThreshold ↔
          zThreshold * deviation earlier < |value - average earlier| := by
        show zThreshold < |(value - average earlier) / deviation earlier| ↔ _
        rw [abs_div, abs_of_pos hpos, lt_div_iff₀ hpos]
      rw [if_pos (show deviation earlier > 0 from hpos)]
      by_cases hz : zThreshold * deviation earlier < |value - average earlier|
      · rw [if_pos (habs.mpr hz), if_pos ⟨hn, (deviation_pos_iff earlier).mp hpos, hz⟩]
        rfl
      · rw [if_neg (habs.not.mpr hz), if_neg fun h => hz h.2.2]
    · rw [if_neg (show ¬ deviation earlier > 0 from hpos),
        if_neg fun h => hpos ((deviation_pos_iff earlier).mpr h.2.1)]
  · rw [if_neg (show ¬ (Moments.batch earlier).n ≥ minSamples from hn), if_neg fun h => hn h.1]

variable (zThreshold : ℝ) (minSamples : Nat)

theorem apply_moments (d : OutlierDetector ℝ) (ev : Server.LedgerEvent) :
    (d.apply exact zThreshold minSamples ev).moments =
      (samples exact [ev]).foldl (Moments.push Nat.cast) d.moments := by
  unfold OutlierDetector.apply samples
  cases h : sample exact ev <;> simp only [List.filterMap_cons, List.filterMap_nil, h] <;> rfl

theorem samples_append (events events' : List Server.LedgerEvent) :
    samples exact (events ++ events') = samples exact events ++ samples exact events' := by
  unfold samples
  rw [List.filterMap_append, List.map_append]

/-- The running moments are the two-pass ones of the samples. -/
theorem run_moments (events : List Server.LedgerEvent) :
    (OutlierDetector.run exact zThreshold minSamples events).moments = .batch (samples exact events) := by
  rw [← Moments.foldl_push]
  suffices ∀ d : OutlierDetector ℝ, (events.foldl (OutlierDetector.apply exact zThreshold minSamples) d).moments =
      (samples exact events).foldl (Moments.push Nat.cast) d.moments by exact this new
  induction events with
  | nil => exact fun _ => rfl
  | cons ev events ih =>
    intro d
    rw [List.foldl_cons, ih, apply_moments, ← List.foldl_append, ← samples_append, List.singleton_append]

theorem run_append (events : List Server.LedgerEvent) (ev : Server.LedgerEvent) :
    OutlierDetector.run exact zThreshold minSamples (events ++ [ev]) =
      (OutlierDetector.run exact zThreshold minSamples events).apply exact zThreshold minSamples ev := by
  unfold OutlierDetector.run
  rw [List.foldl_append]
  rfl

open Classical in
/-- **Outliers are exact.**  Over exact numbers, after any stream: count, mean and squared deviations are those
of the balanced transactions' values, in whatever order they came; and the next event is flagged exactly when it
is a balanced transaction whose value is outlying among the earlier ones, which it does not influence itself. -/
theorem outliers_exact (events : List Server.LedgerEvent) :
    (∀ reordered, reordered.Perm events →
      (OutlierDetector.run exact zThreshold minSamples reordered).moments = .batch (samples exact events)) ∧
    ∀ tx : Posting,
      (OutlierDetector.run exact zThreshold minSamples (events ++ [.transactionPosted tx])).outliers =
        (OutlierDetector.run exact zThreshold minSamples events).outliers ++
          if tx.isBalanced = some true ∧
              Outlying zThreshold minSamples (samples exact events) (valueOf exact tx) then
            [outlier (samples exact events) tx.id (valueOf exact tx)]
          else [] := by
  refine ⟨fun reordered h => ?_, fun tx => ?_⟩
  · rw [run_moments]
    exact Moments.batch_perm ((h.filterMap _).map _)
  · rw [run_append]
    by_cases hb : tx.isBalanced = some true
    · rw [OutlierDetector.apply, show sample exact (.transactionPosted tx) = some (tx.id, valueOf exact tx) from
        if_pos hb]
      show _ ++ scored exact zThreshold minSamples _ tx.id (valueOf exact tx) = _
      rw [run_moments, scored_batch]
      congr 1
      by_cases ho : Outlying zThreshold minSamples (samples exact events) (valueOf exact tx)
      · rw [if_pos ho, if_pos ⟨hb, ho⟩]
      · rw [if_neg ho, if_neg fun h => ho h.2]
    · rw [OutlierDetector.apply, show sample exact (.transactionPosted tx) = none from if_neg hb,
        if_neg fun h => hb h.1, List.append_nil]

end TptErp.Ledger
