import TptErp.Primitives

/-!
# Defects

The defect taxonomy of the shop floor: a catalogue of codes, the findings recorded against a unit,
and the disposition that the worst severity among the findings recommends.

    some finding is critical                → scrap     (recommendedDisposition_eq_scrap)
    none is, and some finding is major      → rework    (recommendedDisposition_eq_rework)
    otherwise                               → use as is (recommendedDisposition_eq_useAsIs)
-/

namespace TptErp

inductive DefectCategory
  | dimensional
  | surface
  | electrical
deriving DecidableEq

inductive Severity
  | minor
  | major
  | critical

namespace Severity

/-- The derived order: as declared. -/
def rank : Severity → Nat
  | minor => 0
  | major => 1
  | critical => 2

theorem rank_injective : Function.Injective rank := by
  intro a b h
  cases a <;> cases b <;> first | rfl | cases h

instance : LinearOrder Severity := LinearOrder.lift' rank rank_injective

end Severity

inductive Disposition
  | rework
  | scrap
  | useAsIs
deriving DecidableEq

structure DefectCode where
  code : String
  category : DefectCategory
  description : String
  default_severity : Severity
  default_disposition : Disposition
deriving DecidableEq

/-- The entity that a finding's id names. -/
inductive Defect

structure DefectFinding where
  id : Id Defect
  code : DefectCode
  severity : Severity
  disposition : Disposition
  note : String
deriving DecidableEq

/-- Build a recorded finding for this code; the id is a new one. -/
def DefectCode.finding (self : DefectCode) (id : Id Defect) (severity : Option Severity) (note : String) :
    DefectFinding :=
  let severity := severity.getD self.default_severity
  let disposition := match severity with
    | .critical => Disposition.scrap
    | .major => Disposition.rework
    | .minor => Disposition.useAsIs
  { id, code := self, severity, disposition, note }

def DEFECT_CODES : List DefectCode :=
  [ { code := "DIM-001", category := .dimensional, description := "Out-of-tolerance bore diameter",
      default_severity := .major, default_disposition := .rework },
    { code := "DIM-002", category := .dimensional, description := "Excessive flatness deviation",
      default_severity := .minor, default_disposition := .useAsIs },
    { code := "SUR-001", category := .surface, description := "Surface scratch within limits",
      default_severity := .minor, default_disposition := .useAsIs },
    { code := "SUR-002", category := .surface, description := "Corrosion pitting",
      default_severity := .major, default_disposition := .rework },
    { code := "ELE-001", category := .electrical, description := "Open circuit on trace",
      default_severity := .critical, default_disposition := .scrap },
    { code := "ELE-002", category := .electrical, description := "Intermittent contact",
      default_severity := .major, default_disposition := .rework } ]

def lookupCode (code : String) : Option DefectCode := DEFECT_CODES.find? fun c => c.code = code

namespace DefectFinding

def fromCode (code : String) (id : Id Defect) (severity : Option Severity) (note : String) :
    Option DefectFinding :=
  (lookupCode code).map fun c => c.finding id severity note

end DefectFinding

/-- The worst severity wins. -/
def recommendedDisposition (findings : List DefectFinding) : Disposition :=
  match (findings.map DefectFinding.severity).max? with
  | some .critical => .scrap
  | some .major => .rework
  | some .minor | none => .useAsIs

/-! ## The recommendation -/

theorem max_severity_cases (findings : List DefectFinding) (P : Disposition → Prop)
    (critical : (∃ f ∈ findings, f.severity = .critical) → P .scrap)
    (major : (∃ f ∈ findings, f.severity = .major) → (∀ f ∈ findings, f.severity ≠ .critical) → P .rework)
    (minor : (∀ f ∈ findings, f.severity = .minor) → P .useAsIs) : P (recommendedDisposition findings) := by
  unfold recommendedDisposition
  cases hm : (findings.map DefectFinding.severity).max? with
  | none =>
    have hn : findings = [] := by rwa [List.max?_eq_none_iff, List.map_eq_nil_iff] at hm
    apply minor
    intro f hf
    rw [hn] at hf
    cases hf
  | some s =>
    obtain ⟨hmem, hle⟩ := List.max?_eq_some_iff.mp hm
    obtain ⟨f, hf, rfl⟩ := List.mem_map.mp hmem
    have hrank : ∀ g ∈ findings, g.severity.rank ≤ f.severity.rank := fun g hg => hle _ (List.mem_map_of_mem hg)
    cases hs : f.severity with
    | critical => exact critical ⟨f, hf, hs⟩
    | major =>
      refine major ⟨f, hf, hs⟩ ?_
      intro g hg hc
      have := hrank g hg
      rw [hs, hc] at this
      exact absurd this (by decide)
    | minor =>
      apply minor
      intro g hg
      have := hrank g hg
      rw [hs] at this
      exact Severity.rank_injective (Nat.le_zero.mp this)

theorem recommendedDisposition_eq_scrap {findings : List DefectFinding} :
    recommendedDisposition findings = .scrap ↔ ∃ f ∈ findings, f.severity = .critical := by
  apply max_severity_cases findings fun d => d = .scrap ↔ ∃ f ∈ findings, f.severity = .critical
  · exact fun h => iff_of_true rfl h
  · rintro - hn
    exact iff_of_false (by decide) fun ⟨f, hf, hc⟩ => hn f hf hc
  · intro hn
    refine iff_of_false (by decide) fun ⟨f, hf, hc⟩ => ?_
    rw [hn f hf] at hc
    cases hc

theorem recommendedDisposition_eq_rework {findings : List DefectFinding} :
    recommendedDisposition findings = .rework ↔
      (∃ f ∈ findings, f.severity = .major) ∧ ∀ f ∈ findings, f.severity ≠ .critical := by
  apply max_severity_cases findings fun d => d = .rework ↔
    (∃ f ∈ findings, f.severity = .major) ∧ ∀ f ∈ findings, f.severity ≠ .critical
  · rintro ⟨f, hf, hc⟩
    exact iff_of_false (by decide) fun h => h.2 f hf hc
  · exact fun hm hn => iff_of_true rfl ⟨hm, hn⟩
  · intro hn
    refine iff_of_false (by decide) fun ⟨⟨f, hf, hm⟩, _⟩ => ?_
    rw [hn f hf] at hm
    cases hm

theorem recommendedDisposition_eq_useAsIs {findings : List DefectFinding} :
    recommendedDisposition findings = .useAsIs ↔ ∀ f ∈ findings, f.severity = .minor := by
  apply max_severity_cases findings fun d => d = .useAsIs ↔ ∀ f ∈ findings, f.severity = .minor
  · rintro ⟨f, hf, hc⟩
    refine iff_of_false (by decide) fun h => ?_
    rw [h f hf] at hc
    cases hc
  · rintro ⟨f, hf, hm⟩ -
    refine iff_of_false (by decide) fun h => ?_
    rw [h f hf] at hm
    cases hm
  · exact fun h => iff_of_true rfl h

/-- A finding's own disposition is the one it recommends. -/
theorem finding_disposition (c : DefectCode) (id : Id Defect) (severity : Option Severity) (note : String) :
    (c.finding id severity note).disposition = recommendedDisposition [c.finding id severity note] := by
  simp only [DefectCode.finding, recommendedDisposition, List.map_cons, List.map_nil]
  cases severity.getD c.default_severity <;> rfl

/-- Every code of the catalogue is found under its own text, and its default disposition is the one
that its default severity recommends. -/
theorem catalogue (c : DefectCode) (hc : c ∈ DEFECT_CODES) (id : Id Defect) (note : String) :
    lookupCode c.code = some c ∧ (c.finding id none note).disposition = c.default_disposition := by
  have hall : ∀ c ∈ DEFECT_CODES, lookupCode c.code = some c ∧
      (match c.default_severity with
        | .critical => Disposition.scrap
        | .major => Disposition.rework
        | .minor => Disposition.useAsIs) = c.default_disposition := by decide
  exact hall c hc

end TptErp
