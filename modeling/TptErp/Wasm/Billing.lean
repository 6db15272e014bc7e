import TptErp.Lib.AssocMap
import TptErp.Money
import TptErp.Tenant.Auth
import Mathlib.Algebra.Order.BigOperators.Group.List
import Mathlib.Data.List.Induction
import Mathlib.Data.List.Sort

/-!
# Billing plugin calls

The meter of a plugin runtime and `PluginHandle::run`, which feeds it.  What wasmtime does with a call is a
parameter of the call: the component does not instantiate, the guest traps, or it returns; and some fuel is left.

`run` reaches the meter only when the guest has returned: a call that fails before that has used fuel nobody is
billed for.  `billed_iff`: after every call of a sequence the bills are right exactly when every call returns and
the calls and the fuel stay within `u64`.

Tenants are sorted by the text of their ids, which is the order of the ids.
-/

namespace TptErp.Wasm

open Tenant (TenantId)

/-! ## The meter -/

structure UsageRecord where
  calls : Nat := 0
  fuelConsumed : Nat := 0
deriving DecidableEq

abbrev UsageMeter := AssocMap TenantId UsageRecord

structure BillingReport where
  rows : List (TenantId × UsageRecord)
  totalCalls : Nat
  totalFuel : Nat

namespace UsageMeter

def forTenant (m : UsageMeter) (tenant : TenantId) : UsageRecord := AssocMap.getD m tenant {}

def recordCall (m : UsageMeter) (tenant : TenantId) (fuel : Nat) : UsageMeter :=
  let r := m.forTenant tenant
  m.insert tenant { calls := sumU64 [r.calls, 1], fuelConsumed := sumU64 [r.fuelConsumed, fuel] }

def report (m : UsageMeter) : BillingReport :=
  let rows := (m.entries.map fun e => (e.1, e.2)).insertionSort fun a b => a.1 ≤ b.1
  { rows, totalCalls := sumU64 (rows.map (·.2.calls)), totalFuel := sumU64 (rows.map (·.2.fuelConsumed)) }

end UsageMeter

/-! ## One call -/

inductive RuntimeError
  | invalidPlugin (message : String)
  | resourceExhausted
  | pluginError (message : String)
deriving DecidableEq

/-- What wasmtime makes of a call. -/
inductive Outcome
  | instantiateFails (message : String)
  | traps (message : String)
  | returns (result : Except String String)

/-- A call of `run`: the tenant of the handle, and what wasmtime makes of the call. -/
structure RunCall where
  tenant : TenantId
  outcome : Outcome
  fuelRemaining : Nat

def contains (message part : String) : Bool := message.toList.tails.any part.toList.isPrefixOf

def mapTrap (message : String) : RuntimeError :=
  if contains message "fuel" || contains message "out of memory" || contains message "memory" ||
      contains message "epoch" || contains message "interrupt" then .resourceExhausted
  else .invalidPlugin message

section
variable (fuelPerCall : Nat)

/-- The fuel a call has used. -/
def RunCall.consumed (c : RunCall) : Nat := fuelPerCall - c.fuelRemaining

/-- `PluginHandle::run`. -/
def run (m : UsageMeter) (c : RunCall) : UsageMeter × Except RuntimeError String :=
  match c.outcome with
  | .instantiateFails message => (m, .error (.invalidPlugin message))
  | .traps message => (m, .error (mapTrap message))
  | .returns result => (m.recordCall c.tenant (c.consumed fuelPerCall), result.mapError .pluginError)

/-- The meter after a sequence of calls. -/
def runAll (calls : List RunCall) : UsageMeter := calls.foldl (fun m c => (run fuelPerCall m c).1) ∅

end

/-! ## What was used -/

/-- Whether the guest returned. -/
def Outcome.isReturn : Outcome → Bool
  | returns _ => true
  | instantiateFails _ | traps _ => false

section
variable (fuelPerCall : Nat)

/-- A tenant's calls, and the fuel they used. -/
def usage (calls : List RunCall) (tenant : TenantId) : UsageRecord where
  calls := (calls.filter fun c => c.tenant = tenant).length
  fuelConsumed := ((calls.filter fun c => c.tenant = tenant).map (·.consumed fuelPerCall)).sum

/-- The fuel all calls used. -/
def totalFuel (calls : List RunCall) : Nat := (calls.map (·.consumed fuelPerCall)).sum

theorem usage_append (calls : List RunCall) (c : RunCall) (tenant : TenantId) :
    usage fuelPerCall (calls ++ [c]) tenant =
      if tenant = c.tenant then
        { calls := (usage fuelPerCall calls tenant).calls + 1
          fuelConsumed := (usage fuelPerCall calls tenant).fuelConsumed + c.consumed fuelPerCall }
      else usage fuelPerCall calls tenant := by
  unfold usage
  rw [List.filter_append]
  split
  · next h => simp [h]
  · next h => simp [Ne.symm h]

/-- The meter has every tenant's usage, and its sums are those of all calls. -/
structure Exact (calls : List RunCall) (m : UsageMeter) : Prop where
  record : ∀ tenant, m.forTenant tenant = usage fuelPerCall calls tenant
  sumCalls : AssocMap.sumOf UsageRecord.calls m = calls.length
  sumFuel : AssocMap.sumOf UsageRecord.fuelConsumed m = totalFuel fuelPerCall calls

theorem exact_nil : Exact fuelPerCall [] ∅ := ⟨fun _ => rfl, rfl, rfl⟩

/-- Another call, recorded as it should be. -/
theorem exact_push {calls : List RunCall} {m : UsageMeter} (h : Exact fuelPerCall calls m) (c : RunCall) :
    Exact fuelPerCall (calls ++ [c]) (m.insert c.tenant (usage fuelPerCall (calls ++ [c]) c.tenant)) := by
  have hcalls := AssocMap.sumOf_insert UsageRecord.calls m c.tenant (usage fuelPerCall (calls ++ [c]) c.tenant)
    (show UsageRecord.calls {} = 0 from rfl)
  have hfuel := AssocMap.sumOf_insert UsageRecord.fuelConsumed m c.tenant
    (usage fuelPerCall (calls ++ [c]) c.tenant) (show UsageRecord.fuelConsumed {} = 0 from rfl)
  have hrec : AssocMap.getD m c.tenant {} = usage fuelPerCall calls c.tenant := h.record c.tenant
  rw [hrec, h.sumCalls, usage_append, if_pos rfl] at hcalls
  rw [hrec, h.sumFuel, usage_append, if_pos rfl] at hfuel
  refine ⟨?_, ?_, ?_⟩
  · intro tenant
    show AssocMap.getD (m.insert _ _) tenant {} = _
    rw [AssocMap.getD_insert_eq]
    split
    · next ht => rw [ht]
    · next ht =>
      rw [usage_append, if_neg ht]
      exact h.record tenant
  · rw [usage_append, if_pos rfl, List.length_append, List.length_singleton]
    dsimp only at hcalls
    omega
  · rw [usage_append, if_pos rfl]
    unfold totalFuel at hfuel ⊢
    rw [List.map_append, List.sum_append, List.map_singleton, List.sum_singleton]
    dsimp only at hfuel
    omega

end

/-! ## The report -/

theorem sumU64_eq_sum_iff (xs : List Nat) : sumU64 xs = xs.sum ↔ xs.sum < 2 ^ 64 := Nat.mod_eq_iff_lt (by decide)

/-- The rows of the report, in the order of the meter. -/
theorem report_rows_perm (m : UsageMeter) : m.report.rows.Perm (m.entries.map fun e => (e.1, e.2)) :=
  List.perm_insertionSort _ _

theorem sum_report_rows (m : UsageMeter) (f : UsageRecord → Nat) :
    (m.report.rows.map fun row => f row.2).sum = AssocMap.sumOf f m := by
  rw [((report_rows_perm m).map _).sum_eq, List.map_map]
  rfl

theorem report_totalCalls_iff (m : UsageMeter) :
    m.report.totalCalls = (m.report.rows.map (·.2.calls)).sum ↔ AssocMap.sumOf UsageRecord.calls m < 2 ^ 64 := by
  rw [← sum_report_rows]
  exact sumU64_eq_sum_iff _

theorem report_totalFuel_iff (m : UsageMeter) :
    m.report.totalFuel = (m.report.rows.map (·.2.fuelConsumed)).sum ↔
      AssocMap.sumOf UsageRecord.fuelConsumed m < 2 ^ 64 := by
  rw [← sum_report_rows]
  exact sumU64_eq_sum_iff _

/-! ## Billing -/

section
variable (fuelPerCall : Nat)

/-- Every tenant is billed for its calls and the fuel they used, and the totals of the report are the sums over
the tenants. -/
structure Billed (calls : List RunCall) : Prop where
  tenants : ∀ tenant, (runAll fuelPerCall calls).forTenant tenant = usage fuelPerCall calls tenant
  totalCalls : (runAll fuelPerCall calls).report.totalCalls =
    ((runAll fuelPerCall calls).report.rows.map (·.2.calls)).sum
  totalFuel : (runAll fuelPerCall calls).report.totalFuel =
    ((runAll fuelPerCall calls).report.rows.map (·.2.fuelConsumed)).sum

/-- Every call returns, and the calls and the fuel fit `u64`. -/
structure Metered (calls : List RunCall) : Prop where
  returns : ∀ c ∈ calls, c.outcome.isReturn = true
  fits : calls.length < 2 ^ 64
  fuelFits : totalFuel fuelPerCall calls < 2 ^ 64

theorem runAll_append (calls : List RunCall) (c : RunCall) :
    runAll fuelPerCall (calls ++ [c]) = (run fuelPerCall (runAll fuelPerCall calls) c).1 := by
  simp only [runAll, List.foldl_append, List.foldl_cons, List.foldl_nil]

/-- A call that returns is recorded, up to `u64`. -/
theorem run_of_isReturn (m : UsageMeter) {c : RunCall} (h : c.outcome.isReturn = true) :
    (run fuelPerCall m c).1 = m.recordCall c.tenant (c.consumed fuelPerCall) := by
  unfold run
  cases ho : c.outcome with
  | returns result => rfl
  | instantiateFails message =>
    rw [ho] at h
    cases h
  | traps message =>
    rw [ho] at h
    cases h

/-- A call that does not return leaves the meter as it is. -/
theorem run_of_not_isReturn (m : UsageMeter) {c : RunCall} (h : c.outcome.isReturn ≠ true) :
    (run fuelPerCall m c).1 = m := by
  unfold run
  cases ho : c.outcome with
  | returns result =>
    rw [ho] at h
    exact absurd rfl h
  | instantiateFails message => rfl
  | traps message => rfl

theorem Metered.sublist {calls calls' : List RunCall} (h : Metered fuelPerCall calls) (hs : calls'.Sublist calls) :
    Metered fuelPerCall calls' := by
  refine ⟨fun c hc => h.returns c (hs.subset hc), hs.length_le.trans_lt h.fits, lt_of_le_of_lt ?_ h.fuelFits⟩
  exact (hs.map _).sum_le_sum fun x _ => Nat.zero_le x

theorem metered_append_iff (calls : List RunCall) (c : RunCall) :
    Metered fuelPerCall (calls ++ [c]) ↔ Metered fuelPerCall calls ∧ c.outcome.isReturn = true ∧
      calls.length + 1 < 2 ^ 64 ∧ totalFuel fuelPerCall calls + c.consumed fuelPerCall < 2 ^ 64 := by
  have hfuel : totalFuel fuelPerCall (calls ++ [c]) = totalFuel fuelPerCall calls + c.consumed fuelPerCall := by
    simp [totalFuel]
  constructor
  · intro h
    refine ⟨h.sublist fuelPerCall (List.sublist_append_left calls [c]), h.returns c (by simp), ?_, hfuel ▸ h.fuelFits⟩
    have := h.fits
    rwa [List.length_append, List.length_singleton] at this
  · rintro ⟨h, hc, hlen, hf⟩
    refine ⟨?_, ?_, hfuel ▸ hf⟩
    · exact List.forall_mem_append.mpr ⟨h.returns, List.forall_mem_singleton.mpr hc⟩
    · rwa [List.length_append, List.length_singleton]

/-- A tenant's usage is part of that of all. -/
theorem usage_le (calls : List RunCall) (tenant : TenantId) :
    (usage fuelPerCall calls tenant).calls ≤ calls.length ∧
      (usage fuelPerCall calls tenant).fuelConsumed ≤ totalFuel fuelPerCall calls := by
  have hsub : (calls.filter fun c => c.tenant = tenant).Sublist calls := List.filter_sublist
  exact ⟨hsub.length_le, (hsub.map _).sum_le_sum fun x _ => Nat.zero_le x⟩

/-- A sequence that is metered is recorded exactly. -/
theorem Metered.exact {calls : List RunCall} (h : Metered fuelPerCall calls) :
    Exact fuelPerCall calls (runAll fuelPerCall calls) := by
  induction calls using List.reverseRecOn with
  | nil => exact exact_nil fuelPerCall
  | append_singleton calls c ih =>
    obtain ⟨hcalls, hreturn, hlen, hfuel⟩ := (metered_append_iff fuelPerCall calls c).mp h
    have hexact := ih hcalls
    have hle := usage_le fuelPerCall calls c.tenant
    rw [runAll_append, run_of_isReturn fuelPerCall _ hreturn]
    have hpush := exact_push fuelPerCall hexact c
    rw [usage_append, if_pos rfl] at hpush
    unfold UsageMeter.recordCall
    dsimp only
    rw [hexact.record, (sumU64_eq_sum_iff _).mpr, (sumU64_eq_sum_iff _).mpr]
    · exact hpush
    · simp only [List.sum_cons, List.sum_nil]
      omega
    · simp only [List.sum_cons, List.sum_nil]
      omega

theorem Metered.billed {calls : List RunCall} (h : Metered fuelPerCall calls) : Billed fuelPerCall calls := by
  have hexact := h.exact
  refine ⟨hexact.record, ?_, ?_⟩
  · rw [report_totalCalls_iff, hexact.sumCalls]
    exact h.fits
  · rw [report_totalFuel_iff, hexact.sumFuel]
    exact h.fuelFits

/-- A call after a metered sequence that leaves the bills right is metered. -/
theorem metered_of_billed {calls : List RunCall} {c : RunCall} (h : Metered fuelPerCall calls)
    (hb : Billed fuelPerCall (calls ++ [c])) : Metered fuelPerCall (calls ++ [c]) := by
  have hexact := h.exact
  have htenant := hb.tenants c.tenant
  rw [metered_append_iff]
  by_cases hreturn : c.outcome.isReturn = true
  · -- what the meter has now is what it should have, so its sums are those of all calls
    have hm : runAll fuelPerCall (calls ++ [c]) =
        (runAll fuelPerCall calls).insert c.tenant (usage fuelPerCall (calls ++ [c]) c.tenant) := by
      rw [runAll_append, run_of_isReturn fuelPerCall _ hreturn] at htenant ⊢
      unfold UsageMeter.recordCall UsageMeter.forTenant at htenant ⊢
      dsimp only at htenant ⊢
      rw [AssocMap.getD_insert_eq, if_pos rfl] at htenant
      rw [htenant]
    have hpush := exact_push fuelPerCall hexact c
    rw [← hm] at hpush
    have hcalls := (report_totalCalls_iff _).mp hb.totalCalls
    have hfuel := (report_totalFuel_iff _).mp hb.totalFuel
    rw [hpush.sumCalls, List.length_append, List.length_singleton] at hcalls
    rw [hpush.sumFuel] at hfuel
    refine ⟨h, hreturn, hcalls, ?_⟩
    simpa [totalFuel] using hfuel
  · rw [runAll_append, run_of_not_isReturn fuelPerCall _ hreturn, hexact.record, usage_append, if_pos rfl] at htenant
    have := congrArg UsageRecord.calls htenant
    dsimp only at this
    omega

/-- **Plugin work is billed**, after every call of the sequence, exactly when it is metered. -/
theorem billed_iff (calls : List RunCall) : (∀ n, Billed fuelPerCall (calls.take n)) ↔ Metered fuelPerCall calls := by
  constructor
  · intro h
    induction calls using List.reverseRecOn with
    | nil => exact ⟨fun _ hc => (nomatch hc), by decide, Nat.two_pow_pos 64⟩
    | append_singleton calls c ih =>
      refine metered_of_billed fuelPerCall (ih fun n => ?_) ?_
      · have hn := h (min n calls.length)
        rw [List.take_append_of_le_length (Nat.min_le_right _ _)] at hn
        rwa [← List.take_eq_take_min] at hn
      · have hlen := h (calls ++ [c]).length
        rwa [List.take_length] at hlen
  · intro h n
    exact (h.sublist fuelPerCall (List.take_sublist n calls)).billed

end

/-- A call that runs out of fuel is not billed. -/
theorem trapped_call_not_billed :
    ¬ ∀ n, Billed 1000 (List.take n [{ tenant := ⟨7⟩, outcome := .traps "all fuel consumed", fuelRemaining := 0 }]) := by
  intro h
  have := (h 1).tenants ⟨7⟩
  exact absurd this (by decide)

end TptErp.Wasm
