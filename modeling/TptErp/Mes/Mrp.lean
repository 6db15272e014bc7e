import TptErp.Primitives
import TptErp.Lib.AssocMap
import TptErp.Lib.ForkJoin
import Mathlib.Algebra.Order.BigOperators.Group.List
import Mathlib.Algebra.BigOperators.Ring.List
import Mathlib.Order.Bounds.Basic

/-!
# The MRP engine

A bill of materials is a tree of parts; `MrpEngine::explode` multiplies the demand down to every
node.  The subtrees are exploded in parallel into one map under a mutex: a node's task adds the
node's gross demand under the lock and forks one task for each child, and the schedule says which
pending task runs next.  Quantities and days are unbounded numbers here.

    explode root demand schedule = some plan →
      gross of p = ∑ over the paths to an occurrence of p, demand * ∏ qty_per on the path   (gross_eq)
      critical_path_days = the largest ∑ lead_time_days on a path to a leaf                 (isGreatest_critical_path)

whatever the schedule (`explode_requirements`).
-/

namespace TptErp

open LabelledRun

inductive Part

/-- A node of the bill of materials. -/
structure BomNode where
  part : Id Part
  /-- How many of this part are consumed per parent unit. -/
  qty_per : Nat
  lead_time_days : Nat
  on_hand : Nat
  children : List BomNode

structure PartRequirement where
  gross : Nat
  on_hand : Nat
  net : Nat
  shortage : Bool
  lead_time_days : Nat
deriving DecidableEq

structure MrpPlan where
  requirements : AssocMap (Id Part) PartRequirement
  critical_path_days : Nat

/-! ## Algorithm -/

namespace Mrp

/-- A call of `explode_node`: the node and the multiplier. -/
abbrev Task := BomNode × Nat

/-- The demand for the node's part. -/
def gross (t : Task) : Nat := t.1.qty_per * t.2

/-- What the task does under the lock. -/
def addGross (acc : AssocMap (Id Part) Nat) (t : Task) : AssocMap (Id Part) Nat :=
  acc.insert t.1.part (acc.getD t.1.part 0 + gross t)

/-- The calls for the children. -/
def forkChildren (t : Task) : List Task := t.1.children.map fun c => (c, gross t)

mutual
/-- Each part's on-hand stock and lead time. -/
def partInfo : BomNode → AssocMap (Id Part) (Nat × Nat)
  | ⟨part, _, lead_time_days, on_hand, children⟩ =>
    partInfos children ((∅ : AssocMap _ _).insert part (on_hand, lead_time_days))
def partInfos : List BomNode → AssocMap (Id Part) (Nat × Nat) → AssocMap (Id Part) (Nat × Nat)
  | [], map => map
  | c :: cs, map => partInfos cs (map.extend (partInfo c))
end

mutual
/-- Longest cumulative lead time along any root-to-leaf path. -/
def criticalPath : BomNode → Nat
  | ⟨_, _, lead_time_days, _, children⟩ => lead_time_days + (criticalPaths children).max?.getD 0
def criticalPaths : List BomNode → List Nat
  | [] => []
  | c :: cs => criticalPath c :: criticalPaths cs
end

/-- A part's requirement, from its gross demand and the part infos. -/
def requirement (info : AssocMap (Id Part) (Nat × Nat)) (part : Id Part) (gross : Nat) : PartRequirement :=
  let on_hand := ((info.lookup part).map (·.1)).getD 0
  let net := gross - on_hand
  let lead := ((info.lookup part).map (·.2)).getD 0
  { gross, on_hand, net, shortage := 0 < net, lead_time_days := lead }

def planOf (root : BomNode) (acc : AssocMap (Id Part) Nat) : MrpPlan where
  requirements := acc.mapEntries (requirement (partInfo root))
  critical_path_days := criticalPath root

/-- `MrpEngine::explode` with the tasks run in the order of the schedule (`none`: the schedule does
not fit, or leaves tasks pending). -/
def explode (root : BomNode) (demand : Nat) (schedule : List Nat) : Option MrpPlan :=
  match exec (ForkJoin.step addGross forkChildren) ([(root, demand)], ∅) schedule with
  | some ([], acc) => some (planOf root acc)
  | _ => none

/-- Parts in the plan that are short and must be procured. -/
def shortages (plan : MrpPlan) : List (Id Part × Nat) :=
  (plan.requirements.entries.filter fun e => e.2.shortage).map fun e => (e.1, e.2.net)

end Mrp

/-! ## Paths -/

/-- A path from the root: the nodes above, root first, and the node it leads to. -/
structure BomPath where
  above : List BomNode
  here : BomNode

namespace BomPath

def nodes (π : BomPath) : List BomNode := π.above ++ [π.here]

/-- The demand at the end of the path. -/
def demand (π : BomPath) (d : Nat) : Nat := d * (π.nodes.map (·.qty_per)).prod

def leadTime (π : BomPath) : Nat := (π.nodes.map (·.lead_time_days)).sum

/-- The path under one more node. -/
def under (n : BomNode) (π : BomPath) : BomPath := ⟨n :: π.above, π.here⟩

@[simp] theorem under_here (n : BomNode) (π : BomPath) : (π.under n).here = π.here := rfl

@[simp] theorem under_leadTime (n : BomNode) (π : BomPath) :
    (π.under n).leadTime = n.lead_time_days + π.leadTime := by
  simp [leadTime, nodes, under]

@[simp] theorem under_demand (n : BomNode) (π : BomPath) (d : Nat) :
    (π.under n).demand d = π.demand (n.qty_per * d) := by
  simp only [demand, nodes, under, List.cons_append, List.map_cons, List.prod_cons]
  rw [← Nat.mul_assoc, Nat.mul_comm d]

theorem demand_add (π : BomPath) (d d' : Nat) : π.demand (d + d') = π.demand d + π.demand d' :=
  Nat.add_mul _ _ _

end BomPath

namespace BomNode

mutual
/-- All paths from the root, to every node of the tree. -/
def paths : BomNode → List BomPath
  | ⟨part, qty_per, lead_time_days, on_hand, children⟩ =>
    let n : BomNode := ⟨part, qty_per, lead_time_days, on_hand, children⟩
    ⟨[], n⟩ :: (pathsOfAll children).map (BomPath.under n)
def pathsOfAll : List BomNode → List BomPath
  | [] => []
  | c :: cs => paths c ++ pathsOfAll cs
end

/-- The occurrences of a part. -/
def pathsTo (root : BomNode) (p : Id Part) : List BomPath := root.paths.filter fun π => π.here.part = p

/-- The parts of the tree. -/
def parts (root : BomNode) : List (Id Part) := root.paths.map fun π => π.here.part

/-- The paths to the leaves. -/
def leafPaths (root : BomNode) : List BomPath := root.paths.filter fun π => π.here.children.isEmpty

/-- All occurrences of a part carry the same on-hand stock. -/
def Consistent (root : BomNode) : Prop :=
  ∀ π ∈ root.paths, ∀ π' ∈ root.paths, π.here.part = π'.here.part → π.here.on_hand = π'.here.on_hand

instance (root : BomNode) : Decidable root.Consistent := by unfold Consistent; infer_instance

/-- Induction over the children. -/
theorem induct {P : BomNode → Prop} (h : ∀ n, (∀ c ∈ n.children, P c) → P n) (n : BomNode) : P n :=
  h n fun c _ => induct h c
termination_by sizeOf n
decreasing_by
  rename_i hc
  have hlt := List.sizeOf_lt_of_mem hc
  obtain ⟨part, qty_per, lead_time_days, on_hand, children⟩ := n
  simp only [mk.sizeOf_spec] at hlt ⊢
  omega

theorem pathsOfAll_eq (cs : List BomNode) : pathsOfAll cs = cs.flatMap paths := by
  induction cs with
  | nil => rfl
  | cons c cs ih => rw [pathsOfAll, ih, List.flatMap_cons]

theorem paths_eq (n : BomNode) : n.paths = ⟨[], n⟩ :: (n.children.flatMap paths).map (BomPath.under n) := by
  obtain ⟨part, qty_per, lead_time_days, on_hand, children⟩ := n
  rw [paths, pathsOfAll_eq]

theorem mem_paths {n : BomNode} {π : BomPath} :
    π ∈ n.paths ↔ π = ⟨[], n⟩ ∨ ∃ c ∈ n.children, ∃ π' ∈ c.paths, π = π'.under n := by
  rw [paths_eq, List.mem_cons, List.mem_map]
  constructor
  · rintro (h | ⟨π', h, rfl⟩)
    · exact .inl h
    · obtain ⟨c, hc, hπ⟩ := List.mem_flatMap.mp h
      exact .inr ⟨c, hc, π', hπ, rfl⟩
  · rintro (h | ⟨c, hc, π', hπ, rfl⟩)
    · exact .inl h
    · exact .inr ⟨π', List.mem_flatMap.mpr ⟨c, hc, hπ⟩, rfl⟩

end BomNode

namespace Mrp

open AssocMap

/-! ## The tasks of an explosion -/

/-- The task at the end of each path. -/
def tasksBelow (t : Task) : List Task := t.1.paths.map fun π => (π.here, t.2 * (π.above.map (·.qty_per)).prod)

theorem lists_tasksBelow : ForkJoin.Lists forkChildren tasksBelow := by
  rintro ⟨n, d⟩
  simp only [tasksBelow, forkChildren, BomNode.paths_eq n, List.map_cons, List.map_nil, List.prod_nil, Nat.mul_one,
    List.flatMap_map, List.map_map, List.map_flatMap]
  congr 1
  apply List.flatMap_congr
  intro c _
  apply List.map_congr_left
  intro π _
  simp only [Function.comp_apply, BomPath.under, gross, List.map_cons, List.prod_cons]
  rw [← Nat.mul_assoc, Nat.mul_comm d]

/-- A part's tasks add up to the demand over the paths to it. -/
theorem sum_tasksBelow (root : BomNode) (d : Nat) (p : Id Part) :
    (((tasksBelow (root, d)).filter fun t => t.1.part = p).map gross).sum =
      ((root.pathsTo p).map fun π => π.demand d).sum := by
  rw [tasksBelow, List.filter_map, List.map_map]
  congr 1
  apply List.map_congr_left
  intro π _
  simp only [Function.comp_apply, gross, BomPath.demand, BomPath.nodes, List.map_append, List.map_cons, List.map_nil,
    List.prod_append, List.prod_cons, List.prod_nil, Nat.mul_one]
  rw [Nat.mul_comm, Nat.mul_assoc]

/-- The accumulator at the end of any schedule. -/
theorem exec_explode {root : BomNode} {demand : Nat} {schedule : List Nat} {acc : AssocMap (Id Part) Nat}
    (h : exec (ForkJoin.step addGross forkChildren) ([(root, demand)], ∅) schedule = some ([], acc)) (p : Id Part) :
    acc.getD p 0 = ((root.pathsTo p).map fun π => π.demand demand).sum ∧ (p ∈ acc ↔ p ∈ root.parts) := by
  obtain ⟨order, hp, rfl⟩ := ForkJoin.foldl_of_complete lists_tasksBelow h
  rw [List.flatMap_singleton] at hp
  constructor
  · have hfold := getD_foldl_insert (fun t : Task => t.1.part) (fun g t => g + gross t) 0 order ∅ p
    have hsum : ∀ (ts : List Task) (x : Nat), ts.foldl (fun g t => g + gross t) x = x + (ts.map gross).sum := by
      intro ts x
      induction ts generalizing x with
      | nil => rfl
      | cons t ts ih => rw [List.foldl_cons, ih, List.map_cons, List.sum_cons, Nat.add_assoc]
    rw [show order.foldl addGross ∅ = _ from rfl]
    unfold addGross
    rw [hfold, hsum, ← sum_tasksBelow, ((hp.filter _).map gross).sum_nat]
    show 0 + _ = _
    omega
  · show p ∈ order.foldl addGross ∅ ↔ _
    unfold addGross
    rw [mem_foldl_insert (fun t : Task => t.1.part) (fun acc t => acc.getD t.1.part 0 + gross t)]
    simp only [hp.mem_iff, tasksBelow, BomNode.parts, List.mem_map]
    constructor
    · rintro (h | ⟨t, ⟨π, hπ, rfl⟩, rfl⟩)
      · exact absurd h (AList.notMem_empty p)
      · exact ⟨π, hπ, rfl⟩
    · rintro ⟨π, hπ, rfl⟩
      exact .inr ⟨_, ⟨π, hπ, rfl⟩, rfl⟩

/-! ## The parts' infos -/

theorem lookup_partInfos (cs : List BomNode) (map : AssocMap (Id Part) (Nat × Nat)) (p : Id Part) :
    (partInfos cs map).lookup p = ((cs.reverse.findSome? fun c => (partInfo c).lookup p)).or (map.lookup p) := by
  induction cs generalizing map with
  | nil => rfl
  | cons c cs ih =>
    rw [partInfos, ih, lookup_extend, List.reverse_cons, List.findSome?_append]
    cases cs.reverse.findSome? fun c => (partInfo c).lookup p with
    | some v => rfl
    | none => simp

/-- A part's info is that of one of its occurrences. -/
theorem partInfo_sound (n : BomNode) (p : Id Part) (v : Nat × Nat) (h : (partInfo n).lookup p = some v) :
    ∃ π ∈ n.paths, π.here.part = p ∧ v = (π.here.on_hand, π.here.lead_time_days) := by
  induction n using BomNode.induct with
  | h n ih =>
    obtain ⟨part, qty_per, lead_time_days, on_hand, children⟩ := n
    rw [partInfo, lookup_partInfos, Option.or_eq_some_iff] at h
    rcases h with h | ⟨-, h⟩
    · obtain ⟨c, hc, hv⟩ := List.exists_of_findSome?_eq_some h
      rw [List.mem_reverse] at hc
      obtain ⟨π, hπ, hp, rfl⟩ := ih c hc hv
      exact ⟨π.under _, BomNode.mem_paths.mpr (.inr ⟨c, hc, π, hπ, rfl⟩), hp, rfl⟩
    · rw [lookup_insert_eq] at h
      split at h
      · next hp =>
        cases h
        exact ⟨_, BomNode.mem_paths.mpr (.inl rfl), hp.symm, rfl⟩
      · cases h

theorem partInfo_isSome (n : BomNode) {π : BomPath} (hπ : π ∈ n.paths) :
    ((partInfo n).lookup π.here.part).isSome := by
  induction n using BomNode.induct generalizing π with
  | h n ih =>
    obtain ⟨part, qty_per, lead_time_days, on_hand, children⟩ := n
    rw [partInfo, lookup_partInfos, Option.isSome_or]
    rcases BomNode.mem_paths.mp hπ with rfl | ⟨c, hc, π', hπ', rfl⟩
    · rw [lookup_insert_eq, if_pos rfl, Option.isSome_some, Bool.or_true]
    · rw [List.findSome?_isSome_iff.mpr ⟨c, List.mem_reverse.mpr hc, ih c hc hπ'⟩, Bool.true_or]

/-- In a consistent tree it has the on-hand stock of every occurrence. -/
theorem partInfo_on_hand {root : BomNode} (hc : root.Consistent) {π : BomPath} (hπ : π ∈ root.paths) :
    (((partInfo root).lookup π.here.part).map (·.1)).getD 0 = π.here.on_hand := by
  obtain ⟨v, hv⟩ := Option.isSome_iff_exists.mp (partInfo_isSome root hπ)
  obtain ⟨π', hπ', hp, rfl⟩ := partInfo_sound root _ v hv
  rw [hv]
  exact hc π' hπ' π hπ hp

/-! ## The critical path -/

theorem criticalPaths_eq (cs : List BomNode) : criticalPaths cs = cs.map criticalPath := by
  induction cs with
  | nil => rfl
  | cons c cs ih => rw [criticalPaths, ih, List.map_cons]

theorem criticalPath_eq (n : BomNode) :
    criticalPath n = n.lead_time_days + (n.children.map criticalPath).max?.getD 0 := by
  obtain ⟨part, qty_per, lead_time_days, on_hand, children⟩ := n
  rw [criticalPath, criticalPaths_eq]

theorem mem_leafPaths {n : BomNode} {π : BomPath} :
    π ∈ n.leafPaths ↔ (n.children = [] ∧ π = ⟨[], n⟩) ∨ ∃ c ∈ n.children, ∃ π' ∈ c.leafPaths, π = π'.under n := by
  simp only [BomNode.leafPaths, List.mem_filter, List.isEmpty_iff]
  constructor
  · rintro ⟨h, he⟩
    rcases BomNode.mem_paths.mp h with rfl | ⟨c, hc, π', hπ', rfl⟩
    · exact .inl ⟨he, rfl⟩
    · exact .inr ⟨c, hc, π', ⟨hπ', he⟩, rfl⟩
  · rintro (⟨he, rfl⟩ | ⟨c, hc, π', ⟨hπ', he⟩, rfl⟩)
    · exact ⟨BomNode.mem_paths.mpr (.inl rfl), he⟩
    · exact ⟨BomNode.mem_paths.mpr (.inr ⟨c, hc, π', hπ', rfl⟩), he⟩

theorem isGreatest_criticalPath (n : BomNode) :
    IsGreatest { d | ∃ π ∈ n.leafPaths, d = π.leadTime } (criticalPath n) := by
  induction n using BomNode.induct with
  | h n ih =>
    rw [criticalPath_eq]
    cases hm : (n.children.map criticalPath).max? with
    | none =>
      have hn : n.children = [] := by
        rwa [List.max?_eq_none_iff, List.map_eq_nil_iff] at hm
      constructor
      · exact ⟨_, mem_leafPaths.mpr (.inl ⟨hn, rfl⟩), by simp [BomPath.leadTime, BomPath.nodes]⟩
      · rintro d ⟨π, hπ, rfl⟩
        rcases mem_leafPaths.mp hπ with ⟨-, rfl⟩ | ⟨c, hc, -⟩
        · simp [BomPath.leadTime, BomPath.nodes]
        · rw [hn] at hc
          cases hc
    | some m =>
      obtain ⟨hmem, hle⟩ := List.max?_eq_some_iff.mp hm
      obtain ⟨c, hc, rfl⟩ := List.mem_map.mp hmem
      constructor
      · obtain ⟨π, hπ, he⟩ := (ih c hc).1
        refine ⟨π.under n, mem_leafPaths.mpr (.inr ⟨c, hc, π, hπ, rfl⟩), ?_⟩
        rw [BomPath.under_leadTime, ← he]
        rfl
      · rintro d ⟨π, hπ, rfl⟩
        rcases mem_leafPaths.mp hπ with ⟨hn, -⟩ | ⟨c', hc', π', hπ', rfl⟩
        · rw [hn] at hc
          cases hc
        · have h1 : π'.leadTime ≤ criticalPath c' := (ih c' hc').2 ⟨π', hπ', rfl⟩
          have h2 : criticalPath c' ≤ criticalPath c := hle _ (List.mem_map_of_mem hc')
          rw [BomPath.under_leadTime, Option.getD_some]
          omega

/-! ## The plan -/

/-- The plan is one that the parallel explosion can produce. -/
def Explodes (root : BomNode) (demand : Nat) (plan : MrpPlan) : Prop :=
  ∃ schedule, explode root demand schedule = some plan

theorem explodes_iff {root : BomNode} {demand : Nat} {plan : MrpPlan} :
    Explodes root demand plan ↔ ∃ schedule acc,
      exec (ForkJoin.step addGross forkChildren) ([(root, demand)], ∅) schedule = some ([], acc) ∧
        plan = planOf root acc := by
  constructor
  · rintro ⟨schedule, h⟩
    unfold explode at h
    split at h
    · next acc he =>
      cases h
      exact ⟨schedule, acc, he, rfl⟩
    · cases h
  · rintro ⟨schedule, acc, he, rfl⟩
    refine ⟨schedule, ?_⟩
    rw [explode, he]

theorem exists_explodes (root : BomNode) (demand : Nat) : ∃ plan, Explodes root demand plan := by
  obtain ⟨schedule, acc, h⟩ : ∃ schedule acc,
      exec (ForkJoin.step addGross forkChildren) ([(root, demand)], ∅) schedule = some ([], acc) :=
    ForkJoin.exists_complete lists_tasksBelow [(root, demand)] ∅
  exact ⟨planOf root acc, explodes_iff.mpr ⟨schedule, acc, h, rfl⟩⟩

/-- The gross demand for the part, over all its occurrences. -/
def totalDemand (root : BomNode) (demand : Nat) (p : Id Part) : Nat :=
  ((root.pathsTo p).map fun π => π.demand demand).sum

theorem totalDemand_add (root : BomNode) (d d' : Nat) (p : Id Part) :
    totalDemand root (d + d') p = totalDemand root d p + totalDemand root d' p := by
  unfold totalDemand
  rw [← List.sum_map_add]
  congr 1
  apply List.map_congr_left
  intro π _
  exact π.demand_add d d'

/-- What the plan has for a part. -/
theorem lookup_requirements {root : BomNode} {demand : Nat} {plan : MrpPlan} (h : Explodes root demand plan)
    (p : Id Part) : plan.requirements.lookup p =
      if p ∈ root.parts then some (requirement (partInfo root) p (totalDemand root demand p)) else none := by
  obtain ⟨schedule, acc, he, rfl⟩ := explodes_iff.mp h
  obtain ⟨hg, hm⟩ := exec_explode he p
  simp only [planOf, lookup_mapEntries]
  split
  · next hp =>
    obtain ⟨g, hl⟩ := Option.isSome_iff_exists.mp (AList.lookup_isSome.mpr (hm.mpr hp))
    rw [getD, hl, Option.getD_some] at hg
    rw [hl, hg]
    rfl
  · next hp =>
    rw [AList.lookup_eq_none.mpr fun ha => hp (hm.mp ha)]
    rfl

theorem eq_requirement {root : BomNode} {demand : Nat} {plan : MrpPlan} (h : Explodes root demand plan)
    {p : Id Part} {r : PartRequirement} (hl : plan.requirements.lookup p = some r) :
    r = requirement (partInfo root) p (totalDemand root demand p) := by
  rw [lookup_requirements h] at hl
  split at hl
  · exact (Option.some.inj hl).symm
  · cases hl

theorem critical_path_days {root : BomNode} {demand : Nat} {plan : MrpPlan} (h : Explodes root demand plan) :
    plan.critical_path_days = criticalPath root := by
  obtain ⟨schedule, acc, -, rfl⟩ := explodes_iff.mp h
  rfl

theorem mem_shortages {root : BomNode} {demand : Nat} {plan : MrpPlan} (h : Explodes root demand plan)
    (hc : root.Consistent) (p : Id Part) (n : Nat) :
    (p, n) ∈ shortages plan ↔
      ∃ π ∈ root.pathsTo p, π.here.on_hand < totalDemand root demand p ∧
        n = totalDemand root demand p - π.here.on_hand := by
  have hmem : (p, n) ∈ shortages plan ↔ ∃ r, plan.requirements.lookup p = some r ∧ r.shortage = true ∧ r.net = n := by
    simp only [shortages, List.mem_map, List.mem_filter, Prod.mk.injEq]
    constructor
    · rintro ⟨⟨k, r⟩, ⟨he, hs⟩, rfl, rfl⟩
      exact ⟨r, (List.mem_dlookup_iff plan.requirements.nodupKeys).mpr he, hs, rfl⟩
    · rintro ⟨r, hl, hs, rfl⟩
      exact ⟨⟨p, r⟩, ⟨(List.mem_dlookup_iff plan.requirements.nodupKeys).mp hl, hs⟩, rfl, rfl⟩
  rw [hmem, lookup_requirements h]
  simp only [BomNode.pathsTo, List.mem_filter, decide_eq_true_eq]
  constructor
  · rintro ⟨r, hr, hs, rfl⟩
    split at hr
    · next hp =>
      obtain ⟨π, hπ, rfl⟩ := List.mem_map.mp hp
      cases hr
      simp only [requirement, partInfo_on_hand hc hπ, decide_eq_true_eq] at hs ⊢
      exact ⟨π, ⟨hπ, rfl⟩, by omega, rfl⟩
    · cases hr
  · rintro ⟨π, ⟨hπ, rfl⟩, hlt, rfl⟩
    have hp : π.here.part ∈ root.parts := List.mem_map.mpr ⟨π, hπ, rfl⟩
    rw [if_pos hp]
    refine ⟨_, rfl, ?_, ?_⟩
    · simp only [requirement, partInfo_on_hand hc hπ, decide_eq_true_eq]
      omega
    · simp only [requirement, partInfo_on_hand hc hπ]

/-- **BOM explosion is the sum over paths**: the parts are those of the tree; a part's gross demand
is summed over all its occurrences and netted once; neither depends on the schedule; the gross
demands add up with the demand; and the critical path is the longest root-to-leaf path. -/
theorem explode_requirements (root : BomNode) (hc : root.Consistent) (demand : Nat) :
    (∃ plan, Explodes root demand plan) ∧ ∀ plan, Explodes root demand plan →
    (∀ p, p ∈ plan.requirements ↔ p ∈ root.parts) ∧
    (∀ p r, plan.requirements.lookup p = some r →
      r.gross = ((root.pathsTo p).map fun π => demand * (π.nodes.map (·.qty_per)).prod).sum ∧
      ∀ π ∈ root.pathsTo p, r.on_hand = π.here.on_hand ∧ (r.net : Int) = max 0 ((r.gross : Int) - π.here.on_hand)) ∧
    (∀ plan', Explodes root demand plan' →
      (∀ p, plan'.requirements.lookup p = plan.requirements.lookup p) ∧
        plan'.critical_path_days = plan.critical_path_days) ∧
    (∀ d planD planSum, Explodes root d planD → Explodes root (demand + d) planSum → ∀ p r rD rSum,
      plan.requirements.lookup p = some r → planD.requirements.lookup p = some rD →
        planSum.requirements.lookup p = some rSum → rSum.gross = r.gross + rD.gross) ∧
    IsGreatest { d | ∃ π ∈ root.leafPaths, d = (π.nodes.map (·.lead_time_days)).sum } plan.critical_path_days := by
  refine ⟨exists_explodes root demand, ?_⟩
  intro plan h
  refine ⟨?_, ?_, ?_, ?_, ?_⟩
  · intro p
    rw [← AList.lookup_isSome, lookup_requirements h]
    by_cases hp : p ∈ root.parts
    · simp [hp]
    · simp [hp]
  · intro p r hl
    obtain rfl := eq_requirement h hl
    refine ⟨rfl, ?_⟩
    intro π hπ
    obtain ⟨hmem, hp⟩ := List.mem_filter.mp hπ
    obtain rfl := of_decide_eq_true hp
    have ho := partInfo_on_hand hc hmem
    simp only [requirement]
    rw [ho]
    exact ⟨rfl, by omega⟩
  · intro plan' h'
    constructor
    · intro p
      rw [lookup_requirements h', lookup_requirements h]
    · rw [critical_path_days h', critical_path_days h]
  · intro d planD planSum hD hSum p r rD rSum hl hlD hlSum
    obtain rfl := eq_requirement h hl
    obtain rfl := eq_requirement hD hlD
    obtain rfl := eq_requirement hSum hlSum
    exact totalDemand_add root demand d p
  · rw [critical_path_days h]
    exact isGreatest_criticalPath root

/-- A frame with two bolts of its own and two wheels with three bolts each. -/
def cart : BomNode where
  part := ⟨0⟩
  qty_per := 1
  lead_time_days := 2
  on_hand := 0
  children := [⟨⟨1⟩, 2, 4, 1, [⟨⟨2⟩, 3, 1, 5, []⟩]⟩, ⟨⟨2⟩, 2, 1, 5, []⟩]

theorem explode_requirements_cart :
    ∃ plan, Explodes cart 10 plan ∧ plan.critical_path_days = 7 ∧
      ∃ r, plan.requirements.lookup ⟨2⟩ = some r ∧ r.gross = 80 ∧ r.net = 75 := by
  obtain ⟨⟨plan, h⟩, hall⟩ := explode_requirements cart (by decide) 10
  obtain ⟨hparts, hreq, -, -, hcrit⟩ := hall plan h
  refine ⟨plan, h, hcrit.unique ⟨⟨⟨[cart, ⟨⟨1⟩, 2, 4, 1, [⟨⟨2⟩, 3, 1, 5, []⟩]⟩], ⟨⟨2⟩, 3, 1, 5, []⟩⟩, ?_, rfl⟩, ?_⟩, ?_⟩
  · simp [BomNode.leafPaths, BomNode.paths_eq, cart, BomPath.under]
  · rintro d ⟨π, hπ, rfl⟩
    have hle : ∀ π ∈ cart.leafPaths, (π.nodes.map (·.lead_time_days)).sum ≤ 7 := by decide
    exact hle π hπ
  · obtain ⟨r, hr⟩ := Option.isSome_iff_exists.mp (AList.lookup_isSome.mpr ((hparts ⟨2⟩).mpr (by decide)))
    obtain ⟨hg, hn⟩ := hreq ⟨2⟩ r hr
    have hg : r.gross = 80 := hg
    obtain ⟨-, hn⟩ := hn ⟨[cart], ⟨⟨2⟩, 2, 1, 5, []⟩⟩ (by simp [BomNode.pathsTo, BomNode.paths_eq, cart, BomPath.under])
    refine ⟨r, hr, hg, ?_⟩
    rw [hg] at hn
    have hn : (r.net : Int) = 75 := hn
    omega

end Mrp

end TptErp
