import TptErp.Gl.Journal
import TptErp.Lib.LockOrder

/-!
# The shard locks of concurrent postings

`post_sync` locks the shards of its accounts in the order of the account ids, "ordered by account
id => no deadlock".  But the mutexes belong to shards, and the hash does not keep the order of the
ids: two accounts of one posting can share a shard, and two postings can take two shards in
opposite orders.  `locksSafely_iff` says exactly which families of concurrent postings are safe.
-/

namespace TptErp.Gl.JournalEngine

open Ledger

variable {C : Type} {SHARDS : Nat} {ι : Type}

/-- The shards each of the concurrent postings locks, in its order. -/
def callLocks (eng : JournalEngine C SHARDS) (calls : ι → List (LedgerEntry C)) (i : ι) : List (Fin SHARDS) :=
  eng.lockSequence (calls i)

/-- No posting locks a shard twice, all lock their shards in one order, and none ever waits for
itself or on a cycle. -/
structure LocksSafely [DecidableEq ι] (eng : JournalEngine C SHARDS) (calls : ι → List (LedgerEntry C)) :
    Prop where
  distinct : ∀ i, (eng.callLocks calls i).Nodup
  ordered : LockOrder.Ordered (eng.callLocks calls)
  deadlockFree : LockOrder.DeadlockFree (eng.callLocks calls)

/-- Some posting has an account on shard `s` and one with a larger id on shard `t`. -/
def LowerAccountOn (eng : JournalEngine C SHARDS) (calls : ι → List (LedgerEntry C)) (s t : Fin SHARDS) :
    Prop :=
  ∃ i, ∃ e ∈ calls i, ∃ f ∈ calls i,
    e.account < f.account ∧ eng.shardIndex e.account = s ∧ eng.shardIndex f.account = t

/-- In a strictly increasing list, the two-element sublists are the increasing pairs of members. -/
theorem pair_sublist_iff {A : Type} [LinearOrder A] (l : List A) (hl : l.Pairwise (· < ·)) (a b : A) :
    List.Sublist [a, b] l ↔ a ∈ l ∧ b ∈ l ∧ a < b := by
  constructor
  · intro h
    exact ⟨h.subset (by simp), h.subset (by simp), List.pairwise_iff_forall_sublist.mp hl h⟩
  · rintro ⟨ha, hb, hab⟩
    induction l with
    | nil => cases ha
    | cons x l ih =>
      obtain ⟨hx, hl⟩ := List.pairwise_cons.mp hl
      rcases List.mem_cons.mp ha with rfl | ha'
      · rcases List.mem_cons.mp hb with rfl | hb'
        · exact absurd hab (lt_irrefl _)
        · exact (List.singleton_sublist.mpr hb').cons_cons a
      · rcases List.mem_cons.mp hb with rfl | hb'
        · exact absurd (hab.trans (hx a ha')) (lt_irrefl _)
        · exact (ih hl ha' hb').cons x

/-- The accounts of a posting are locked by increasing id. -/
theorem accounts_increasing (entries : List (LedgerEntry C)) : (accounts entries).Pairwise (· < ·) :=
  SortDedup.sortDedup_pairwise _

/-- A shard is locked before another exactly when it has the account with the smaller id. -/
theorem takenBefore_iff (eng : JournalEngine C SHARDS) (calls : ι → List (LedgerEntry C))
    (s t : Fin SHARDS) :
    LockOrder.TakenBefore (eng.callLocks calls) s t ↔ eng.LowerAccountOn calls s t := by
  constructor
  · rintro ⟨i, hi⟩
    obtain ⟨as, has, hmap⟩ := List.sublist_map_iff.mp hi
    obtain ⟨a, b, rfl⟩ : ∃ a b, as = [a, b] := by
      match as, hmap with
      | [a, b], _ => exact ⟨a, b, rfl⟩
    simp only [List.map_cons, List.map_nil, List.cons.injEq, and_true] at hmap
    obtain ⟨ha, hb, hab⟩ := (pair_sublist_iff _ (accounts_increasing _) a b).mp has
    rw [accounts, SortDedup.mem_sortDedup, List.mem_map] at ha hb
    obtain ⟨e, he, rfl⟩ := ha
    obtain ⟨f, hf, rfl⟩ := hb
    exact ⟨i, e, he, f, hf, hab, hmap.1.symm, hmap.2.symm⟩
  · rintro ⟨i, e, he, f, hf, hlt, rfl, rfl⟩
    refine ⟨i, ?_⟩
    have hmem : ∀ g ∈ calls i, g.account ∈ accounts (calls i) := by
      intro g hg
      rw [accounts, SortDedup.mem_sortDedup]
      exact List.mem_map_of_mem hg
    have hsub := (pair_sublist_iff _ (accounts_increasing (calls i)) _ _).mpr ⟨hmem e he, hmem f hf, hlt⟩
    exact hsub.map eng.shardIndex

/-- **When the shard locks are safe.**  Follow, from shard to shard, the accounts of each posting
from a smaller id to a larger one: the postings are safe exactly when no shard is met again. -/
theorem locksSafely_iff [DecidableEq ι] (eng : JournalEngine C SHARDS)
    (calls : ι → List (LedgerEntry C)) :
    eng.LocksSafely calls ↔ ∀ s, ¬ Relation.TransGen (eng.LowerAccountOn calls) s s := by
  have hrel : LockOrder.TakenBefore (eng.callLocks calls) = eng.LowerAccountOn calls := by
    funext s t
    exact propext (eng.takenBefore_iff calls s t)
  rw [← hrel]
  constructor
  · intro h
    exact LockOrder.ordered_iff_acyclic.mp h.ordered
  · intro h
    have hord := LockOrder.ordered_iff_acyclic.mpr h
    exact ⟨LockOrder.nodup_of_ordered hord, hord, LockOrder.deadlockFree_of_acyclic h⟩

/-- With every account on a shard of its own the order of the ids is enough. -/
theorem locksSafely_of_injective [DecidableEq ι] (eng : JournalEngine C SHARDS)
    (calls : ι → List (LedgerEntry C))
    (hinj : ∀ i j, ∀ e ∈ calls i, ∀ f ∈ calls j,
      eng.shardIndex e.account = eng.shardIndex f.account → e.account = f.account) :
    eng.LocksSafely calls := by
  rw [locksSafely_iff]
  -- along a path of shards the account ids increase
  have hpath : ∀ s t, Relation.TransGen (eng.LowerAccountOn calls) s t →
      ∃ i, ∃ e ∈ calls i, ∃ j, ∃ f ∈ calls j, e.account < f.account ∧
        eng.shardIndex e.account = s ∧ eng.shardIndex f.account = t := by
    intro s t h
    induction h with
    | single h =>
      obtain ⟨i, e, he, f, hf, h⟩ := h
      exact ⟨i, e, he, i, f, hf, h⟩
    | tail _ h ih =>
      obtain ⟨i, e, he, j, f, hf, hlt, hs, hm⟩ := ih
      obtain ⟨k, g, hg, g', hg', hlt', hm', ht⟩ := h
      have hfg : f.account = g.account := hinj j k f hf g hg (hm.trans hm'.symm)
      exact ⟨i, e, he, k, g', hg', hlt.trans (hfg ▸ hlt'), hs, ht⟩
  intro s h
  obtain ⟨i, e, he, j, f, hf, hlt, hs, ht⟩ := hpath s s h
  have hef : e.account = f.account := hinj i j e he f hf (hs.trans ht.symm)
  exact absurd (hef ▸ hlt) (lt_irrefl _)

/-- A new engine whose 64 shards are picked by the id modulo 64. -/
def modEngine : JournalEngine Usd 64 :=
  new (fun a => mod64 a.uuid) .new false

/-- Two postings: 1 and 66 take shards 1 and 2, 2 and 65 take shards 2 and 1. -/
def crossing : Bool → List (LedgerEntry Usd)
  | false => [⟨⟨1⟩, .debit, 5⟩, ⟨⟨66⟩, .credit, 5⟩]
  | true => [⟨⟨2⟩, .debit, 5⟩, ⟨⟨65⟩, .credit, 5⟩]

/-- Each of the two postings takes its first shard and waits for the other; and a single posting
on accounts 1 and 65 waits for itself. -/
theorem crossing_postings_deadlock :
    ¬ modEngine.LocksSafely crossing ∧ ¬ LockOrder.DeadlockFree (modEngine.callLocks crossing) ∧
      ¬ (modEngine.lockSequence [⟨⟨1⟩, .debit, 5⟩, ⟨⟨65⟩, .credit, 5⟩]).Nodup := by
  have hdead : ¬ LockOrder.DeadlockFree (modEngine.callLocks crossing) := by
    have hf : modEngine.callLocks crossing false = [1, 2] := by decide
    have ht : modEngine.callLocks crossing true = [2, 1] := by decide
    intro h
    -- the first lock of each posting is free
    have h₁ : LockOrder.Step (modEngine.callLocks crossing) (fun _ => 0)
        (Function.update (fun _ => 0) false 1) := by
      refine .acquire false 1 (by rw [hf]; rfl) fun j hj => ?_
      simpa using hj.2
    have h₂ : LockOrder.Step (modEngine.callLocks crossing) (Function.update (fun _ => 0) false 1)
        (Function.update (Function.update (fun _ => 0) false 1) true 1) := by
      refine .acquire true 2 (by rw [ht]; rfl) fun j hj => ?_
      cases j with
      | false => simp [LockOrder.Holds, hf] at hj
      | true => simp [LockOrder.Holds] at hj
    refine h _ ((Relation.ReflTransGen.single h₁).tail h₂) false ?_
    -- and now each waits for the other's
    have hw : LockOrder.WaitsFor (modEngine.callLocks crossing)
        (Function.update (Function.update (fun _ => 0) false 1) true 1) false true :=
      ⟨2, by rw [hf]; rfl, by simp [LockOrder.Holds, ht]⟩
    have hw' : LockOrder.WaitsFor (modEngine.callLocks crossing)
        (Function.update (Function.update (fun _ => 0) false 1) true 1) true false :=
      ⟨1, by rw [ht]; rfl, by simp [LockOrder.Holds, hf]⟩
    exact .head hw (.single hw')
  exact ⟨fun h => hdead h.deadlockFree, hdead, by decide⟩

end TptErp.Gl.JournalEngine
