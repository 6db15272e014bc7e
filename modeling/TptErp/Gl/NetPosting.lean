import TptErp.Gl.Books
import Mathlib.Tactic.Ring

/-!
# Net balances

What a posting does to net balances (credits less debits).  An entry adds its amount to its account's
net when it is a credit and takes it off when it is a debit; a list of entries balances when this comes
to nothing over all of them (`validate_ok_iff_net`).

A posting of valid entries answers with its id exactly when it is `Postable`; the net of each account
has then moved by what the entries have on it (`Posted.net`).  Over runs of postings, guarded or not, the
live balances are those of the posted legs (`live_run`).
-/

namespace TptErp.Gl

open Ledger

variable {C : Type} {SHARDS : Nat}

/-- An amount on a side, counted on the debit side. -/
def onDebit (side : EntrySide) (x : ℚ) : ℚ :=
  match side with
  | .debit => x
  | .credit => -x

theorem onDebit_eq_zero_iff (side : EntrySide) (x : ℚ) : onDebit side x = 0 ↔ x = 0 := by
  cases side with
  | debit => exact Iff.rfl
  | credit => exact neg_eq_zero

/-- What an entry adds to the net balance of its account. -/
def entryNet (e : LedgerEntry C) : Money C :=
  match e.side with
  | .credit => e.amount
  | .debit => -e.amount

/-- What the entries add to the net balance of an account. -/
def netOn (entries : List (LedgerEntry C)) (a : AccountId) : Money C :=
  ((entries.filter fun e => e.account = a).map entryNet).sum

theorem netOn_append (l₁ l₂ : List (LedgerEntry C)) (a : AccountId) :
    netOn (l₁ ++ l₂) a = netOn l₁ a + netOn l₂ a := by
  simp [netOn]

theorem netOn_eq_zero {entries : List (LedgerEntry C)} {a : AccountId} (h : ∀ e ∈ entries, e.account ≠ a) :
    netOn entries a = 0 := by
  have hnil : entries.filter (fun e => e.account = a) = [] :=
    List.filter_eq_nil_iff.mpr fun e he => by simpa using h e he
  rw [netOn, hnil]
  rfl

/-- The entries' credits less their debits. -/
theorem sum_entryNet (entries : List (LedgerEntry C)) :
    (entries.map entryNet).sum =
      ((entries.filter fun e => e.side = .credit).map (·.amount)).sum -
        ((entries.filter fun e => e.side = .debit).map (·.amount)).sum := by
  induction entries with
  | nil => exact (sub_zero 0).symm
  | cons e entries ih =>
    rw [List.map_cons, List.sum_cons, ih]
    cases hs : e.side with
    | debit =>
      rw [List.filter_cons_of_neg (by simp [hs]), List.filter_cons_of_pos (by simp [hs]), List.map_cons,
        List.sum_cons, entryNet, hs]
      ring
    | credit =>
      rw [List.filter_cons_of_pos (by simp [hs]), List.filter_cons_of_neg (by simp [hs]), List.map_cons,
        List.sum_cons, entryNet, hs]
      ring

/-- Entries validate when there are two of them and their net comes to nothing. -/
theorem validate_ok_iff_net (tx : Transaction C) :
    tx.validate = .ok () ↔ 2 ≤ tx.entries.length ∧ (tx.entries.map entryNet).sum = 0 := by
  rw [tx.validate_ok_iff, Transaction.debits, Transaction.credits, tx.total_eq_sum, tx.total_eq_sum, sum_entryNet,
    sub_eq_zero]
  exact and_congr_right fun _ => eq_comm

namespace JournalEngine

/-- The posting does not wait for itself and its period is open to it. -/
def Postable (eng : JournalEngine C SHARDS) (entries : List (LedgerEntry C)) (period : String) : Prop :=
  (eng.lockSequence entries).Nodup ∧ eng.periodIsClosed period = false

instance (eng : JournalEngine C SHARDS) (entries : List (LedgerEntry C)) (period : String) :
    Decidable (eng.Postable entries period) :=
  inferInstanceAs (Decidable (_ ∧ _))

/-- The locks are different ones when no two different accounts are on one shard. -/
theorem lockSequence_nodup_iff (eng : JournalEngine C SHARDS) (entries : List (LedgerEntry C)) :
    (eng.lockSequence entries).Nodup ↔
      ∀ e ∈ entries, ∀ e' ∈ entries, eng.shardIndex e.account = eng.shardIndex e'.account → e.account = e'.account := by
  have hnodup : (accounts entries).Nodup := (SortDedup.sortDedup_pairwise _).imp ne_of_lt
  rw [lockSequence, List.nodup_map_iff_inj_on hnodup]
  simp only [accounts, SortDedup.mem_sortDedup, List.forall_mem_map]

variable {eng eng' : JournalEngine C SHARDS}

/-- Entries that validate are posted exactly when they are postable. -/
theorem postTransaction_ok_iff (eng : JournalEngine C SHARDS) (id : TransactionId) {entries : List (LedgerEntry C)}
    (period memo : String) (hv : (⟨id, entries⟩ : Transaction C).validate = .ok ()) :
    (∃ r eng', eng.postTransaction id entries period memo = some (.ok r, eng')) ↔ eng.Postable entries period := by
  rcases eng.postTransaction_cases id entries period memo hv with
    ⟨hn, hp⟩ | ⟨hn, hc, hp⟩ | ⟨hn, hc, eng', hp, -⟩
  · constructor
    · rintro ⟨r, eng', h⟩
      exact nomatch hp.symm.trans h
    · exact fun h => absurd h.1 hn
  · constructor
    · rintro ⟨r, eng', h⟩
      exact nomatch (Prod.mk.inj (Option.some.inj (hp.symm.trans h))).1
    · exact fun h => nomatch hc.symm.trans h.2
  · exact ⟨fun _ => ⟨hn, hc⟩, fun _ => ⟨id, eng', hp⟩⟩

theorem postTransaction_ok {id r : TransactionId} {entries : List (LedgerEntry C)} {period memo : String}
    (h : eng.postTransaction id entries period memo = some (.ok r, eng')) :
    r = id ∧ Posted eng eng' (entries.map (leg ⟨id, entries⟩ period memo)) := by
  cases hv : (⟨id, entries⟩ : Transaction C).validate with
  | error e =>
    simp only [postTransaction, post, hv, Option.some.injEq, Prod.mk.injEq] at h
    cases h.1
  | ok u =>
    rcases eng.postTransaction_cases id entries period memo hv with ⟨-, hp⟩ | ⟨-, -, hp⟩ | ⟨-, -, mid, hp, hposted⟩
    · cases hp.symm.trans h
    · cases hp.symm.trans h
    · obtain ⟨hr, rfl⟩ := Prod.mk.inj (Option.some.inj (hp.symm.trans h))
      exact ⟨(Except.ok.inj hr).symm, hposted⟩

theorem legBalance_net (legs : List (PostedLeg C)) (a : AccountId) :
    (legBalance legs a).net =
      sideTotal (legs.filter fun l => l.account = a) .credit - sideTotal (legs.filter fun l => l.account = a) .debit :=
  rfl

theorem legBalance_net_append (l₁ l₂ : List (PostedLeg C)) (a : AccountId) :
    (legBalance (l₁ ++ l₂) a).net = (legBalance l₁ a).net + (legBalance l₂ a).net := by
  simp only [legBalance_net, List.filter_append, sideTotal_append]
  ring

/-- The legs of a posting have on an account what its entries have. -/
theorem legBalance_entries (tx : Transaction C) (entries : List (LedgerEntry C)) (period memo : String)
    (a : AccountId) :
    (legBalance (entries.map (leg tx period memo)) a).net = netOn entries a := by
  rw [legBalance_net, netOn, sum_entryNet]
  simp only [sideTotal, List.filter_map, List.map_map]
  rfl

/-- The net balance of an account moves by the net of the legs on it. -/
theorem Posted.net_legs {ls : List (PostedLeg C)} (h : Posted eng eng' ls) (a : AccountId) :
    (eng'.balanceOf a).net = (eng.balanceOf a).net + (legBalance ls a).net := by
  rw [AccountBalance.net, AccountBalance.net, h.credits a, h.debits a, filter_account_side, filter_account_side,
    legBalance_net]
  ring

theorem Posted.net {tx : Transaction C} {entries : List (LedgerEntry C)} {period memo : String}
    (h : Posted eng eng' (entries.map (leg tx period memo))) (a : AccountId) :
    (eng'.balanceOf a).net = (eng.balanceOf a).net + netOn entries a := by
  rw [h.net_legs a, legBalance_entries]

/-- An account that no entry is on keeps its balance. -/
theorem Posted.balanceOf_eq {tx : Transaction C} {entries : List (LedgerEntry C)} {period memo : String}
    (h : Posted eng eng' (entries.map (leg tx period memo))) {a : AccountId} (ha : ∀ e ∈ entries, e.account ≠ a) :
    eng'.balanceOf a = eng.balanceOf a := by
  have hnone : ∀ side : EntrySide,
      (entries.map (leg tx period memo)).filter (fun l => l.account = a ∧ l.side = side) = [] := by
    intro side
    rw [List.filter_eq_nil_iff]
    intro l hl
    obtain ⟨e, he, rfl⟩ := List.mem_map.mp hl
    rw [decide_eq_true_iff]
    exact fun h => ha e he h.1
  ext
  · rw [h.debits a, hnone]
    exact add_zero _
  · rw [h.credits a, hnone]
    exact add_zero _

/-! ## Runs -/

/-- A loop over legs posts the first of them, up to where it stops. -/
theorem postLegs_prefix (expected : Option (AccountId → Nat)) (legs : List (PostedLeg C))
    (eng : JournalEngine C SHARDS) :
    ∃ done, done <+: legs ∧ Posted eng (postLegs expected legs eng).2 done := by
  induction legs generalizing eng with
  | nil => exact ⟨[], List.prefix_rfl, posted_nil eng⟩
  | cons l legs ih =>
    simp only [postLegs]
    split
    · exact ⟨[], List.nil_prefix, posted_nil eng⟩
    · next eng' hok =>
      rw [postLeg_eq] at hok
      split at hok
      · obtain rfl := Except.ok.inj hok
        obtain ⟨done, hpre, hposted⟩ := ih (eng.withLeg l)
        exact ⟨l :: done, List.cons_prefix_cons.mpr ⟨rfl, hpre⟩, (posted_withLeg eng l).append hposted⟩
      · cases hok

/-- Whatever a posting answers, it has posted the legs of its first entries. -/
theorem post_engine {id : TransactionId} {entries : List (LedgerEntry C)} {period memo : String}
    {expected : Option (AccountId → Nat)} (h : (eng.post id entries period memo expected).map (·.2) = some eng') :
    ∃ done, done <+: entries.map (leg ⟨id, entries⟩ period memo) ∧ Posted eng eng' done := by
  unfold post at h
  dsimp only at h
  split at h
  · obtain rfl := Option.some.inj h
    exact ⟨[], List.nil_prefix, posted_nil eng⟩
  · unfold postSync at h
    by_cases hn : (eng.lockSequence entries).Nodup
    · rw [if_neg (not_not.mpr hn)] at h
      by_cases hp : eng.periodIsClosed period = true
      · rw [if_pos hp] at h
        obtain rfl := Option.some.inj h
        exact ⟨[], List.nil_prefix, posted_nil eng⟩
      · rw [if_neg hp] at h
        have hlegs := postLegs_prefix expected (entries.map (leg ⟨id, entries⟩ period memo)) eng
        split at h
        · obtain rfl := Option.some.inj h
          exact ⟨[], List.nil_prefix, posted_nil eng⟩
        · split at h
          · next hr =>
            obtain rfl := Option.some.inj h
            rwa [hr] at hlegs
          · next hr =>
            obtain rfl := Option.some.inj h
            rwa [hr] at hlegs
    · rw [if_pos hn] at h
      cases h

end JournalEngine

/-- A posting by any of the entry points, or a change of a period's status. -/
inductive JournalOp (C : Type)
  | post (id : TransactionId) (entries : List (LedgerEntry C)) (period memo : String)
      (expected : Option (AccountId → Nat))
  | setPeriodStatus (period : String) (status : PeriodStatus)

/-- The engine after a call (`none`: a posting that never returns). -/
def JournalOp.step (eng : JournalEngine C SHARDS) : JournalOp C → Option (JournalEngine C SHARDS)
  | .post id entries period memo expected => (eng.post id entries period memo expected).map (·.2)
  | .setPeriodStatus period status => some (eng.setPeriodStatus period status)

namespace JournalEngine

/-- Whatever a run has posted, and on whatever accounts. -/
theorem live_run {ops : List (JournalOp C)} {eng eng' : JournalEngine C SHARDS} (h : Live eng)
    (hrun : LabelledRun.exec JournalOp.step eng ops = some eng') : Live eng' ∧ eng'.coa = eng.coa := by
  induction ops generalizing eng with
  | nil =>
    cases hrun
    exact ⟨h, rfl⟩
  | cons op ops ih =>
    obtain ⟨mid, hstep, hrun⟩ := Option.bind_eq_some_iff.mp hrun
    have hmid : Live mid ∧ mid.coa = eng.coa := by
      cases op with
      | setPeriodStatus period status =>
        cases hstep
        exact ⟨h, rfl⟩
      | post id entries period memo expected =>
        obtain ⟨done, -, hposted⟩ := post_engine hstep
        exact ⟨h.posted hposted, hposted.frame.2.1⟩
    obtain ⟨hl, hc⟩ := ih hmid.1 hrun
    exact ⟨hl, hc.trans hmid.2⟩

theorem live_new (shardIndex : AccountId → Fin SHARDS) (coa : ChartOfAccounts) (cache : Bool) :
    Live (new shardIndex coa cache : JournalEngine C SHARDS) := (booked_new shardIndex coa cache).live

end JournalEngine

end TptErp.Gl
