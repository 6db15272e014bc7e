import TptErp.Gl.Coa
import TptErp.Ledger.EventStore
import TptErp.Lib.SortDedup

/-!
# The journal engine

A posting appends one leg per entry to the log of the entry's account and moves the account's
running balance.  Logs and balances are sharded by account: `shardIndex` stands for the hash of
the account id modulo the number of shards, and each shard has a mutex that is not re-entrant.

`postSync` is the lock-holding path.  It takes the shards of the sorted, deduplicated accounts one
by one (`lockSequence`); when two of them are one shard it waits for itself and never returns,
which is the result `none`.  Otherwise it returns with the engine as it is left, on the error
paths too: a loop that fails at one leg has appended the legs before it.

    postLeg_eq      one leg: appended unless the guard names another version
    postLegs_posted a loop that ends has posted every leg (`Posted`)
    postLegs_log    a loop never takes anything out of a log
-/

namespace TptErp.Gl

open Ledger

inductive PeriodStatus
  | opened
  | softClose
  | reconciling
  | closed
  | locked
deriving DecidableEq

/-- Cumulative debits and credits of one account. -/
@[ext] structure AccountBalance (C : Type) where
  debits : Money C := 0
  credits : Money C := 0

/-- A posted leg, the payload of a journal event. -/
structure PostedLeg (C : Type) where
  txId : TransactionId
  account : AccountId
  side : EntrySide
  amount : Money C
  period : String
  memo : String

inductive JournalError (C : Type)
  | invalid (e : DoubleEntryError C)
  | conflict (account : AccountId) (expected current : Nat)
  | periodClosed (period : String)

structure Shard (C : Type) where
  store : InMemoryEventStore AccountId (PostedLeg C) := {}
  balances : AccountId → AccountBalance C := fun _ => {}

structure JournalEngine (C : Type) (SHARDS : Nat) where
  /-- The hash of an account id, modulo the number of shards. -/
  shardIndex : AccountId → Fin SHARDS
  shards : Fin SHARDS → Shard C
  coa : ChartOfAccounts
  /-- Whether a read-model cache is attached. -/
  cache : Bool
  periodStatus : String → Option PeriodStatus

variable {C : Type} {SHARDS : Nat}

namespace AccountBalance

/-- Credit minus debit. -/
def net (b : AccountBalance C) : Money C := b.credits - b.debits

/-- The balance in the account's normal direction. -/
def signed (b : AccountBalance C) (kind : AccountType) : Money C :=
  match kind.normalSide with
  | .debit => b.debits - b.credits
  | .credit => b.credits - b.debits

def post (b : AccountBalance C) (side : EntrySide) (amount : Money C) : AccountBalance C :=
  match side with
  | .debit => { b with debits := b.debits + amount }
  | .credit => { b with credits := b.credits + amount }

end AccountBalance

def Shard.applyLeg (s : Shard C) (leg : PostedLeg C) : Shard C :=
  { s with
    balances := Function.update s.balances leg.account
      ((s.balances leg.account).post leg.side leg.amount) }

namespace JournalEngine

/-! ## The engine -/

def new (shardIndex : AccountId → Fin SHARDS) (coa : ChartOfAccounts) (cache : Bool) :
    JournalEngine C SHARDS :=
  { shardIndex, shards := fun _ => {}, coa, cache, periodStatus := fun _ => none }

def setPeriodStatus (eng : JournalEngine C SHARDS) (period : String) (status : PeriodStatus) :
    JournalEngine C SHARDS :=
  { eng with periodStatus := Function.update eng.periodStatus period (some status) }

def shardOf (eng : JournalEngine C SHARDS) (a : AccountId) : Shard C := eng.shards (eng.shardIndex a)

def setShard (eng : JournalEngine C SHARDS) (i : Fin SHARDS) (s : Shard C) : JournalEngine C SHARDS :=
  { eng with shards := Function.update eng.shards i s }

/-- The event-log version of an account. -/
def version (eng : JournalEngine C SHARDS) (a : AccountId) : Nat := (eng.shardOf a).store.version a

/-- The running balance of an account. -/
def balanceOf (eng : JournalEngine C SHARDS) (a : AccountId) : AccountBalance C :=
  (eng.shardOf a).balances a

/-! ## Posting -/

/-- The accounts of the entries, sorted, adjacent repeats removed. -/
def accounts (entries : List (LedgerEntry C)) : List AccountId :=
  SortDedup.sortDedup (entries.map (·.account))

/-- The shard mutexes of a posting, in the order it takes them. -/
def lockSequence (eng : JournalEngine C SHARDS) (entries : List (LedgerEntry C)) : List (Fin SHARDS) :=
  (accounts entries).map eng.shardIndex

def periodIsClosed (eng : JournalEngine C SHARDS) (period : String) : Bool :=
  match eng.periodStatus period with
  | some .closed | some .locked => true
  | _ => false

/-- Verify the expected version of each account in turn. -/
def checkVersions (eng : JournalEngine C SHARDS) (exp : AccountId → Nat) :
    List AccountId → Except (JournalError C) Unit
  | [] => .ok ()
  | a :: as =>
    if eng.version a ≠ exp a then .error (.conflict a (exp a) (eng.version a))
    else eng.checkVersions exp as

def legEvent (leg : PostedLeg C) : Event AccountId (PostedLeg C) :=
  { aggregateId := leg.account, eventType := "leg-posted", payload := leg }

/-- Append a leg to its account's log and apply it to the balance.  Under a guard the log must
still be at the caller's version. -/
def postLeg (eng : JournalEngine C SHARDS) (expected : Option (AccountId → Nat)) (leg : PostedLeg C) :
    Except (JournalError C) (JournalEngine C SHARDS) :=
  let shard := eng.shardOf leg.account
  match expected with
  | some exp =>
    let want := exp leg.account
    match shard.store.appendVersioned (legEvent leg) (want + 1) with
    | .ok (_, store) =>
      .ok (eng.setShard (eng.shardIndex leg.account) (({ shard with store } : Shard C).applyLeg leg))
    | .error _ => .error (.conflict leg.account want (want + 1))
  | none =>
    let store := (shard.store.append (legEvent leg)).2
    .ok (eng.setShard (eng.shardIndex leg.account) (({ shard with store } : Shard C).applyLeg leg))

/-- The loop over the entries.  It stops at the first leg that conflicts; the legs before it stay. -/
def postLegs (expected : Option (AccountId → Nat)) :
    List (PostedLeg C) → JournalEngine C SHARDS → Except (JournalError C) Unit × JournalEngine C SHARDS
  | [], eng => (.ok (), eng)
  | leg :: legs, eng =>
    match eng.postLeg expected leg with
    | .error e => (.error e, eng)
    | .ok eng' => postLegs expected legs eng'

def leg (tx : Transaction C) (period memo : String) (e : LedgerEntry C) : PostedLeg C :=
  { txId := tx.id, account := e.account, side := e.side, amount := e.amount, period, memo }

/-- The balances to be cached, one per account, when a cache is attached. -/
def payloads (eng : JournalEngine C SHARDS) (entries : List (LedgerEntry C)) :
    List (AccountId × AccountBalance C) :=
  if eng.cache then (accounts entries).map fun a => (a, eng.balanceOf a) else []

/-- What a posting returns, with the engine it leaves; `none` when it never returns. -/
abbrev Posting (C : Type) (SHARDS : Nat) (R : Type) :=
  Option (Except (JournalError C) R × JournalEngine C SHARDS)

def postSync (eng : JournalEngine C SHARDS) (tx : Transaction C) (period memo : String)
    (expected : Option (AccountId → Nat)) :
    Posting C SHARDS (TransactionId × List (AccountId × AccountBalance C)) :=
  -- a shard that is already locked by this call
  if ¬ (eng.lockSequence tx.entries).Nodup then none
  else if eng.periodIsClosed period then some (.error (.periodClosed period), eng)
  else
    match expected.elim (.ok ()) fun exp => eng.checkVersions exp (accounts tx.entries) with
    | .error e => some (.error e, eng)
    | .ok () =>
      match postLegs expected (tx.entries.map (leg tx period memo)) eng with
      | (.error e, eng') => some (.error e, eng')
      | (.ok (), eng') => some (.ok (tx.id, eng'.payloads tx.entries), eng')

/-- The three posting entry points: validate, then `postSync`.  `id` is the new transaction's. -/
def post (eng : JournalEngine C SHARDS) (id : TransactionId) (entries : List (LedgerEntry C))
    (period memo : String) (expected : Option (AccountId → Nat)) : Posting C SHARDS TransactionId :=
  let tx : Transaction C := ⟨id, entries⟩
  match tx.validate with
  | .error e => some (.error (.invalid e), eng)
  | .ok () => (eng.postSync tx period memo expected).map fun r => (r.1.map (·.1), r.2)

/-- Also `post_transaction_sync`, which only skips the cache write. -/
def postTransaction (eng : JournalEngine C SHARDS) (id : TransactionId)
    (entries : List (LedgerEntry C)) (period memo : String) : Posting C SHARDS TransactionId :=
  eng.post id entries period memo none

/-- `expected` is the map of expected versions, 0 for an account it does not name. -/
def postTransactionGuarded (eng : JournalEngine C SHARDS) (id : TransactionId)
    (entries : List (LedgerEntry C)) (period memo : String) (expected : AccountId → Nat) :
    Posting C SHARDS TransactionId :=
  eng.post id entries period memo (some expected)

/-! ## One leg -/

/-- The engine after a leg was appended. -/
def withLeg (eng : JournalEngine C SHARDS) (leg : PostedLeg C) : JournalEngine C SHARDS :=
  let shard := eng.shardOf leg.account
  eng.setShard (eng.shardIndex leg.account)
    (({ shard with store := (shard.store.append (legEvent leg)).2 } : Shard C).applyLeg leg)

theorem postLeg_eq (eng : JournalEngine C SHARDS) (expected : Option (AccountId → Nat))
    (leg : PostedLeg C) :
    eng.postLeg expected leg =
      if ∀ exp ∈ expected, exp leg.account = eng.version leg.account then .ok (eng.withLeg leg)
      else .error (.conflict leg.account ((expected.elim 0 fun exp => exp leg.account))
        ((expected.elim 0 fun exp => exp leg.account) + 1)) := by
  cases expected with
  | none => simp [postLeg, withLeg]
  | some exp =>
    have hv : (eng.shardOf leg.account).store.version (legEvent leg).aggregateId = eng.version leg.account := rfl
    simp only [postLeg, InMemoryEventStore.appendVersioned_eq, hv, Nat.add_right_cancel_iff,
      Option.mem_some_iff, forall_eq', Option.elim_some]
    by_cases h : exp leg.account = eng.version leg.account
    · simp only [h, if_true]; rfl
    · simp only [h, if_false]

theorem withLeg_shards (eng : JournalEngine C SHARDS) (leg : PostedLeg C) (i : Fin SHARDS) :
    (eng.withLeg leg).shards i =
      if i = eng.shardIndex leg.account then
        (({ eng.shards i with store := ((eng.shards i).store.append (legEvent leg)).2 } : Shard C).applyLeg leg)
      else eng.shards i := by
  simp only [withLeg, setShard, shardOf, Function.update_apply]
  split
  · next h => rw [h]
  · rfl

theorem withLeg_log (eng : JournalEngine C SHARDS) (leg : PostedLeg C) (i : Fin SHARDS) :
    ((eng.withLeg leg).shards i).store.log =
      if i = eng.shardIndex leg.account then
        (eng.shards i).store.log ++ [(eng.shards i).store.stored (legEvent leg)]
      else (eng.shards i).store.log := by
  rw [withLeg_shards]
  split
  · exact InMemoryEventStore.append_log ..
  · rfl

theorem withLeg_version (eng : JournalEngine C SHARDS) (leg : PostedLeg C) (a : AccountId) :
    (eng.withLeg leg).version a = if a = leg.account then eng.version a + 1 else eng.version a := by
  show ((eng.withLeg leg).shards (eng.shardIndex a)).store.version a = _
  rw [withLeg_shards]
  by_cases hi : eng.shardIndex a = eng.shardIndex leg.account
  · rw [if_pos hi]
    exact InMemoryEventStore.append_version _ (legEvent leg) a
  · have ha : a ≠ leg.account := fun h => hi (by rw [h])
    rw [if_neg hi, if_neg ha]
    rfl

theorem withLeg_balanceOf (eng : JournalEngine C SHARDS) (leg : PostedLeg C) (a : AccountId) :
    (eng.withLeg leg).balanceOf a =
      if a = leg.account then (eng.balanceOf a).post leg.side leg.amount else eng.balanceOf a := by
  show ((eng.withLeg leg).shards (eng.shardIndex a)).balances a = _
  rw [withLeg_shards]
  by_cases hi : eng.shardIndex a = eng.shardIndex leg.account
  · rw [if_pos hi]
    simp only [Shard.applyLeg, Function.update_apply]
    split
    · next h => rw [h]; rfl
    · rfl
  · have ha : a ≠ leg.account := fun h => hi (by rw [h])
    rw [if_neg hi, if_neg ha]
    rfl

/-! ## The loop over the legs -/

/-- What posting `legs` does to an engine: each is appended once, to the log of its own account's
shard and in order, and the balances move by exactly their amounts. -/
structure Posted (eng eng' : JournalEngine C SHARDS) (legs : List (PostedLeg C)) : Prop where
  log : ∀ i, ((eng'.shards i).store.log).map (·.payload) =
    ((eng.shards i).store.log).map (·.payload) ++ legs.filter fun l => eng.shardIndex l.account = i
  version : ∀ a, eng'.version a = eng.version a + (legs.filter fun l => l.account = a).length
  debits : ∀ a, (eng'.balanceOf a).debits = (eng.balanceOf a).debits +
    ((legs.filter fun l => l.account = a ∧ l.side = .debit).map (·.amount)).sum
  credits : ∀ a, (eng'.balanceOf a).credits = (eng.balanceOf a).credits +
    ((legs.filter fun l => l.account = a ∧ l.side = .credit).map (·.amount)).sum
  frame : eng'.shardIndex = eng.shardIndex ∧ eng'.coa = eng.coa ∧ eng'.cache = eng.cache ∧
    eng'.periodStatus = eng.periodStatus

theorem posted_nil (eng : JournalEngine C SHARDS) : Posted eng eng [] :=
  ⟨fun _ => by simp, fun _ => by simp, fun _ => by simp, fun _ => by simp, rfl, rfl, rfl, rfl⟩

theorem posted_withLeg (eng : JournalEngine C SHARDS) (leg : PostedLeg C) :
    Posted eng (eng.withLeg leg) [leg] := by
  refine ⟨fun i => ?_, fun a => ?_, fun a => ?_, fun a => ?_, rfl, rfl, rfl, rfl⟩
  · rw [withLeg_log]
    by_cases h : i = eng.shardIndex leg.account
    · subst h
      simp [InMemoryEventStore.stored, legEvent]
    · simp [h, Ne.symm h]
  · rw [withLeg_version]
    by_cases h : a = leg.account
    · subst h; simp
    · simp [h, Ne.symm h]
  · rw [withLeg_balanceOf]
    by_cases h : a = leg.account
    · subst h
      cases hs : leg.side <;> simp [AccountBalance.post, hs]
    · simp [h, Ne.symm h]
  · rw [withLeg_balanceOf]
    by_cases h : a = leg.account
    · subst h
      cases hs : leg.side <;> simp [AccountBalance.post, hs]
    · simp [h, Ne.symm h]

/-- Legs posted one group after the other. -/
theorem Posted.append {eng mid eng' : JournalEngine C SHARDS} {l₁ l₂ : List (PostedLeg C)}
    (h₁ : Posted eng mid l₁) (h₂ : Posted mid eng' l₂) : Posted eng eng' (l₁ ++ l₂) := by
  obtain ⟨hi, hc, hca, hp⟩ := h₁.frame
  obtain ⟨hi', hc', hca', hp'⟩ := h₂.frame
  refine ⟨fun i => ?_, fun a => ?_, fun a => ?_, fun a => ?_, hi'.trans hi, hc'.trans hc,
    hca'.trans hca, hp'.trans hp⟩
  · rw [h₂.log i, h₁.log i, hi, List.filter_append, List.append_assoc]
  · rw [h₂.version a, h₁.version a, List.filter_append, List.length_append, Nat.add_assoc]
  · rw [h₂.debits a, h₁.debits a, List.filter_append, List.map_append, List.sum_append, add_assoc]
  · rw [h₂.credits a, h₁.credits a, List.filter_append, List.map_append, List.sum_append, add_assoc]

/-- A loop that comes to its end has posted every leg. -/
theorem postLegs_posted (expected : Option (AccountId → Nat)) (legs : List (PostedLeg C))
    (eng : JournalEngine C SHARDS) (h : (postLegs expected legs eng).1 = .ok ()) :
    Posted eng (postLegs expected legs eng).2 legs := by
  induction legs generalizing eng with
  | nil => exact posted_nil eng
  | cons leg legs ih =>
    simp only [postLegs, postLeg_eq] at h ⊢
    split
    · next err herr =>
      rw [herr] at h
      cases h
    · next eng' hok =>
      rw [hok] at h
      split at hok
      · cases hok
        exact (posted_withLeg eng leg).append (ih _ h)
      · cases hok

/-- Without a guard no leg can conflict. -/
theorem postLegs_none_ok (legs : List (PostedLeg C)) (eng : JournalEngine C SHARDS) :
    (postLegs none legs eng).1 = .ok () := by
  induction legs generalizing eng with
  | nil => rfl
  | cons leg legs ih =>
    simp only [postLegs, postLeg_eq]
    exact ih _

/-- No log ever loses an event, whether the loop ends or stops at a conflict. -/
theorem postLegs_log (expected : Option (AccountId → Nat)) (legs : List (PostedLeg C))
    (eng : JournalEngine C SHARDS) (i : Fin SHARDS) :
    (eng.shards i).store.log <+: ((postLegs expected legs eng).2.shards i).store.log := by
  induction legs generalizing eng with
  | nil => exact List.prefix_rfl
  | cons leg legs ih =>
    simp only [postLegs, postLeg_eq]
    split
    · exact List.prefix_rfl
    · next eng' hok =>
      split at hok
      · cases hok
        refine List.IsPrefix.trans ?_ (ih _)
        rw [withLeg_log]
        split
        · exact List.prefix_append _ _
        · exact List.prefix_rfl
      · cases hok

/-- An unguarded posting of entries that validate waits for itself, or finds the period closed, or posts
every leg. -/
theorem postTransaction_cases (eng : JournalEngine C SHARDS) (id : TransactionId)
    (entries : List (LedgerEntry C)) (period memo : String)
    (hv : (⟨id, entries⟩ : Transaction C).validate = .ok ()) :
    (¬ (eng.lockSequence entries).Nodup ∧ eng.postTransaction id entries period memo = none) ∨
    ((eng.lockSequence entries).Nodup ∧ eng.periodIsClosed period = true ∧
      eng.postTransaction id entries period memo = some (.error (.periodClosed period), eng)) ∨
    ((eng.lockSequence entries).Nodup ∧ eng.periodIsClosed period = false ∧ ∃ eng',
      eng.postTransaction id entries period memo = some (.ok id, eng') ∧
        Posted eng eng' (entries.map (leg ⟨id, entries⟩ period memo))) := by
  unfold postTransaction post
  dsimp only
  rw [hv]
  dsimp only
  unfold postSync
  dsimp only
  by_cases hn : (eng.lockSequence entries).Nodup
  · right
    rw [if_neg (not_not.mpr hn)]
    by_cases hp : eng.periodIsClosed period = true
    · left
      rw [if_pos hp]
      exact ⟨hn, hp, rfl⟩
    · right
      rw [if_neg hp]
      have hok := postLegs_none_ok (entries.map (leg ⟨id, entries⟩ period memo)) eng
      have hposted := postLegs_posted none (entries.map (leg ⟨id, entries⟩ period memo)) eng hok
      rcases hr : postLegs none (entries.map (leg ⟨id, entries⟩ period memo)) eng with ⟨res, eng'⟩
      rw [hr] at hok hposted
      obtain rfl : res = .ok () := hok
      refine ⟨hn, by simpa using hp, eng', ?_, hposted⟩
      dsimp only [Option.elim_none]
      rfl
  · left
    rw [if_pos hn]
    exact ⟨hn, rfl⟩

end JournalEngine

end TptErp.Gl
