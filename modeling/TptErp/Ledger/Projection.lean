import TptErp.Ledger.Reload
import TptErp.Ledger.DoubleEntry
import TptErp.Lib.AssocMap
import Mathlib.Algebra.BigOperators.Group.List.Lemmas
import Mathlib.Tactic.Ring
import Mathlib.Tactic.Linarith

/-!
# Projections

A projector folds events into a read model.  `replay` folds a whole log and gives the read model up
at the first event that fails; a caller that applies the events itself (`applyEach`) still has it then.

`BalanceProjection` keeps the balance of every account:

    balance a = credits of a − debits of a        (balance_replay)

An unbalanced transaction fails before it changes anything.
-/

namespace TptErp.Ledger

/-! ## The engine -/

section
variable {S E Err : Type} (apply : S → E → Except Err Unit × S)

/-- What is left when a failed application gives the read model up. -/
def result : Except Err Unit × S → Except Err S
  | (.ok (), p) => .ok p
  | (.error err, _) => .error err

/-- `replay`: every event in order, up to the first that fails. -/
def replay (projector : S) : List E → Except Err S
  | [] => .ok projector
  | ev :: events =>
    match apply projector ev with
    | (.ok (), p) => replay p events
    | (.error err, _) => .error err

/-- The events applied one after the other by a caller that stops at the first failure. -/
def applyEach (projector : S) : List E → Except Err Unit × S
  | [] => (.ok (), projector)
  | ev :: events =>
    match apply projector ev with
    | (.ok (), p) => applyEach p events
    | (.error err, p) => (.error err, p)

theorem replay_eq (p : S) (events : List E) : replay apply p events = result (applyEach apply p events) := by
  induction events generalizing p with
  | nil => rfl
  | cons ev events ih =>
    unfold replay applyEach
    match apply p ev with
    | (.ok (), p') => exact ih p'
    | (.error err, p') => rfl

/-- Applying more events after a part that went well. -/
theorem applyEach_append {p p' : S} {events : List E} (h : applyEach apply p events = (.ok (), p')) (rest : List E) :
    applyEach apply p (events ++ rest) = applyEach apply p' rest := by
  induction events generalizing p with
  | nil =>
    obtain rfl : p = p' := congrArg Prod.snd h
    rfl
  | cons ev events ih =>
    rw [List.cons_append]
    rw [applyEach] at h ⊢
    match hr : apply p ev with
    | (.ok (), q) =>
      rw [hr] at h
      exact ih h
    | (.error err, q) =>
      rw [hr] at h
      cases h

theorem foldlM_convert {X : Type} {convert : X → Except Err E} {xs : List X} {events : List E}
    (h : xs.map convert = events.map .ok) (p : S) :
    xs.foldlM (fun p x => convert x >>= fun ev => result (apply p ev)) p = result (applyEach apply p events) := by
  induction xs generalizing p events with
  | nil =>
    obtain rfl : events = [] := List.map_eq_nil_iff.mp h.symm
    rfl
  | cons x xs ih =>
    cases events with
    | nil => cases h
    | cons ev events =>
      obtain ⟨hx, hrest⟩ := List.cons_eq_cons.mp h
      rw [List.foldlM_cons, hx]
      unfold applyEach
      show (result (apply p ev) >>= _) = _
      match apply p ev with
      | (.ok (), p') => exact ih hrest p'
      | (.error err, p') => rfl

/-- Replaying the first stored events is applying the first events. -/
theorem replayPointInTime_eq {A V : Type} {log : List (StoredEvent A (Stamped V))} {events : List E}
    {convert : StoredEvent A (Stamped V) → Except Err E} (h : log.map convert = events.map .ok) (p : S) (n : Nat) :
    Durable.replayPointInTime (fun p ev => result (apply p ev)) p log n convert =
      result (applyEach apply p (events.take n)) := by
  have htake : (log.take (min log.length n)).map convert = (events.take n).map .ok := by
    rw [min_comm, ← List.take_eq_take_min, List.map_take, List.map_take, h]
  exact foldlM_convert apply htake p

end

/-! ## Balances -/

/-- What a ledger stream carries. -/
inductive LedgerEvent (C : Type)
  | transactionPosted (tx : Transaction C)

inductive ProjectionError (C : Type)
  | deserialize (message : String)
  | unbalanced (debits credits : Money C)

/-- The running balance of every account that was posted to. -/
structure BalanceProjection (C : Type) where
  balances : AssocMap AccountId (Money C) := ∅

variable {C : Type}

namespace BalanceProjection

def balanceOf (p : BalanceProjection C) (account : AccountId) : Money C := AssocMap.getD p.balances account 0

/-- One entry: a debit decreases the balance, a credit increases it. -/
def post (balances : AssocMap AccountId (Money C)) (entry : LedgerEntry C) : AssocMap AccountId (Money C) :=
  let bal := AssocMap.getD balances entry.account 0
  balances.insert entry.account
    (match entry.side with
    | .debit => bal - entry.amount
    | .credit => bal + entry.amount)

def apply (p : BalanceProjection C) : LedgerEvent C → Except (ProjectionError C) Unit × BalanceProjection C
  | .transactionPosted tx =>
    if tx.isBalanced then (.ok (), { balances := tx.entries.foldl post p.balances })
    else (.error (.unbalanced tx.debits tx.credits), p)

end BalanceProjection

/-! ## What a list of events posts -/

namespace LedgerEvent

/-- Debits and credits are equal. -/
def Balanced : LedgerEvent C → Prop
  | .transactionPosted tx => tx.debits = tx.credits

def entries : LedgerEvent C → List (LedgerEntry C)
  | .transactionPosted tx => tx.entries

end LedgerEvent

/-- The amounts posted to an account on one side. -/
def posted (events : List (LedgerEvent C)) (account : AccountId) (side : EntrySide) : Money C :=
  (((events.flatMap (·.entries)).filter fun e => e.account = account ∧ e.side = side).map (·.amount)).sum

/-- An entry as it changes a balance. -/
def LedgerEntry.signed (e : LedgerEntry C) : Money C :=
  match e.side with
  | .debit => -e.amount
  | .credit => e.amount

theorem sum_signed (entries : List (LedgerEntry C)) :
    (entries.map (·.signed)).sum =
      ((entries.filter fun e => e.side = .credit).map (·.amount)).sum -
        ((entries.filter fun e => e.side = .debit).map (·.amount)).sum := by
  induction entries with
  | nil => exact (sub_zero 0).symm
  | cons e entries ih =>
    rw [List.map_cons, List.sum_cons, ih]
    obtain ⟨account, side, amount⟩ := e
    cases side with
    | debit => simp [LedgerEntry.signed]; ring
    | credit => simp [LedgerEntry.signed]; ring

/-- The entries of a balanced transaction change the balances by nothing in all. -/
theorem sum_signed_of_balanced {tx : Transaction C} (h : tx.debits = tx.credits) :
    (tx.entries.map (·.signed)).sum = 0 := by
  unfold Transaction.debits Transaction.credits at h
  rw [Transaction.total_eq_sum, Transaction.total_eq_sum] at h
  rw [sum_signed, h, sub_self]

theorem sum_signed_events {events : List (LedgerEvent C)} (h : ∀ e ∈ events, e.Balanced) :
    ((events.flatMap (·.entries)).map (·.signed)).sum = 0 := by
  induction events with
  | nil => rfl
  | cons e events ih =>
    obtain ⟨tx⟩ := e
    rw [List.flatMap_cons, List.map_append, List.sum_append, ih fun e he => h e (List.mem_cons_of_mem _ he), add_zero]
    exact sum_signed_of_balanced (h _ List.mem_cons_self)

/-! ## Posting entries -/

namespace BalanceProjection

/-- The balance of an account after a list of entries. -/
theorem getD_foldl_post (entries : List (LedgerEntry C)) (m : AssocMap AccountId (Money C)) (account : AccountId) :
    AssocMap.getD (entries.foldl post m) account 0 =
      AssocMap.getD m account 0 + ((entries.filter fun e => e.account = account).map (·.signed)).sum := by
  induction entries generalizing m with
  | nil => exact (add_zero _).symm
  | cons e entries ih =>
    rw [List.foldl_cons, ih, post, AssocMap.getD_insert_eq]
    by_cases h : e.account = account
    · rw [if_pos h.symm, List.filter_cons_of_pos (by simpa using h), List.map_cons, List.sum_cons, ← add_assoc, h]
      congr 1
      unfold LedgerEntry.signed
      cases e.side with
      | debit => exact sub_eq_add_neg _ _
      | credit => rfl
    · rw [if_neg (Ne.symm h), List.filter_cons_of_neg (by simpa using h)]

theorem mem_foldl_post (entries : List (LedgerEntry C)) (m : AssocMap AccountId (Money C)) (account : AccountId) :
    account ∈ entries.foldl post m ↔ account ∈ m ∨ ∃ e ∈ entries, e.account = account := by
  induction entries generalizing m with
  | nil => simp
  | cons e entries ih =>
    rw [List.foldl_cons, ih, post, AList.mem_insert]
    constructor
    · rintro ((rfl | h) | ⟨e', he', h⟩)
      · exact .inr ⟨e, List.mem_cons_self, rfl⟩
      · exact .inl h
      · exact .inr ⟨e', List.mem_cons_of_mem _ he', h⟩
    · rintro (h | ⟨e', he', h⟩)
      · exact .inl (.inr h)
      · rcases List.mem_cons.mp he' with rfl | he'
        · exact .inl (.inl h.symm)
        · exact .inr ⟨e', he', h⟩

/-- Entries posted in another order leave the same balances. -/
theorem lookup_foldl_post_perm {xs ys : List (LedgerEntry C)} (h : xs.Perm ys) (m : AssocMap AccountId (Money C))
    (account : AccountId) : (xs.foldl post m).lookup account = (ys.foldl post m).lookup account := by
  have hmem : account ∈ xs.foldl post m ↔ account ∈ ys.foldl post m := by
    rw [mem_foldl_post, mem_foldl_post]
    simp only [h.mem_iff]
  have hbal : AssocMap.getD (xs.foldl post m) account 0 = AssocMap.getD (ys.foldl post m) account 0 := by
    rw [getD_foldl_post, getD_foldl_post, ((h.filter _).map _).sum_eq]
  unfold AssocMap.getD at hbal
  rw [← AList.lookup_isSome, ← AList.lookup_isSome] at hmem
  cases hx : (xs.foldl post m).lookup account with
  | none => cases hy : (ys.foldl post m).lookup account <;> simp_all
  | some v => cases hy : (ys.foldl post m).lookup account <;> simp_all

theorem sumOf_foldl_post (entries : List (LedgerEntry C)) (m : AssocMap AccountId (Money C)) :
    AssocMap.sumOf id (entries.foldl post m) = AssocMap.sumOf id m + (entries.map (·.signed)).sum := by
  induction entries generalizing m with
  | nil => exact (add_zero _).symm
  | cons e entries ih =>
    rw [List.foldl_cons, ih, List.map_cons, List.sum_cons, ← add_assoc]
    congr 1
    unfold post LedgerEntry.signed
    cases e.side with
    | debit =>
      have := AssocMap.sumOf_insert id m e.account (AssocMap.getD m e.account 0 - e.amount) (d := 0) rfl
      simp only [id] at this ⊢
      linarith
    | credit =>
      have := AssocMap.sumOf_insert id m e.account (AssocMap.getD m e.account 0 + e.amount) (d := 0) rfl
      simp only [id] at this ⊢
      linarith

/-! ## Replaying -/

theorem apply_of_balanced (p : BalanceProjection C) {e : LedgerEvent C} (h : e.Balanced) :
    p.apply e = (.ok (), { balances := e.entries.foldl post p.balances }) := by
  obtain ⟨tx⟩ := e
  have hb : tx.isBalanced := decide_eq_true h
  exact if_pos hb

/-- An unbalanced transaction changes nothing. -/
theorem apply_of_unbalanced (p : BalanceProjection C) {tx : Transaction C} (h : tx.debits ≠ tx.credits) :
    p.apply (.transactionPosted tx) = (.error (.unbalanced tx.debits tx.credits), p) := by
  have hb : ¬ tx.isBalanced := by simpa [Transaction.isBalanced] using h
  exact if_neg hb

/-- Balanced events post all their entries. -/
theorem applyEach_of_balanced (p : BalanceProjection C) {events : List (LedgerEvent C)} (h : ∀ e ∈ events, e.Balanced) :
    applyEach apply p events = (.ok (), { balances := (events.flatMap (·.entries)).foldl post p.balances }) := by
  induction events generalizing p with
  | nil => rfl
  | cons e events ih =>
    rw [applyEach, apply_of_balanced p (h e List.mem_cons_self)]
    dsimp only
    rw [ih _ fun e he => h e (List.mem_cons_of_mem _ he), List.flatMap_cons, List.foldl_append]

end BalanceProjection

/-- What replaying balanced events leaves. -/
structure SumsUp (events : List (LedgerEvent C)) (p : BalanceProjection C) : Prop where
  balance : ∀ account, p.balanceOf account = posted events account .credit - posted events account .debit
  zeroSum : AssocMap.sumOf id p.balances = 0
  anyOrder : ∀ events', events'.Perm events → ∃ p', replay BalanceProjection.apply {} events' = .ok p' ∧
    ∀ account, p'.balances.lookup account = p.balances.lookup account

theorem sumsUp {events : List (LedgerEvent C)} (h : ∀ e ∈ events, e.Balanced) :
    SumsUp events { balances := (events.flatMap (·.entries)).foldl BalanceProjection.post ∅ } where
  balance account := by
    show AssocMap.getD _ _ _ = _
    rw [BalanceProjection.getD_foldl_post, sum_signed, List.filter_filter, List.filter_filter]
    unfold posted
    simp [AssocMap.getD, and_comm]
  zeroSum := by
    rw [BalanceProjection.sumOf_foldl_post, sum_signed_events h]
    exact add_zero 0
  anyOrder events' hp := by
    have h' : ∀ e ∈ events', e.Balanced := fun e he => h e (hp.mem_iff.mp he)
    refine ⟨_, by rw [replay_eq, BalanceProjection.applyEach_of_balanced {} h']; rfl, fun account => ?_⟩
    exact BalanceProjection.lookup_foldl_post_perm (hp.flatMap_right _) ∅ account

/-- **Replaying balances** fails at the first unbalanced transaction, with the balances as they were before it; when
there is none it sums the credits less the debits of each account, in any order; and a replay up to a point in time is
the application of the events up to it. -/
theorem balance_replay (events : List (LedgerEvent C)) :
    (∀ before tx after, events = before ++ .transactionPosted tx :: after → (∀ e ∈ before, e.Balanced) →
      tx.debits ≠ tx.credits → ∃ p, applyEach BalanceProjection.apply {} before = (.ok (), p) ∧
        applyEach BalanceProjection.apply {} events = (.error (.unbalanced tx.debits tx.credits), p) ∧
        replay BalanceProjection.apply {} events = .error (.unbalanced tx.debits tx.credits)) ∧
    ((∀ e ∈ events, e.Balanced) → ∃ p, applyEach BalanceProjection.apply {} events = (.ok (), p) ∧
      replay BalanceProjection.apply {} events = .ok p ∧ SumsUp events p) ∧
    ∀ (A V : Type) (log : List (StoredEvent A (Stamped V)))
      (convert : StoredEvent A (Stamped V) → Except (ProjectionError C) (LedgerEvent C)) (n : Nat),
      log.map convert = events.map .ok →
        Durable.replayPointInTime (fun p e => result (BalanceProjection.apply p e)) {} log n convert =
          result (applyEach BalanceProjection.apply {} (events.take n)) := by
  refine ⟨fun before tx after he hb hu => ?_, fun h => ?_, fun A V log convert n h => ?_⟩
  · obtain ⟨p, hbefore⟩ : ∃ p, applyEach BalanceProjection.apply {} before = (.ok (), p) :=
      ⟨_, BalanceProjection.applyEach_of_balanced {} hb⟩
    have hfail : applyEach BalanceProjection.apply {} events = (.error (.unbalanced tx.debits tx.credits), p) := by
      rw [he, applyEach_append _ hbefore, applyEach, BalanceProjection.apply_of_unbalanced p hu]
    exact ⟨p, hbefore, hfail, by rw [replay_eq, hfail]; rfl⟩
  · have hall := BalanceProjection.applyEach_of_balanced {} h
    exact ⟨_, hall, by rw [replay_eq, hall]; rfl, sumsUp h⟩
  · exact replayPointInTime_eq _ h _ n

end TptErp.Ledger
