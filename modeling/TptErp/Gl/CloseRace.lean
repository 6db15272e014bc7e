import TptErp.Gl.Close
import TptErp.Lib.Threads

/-!
# Postings racing a close

`post_sync` locks the shards of its accounts, reads the period's status under the status mutex,
which it releases at once, and then appends its legs under the shard locks.  `set_period_status`
takes the status mutex only.  Here the postings and the status changes are interleaved, one lock,
one check or one leg at a time; a posting that runs alone does what `postSync` does (`runs_alone`).

`closed_stays_final`: when no period is closed while a posting to it is past its check, no leg is
appended to a closed period.  `append_after_close` is the run in which one is.
-/

namespace TptErp.Gl

open Ledger

variable {C : Type} {SHARDS : Nat}

/-- The arguments of `post_sync`. -/
structure PostingCall (C : Type) where
  tx : Transaction C
  period : String
  memo : String
  expected : Option (AccountId → Nat)

/-- The engine, and which shard mutexes are held. -/
structure PostingCore (C : Type) (SHARDS : Nat) where
  engine : JournalEngine C SHARDS
  locked : Fin SHARDS → Bool := fun _ => false

inductive PostingInstr (C : Type) (SHARDS : Nat)
  | start (p : PostingCall C)
  | lock (i : Fin SHARDS)
  | checkPeriod (p : PostingCall C)
  | checkVersions (p : PostingCall C)
  | append (p : PostingCall C) (legs : List (PostedLeg C))
  | unlock (i : Fin SHARDS)
  | setStatus (period : String) (status : PeriodStatus)

/-- A posting by any entry point, or a change of a period's status (what `close` and `lock` of the
workflow do to the engine). -/
inductive PostingOp (C : Type)
  | post (p : PostingCall C)
  | setPeriodStatus (period : String) (status : PeriodStatus)

namespace PostingInstr

def prog : PostingOp C → List (PostingInstr C SHARDS)
  | .post p =>
    match p.tx.validate with
    | .ok () => [.start p]
    | .error _ => []
  | .setPeriodStatus period status => [.setStatus period status]

/-- The guards are dropped when `post_sync` returns. -/
def unlocks (c : PostingCore C SHARDS) (p : PostingCall C) : List (PostingInstr C SHARDS) :=
  (c.engine.lockSequence p.tx.entries).map unlock

def instr (c : PostingCore C SHARDS) :
    PostingInstr C SHARDS → Unit → Option (PostingCore C SHARDS × List (PostingInstr C SHARDS))
  | .start p, _ => some (c, (c.engine.lockSequence p.tx.entries).map lock ++ [.checkPeriod p])
  | .lock i, _ => if c.locked i then none else some ({ c with locked := Function.update c.locked i true }, [])
  | .checkPeriod p, _ =>
    some (c, if c.engine.periodIsClosed p.period then unlocks c p else [.checkVersions p])
  | .checkVersions p, _ =>
    match p.expected.elim (.ok ()) fun exp => c.engine.checkVersions exp (JournalEngine.accounts p.tx.entries) with
    | .error _ => some (c, unlocks c p)
    | .ok () => some (c, [.append p (p.tx.entries.map (JournalEngine.leg p.tx p.period p.memo))])
  | .append p [], _ => some (c, unlocks c p)
  | .append p (leg :: legs), _ =>
    match c.engine.postLeg p.expected leg with
    | .error _ => some (c, unlocks c p)
    | .ok engine => some ({ c with engine }, [.append p legs])
  | .unlock i, _ => some ({ c with locked := Function.update c.locked i false }, [])
  | .setStatus period status, _ => some ({ c with engine := c.engine.setPeriodStatus period status }, [])

/-- Legs of that period are still to be appended, the period check being past. -/
def Posts (period : String) : PostingInstr C SHARDS → Prop
  | .checkVersions p => p.period = period
  | .append _ legs => ∃ leg ∈ legs, leg.period = period
  | _ => False

/-- `Posts`, computed. -/
def posts (period : String) : PostingInstr C SHARDS → Bool
  | .checkVersions p => p.period = period
  | .append _ legs => legs.any fun leg => leg.period = period
  | _ => false

theorem posts_iff (period : String) (i : PostingInstr C SHARDS) : i.posts period = true ↔ i.Posts period := by
  cases i with
  | checkVersions p => exact decide_eq_true_iff
  | append p legs => simp only [posts, Posts, List.any_eq_true, decide_eq_true_eq]
  | _ => exact iff_of_false Bool.false_ne_true id

end PostingInstr

/-- Postings and status changes, interleaved. -/
def postings (C : Type) (SHARDS : Nat) :
    Machine (PostingCore C SHARDS) (PostingInstr C SHARDS) Unit (PostingOp C) Unit :=
  { prog := PostingInstr.prog, instr := PostingInstr.instr, env := fun c _ => c }

namespace PostingCore

abbrev PostingState (C : Type) (SHARDS : Nat) := Machine.State (PostingCore C SHARDS) (PostingInstr C SHARDS)

abbrev PostingLabel (C : Type) := Machine.Label Unit (PostingOp C) Unit

/-- The legs of a period in the log of one shard. -/
def legsOf (c : PostingCore C SHARDS) (i : Fin SHARDS) (period : String) : List (PostedLeg C) :=
  ((c.engine.shards i).store.log.map (·.payload)).filter fun leg => leg.period = period

/-- Every step leaves the legs of every period that is closed or locked as they are. -/
def StaysFinal (w : PostingState C SHARDS) (labels : List (PostingLabel C)) : Prop :=
  LabelledRun.AllSteps (postings C SHARDS).step (fun u a => ∀ t, (postings C SHARDS).step u a = some t →
    ∀ period, u.core.engine.periodIsClosed period = true → ∀ i, t.core.legsOf i period = u.core.legsOf i period)
    w labels

/-- A status change that closes or locks a period finds no posting that is past its check with legs
of the period still to append. -/
def ClosesQuietly (u : PostingState C SHARDS) (a : PostingLabel C) : Prop :=
  ∀ th choice period status, a = .run th choice → Machine.Next u th (.setStatus period status) →
    status.isFinal = true → ∀ prog ∈ u.threads, ∀ i ∈ prog, ¬ PostingInstr.Posts period i

/-! ## A posting alone -/

theorem runsAlone_instr {c c' : PostingCore C SHARDS} {i : PostingInstr C SHARDS}
    {rest : List (PostingInstr C SHARDS)} (c₁ : PostingCore C SHARDS) (more : List (PostingInstr C SHARDS))
    (hi : PostingInstr.instr c i () = some (c₁, more))
    (h : (postings C SHARDS).RunsAlone c₁ (more ++ rest) c') : (postings C SHARDS).RunsAlone c (i :: rest) c' :=
  Machine.runsAlone_cons (postings C SHARDS) () c₁ more hi h

/-- Locking free shards, one after the other. -/
theorem runsAlone_lock {c c' : PostingCore C SHARDS} {is : List (Fin SHARDS)}
    {rest : List (PostingInstr C SHARDS)} (hn : is.Nodup) (hf : ∀ i ∈ is, c.locked i = false)
    (h : (postings C SHARDS).RunsAlone { c with locked := fun j => decide (j ∈ is) || c.locked j } rest c') :
    (postings C SHARDS).RunsAlone c (is.map PostingInstr.lock ++ rest) c' := by
  induction is generalizing c with
  | nil => exact h
  | cons i is ih =>
    obtain ⟨hi, hn⟩ := List.nodup_cons.mp hn
    refine runsAlone_instr { c with locked := Function.update c.locked i true } [] ?_ ?_
    · simp only [PostingInstr.instr, hf i List.mem_cons_self]
      rfl
    · apply ih hn
      · intro j hj
        show Function.update c.locked i true j = false
        have hji : j ≠ i := fun he => hi (he ▸ hj)
        rw [Function.update_of_ne hji]
        exact hf j (List.mem_cons_of_mem _ hj)
      · have hl : (fun j => decide (j ∈ is) || Function.update c.locked i true j) =
            fun j => decide (j ∈ i :: is) || c.locked j := by
          funext j
          by_cases hji : j = i
          · simp [hji]
          · simp [hji]
        show (postings C SHARDS).RunsAlone { c with locked := fun j => _ || Function.update c.locked i true j } _ _
        rw [hl]
        exact h

/-- Dropping the guards. -/
theorem runsAlone_unlock (c : PostingCore C SHARDS) (is : List (Fin SHARDS)) :
    (postings C SHARDS).RunsAlone c (is.map PostingInstr.unlock)
      { c with locked := fun j => !decide (j ∈ is) && c.locked j } := by
  induction is generalizing c with
  | nil =>
    simp only [List.map_nil, List.not_mem_nil, decide_false, Bool.not_false, Bool.true_and]
    exact Machine.runsAlone_nil _ c
  | cons i is ih =>
    refine runsAlone_instr { c with locked := Function.update c.locked i false } [] rfl ?_
    have hl : (fun j => !decide (j ∈ is) && Function.update c.locked i false j) =
        fun j => !decide (j ∈ i :: is) && c.locked j := by
      funext j
      by_cases hji : j = i
      · simp [hji]
      · simp [hji]
    rw [← hl]
    exact ih { c with locked := Function.update c.locked i false }

/-- The loop over the legs, and then the guards. -/
theorem runsAlone_append (c : PostingCore C SHARDS) (p : PostingCall C) (legs : List (PostedLeg C)) :
    (postings C SHARDS).RunsAlone c [.append p legs]
      { engine := (JournalEngine.postLegs p.expected legs c.engine).2
        locked := fun j => !decide (j ∈ c.engine.lockSequence p.tx.entries) && c.locked j } := by
  induction legs generalizing c with
  | nil =>
    refine runsAlone_instr _ (PostingInstr.unlocks c p) rfl ?_
    rw [List.append_nil]
    exact runsAlone_unlock c _
  | cons leg legs ih =>
    unfold JournalEngine.postLegs
    cases hp : c.engine.postLeg p.expected leg with
    | error e =>
      refine runsAlone_instr c (PostingInstr.unlocks c p) ?_ ?_
      · simp only [PostingInstr.instr, hp]
      · rw [List.append_nil]
        exact runsAlone_unlock c _
    | ok engine =>
      refine runsAlone_instr { c with engine } [.append p legs] ?_ ?_
      · simp only [PostingInstr.instr, hp]
      · have hs : engine.lockSequence p.tx.entries = c.engine.lockSequence p.tx.entries := by
          rw [JournalEngine.postLeg_eq] at hp
          split at hp
          · cases hp
            rfl
          · cases hp
        have h := ih { c with engine }
        rw [hs] at h
        exact h

/-- The core of a posting that holds its shards. -/
def holding (eng : JournalEngine C SHARDS) (p : PostingCall C) : PostingCore C SHARDS :=
  { engine := eng, locked := fun j => decide (j ∈ eng.lockSequence p.tx.entries) }

theorem runsAlone_holding {eng : JournalEngine C SHARDS} {p : PostingCall C} {rest : List (PostingInstr C SHARDS)}
    {c' : PostingCore C SHARDS} (hn : (eng.lockSequence p.tx.entries).Nodup)
    (h : (postings C SHARDS).RunsAlone (holding eng p) rest c') :
    (postings C SHARDS).RunsAlone { engine := eng }
      ((eng.lockSequence p.tx.entries).map PostingInstr.lock ++ rest) c' := by
  apply runsAlone_lock hn fun _ _ => rfl
  simp only [Bool.or_false]
  exact h

theorem runsAlone_drop (eng : JournalEngine C SHARDS) (p : PostingCall C) :
    (postings C SHARDS).RunsAlone (holding eng p) (PostingInstr.unlocks (holding eng p) p) { engine := eng } := by
  have h := runsAlone_unlock (holding eng p) (eng.lockSequence p.tx.entries)
  simp only [holding, Bool.not_and_self] at h
  exact h

theorem runsAlone_legs (eng : JournalEngine C SHARDS) (p : PostingCall C) (legs : List (PostedLeg C)) :
    (postings C SHARDS).RunsAlone (holding eng p) [.append p legs]
      { engine := (JournalEngine.postLegs p.expected legs eng).2 } := by
  have h := runsAlone_append (holding eng p) p legs
  have hfree : (fun j => !decide (j ∈ eng.lockSequence p.tx.entries) && decide (j ∈ eng.lockSequence p.tx.entries)) =
      fun _ => false := by
    funext j
    exact Bool.not_and_self _
  rw [show (fun j => !decide (j ∈ (holding eng p).engine.lockSequence p.tx.entries) && (holding eng p).locked j) =
    fun _ => false from hfree] at h
  exact h

/-- **A posting that runs alone** on an engine whose shards are free does what `postSync` does, and
frees the shards. -/
theorem runs_alone (eng : JournalEngine C SHARDS) (p : PostingCall C) (hv : p.tx.validate = .ok ())
    {r : Except (JournalError C) (TransactionId × List (AccountId × AccountBalance C))}
    {eng' : JournalEngine C SHARDS} (h : eng.postSync p.tx p.period p.memo p.expected = some (r, eng')) :
    (postings C SHARDS).RunsAlone { engine := eng } (PostingInstr.prog (.post p)) { engine := eng' } := by
  have hprog : PostingInstr.prog (.post p) = [(.start p : PostingInstr C SHARDS)] := by
    simp only [PostingInstr.prog, hv]
  rw [hprog]
  simp only [JournalEngine.postSync] at h
  split at h
  · cases h
  · next hn =>
    refine runsAlone_instr _ ((eng.lockSequence p.tx.entries).map PostingInstr.lock ++ [.checkPeriod p])
      rfl ?_
    rw [List.append_nil]
    refine runsAlone_holding (not_not.mp hn) ?_
    split at h
    · next hp =>
      cases h
      refine runsAlone_instr (holding eng p) (PostingInstr.unlocks (holding eng p) p) ?_ ?_
      · show some (holding eng p, if eng.periodIsClosed p.period then _ else _) = _
        rw [if_pos hp]
      · rw [List.append_nil]
        exact runsAlone_drop eng p
    · next hp =>
      refine runsAlone_instr (holding eng p) [.checkVersions p] ?_ ?_
      · show some (holding eng p, if eng.periodIsClosed p.period then _ else _) = _
        rw [if_neg hp]
      · split at h
        · next e hc =>
          cases h
          refine runsAlone_instr (holding eng p) (PostingInstr.unlocks (holding eng p) p) ?_ ?_
          · simp only [PostingInstr.instr, holding, hc]
          · show (postings C SHARDS).RunsAlone (holding eng p) (PostingInstr.unlocks (holding eng p) p ++ []) _
            rw [List.append_nil]
            exact runsAlone_drop eng p
        · next hc =>
          refine runsAlone_instr (holding eng p)
            [.append p (p.tx.entries.map (JournalEngine.leg p.tx p.period p.memo))] ?_ ?_
          · simp only [PostingInstr.instr, holding, hc]
          · have ha := runsAlone_legs eng p (p.tx.entries.map (JournalEngine.leg p.tx p.period p.memo))
            split at h
            · next hl =>
              cases h
              rw [hl] at ha
              exact ha
            · next hl =>
              cases h
              rw [hl] at ha
              exact ha

/-! ## Closing quietly -/

theorem not_posts_unlocks (c : PostingCore C SHARDS) (p : PostingCall C) {j : PostingInstr C SHARDS}
    (hj : j ∈ PostingInstr.unlocks c p) (period : String) : ¬ PostingInstr.Posts period j := by
  obtain ⟨s, -, rfl⟩ := List.mem_map.mp hj
  exact fun h => h

theorem legsOf_withLeg (eng : JournalEngine C SHARDS) (locked : Fin SHARDS → Bool) (leg : PostedLeg C)
    (s : Fin SHARDS) {period : String} (h : leg.period ≠ period) :
    legsOf { engine := eng.withLeg leg, locked } s period = legsOf { engine := eng, locked } s period := by
  unfold legsOf
  rw [JournalEngine.withLeg_log]
  split
  · simp [InMemoryEventStore.stored, JournalEngine.legEvent, h]
  · rfl

/-- **What an instruction does.**  It sets a status; or it keeps the statuses, what it goes on with
posts to a period that the instruction posted to itself or has just found open, and it appends legs
of a period it posts to. -/
theorem instr_cases {c c' : PostingCore C SHARDS} {i : PostingInstr C SHARDS} {k : Unit}
    {more : List (PostingInstr C SHARDS)} (h : PostingInstr.instr c i k = some (c', more)) :
    (∃ period status, i = .setStatus period status ∧
      c' = { c with engine := c.engine.setPeriodStatus period status } ∧ more = []) ∨
    (c'.engine.periodStatus = c.engine.periodStatus ∧
      (∀ j ∈ more, ∀ period, PostingInstr.Posts period j →
        PostingInstr.Posts period i ∨ c.engine.periodIsClosed period = false) ∧
      ∀ s period, PostingInstr.Posts period i ∨ c'.legsOf s period = c.legsOf s period) := by
  cases i with
  | setStatus period status =>
    cases h
    exact Or.inl ⟨period, status, rfl, rfl, rfl⟩
  | start p =>
    right
    cases h
    refine ⟨rfl, fun j hj period hp => ?_, fun _ _ => Or.inr rfl⟩
    rcases List.mem_append.mp hj with hj | hj
    · obtain ⟨s, -, rfl⟩ := List.mem_map.mp hj
      exact absurd hp id
    · rw [List.mem_singleton.mp hj] at hp
      exact absurd hp id
  | lock s =>
    right
    simp only [PostingInstr.instr] at h
    split at h
    · cases h
    · cases h
      exact ⟨rfl, List.forall_mem_nil _, fun _ _ => Or.inr rfl⟩
  | unlock s =>
    right
    cases h
    exact ⟨rfl, List.forall_mem_nil _, fun _ _ => Or.inr rfl⟩
  | checkPeriod p =>
    right
    cases h
    refine ⟨rfl, fun j hj period hp => ?_, fun _ _ => Or.inr rfl⟩
    split at hj
    · exact absurd hp (not_posts_unlocks c p hj period)
    · next hopen =>
      right
      rw [List.mem_singleton.mp hj] at hp
      obtain rfl : p.period = period := hp
      exact Bool.not_eq_true _ ▸ hopen
  | checkVersions p =>
    right
    simp only [PostingInstr.instr] at h
    split at h
    · cases h
      exact ⟨rfl, fun j hj period hp => absurd hp (not_posts_unlocks c p hj period), fun _ _ => Or.inr rfl⟩
    · cases h
      refine ⟨rfl, fun j hj period hp => Or.inl ?_, fun _ _ => Or.inr rfl⟩
      rw [List.mem_singleton.mp hj] at hp
      obtain ⟨leg, hl, rfl⟩ := hp
      obtain ⟨e, -, rfl⟩ := List.mem_map.mp hl
      rfl
  | append p legs =>
    right
    cases legs with
    | nil =>
      cases h
      exact ⟨rfl, fun j hj period hp => absurd hp (not_posts_unlocks c p hj period), fun _ _ => Or.inr rfl⟩
    | cons leg legs =>
      simp only [PostingInstr.instr, JournalEngine.postLeg_eq] at h
      by_cases hv : ∀ exp ∈ p.expected, exp leg.account = c.engine.version leg.account
      · rw [if_pos hv] at h
        cases h
        refine ⟨rfl, fun j hj period hp => Or.inl ?_, fun s period => ?_⟩
        · rw [List.mem_singleton.mp hj] at hp
          obtain ⟨l, hl, hper⟩ := hp
          exact ⟨l, List.mem_cons_of_mem _ hl, hper⟩
        · by_cases hper : leg.period = period
          · exact Or.inl ⟨leg, List.mem_cons_self, hper⟩
          · exact Or.inr (legsOf_withLeg c.engine c.locked leg s hper)
      · rw [if_neg hv] at h
        cases h
        exact ⟨rfl, fun j hj period hp => absurd hp (not_posts_unlocks c p hj period), fun _ _ => Or.inr rfl⟩

/-- A posting past its check finds its period open. -/
def ChecksHold (w : PostingState C SHARDS) : Prop :=
  ∀ prog ∈ w.threads, ∀ i ∈ prog, ∀ period, PostingInstr.Posts period i →
    w.core.engine.periodIsClosed period = false

theorem periodIsClosed_setPeriodStatus (eng : JournalEngine C SHARDS) (period p : String) (status : PeriodStatus) :
    (eng.setPeriodStatus period status).periodIsClosed p =
      if p = period then status.isFinal else eng.periodIsClosed p := by
  by_cases h : p = period
  · rw [if_pos h, h]
    exact CloseWorkflow.periodIsClosed_set eng period status
  · rw [if_neg h]
    simp only [JournalEngine.periodIsClosed, JournalEngine.setPeriodStatus, Function.update_of_ne h]

theorem checksHold_step {w t : PostingState C SHARDS} {a : PostingLabel C} (h : ChecksHold w)
    (hq : ClosesQuietly w a) (ht : (postings C SHARDS).step w a = some t) : ChecksHold t := by
  cases Machine.moves_of_step _ ht with
  | env e => exact h
  | spawn op =>
    intro prog hprog i hi period hp
    rcases List.mem_append.mp hprog with hprog | hprog
    · exact h prog hprog i hi period hp
    · rw [List.mem_singleton.mp hprog] at hi
      -- a posting starts before its check
      cases op with
      | post p =>
        simp only [postings, PostingInstr.prog] at hi
        split at hi
        · rw [List.mem_singleton.mp hi] at hp
          exact absurd hp id
        · cases hi
      | setPeriodStatus period status =>
        rw [List.mem_singleton.mp hi] at hp
        exact absurd hp id
  | @run th k i rest more core hth hi =>
    have hmem := Machine.mem_of_next hth
    rcases instr_cases hi with ⟨period, status, rfl, rfl, rfl⟩ | ⟨hs, hmore, -⟩
    · intro prog hprog j hj p hp
      have hold : prog ∈ w.threads ∨ prog = rest := List.mem_or_eq_of_mem_set hprog
      obtain ⟨prog', hprog', hj'⟩ : ∃ prog' ∈ w.threads, j ∈ prog' := by
        rcases hold with hold | rfl
        · exact ⟨prog, hold, hj⟩
        · exact ⟨_, hmem, List.mem_cons_of_mem _ hj⟩
      show (w.core.engine.setPeriodStatus period status).periodIsClosed p = false
      rw [periodIsClosed_setPeriodStatus]
      by_cases hper : p = period
      · rw [if_pos hper]
        by_contra hfinal
        rw [Bool.not_eq_false] at hfinal
        exact hq th k period status rfl ⟨rest, hth⟩ hfinal prog' hprog' j hj' (hper ▸ hp)
      · rw [if_neg hper]
        exact h prog' hprog' j hj' p hp
    · intro prog hprog j hj p hp
      have hclosed : core.engine.periodIsClosed p = w.core.engine.periodIsClosed p := by
        unfold JournalEngine.periodIsClosed
        rw [hs]
      show core.engine.periodIsClosed p = false
      rw [hclosed]
      rcases List.mem_or_eq_of_mem_set hprog with hprog | rfl
      · exact h prog hprog j hj p hp
      · rcases List.mem_append.mp hj with hj | hj
        · rcases hmore j hj p hp with hp | hopen
          · exact h _ hmem i List.mem_cons_self p hp
          · exact hopen
        · exact h _ hmem j (List.mem_cons_of_mem _ hj) p hp

/-- A step appends legs of open periods only. -/
theorem legsOf_step {w t : PostingState C SHARDS} {a : PostingLabel C} (h : ChecksHold w)
    (ht : (postings C SHARDS).step w a = some t) {period : String}
    (hclosed : w.core.engine.periodIsClosed period = true) (s : Fin SHARDS) :
    t.core.legsOf s period = w.core.legsOf s period := by
  cases Machine.moves_of_step _ ht with
  | env e => rfl
  | spawn op => rfl
  | @run th k i rest more core hth hi =>
    rcases instr_cases hi with ⟨p, status, rfl, rfl, rfl⟩ | ⟨-, -, hlegs⟩
    · rfl
    · rcases hlegs s period with hp | heq
      · have hopen := h _ (Machine.mem_of_next hth) i List.mem_cons_self period hp
        rw [hclosed] at hopen
        cases hopen
      · exact heq

/-- **A closed period stays final** in every run that closes or locks a period only while no
posting to it is past its check with legs still to append. -/
theorem closed_stays_final (c : PostingCore C SHARDS) (labels : List (PostingLabel C))
    (h : LabelledRun.AllSteps (postings C SHARDS).step ClosesQuietly { core := c } labels) :
    StaysFinal { core := c } labels := by
  have hrun : LabelledRun.AllStates (postings C SHARDS).step ChecksHold { core := c } labels :=
    LabelledRun.allStates_of_allSteps (postings C SHARDS).step (fun s a t hs hok ht => checksHold_step hs hok ht)
      (List.forall_mem_nil _) h
  exact LabelledRun.allSteps_of_allStates (postings C SHARDS).step
    (fun u a hu t ht period hclosed s => legsOf_step hu ht hclosed s) hrun

/-! ## Closing while a posting is past its check -/

/-- `ClosesQuietly`, computed. -/
def closesQuietly (u : PostingState C SHARDS) : PostingLabel C → Bool
  | .run th _ =>
    match u.threads[th]? with
    | some (.setStatus period status :: _) =>
      !status.isFinal || u.threads.all fun prog => prog.all fun i => !PostingInstr.posts period i
    | _ => true
  | _ => true

theorem closesQuietly_iff (u : PostingState C SHARDS) (a : PostingLabel C) :
    closesQuietly u a = true ↔ ClosesQuietly u a := by
  cases a with
  | spawn op => exact iff_of_true rfl fun th k period status h => by cases h
  | env e => exact iff_of_true rfl fun th k period status h => by cases h
  | run th k =>
    simp only [closesQuietly]
    split
    · next period status rest hth =>
      simp only [Bool.or_eq_true, Bool.not_eq_true', List.all_eq_true, ← PostingInstr.posts_iff, ClosesQuietly,
        Bool.not_eq_true]
      constructor
      · rintro h th' k' period' status' hrun ⟨rest', hn⟩ hfinal
        cases hrun
        rw [hth] at hn
        cases hn
        rcases h with h | h
        · rw [hfinal] at h
          cases h
        · exact h
      · intro h
        cases hf : status.isFinal with
        | false => exact Or.inl rfl
        | true => exact Or.inr (h th k period status rfl ⟨rest, hth⟩ hf)
    · next hne =>
      refine iff_of_true rfl ?_
      rintro th' k' period status hrun ⟨rest, hn⟩
      cases hrun
      exact absurd hn (hne period status rest)

/-- A sale of 10 in January. -/
def januarySale : PostingCall Usd :=
  { tx := ⟨⟨0⟩, [⟨⟨1⟩, .debit, 10⟩, ⟨⟨2⟩, .credit, 10⟩]⟩, period := "2026-01", memo := "sale", expected := none }

/-- A new engine. -/
def newCore : PostingCore Usd 64 := { engine := .new (fun a => mod64 a.uuid) .new false }

/-- Call `th` goes on for `n` instructions. -/
def goOn (th n : Nat) : List (PostingLabel Usd) := List.replicate n (.run th ())

/-- The sale is posted, and then January is closed. -/
def closeAfterSale : List (PostingLabel Usd) :=
  [.spawn (.post januarySale), .spawn (.setPeriodStatus "2026-01" .closed)] ++ goOn 0 10 ++ goOn 1 1

/-- January is closed when the sale has its shards and is past its check. -/
def closeInBetween : List (PostingLabel Usd) :=
  [.spawn (.post januarySale), .spawn (.setPeriodStatus "2026-01" .closed)] ++ goOn 0 5 ++ goOn 1 1

theorem sale_before_close : StaysFinal { core := newCore } closeAfterSale ∧
    (LabelledRun.exec (postings Usd 64).step { core := newCore } closeAfterSale).map (fun w =>
      (w.core.engine.periodIsClosed "2026-01", (w.core.legsOf 1 "2026-01").length)) = some (true, 1) := by
  refine ⟨closed_stays_final newCore closeAfterSale ?_, by decide +kernel⟩
  rw [← LabelledRun.checkSteps_iff _ closesQuietly_iff]
  decide +kernel

/-- A leg of January is appended after January was closed. -/
theorem append_after_close : ¬ StaysFinal { core := newCore } (closeInBetween ++ goOn 0 1) := by
  intro h
  obtain ⟨w, hw, hclosed, hnone⟩ : ∃ w, LabelledRun.exec (postings Usd 64).step { core := newCore } closeInBetween =
      some w ∧ w.core.engine.periodIsClosed "2026-01" = true ∧ (w.core.legsOf 1 "2026-01").length = 0 := by
    have hend : (LabelledRun.exec (postings Usd 64).step { core := newCore } closeInBetween).map (fun w =>
        (w.core.engine.periodIsClosed "2026-01", (w.core.legsOf 1 "2026-01").length)) = some (true, 0) := by
      decide +kernel
    obtain ⟨w, hw, he⟩ := Option.map_eq_some_iff.mp hend
    exact ⟨w, hw, (Prod.mk.inj he).1, (Prod.mk.inj he).2⟩
  have hall : (LabelledRun.exec (postings Usd 64).step { core := newCore } (closeInBetween ++ goOn 0 1)).map
      (fun t => (t.core.legsOf 1 "2026-01").length) = some 1 := by
    decide +kernel
  obtain ⟨t, ht, hone⟩ := Option.map_eq_some_iff.mp hall
  rw [LabelledRun.exec_append, hw] at ht
  have hstep : (postings Usd 64).step w (.run 0 ()) = some t := by
    have : ((postings Usd 64).step w (.run 0 ())).bind some = some t := ht
    rwa [Option.bind_fun_some] at this
  have hkept := (h.right _ hw).1 t hstep "2026-01" hclosed 1
  rw [hkept, hnone] at hone
  cases hone

end PostingCore

end TptErp.Gl
