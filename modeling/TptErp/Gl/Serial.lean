import TptErp.Gl.CloseRace
import TptErp.Lib.TwoPhase

/-!
# Postings one after another

`post_sync` has the mutexes of all its shards when it reads the status of its period, and keeps them until it
returns.  Postings, guarded or not, and status changes are interleaved here one lock, one check or one leg at a time.

`postings_serial`: whenever no posting is between its period check and its return, the engine is as if the calls had
been made one after another, in the order in which they came to the statuses, and every posting has answered what it
answers then.
-/

namespace TptErp.Gl

open Ledger TwoPhase PostingCore

variable {C : Type} {SHARDS : Nat}

/-- What `post_sync` returns. -/
abbrev Answer (C : Type) := Except (JournalError C) (TransactionId × List (AccountId × AccountBalance C))

/-- The calls, in the order in which they read or wrote the status of a period, and the answers so far. -/
structure PostingHistory (C : Type) where
  order : List (PostingOp C) := []
  answers : List (PostingCall C × Answer C) := []

namespace PostingHistory

def answer (h : PostingHistory C) (p : PostingCall C) (a : Answer C) : PostingHistory C :=
  { h with answers := h.answers ++ [(p, a)] }

/-- The check that a guarded posting makes before its loop. -/
def versions (eng : JournalEngine C SHARDS) (p : PostingCall C) : Except (JournalError C) Unit :=
  p.expected.elim (.ok ()) fun exp => eng.checkVersions exp (JournalEngine.accounts p.tx.entries)

def record (h : PostingHistory C) (c : PostingCore C SHARDS) : PostingInstr C SHARDS → PostingHistory C
  | .checkPeriod p =>
    let h : PostingHistory C := { h with order := h.order ++ [.post p] }
    if c.engine.periodIsClosed p.period then h.answer p (.error (.periodClosed p.period)) else h
  | .checkVersions p =>
    match versions c.engine p with
    | .error e => h.answer p (.error e)
    | .ok () => h
  | .append p [] => h.answer p (.ok (p.tx.id, c.engine.payloads p.tx.entries))
  | .append p (leg :: _) =>
    match c.engine.postLeg p.expected leg with
    | .error e => h.answer p (.error e)
    | .ok _ => h
  | .setStatus period status => { h with order := h.order ++ [.setPeriodStatus period status] }
  | .start _ | .lock _ | .unlock _ => h

end PostingHistory

/-- The interleaved calls with their history. -/
abbrev recorded (C : Type) (SHARDS : Nat) := (postings C SHARDS).withHistory PostingHistory.record

namespace JournalEngine

/-- A call made while no other is. -/
def atomically (eng : JournalEngine C SHARDS) :
    PostingOp C → Option (List (PostingCall C × Answer C) × JournalEngine C SHARDS)
  | .post p => (eng.postSync p.tx p.period p.memo p.expected).map fun r => ([(p, r.1)], r.2)
  | .setPeriodStatus period status => some ([], eng.setPeriodStatus period status)

/-- Calls made one after another, with their answers. -/
def oneByOne (eng : JournalEngine C SHARDS) (ops : List (PostingOp C)) :
    Option (List (PostingCall C × Answer C) × JournalEngine C SHARDS) :=
  ops.foldlM (fun r op => (r.2.atomically op).map fun r' => (r.1 ++ r'.1, r'.2)) ([], eng)

theorem oneByOne_concat (eng : JournalEngine C SHARDS) (ops : List (PostingOp C)) (op : PostingOp C) :
    eng.oneByOne (ops ++ [op]) =
      (eng.oneByOne ops).bind fun r => (r.2.atomically op).map fun r' => (r.1 ++ r'.1, r'.2) := by
  simp only [oneByOne, List.foldlM_append, List.foldlM_cons, List.foldlM_nil, bind_pure]
  rfl

/-! ## The work of a posting -/

/-- The engine with other shards and statuses. -/
def inState (eng : JournalEngine C SHARDS) (shards : Fin SHARDS → Shard C) (status : String → Option PeriodStatus) :
    JournalEngine C SHARDS :=
  { eng with shards, periodStatus := status }

/-- The engine with other shards. -/
def onShards (eng : JournalEngine C SHARDS) (shards : Fin SHARDS → Shard C) : JournalEngine C SHARDS :=
  { eng with shards }

abbrev ShardWork (C : Type) (SHARDS : Nat) (R : Type) := Work (Fin SHARDS) (Shard C) R

variable (eng : JournalEngine C SHARDS)

def legWork (p : PostingCall C) (leg : PostedLeg C) : ShardWork C SHARDS (Except (JournalError C) Unit) := fun shards =>
  match (eng.onShards shards).postLeg p.expected leg with
  | .error e => (.error e, shards)
  | .ok eng' => (.ok (), eng'.shards)

/-- What comes after a check or a leg: a posting that it refuses answers so. -/
def goOn (p : PostingCall C) (work : ShardWork C SHARDS (List (PostingCall C × Answer C))) :
    Except (JournalError C) Unit → ShardWork C SHARDS (List (PostingCall C × Answer C))
  | .error e => fun shards => ([(p, .error e)], shards)
  | .ok () => work

/-- The loop over the legs, and the answer. -/
def appendWork (p : PostingCall C) : List (PostedLeg C) → ShardWork C SHARDS (List (PostingCall C × Answer C))
  | [] => fun shards => ([(p, .ok (p.tx.id, (eng.onShards shards).payloads p.tx.entries))], shards)
  | leg :: legs => fun shards =>
    goOn p (appendWork p legs) (eng.legWork p leg shards).1 (eng.legWork p leg shards).2

def postedLegs (p : PostingCall C) : List (PostedLeg C) := p.tx.entries.map (leg p.tx p.period p.memo)

/-- All that comes after the period check. -/
def checkWork (p : PostingCall C) : ShardWork C SHARDS (List (PostingCall C × Answer C)) := fun shards =>
  goOn p (eng.appendWork p (postedLegs p)) (PostingHistory.versions (eng.onShards shards) p) shards

variable {eng} {s : List (Fin SHARDS)} {p : PostingCall C}

/-- A leg that is appended, or one that conflicts. -/
theorem legWork_eq (leg : PostedLeg C) (shards : Fin SHARDS → Shard C) :
    eng.legWork p leg shards =
      if ∀ exp ∈ p.expected, exp leg.account = (shards (eng.shardIndex leg.account)).store.version leg.account then
        (.ok (), ((eng.onShards shards).withLeg leg).shards)
      else (.error (.conflict leg.account ((p.expected.elim 0 fun exp => exp leg.account))
        ((p.expected.elim 0 fun exp => exp leg.account) + 1)), shards) := by
  unfold legWork
  rw [postLeg_eq]
  have hversion : (eng.onShards shards).version leg.account =
      (shards (eng.shardIndex leg.account)).store.version leg.account := rfl
  rw [hversion]
  split
  · next h =>
    split at h
    · cases h
    · next hexp =>
      cases h
      rw [if_neg hexp]
  · next h =>
    split at h
    · next hexp =>
      cases h
      rw [if_pos hexp]
    · cases h

theorem withLeg_onShards (leg : PostedLeg C) (shards : Fin SHARDS → Shard C) (i : Fin SHARDS) :
    ((eng.onShards shards).withLeg leg).shards i =
      if i = eng.shardIndex leg.account then
        (({ shards i with store := ((shards i).store.append (legEvent leg)).2 } : Shard C).applyLeg leg)
      else shards i :=
  withLeg_shards _ leg i

theorem legWork_local {leg : PostedLeg C} (h : eng.shardIndex leg.account ∈ s) : LocalTo s (eng.legWork p leg) where
  reads hc := by
    rw [legWork_eq, legWork_eq, hc _ h]
    split <;> rfl
  writes hc i hi := by
    rw [legWork_eq, legWork_eq, hc _ h]
    split
    · show ((eng.onShards _).withLeg leg).shards i = ((eng.onShards _).withLeg leg).shards i
      rw [withLeg_onShards, withLeg_onShards, hc i hi]
    · exact hc i hi
  frame c i hi := by
    have hne : i ≠ eng.shardIndex leg.account := fun he => hi (he ▸ h)
    rw [legWork_eq]
    split
    · exact (withLeg_onShards leg c i).trans (if_neg hne)
    · rfl

/-- The shards of the accounts are among the locked ones. -/
theorem shardIndex_mem {e : LedgerEntry C} (he : e ∈ p.tx.entries) :
    eng.shardIndex e.account ∈ eng.lockSequence p.tx.entries :=
  List.mem_map_of_mem ((SortDedup.mem_sortDedup ..).mpr (List.mem_map_of_mem he))

theorem payloads_congr {c c' : Fin SHARDS → Shard C} (hc : ∀ i ∈ eng.lockSequence p.tx.entries, c i = c' i) :
    (eng.onShards c).payloads p.tx.entries = (eng.onShards c').payloads p.tx.entries := by
  show (if eng.cache then _ else _) = if eng.cache then _ else _
  congr 1
  refine List.map_congr_left fun a ha => ?_
  show (a, (c (eng.shardIndex a)).balances a) = (a, (c' (eng.shardIndex a)).balances a)
  rw [hc _ (List.mem_map_of_mem ha)]

theorem goOn_local {work : ShardWork C SHARDS (List (PostingCall C × Answer C))} (h : LocalTo s work)
    (r : Except (JournalError C) Unit) : LocalTo s (goOn p work r) := by
  cases r with
  | error e => exact .pure _
  | ok u => exact h

theorem appendWork_local (p : PostingCall C) {legs : List (PostedLeg C)}
    (h : ∀ leg ∈ legs, eng.shardIndex leg.account ∈ eng.lockSequence p.tx.entries) :
    LocalTo (eng.lockSequence p.tx.entries) (eng.appendWork p legs) := by
  induction legs with
  | nil =>
    exact LocalTo.choose payloads_congr fun balances => .pure [(p, (.ok (p.tx.id, balances) : Answer C))]
  | cons leg legs ih =>
    obtain ⟨hleg, hlegs⟩ := List.forall_mem_cons.mp h
    exact LocalTo.bind (legWork_local hleg) fun r => goOn_local (ih hlegs) r

theorem checkVersions_congr {c c' : Fin SHARDS → Shard C} (exp : AccountId → Nat) {as : List AccountId}
    (hc : ∀ a ∈ as, c (eng.shardIndex a) = c' (eng.shardIndex a)) :
    (eng.onShards c).checkVersions exp as = (eng.onShards c').checkVersions exp as := by
  induction as with
  | nil => rfl
  | cons a as ih =>
    obtain ⟨ha, has⟩ := List.forall_mem_cons.mp hc
    have hversion : (eng.onShards c).version a = (eng.onShards c').version a := by
      show (c (eng.shardIndex a)).store.version a = (c' (eng.shardIndex a)).store.version a
      rw [ha]
    simp only [checkVersions, hversion, ih has]

theorem checkWork_local (p : PostingCall C) : LocalTo (eng.lockSequence p.tx.entries) (eng.checkWork p) := by
  have hversions : ∀ {c c' : Fin SHARDS → Shard C}, (∀ i ∈ eng.lockSequence p.tx.entries, c i = c' i) →
      PostingHistory.versions (eng.onShards c) p = PostingHistory.versions (eng.onShards c') p := by
    intro c c' hc
    unfold PostingHistory.versions
    cases p.expected with
    | none => rfl
    | some exp => exact checkVersions_congr exp fun a ha => hc _ (List.mem_map_of_mem ha)
  refine LocalTo.choose hversions fun r => goOn_local (appendWork_local p fun leg hleg => ?_) r
  obtain ⟨e, he, rfl⟩ := List.mem_map.mp hleg
  exact shardIndex_mem he

/-! ## The work and the engine -/

section
variable {shards : Fin SHARDS → Shard C} {status : String → Option PeriodStatus}

theorem postLeg_ok {leg : PostedLeg C} {eng' : JournalEngine C SHARDS}
    (h : (eng.inState shards status).postLeg p.expected leg = .ok eng') :
    eng.legWork p leg shards = (.ok (), eng'.shards) ∧ eng' = eng.inState eng'.shards status := by
  rw [postLeg_eq] at h
  split at h
  · next hexp =>
    cases h
    exact ⟨(legWork_eq leg shards).trans (if_pos hexp), rfl⟩
  · cases h

theorem postLeg_error {leg : PostedLeg C} {e : JournalError C}
    (h : (eng.inState shards status).postLeg p.expected leg = .error e) :
    eng.legWork p leg shards = (.error e, shards) := by
  rw [postLeg_eq] at h
  split at h
  · cases h
  · next hexp =>
    cases h
    exact (legWork_eq leg shards).trans (if_neg hexp)

theorem appendWork_cons (leg : PostedLeg C) (legs : List (PostedLeg C)) (shards : Fin SHARDS → Shard C) :
    eng.appendWork p (leg :: legs) shards =
      goOn p (eng.appendWork p legs) (eng.legWork p leg shards).1 (eng.legWork p leg shards).2 := rfl

theorem postLegs_inState (eng : JournalEngine C SHARDS) (p : PostingCall C) (status : String → Option PeriodStatus)
    (legs : List (PostedLeg C)) (shards : Fin SHARDS → Shard C) :
    ∃ r shards', postLegs p.expected legs (eng.inState shards status) = (r, eng.inState shards' status) ∧
      eng.appendWork p legs shards =
        ([(p, r.map fun _ => (p.tx.id, (eng.inState shards' status).payloads p.tx.entries))], shards') := by
  induction legs generalizing shards with
  | nil => exact ⟨.ok (), shards, rfl, rfl⟩
  | cons leg legs ih =>
    cases hp : (eng.inState shards status).postLeg p.expected leg with
    | error e =>
      refine ⟨.error e, shards, by rw [postLegs, hp], ?_⟩
      rw [appendWork_cons, postLeg_error hp]
      rfl
    | ok eng' =>
      obtain ⟨hwork, heng⟩ := postLeg_ok hp
      obtain ⟨r, shards', hlegs, happend⟩ := ih eng'.shards
      refine ⟨r, shards', ?_, ?_⟩
      · rw [postLegs, hp]
        exact heng ▸ hlegs
      · rw [appendWork_cons, hwork]
        exact happend

theorem versions_inState (eng : JournalEngine C SHARDS) (shards : Fin SHARDS → Shard C)
    (status : String → Option PeriodStatus) (p : PostingCall C) :
    PostingHistory.versions (eng.inState shards status) p = PostingHistory.versions (eng.onShards shards) p := by
  have hcheck : ∀ exp as,
      (eng.inState shards status).checkVersions exp as = (eng.onShards shards).checkVersions exp as := by
    intro exp as
    induction as with
    | nil => rfl
    | cons a as ih =>
      have hversion : (eng.inState shards status).version a = (eng.onShards shards).version a := rfl
      simp only [checkVersions, hversion, ih]
  unfold PostingHistory.versions
  cases p.expected with
  | none => rfl
  | some exp => exact hcheck exp _

/-- A posting that finds its period open does the work after the check. -/
theorem atomically_open (hn : (eng.lockSequence p.tx.entries).Nodup)
    (hopen : (eng.inState shards status).periodIsClosed p.period = false) :
    (eng.inState shards status).atomically (.post p) =
      some ((eng.checkWork p shards).1, eng.inState (eng.checkWork p shards).2 status) := by
  have hlocks : ((eng.inState shards status).lockSequence p.tx.entries).Nodup := hn
  unfold atomically
  dsimp only
  unfold postSync
  rw [if_neg (not_not.mpr hlocks), if_neg (by rw [hopen]; exact Bool.false_ne_true)]
  cases hv : PostingHistory.versions (eng.inState shards status) p with
  | error e =>
    have hwork : eng.checkWork p shards = ([(p, .error e)], shards) := by
      rw [checkWork, ← versions_inState eng shards status, hv]
      rfl
    unfold PostingHistory.versions at hv
    rw [hwork, hv]
    rfl
  | ok u =>
    obtain ⟨r, shards', hlegs, happend⟩ := postLegs_inState eng p status (postedLegs p) shards
    have hwork : eng.checkWork p shards = eng.appendWork p (postedLegs p) shards := by
      rw [checkWork, ← versions_inState eng shards status, hv]
      rfl
    unfold PostingHistory.versions at hv
    unfold postedLegs at hlegs
    rw [hwork, hv, happend]
    dsimp only
    rw [hlegs]
    cases r with
    | error e => rfl
    | ok u => rfl

theorem atomically_closed (hn : (eng.lockSequence p.tx.entries).Nodup)
    (hclosed : (eng.inState shards status).periodIsClosed p.period = true) :
    (eng.inState shards status).atomically (.post p) =
      some ([(p, .error (.periodClosed p.period))], eng.inState shards status) := by
  have hlocks : ((eng.inState shards status).lockSequence p.tx.entries).Nodup := hn
  unfold atomically
  dsimp only
  unfold postSync
  rw [if_neg (not_not.mpr hlocks), if_pos hclosed]
  rfl

end

end JournalEngine

open JournalEngine

/-! ## Calls and jobs -/

abbrev PostingJob (C : Type) (SHARDS : Nat) := Job (Fin SHARDS) (Shard C) (PostingCall C × Answer C)

variable {eng : JournalEngine C SHARDS}

/-- A posting that is past its period check. -/
def checkJob (eng : JournalEngine C SHARDS) (p : PostingCall C) : PostingJob C SHARDS :=
  { held := eng.lockSequence p.tx.entries, rest := eng.checkWork p, isLocal := checkWork_local p }

/-- A posting in its loop. -/
def appendJob (eng : JournalEngine C SHARDS) (p : PostingCall C) {legs : List (PostedLeg C)}
    (h : ∀ leg ∈ legs, eng.shardIndex leg.account ∈ eng.lockSequence p.tx.entries) : PostingJob C SHARDS :=
  { held := eng.lockSequence p.tx.entries, rest := eng.appendWork p legs, isLocal := appendWork_local p h }

/-- The job of a call, at each of its points. -/
inductive Phase (eng : JournalEngine C SHARDS) : List (PostingInstr C SHARDS) → PostingJob C SHARDS → Prop
  | start (p : PostingCall C) : Phase eng [.start p] (idle [])
  | locking (p : PostingCall C) (taken rest : List (Fin SHARDS)) (h : eng.lockSequence p.tx.entries = taken ++ rest) :
    Phase eng (rest.map .lock ++ [.checkPeriod p]) (idle taken)
  | checking (p : PostingCall C) :
    Phase eng [.checkVersions p] (checkJob eng p)
  | appending (p : PostingCall C) (legs : List (PostedLeg C))
    (h : ∀ leg ∈ legs, eng.shardIndex leg.account ∈ eng.lockSequence p.tx.entries) :
    Phase eng [.append p legs] (appendJob eng p h)
  | unlocking (held : List (Fin SHARDS)) : Phase eng (held.map .unlock) (idle held)
  | status (period : String) (status : PeriodStatus) : Phase eng [.setStatus period status] (idle [])

/-- The calls with their jobs, and the engine that the calls of the history leave one by one. -/
structure Follows (eng : JournalEngine C SHARDS) (h : PostingHistory C) (c : PostingCore C SHARDS)
    (calls : List (List (PostingInstr C SHARDS) × PostingJob C SHARDS)) (final : Fin SHARDS → Shard C)
    (status : String → Option PeriodStatus) (answers : List (PostingCall C × Answer C)) : Prop where
  phases : ∀ q ∈ calls, Phase eng q.1 q.2
  engine : c.engine = eng.inState c.engine.shards status
  order : eng.oneByOne h.order = some (answers, eng.inState final status)
  serial : Serial (calls.map Prod.snd) c.locked c.engine.shards h.answers final answers

section
variable {h h' : PostingHistory C} {c c' : PostingCore C SHARDS} {final final' : Fin SHARDS → Shard C}
  {status status' : String → Option PeriodStatus} {answers answers' : List (PostingCall C × Answer C)}
  {before after : List (List (PostingInstr C SHARDS) × PostingJob C SHARDS)}
  {prog prog' : List (PostingInstr C SHARDS)} {job job' : PostingJob C SHARDS} {p : PostingCall C}

theorem Follows.middle (hf : Follows eng h c (before ++ (prog, job) :: after) final status answers) :
    Serial (before.map Prod.snd ++ job :: after.map Prod.snd) c.locked c.engine.shards h.answers final answers := by
  have hserial := hf.serial
  rwa [List.map_append, List.map_cons] at hserial

/-- One call comes to another point. -/
theorem Follows.replace (hf : Follows eng h c (before ++ (prog, job) :: after) final status answers)
    (hphase : Phase eng prog' job') (hengine : c'.engine = eng.inState c'.engine.shards status')
    (horder : eng.oneByOne h'.order = some (answers', eng.inState final' status'))
    (hserial : Serial (before.map Prod.snd ++ job' :: after.map Prod.snd) c'.locked c'.engine.shards h'.answers final'
      answers') :
    Follows eng h' c' (before ++ (prog', job') :: after) final' status' answers' where
  phases q hq := by
    rcases List.mem_cons.mp (List.perm_middle.mem_iff.mp hq) with rfl | hq
    · exact hphase
    · exact hf.phases q (List.perm_middle.mem_iff.mpr (List.mem_cons_of_mem _ hq))
  engine := hengine
  order := horder
  serial := by rwa [List.map_append, List.map_cons]

/-- The shards of a posting in an engine that differs in its state. -/
theorem Follows.lockSequence (hf : Follows eng h c (before ++ (prog, job) :: after) final status answers)
    (entries : List (LedgerEntry C)) : c.engine.lockSequence entries = eng.lockSequence entries := by
  rw [hf.engine]
  rfl

theorem Follows.nodup (hf : Follows eng h c (before ++ (prog, job) :: after) final status answers) : job.held.Nodup :=
  (List.nodup_append.mp (heldBy_middle.nodup_iff.mp hf.middle.nodup)).1

theorem follows_start (hf : Follows eng h c (before ++ ([.start p], idle []) :: after) final status answers) :
    Follows eng h c
      (before ++ ((c.engine.lockSequence p.tx.entries).map .lock ++ [.checkPeriod p], idle []) :: after)
      final status answers :=
  hf.replace (hf.lockSequence p.tx.entries ▸ .locking p [] _ rfl) hf.engine hf.order hf.middle

theorem follows_lock {taken js : List (Fin SHARDS)} {j : Fin SHARDS}
    (hf : Follows eng h c (before ++ (.lock j :: (js.map .lock ++ [.checkPeriod p]), idle taken) :: after) final status
      answers)
    (hseq : eng.lockSequence p.tx.entries = taken ++ j :: js) (hfree : c.locked j = false) :
    Follows eng h { c with locked := Function.update c.locked j true }
      (before ++ (js.map .lock ++ [.checkPeriod p], idle (taken ++ [j])) :: after) final status answers :=
  hf.replace (.locking p (taken ++ [j]) js (by rw [hseq, List.append_assoc]; rfl)) hf.engine hf.order
    (hf.middle.acquire hfree)

theorem follows_unlock {js : List (Fin SHARDS)} {j : Fin SHARDS}
    (hf : Follows eng h c (before ++ (.unlock j :: js.map .unlock, idle (j :: js)) :: after) final status answers) :
    Follows eng h { c with locked := Function.update c.locked j false }
      (before ++ (js.map .unlock, idle js) :: after) final status answers :=
  hf.replace (.unlocking js) hf.engine hf.order hf.middle.release

theorem follows_setStatus {period : String} {s : PeriodStatus}
    (hf : Follows eng h c (before ++ ([.setStatus period s], idle []) :: after) final status answers) :
    Follows eng { h with order := h.order ++ [.setPeriodStatus period s] }
      { c with engine := c.engine.setPeriodStatus period s } (before ++ ([], idle []) :: after) final
      (Function.update status period (some s)) answers := by
  refine hf.replace (.unlocking []) ?_ ?_ hf.middle
  · show c.engine.setPeriodStatus period s = eng.inState c.engine.shards (Function.update status period (some s))
    rw [hf.engine]
    rfl
  · rw [oneByOne_concat, hf.order]
    show some (answers ++ [], _) = _
    rw [List.append_nil]
    rfl

/-- A posting that finds its period closed has begun and is over. -/
theorem follows_closed
    (hf : Follows eng h c (before ++ ([.checkPeriod p], idle (eng.lockSequence p.tx.entries)) :: after) final status
      answers) (hclosed : c.engine.periodIsClosed p.period = true) :
    Follows eng (h.record c (.checkPeriod p)) c
      (before ++ (PostingInstr.unlocks c p, idle (eng.lockSequence p.tx.entries)) :: after) final status
      (answers ++ [(p, .error (.periodClosed p.period))]) := by
  have hclosed' : (eng.inState final status).periodIsClosed p.period = true := by
    rw [hf.engine] at hclosed
    exact hclosed
  have hrecord : h.record c (.checkPeriod p) =
      ({ h with order := h.order ++ [.post p] } : PostingHistory C).answer p (.error (.periodClosed p.period)) :=
    if_pos hclosed
  have hunlocks : PostingInstr.unlocks c p = (eng.lockSequence p.tx.entries).map .unlock := by
    rw [PostingInstr.unlocks, hf.lockSequence]
  have hbegin := hf.middle.begin (.pure [(p, (.error (.periodClosed p.period) : Answer C))])
  rw [hrecord, hunlocks]
  refine hf.replace (.unlocking _) hf.engine ?_ (hbegin.advance rfl (fun _ _ => rfl) (fun _ _ => rfl) ?_)
  · show eng.oneByOne (h.order ++ [.post p]) = _
    rw [oneByOne_concat, hf.order, Option.bind_some, atomically_closed hf.nodup hclosed']
    rfl
  · exact List.append_nil _

/-- A posting that finds its period open has begun its work. -/
theorem follows_open
    (hf : Follows eng h c (before ++ ([.checkPeriod p], idle (eng.lockSequence p.tx.entries)) :: after) final status
      answers) (hopen : c.engine.periodIsClosed p.period = false) :
    ∃ final' answers', Follows eng (h.record c (.checkPeriod p)) c
      (before ++ ([.checkVersions p], checkJob eng p) :: after) final' status answers' := by
  have hopen' : (eng.inState final status).periodIsClosed p.period = false := by
    rw [hf.engine] at hopen
    exact hopen
  have hrecord : h.record c (.checkPeriod p) = { h with order := h.order ++ [.post p] } :=
    if_neg (by rw [hopen]; exact Bool.false_ne_true)
  rw [hrecord]
  refine ⟨_, _, hf.replace (.checking p) hf.engine ?_ (hf.middle.begin (checkWork_local p))⟩
  show eng.oneByOne (h.order ++ [.post p]) = _
  rw [oneByOne_concat, hf.order, Option.bind_some, atomically_open hf.nodup hopen']
  rfl

/-- A posting answers and gives its shards back. -/
theorem follows_answer {a : Answer C} (hf : Follows eng h c (before ++ (prog, job) :: after) final status answers)
    (hheld : job.held = eng.lockSequence p.tx.entries) (hwork : job.rest c.engine.shards = ([(p, a)], c.engine.shards)) :
    Follows eng (h.answer p a) c
      (before ++ (PostingInstr.unlocks c p, idle (eng.lockSequence p.tx.entries)) :: after) final status answers := by
  have hunlocks : PostingInstr.unlocks c p = (eng.lockSequence p.tx.entries).map .unlock := by
    rw [PostingInstr.unlocks, hf.lockSequence]
  rw [hunlocks]
  refine hf.replace (.unlocking _) hf.engine hf.order
    (hf.middle.advance hheld.symm (fun _ _ => rfl) (fun _ _ => ?_) ?_)
  · rw [hwork]
    rfl
  · rw [hwork]
    rfl

theorem follows_versions (hf : Follows eng h c (before ++ ([.checkVersions p], checkJob eng p) :: after) final status
      answers) {more : List (PostingInstr C SHARDS)}
    (hi : PostingInstr.instr c (.checkVersions p) () = some (c', more)) :
    ∃ job', Follows eng (h.record c (.checkVersions p)) c' (before ++ (more, job') :: after) final status answers := by
  have hversions : PostingHistory.versions c.engine p = PostingHistory.versions (eng.onShards c.engine.shards) p := by
    have hstate := versions_inState eng c.engine.shards status p
    rwa [← hf.engine] at hstate
  simp only [PostingInstr.instr] at hi
  split at hi
  · next e he =>
    cases hi
    have he' : PostingHistory.versions c.engine p = .error e := he
    have hwork : (checkJob eng p).rest c.engine.shards = ([(p, .error e)], c.engine.shards) := by
      show eng.checkWork p c.engine.shards = _
      rw [checkWork, ← hversions, he']
      rfl
    have hrecord : h.record c (.checkVersions p) = h.answer p (.error e) := by
      simp only [PostingHistory.record, he']
    rw [hrecord]
    exact ⟨_, follows_answer hf rfl hwork⟩
  · next he =>
    cases hi
    have he' : PostingHistory.versions c.engine p = .ok () := he
    have hwork : eng.checkWork p c.engine.shards = eng.appendWork p (postedLegs p) c.engine.shards := by
      rw [checkWork, ← hversions, he']
      rfl
    have hrecord : h.record c (.checkVersions p) = h := by
      simp only [PostingHistory.record, he']
    have hlegs : ∀ leg ∈ postedLegs p, eng.shardIndex leg.account ∈ eng.lockSequence p.tx.entries := by
      intro leg hleg
      obtain ⟨e, he, rfl⟩ := List.mem_map.mp hleg
      exact shardIndex_mem he
    rw [hrecord]
    have hserial : Serial (before.map Prod.snd ++ appendJob eng p hlegs :: after.map Prod.snd) c.locked
        c.engine.shards (h.answers ++ []) final answers :=
      hf.middle.advance rfl (fun _ _ => rfl) (fun _ _ => congrFun (congrArg Prod.snd hwork.symm) _)
        (congrArg Prod.fst hwork.symm)
    rw [List.append_nil] at hserial
    exact ⟨_, hf.replace (.appending p _ hlegs) hf.engine hf.order hserial⟩

theorem follows_leg {leg : PostedLeg C} {legs : List (PostedLeg C)}
    (hlegs : ∀ l ∈ leg :: legs, eng.shardIndex l.account ∈ eng.lockSequence p.tx.entries)
    (hf : Follows eng h c (before ++ ([.append p (leg :: legs)], appendJob eng p hlegs) :: after) final status answers)
    {more : List (PostingInstr C SHARDS)} (hi : PostingInstr.instr c (.append p (leg :: legs)) () = some (c', more)) :
    ∃ job', Follows eng (h.record c (.append p (leg :: legs))) c' (before ++ (more, job') :: after) final status
      answers := by
  obtain ⟨hleg, hrest⟩ := List.forall_mem_cons.mp hlegs
  simp only [PostingInstr.instr] at hi
  split at hi
  · next e he =>
    cases hi
    have hrecord : h.record c (.append p (leg :: legs)) = h.answer p (.error e) := by
      simp only [PostingHistory.record, he]
    rw [hf.engine] at he
    have hwork : (appendJob eng p hlegs).rest c.engine.shards = ([(p, .error e)], c.engine.shards) := by
      show eng.appendWork p (leg :: legs) c.engine.shards = _
      rw [appendWork_cons, postLeg_error he]
      rfl
    rw [hrecord]
    exact ⟨_, follows_answer hf rfl hwork⟩
  · next eng' he =>
    cases hi
    have hrecord : h.record c (.append p (leg :: legs)) = h := by
      simp only [PostingHistory.record, he]
    rw [hf.engine] at he
    obtain ⟨hwork, heng⟩ := postLeg_ok he
    have hshards : ∀ i ∉ eng.lockSequence p.tx.entries, eng'.shards i = c.engine.shards i := by
      have hframe := (legWork_local (p := p) hleg).frame c.engine.shards
      rwa [hwork] at hframe
    have hjob : eng.appendWork p (leg :: legs) c.engine.shards = eng.appendWork p legs eng'.shards := by
      rw [appendWork_cons, hwork]
      rfl
    have hserial : Serial (before.map Prod.snd ++ appendJob eng p hrest :: after.map Prod.snd) c.locked eng'.shards
        (h.answers ++ []) final answers :=
      hf.middle.advance rfl hshards (fun _ _ => congrFun (congrArg Prod.snd hjob.symm) _)
        (congrArg Prod.fst hjob.symm)
    rw [List.append_nil] at hserial
    rw [hrecord]
    exact ⟨_, hf.replace (.appending p _ hrest) heng hf.order hserial⟩

/-- **Each instruction** brings its call to its next point. -/
theorem follows_instr {i : PostingInstr C SHARDS} {rest more : List (PostingInstr C SHARDS)}
    (hf : Follows eng h c (before ++ (i :: rest, job) :: after) final status answers)
    (hi : PostingInstr.instr c i () = some (c', more)) :
    ∃ job' final' status' answers',
      Follows eng (h.record c i) c' (before ++ (more ++ rest, job') :: after) final' status' answers' := by
  have hphase : Phase eng (i :: rest) job := hf.phases _ (List.mem_append_right _ List.mem_cons_self)
  generalize hprog : i :: rest = prog at hphase
  cases hphase with
  | start p =>
    cases hprog
    cases hi
    rw [List.append_nil]
    exact ⟨_, _, _, _, follows_start hf⟩
  | locking p taken js hseq =>
    cases js with
    | nil =>
      cases hprog
      obtain rfl : eng.lockSequence p.tx.entries = taken := hseq.trans (List.append_nil _)
      cases hi
      cases hclosed : c.engine.periodIsClosed p.period with
      | true => exact ⟨_, _, _, _, by simpa using follows_closed hf hclosed⟩
      | false =>
        obtain ⟨final', answers', hopen⟩ := follows_open hf hclosed
        exact ⟨_, _, _, _, hopen⟩
    | cons j js =>
      cases hprog
      simp only [PostingInstr.instr] at hi
      split at hi
      · cases hi
      · next hfree =>
        cases hi
        exact ⟨_, _, _, _, follows_lock hf hseq (Bool.eq_false_of_not_eq_true hfree)⟩
  | checking p =>
    cases hprog
    obtain ⟨job', hnext⟩ := follows_versions hf hi
    rw [List.append_nil]
    exact ⟨_, _, _, _, hnext⟩
  | appending p legs hlegs =>
    cases hprog
    rw [List.append_nil]
    cases legs with
    | nil =>
      cases hi
      refine ⟨_, _, _, _, follows_answer hf rfl ?_⟩
      show ([(p, (.ok (p.tx.id, (eng.onShards c.engine.shards).payloads p.tx.entries) : Answer C))], _) = _
      rw [hf.engine]
      rfl
    | cons leg legs =>
      obtain ⟨job', hnext⟩ := follows_leg hlegs hf hi
      exact ⟨_, _, _, _, hnext⟩
  | unlocking held =>
    cases held with
    | nil => cases hprog
    | cons j js =>
      cases hprog
      cases hi
      exact ⟨_, _, _, _, follows_unlock hf⟩
  | status period s =>
    cases hprog
    cases hi
    exact ⟨_, _, _, _, follows_setStatus hf⟩

end

/-! ## Runs -/

/-- The posting is between its period check and its answer. -/
def PostingInstr.Midway : PostingInstr C SHARDS → Prop
  | .checkVersions _ | .append .. => True
  | .start _ | .lock _ | .checkPeriod _ | .unlock _ | .setStatus .. => False

/-- No posting is between its period check and its answer. -/
def Settled (w : Machine.State (PostingHistory C × PostingCore C SHARDS) (PostingInstr C SHARDS)) : Prop :=
  ∀ prog ∈ w.threads, ∀ i ∈ prog, ¬ i.Midway

/-- The invariant of the runs that start with `eng`. -/
def Serialized (eng : JournalEngine C SHARDS)
    (w : Machine.State (PostingHistory C × PostingCore C SHARDS) (PostingInstr C SHARDS)) : Prop :=
  ∃ calls final status answers, w.threads = calls.map Prod.fst ∧
    Follows eng w.core.1 w.core.2 calls final status answers

theorem serialized_init (eng : JournalEngine C SHARDS) : Serialized eng { core := ({}, { engine := eng }) } :=
  ⟨[], eng.shards, eng.periodStatus, [], rfl, fun _ hq => (nomatch hq), rfl, rfl, .init⟩

theorem phase_prog (eng : JournalEngine C SHARDS) (op : PostingOp C) : Phase eng (PostingInstr.prog op) (idle []) := by
  cases op with
  | post p =>
    simp only [PostingInstr.prog]
    split
    · exact .start p
    · exact .unlocking []
  | setPeriodStatus period status => exact .status period status

theorem serialized_step {w t : Machine.State (PostingHistory C × PostingCore C SHARDS) (PostingInstr C SHARDS)}
    {a : PostingLabel C} (h : Serialized eng w) (ht : (recorded C SHARDS).step w a = some t) : Serialized eng t := by
  obtain ⟨calls, final, status, answers, hthreads, hf⟩ := h
  cases (recorded C SHARDS).moves_of_step ht with
  | spawn op =>
    refine ⟨calls ++ [(PostingInstr.prog op, idle [])], final, status, answers, ?_, ?_, hf.engine, hf.order, ?_⟩
    · rw [List.map_append, ← hthreads]
      rfl
    · intro q hq
      rcases List.mem_append.mp hq with hq | hq
      · exact hf.phases q hq
      · rw [List.mem_singleton.mp hq]
        exact phase_prog eng op
    · rw [List.map_append]
      exact hf.serial.spawn
  | env e => exact ⟨calls, final, status, answers, hthreads, hf⟩
  | @run th choice i rest more core hth hi =>
    have hmap : (PostingInstr.instr w.core.2 i choice).map (fun r => ((w.core.1.record w.core.2 i, r.1), r.2)) =
        some (core, more) := hi
    obtain ⟨⟨c', more'⟩, hinstr, hcore⟩ := Option.map_eq_some_iff.mp hmap
    cases hcore
    rw [hthreads, List.getElem?_map] at hth
    obtain ⟨⟨prog, job⟩, hq, rfl⟩ := Option.map_eq_some_iff.mp hth
    obtain ⟨hlt, hget⟩ := List.getElem?_eq_some_iff.mp hq
    obtain ⟨before, after, hcalls, hlen⟩ : ∃ before after, calls = before ++ (i :: rest, job) :: after ∧
        before.length = th :=
      ⟨calls.take th, calls.drop (th + 1), by rw [← hget, List.getElem_cons_drop, List.take_append_drop],
        List.length_take_of_le hlt.le⟩
    subst hcalls
    obtain ⟨job', final', status', answers', hnext⟩ := follows_instr hf hinstr
    refine ⟨before ++ (more' ++ rest, job') :: after, final', status', answers', ?_, hnext⟩
    show w.threads.set th (more' ++ rest) = _
    rw [hthreads, ← hlen, List.map_append, List.map_cons, List.map_append, List.map_cons]
    have hset := List.set_append_right (s := before.map Prod.fst) (t := (i :: rest) :: after.map Prod.fst) before.length
      (more' ++ rest) (by rw [List.length_map])
    rw [hset, List.length_map, Nat.sub_self]
    rfl

theorem settled_idle {w : Machine.State (PostingHistory C × PostingCore C SHARDS) (PostingInstr C SHARDS)}
    {calls : List (List (PostingInstr C SHARDS) × PostingJob C SHARDS)} (hthreads : w.threads = calls.map Prod.fst)
    (hphases : ∀ q ∈ calls, Phase eng q.1 q.2) (hw : Settled w) : ∀ job ∈ calls.map Prod.snd, ∃ s, job = idle s := by
  intro job hjob
  obtain ⟨⟨prog, job⟩, hq, rfl⟩ := List.mem_map.mp hjob
  have hprog : prog ∈ w.threads := hthreads ▸ List.mem_map_of_mem hq
  have hphase : Phase eng prog job := hphases _ hq
  cases hphase with
  | start p => exact ⟨_, rfl⟩
  | locking p taken js hseq => exact ⟨_, rfl⟩
  | checking p => exact absurd trivial (hw _ hprog _ List.mem_cons_self)
  | appending p legs hlegs => exact absurd trivial (hw _ hprog _ List.mem_cons_self)
  | unlocking held => exact ⟨_, rfl⟩
  | status period s => exact ⟨_, rfl⟩

/-- **Postings are atomic.**  In every interleaving of postings and status changes, guarded postings among them: when
no posting is at work, the engine and the answers are those of the calls made one after another, in the order in which
they came to the statuses. -/
theorem postings_serial (eng : JournalEngine C SHARDS) (labels : List (PostingLabel C)) :
    LabelledRun.AllStates (recorded C SHARDS).step (fun w => Settled w → ∃ answers,
      eng.oneByOne w.core.1.order = some (answers, w.core.2.engine) ∧ answers.Perm w.core.1.answers)
      { core := ({}, { engine := eng }) } labels := by
  have hrun := LabelledRun.allStates_of_step (recorded C SHARDS).step
    (fun w a t (h : Serialized eng w) ht => serialized_step h ht) labels (serialized_init eng)
  refine hrun.mono _ fun w ⟨calls, final, status, answers, hthreads, hf⟩ hw => ?_
  obtain ⟨hfinal, hperm⟩ := hf.serial.settled (settled_idle hthreads hf.phases hw)
  refine ⟨answers, ?_, hperm⟩
  rw [hf.order, hfinal, ← hf.engine]

end TptErp.Gl
