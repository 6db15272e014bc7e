import TptErp.Pos.Sync
import TptErp.Lib.Run

/-!
# Runs of the offline sync

Recordings and any number of `sync_to` runs, interleaved at each wait for the central store.  A
call may reach the central store and still be answered by an error, or not reach it at all.

A run clears the whole pending list when its last answer comes, also the sales recorded since it
copied the list: those are lost.  `nothing_lost_iff` says when this does not happen.
-/

namespace TptErp.Pos.SyncRuns

/-- One `sync_to` call. -/
inductive SyncRun
  /-- The copy of the pending list, the sales of it that were not answered yet (the first one is
  being applied), and whether the call for the first one has reached the central store. -/
  | applying (copy rest : List SaleEvent) (arrived : Bool)
  /-- The pending list was cleared; the checkpoint and the job are being written. -/
  | publishing (synced : Nat)
  | done (result : Option Nat)

structure World where
  sync : PosSync
  central : InMemoryCentral := {}
  runs : List SyncRun := []

inductive Label
  /-- `record_offline`. -/
  | record (sale : SaleEvent)
  /-- A new `sync_to` copies the pending list. -/
  | start
  /-- The call that run `i` waits for is carried out at the central store. -/
  | arrive (i : Nat)
  /-- Run `i` is answered that its sale was applied. -/
  | answerOk (i : Nat)
  /-- Run `i` is answered an error and gives up. -/
  | answerErr (i : Nat)
  /-- The job of run `i` was published, or its publication failed. -/
  | published (i : Nat) (ok : Bool)

namespace World

def setRun (w : World) (i : Nat) (r : SyncRun) : World := { w with runs := w.runs.set i r }

def clear (w : World) : World := { w with sync := w.sync.clear }

def step (w : World) : Label → Option World
  | .record sale => some { w with sync := w.sync.recordOffline sale }
  | .start =>
    match w.sync.pending with
    | [] => some { w with runs := w.runs ++ [.done (some 0)] }
    | sale :: rest => some { w with runs := w.runs ++ [.applying (sale :: rest) (sale :: rest) false] }
  | .arrive i =>
    match w.runs[i]? with
    | some (.applying copy (sale :: rest) false) =>
      some { w.setRun i (.applying copy (sale :: rest) true) with central := w.central.applySale sale }
    | _ => none
  | .answerOk i =>
    match w.runs[i]? with
    | some (.applying copy [_] true) => some (w.clear.setRun i (.publishing copy.length))
    | some (.applying copy (_ :: next :: rest) true) =>
      some (w.setRun i (.applying copy (next :: rest) false))
    | _ => none
  | .answerErr i =>
    match w.runs[i]? with
    | some (.applying _ (_ :: _) _) => some (w.setRun i (.done none))
    | _ => none
  | .published i ok =>
    match w.runs[i]? with
    | some (.publishing synced) =>
      if ok then some { w.setRun i (.done (some synced)) with sync := w.sync.finish }
      else some (w.setRun i (.done none))
    | _ => none

/-! ## The property -/

/-- Every recorded sale is pending or applied. -/
def NothingLost (w : World) : Prop :=
  ∀ sale ∈ w.sync.recorded, sale ∈ w.sync.pending ∨ w.central.Has sale.txnId

/-- No sale is applied twice. -/
def AppliedOnce (w : World) : Prop := (w.central.applied.map (·.txnId)).Nodup

/-- This step is the last answer of a run that copied `copy` at its start. -/
def LastAnswer (w : World) (a : Label) (copy : List SaleEvent) : Prop :=
  ∃ i sale, a = .answerOk i ∧ w.runs[i]? = some (.applying copy [sale] true)

/-- At a run's last answer no sale is pending that the run has not copied, unless another run has
already applied it. -/
def ClearsCopied (w : World) (a : Label) : Prop :=
  ∀ copy, w.LastAnswer a copy →
    ∀ sale ∈ w.sync.pending, sale ∈ copy ∨ w.central.Has sale.txnId

/-! ## The invariant of the runs -/

/-- What a run has already been answered for is applied. -/
def RunOk (c : InMemoryCentral) : SyncRun → Prop
  | .applying copy rest arrived =>
    (∀ sale ∈ copy, sale ∈ rest ∨ c.Has sale.txnId) ∧
      ∀ sale, arrived = true → rest.head? = some sale → c.Has sale.txnId
  | _ => True

structure Inv (w : World) : Prop where
  runs : ∀ r ∈ w.runs, RunOk w.central r
  pending : ∀ sale ∈ w.sync.pending, sale ∈ w.sync.recorded

theorem RunOk.mono {c c' : InMemoryCentral} (h : ∀ key, c.Has key → c'.Has key) {r : SyncRun}
    (hr : RunOk c r) : RunOk c' r := by
  cases r with
  | applying copy rest arrived =>
    obtain ⟨h1, h2⟩ := hr
    exact ⟨fun sale hs => (h1 sale hs).imp id (h _), fun sale ha hh => h _ (h2 sale ha hh)⟩
  | publishing synced => trivial
  | done result => trivial

theorem runs_setRun {P : SyncRun → Prop} {w : World} {i : Nat} {r : SyncRun} (h : ∀ x ∈ w.runs, P x)
    (hr : P r) : ∀ x ∈ (w.setRun i r).runs, P x := by
  intro x hx
  rcases List.mem_or_eq_of_mem_set hx with hx | rfl
  · exact h x hx
  · exact hr

/-- The possible steps, one case for each thing a step can do. -/
inductive Moves (w : World) : Label → World → Prop
  | record (sale : SaleEvent) : Moves w (.record sale) { w with sync := w.sync.recordOffline sale }
  | startIdle : Moves w .start { w with runs := w.runs ++ [.done (some 0)] }
  | start : Moves w .start { w with runs := w.runs ++ [.applying w.sync.pending w.sync.pending false] }
  | arrive {i : Nat} {copy rest : List SaleEvent} {sale : SaleEvent}
      (run : w.runs[i]? = some (.applying copy (sale :: rest) false)) :
      Moves w (.arrive i)
        { w.setRun i (.applying copy (sale :: rest) true) with central := w.central.applySale sale }
  | next {i : Nat} {copy rest : List SaleEvent} {sale next : SaleEvent}
      (run : w.runs[i]? = some (.applying copy (sale :: next :: rest) true)) :
      Moves w (.answerOk i) (w.setRun i (.applying copy (next :: rest) false))
  | last {i : Nat} {copy : List SaleEvent} {sale : SaleEvent}
      (run : w.runs[i]? = some (.applying copy [sale] true)) :
      Moves w (.answerOk i) (w.clear.setRun i (.publishing copy.length))
  | giveUp (i : Nat) : Moves w (.answerErr i) (w.setRun i (.done none))
  | unpublished (i : Nat) : Moves w (.published i false) (w.setRun i (.done none))
  | published (i synced : Nat) :
      Moves w (.published i true) { w.setRun i (.done (some synced)) with sync := w.sync.finish }

theorem moves_of_step {w t : World} {a : Label} (h : w.step a = some t) : w.Moves a t := by
  cases a with
  | record sale =>
    cases h
    exact .record sale
  | start =>
    simp only [step] at h
    split at h
    · cases h
      exact .startIdle
    · next sale rest hp =>
      rw [← hp] at h
      cases h
      exact .start
  | arrive i =>
    simp only [step] at h
    split at h
    · next hr => cases h; exact .arrive hr
    · cases h
  | answerOk i =>
    simp only [step] at h
    split at h
    · next hr => cases h; exact .last hr
    · next hr => cases h; exact .next hr
    · cases h
  | answerErr i =>
    simp only [step] at h
    split at h
    · cases h; exact .giveUp i
    · cases h
  | published i ok =>
    simp only [step] at h
    split at h
    · next synced hr =>
      cases ok with
      | true => cases h; exact .published i synced
      | false => cases h; exact .unpublished i
    · cases h

/-! ## What a step keeps -/

theorem runOk_of_get {w : World} (h : Inv w) {i : Nat} {r : SyncRun} (hr : w.runs[i]? = some r) :
    RunOk w.central r :=
  h.runs r (List.mem_of_getElem? hr)

/-- Every step keeps the invariant. -/
theorem inv_step {w t : World} {a : Label} (h : Inv w) (ht : w.step a = some t) : Inv t := by
  cases moves_of_step ht with
  | record sale =>
    refine ⟨h.runs, fun x hx => ?_⟩
    simp only [PosSync.recordOffline_pending, PosSync.recordOffline_recorded, List.mem_append] at hx ⊢
    exact hx.imp (h.pending x) id
  | startIdle =>
    refine ⟨fun r hr => ?_, h.pending⟩
    rcases List.mem_append.mp hr with hr | hr
    · exact h.runs r hr
    · rw [List.mem_singleton.mp hr]
      trivial
  | start =>
    refine ⟨fun r hr => ?_, h.pending⟩
    rcases List.mem_append.mp hr with hr | hr
    · exact h.runs r hr
    · rw [List.mem_singleton.mp hr]
      exact ⟨fun sale hs => Or.inl hs, fun sale ha => nomatch ha⟩
  | @arrive i copy rest sale hr =>
    have hmono : ∀ key, w.central.Has key → (w.central.applySale sale).Has key := fun key hk =>
      (w.central.applySale_has sale key).mpr (Or.inl hk)
    have hrun := (runOk_of_get h hr).mono hmono
    refine ⟨runs_setRun (fun r hr => (h.runs r hr).mono hmono) ⟨hrun.1, fun x _ hx => ?_⟩, h.pending⟩
    cases hx
    exact (w.central.applySale_has sale _).mpr (Or.inr rfl)
  | @next i copy rest sale next hr =>
    obtain ⟨h1, h2⟩ := runOk_of_get h hr
    refine ⟨runs_setRun h.runs ⟨fun x hx => ?_, fun x ha => nomatch ha⟩, h.pending⟩
    rcases h1 x hx with hx | hx
    · rcases List.mem_cons.mp hx with rfl | hx
      · exact Or.inr (h2 x rfl rfl)
      · exact Or.inl hx
    · exact Or.inr hx
  | last hr => exact ⟨runs_setRun h.runs trivial, fun x hx => nomatch hx⟩
  | giveUp i => exact ⟨runs_setRun h.runs trivial, h.pending⟩
  | unpublished i => exact ⟨runs_setRun h.runs trivial, h.pending⟩
  | published i synced => exact ⟨runs_setRun h.runs trivial, h.pending⟩

theorem appliedOnce_step {w t : World} {a : Label} (h : AppliedOnce w) (ht : w.step a = some t) :
    AppliedOnce t := by
  cases moves_of_step ht with
  | arrive hr => exact w.central.applySale_nodup _ h
  | _ => exact h

/-- A step loses nothing exactly when it does not clear a sale that was not copied. -/
theorem nothingLost_step {w t : World} {a : Label} (hinv : Inv w) (h : NothingLost w)
    (ht : w.step a = some t) : NothingLost t ↔ ClearsCopied w a := by
  have hno : (∀ copy, ¬ w.LastAnswer a copy) → NothingLost t → (NothingLost t ↔ ClearsCopied w a) :=
    fun hno hl => iff_of_true hl fun copy hc => absurd hc (hno copy)
  cases moves_of_step ht with
  | @last i copy sale hr =>
    obtain ⟨h1, h2⟩ := runOk_of_get hinv hr
    -- by the last answer the whole copy is applied
    have hcopy : ∀ x ∈ copy, w.central.Has x.txnId := by
      intro x hx
      rcases h1 x hx with hx | hx
      · rw [List.mem_singleton.mp hx]
        exact h2 sale rfl rfl
      · exact hx
    constructor
    · intro hl copy' hlast x hx
      rcases hl x (hinv.pending x hx) with hp | hp
      · cases hp
      · exact Or.inr hp
    · intro hc x hx
      right
      rcases h x hx with hp | hp
      · exact (hc copy ⟨i, sale, rfl, hr⟩ x hp).elim (hcopy x) id
      · exact hp
  | record sale =>
    refine hno (by rintro copy ⟨i, x, hx, -⟩; cases hx) fun x hx => ?_
    simp only [PosSync.recordOffline_recorded, PosSync.recordOffline_pending, List.mem_append] at hx ⊢
    rcases hx with hx | hx
    · exact (h x hx).imp Or.inl id
    · exact Or.inl (Or.inr hx)
  | arrive hr =>
    refine hno (by rintro copy ⟨i, x, hx, -⟩; cases hx) fun x hx => (h x hx).imp id fun hk => ?_
    exact (w.central.applySale_has _ _).mpr (Or.inl hk)
  | next hr =>
    refine hno ?_ h
    rintro copy ⟨j, x, hx, hr'⟩
    cases hx
    rw [hr] at hr'
    cases hr'
  | startIdle => exact hno (by rintro copy ⟨i, x, hx, -⟩; cases hx) h
  | start => exact hno (by rintro copy ⟨i, x, hx, -⟩; cases hx) h
  | giveUp i => exact hno (by rintro copy ⟨i, x, hx, -⟩; cases hx) h
  | unpublished i => exact hno (by rintro copy ⟨i, x, hx, -⟩; cases hx) h
  | published i synced => exact hno (by rintro copy ⟨i, x, hx, -⟩; cases hx) h

/-! ## Whole runs -/

/-- A new register and an empty central store. -/
def init (terminal : Id PosTerminal) : World := { sync := { terminal } }

theorem inv_init (terminal : Id PosTerminal) : Inv (init terminal) :=
  ⟨fun _ hr => (nomatch hr), fun _ hs => (nomatch hs)⟩

/-- In every run every sale is applied at most once. -/
theorem appliedOnce_run (terminal : Id PosTerminal) (labels : List Label) :
    LabelledRun.AllStates step AppliedOnce (init terminal) labels :=
  LabelledRun.allStates_of_step step (fun _ _ _ h ht => appliedOnce_step h ht) labels List.nodup_nil

/-- **When offline sync loses and duplicates nothing.**  Throughout a run every recorded sale is
pending or applied, and none applied twice, exactly when no run clears a sale that it has not
copied and that no other run has applied. -/
theorem nothing_lost_iff (terminal : Id PosTerminal) (labels : List Label) :
    LabelledRun.AllStates step (fun w => NothingLost w ∧ AppliedOnce w) (init terminal) labels ↔
      LabelledRun.AllSteps step (fun w a => ∀ t, w.step a = some t → ClearsCopied w a)
        (init terminal) labels := by
  refine LabelledRun.allStates_iff_allSteps step Inv (fun w a t hi _ _ ht => inv_step hi ht)
    ?_ (inv_init terminal) ⟨fun _ hs => (nomatch hs), List.nodup_nil⟩
  intro w a t hinv hP ht
  rw [← nothingLost_step hinv hP.1 ht]
  exact and_iff_left (appliedOnce_step hP.2 ht)

/-- A sale of five dollars in cash. -/
def fiveDollars (n : Nat) : SaleEvent :=
  { txnId := .txn ⟨n⟩, terminal := ⟨0⟩, kind := .sale, total := 5, tenders := [(.cash, 5)] }

/-- The second sale is recorded while the run waits for the central store; when the answer comes
it is cleared without having been applied. -/
theorem sale_lost_during_sync :
    ¬ LabelledRun.AllStates step (fun w => NothingLost w ∧ AppliedOnce w) (init ⟨0⟩)
      [.record (fiveDollars 1), .start, .arrive 0, .record (fiveDollars 2), .answerOk 0] := by
  intro h
  obtain ⟨hl, -⟩ := h.last step rfl
  have hrec : fiveDollars 2 ∈ [fiveDollars 1, fiveDollars 2] := by simp
  rcases hl (fiveDollars 2) hrec with hp | hp
  · cases hp
  · revert hp
    decide

end World

end TptErp.Pos.SyncRuns
