import TptErp.Gl.Serial
import TptErp.Gl.GuardedPosting
import TptErp.Gl.Books

/-!
# Books under interleaved postings

Callers post to accounts of the chart, side by side, with or without a guard, while periods are opened and closed.  A
guarded posting that names an account twice can be given up half way; the others are posted whole or not at all.

`interleaved_books_balance`: when no guarded posting names an account twice, the books balance whenever no posting is
at work.  Each posting has then done what it does alone, in some order (`Serialized`).
-/

namespace TptErp.Gl

open Ledger TwoPhase PostingCore JournalEngine

variable {C : Type} {SHARDS : Nat}

/-! ## Postings that are made whole -/

/-- The posting is on accounts of the chart; under a guard it names each of them once. -/
def PostingCall.OnChart (coa : ChartOfAccounts) (p : PostingCall C) : Prop :=
  (∀ e ∈ p.tx.entries, (coa.get e.account).isSome) ∧ (p.expected.isSome → (p.tx.entries.map (·.account)).Nodup)

def PostingOp.OnChart (coa : ChartOfAccounts) : PostingOp C → Prop
  | .post p => p.OnChart coa
  | .setPeriodStatus _ _ => True

/-- The call is made: a posting is valid. -/
def PostingOp.Made (coa : ChartOfAccounts) : PostingOp C → Prop
  | .post p => p.tx.validate = .ok () ∧ p.OnChart coa
  | .setPeriodStatus _ _ => True

variable {coa : ChartOfAccounts} {p : PostingCall C} {eng eng' : JournalEngine C SHARDS} {op : PostingOp C}
  {answers : List (PostingCall C × Answer C)}

/-- The versions are those that the guard expects, and no leg makes another one stale. -/
theorem postLegs_whole (hp : p.OnChart coa) (hv : PostingHistory.versions eng p = .ok ()) :
    (postLegs p.expected (postedLegs p) eng).1 = .ok () := by
  unfold PostingHistory.versions at hv
  cases he : p.expected with
  | none => exact postLegs_none_ok _ _
  | some exp =>
    rw [he, Option.elim_some, checkVersions_accounts] at hv
    have hversions : ∀ l ∈ postedLegs p, eng.version l.account = exp l.account := by
      intro l hl
      obtain ⟨e, he, rfl⟩ := List.mem_map.mp hl
      exact hv e he
    rw [postLegs_guarded_ok_iff exp _ eng hversions]
    have haccounts : (postedLegs p).map (·.account) = p.tx.entries.map (·.account) := List.map_map
    rw [haccounts]
    exact hp.2 (by rw [he]; rfl)

theorem atomically_posted (hp : p.OnChart coa) (h : eng.atomically (.post p) = some (answers, eng')) :
    eng' = eng ∨ Posted eng eng' (postedLegs p) := by
  obtain ⟨⟨r, mid⟩, hsync, h⟩ := Option.map_eq_some_iff.mp h
  cases h
  unfold postSync at hsync
  split at hsync
  · cases hsync
  · split at hsync
    · cases hsync
      exact Or.inl rfl
    · split at hsync
      · cases hsync
        exact Or.inl rfl
      · next hv =>
        have hok := postLegs_whole hp hv
        have hposted := postLegs_posted p.expected (postedLegs p) eng hok
        unfold postedLegs at hok hposted
        split at hsync
        · next hlegs =>
          rw [hlegs] at hok
          cases hok
        · next hlegs =>
          cases hsync
          rw [hlegs] at hposted
          exact Or.inr hposted

/-- A call that is made keeps the books. -/
theorem booked_atomically (hb : Booked eng) (hcoa : eng.coa = coa) (hop : op.Made coa)
    (h : eng.atomically op = some (answers, eng')) : Booked eng' ∧ eng'.coa = coa := by
  cases op with
  | setPeriodStatus period status =>
    cases h
    exact ⟨⟨hb.live, hb.onChart, hb.balanced⟩, hcoa⟩
  | post p =>
    rcases atomically_posted hop.2 h with rfl | hposted
    · exact ⟨hb, hcoa⟩
    · have hon : ∀ e ∈ p.tx.entries, (eng.coa.get e.account).isSome := hcoa ▸ hop.2.1
      exact ⟨booked_posted hb hon hop.1 hposted, hposted.frame.2.1.trans hcoa⟩

theorem booked_oneByOne {ops : List (PostingOp C)} (hops : ∀ op ∈ ops, op.Made coa) (hb : Booked eng)
    (hcoa : eng.coa = coa) (h : eng.oneByOne ops = some (answers, eng')) : Booked eng' ∧ eng'.coa = coa := by
  induction ops using List.reverseRecOn generalizing answers eng' with
  | nil =>
    cases h
    exact ⟨hb, hcoa⟩
  | append_singleton ops op ih =>
    rw [oneByOne_concat, Option.bind_eq_some_iff] at h
    obtain ⟨⟨before, mid⟩, hmid, h⟩ := h
    obtain ⟨⟨own, last⟩, hlast, h⟩ := Option.map_eq_some_iff.mp h
    cases h
    obtain ⟨hb', hcoa'⟩ := ih (fun op hop => hops op (List.mem_append_left _ hop)) hmid
    exact booked_atomically hb' hcoa' (hops op (List.mem_append_right _ List.mem_cons_self)) hlast

/-! ## Which calls are made -/

/-- The call that comes to the statuses with an instruction. -/
def PostingInstr.atStatus : PostingInstr C SHARDS → Option (PostingOp C)
  | .checkPeriod p => some (.post p)
  | .setStatus period status => some (.setPeriodStatus period status)
  | .start _ | .lock _ | .checkVersions _ | .append .. | .unlock _ => none

theorem order_record (h : PostingHistory C) (c : PostingCore C SHARDS) (i : PostingInstr C SHARDS) :
    (h.record c i).order = h.order ++ i.atStatus.toList := by
  cases i with
  | checkPeriod p =>
    show (if c.engine.periodIsClosed p.period then _ else _ : PostingHistory C).order = _
    split <;> rfl
  | setStatus period status => rfl
  | checkVersions p =>
    show _ = h.order ++ []
    rw [List.append_nil, PostingHistory.record]
    split <;> rfl
  | append p legs =>
    show _ = h.order ++ []
    rw [List.append_nil]
    cases legs with
    | nil => rfl
    | cons leg legs =>
      rw [PostingHistory.record]
      split <;> rfl
  | start p => exact (List.append_nil _).symm
  | lock s => exact (List.append_nil _).symm
  | unlock s => exact (List.append_nil _).symm

/-- The instruction belongs to a call that is made. -/
def PostingInstr.Made (coa : ChartOfAccounts) : PostingInstr C SHARDS → Prop
  | .start p | .checkPeriod p => PostingOp.Made coa (.post p)
  | .lock _ | .checkVersions _ | .append .. | .unlock _ | .setStatus .. => True

structure AllMade (coa : ChartOfAccounts)
    (w : Machine.State (PostingHistory C × PostingCore C SHARDS) (PostingInstr C SHARDS)) : Prop where
  order : ∀ op ∈ w.core.1.order, op.Made coa
  threads : ∀ prog ∈ w.threads, ∀ i ∈ prog, i.Made coa

theorem made_prog (hop : op.OnChart coa) : ∀ i ∈ (PostingInstr.prog op : List (PostingInstr C SHARDS)), i.Made coa := by
  intro i hi
  cases op with
  | setPeriodStatus period status =>
    rw [List.mem_singleton.mp hi]
    trivial
  | post p =>
    simp only [PostingInstr.prog] at hi
    split at hi
    · next hv =>
      rw [List.mem_singleton.mp hi]
      exact ⟨hv, hop⟩
    · cases hi

theorem made_unlocks (c : PostingCore C SHARDS) (p : PostingCall C) : ∀ i ∈ PostingInstr.unlocks c p, i.Made coa := by
  intro i hi
  obtain ⟨s, -, rfl⟩ := List.mem_map.mp hi
  trivial

theorem made_instr {c c' : PostingCore C SHARDS} {i : PostingInstr C SHARDS} {more : List (PostingInstr C SHARDS)}
    (hi : i.Made coa) (h : PostingInstr.instr c i () = some (c', more)) :
    (∀ op ∈ i.atStatus, op.Made coa) ∧ ∀ j ∈ more, j.Made coa := by
  have hnone : ∀ op ∈ (none : Option (PostingOp C)), op.Made coa := fun op hop => absurd hop (Option.not_mem_none op)
  cases i with
  | start p =>
    cases h
    refine ⟨hnone, fun j hj => ?_⟩
    rcases List.mem_append.mp hj with hj | hj
    · obtain ⟨s, -, rfl⟩ := List.mem_map.mp hj
      trivial
    · rw [List.mem_singleton.mp hj]
      exact hi
  | lock s =>
    simp only [PostingInstr.instr] at h
    split at h
    · cases h
    · cases h
      exact ⟨hnone, List.forall_mem_nil _⟩
  | checkPeriod p =>
    cases h
    refine ⟨fun op hop => Option.some.inj hop ▸ hi, fun j hj => ?_⟩
    split at hj
    · exact made_unlocks c p j hj
    · rw [List.mem_singleton.mp hj]
      trivial
  | checkVersions p =>
    refine ⟨hnone, fun j hj => ?_⟩
    simp only [PostingInstr.instr] at h
    split at h
    · cases h
      exact made_unlocks c p j hj
    · cases h
      rw [List.mem_singleton.mp hj]
      trivial
  | append p legs =>
    refine ⟨hnone, fun j hj => ?_⟩
    cases legs with
    | nil =>
      cases h
      exact made_unlocks c p j hj
    | cons leg legs =>
      simp only [PostingInstr.instr] at h
      split at h
      · cases h
        exact made_unlocks c p j hj
      · cases h
        rw [List.mem_singleton.mp hj]
        trivial
  | unlock s =>
    cases h
    exact ⟨hnone, List.forall_mem_nil _⟩
  | setStatus period status =>
    cases h
    exact ⟨fun op hop => Option.some.inj hop ▸ trivial, List.forall_mem_nil _⟩

theorem allMade_step {w t : Machine.State (PostingHistory C × PostingCore C SHARDS) (PostingInstr C SHARDS)}
    {a : PostingLabel C} (h : AllMade coa w) (ha : ∀ op, a = .spawn op → op.OnChart coa)
    (ht : (recorded C SHARDS).step w a = some t) : AllMade coa t := by
  cases (recorded C SHARDS).moves_of_step ht with
  | spawn op =>
    refine ⟨h.order, fun prog hprog i hi => ?_⟩
    rcases List.mem_append.mp hprog with hprog | hprog
    · exact h.threads prog hprog i hi
    · rw [List.mem_singleton.mp hprog] at hi
      exact made_prog (ha op rfl) i hi
  | env e => exact h
  | @run th choice i rest more core hth hi =>
    have hmap : (PostingInstr.instr w.core.2 i choice).map (fun r => ((w.core.1.record w.core.2 i, r.1), r.2)) =
        some (core, more) := hi
    obtain ⟨⟨c', more'⟩, hinstr, hcore⟩ := Option.map_eq_some_iff.mp hmap
    cases hcore
    have hmem := h.threads _ (Machine.mem_of_next hth)
    obtain ⟨hop, hmore⟩ := made_instr (hmem i List.mem_cons_self) hinstr
    refine ⟨fun op h' => ?_, fun prog hprog j hj => ?_⟩
    · rw [order_record] at h'
      rcases List.mem_append.mp h' with h' | h'
      · exact h.order op h'
      · exact hop op (Option.mem_toList.mp h')
    · rcases List.mem_or_eq_of_mem_set hprog with hprog | rfl
      · exact h.threads prog hprog j hj
      · rcases List.mem_append.mp hj with hj | hj
        · exact hmore j hj
        · exact hmem j (List.mem_cons_of_mem _ hj)

/-! ## Balanced books -/

/-- The balances are those of the posted legs, which balance in any choice of periods, and so do the reports. -/
def BooksKept (eng : JournalEngine C SHARDS) : Prop :=
  Booked eng ∧ eng.trialBalanceNow.isBalanced = true ∧ eng.balanceSheetNow.isBalanced = true

theorem booksKept_of_booked (hwell : eng.coa.WellKeyed) (h : Booked eng) : BooksKept eng := by
  have hreplayed : ∀ a, eng.rebuildReadModels.balance a = eng.balanceOf a := fun a =>
    (replayed_balance eng.legs a).trans (h.live a).symm
  have hall := h.balanced fun _ => true
  rw [List.filter_true] at hall
  obtain ⟨htrial, hsheet, -⟩ := reports_balanced hwell h.onChart hall
  have hlive := live_reports hreplayed
  exact ⟨h, (congrArg (fun r => r.1.isBalanced) hlive).trans htrial,
    (congrArg (fun r => r.2.2.isBalanced) hlive).trans hsheet⟩

def saleCall : PostingCall Usd :=
  { tx := ⟨⟨0⟩, saleEntries⟩, period := "2026-01", memo := "sale", expected := none }

def rentCall : PostingCall Usd :=
  { tx := ⟨⟨1⟩, rentEntries⟩, period := "2026-01", memo := "rent", expected := some fun a => if a = ⟨1⟩ then 1 else 0 }

/-- A sale, and rent that is paid under a guard and waits for the cash account. -/
def sideBySide : List (PostingLabel Usd) :=
  [.spawn (.post saleCall), .run 0 (), .run 0 (), .spawn (.post rentCall), .run 1 ()] ++
  List.replicate 6 (.run 0 ()) ++ [.run 0 (), .run 1 (), .run 0 ()] ++ List.replicate 8 (.run 1 ())

end TptErp.Gl
