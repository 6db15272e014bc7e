import TptErp.Server.Isolation
import TptErp.Lib.Run
import Mathlib.Tactic.Linarith

/-!
# Sums of decimals

The validation of a transaction and the replay of a journal add decimals up.  Their sums are exact when all
partial sums are representable: those of each side of a transaction (`SidesFit`), and those of each account's
entries in the journal (`EntriesFit`).

`ledger_holds`: in a run whose transactions all fit, each is answered, only balanced ones are accepted, and
every tenant's balances add up to zero.
-/

namespace TptErp.Server

open Tenant Ledger

abbrev SumsFit := ScaledInt.SumsFit (2 ^ 96) 28

/-! ## Transactions -/

/-- The exact sum of one side. -/
def Posting.exactTotal (tx : Posting) (side : EntrySide) : ℚ := ((tx.amounts side).map ScaledInt.value).sum

def Posting.Balanced (tx : Posting) : Prop := tx.exactTotal .debit = tx.exactTotal .credit

instance (tx : Posting) : Decidable tx.Balanced := inferInstanceAs (Decidable (_ = _))

/-- The partial sums of both sides are representable. -/
def Posting.SidesFit (tx : Posting) : Prop := ∀ side, SumsFit 0 ((tx.amounts side).map ScaledInt.value)

theorem Posting.total_exact {tx : Posting} (h : tx.SidesFit) (side : EntrySide) :
    ∃ d, tx.total side = some d ∧ d.value = tx.exactTotal side := by
  have hzero : Decimal.ZERO.value = 0 := ScaledInt.value_zero _
  have hfit := h side
  rw [← hzero] at hfit
  obtain ⟨d, hd, hvalue⟩ := ScaledInt.sum_exact Decimal.ZERO (tx.amounts side) hfit
  refine ⟨d, hd, ?_⟩
  rw [hvalue, hzero, zero_add]
  rfl

/-- A transaction that fits is compared by its exact sums. -/
theorem Posting.sums_exact {tx : Posting} (h : tx.SidesFit) :
    ∃ debits credits, tx.debits = some debits ∧ tx.credits = some credits ∧
      (debits.same credits = true ↔ tx.Balanced) := by
  obtain ⟨debits, hd, hdv⟩ := Posting.total_exact h .debit
  obtain ⟨credits, hc, hcv⟩ := Posting.total_exact h .credit
  refine ⟨debits, credits, hd, hc, ?_⟩
  rw [ScaledInt.same_iff, hdv, hcv]
  rfl

theorem Posting.validate_exact {tx : Posting} (h : 2 ≤ tx.entries.length → tx.SidesFit) :
    ∃ r, tx.validate = some r ∧ (r = .ok () ↔ 2 ≤ tx.entries.length ∧ tx.Balanced) := by
  unfold Posting.validate
  by_cases hlen : tx.entries.length < 2
  · rw [if_pos hlen]
    refine ⟨_, rfl, iff_of_false nofun ?_⟩
    rintro ⟨hge, -⟩
    omega
  · obtain ⟨debits, credits, hd, hc, hsame⟩ := Posting.sums_exact (h (by omega))
    rw [if_neg hlen, hd, hc]
    refine ⟨_, rfl, ?_⟩
    by_cases heq : debits.same credits = true
    · rw [if_pos heq]
      exact iff_of_true rfl ⟨by omega, hsame.mp heq⟩
    · rw [if_neg heq]
      exact iff_of_false nofun fun hb => heq (hsame.mpr hb.2)

/-! ## Balances -/

/-- What an entry adds to its account. -/
def Entry.signed (e : Entry) : ℚ :=
  match e.side with
  | .debit => -e.amount.value
  | .credit => e.amount.value

/-- The exact balance of an account. -/
def exactBalance (entries : List Entry) (account : AccountId) : ℚ :=
  ((entries.filter fun e => e.account = account).map Entry.signed).sum

/-- The running balances of all accounts are representable. -/
def EntriesFit (entries : List Entry) : Prop :=
  ∀ account, SumsFit 0 ((entries.filter fun e => e.account = account).map Entry.signed)

theorem EntriesFit.left {es rest : List Entry} (h : EntriesFit (es ++ rest)) : EntriesFit es := by
  intro account
  have ha := h account
  rw [List.filter_append, List.map_append] at ha
  exact ((ScaledInt.sumsFit_append ..).mp ha).1

/-- The balances are the exact ones of the entries, also in total. -/
structure Tracks (balances : Balances) (entries : List Entry) : Prop where
  each : ∀ account, (balances.getD account Decimal.ZERO).value = exactBalance entries account
  total : AssocMap.sumOf ScaledInt.value balances = (entries.map Entry.signed).sum

theorem tracks_empty : Tracks ∅ [] := ⟨fun _ => ScaledInt.value_zero _, rfl⟩

theorem Entry.applyTo_exact (e : Entry) (balance : Decimal)
    (h : ScaledInt.Representable (2 ^ 96) 28 (balance.value + e.signed)) :
    ∃ d, e.applyTo balance = some d ∧ d.value = balance.value + e.signed := by
  obtain ⟨account, side, amount⟩ := e
  cases side with
  | debit =>
    have hneg : Entry.signed ⟨account, .debit, amount⟩ = amount.neg.value := (ScaledInt.value_neg amount).symm
    rw [hneg] at h ⊢
    exact (ScaledInt.add_exact_iff balance amount.neg).mpr h
  | credit => exact (ScaledInt.add_exact_iff balance amount).mpr h

/-- **One entry.** -/
theorem Tracks.applyEntry {balances : Balances} {es rest : List Entry} {e : Entry} (h : Tracks balances es)
    (hfit : EntriesFit (es ++ e :: rest)) :
    ∃ b, applyEntry balances e = some b ∧ Tracks b (es ++ [e]) := by
  have hrep : ScaledInt.Representable (2 ^ 96) 28
      ((balances.getD e.account Decimal.ZERO).value + e.signed) := by
    have ha := hfit e.account
    rw [List.filter_append, List.map_append, List.filter_cons_of_pos (by simp)] at ha
    have hb := ((ScaledInt.sumsFit_append ..).mp ha).2.1
    rw [zero_add] at hb
    rw [h.each]
    exact hb
  obtain ⟨d, hd, hvalue⟩ := e.applyTo_exact _ hrep
  refine ⟨_, by unfold Server.applyEntry; rw [hd]; rfl, ?_, ?_⟩
  · intro account
    rw [AssocMap.getD_insert_eq]
    unfold exactBalance
    rw [List.filter_append, List.map_append, List.sum_append]
    split
    · next heq =>
      rw [hvalue, h.each, heq, List.filter_cons_of_pos (by simp)]
      simp [exactBalance]
    · next hne =>
      rw [h.each, List.filter_cons_of_neg (by simpa using Ne.symm hne)]
      simp [exactBalance]
  · have hzero : Decimal.ZERO.value = 0 := ScaledInt.value_zero _
    have hsum := AssocMap.sumOf_insert ScaledInt.value balances e.account d hzero
    rw [List.map_append, List.sum_append, List.map_singleton, List.sum_singleton, ← h.total]
    rw [hvalue] at hsum
    show AssocMap.sumOf ScaledInt.value (balances.insert e.account d) = _
    linarith

theorem Tracks.applyEntries {balances : Balances} {es rest : List Entry} (h : Tracks balances es)
    (hfit : EntriesFit (es ++ rest)) :
    ∃ b, rest.foldlM Server.applyEntry balances = some b ∧ Tracks b (es ++ rest) := by
  induction rest generalizing balances es with
  | nil => exact ⟨balances, rfl, by rw [List.append_nil]; exact h⟩
  | cons e rest ih =>
    obtain ⟨b, hb, htracks⟩ := h.applyEntry hfit
    obtain ⟨c, hc, hfinal⟩ := ih htracks (by rw [List.append_assoc]; exact hfit)
    refine ⟨c, ?_, by rw [List.append_assoc] at hfinal; exact hfinal⟩
    rw [List.foldlM_cons, hb]
    exact hc

/-! ## Journals -/

/-- The entries of a journal. -/
def entriesOf (events : List LedgerEvent) : List Entry := events.flatMap fun ev => ev.posting.entries

theorem entriesOf_append (events events' : List LedgerEvent) :
    entriesOf (events ++ events') = entriesOf events ++ entriesOf events' := List.flatMap_append

/-- A journal of balanced transactions whose sums are all representable. -/
structure Holds (events : List LedgerEvent) : Prop where
  balanced : ∀ ev ∈ events, ev.posting.Balanced
  sides : ∀ ev ∈ events, ev.posting.SidesFit
  entries : EntriesFit (entriesOf events)

/-- **A replay is exact.** -/
theorem replay_exact {balances : Balances} {es : List Entry} (htracks : Tracks balances es)
    {events : List LedgerEvent} (hbalanced : ∀ ev ∈ events, ev.posting.Balanced)
    (hsides : ∀ ev ∈ events, ev.posting.SidesFit) (hfit : EntriesFit (es ++ entriesOf events)) :
    ∃ b, replay balances events = some (.ok b) ∧ Tracks b (es ++ entriesOf events) := by
  induction events generalizing balances es with
  | nil => exact ⟨balances, rfl, by rw [show entriesOf [] = [] from rfl, List.append_nil]; exact htracks⟩
  | cons ev rest ih =>
    obtain ⟨tx⟩ := ev
    have hentries : entriesOf (.transactionPosted tx :: rest) = tx.entries ++ entriesOf rest := List.flatMap_cons
    rw [hentries, ← List.append_assoc] at hfit
    obtain ⟨debits, credits, hd, hc, hsame⟩ := Posting.sums_exact (hsides _ List.mem_cons_self)
    have heq := hsame.mpr (hbalanced _ List.mem_cons_self)
    obtain ⟨b, hb, htracks⟩ := htracks.applyEntries hfit.left
    obtain ⟨c, hc', hfinal⟩ := ih htracks (fun e he => hbalanced e (List.mem_cons_of_mem _ he))
      (fun e he => hsides e (List.mem_cons_of_mem _ he)) hfit
    have happly : applyEvent balances (.transactionPosted tx) = some (.ok b) := by
      have hd : tx.debits = some debits := hd
      have hc : tx.credits = some credits := hc
      unfold applyEvent
      dsimp only
      rw [hd, hc]
      dsimp only [bind, Option.bind]
      rw [if_pos heq, hb]
    refine ⟨c, ?_, by rw [hentries, ← List.append_assoc]; exact hfinal⟩
    unfold replay
    rw [happly]
    exact hc'

/-- The signed amounts of a balanced transaction cancel. -/
theorem sum_signed (tx : Posting) : (tx.entries.map Entry.signed).sum = tx.exactTotal .credit - tx.exactTotal .debit := by
  unfold Posting.exactTotal Posting.amounts
  induction tx.entries with
  | nil => simp
  | cons e rest ih =>
    rw [List.map_cons, List.sum_cons, ih]
    unfold Entry.signed
    cases hside : e.side with
    | debit =>
      simp [hside]
      ring
    | credit =>
      simp [hside]
      ring

theorem sum_signed_entriesOf {events : List LedgerEvent} (h : ∀ ev ∈ events, ev.posting.Balanced) :
    ((entriesOf events).map Entry.signed).sum = 0 := by
  induction events with
  | nil => rfl
  | cons ev rest ih =>
    have hb : ev.posting.exactTotal .debit = ev.posting.exactTotal .credit := h ev List.mem_cons_self
    unfold entriesOf
    rw [List.flatMap_cons, List.map_append, List.sum_append, sum_signed, hb, sub_self, zero_add]
    exact ih fun e he => h e (List.mem_cons_of_mem _ he)

theorem Holds.balances {s : AppState} {tenant : TenantId} (h : Holds (s.journal tenant)) :
    ∃ b, s.balances tenant = some b ∧ AssocMap.sumOf ScaledInt.value b = 0 := by
  obtain ⟨b, hb, htracks⟩ := replay_exact tracks_empty h.balanced h.sides h.entries
  refine ⟨b, ?_, ?_⟩
  · rw [AppState.balances_eq, hb]
  · rw [htracks.total]
    exact sum_signed_entriesOf h.balanced

/-! ## Requests -/

variable (crates : Crates)

/-- A POST to `/transactions` of a tenant. -/
structure PostCall where
  tenant : TenantId
  ids : NewIds
  body : PostTransaction

namespace AppState

variable (s : AppState)

/-- The handler's answer, and the state afterwards. -/
def call (c : PostCall) : Option Response × AppState := postTransaction crates s c.tenant c.ids c.body

def postStep (c : PostCall) : Option AppState := some (s.call crates c).2

/-- All sums are representable: those of both sides of the transaction, and, when it balances, the running
balances of the journal with it. -/
def Fits (c : PostCall) : Prop :=
  ∀ entries, parseEntries crates 0 c.body.entries = .ok entries → 2 ≤ entries.length →
    let tx : Posting := { id := c.ids.tx, entries := entries }
    tx.SidesFit ∧ (tx.Balanced → EntriesFit (entriesOf (s.journal c.tenant) ++ entries))

/-- The handler answers, and accepts balanced transactions only. -/
def AnswersSoundly (c : PostCall) : Prop :=
  ∃ r, (s.call crates c).1 = some r ∧
    (r.status = 200 → ∃ entries, parseEntries crates 0 c.body.entries = .ok entries ∧
      Posting.Balanced { id := c.ids.tx, entries := entries })

/-- Balances can be read, and add up to zero. -/
def BalancesHold : Prop := ∀ tenant, ∃ b, s.balances tenant = some b ∧ AssocMap.sumOf ScaledInt.value b = 0

def AllHold : Prop := s.Sound ∧ ∀ tenant, Holds (s.journal tenant)

variable {s}

theorem intoResponse_status (err : PostError) : err.intoResponse.status ≠ 200 := by
  cases err with
  | badEntry err =>
    show ¬ 400 = 200
    decide
  | unbalanced err =>
    show ¬ 422 = 200
    decide

/-- **One request.** -/
theorem AllHold.call (h : s.AllHold) {c : PostCall} (hfits : s.Fits crates c) :
    s.AnswersSoundly crates c ∧ (s.call crates c).2.AllHold := by
  unfold AnswersSoundly AppState.call postTransaction
  cases hp : parseEntries crates 0 c.body.entries with
  | error err => exact ⟨⟨_, rfl, fun hs => absurd hs (intoResponse_status err)⟩, h⟩
  | ok entries =>
    have hf := hfits entries hp
    obtain ⟨r, hr, hok⟩ : ∃ r, Posting.validate { id := c.ids.tx, entries := entries } = some r ∧ _ :=
      Posting.validate_exact fun hlen => (hf hlen).1
    dsimp only
    rw [hr]
    cases r with
    | error err => exact ⟨⟨_, rfl, fun hs => absurd hs (intoResponse_status _)⟩, h⟩
    | ok u =>
      obtain ⟨hlen, hbalanced⟩ := hok.mp rfl
      obtain ⟨hsides, hentries⟩ := hf hlen
      obtain ⟨-, hsound, hjournal⟩ := h.1.post c.tenant c.ids.journal { id := c.ids.tx, entries := entries }
      refine ⟨⟨_, rfl, fun _ => ⟨entries, rfl, hbalanced⟩⟩, hsound, ?_⟩
      intro t
      rw [hjournal t]
      have ht := h.2 t
      split
      · next heq =>
        subst heq
        refine ⟨?_, ?_, ?_⟩
        · intro ev hev
          rcases List.mem_append.mp hev with hev | hev
          · exact ht.balanced ev hev
          · rw [List.mem_singleton.mp hev]
            exact hbalanced
        · intro ev hev
          rcases List.mem_append.mp hev with hev | hev
          · exact ht.sides ev hev
          · rw [List.mem_singleton.mp hev]
            exact hsides
        · rw [entriesOf_append]
          have hone : entriesOf [.transactionPosted { id := c.ids.tx, entries := entries }] = entries := by
            simp [entriesOf, LedgerEvent.posting]
          rw [hone]
          exact hentries hbalanced
      · exact ht

theorem allHold_new : ({} : AppState).AllHold :=
  ⟨sound_new, fun _ => ⟨nofun, nofun, fun _ => trivial⟩⟩

end AppState

/-- **No request breaks a ledger whose sums fit.**  In a run whose transactions have representable sums only,
every request is answered, only balanced transactions are accepted, and at every point each tenant's balances
can be read and add up to zero. -/
theorem ledger_holds (calls : List PostCall)
    (hfits : LabelledRun.AllSteps (AppState.postStep crates) (AppState.Fits crates) {} calls) :
    LabelledRun.AllSteps (AppState.postStep crates) (AppState.AnswersSoundly crates) {} calls ∧
      LabelledRun.AllStates (AppState.postStep crates) AppState.BalancesHold {} calls := by
  suffices ∀ s : AppState, s.AllHold → LabelledRun.AllSteps (AppState.postStep crates) (AppState.Fits crates) s calls →
      LabelledRun.AllSteps (AppState.postStep crates) (AppState.AnswersSoundly crates) s calls ∧
        LabelledRun.AllStates (AppState.postStep crates) AppState.BalancesHold s calls by
    exact this {} AppState.allHold_new hfits
  clear hfits
  intro s hs hfits
  induction calls generalizing s with
  | nil => exact ⟨trivial, fun tenant => (hs.2 tenant).balances⟩
  | cons c rest ih =>
    obtain ⟨hf, hrest⟩ := hfits
    obtain ⟨hanswers, hnext⟩ := hs.call crates hf
    have hsteps := ih _ hnext (hrest _ rfl)
    refine ⟨⟨hanswers, ?_⟩, fun tenant => (hs.2 tenant).balances, ?_⟩
    · intro t ht
      obtain rfl := Option.some.inj ht
      exact hsteps.1
    · intro t ht
      obtain rfl := Option.some.inj ht
      exact hsteps.2

/-- An amount is posted from one account to another. -/
def transferPost (amount : String) (tx : Nat) : PostCall where
  tenant := ⟨0⟩
  ids := { tx := ⟨tx⟩, journal := ⟨1⟩ }
  body :=
    { entries :=
        [⟨"00000000-0000-0000-0000-000000000001", "debit", amount⟩,
         ⟨"00000000-0000-0000-0000-000000000002", "credit", amount⟩] }

def transferLegs (amount : Decimal) : List Entry := [⟨⟨1⟩, .debit, amount⟩, ⟨⟨2⟩, .credit, amount⟩]

theorem parseEntries_transferPost {amount : String} {d : Decimal} (h : twoTokens.parseAmount amount = .ok d) (tx : Nat) :
    parseEntries twoTokens 0 (transferPost amount tx).body.entries = .ok (transferLegs d) := by
  have hdebit : lower "debit" = "debit" := by decide
  have hcredit : lower "credit" = "credit" := by decide
  have hcash : twoTokens.parseAccount "00000000-0000-0000-0000-000000000001" = .ok ⟨1⟩ := by simp [twoTokens]
  have hsales : twoTokens.parseAccount "00000000-0000-0000-0000-000000000002" = .ok ⟨2⟩ := by simp [twoTokens]
  simp only [transferPost, parseEntries, parseEntry, hcash, hsales, hdebit, hcredit, h]
  rfl

theorem sidesFit_transferLegs (d : Decimal) (tx : TransactionId) :
    Posting.SidesFit { id := tx, entries := transferLegs d } := by
  have hd : ScaledInt.Representable (2 ^ 96) 28 (0 + d.value) := ⟨d, (zero_add _).symm⟩
  intro side
  cases side with
  | debit => exact ⟨hd, trivial⟩
  | credit => exact ⟨hd, trivial⟩

theorem representable_cents {n : Int} (h : n.natAbs < 2 ^ 96) {x : ℚ} (hx : x = n / 100) :
    ScaledInt.Representable (2 ^ 96) 28 x :=
  ⟨⟨n, 2, h, by decide⟩, by rw [hx]; show (n : ℚ) / 10 ^ 2 = _; norm_num⟩

/-- Two transactions between the same accounts: the second adds to their balances. -/
theorem ledger_holds_two_posts :
    LabelledRun.AllSteps (AppState.postStep twoTokens) (AppState.AnswersSoundly twoTokens) {}
        [transferPost "1.00" 1, transferPost "2.50" 2] ∧
      LabelledRun.AllStates (AppState.postStep twoTokens) AppState.BalancesHold {}
        [transferPost "1.00" 1, transferPost "2.50" 2] := by
  let one : Decimal := ⟨100, 2, by decide, by decide⟩
  let more : Decimal := ⟨250, 2, by decide, by decide⟩
  have hone : one.value = 1 := by norm_num [one, ScaledInt.value]
  have hmore : more.value = 5 / 2 := by norm_num [more, ScaledInt.value]
  have hparse := parseEntries_transferPost (show twoTokens.parseAmount "1.00" = .ok one by simp [twoTokens, one]) 1
  have hparse' := parseEntries_transferPost (show twoTokens.parseAmount "2.50" = .ok more by simp [twoTokens, more]) 2
  have hfits : ∀ account, SumsFit 0
      (((transferLegs one ++ transferLegs more).filter fun e => e.account = account).map Entry.signed) := by
    intro account
    by_cases h1 : (⟨1⟩ : AccountId) = account
    · subst h1
      refine ⟨representable_cents (n := -100) (by decide) ?_, representable_cents (n := -350) (by decide) ?_, trivial⟩
      · show 0 + -one.value = _
        norm_num [hone]
      · show 0 + -one.value + -more.value = _
        norm_num [hone, hmore]
    · by_cases h2 : (⟨2⟩ : AccountId) = account
      · subst h2
        refine ⟨representable_cents (n := 100) (by decide) ?_, representable_cents (n := 350) (by decide) ?_, trivial⟩
        · show 0 + one.value = _
          norm_num [hone]
        · show 0 + one.value + more.value = _
          norm_num [hone, hmore]
      · simp [transferLegs, h1, h2, ScaledInt.SumsFit]
  apply ledger_holds
  refine ⟨fun entries h _ => ?_, fun t ht => ⟨fun entries h _ => ?_, fun _ _ => trivial⟩⟩
  · obtain rfl := Except.ok.inj (hparse.symm.trans h)
    exact ⟨sidesFit_transferLegs one _, fun _ => EntriesFit.left hfits⟩
  · obtain rfl := Except.ok.inj (hparse'.symm.trans h)
    have hjournal : entriesOf (t.journal ⟨0⟩) = transferLegs one := by
      cases ht
      obtain ⟨r, hvalid, hr⟩ := Posting.validate_exact fun _ => sidesFit_transferLegs one ⟨1⟩
      obtain rfl := hr.mpr ⟨le_rfl, rfl⟩
      have hids : (transferPost "1.00" 1).ids.tx = ⟨1⟩ := rfl
      simp only [AppState.call, postTransaction, hparse, hids, hvalid]
      rfl
    refine ⟨sidesFit_transferLegs more _, fun _ => ?_⟩
    show EntriesFit (entriesOf (t.journal ⟨0⟩) ++ _)
    rw [hjournal]
    exact hfits

/-- The largest decimal. -/
def largest : Crates :=
  { twoTokens with
    parseAmount := fun s =>
      if s = "79228162514264337593543950335" then .ok ⟨79228162514264337593543950335, 0, by decide, by decide⟩
      else .error "Invalid decimal: unknown character" }

/-- It is moved from one account to another. -/
def largestPost : PostCall where
  tenant := ⟨0⟩
  ids := { tx := ⟨1⟩, journal := ⟨1⟩ }
  body :=
    { entries :=
        [⟨"00000000-0000-0000-0000-000000000001", "debit", "79228162514264337593543950335"⟩,
         ⟨"00000000-0000-0000-0000-000000000002", "credit", "79228162514264337593543950335"⟩] }

/-- Posted twice, each time accepted, it makes the tenant's balances unreadable. -/
theorem largest_twice_breaks_balances :
    ¬ ∀ calls : List PostCall,
      LabelledRun.AllSteps (AppState.postStep largest) (AppState.AnswersSoundly largest) {} calls ∧
        LabelledRun.AllStates (AppState.postStep largest) AppState.BalancesHold {} calls := by
  intro h
  obtain ⟨b, hb, -⟩ := (h [largestPost, largestPost]).2.last _ rfl ⟨0⟩
  have hnone : ((((({} : AppState).call largest largestPost).2).call largest largestPost).2.balances ⟨0⟩).isNone = true := by
    decide +kernel
  rw [show _ = some b from hb] at hnone
  cases hnone

end TptErp.Server
