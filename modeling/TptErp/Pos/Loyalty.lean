import TptErp.Lib.Tickets
import TptErp.Pos.Calls

/-!
# Loyalty statements

The loyalty engine keeps two numbers for a customer.  A statement is the list of what happened to them: points
earned with a sale, and points redeemed on one.

`loyalty_accounted`: whatever calls are interleaved and however they end, a customer's points are what the statement says
they earned less what they redeemed, and the credit is what they redeemed; each entry belongs to a recorded sale of
that subtotal or paid with that store credit; and no sale earns or redeems twice.  Nobody redeems points that they
do not have.
-/

namespace TptErp.Pos

open Machine (Ticketed pendingSum)

inductive LoyaltyEntry
  | earned (customer : Id PosCustomer) (sale : Id PosTxn) (points : ℚ)
  | redeemed (customer : Id PosCustomer) (sale : Id PosTxn) (amount : Money Usd)

namespace LoyaltyEntry

/-- What an entry does to a customer's points. -/
def points (customer : Id PosCustomer) : LoyaltyEntry → ℚ
  | earned c _ p => if c = customer then p else 0
  | redeemed c _ amount => if c = customer then -amount else 0

/-- What it does to the credit. -/
def credit (customer : Id PosCustomer) : LoyaltyEntry → ℚ
  | earned .. => 0
  | redeemed c _ amount => if c = customer then amount else 0

def earns (sale : Id PosTxn) : LoyaltyEntry → Bool
  | earned _ s _ => s = sale
  | redeemed .. => false

def redeems (sale : Id PosTxn) : LoyaltyEntry → Bool
  | earned .. => false
  | redeemed _ s _ => s = sale

/-- The entry of a section, if it makes one. -/
def record (statement : List LoyaltyEntry) (app : PosApp) : PosStep → List LoyaltyEntry
  | .earn _ out c => statement ++ [earned c out.txnId (roundDp 4 (out.subtotal * app.loyalty.earnRate))]
  | .redeem r out c =>
    if (app.loyalty.balance c).points < min r.loyaltyRedeem out.total then statement
    else statement ++ [redeemed c out.txnId (min r.loyaltyRedeem out.total)]
  | _ => statement

end LoyaltyEntry

/-- The register's calls with the statement. -/
def statements : Machine (List LoyaltyEntry × PosApp) PosStep Unit PosApp.Call Unit :=
  calls.withHistory LoyaltyEntry.record

/-! ## The balances -/

/-- The balances are those of the statement. -/
structure Balanced (c : List LoyaltyEntry × PosApp) : Prop where
  rate : c.2.loyalty.earnRate = 1
  points : ∀ customer, (c.2.loyalty.balance customer).points = (c.1.map (LoyaltyEntry.points customer)).sum
  credit : ∀ customer, (c.2.loyalty.balance customer).credit = (c.1.map (LoyaltyEntry.credit customer)).sum

theorem LoyaltyEngine.balance_insert (e : LoyaltyEngine) (customer other : Id PosCustomer) (b : LoyaltyBalance) :
    ({ e with balances := e.balances.insert customer b } : LoyaltyEngine).balance other =
      if other = customer then b else e.balance other := AssocMap.getD_insert_eq ..

theorem LoyaltyEngine.balance_earn (e : LoyaltyEngine) (customer other : Id PosCustomer) (subtotal : Money Usd) :
    (e.earn customer subtotal).2.balance other =
      if other = customer then
        { e.balance customer with
          points := (e.balance customer).points + roundDp 4 (subtotal * e.earnRate) }
      else e.balance other := e.balance_insert ..

theorem LoyaltyEngine.redeem_cases (e : LoyaltyEngine) (customer : Id PosCustomer) (amount : Money Usd) :
    ((e.balance customer).points < amount ∧ ∃ err, e.redeem customer amount = (.error err, e)) ∨
      (¬ (e.balance customer).points < amount ∧ ∃ b, (e.redeem customer amount).1 = .ok b ∧
        (e.redeem customer amount).2.earnRate = e.earnRate ∧ ∀ other, (e.redeem customer amount).2.balance other =
          if other = customer then
            { points := (e.balance customer).points - amount, credit := (e.balance customer).credit + amount }
          else e.balance other) := by
  unfold redeem
  dsimp only
  split
  · next h => exact Or.inl ⟨h, _, rfl⟩
  · next h => exact Or.inr ⟨h, _, rfl, rfl, fun other => e.balance_insert ..⟩

/-- **What a section does to the statement and the loyalty engine.** -/
theorem entry_act {app app' : PosApp} {i next : PosStep} (statement : List LoyaltyEntry)
    (h : app.act i = some (app', next)) :
    (LoyaltyEntry.record statement app i = statement ∧ app'.loyalty = app.loyalty) ∨
      (∃ r out c, i = .earn r out c ∧
        LoyaltyEntry.record statement app i =
          statement ++ [.earned c out.txnId (roundDp 4 (out.subtotal * app.loyalty.earnRate))] ∧
        app'.loyalty = (app.loyalty.earn c out.subtotal).2) ∨
      ∃ r out c, i = .redeem r out c ∧ ¬ (app.loyalty.balance c).points < min r.loyaltyRedeem out.total ∧
        LoyaltyEntry.record statement app i = statement ++ [.redeemed c out.txnId (min r.loyaltyRedeem out.total)] ∧
        app'.loyalty = (app.loyalty.redeem c (min r.loyaltyRedeem out.total)).2 := by
  have hredeem : ∀ {r : Ringing} {out : RingOutcome} {c : Id PosCustomer} {loyalty : LoyaltyEngine},
      (app.loyalty.redeem c (min r.loyaltyRedeem out.total)).2 = loyalty →
      (LoyaltyEntry.record statement app (.redeem r out c) = statement ∧ loyalty = app.loyalty) ∨
        (¬ (app.loyalty.balance c).points < min r.loyaltyRedeem out.total ∧
          LoyaltyEntry.record statement app (.redeem r out c) =
            statement ++ [.redeemed c out.txnId (min r.loyaltyRedeem out.total)]) := by
    intro r out c loyalty hl
    rcases app.loyalty.redeem_cases c (min r.loyaltyRedeem out.total) with ⟨hlt, err, he⟩ | ⟨hlt, -⟩
    · rw [he] at hl
      exact Or.inl ⟨if_pos hlt, hl.symm⟩
    · exact Or.inr ⟨hlt, if_neg hlt⟩
  cases PosApp.acts_of_act h with
  | earn => exact Or.inr (Or.inl ⟨_, _, _, rfl, rfl, rfl⟩)
  | earnRedeem => exact Or.inr (Or.inl ⟨_, _, _, rfl, rfl, rfl⟩)
  | redeemFailed hd =>
    rcases hredeem (congrArg Prod.snd hd) with hsame | ⟨hlt, hrecord⟩
    · exact Or.inl hsame
    · exact Or.inr (Or.inr ⟨_, _, _, rfl, hlt, hrecord, (congrArg Prod.snd hd).symm⟩)
  | redeem hd =>
    rcases hredeem (congrArg Prod.snd hd) with hsame | ⟨hlt, hrecord⟩
    · exact Or.inl hsame
    · exact Or.inr (Or.inr ⟨_, _, _, rfl, hlt, hrecord, (congrArg Prod.snd hd).symm⟩)
  | returnRejected e hsame =>
    rcases hsame with rfl | rfl
    · exact Or.inl ⟨rfl, rfl⟩
    · exact Or.inl ⟨rfl, rfl⟩
  | _ => exact Or.inl ⟨rfl, rfl⟩

variable {app app' : PosApp} {i next : PosStep} {statement : List LoyaltyEntry}

theorem balanced_act (h : Balanced (statement, app)) (ha : app.act i = some (app', next)) :
    Balanced (LoyaltyEntry.record statement app i, app') := by
  obtain ⟨hrate, hpoints, hcredit⟩ := h
  dsimp only at hrate hpoints hcredit
  rcases entry_act statement ha with ⟨hrecord, hl⟩ | ⟨r, out, c, rfl, hrecord, hl⟩ | ⟨r, out, c, rfl, hle, hrecord, hl⟩
  · refine ⟨?_, ?_, ?_⟩
    · rwa [hl]
    · rwa [hrecord, hl]
    · rwa [hrecord, hl]
  · refine ⟨?_, fun customer => ?_, fun customer => ?_⟩
    · rw [hl]
      exact hrate
    · rw [hrecord, hl, LoyaltyEngine.balance_earn, List.map_append, List.sum_append, ← hpoints, List.map_singleton,
        List.sum_singleton, LoyaltyEntry.points]
      split
      · next hc => rw [if_pos hc.symm, hc]
      · next hc => rw [if_neg (Ne.symm hc), add_zero]
    · rw [hrecord, hl, LoyaltyEngine.balance_earn, List.map_append, List.sum_append, ← hcredit, List.map_singleton,
        List.sum_singleton, LoyaltyEntry.credit, add_zero]
      split
      · next hc => rw [hc]
      · rfl
  · rcases app.loyalty.redeem_cases c (min r.loyaltyRedeem out.total) with ⟨hlt, -⟩ | ⟨-, b, -, hrate', hbalance⟩
    · exact absurd hlt hle
    refine ⟨?_, fun customer => ?_, fun customer => ?_⟩
    · rw [hl, hrate']
      exact hrate
    · rw [hrecord, hl, hbalance, List.map_append, List.sum_append, ← hpoints, List.map_singleton, List.sum_singleton,
        LoyaltyEntry.points]
      split
      · next hc => rw [if_pos hc.symm, hc, ← sub_eq_add_neg]
      · next hc => rw [if_neg (Ne.symm hc), add_zero]
    · rw [hrecord, hl, hbalance, List.map_append, List.sum_append, ← hcredit, List.map_singleton, List.sum_singleton,
        LoyaltyEntry.credit]
      split
      · next hc => rw [if_pos hc.symm, hc]
      · next hc => rw [if_neg (Ne.symm hc), add_zero]

/-- Points that were earned are never overdrawn. -/
def Covered (c : List LoyaltyEntry × PosApp) : Prop :=
  (∀ customer sale p, LoyaltyEntry.earned customer sale p ∈ c.1 → 0 ≤ p) →
    ∀ customer, 0 ≤ (c.2.loyalty.balance customer).points

theorem covered_act (h : Covered (statement, app)) (ha : app.act i = some (app', next)) :
    Covered (LoyaltyEntry.record statement app i, app') := by
  intro hearned customer
  rcases entry_act statement ha with ⟨hrecord, hl⟩ | ⟨r, out, c, rfl, hrecord, hl⟩ | ⟨r, out, c, rfl, hle, hrecord, hl⟩
  · rw [hrecord] at hearned
    rw [hl]
    exact h hearned customer
  · rw [hrecord] at hearned
    have hbefore := h (fun c s p hm => hearned c s p (List.mem_append_left _ hm)) customer
    have hnew := hearned _ _ _ (List.mem_append_right _ (List.mem_singleton_self _))
    rw [hl, LoyaltyEngine.balance_earn]
    split
    · next hc =>
      rw [hc] at hbefore
      exact add_nonneg hbefore hnew
    · exact hbefore
  · rw [hrecord] at hearned
    have hbefore := h (fun c s p hm => hearned c s p (List.mem_append_left _ hm)) customer
    rcases app.loyalty.redeem_cases c (min r.loyaltyRedeem out.total) with ⟨hlt, -⟩ | ⟨-, b, -, -, hbalance⟩
    · exact absurd hlt hle
    rw [hl, hbalance]
    split
    · exact sub_nonneg.mpr (not_lt.mp hle)
    · exact hbefore

/-! ## Each sale once -/

/-- The sale that a section is about, and how far it has come: not recorded yet, to earn its points, or to redeem
points. -/
def PosStep.about : PosStep → Option (Nat × Id PosTxn)
  | readBalance _ txn _ | feed _ txn _ | price _ txn _ | checkPoints _ txn _ _ | insertSale _ txn _ _ =>
    some (0, txn.id)
  | earn _ out _ => some (1, out.txnId)
  | redeem _ out _ => some (2, out.txnId)
  | appendLocal _ next | pushPending _ next => next.about
  | start _ | lookup _ _ _ | swap _ | returned _ => none

/-- Whether the section is about the sale and has come no further than `n`. -/
def ahead (n : Nat) (sale : Id PosTxn) (i : PosStep) : Nat :=
  match i.about with
  | some (k, s) => if k ≤ n ∧ s = sale then 1 else 0
  | none => 0

/-- How often the sale is recorded, has earned and has redeemed. -/
def used (n : Nat) (sale : Id PosTxn) (c : List LoyaltyEntry × PosApp) : Nat :=
  match n with
  | 0 => if (c.2.sales.lookup sale).isSome then 1 else 0
  | 1 => c.1.countP (LoyaltyEntry.earns sale)
  | _ => c.1.countP (LoyaltyEntry.redeems sale)

theorem used_zero (sale : Id PosTxn) (c : List LoyaltyEntry × PosApp) :
    used 0 sale c = if (c.2.sales.lookup sale).isSome then 1 else 0 := rfl

theorem used_one (sale : Id PosTxn) (c : List LoyaltyEntry × PosApp) :
    used 1 sale c = c.1.countP (LoyaltyEntry.earns sale) := rfl

theorem used_more (n : Nat) (sale : Id PosTxn) (c : List LoyaltyEntry × PosApp) :
    used (n + 2) sale c = c.1.countP (LoyaltyEntry.redeems sale) := rfl

theorem used_congr {n : Nat} {sale : Id PosTxn} {c c' : List LoyaltyEntry × PosApp} (h : c'.1 = c.1)
    (hs : c'.2.sales = c.2.sales) : used n sale c' = used n sale c := by
  unfold used
  rw [h, hs]

/-- Whether the id has been given out. -/
def issued (sale : Id PosTxn) (c : List LoyaltyEntry × PosApp) : Nat := if sale.uuid ≤ c.2.lastId then 1 else 0

theorem issued_le {sale : Id PosTxn} {c c' : List LoyaltyEntry × PosApp} (h : c.2.lastId ≤ c'.2.lastId) :
    issued sale c ≤ issued sale c' := by
  unfold issued
  split_ifs <;> omega

/-- A section that stays with its sale, or leaves it. -/
theorem ahead_le {n : Nat} {sale : Id PosTxn} {i j : PosStep} (h : j.about = i.about ∨ j.about = none) :
    ahead n sale j ≤ ahead n sale i := by
  unfold ahead
  rcases h with h | h
  · rw [h]
  · rw [h]
    exact Nat.zero_le _

theorem of_bind_ok {ε α β : Type} {x : Except ε α} {f : α → Except ε β} {b : β} (h : x >>= f = .ok b) :
    ∃ a, x = .ok a ∧ f a = .ok b := by
  cases x with
  | error e => cases h
  | ok a => exact ⟨a, rfl, h⟩

theorem capture_id {txn captured : Transaction} (h : capture txn = .ok captured) : captured.id = txn.id := by
  have hadvance : ∀ {t t' : Transaction} {target : TxnStatus}, t.advance target = .ok t' → t'.id = t.id := by
    intro t t' target ht
    unfold Transaction.advance at ht
    split at ht
    · cases ht
      rfl
    · cases ht
  obtain ⟨t₁, h₁, h⟩ := of_bind_ok h
  obtain ⟨t₂, h₂, h⟩ := of_bind_ok h
  rw [hadvance h, hadvance h₂, hadvance h₁]

theorem about_settle (r : Ringing) (txn : Transaction) (priced : Priced) :
    (r.settle txn priced).about = some (0, txn.id) ∨ (r.settle txn priced).about = none := by
  unfold Ringing.settle
  split
  · exact Or.inr rfl
  · split
    · exact Or.inr rfl
    · next hc => exact Or.inl (by rw [PosStep.about, capture_id hc])

theorem ahead_eq {n k : Nat} {sale s : Id PosTxn} {i : PosStep} (h : i.about = some (k, s)) :
    ahead n sale i = if k ≤ n ∧ s = sale then 1 else 0 := by
  unfold ahead
  rw [h]

theorem ahead_none {n : Nat} {sale : Id PosTxn} {i : PosStep} (h : i.about = none) : ahead n sale i = 0 := by
  unfold ahead
  rw [h]

/-- A section that goes on with its sale, one stage further, or leaves it. -/
theorem ahead_on {n k : Nat} {sale s : Id PosTxn} {i j : PosStep} (hi : i.about = some (k, s))
    (hj : j.about = some (k + 1, s) ∨ j.about = none) :
    ahead n sale j ≤ ahead n sale i ∧ (n = k → ahead n sale j = 0) := by
  rw [ahead_eq hi]
  rcases hj with hj | hj
  · rw [ahead_eq hj]
    by_cases hs : s = sale
    · simp only [hs, and_true]
      split_ifs <;> omega
    · simp [hs]
  · rw [ahead_none hj]
    exact ⟨Nat.zero_le _, fun _ => rfl⟩

/-- A sale takes the next id. -/
theorem ahead_start {n : Nat} {sale : Id PosTxn} {c : List LoyaltyEntry × PosApp} {j : PosStep}
    (h : j.about = some (0, c.2.nextId)) :
    ahead n sale j + issued sale c ≤ issued sale (c.1, c.2.useId) := by
  have hnext : c.2.nextId.uuid = c.2.lastId + 1 := rfl
  rw [ahead_eq h]
  unfold issued
  show _ ≤ if sale.uuid ≤ c.2.lastId + 1 then 1 else 0
  by_cases hs : c.2.nextId = sale
  · rw [← hs, hnext, if_pos ⟨Nat.zero_le n, rfl⟩, if_neg (by omega), if_pos le_rfl]
  · rw [if_neg fun h => hs h.2]
    split_ifs <;> omega

theorem tickets_start {n : Nat} {sale : Id PosTxn} {i j : PosStep} (hi : i.about = none)
    (hj : j.about = some (0, app.nextId)) :
    ahead n sale j + used n sale (statement, app.useId) + issued sale (statement, app) ≤
      ahead n sale i + used n sale (statement, app) + issued sale (statement, app.useId) := by
  have hstart := @ahead_start n sale (statement, app) j hj
  have hused : used n sale (statement, app.useId) = used n sale (statement, app) := used_congr rfl rfl
  rw [ahead_none hi]
  dsimp only at hstart
  omega

/-- A recorded sale. -/
theorem used_recordSale (n : Nat) (sale : Id PosTxn) (c : List LoyaltyEntry × PosApp) (r : SaleRecord) {i j : PosStep}
    (hi : i.about = some (0, r.id)) (hj : j.about = some (1, r.id) ∨ j.about = none) :
    ahead n sale j + used n sale (c.1, c.2.recordSale r) ≤ ahead n sale i + used n sale c := by
  obtain ⟨hle, hzero⟩ := @ahead_on n 0 sale _ _ _ hi hj
  match n with
  | 0 =>
    have hlookup : (c.2.recordSale r).sales.lookup sale = if sale = r.id then some r else c.2.sales.lookup sale :=
      AssocMap.lookup_insert_eq ..
    rw [hzero rfl, ahead_eq hi, used_zero, used_zero, hlookup]
    by_cases hs : sale = r.id
    · rw [if_pos hs, if_pos (show 0 ≤ 0 ∧ r.id = sale from ⟨le_rfl, hs.symm⟩), Option.isSome_some, if_pos rfl]
      omega
    · rw [if_neg hs]
      omega
  | 1 => exact Nat.add_le_add_right hle _
  | n + 2 => exact Nat.add_le_add_right hle _

/-- Points earned with a sale. -/
theorem used_earn (n : Nat) (sale : Id PosTxn) {r : Ringing} {out : RingOutcome} {c : Id PosCustomer} {p : ℚ}
    {j : PosStep} (hj : j.about = some (2, out.txnId) ∨ j.about = none) (hs : app'.sales = app.sales) :
    ahead n sale j + used n sale (statement ++ [.earned c out.txnId p], app') ≤
      ahead n sale (.earn r out c) + used n sale (statement, app) := by
  have hi : (PosStep.earn r out c).about = some (1, out.txnId) := rfl
  obtain ⟨hle, hzero⟩ := @ahead_on n 1 sale _ _ _ hi hj
  match n with
  | 0 =>
    rw [used_zero, used_zero, hs]
    exact Nat.add_le_add_right hle _
  | 1 =>
    rw [hzero rfl, ahead_eq hi, used_one, used_one, List.countP_append, List.countP_singleton]
    simp only [LoyaltyEntry.earns, decide_eq_true_eq, le_refl, true_and]
    omega
  | n + 2 =>
    rw [used_more, used_more, List.countP_append, List.countP_singleton]
    simpa [LoyaltyEntry.redeems] using hle

/-- Points redeemed on a sale. -/
theorem used_redeem (n : Nat) (sale : Id PosTxn) {r : Ringing} {out : RingOutcome} {c : Id PosCustomer} {amount : ℚ}
    (hs : app'.sales = app.sales) :
    used n sale (statement ++ [.redeemed c out.txnId amount], app') ≤
      ahead n sale (.redeem r out c) + used n sale (statement, app) := by
  have hi : (PosStep.redeem r out c).about = some (2, out.txnId) := rfl
  match n with
  | 0 =>
    rw [used_zero, used_zero, hs]
    exact Nat.le_add_left _ _
  | 1 =>
    rw [used_one, used_one, List.countP_append, List.countP_singleton]
    simp [LoyaltyEntry.earns]
  | n + 2 =>
    rw [ahead_eq hi, used_more, used_more, List.countP_append, List.countP_singleton]
    simp only [LoyaltyEntry.redeems, decide_eq_true_eq, Nat.le_add_left, true_and]
    omega

theorem lastId_act (ha : app.act i = some (app', next)) : app.lastId ≤ app'.lastId := by
  cases PosApp.acts_of_act ha with
  | lineRejected => exact Nat.le_succ _
  | startAnonymous => exact Nat.le_succ _
  | startFor => exact Nat.le_succ _
  | returnRejected e hkept =>
    rcases hkept with rfl | rfl
    · exact le_rfl
    · exact Nat.le_succ _
  | lookup => exact Nat.le_add_right _ 2
  | _ => exact le_rfl

/-- **Tickets**: the section that follows is about the sale no more than what the section leaves unused, but for the
sale whose id it takes. -/
theorem tickets_act (n : Nat) (sale : Id PosTxn) (ha : app.act i = some (app', next)) :
    ahead n sale next + used n sale (LoyaltyEntry.record statement app i, app') + issued sale (statement, app) ≤
      ahead n sale i + used n sale (statement, app) + issued sale (LoyaltyEntry.record statement app i, app') := by
  have hissued : issued sale (statement, app) ≤ issued sale (LoyaltyEntry.record statement app i, app') :=
    issued_le (lastId_act ha)
  -- neither sales nor statement change, and the section that follows is about no other sale
  have hsame : ∀ (hs : app'.sales = app.sales) (hr : LoyaltyEntry.record statement app i = statement)
      (hn : next.about = i.about ∨ next.about = none),
      ahead n sale next + used n sale (LoyaltyEntry.record statement app i, app') + issued sale (statement, app) ≤
        ahead n sale i + used n sale (statement, app) + issued sale (LoyaltyEntry.record statement app i, app') := by
    intro hs hr hn
    have hahead : ahead n sale next ≤ ahead n sale i := ahead_le hn
    have hused : used n sale (LoyaltyEntry.record statement app i, app') = used n sale (statement, app) :=
      used_congr hr hs
    omega
  have hredeem : ∀ {r : Ringing} {out : RingOutcome} {c : Id PosCustomer}, i = .redeem r out c →
      app'.sales = app.sales → next.about = none →
      ahead n sale next + used n sale (LoyaltyEntry.record statement app i, app') + issued sale (statement, app) ≤
        ahead n sale i + used n sale (statement, app) + issued sale (LoyaltyEntry.record statement app i, app') := by
    rintro r out c rfl hs hn
    rcases entry_act statement ha with ⟨hrecord, -⟩ | ⟨_, _, _, he, -⟩ | ⟨_, _, _, he, -, hrecord, -⟩
    · exact hsame hs hrecord (Or.inr hn)
    · cases he
    · cases he
      have hused := @used_redeem app app' statement n sale r out c (min r.loyaltyRedeem out.total) hs
      rw [ahead_none hn]
      rw [hrecord] at hissued ⊢
      omega
  cases PosApp.acts_of_act ha with
  | startAnonymous hl =>
    rw [addLines_cart _ _ rfl] at hl
    cases hl
    exact tickets_start rfl rfl
  | startFor hl =>
    rw [addLines_cart _ _ rfl] at hl
    cases hl
    exact tickets_start rfl rfl
  | insertSale txn priced applied =>
    exact Nat.add_le_add_right
      (used_recordSale n sale (statement, app) (priced.record txn applied) rfl (Or.inr rfl)) _
  | insertSaleFor txn priced applied =>
    exact Nat.add_le_add_right
      (used_recordSale n sale (statement, app) (priced.record txn applied) rfl (Or.inl rfl)) _
  | earn =>
    refine Nat.add_le_add_right (used_earn n sale (Or.inr ?_) rfl) _
    rfl
  | earnRedeem =>
    refine Nat.add_le_add_right (used_earn n sale (Or.inl ?_) rfl) _
    rfl
  | redeemFailed hd => exact hredeem rfl rfl rfl
  | redeem hd => exact hredeem rfl rfl rfl
  | priceSettle => exact hsame rfl rfl (about_settle _ _ _)
  | checkPoints => exact hsame rfl rfl (about_settle _ _ _)
  | returnRejected e hkept =>
    rcases hkept with rfl | rfl
    · exact hsame rfl rfl (Or.inr rfl)
    · exact hsame rfl rfl (Or.inr rfl)
  | @lookup _ _ sale =>
    cases sale with
    | none => exact hsame rfl rfl (Or.inr rfl)
    | some r => exact hsame rfl rfl (Or.inr rfl)
  | readBalance => exact hsame rfl rfl (Or.inl rfl)
  | feed => exact hsame rfl rfl (Or.inl rfl)
  | price => exact hsame rfl rfl (Or.inl rfl)
  | appendLocal e next => exact hsame rfl rfl (Or.inl rfl)
  | pushPending e next => exact hsame rfl rfl (Or.inl rfl)
  | _ => exact hsame rfl rfl (Or.inr rfl)

/-! ## Entries and records -/

/-- What is redeemed is the first tender, as store credit. -/
def Paid (r : Ringing) (total : Money Usd) (applied : List Tender) : Prop :=
  0 < min r.loyaltyRedeem total → applied.head? = some { kind := .storeCredit, amount := min r.loyaltyRedeem total }

/-- Points and the refund of an exchange are not used on one sale. -/
def OneCredit (r : Ringing) : Prop := r.loyaltyRedeem = 0 ∨ r.exchangeCredit = 0

/-- The outcome is that of a recorded sale. -/
def Recorded (app : PosApp) (out : RingOutcome) : Prop :=
  ∃ record, app.sales.lookup out.txnId = some record ∧ record.subtotal = out.subtotal ∧ record.total = out.total ∧
    record.tenders = out.appliedTenders

/-- What a section to come relies on. -/
def Linked (c : List LoyaltyEntry × PosApp) : PosStep → Prop
  | .start r | .readBalance r _ _ | .feed r _ _ | .price r _ _ | .checkPoints r _ _ _ => OneCredit r
  | .insertSale r _ priced applied => Paid r priced.total applied
  | .earn r out _ => Recorded c.2 out ∧ Paid r out.total out.appliedTenders
  | .redeem r out customer =>
    Recorded c.2 out ∧ Paid r out.total out.appliedTenders ∧ 0 < min r.loyaltyRedeem out.total ∧
      ∃ p, LoyaltyEntry.earned customer out.txnId p ∈ c.1
  | .lookup _ _ sale => ∀ r ∈ sale, r.loyaltyRedeem = 0
  | .appendLocal _ next | .pushPending _ next => Linked c next
  | .swap _ | .returned _ => True

/-- The recorded sales behind the entries. -/
structure Entries (c : List LoyaltyEntry × PosApp) : Prop where
  earned : ∀ customer sale p, LoyaltyEntry.earned customer sale p ∈ c.1 →
    ∃ record, c.2.sales.lookup sale = some record ∧ p = roundDp 4 record.subtotal
  redeemed : ∀ customer sale amount, LoyaltyEntry.redeemed customer sale amount ∈ c.1 →
    0 < amount ∧ (∃ p, LoyaltyEntry.earned customer sale p ∈ c.1) ∧
      ∃ record, c.2.sales.lookup sale = some record ∧ amount ≤ record.total ∧
        record.tenders.head? = some { kind := .storeCredit, amount }

theorem applyTenders_head {total credit subtotal : Money Usd} {offered applied : List Tender}
    (h : applyTenders total credit subtotal offered = .ok applied) (hpos : 0 < min credit total) :
    applied.head? = some { kind := .storeCredit, amount := min credit total } := by
  unfold applyTenders at h
  dsimp only at h
  split at h
  · cases h
  · cases h
    rw [if_pos hpos]
    rfl

theorem linked_settle {c : List LoyaltyEntry × PosApp} {r : Ringing} (hr : OneCredit r) (txn : Transaction)
    (priced : Priced) : Linked c (r.settle txn priced) := by
  unfold Ringing.settle
  split
  · trivial
  · next applied happlied =>
    split
    · trivial
    · intro hpos
      rcases hr with hr | hr
      · rw [hr] at hpos
        exact absurd (lt_of_lt_of_le hpos (min_le_left _ _)) (lt_irrefl _)
      · rw [hr, add_zero] at happlied
        exact applyTenders_head happlied hpos

/-- The sales and the statement grow. -/
structure Grows (c c' : List LoyaltyEntry × PosApp) : Prop where
  statement : ∀ e ∈ c.1, e ∈ c'.1
  sales : ∀ id record, c.2.sales.lookup id = some record → c'.2.sales.lookup id = some record

theorem Recorded.grows {c c' : List LoyaltyEntry × PosApp} {out : RingOutcome} (hg : Grows c c')
    (h : Recorded c.2 out) : Recorded c'.2 out := by
  obtain ⟨record, hlookup, hrest⟩ := h
  exact ⟨record, hg.sales _ _ hlookup, hrest⟩

theorem linked_grows {c c' : List LoyaltyEntry × PosApp} (hg : Grows c c') {j : PosStep} (h : Linked c j) :
    Linked c' j := by
  induction j with
  | earn r out customer => exact ⟨h.1.grows hg, h.2⟩
  | redeem r out customer =>
    obtain ⟨hrecorded, hpaid, hpos, p, hp⟩ := h
    exact ⟨hrecorded.grows hg, hpaid, hpos, p, hg.statement _ hp⟩
  | appendLocal e next ih => exact ih h
  | pushPending e next ih => exact ih h
  | _ => exact h

theorem linked_same {c c' : List LoyaltyEntry × PosApp} (h : c'.1 = c.1) (hs : c'.2.sales = c.2.sales) {j : PosStep}
    (hj : Linked c j) : Linked c' j := by
  refine linked_grows ⟨fun e he => ?_, fun id record hlookup => ?_⟩ hj
  · rwa [h]
  · rwa [hs]

theorem sales_act (ha : app.act i = some (app', next)) :
    app'.sales = app.sales ∨ ∃ r txn priced applied, i = .insertSale r txn priced applied ∧
      app'.sales = app.sales.insert txn.id (priced.record txn applied) := by
  cases PosApp.acts_of_act ha with
  | insertSale txn priced applied => exact Or.inr ⟨_, _, _, _, rfl, rfl⟩
  | insertSaleFor txn priced applied => exact Or.inr ⟨_, _, _, _, rfl, rfl⟩
  | returnRejected e hkept =>
    rcases hkept with rfl | rfl
    · exact Or.inl rfl
    · exact Or.inl rfl
  | _ => exact Or.inl rfl

/-- A section of a sale that is not recorded yet keeps the recorded sales. -/
theorem grows_act (ha : app.act i = some (app', next))
    (hnew : ∀ r txn priced applied, i = .insertSale r txn priced applied → app.sales.lookup txn.id = none) :
    Grows (statement, app) (LoyaltyEntry.record statement app i, app') := by
  refine ⟨fun e he => ?_, fun id record hlookup => ?_⟩
  · rcases entry_act statement ha with ⟨hrecord, -⟩ | ⟨_, _, _, -, hrecord, -⟩ | ⟨_, _, _, -, -, hrecord, -⟩
    · rwa [hrecord]
    · rw [hrecord]
      exact List.mem_append_left _ he
    · rw [hrecord]
      exact List.mem_append_left _ he
  · rcases sales_act ha with hs | ⟨r, txn, priced, applied, hi, hs⟩
    · rwa [hs]
    · have hne : id ≠ txn.id := by
        rintro rfl
        rw [hnew r txn priced applied hi] at hlookup
        cases hlookup
      show app'.sales.lookup id = some record
      rw [hs, AssocMap.lookup_insert_eq, if_neg hne]
      exact hlookup

theorem linked_act (hl : Linked (statement, app) i) (ha : app.act i = some (app', next)) :
    Linked (LoyaltyEntry.record statement app i, app') next := by
  cases PosApp.acts_of_act ha with
  | lineRejected => trivial
  | startAnonymous => exact hl
  | startFor => exact hl
  | readBalance => exact hl
  | feed => exact hl
  | nobodysPoints => trivial
  | price => exact hl
  | priceSettle => exact linked_settle hl _ _
  | pointsMissing => trivial
  | checkPoints => exact linked_settle hl _ _
  | insertSale => trivial
  | insertSaleFor txn priced applied =>
    refine ⟨⟨priced.record txn applied, ?_, rfl, rfl, rfl⟩, hl⟩
    exact (AssocMap.lookup_insert_eq ..).trans (if_pos rfl)
  | earn => trivial
  | earnRedeem hr => exact ⟨hl.1, hl.2, hr, _, List.mem_append_right _ (List.mem_singleton_self _)⟩
  | redeemFailed => trivial
  | redeem => trivial
  | returnRejected => trivial
  | @lookup _ _ sale =>
    cases sale with
    | none => trivial
    | some r => exact Or.inl rfl
  | appendLocal e next =>
    have hn : Linked (statement, app) next := hl
    refine linked_same (c := (statement, app)) (j := next) ?_ ?_ hn
    · rfl
    · rfl
  | pushPending e next =>
    have hn : Linked (statement, app) next := hl
    refine linked_same (c := (statement, app)) ?_ ?_ hn
    · rfl
    · rfl
  | swap => trivial

theorem entries_act (hb : Balanced (statement, app)) (he : Entries (statement, app)) (hl : Linked (statement, app) i)
    (hg : Grows (statement, app) (LoyaltyEntry.record statement app i, app')) (ha : app.act i = some (app', next)) :
    Entries (LoyaltyEntry.record statement app i, app') := by
  -- the entries of before are still backed
  have hearned : ∀ customer sale p, LoyaltyEntry.earned customer sale p ∈ statement →
      ∃ record, app'.sales.lookup sale = some record ∧ p = roundDp 4 record.subtotal := by
    intro customer sale p hm
    obtain ⟨record, hlookup, hp⟩ := he.earned customer sale p hm
    exact ⟨record, hg.sales _ _ hlookup, hp⟩
  have hredeemed : ∀ customer sale amount, LoyaltyEntry.redeemed customer sale amount ∈ statement →
      0 < amount ∧ (∃ p, LoyaltyEntry.earned customer sale p ∈ LoyaltyEntry.record statement app i) ∧
        ∃ record, app'.sales.lookup sale = some record ∧ amount ≤ record.total ∧
          record.tenders.head? = some { kind := .storeCredit, amount } := by
    intro customer sale amount hm
    obtain ⟨hpos, ⟨p, hp⟩, record, hlookup, hrest⟩ := he.redeemed customer sale amount hm
    exact ⟨hpos, ⟨p, hg.statement _ hp⟩, record, hg.sales _ _ hlookup, hrest⟩
  rcases entry_act statement ha with ⟨hrecord, -⟩ | ⟨r, out, c, rfl, hrecord, -⟩ | ⟨r, out, c, rfl, -, hrecord, -⟩
  · rw [hrecord] at hredeemed ⊢
    exact ⟨hearned, hredeemed⟩
  · obtain ⟨⟨record, hlookup, hsubtotal, -⟩, -⟩ := hl
    have hrate : app.loyalty.earnRate = 1 := hb.rate
    rw [hrecord] at hredeemed hg ⊢
    refine ⟨fun customer sale p hm => ?_, fun customer sale amount hm => ?_⟩
    · rcases List.mem_append.mp hm with hm | hm
      · exact hearned customer sale p hm
      · cases List.mem_singleton.mp hm
        refine ⟨record, hg.sales _ _ hlookup, ?_⟩
        rw [hrate, mul_one, hsubtotal]
    · rcases List.mem_append.mp hm with hm | hm
      · exact hredeemed customer sale amount hm
      · cases List.mem_singleton.mp hm
  · obtain ⟨⟨record, hlookup, -, htotal, htenders⟩, hpaid, hpos, p, hp⟩ := hl
    rw [hrecord] at hredeemed hg ⊢
    refine ⟨fun customer sale p hm => ?_, fun customer sale amount hm => ?_⟩
    · rcases List.mem_append.mp hm with hm | hm
      · exact hearned customer sale p hm
      · cases List.mem_singleton.mp hm
    · rcases List.mem_append.mp hm with hm | hm
      · exact hredeemed customer sale amount hm
      · cases List.mem_singleton.mp hm
        refine ⟨hpos, ⟨p, hg.statement _ hp⟩, record, hg.sales _ _ hlookup, ?_, ?_⟩
        · rw [htotal]
          exact min_le_right _ _
        · rw [htenders]
          exact hpaid hpos

/-! ## Over whole runs -/

/-- What the register can be held to. -/
structure Accounted (c : List LoyaltyEntry × PosApp) : Prop where
  balanced : Balanced c
  covered : Covered c
  entries : Entries c
  earnsOnce : ∀ sale, c.1.countP (LoyaltyEntry.earns sale) ≤ 1
  redeemsOnce : ∀ sale, c.1.countP (LoyaltyEntry.redeems sale) ≤ 1

/-- The invariant of a run. -/
structure LoyaltyInv (w : Machine.State (List LoyaltyEntry × PosApp) PosStep) : Prop where
  tickets : ∀ n sale, Ticketed (ahead n sale) (used n sale) (issued sale) w
  books : Machine.Good (fun c => Balanced c ∧ Covered c ∧ Entries c) Linked w

theorem LoyaltyInv.accounted {w : Machine.State (List LoyaltyEntry × PosApp) PosStep} (h : LoyaltyInv w) :
    Accounted w.core := by
  obtain ⟨hb, hc, he⟩ := h.books.core
  have honce : ∀ n sale, used n sale w.core ≤ 1 := by
    intro n sale
    have ht := h.tickets n sale
    unfold Ticketed issued at ht
    split_ifs at ht <;> omega
  exact ⟨hb, hc, he, honce 1, honce 2⟩

/-- The statement's machine takes the register's sections. -/
theorem act_of_statements {c c' : List LoyaltyEntry × PosApp} {k : Unit} {more : List PosStep}
    (h : statements.instr c i k = some (c', more)) :
    ∃ next, more = [next] ∧ c.2.act i = some (c'.2, next) ∧ c'.1 = LoyaltyEntry.record c.1 c.2 i := by
  obtain ⟨⟨app', more'⟩, hi, he⟩ := Option.map_eq_some_iff.mp h
  cases he
  obtain ⟨next, rfl, ha⟩ := act_of_instr hi
  exact ⟨next, rfl, ha, rfl⟩

theorem tickets_statements (n : Nat) (sale : Id PosTxn) {w t : Machine.State (List LoyaltyEntry × PosApp) PosStep}
    {a : Machine.Label Unit PosApp.Call Unit} (h : Ticketed (ahead n sale) (used n sale) (issued sale) w)
    (ht : statements.step w a = some t) : Ticketed (ahead n sale) (used n sale) (issued sale) t := by
  refine statements.tickets_step _ _ _ ?_ ?_ ?_ h ht
  · intro op i hi
    cases op <;> (cases List.mem_singleton.mp hi; rfl)
  · intro c e
    exact le_rfl
  · rintro ⟨statement, app⟩ i k ⟨statement', app'⟩ more hi
    obtain ⟨next, rfl, ha, hrecord⟩ := act_of_statements hi
    dsimp only at ha hrecord
    rw [hrecord, List.map_singleton, List.sum_singleton]
    exact tickets_act n sale ha

theorem loyaltyInv_step {w t : Machine.State (List LoyaltyEntry × PosApp) PosStep}
    {a : Machine.Label Unit PosApp.Call Unit} (h : LoyaltyInv w) (ht : statements.step w a = some t) :
    LoyaltyInv t := by
  refine ⟨fun n sale => tickets_statements n sale (h.tickets n sale) ht, ?_⟩
  refine statements.good_step ?_ ?_ h.books ht ?_
  · intro c op hc i hi
    cases op <;> (cases List.mem_singleton.mp hi)
    · exact Or.inl rfl
    · exact Or.inr rfl
    · exact fun _ hr => nomatch hr
    · rintro r ⟨⟩
      rfl
    · trivial
  · rintro c e ⟨hb, hc, he⟩
    refine ⟨⟨⟨hb.rate, hb.points, hb.credit⟩, hc, ⟨he.earned, he.redeemed⟩⟩, fun _ hi => (nomatch hi), ?_⟩
    intro i hi
    refine linked_same (c := c) ?_ ?_ hi
    · rfl
    · rfl
  · intro th k i c' more _ hnext hl hi
    obtain ⟨next, rfl, ha, hrecord⟩ := act_of_statements hi
    obtain ⟨⟨statement, app⟩, threads⟩ := w
    obtain ⟨statement', app'⟩ := c'
    dsimp only at ha hrecord hl
    obtain ⟨hb, hc, he⟩ := h.books.core
    -- a sale that is still to be recorded is not among the records
    have hnew : ∀ r txn priced applied, i = .insertSale r txn priced applied → app.sales.lookup txn.id = none := by
      rintro r txn priced applied rfl
      obtain ⟨rest, hth⟩ := hnext
      obtain ⟨others, hsum, -⟩ := Machine.pendingSum_run (ahead 0 txn.id) hth
      have hticket := h.tickets 0 txn.id
      unfold Ticketed at hticket
      rw [hsum, used_zero, ahead_eq (show (PosStep.insertSale r txn priced applied).about = some (0, txn.id) from rfl),
        if_pos ⟨le_rfl, rfl⟩] at hticket
      by_contra hsome
      rw [if_pos (Option.isSome_iff_ne_none.mpr hsome)] at hticket
      unfold issued at hticket
      split_ifs at hticket <;> omega
    have hg := @grows_act app app' i next statement ha hnew
    rw [hrecord]
    refine ⟨⟨balanced_act hb ha, covered_act hc ha, entries_act hb he hl hg ha⟩, ?_, fun j hj => linked_grows hg hj⟩
    intro j hj
    rw [List.mem_singleton.mp hj]
    exact linked_act hl ha

/-- **Loyalty is accounted for** in every state of every interleaving of calls, whatever plugins are loaded and
however the calls end. -/
theorem loyalty_accounted (terminal : Id PosTerminal) (pricing : PosPricingEngine)
    (as : List (Machine.Label Unit PosApp.Call Unit)) :
    LabelledRun.AllStates statements.step (fun w => Accounted w.core)
      { core := ([], { PosApp.new terminal with pricing }) } as := by
  have hinit : LoyaltyInv { core := ([], { PosApp.new terminal with pricing }) } := by
    refine ⟨fun n sale => ?_, Machine.good_init ⟨⟨rfl, fun _ => rfl, fun _ => rfl⟩, fun _ _ => le_rfl, ?_, ?_⟩⟩
    · show 0 + used n sale ([], _) ≤ _
      match n with
      | 0 => exact Nat.zero_le _
      | 1 => exact Nat.zero_le _
      | n + 2 => exact Nat.zero_le _
    · exact fun _ _ _ hm => nomatch hm
    · exact fun _ _ _ hm => nomatch hm
  have hrun := LabelledRun.allStates_of_step statements.step (fun _ _ _ => loyaltyInv_step) as hinit
  exact hrun.mono _ fun w hw => hw.accounted

end TptErp.Pos
