import TptErp.Pos.Calls

/-!
# Rejected calls

A rejected call should leave the sales, the points, the local log and the pending sales as they were.  The
checks of a sale come before its first write but two: the points are checked again when they are redeemed,
after the sale is inserted, and an exchange records its return before the new sale is found to be covered.
Every other rejected call writes nothing, in every interleaving (`rejected_leaves_no_trace`).
-/

namespace TptErp.Pos

open Machine (Next)
open PosApp (mugs)

/-- The sales, every customer's balance, the local log and the pending sales are the same. -/
def SameRecords (a b : PosApp) : Prop :=
  (∀ id, a.sales.lookup id = b.sales.lookup id) ∧ (∀ c, a.loyalty.balance c = b.loyalty.balance c) ∧
    a.sync.localLog = b.sync.localLog ∧ a.sync.pending = b.sync.pending

/-- The sale of an exchange is covered, and the points still cover what is redeemed. -/
def Settles (app : PosApp) (i : PosStep) (_ : Unit) : Prop :=
  match i with
  | .price r txn _ =>
    r.refund.isSome → Covers (app.priced txn).total (r.loyaltyRedeem + r.exchangeCredit) (r.tenders.map (·.toTender))
  | .redeem r out c => min r.loyaltyRedeem out.total ≤ (app.loyalty.balance c).points
  | _ => True

instance (app : PosApp) (i : PosStep) (u : Unit) : Decidable (Settles app i u) := by
  unfold Settles
  split <;> infer_instance

/-- A call that is not rejected any more, as long as its steps settle. -/
def Accepted : PosStep → Prop
  | .start r => r.refund.isSome ∧ r.loyaltyRedeem = 0
  | .readBalance r txn _ => (r.refund.isSome ∧ r.loyaltyRedeem = 0) ∧ txn.status = .cart
  | .feed r txn _ => (r.refund.isSome ∧ r.loyaltyRedeem = 0) ∧ txn.status = .cart
  | .price r txn _ => (r.refund.isSome ∧ r.loyaltyRedeem = 0) ∧ txn.status = .cart
  | .checkPoints .. => False
  | .insertSale .. => True
  | .earn .. => True
  | .redeem .. => True
  | .lookup .. => False
  | .appendLocal _ next => Accepted next
  | .pushPending _ next => Accepted next
  | .swap _ => False
  | .returned result => result.isOk

/-- An event is recorded by accepted calls only. -/
def RecordsAccepted : PosStep → Prop
  | .appendLocal _ next => Accepted next
  | .pushPending _ next => Accepted next
  | _ => True

namespace PosApp

variable {app app' : PosApp} {i next : PosStep}

theorem settle_accepted {r : Ringing} {txn : Transaction} {priced : Priced} (ht : txn.status = .cart)
    (hc : Covers priced.total (r.loyaltyRedeem + r.exchangeCredit) (r.tenders.map (·.toTender))) :
    ∃ applied, r.settle txn priced = .insertSale r { txn with status := .captured } priced applied := by
  rcases applyTenders_cases priced.total (r.loyaltyRedeem + r.exchangeCredit) priced.subtotal
    (r.tenders.map (·.toTender)) with ⟨-, applied, he⟩ | ⟨hno, -⟩
  · refine ⟨applied, ?_⟩
    unfold Ringing.settle
    rw [he, capture_cart _ ht]
  · exact absurd hc hno

theorem settle_recordsAccepted (r : Ringing) (txn : Transaction) (priced : Priced) :
    RecordsAccepted (r.settle txn priced) := by
  rcases r.settle_cases txn priced with ⟨e, he⟩ | ⟨captured, applied, he⟩
  · rw [he]
    trivial
  · rw [he]
    trivial

theorem redeem_of_le {e : LoyaltyEngine} {c : Id PosCustomer} {amount : Money Usd}
    (h : amount ≤ (e.balance c).points) : ∃ b, (e.redeem c amount).1 = .ok b := by
  unfold LoyaltyEngine.redeem
  dsimp only
  rw [if_neg (not_lt.mpr h)]
  exact ⟨_, rfl⟩

theorem Accepted.records (h : Accepted i) : RecordsAccepted i := by
  cases i with
  | appendLocal e next => exact h
  | pushPending e next => exact h
  | _ => trivial

theorem recordsAccepted_act (hp : RecordsAccepted i) (h : app.act i = some (app', next)) :
    RecordsAccepted next := by
  cases acts_of_act h with
  | priceSettle => exact settle_recordsAccepted _ _ _
  | checkPoints => exact settle_recordsAccepted _ _ _
  | insertSale => exact rfl
  | earn => exact rfl
  | redeem => exact rfl
  | @lookup _ _ sale =>
    cases sale with
    | none => exact rfl
    | some r => exact ⟨rfl, rfl⟩
  | appendLocal e next => exact hp
  | pushPending e next => exact Accepted.records hp
  | _ => trivial

theorem sameRecords_of_eq (hs : app'.sales = app.sales) (hl : app'.loyalty = app.loyalty) (hy : app'.sync = app.sync) :
    SameRecords app app' := by
  unfold SameRecords
  rw [hs, hl, hy]
  exact ⟨fun _ => rfl, fun _ => rfl, rfl, rfl⟩

/-- A call that has written is accepted, and so is what an accepted call goes on with. -/
theorem accepted_act (hp : RecordsAccepted i) (hs : Settles app i ()) (h : app.act i = some (app', next))
    (ha : Accepted i ∨ ¬ SameRecords app app') : Accepted next := by
  have hold (hsame : SameRecords app app') : Accepted i := ha.resolve_right (not_not.mpr hsame)
  cases acts_of_act h with
  | lineRejected hl =>
    rw [addLines_cart _ _ rfl] at hl
    cases hl
  | startAnonymous hl =>
    rw [addLines_cart _ _ rfl] at hl
    cases hl
    exact ⟨hold (sameRecords_of_eq rfl rfl rfl), rfl⟩
  | startFor hl =>
    rw [addLines_cart _ _ rfl] at hl
    cases hl
    exact ⟨hold (sameRecords_of_eq rfl rfl rfl), rfl⟩
  | readBalance => exact hold (sameRecords_of_eq rfl rfl rfl)
  | feed => exact hold (sameRecords_of_eq rfl rfl rfl)
  | nobodysPoints hr =>
    have hz := (hold (sameRecords_of_eq rfl rfl rfl)).1.2
    rw [hz] at hr
    exact absurd hr (lt_irrefl _)
  | price hr =>
    have hz := (hold (sameRecords_of_eq rfl rfl rfl)).1.2
    rw [hz] at hr
    exact absurd hr (lt_irrefl _)
  | priceSettle =>
    obtain ⟨⟨hx, -⟩, ht⟩ := hold (sameRecords_of_eq rfl rfl rfl)
    obtain ⟨applied, he⟩ := settle_accepted ht (hs hx)
    rw [he]
    trivial
  | pointsMissing => exact (hold (sameRecords_of_eq rfl rfl rfl)).elim
  | checkPoints => exact (hold (sameRecords_of_eq rfl rfl rfl)).elim
  | insertSale => exact rfl
  | insertSaleFor => trivial
  | earn => exact rfl
  | earnRedeem => trivial
  | redeemFailed hd =>
    obtain ⟨b, hb⟩ := redeem_of_le hs
    rw [hd] at hb
    cases hb
  | redeem => exact rfl
  | returnRejected e hsame =>
    rcases hsame with rfl | rfl
    · exact (hold (sameRecords_of_eq rfl rfl rfl)).elim
    · exact (hold (sameRecords_of_eq rfl rfl rfl)).elim
  | @lookup _ _ sale =>
    cases sale with
    | none => exact rfl
    | some r => exact ⟨rfl, rfl⟩
  | appendLocal e next => exact hp
  | pushPending e next => exact hp
  | swap => exact rfl

end PosApp

/-- The call has returned an error. -/
def rejected (w : Machine.State PosApp PosStep) (th : Nat) : Bool :=
  match w.threads[th]? with
  | some (.returned (.error _) :: _) => true
  | _ => false

/-- **When a rejected call leaves no trace.**  In a run in which every sale of an exchange is covered and the
points still cover every redemption, no call that is rejected has changed the sales, a balance, the local log
or the pending sales. -/
theorem rejected_leaves_no_trace {app : PosApp} {as : List (Machine.Label Unit PosApp.Call Unit)}
    {w : Machine.State PosApp PosStep} (h : calls.RunDoes Settles { core := app } as)
    (hw : LabelledRun.exec calls.step { core := app } as = some w) {th : Nat} (hr : rejected w th = true) :
    calls.LeavesAlone SameRecords th { core := app } as := by
  have hspawn : ∀ op, ∀ i ∈ calls.prog op, RecordsAccepted i := by
    intro op i hi
    cases op with
    | _ => rw [List.mem_singleton.mp hi]; trivial
  have hmore : ∀ c i k core more, RecordsAccepted i → Settles c i k →
      calls.instr c i k = some (core, more) → ∀ j ∈ more, RecordsAccepted j := by
    intro c i k core more hp _ hi j hj
    obtain ⟨next, rfl, ha⟩ := act_of_instr hi
    rw [List.mem_singleton.mp hj]
    exact PosApp.recordsAccepted_act hp ha
  have hafter : ∀ c i k core more, RecordsAccepted i → Settles c i k → calls.instr c i k = some (core, more) →
      Accepted i ∨ ¬ SameRecords c core → ∃ j rest, more = j :: rest ∧ Accepted j := by
    intro c i k core more hp hs hi hc
    obtain ⟨next, rfl, ha⟩ := act_of_instr hi
    exact ⟨next, [], rfl, PosApp.accepted_act hp hs ha hc⟩
  refine calls.leavesAlone_of_next hspawn hmore hafter (fun _ hp => nomatch hp) h hw ?_
  rintro j ⟨rest, hj⟩ ha
  simp only [rejected, hj] at hr
  split at hr
  · next he =>
    cases he
    cases ha
  · cases hr

/-- Three of two mugs cannot be returned; meanwhile the two are exchanged for others. -/
theorem over_return_leaves_no_trace :
    calls.LeavesAlone SameRecords 0 { core := PosApp.oneSale }
      [.spawn (.exchange ⟨1⟩ [{ item := ⟨0⟩, qty := u32 3 }] [mugs 1] [] none),
        .spawn (.exchange ⟨1⟩ [] [mugs 2] [] none),
        .run 1 (), .run 1 (), .run 0 (), .run 1 (), .run 1 (), .run 1 (), .run 1 ()] := by
  have hx : (LabelledRun.exec calls.step { core := PosApp.oneSale }
      [.spawn (.exchange ⟨1⟩ [{ item := ⟨0⟩, qty := u32 3 }] [mugs 1] [] none),
        .spawn (.exchange ⟨1⟩ [] [mugs 2] [] none),
        .run 1 (), .run 1 (), .run 0 (), .run 1 (), .run 1 (), .run 1 (), .run 1 ()]).map (rejected · 0) =
      some true := by
    decide +kernel
  obtain ⟨w, hw, hr⟩ := Option.map_eq_some_iff.mp hx
  exact rejected_leaves_no_trace (by decide +kernel) hw hr

/-- An exchange for mugs of $181 on $19 of credit is rejected; its return stays recorded. -/
theorem rejected_exchange_keeps_return :
    ¬ ∀ (app : PosApp) (as : List (Machine.Label Unit PosApp.Call Unit)) (w : Machine.State PosApp PosStep) (th : Nat),
      LabelledRun.exec calls.step { core := app } as = some w → rejected w th = true →
        calls.LeavesAlone SameRecords th { core := app } as := by
  intro h
  have hx : (LabelledRun.exec calls.step { core := PosApp.oneSale }
      [.spawn (.exchange ⟨1⟩ [] [mugs 20] [] none), .run 0 (), .run 0 (), .run 0 (), .run 0 (), .run 0 ()]).map
        (rejected · 0) = some true := by
    decide +kernel
  obtain ⟨w, hw, hr⟩ := Option.map_eq_some_iff.mp hx
  have hl : calls.LeavesAlone SameRecords 0 { core := PosApp.oneSale }
      ([.spawn (.exchange ⟨1⟩ [] [mugs 20] [] none), .run 0 (), .run 0 ()] ++ [.run 0 (), .run 0 (), .run 0 ()]) :=
    h _ _ w 0 hw hr
  -- the second section of `record_offline`
  have hp : (LabelledRun.exec calls.step { core := PosApp.oneSale }
      [.spawn (.exchange ⟨1⟩ [] [mugs 20] [] none), .run 0 (), .run 0 ()]).bind (fun u =>
        (calls.step u (.run 0 ())).map fun t => (u.core.sync.pending.length, t.core.sync.pending.length)) =
      some (1, 2) := by
    decide +kernel
  obtain ⟨u, hu, ht⟩ := Option.bind_eq_some_iff.mp hp
  obtain ⟨t, ht, hn⟩ := Option.map_eq_some_iff.mp ht
  have hsame := (LabelledRun.AllSteps.right calls.step hl hu).1 () t rfl ht
  obtain ⟨h1, h2⟩ := Prod.mk.inj hn
  rw [hsame.2.2.2] at h1
  omega

/-- The customer's 18 points are checked twice before they are redeemed; the second sale is inserted and then
rejected. -/
example :
    (LabelledRun.exec calls.step
      { core := (PosApp.new ⟨0⟩).next (.saleFor ⟨7⟩ 0 [mugs 2] [{ kind := .cash, amount := i64 19 }]) }
      [.spawn (.saleFor ⟨7⟩ 18 [{ mugs 1 with unitPrice := i64 1, tax := i64 17 }] []),
        .spawn (.saleFor ⟨7⟩ 18 [{ mugs 1 with unitPrice := i64 1, tax := i64 17 }] []),
        .run 0 (), .run 0 (), .run 0 (), .run 0 (), .run 0 (), .run 1 (), .run 1 (), .run 1 (), .run 1 (), .run 1 (),
        .run 0 (), .run 0 (), .run 0 (), .run 1 (), .run 1 (), .run 1 ()]).map
      (fun w => (rejected w 1, (w.core.sales.lookup ⟨3⟩).isSome)) = some (true, true) := by
  decide +kernel

end TptErp.Pos
