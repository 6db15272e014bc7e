import TptErp.Pos.Traces

/-!
# The price of a sale

A sale should be priced by its lines and by its own balance: that of its customer, as the call has read it, and
the initial one without a customer.  The plugin reads the balance from the host, though, which all calls share
and which keeps the last balance that a call has fed.

`ownBalance` is the balance a sale should be priced at, read off the run; `soleTotal` is the total it then has.
Without a plugin every sale has it; with one, in every run in which no balance is fed while a sale waits to be
priced at another one, and a sale without a customer starts on a host with the initial balance (`priced_alone`).
-/

namespace TptErp.Pos

open Machine (Next)
open PosApp (mugs)

deriving instance DecidableEq for WasmMoney

/-- The total of a sale by its lines and its own balance. -/
def soleTotal (plugin : Option PricingPlugin) (own : WasmMoney) (lines : List SaleLine) : Money Usd :=
  let txn := cartOf ⟨0⟩ lines
  ((({ storeBalance := own, handle := plugin } : PosPricingEngine).discounted txn.subtotal).1 : ℚ) / 100 + txn.taxTotal

/-- What a section makes of the sale's own balance: without a customer it is the initial one, else the
customer's, when it is read. -/
def PosStep.ownBalance (app : PosApp) (own : Option WasmMoney) : PosStep → Option WasmMoney
  | .start r => if r.customer = none then some initialBalance else own
  | .readBalance _ _ c => some (pointsToWasmMoney (app.loyalty.balance c).points)
  | _ => own

/-- The same for a step of a run, and the sale of the call `th`. -/
def ownBalance (th : Nat) (own : Option WasmMoney) (w : Machine.State PosApp PosStep) :
    Machine.Label Unit PosApp.Call Unit → Option WasmMoney
  | .run th' _ =>
    if th' = th then
      match w.threads[th]? with
      | some (i :: _) => i.ownBalance w.core own
      | _ => own
    else own
  | _ => own

/-- A step of the register's calls, with the own balance of the call `th` kept in mind. -/
def stepOwn (th : Nat) (s : Option WasmMoney × Machine.State PosApp PosStep) (a : Machine.Label Unit PosApp.Call Unit) :
    Option (Option WasmMoney × Machine.State PosApp PosStep) :=
  (calls.step s.2 a).map fun t => (ownBalance th s.1 s.2 a, t)

/-- A step that prices the sale of the call `th` comes to the total by its lines and its own balance. -/
def PricedAt (th : Nat) (s : Option WasmMoney × Machine.State PosApp PosStep) :
    Machine.Label Unit PosApp.Call Unit → Prop
  | .run th' _ =>
    match s.2.threads[th]? with
    | some (.price r txn _ :: _) =>
      th' = th → s.1.map (soleTotal s.2.core.pricing.handle · r.lines) = some (s.2.core.priced txn).total
    | _ => True
  | _ => True

instance (th : Nat) (s : Option WasmMoney × Machine.State PosApp PosStep) (a : Machine.Label Unit PosApp.Call Unit) :
    Decidable (PricedAt th s a) := by
  unfold PricedAt
  split
  · split <;> infer_instance
  · infer_instance

/-- Throughout the run the sale of the call `th` is priced by its lines and its own balance. -/
def PricedAlone (th : Nat) (app : PosApp) (as : List (Machine.Label Unit PosApp.Call Unit)) : Prop :=
  LabelledRun.AllSteps (stepOwn th) (PricedAt th) (none, { core := app }) as

/-- A sale that waits to be priced at `balance`, or another section. -/
def WaitsAt (balance : WasmMoney) : PosStep → Prop
  | .price _ _ own => own = balance
  | _ => True

instance (balance : WasmMoney) : (i : PosStep) → Decidable (WaitsAt balance i)
  | .price _ _ own => inferInstanceAs (Decidable (own = balance))
  | .start .. | .readBalance .. | .feed .. | .checkPoints .. | .insertSale .. | .earn .. | .redeem .. | .lookup ..
  | .appendLocal .. | .pushPending .. | .swap .. | .returned .. => .isTrue trivial

/-- Unless there is no plugin, a balance is fed while no sale waits to be priced at another one, and a sale without
a customer starts on a host with the initial balance. -/
def Orderly (w : Machine.State PosApp PosStep) : Machine.Label Unit PosApp.Call Unit → Prop
  | .run th _ =>
    match w.threads[th]? with
    | some (.feed _ _ balance :: _) =>
      w.core.pricing.handle.isSome → ∀ prog ∈ w.threads, ∀ i ∈ prog, WaitsAt balance i
    | some (.start r :: _) =>
      w.core.pricing.handle.isSome → r.customer = none → w.core.pricing.storeBalance = initialBalance
    | _ => True
  | _ => True

instance (w : Machine.State PosApp PosStep) (a : Machine.Label Unit PosApp.Call Unit) : Decidable (Orderly w a) := by
  unfold Orderly
  split
  · split <;> infer_instance
  · infer_instance

/-! ## The invariant -/

/-- What a call goes on with once an event is recorded. -/
def AfterRecord : PosStep → Prop
  | .start _ => True
  | .returned _ => True
  | _ => False

/-- A sale on its way to its price has its lines, and waits for it at the balance that the host holds. -/
def Waiting (app : PosApp) : PosStep → Prop
  | .readBalance r txn _ => txn.lines = r.lines.map (·.toItem)
  | .feed r txn _ => txn.lines = r.lines.map (·.toItem)
  | .price r txn own =>
    txn.lines = r.lines.map (·.toItem) ∧ (app.pricing.handle.isSome → app.pricing.storeBalance = own)
  | .appendLocal _ next => AfterRecord next
  | .pushPending _ next => AfterRecord next
  | _ => True

/-- The balance that the call has at hand is its own. -/
def Holds (own : Option WasmMoney) : PosStep → Prop
  | .feed _ _ balance => own = some balance
  | .price _ _ balance => own = some balance
  | _ => True

namespace PosApp

variable {app app' : PosApp} {i next : PosStep}

theorem priced_total {txn : Transaction} {own : WasmMoney} {lines : List SaleLine}
    (hl : txn.lines = lines.map (·.toItem)) (ho : app.pricing.handle.isSome → app.pricing.storeBalance = own) :
    (app.priced txn).total = soleTotal app.pricing.handle own lines := by
  have hs : txn.subtotal = (cartOf ⟨0⟩ lines).subtotal := by
    unfold Transaction.subtotal cartOf
    rw [hl]
  have ht : txn.taxTotal = (cartOf ⟨0⟩ lines).taxTotal := by
    unfold Transaction.taxTotal cartOf
    rw [hl]
  have hd (subtotal : Money Usd) : app.pricing.discounted subtotal =
      ({ storeBalance := own, handle := app.pricing.handle } : PosPricingEngine).discounted subtotal := by
    rcases hp : app.pricing with ⟨balance, handle⟩
    rw [hp] at ho
    cases handle with
    | none => rfl
    | some plugin =>
      obtain rfl : balance = own := ho rfl
      rfl
  unfold priced soleTotal
  dsimp only
  rw [hs, ht, hd]

/-- The host's balance changes when a balance is fed, and a plugin is never loaded later. -/
theorem pricing_act (h : app.act i = some (app', next)) :
    ((∃ r txn balance, i = .feed r txn balance ∧ app'.pricing.storeBalance = balance) ∨
      app'.pricing.storeBalance = app.pricing.storeBalance) ∧
    app'.pricing.handle.isSome = app.pricing.handle.isSome := by
  cases acts_of_act h with
  | feed r txn balance => exact ⟨Or.inl ⟨r, txn, balance, rfl, rfl⟩, rfl⟩
  | returnRejected e hsame =>
    rcases hsame with rfl | rfl
    · exact ⟨Or.inr rfl, rfl⟩
    · exact ⟨Or.inr rfl, rfl⟩
  | swap plugin =>
    show (_ ∨ (app.pricing.swapModule plugin).storeBalance = _) ∧
      (app.pricing.swapModule plugin).handle.isSome = app.pricing.handle.isSome
    unfold PosPricingEngine.swapModule
    split
    · next hs => exact ⟨Or.inr rfl, hs.symm⟩
    · exact ⟨Or.inr rfl, rfl⟩
  | _ => exact ⟨Or.inr rfl, rfl⟩

theorem waiting_afterRecord (h : AfterRecord next) : Waiting app next := by
  cases next with
  | start r => trivial
  | returned result => trivial
  | _ => cases h

theorem waiting_settle (r : Ringing) (txn : Transaction) (priced : Priced) : Waiting app (r.settle txn priced) := by
  rcases r.settle_cases txn priced with ⟨e, he⟩ | ⟨captured, applied, he⟩
  · rw [he]
    trivial
  · rw [he]
    trivial

/-- What a section goes on with waits at the host's balance. -/
theorem waiting_act (hw : Waiting app i)
    (hs : ∀ r, i = .start r → app.pricing.handle.isSome → r.customer = none →
      app.pricing.storeBalance = initialBalance)
    (h : app.act i = some (app', next)) : Waiting app' next := by
  cases acts_of_act h with
  | startAnonymous hl hc =>
    rw [addLines_cart _ _ rfl] at hl
    cases hl
    exact ⟨rfl, fun hp => hs _ rfl hp hc⟩
  | startFor hl =>
    rw [addLines_cart _ _ rfl] at hl
    cases hl
    exact rfl
  | readBalance => exact hw
  | feed => exact ⟨hw, fun _ => rfl⟩
  | priceSettle => exact waiting_settle _ _ _
  | checkPoints => exact waiting_settle _ _ _
  | @lookup _ _ sale =>
    cases sale with
    | none => trivial
    | some r => trivial
  | appendLocal e next => exact hw
  | pushPending e next => exact waiting_afterRecord hw
  | _ => trivial

/-- A call that waits goes on waiting at the host's balance. -/
theorem waiting_other {j : PosStep} (hj : Waiting app j)
    (hf : ∀ r txn balance, i = .feed r txn balance → app.pricing.handle.isSome → WaitsAt balance j)
    (h : app.act i = some (app', next)) : Waiting app' j := by
  cases j with
  | price r txn own =>
    obtain ⟨hb, hp⟩ := pricing_act h
    refine ⟨hj.1, fun hs => ?_⟩
    rw [hp] at hs
    rcases hb with ⟨r', txn', balance, hi, hb⟩ | hb
    · have ho : own = balance := hf r' txn' balance hi hs
      rw [hb, ho]
    · rw [hb, hj.2 hs]
  | _ => exact hj

theorem holds_settle (own : Option WasmMoney) (r : Ringing) (txn : Transaction) (priced : Priced) :
    Holds own (r.settle txn priced) := by
  rcases r.settle_cases txn priced with ⟨e, he⟩ | ⟨captured, applied, he⟩
  · rw [he]
    trivial
  · rw [he]
    trivial

/-- What a section goes on with holds the sale's own balance. -/
theorem holds_act {own : Option WasmMoney} (hw : Waiting app i) (ho : Holds own i)
    (h : app.act i = some (app', next)) : Holds (i.ownBalance app own) next := by
  cases acts_of_act h with
  | startAnonymous hl hc =>
    show PosStep.ownBalance app own (.start _) = some initialBalance
    exact if_pos hc
  | readBalance => exact rfl
  | feed => exact ho
  | priceSettle => exact holds_settle _ _ _ _
  | checkPoints => exact holds_settle _ _ _ _
  | pushPending e next =>
    cases next with
    | start r => trivial
    | returned result => trivial
    | _ => cases hw
  | _ => trivial

end PosApp

/-- The invariant of a run: the sales wait at the host's balance, and the call `th` holds its own. -/
structure PriceInv (th : Nat) (own : Option WasmMoney) (w : Machine.State PosApp PosStep) : Prop where
  waiting : ∀ prog ∈ w.threads, ∀ i ∈ prog, Waiting w.core i
  holds : ∀ i, Next w th i → Holds own i

theorem priceInv_spawn (own : Option WasmMoney) (app : PosApp) (op : PosApp.Call) :
    ∀ i ∈ calls.prog op, Waiting app i ∧ Holds own i := by
  intro i hi
  cases op with
  | _ => rw [List.mem_singleton.mp hi]; exact ⟨trivial, trivial⟩

/-- A balance is fed while no sale waits at another one. -/
theorem Orderly.waitsAt {w : Machine.State PosApp PosStep} {th : Nat} {k : Unit} {rest : List PosStep} {r : Ringing}
    {txn : Transaction} {balance : WasmMoney} (h : Orderly w (.run th k))
    (hth : w.threads[th]? = some (.feed r txn balance :: rest)) (hp : w.core.pricing.handle.isSome) :
    ∀ prog ∈ w.threads, ∀ i ∈ prog, WaitsAt balance i := by
  simp only [Orderly, hth] at h
  exact h hp

theorem Orderly.initial {w : Machine.State PosApp PosStep} {th : Nat} {k : Unit} {rest : List PosStep} {r : Ringing}
    (h : Orderly w (.run th k)) (hth : w.threads[th]? = some (.start r :: rest)) (hp : w.core.pricing.handle.isSome)
    (hc : r.customer = none) : w.core.pricing.storeBalance = initialBalance := by
  simp only [Orderly, hth] at h
  exact h hp hc

theorem waiting_step {w t : Machine.State PosApp PosStep} {a : Machine.Label Unit PosApp.Call Unit}
    (h : ∀ prog ∈ w.threads, ∀ i ∈ prog, Waiting w.core i) (ho : Orderly w a) (ht : calls.step w a = some t) :
    ∀ prog ∈ t.threads, ∀ i ∈ prog, Waiting t.core i := by
  cases calls.moves_of_step ht with
  | spawn op =>
    intro prog hp i hi
    rcases List.mem_append.mp hp with hp | hp
    · exact h prog hp i hi
    · rw [List.mem_singleton.mp hp] at hi
      exact (priceInv_spawn none w.core op i hi).1
  | env e => exact h
  | @run th k i rest more core hth hi =>
    obtain ⟨next, rfl, ha⟩ := act_of_instr hi
    have hmem := Machine.mem_of_next hth
    have hother : ∀ prog ∈ w.threads, ∀ j ∈ prog, Waiting core j := by
      intro prog hp j hj
      refine PosApp.waiting_other (h prog hp j hj) ?_ ha
      rintro r txn balance rfl hs
      exact ho.waitsAt hth hs prog hp j hj
    intro prog hp j hj
    rcases List.mem_or_eq_of_mem_set hp with hp | rfl
    · exact hother prog hp j hj
    · rcases List.mem_cons.mp hj with rfl | hj
      · refine PosApp.waiting_act (h _ hmem i List.mem_cons_self) ?_ ha
        rintro r rfl hs hc
        exact ho.initial hth hs hc
      · exact hother _ hmem j (List.mem_cons_of_mem _ hj)

theorem holds_step {th : Nat} {own : Option WasmMoney} {w t : Machine.State PosApp PosStep}
    {a : Machine.Label Unit PosApp.Call Unit} (h : PriceInv th own w) (ht : calls.step w a = some t) :
    ∀ j, Next t th j → Holds (ownBalance th own w a) j := by
  intro j hj
  rcases calls.next_cases ht hj with ⟨op, hop⟩ | ⟨hn, hk⟩ | ⟨k, i, rest, core, more, rfl, hth, hi, hhead⟩
  · exact (priceInv_spawn _ w.core op j hop).2
  · have hown : ownBalance th own w a = own := by
      cases a with
      | run th' k =>
        have hne : th' ≠ th := by
          rintro rfl
          exact hk k rfl
        simp only [ownBalance, if_neg hne]
      | spawn op => rfl
      | env e => rfl
    rw [hown]
    exact h.holds j hn
  · obtain ⟨next, rfl, ha⟩ := act_of_instr hi
    obtain rfl : next = j := Option.some.inj hhead
    have hown : ownBalance th own w (.run th k) = i.ownBalance w.core own := by
      simp only [ownBalance, if_pos, hth]
    rw [hown]
    have hw := h.waiting _ (Machine.mem_of_next hth) i List.mem_cons_self
    exact PosApp.holds_act hw (h.holds i ⟨rest, hth⟩) ha

/-- **When a sale's price depends on nothing but its lines and its own balance.**  In every interleaving of calls,
from every register: if no balance is fed while a sale waits to be priced at another one, and every sale without
a customer starts on a host with the initial balance, or there is no plugin, each sale is priced at its own
balance. -/
theorem priced_alone {app : PosApp} {as : List (Machine.Label Unit PosApp.Call Unit)}
    (h : LabelledRun.AllSteps calls.step Orderly { core := app } as) (th : Nat) : PricedAlone th app as := by
  have hrun : ∀ (as : List (Machine.Label Unit PosApp.Call Unit)) (own : Option WasmMoney)
      (w : Machine.State PosApp PosStep), PriceInv th own w → LabelledRun.AllSteps calls.step Orderly w as →
        LabelledRun.AllSteps (stepOwn th) (PricedAt th) (own, w) as := by
    intro as
    induction as with
    | nil => exact fun _ _ _ _ => trivial
    | cons a as ih =>
      intro own w hw h
      constructor
      · cases a with
        | run th' k =>
          simp only [PricedAt]
          split
          · next r txn balance rest hn =>
            rintro rfl
            obtain ⟨hl, hb⟩ := hw.waiting _ (Machine.mem_of_next hn) _ List.mem_cons_self
            have ho : own = some balance := hw.holds _ ⟨rest, hn⟩
            rw [ho, PosApp.priced_total hl hb]
            rfl
          · trivial
        | spawn op => trivial
        | env e => trivial
      · rintro ⟨own', t⟩ ht
        obtain ⟨t', ht, he⟩ := Option.map_eq_some_iff.mp ht
        cases he
        exact ih _ t ⟨waiting_step hw.waiting h.1 ht, holds_step hw ht⟩ (h.2 t ht)
  have hinit : PriceInv th none { core := app } := by
    refine ⟨fun _ hp => (nomatch hp), ?_⟩
    rintro i ⟨rest, hn⟩
    cases hn
  exact hrun as none _ hinit h

/-- The discount of the pricing plugin: ten percent above a balance of a million ten-thousandths, else two. -/
def tieredPricing : PricingPlugin := fun balance _ amount =>
  let discountPct := if 1000000 < balance.major * 10000 + balance.minor then 10 else 2
  some (i64 (amount - (amount * discountPct).tdiv 100))

/-- A sale without a customer is priced between a customer's reading and feeding of the balance. -/
theorem priced_alone_two_sales :
    PricedAlone 0 ((PosApp.new ⟨0⟩).withPricing tieredPricing)
      [.spawn (.sale [mugs 1] [{ kind := .cash, amount := i64 10 }]),
        .spawn (.saleFor ⟨7⟩ 0 [mugs 20] [{ kind := .cash, amount := i64 181 }]),
        .run 0 (), .run 1 (), .run 1 (), .run 0 (), .run 1 (), .run 1 (), .run 0 (), .run 1 ()] :=
  priced_alone (by decide +kernel) 0

/-- A register on which a customer has bought with 180 points. -/
def regular : PosApp :=
  (((PosApp.new ⟨0⟩).withPricing tieredPricing).next
    (.saleFor ⟨7⟩ 0 [mugs 20] [{ kind := .cash, amount := i64 181 }])).next
    (.saleFor ⟨7⟩ 0 [mugs 20] [{ kind := .cash, amount := i64 181 }])

/-- The next sale, without a customer, gets the customer's ten percent. -/
theorem anonymous_sale_gets_discount :
    ¬ ∀ (app : PosApp) (as : List (Machine.Label Unit PosApp.Call Unit)) (th : Nat), PricedAlone th app as := by
  intro h
  have hno : ¬ PricedAlone 0 regular
      [.spawn (.sale [mugs 1] [{ kind := .cash, amount := i64 10 }]), .run 0 (), .run 0 ()] := by
    unfold PricedAlone
    decide +kernel
  exact hno (h _ _ _)

end TptErp.Pos
