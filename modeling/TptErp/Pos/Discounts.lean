import TptErp.Percent
import TptErp.Pos.Calls

/-!
# The pricing plugin

The plugin that ships with the register: ten per cent off above a balance of a hundred, two per cent else.  Any of
its runs may fail, and other copies of it may be swapped in.

`tenth_off`: in every interleaving of calls, no recorded sale of a subtotal that is not negative, and that fits an
`i64` in cents, has a discount of more than a tenth, or of less than nothing; the balances of other customers, which
the plugin can meet, do not matter.
-/

namespace TptErp.Pos

open PosApp (mugs)

/-! ## The guest -/

/-- `discount_pct`; the balance is in ten-thousandths. -/
def discountPct (balance : WasmMoney) : Int :=
  if 1000000 < wrapI64 (wrapI64 (balance.major * 10000) + balance.minor) then 10 else 2

/-- `final_amount` of the guest's `run`. -/
def pricingGuest : PricingPlugin := fun balance _ amount => some (i64 (lessPercent amount (discountPct balance)))

/-- The guest, some of whose runs fail. -/
def Shipped (plugin : PricingPlugin) : Prop :=
  ∀ balance account amount, plugin balance account amount = none ∨
    plugin balance account amount = pricingGuest balance account amount

theorem discountPct_bounds (balance : WasmMoney) : 0 ≤ discountPct balance ∧ discountPct balance ≤ 10 := by
  unfold discountPct
  split_ifs <;> omega

/-- A subtotal of whole dollars. -/
def WholeDollars (subtotal : Money Usd) : Prop := ∃ n : Int, subtotal = n

/-- A discount that is one, of at most a tenth; a subtotal that does not fit is charged nothing. -/
def TenthOff (subtotal discount : Money Usd) : Prop :=
  0 ≤ subtotal → subtotal * 100 < 2 ^ 63 → 0 ≤ discount ∧ 10 * discount ≤ subtotal

/-! ## One sale -/

theorem toI64_intCast {n : Int} (h0 : -2 ^ 63 ≤ n) (h1 : n < 2 ^ 63) : toI64 (n : ℚ) = some n := by
  have htrunc : trunc (n : ℚ) = n := by
    have h := trunc_div n 1
    rwa [Nat.cast_one, div_one, Nat.cast_one, Int.tdiv_one] at h
  unfold toI64
  dsimp only
  rw [htrunc, if_pos ⟨h0, h1⟩]

/-- The guest leaves nine tenths at least. -/
theorem le_lessPercent (balance : WasmMoney) {n : Int} (h0 : 0 ≤ n) (h1 : n * 100 < 2 ^ 63) :
    90 * n ≤ lessPercent (n * 100) (discountPct balance) := by
  obtain ⟨hp0, hp⟩ := discountPct_bounds balance
  have hle := percentOf_le (show 0 ≤ n * 100 by omega) hp0
  have hten : n * 100 * discountPct balance ≤ n * 100 * 10 := mul_le_mul_of_nonneg_left hp (by omega)
  rw [lessPercent_eq (by omega) h1 hp0 (by omega)]
  omega

theorem PosPricingEngine.discounted_bounds {e : PosPricingEngine} (he : ∀ plugin ∈ e.handle, Shipped plugin) {n : Int}
    (h0 : 0 ≤ n) (h1 : n * 100 < 2 ^ 63) :
    (e.discounted (n : ℚ)).1 ≤ n * 100 ∧ 90 * n ≤ (e.discounted (n : ℚ)).1 := by
  have hcents : (toI64 ((n : ℚ) * 100)).getD 0 = n * 100 := by
    have h := toI64_intCast (n := n * 100) (by omega) h1
    rw [Int.cast_mul, Int.cast_ofNat] at h
    rw [h, Option.getD_some]
  unfold discounted
  dsimp only
  rw [hcents]
  have hanswer : e.discount "store-1" (n * 100) = none ∨
      e.discount "store-1" (n * 100) = some (i64 (lessPercent (n * 100) (discountPct e.storeBalance))) := by
    unfold discount
    cases hh : e.handle with
    | none => exact Or.inl rfl
    | some plugin => exact he plugin hh e.storeBalance "store-1" (n * 100)
  rcases hanswer with hnone | hsome
  · rw [hnone]
    dsimp only
    exact ⟨le_rfl, by omega⟩
  · rw [hsome]
    have hval : (i64 (lessPercent (n * 100) (discountPct e.storeBalance))).1 =
        lessPercent (n * 100) (discountPct e.storeBalance) := wrapI64_of_lt (le_wrapI64 _) (wrapI64_lt _)
    have hle := le_lessPercent e.storeBalance h0 h1
    dsimp only
    rw [hval]
    split
    · next hlt => exact ⟨hlt.le, hle⟩
    · exact ⟨le_rfl, by omega⟩

theorem wholeDollars_cart (id : Id PosTxn) (lines : List SaleLine) : WholeDollars (cartOf id lines).subtotal := by
  have hfold : ∀ (ls : List SaleLine) (a : ℚ), WholeDollars a →
      WholeDollars (((ls.map (·.toItem)).map (·.merchandise)).foldl (fun a b => a + b) a) := by
    intro ls
    induction ls with
    | nil => exact fun a ha => ha
    | cons l ls ih =>
      rintro a ⟨n, rfl⟩
      refine ih _ ⟨n + l.unitPrice.1 * (l.qty.1 : Int), ?_⟩
      show (n : ℚ) + (l.unitPrice.1 : ℚ) * (l.qty.1 : ℚ) = _
      push_cast
      rfl
  exact hfold lines 0 ⟨0, Int.cast_zero.symm⟩

/-- What a section prices is a tenth off at most. -/
theorem PosApp.priced_tenthOff {app : PosApp} (hp : ∀ plugin ∈ app.pricing.handle, Shipped plugin) {txn : Transaction}
    (ht : WholeDollars txn.subtotal) : TenthOff (app.priced txn).subtotal (app.priced txn).discount := by
  obtain ⟨n, hn⟩ := ht
  intro h0 h1
  have hsubtotal : (app.priced txn).subtotal = (n : ℚ) := hn
  have hdiscount : (app.priced txn).discount = (n : ℚ) - ((app.pricing.discounted (n : ℚ)).1 : ℚ) / 100 := by
    rw [← hn]
    rfl
  rw [hsubtotal] at h0 h1 ⊢
  have hcents : n * 100 < 2 ^ 63 := by exact_mod_cast h1
  obtain ⟨hmost, hleast⟩ := PosPricingEngine.discounted_bounds hp (by exact_mod_cast h0) hcents
  have hmost' : ((app.pricing.discounted (n : ℚ)).1 : ℚ) ≤ n * 100 := by exact_mod_cast hmost
  have hleast' : 90 * (n : ℚ) ≤ ((app.pricing.discounted (n : ℚ)).1 : ℚ) := by exact_mod_cast hleast
  rw [hdiscount]
  constructor
  · linarith
  · linarith

/-! ## Every interleaving -/

/-- What is priced so far, and what is swapped in. -/
def Priceworthy : PosStep → Prop
  | .readBalance _ txn _ | .feed _ txn _ | .price _ txn _ => WholeDollars txn.subtotal
  | .checkPoints _ _ priced _ | .insertSale _ _ priced _ => TenthOff priced.subtotal priced.discount
  | .appendLocal _ next | .pushPending _ next => Priceworthy next
  | .start _ | .earn _ _ _ | .redeem _ _ _ | .lookup _ _ _ | .swap _ | .returned _ => True

/-- Only copies of the guest are swapped in. -/
def SwapsShipped (_ : PosApp) (i : PosStep) (_ : Unit) : Prop := ∀ plugin, i = .swap plugin → Shipped plugin

/-- The guest is loaded, if anything, and the recorded sales have its discounts. -/
structure Fair (app : PosApp) : Prop where
  plugin : ∀ plugin ∈ app.pricing.handle, Shipped plugin
  sales : ∀ id record, app.sales.lookup id = some record → TenthOff record.subtotal record.discount

variable {app app' : PosApp} {i next : PosStep}

theorem priceworthy_settle {priced : Priced} (h : TenthOff priced.subtotal priced.discount) (r : Ringing)
    (txn : Transaction) : Priceworthy (r.settle txn priced) := by
  rcases r.settle_cases txn priced with ⟨e, he⟩ | ⟨captured, applied, he⟩
  · rw [he]
    trivial
  · rw [he]
    exact h

theorem priceworthy_act (hf : Fair app) (hi : Priceworthy i) (ha : app.act i = some (app', next)) :
    Priceworthy next := by
  cases PosApp.acts_of_act ha with
  | startAnonymous hl =>
    rw [addLines_cart _ _ rfl] at hl
    cases hl
    exact wholeDollars_cart _ _
  | startFor hl =>
    rw [addLines_cart _ _ rfl] at hl
    cases hl
    exact wholeDollars_cart _ _
  | readBalance => exact hi
  | feed => exact hi
  | price => exact PosApp.priced_tenthOff hf.plugin hi
  | priceSettle => exact priceworthy_settle (PosApp.priced_tenthOff hf.plugin hi) _ _
  | checkPoints => exact priceworthy_settle hi _ _
  | @lookup _ _ sale =>
    cases sale with
    | none => trivial
    | some r => trivial
  | appendLocal e next => exact hi
  | pushPending e next => exact hi
  | _ => trivial

theorem fair_act (hf : Fair app) (hi : Priceworthy i) (hs : SwapsShipped app i ())
    (ha : app.act i = some (app', next)) : Fair app' := by
  have hrecord : ∀ (priced : Priced) (txn : Transaction) (applied : List Tender),
      TenthOff priced.subtotal priced.discount → Fair (app.recordSale (priced.record txn applied)) := by
    intro priced txn applied htenth
    refine ⟨hf.plugin, fun id record hlookup => ?_⟩
    have hl : (app.sales.insert txn.id (priced.record txn applied)).lookup id = some record := hlookup
    rw [AssocMap.lookup_insert_eq] at hl
    split at hl
    · cases hl
      exact htenth
    · exact hf.sales id record hl
  cases PosApp.acts_of_act ha with
  | insertSale txn priced applied => exact hrecord priced txn applied hi
  | insertSaleFor txn priced applied => exact hrecord priced txn applied hi
  | returnRejected e hkept =>
    rcases hkept with rfl | rfl
    · exact hf
    · exact ⟨hf.plugin, hf.sales⟩
  | swap plugin =>
    refine ⟨fun p hp => ?_, hf.sales⟩
    have hswapped : p ∈ (app.pricing.swapModule plugin).handle := hp
    unfold PosPricingEngine.swapModule at hswapped
    split at hswapped
    · cases hswapped
      exact hs plugin rfl
    · exact hf.plugin p hswapped
  | _ => exact ⟨hf.plugin, hf.sales⟩

/-- **Never more than a tenth off**, in every interleaving of calls. -/
theorem tenth_off {app : PosApp} {as : List (Machine.Label Unit PosApp.Call Unit)} (hf : Fair app)
    (hs : calls.RunDoes SwapsShipped { core := app } as) :
    LabelledRun.AllStates calls.step (fun w => ∀ id record, w.core.sales.lookup id = some record →
      TenthOff record.subtotal record.discount) { core := app } as := by
  have hrun := calls.allStates_good Fair (fun _ i => Priceworthy i) ?_ ?_ ?_ (Machine.good_init hf) hs
  · exact hrun.mono _ fun w hw => hw.core.sales
  · intro c op _ i hi
    cases op <;> (cases List.mem_singleton.mp hi; trivial)
  · intro c e hc
    exact ⟨⟨hc.plugin, hc.sales⟩, fun _ hi => (nomatch hi), fun _ hi => hi⟩
  · intro c i k core more hc hi hok hinstr
    obtain ⟨next, rfl, ha⟩ := act_of_instr hinstr
    refine ⟨fair_act hc hi hok ha, fun j hj => ?_, fun _ hj => hj⟩
    rw [List.mem_singleton.mp hj]
    exact priceworthy_act hc hi ha

/-- A new register with the guest. -/
theorem fair_new (terminal : Id PosTerminal) : Fair ((PosApp.new terminal).withPricing pricingGuest) := by
  refine ⟨fun plugin hp => ?_, fun _ _ h => nomatch h⟩
  cases hp
  exact fun _ _ _ => Or.inr rfl

def PosStep.isSwap : PosStep → Bool
  | swap _ => true
  | _ => false

theorem runDoes_of_noSwap {w : Machine.State PosApp PosStep} {as : List (Machine.Label Unit PosApp.Call Unit)}
    (h : calls.RunDoes (fun _ i _ => i.isSwap = false) w as) : calls.RunDoes SwapsShipped w as := by
  refine LabelledRun.AllSteps.mono _ (fun u a hd t ht th k i ha hn plugin hi => ?_) h
  have hno := hd t ht th k i ha hn
  rw [hi] at hno
  cases hno

/-- Twenty mugs for $180 for a customer, and again: the second sale has ten per cent off. -/
theorem tenth_off_twice : LabelledRun.AllStates calls.step
    (fun w => ∀ id record, w.core.sales.lookup id = some record → TenthOff record.subtotal record.discount)
    { core := (PosApp.new ⟨0⟩).withPricing pricingGuest }
    [.spawn (.saleFor ⟨7⟩ 0 [mugs 20] [{ kind := .cash, amount := i64 181 }]),
      .run 0 (), .run 0 (), .run 0 (), .run 0 (), .run 0 (), .run 0 (), .run 0 (),
      .spawn (.saleFor ⟨7⟩ 0 [mugs 20] [{ kind := .cash, amount := i64 181 }]),
      .run 1 (), .run 1 (), .run 1 (), .run 1 (), .run 1 (), .run 1 ()] :=
  tenth_off (fair_new ⟨0⟩) (runDoes_of_noSwap (by decide +kernel))

end TptErp.Pos
