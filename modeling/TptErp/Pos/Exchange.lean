import TptErp.Pos.Calls
import TptErp.Pos.Shares

/-!
# What an exchange is worth

An exchange turns the refund of a return into a credit on a new sale; the tenders share what the credit leaves of
the total.  The credit is cut off at the total, and what is cut off is recorded nowhere.  `exchange_conserves_iff`:
an exchange conserves value exactly when the refund is not negative, does not exceed the new total, and the shares of
the tenders add up.
-/

namespace TptErp.Pos

/-- The store credit applied to the new sale: it stands before the shares of the tenders. -/
def ExchangeOutcome.credit (out : ExchangeOutcome) (tenders : List SaleTender) : Money Usd :=
  ((out.sale.appliedTenders.take (out.sale.appliedTenders.length - tenders.length)).map (·.amount)).sum

/-- What the tenders of the new sale share. -/
def ExchangeOutcome.shares (out : ExchangeOutcome) (tenders : List SaleTender) : Money Usd :=
  ((out.sale.appliedTenders.drop (out.sale.appliedTenders.length - tenders.length)).map (·.amount)).sum

/-- The events that a call has recorded. -/
def recordedSince (app app' : PosApp) : List SaleEvent := app'.sync.recorded.drop app.sync.recorded.length

/-- What recorded events hand back beside the first return. -/
def handedBack (events : List SaleEvent) : Money Usd :=
  (((events.filter fun e => e.kind = .ret).tail).map (·.total)).sum

/-- The refund is applied as credit or handed back; the new total is credit and shares; and the return less the sale
is what the customer gets in cash, by the outcome and by the events. -/
structure Conserves (app app' : PosApp) (tenders : List SaleTender) (out : ExchangeOutcome) : Prop where
  refund : out.refund = out.credit tenders + handedBack (recordedSince app app')
  total : out.sale.total = out.credit tenders + out.shares tenders
  events : ∃ ret sale : SaleEvent, recordedSince app app' = [ret, sale] ∧ ret.kind = .ret ∧ sale.kind = .sale ∧
    ret.total = out.refund ∧ sale.total = out.sale.total ∧
    sale.tenders = out.sale.appliedTenders.map (fun t => (t.kind, t.amount)) ∧
    ret.total - sale.total = handedBack (recordedSince app app') - out.shares tenders

/-- A refund and a total in cents: the refund fits into the total, and what it leaves is shared out. -/
def Fits (refund total : Int) (tenders : List SaleTender) : Prop :=
  0 ≤ refund ∧ refund ≤ total ∧
    (refund < total → AddsUp (total - refund) (tenders.map fun t => amountToU64 t.toTender.amount))

instance (refund total : Int) (tenders : List SaleTender) : Decidable (Fits refund total tenders) :=
  inferInstanceAs (Decidable (_ ∧ _ ∧ (_ → _)))

/-! ## The tenders of a sale -/

theorem length_allocate {amount : Money Usd} {ratios : List Nat} {parts : List (Money Usd)}
    (h : Money.allocate amount ratios = .ok parts) : parts.length = ratios.length := by
  unfold Money.allocate at h
  split at h
  · cases h
  · dsimp only at h
    split at h
    · cases h
    · cases h
      rw [Money.length_giveLeftover, List.length_map, List.length_map]

theorem splitTotal_ok {total : Money Usd} {offered : List Tender} {shares : List (Money Usd)}
    (h : splitTotal total offered = .ok shares) :
    Money.allocate total (offered.map fun t => amountToU64 t.amount) = .ok shares := by
  unfold splitTotal at h
  split at h
  · cases h
  · dsimp only at h
    split at h
    · cases h
    · split at h
      · next ha => cases h; exact ha
      · cases h

/-- The applied tenders: the credit, unless there is none, and the shares. -/
theorem applyTenders_ok {total credit subtotal : Money Usd} {offered applied : List Tender}
    (h : applyTenders total credit subtotal offered = .ok applied) :
    ∃ shares : List (Money Usd), shares.length = offered.length ∧
      (if credit < total then Money.allocate (total - credit) (offered.map fun t => amountToU64 t.amount) = .ok shares
        else shares = List.replicate offered.length 0) ∧
      applied = (if 0 < min credit total then [{ kind := .storeCredit, amount := min credit total }] else []) ++
        (offered.zip shares).map fun p => { kind := p.1.kind, amount := p.2 } := by
  unfold applyTenders at h
  dsimp only at h
  by_cases hc : credit < total
  · rw [min_eq_left hc.le] at h ⊢
    rw [if_pos (sub_pos.mpr hc)] at h
    rcases hs : splitTotal (total - credit) offered with e | shares
    · rw [hs] at h
      cases e with
      | emptyTenders => cases h
      | underfunded covered total => cases h
    · rw [hs] at h
      have ha := splitTotal_ok hs
      refine ⟨shares, ?_, ?_, ?_⟩
      · rw [length_allocate ha, List.length_map]
      · rw [if_pos hc]
        exact ha
      · cases h
        split
        · rfl
        · rfl
  · rw [min_eq_right (not_lt.mp hc), sub_self, if_neg (lt_irrefl _)] at h
    rw [min_eq_right (not_lt.mp hc)]
    refine ⟨List.replicate offered.length 0, List.length_replicate, ?_, ?_⟩
    · rw [if_neg hc]
    · cases h
      split
      · rfl
      · rfl

/-- The credit stands in front of the shares: what the total takes of it, unless that is negative. -/
theorem applyTenders_parts {total credit subtotal : Money Usd} {tenders : List SaleTender} {applied : List Tender}
    (h : applyTenders total credit subtotal (tenders.map (·.toTender)) = .ok applied) :
    ∃ shares : List (Money Usd),
      (if credit < total then
          Money.allocate (total - credit) (tenders.map fun t => amountToU64 t.toTender.amount) = .ok shares
        else shares = List.replicate tenders.length 0) ∧
      ((applied.take (applied.length - tenders.length)).map (·.amount)).sum = max 0 (min credit total) ∧
      (applied.drop (applied.length - tenders.length)).map (·.amount) = shares := by
  obtain ⟨shares, hlen, hshares, happ⟩ := applyTenders_ok h
  rw [List.length_map] at hlen hshares
  rw [List.map_map] at hshares
  refine ⟨shares, hshares, ?_⟩
  have hsnd : (((tenders.map (·.toTender)).zip shares).map fun p : Tender × Money Usd =>
      ({ kind := p.1.kind, amount := p.2 } : Tender)).map (·.amount) = shares := by
    rw [List.map_map]
    exact List.map_snd_zip (by rw [List.length_map, hlen])
  generalize hrest : (((tenders.map (·.toTender)).zip shares).map fun p : Tender × Money Usd =>
    ({ kind := p.1.kind, amount := p.2 } : Tender)) = rest at happ hsnd
  generalize hpre : (if 0 < min credit total then [({ kind := .storeCredit, amount := min credit total } : Tender)]
    else []) = pre at happ
  have hn : rest.length = tenders.length := by
    rw [← List.length_map (·.amount), hsnd, hlen]
  have hdiff : applied.length - tenders.length = pre.length := by
    rw [happ, List.length_append, hn]
    omega
  rw [hdiff, happ, List.take_left, List.drop_left, hsnd, ← hpre]
  refine ⟨?_, rfl⟩
  split
  · next hm => simp [max_eq_right hm.le]
  · next hm => simp [max_eq_left (not_lt.mp hm)]

/-- The credit of the outcome is what the total takes of it, and its shares are those of the tenders. -/
theorem credit_and_shares {total credit subtotal : Money Usd} {tenders : List SaleTender} {out : ExchangeOutcome}
    (h : applyTenders total credit subtotal (tenders.map (·.toTender)) = .ok out.sale.appliedTenders) :
    out.credit tenders = max 0 (min credit total) ∧
      if credit < total then
        ∃ shares, Money.allocate (total - credit) (tenders.map fun t => amountToU64 t.toTender.amount) = .ok shares ∧
          out.shares tenders = shares.sum
      else out.shares tenders = 0 := by
  obtain ⟨shares, hshares, hcredit, hdrop⟩ := applyTenders_parts h
  refine ⟨hcredit, ?_⟩
  unfold ExchangeOutcome.shares
  rw [hdrop]
  split
  · next hc =>
    rw [if_pos hc] at hshares
    exact ⟨shares, hshares, rfl⟩
  · next hc =>
    rw [if_neg hc] at hshares
    rw [hshares]
    simp

namespace PosApp

variable {app app' : PosApp}

/-- A sale that goes through: its tenders, its total and its event. -/
theorem ringSale_ok {lines : List SaleLine} {tenders : List SaleTender} {customer : Option (Id PosCustomer)}
    {redeem credit : Money Usd} {out : RingOutcome}
    (h : app.ringSale lines tenders customer redeem credit = (.ok out, app')) :
    out.total = app.totalOf lines customer ∧
      (∃ subtotal, applyTenders (app.totalOf lines customer) (redeem + credit) subtotal (tenders.map (·.toTender)) =
        .ok out.appliedTenders) ∧
      app'.sync = app.sync.recordOffline (out.event app.sync.terminal) := by
  have hr := app.ringSale_eq
    { lines, tenders, customer, loyaltyRedeem := redeem, exchangeCredit := credit }
  dsimp only at hr
  rw [h, addLines_cart _ _ rfl, List.nil_append] at hr
  dsimp only at hr
  have htotal : ((app.useId.feedBalance customer).priced { id := app.nextId, lines := lines.map (·.toItem) }).total =
      app.totalOf lines customer := by
    unfold priced totalOf cartOf
    rw [feedBalance_useId_pricing]
  rcases hc : checkRedeem (app.useId.feedBalance customer).loyalty customer redeem with e | u
  · rw [hc] at hr
    cases hr
  · rw [hc] at hr
    dsimp only at hr
    unfold settled at hr
    dsimp only at hr
    rw [htotal] at hr
    rcases ha : applyTenders (app.totalOf lines customer) (redeem + credit)
        ((app.useId.feedBalance customer).priced { id := app.nextId, lines := lines.map (·.toItem) }).subtotal
        (tenders.map (·.toTender)) with e | applied
    · rw [ha] at hr
      cases hr
    · rw [ha, capture_cart _ rfl] at hr
      dsimp only at hr
      split at hr
      · cases hr
      · cases hr
        refine ⟨htotal, ⟨_, ha⟩, ?_⟩
        cases customer with
        | none => rfl
        | some c => rfl

/-- A return that is accepted: its event. -/
theorem refundFor_ok {id : Id PosTxn} {returns : List ReturnLine} {split : RefundSplit}
    (h : app.refundFor id returns = (.ok split, app')) :
    ∃ e : SaleEvent, e.kind = .ret ∧ e.total = split.refundAmount ∧ app'.sync = app.sync.recordOffline e := by
  unfold refundFor at h
  dsimp only at h
  split at h
  · cases h
  · split at h
    · cases h
    · split at h
      · cases h
      · split at h
        · cases h
        · split at h
          · cases h
          · cases h
            exact ⟨_, rfl, rfl, rfl⟩

variable (app)

/-- The total of a new sale in cents. -/
def centsOf (lines : List SaleLine) (customer : Option (Id PosCustomer)) : Int :=
  ((app.feedBalance customer).pricing.discounted (cartOf app.nextId lines).subtotal).1 +
    100 * (lines.map fun l => l.tax.1).sum

theorem totalOf_cents (lines : List SaleLine) (customer : Option (Id PosCustomer)) :
    app.totalOf lines customer = (app.centsOf lines customer : ℚ) / 100 := by
  unfold totalOf centsOf
  rw [taxTotal_cart]
  push_cast
  ring

/-- The two events of an exchange hand nothing back beside the return. -/
theorem recordedSince_exchange {app mid last : PosApp} {ret sale : SaleEvent}
    (h1 : mid.sync = app.sync.recordOffline ret) (h2 : last.sync = mid.sync.recordOffline sale) :
    recordedSince app last = [ret, sale] := by
  unfold recordedSince
  rw [h2, PosSync.recordOffline_recorded, h1, PosSync.recordOffline_recorded, List.append_assoc, List.drop_left]
  rfl

theorem handedBack_pair {ret sale : SaleEvent} (hr : ret.kind = .ret) (hs : sale.kind = .sale) :
    handedBack [ret, sale] = 0 := by
  unfold handedBack
  simp [hr, hs]

/-- Credit and shares make up refund and total exactly when the refund fits into the total. -/
theorem fits_iff {refund total : Int} {credit shares : Money Usd} {tenders : List SaleTender}
    (hcredit : credit = max 0 (min ((refund : ℚ) / 100) ((total : ℚ) / 100)))
    (hshares : if (refund : ℚ) / 100 < (total : ℚ) / 100 then
        ∃ parts, Money.allocate ((total : ℚ) / 100 - (refund : ℚ) / 100)
          (tenders.map fun t => amountToU64 t.toTender.amount) = .ok parts ∧ shares = parts.sum
      else shares = 0) :
    ((refund : ℚ) / 100 = credit ∧ (total : ℚ) / 100 = credit + shares) ↔ Fits refund total tenders := by
  have hlt : (refund : ℚ) / 100 < (total : ℚ) / 100 ↔ refund < total := by
    rw [div_lt_div_iff_of_pos_right (by norm_num)]
    exact_mod_cast Iff.rfl
  have h0 : (0 : ℚ) ≤ (refund : ℚ) / 100 ↔ 0 ≤ refund := by
    rw [le_div_iff₀ (by norm_num), zero_mul]
    exact_mod_cast Iff.rfl
  have hsub : (total : ℚ) / 100 - (refund : ℚ) / 100 = ((total - refund : Int) : ℚ) / 100 := by
    push_cast
    ring
  unfold Fits
  by_cases hc : refund < total
  · -- the refund is used up, and the tenders share what it leaves
    rw [if_pos (hlt.mpr hc), hsub] at hshares
    obtain ⟨parts, ha, rfl⟩ := hshares
    obtain ⟨-, hiff⟩ := allocate_sum_iff _ ha
    rw [min_eq_left (hlt.mpr hc).le] at hcredit
    rw [hcredit]
    constructor
    · rintro ⟨hr, ht⟩
      have hr0 : (0 : ℚ) ≤ (refund : ℚ) / 100 := by
        rw [hr]
        exact le_max_left _ _
      refine ⟨h0.mp hr0, hc.le, fun _ => hiff.mp ?_⟩
      rw [max_eq_right hr0] at ht
      rw [← hsub]
      linarith
    · rintro ⟨hr, -, hadd⟩
      rw [max_eq_right (h0.mpr hr)]
      refine ⟨rfl, ?_⟩
      rw [hiff.mpr (hadd hc), ← hsub]
      ring
  · rw [if_neg (fun h => hc (hlt.mp h))] at hshares
    have hle : (total : ℚ) / 100 ≤ (refund : ℚ) / 100 := not_lt.mp fun h => hc (hlt.mp h)
    rw [min_eq_right hle] at hcredit
    rw [hshares, add_zero, hcredit]
    constructor
    · rintro ⟨hr, ht⟩
      have he : (refund : ℚ) / 100 = (total : ℚ) / 100 := hr.trans ht.symm
      have hr0 : (0 : ℚ) ≤ (refund : ℚ) / 100 := by
        rw [hr]
        exact le_max_left _ _
      have hct : refund = total := by
        rw [div_left_inj' (by norm_num)] at he
        exact_mod_cast he
      exact ⟨h0.mp hr0, hct.le, fun h => absurd h hc⟩
    · rintro ⟨hr, hrt, -⟩
      have he : refund = total := by omega
      rw [← he, max_eq_right (h0.mpr hr)]
      exact ⟨rfl, rfl⟩

/-- **When an exchange conserves value.**  For every recorded sale and all arguments: an exchange that goes through
conserves value exactly when its refund fits into the new total. -/
theorem exchange_conserves_iff {app : PosApp} (h : Reachable app) {id : Id PosTxn} {record : SaleRecord}
    (hr : app.sales.lookup id = some record) (returns : List ReturnLine) (newLines : List SaleLine)
    (newTenders : List SaleTender) (customer : Option (Id PosCustomer)) {out : ExchangeOutcome}
    (ho : (app.exchange id returns newLines newTenders customer).1 = .ok out) :
    Conserves app (app.exchange id returns newLines newTenders customer).2 newTenders out ↔
      Fits (record.refundCents (merchandiseOf record returns)) (app.centsOf newLines customer) newTenders := by
  obtain ⟨-, hs, hw⟩ := salesOk_of_reachable h id record hr
  have hmid := app.totalOf_refundFor id returns newLines customer
  have hrefund := app.refundFor_cases returns hr hs hw
  unfold exchange at ho ⊢
  rcases hx : app.refundFor id returns with ⟨e | split, mid⟩
  · rw [hx] at ho
    cases ho
  · rw [hx] at ho hmid hrefund
    dsimp only at ho hmid hrefund ⊢
    rcases hy : mid.ringSale newLines newTenders customer 0 split.refundAmount with ⟨e | sale, last⟩
    · rw [hy] at ho
      cases ho
    · rw [hy] at ho
      cases ho
      obtain ⟨ret, hkind, hret, hsync⟩ := refundFor_ok hx
      obtain ⟨htotal, ⟨subtotal, happ⟩, hlast⟩ := ringSale_ok hy
      have hamount : split.refundAmount = (record.refundCents (merchandiseOf record returns) : ℚ) / 100 := by
        rcases hrefund with ⟨-, split', he, ha⟩ | ⟨-, e, he⟩
        · cases he
          exact ha
        · cases he
      rw [hmid, totalOf_cents] at htotal happ
      rw [zero_add, hamount] at happ
      generalize hout : ({ refund := split.refundAmount, sale } : ExchangeOutcome) = out
      have hsale : out.sale = sale := by rw [← hout]
      have hrefund : out.refund = split.refundAmount := by rw [← hout]
      rw [← hsale] at happ
      obtain ⟨hcredit, hshares⟩ := credit_and_shares happ
      have hsince := recordedSince_exchange hsync hlast
      have hback := handedBack_pair hkind (show (sale.event mid.sync.terminal).kind = .sale from rfl)
      rw [← fits_iff hcredit hshares]
      constructor
      · rintro ⟨h1, h2, -⟩
        rw [hsince, hback, add_zero, hrefund, hamount] at h1
        rw [hsale, htotal] at h2
        exact ⟨h1, h2⟩
      · rintro ⟨h1, h2⟩
        rw [← hamount] at h1
        rw [← htotal] at h2
        refine ⟨?_, ?_, ret, sale.event mid.sync.terminal, hsince, hkind, rfl, ?_, ?_, ?_, ?_⟩
        · rw [hsince, hback, add_zero, hrefund]
          exact h1
        · rw [hsale]
          exact h2
        · rw [hret, hrefund]
        · rw [hsale]
          rfl
        · rw [hsale]
          rfl
        · rw [hsince, hback, hret]
          show split.refundAmount - sale.total = _
          linarith

/-- Two mugs for three: the $19 are a credit on $28, and cash and card share the other $9. -/
theorem exchange_for_more : ∃ out,
    (oneSale.exchange ⟨1⟩ [] [mugs 3] [{ kind := .cash, amount := i64 5 }, { kind := .card, amount := i64 5 }] none).1 =
        .ok out ∧
      Conserves oneSale
        (oneSale.exchange ⟨1⟩ [] [mugs 3] [{ kind := .cash, amount := i64 5 }, { kind := .card, amount := i64 5 }] none).2
        [{ kind := .cash, amount := i64 5 }, { kind := .card, amount := i64 5 }] out := by
  have hl : (oneSale.sales.lookup ⟨1⟩).map (fun record =>
      decide (Fits (record.refundCents (merchandiseOf record [])) (oneSale.centsOf [mugs 3] none)
        [{ kind := .cash, amount := i64 5 }, { kind := .card, amount := i64 5 }])) = some true := by
    decide +kernel
  obtain ⟨record, hr, hfits⟩ := Option.map_eq_some_iff.mp hl
  have hx : ((oneSale.exchange ⟨1⟩ [] [mugs 3] [{ kind := .cash, amount := i64 5 }, { kind := .card, amount := i64 5 }]
      none).1.toOption).isSome = true := by
    decide +kernel
  rcases ho : (oneSale.exchange ⟨1⟩ [] [mugs 3]
    [{ kind := .cash, amount := i64 5 }, { kind := .card, amount := i64 5 }] none).1 with e | out
  · rw [ho] at hx
    cases hx
  · exact ⟨out, rfl, (exchange_conserves_iff reachable_oneSale hr [] _ _ _ ho).mpr (of_decide_eq_true hfits)⟩

/-- Two mugs for one: $19 are returned, $10 are a credit, and $9 are nowhere. -/
theorem exchange_loses_change :
    ¬ ∀ app : PosApp, Reachable app → ∀ id record, app.sales.lookup id = some record →
      ∀ (returns : List ReturnLine) (newLines : List SaleLine) (newTenders : List SaleTender)
        (customer : Option (Id PosCustomer)) (out : ExchangeOutcome),
        (app.exchange id returns newLines newTenders customer).1 = .ok out →
          Conserves app (app.exchange id returns newLines newTenders customer).2 newTenders out := by
  intro h
  have hl : (oneSale.sales.lookup ⟨1⟩).isSome = true := by decide +kernel
  obtain ⟨record, hr⟩ := Option.isSome_iff_exists.mp hl
  have hx : ((oneSale.exchange ⟨1⟩ [] [mugs 1] [] none).1.toOption).map (fun out => decide (out.refund = out.credit [] +
      handedBack (recordedSince oneSale (oneSale.exchange ⟨1⟩ [] [mugs 1] [] none).2))) = some false := by
    decide +kernel
  rcases ho : (oneSale.exchange ⟨1⟩ [] [mugs 1] [] none).1 with e | out
  · rw [ho] at hx
    cases hx
  · have hc := (h oneSale reachable_oneSale ⟨1⟩ record hr [] [mugs 1] [] none out ho).refund
    rw [ho] at hx
    exact of_decide_eq_false (Option.some.inj hx) hc

end PosApp

end TptErp.Pos
