import TptErp.Money

/-!
# Split tender

`split_total` checks that the tenders cover the total and splits it over them in proportion to
what each offers.
-/

namespace TptErp.Pos

inductive TenderKind
  | cash
  | card
  | giftCard
  | storeCredit
deriving DecidableEq

/-- An applied tender: an instrument and an amount. -/
structure Tender where
  kind : TenderKind
  amount : Money Usd

inductive TenderError
  | emptyTenders
  | underfunded (covered total : Money Usd)

/-- The minor units of an amount as a weight: 0 when it is negative or out of range. -/
def amountToU64 (m : Money Usd) : Nat := ((toI64 (m * 10 ^ Currency.MINOR_UNITS Usd)).getD 0).toNat

/-- Also used by the returns. -/
def weight (m : Money Usd) : Nat := amountToU64 m

/-- What the tenders offer together. -/
def offeredSum (tenders : List Tender) : Money Usd :=
  (tenders.map (·.amount)).foldl (fun a b => a + b) 0

def splitTotal (total : Money Usd) (tenders : List Tender) : Except TenderError (List (Money Usd)) :=
  if tenders = [] then .error .emptyTenders
  else
    let offered := offeredSum tenders
    if offered < total then .error (.underfunded offered total)
    else
      match Money.allocate total (tenders.map fun t => amountToU64 t.amount) with
      | .ok applied => .ok applied
      | .error _ => .error .emptyTenders

end TptErp.Pos
