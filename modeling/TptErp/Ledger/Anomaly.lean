import TptErp.IdText
import TptErp.Lib.Separated
import TptErp.Server.App
import Mathlib.Data.List.Sort
import Mathlib.Data.String.Basic

/-!
# Duplicate detection

`AnomalyProjector` flags a balanced transaction as a duplicate when its signature was seen before.  The signature is
the text of the entries, sorted and joined:

    signature a = signature b ↔ a, b have the same entries, as written        (signature_eq_iff)

Equal amounts may be written with different scales; `duplicates_exact_iff` says when that makes no difference.
The statistics of the outlier detector are floating-point numbers, computed as the source computes them; what they are
over exact numbers is the subject of `TptErp.Ledger.Outliers`.
-/

namespace TptErp.Ledger

open Server

/-! ## The projector -/

inductive Anomaly
  | unbalanced (tx : TransactionId)
  | duplicate (tx first : TransactionId)
  | amountOutlier (tx : TransactionId) (amount : Decimal) (zScore : Float)

structure AnomalyProjector where
  anomalies : List Anomaly := []
  n : Nat := 0
  mean : Float := 0
  m2 : Float := 0
  seen : AssocMap String TransactionId := ∅
  zThreshold : Float
  minSamples : Nat

def EntrySide.letter : EntrySide → String
  | .debit => "D"
  | .credit => "C"

/-- One entry of a signature. -/
def part (e : Entry) : String := e.account.asStr ++ ":" ++ e.side.letter ++ ":" ++ e.amount.text

/-- Stable signature of a transaction's entries. -/
def signature (tx : Posting) : String :=
  let parts := tx.entries.map part
  "|".intercalate parts.mergeSort

/-- `Decimal::from(i64)`. -/
def decimalOfI64 (x : Int64) : Decimal :=
  .ofInt x.toInt (by have := x.toInt_lt; have := x.le_toInt; omega)

namespace AnomalyProjector

def withConfig (zThreshold : Float) (minSamples : Nat) : AnomalyProjector :=
  { zThreshold := zThreshold, minSamples := minSamples }

def new : AnomalyProjector := withConfig 3.0 8

/-- A sample against the mean and the variance of those before it, which then include it. -/
def detectAmount (p : AnomalyProjector) (tx : TransactionId) (value : Float) : AnomalyProjector :=
  let found :=
    if p.n ≥ p.minSamples then
      let variance := p.m2 / p.n.toFloat
      let std := variance.sqrt
      if std > 0 then
        let z := (value - p.mean) / std
        if z.abs > p.zThreshold then [.amountOutlier tx (decimalOfI64 value.toInt64) z] else []
      else []
    else []
  let n := p.n + 1
  let delta := value - p.mean
  let mean := p.mean + delta / n.toFloat
  let delta2 := value - mean
  { p with anomalies := p.anomalies ++ found, n := n, mean := mean, m2 := p.m2 + delta * delta2 }

/-- The entries of a balanced transaction looked up among those seen. -/
def detectDuplicate (p : AnomalyProjector) (tx : Posting) : AnomalyProjector :=
  let sig := signature tx
  match p.seen.lookup sig with
  | some first => if first ≠ tx.id then { p with anomalies := p.anomalies ++ [.duplicate tx.id first] } else p
  | none => { p with seen := p.seen.insert sig tx.id }

variable (toF64 : Decimal → Option Float)

/-- `apply`, with the conversion of decimals to floating point. -/
def apply (p : AnomalyProjector) : Server.LedgerEvent → AnomalyProjector
  | .transactionPosted tx =>
    match tx.isBalanced with
    -- the sums panic before anything is written
    | none => p
    | some false => { p with anomalies := p.anomalies ++ [.unbalanced tx.id] }
    | some true =>
      let value := tx.entries.foldl (fun sum e => sum + (toF64 e.amount).getD 0) 0
      (p.detectDuplicate tx).detectAmount tx.id value

def run (p : AnomalyProjector) (events : List Server.LedgerEvent) : AnomalyProjector := events.foldl (apply toF64) p

/-- What is found at an event, after others. -/
def findings (p : AnomalyProjector) (before : List Server.LedgerEvent) (ev : Server.LedgerEvent) : List Anomaly :=
  ((p.run toF64 before).apply toF64 ev).anomalies.drop (p.run toF64 before).anomalies.length

end AnomalyProjector

/-! ## Decimals as texts -/

/-- The digits of the text, zeros in front where the number is below one. -/
def paddedDigits (d : Decimal) : List Char :=
  List.replicate (d.scale + 1 - d.mantissa.natAbs.repr.toList.length) '0' ++ d.mantissa.natAbs.repr.toList

theorem toList_text (d : Decimal) :
    d.text.toList = (if d.mantissa < 0 then ['-'] else []) ++
      ((paddedDigits d).take ((paddedDigits d).length - d.scale) ++
        if d.scale = 0 then [] else '.' :: (paddedDigits d).drop ((paddedDigits d).length - d.scale)) := by
  show String.toList (_ ++ _ ++ _) = _
  rw [String.toList_append, String.toList_append, List.append_assoc]
  congr 1
  · split <;> rfl
  · congr 1
    · exact String.toList_ofList
    · split
      · rfl
      · rw [String.toList_append]
        exact congrArg (List.cons '.') String.toList_ofList

theorem isDigit_of_mem {d : Decimal} {c : Char} (h : c ∈ paddedDigits d) : c.isDigit := by
  unfold paddedDigits at h
  rcases List.mem_append.mp h with h | h
  · rw [List.eq_of_mem_replicate h]
    rfl
  · rw [Nat.toList_repr] at h
    exact Nat.isDigit_of_mem_toDigits (by omega) (by omega) h

theorem scale_lt_length (d : Decimal) : d.scale < (paddedDigits d).length := by
  unfold paddedDigits
  rw [List.length_append, List.length_replicate]
  omega

theorem ofDigitChars_paddedDigits (d : Decimal) : Nat.ofDigitChars 10 (paddedDigits d) 0 = d.mantissa.natAbs := by
  unfold paddedDigits
  rw [Nat.ofDigitChars_append, Nat.ofDigitChars_replicate_zero, Nat.mul_zero, Nat.toList_repr,
    Nat.ofDigitChars_ten_toDigits]

/-- The characters of a text: a sign, a point, digits. -/
theorem mem_text {d : Decimal} {c : Char} (h : c ∈ d.text.toList) :
    (c = '-' ∧ d.mantissa < 0) ∨ (c = '.' ∧ d.scale ≠ 0) ∨ c.isDigit := by
  rw [toList_text, List.mem_append, List.mem_append] at h
  rcases h with h | h | h
  · split at h
    · next hneg => exact .inl ⟨List.mem_singleton.mp h, hneg⟩
    · cases h
  · exact .inr (.inr (isDigit_of_mem (List.mem_of_mem_take h)))
  · split at h
    · cases h
    · next hs =>
      rcases List.mem_cons.mp h with rfl | h
      · exact .inr (.inl ⟨rfl, hs⟩)
      · exact .inr (.inr (isDigit_of_mem (List.mem_of_mem_drop h)))

theorem neg_iff_mem_text (d : Decimal) : d.mantissa < 0 ↔ '-' ∈ d.text.toList := by
  constructor
  · intro h
    rw [toList_text, if_pos h]
    exact List.mem_cons_self
  · intro h
    rcases mem_text h with ⟨-, h⟩ | ⟨h, -⟩ | h
    · exact h
    · cases h
    · cases h

theorem scale_ne_zero_iff_mem_text (d : Decimal) : d.scale ≠ 0 ↔ '.' ∈ d.text.toList := by
  constructor
  · intro h
    rw [toList_text, if_neg h]
    exact List.mem_append_right _ (List.mem_append_right _ List.mem_cons_self)
  · intro h
    rcases mem_text h with ⟨h, -⟩ | ⟨-, h⟩ | h
    · cases h
    · exact h
    · cases h

/-- The digits of a text, with the point, say the digits and the scale. -/
theorem eq_of_pointed_eq {a b : Decimal} (hs : a.scale ≠ 0 ↔ b.scale ≠ 0)
    (h : ((paddedDigits a).take ((paddedDigits a).length - a.scale) ++
        if a.scale = 0 then [] else '.' :: (paddedDigits a).drop ((paddedDigits a).length - a.scale)) =
      (paddedDigits b).take ((paddedDigits b).length - b.scale) ++
        if b.scale = 0 then [] else '.' :: (paddedDigits b).drop ((paddedDigits b).length - b.scale)) :
    paddedDigits a = paddedDigits b ∧ a.scale = b.scale := by
  by_cases ha : a.scale = 0
  · have hb : b.scale = 0 := not_not.mp fun hb => hs.mpr hb ha
    rw [if_pos ha, if_pos hb, ha, hb, List.append_nil, List.append_nil, Nat.sub_zero, Nat.sub_zero, List.take_length,
      List.take_length] at h
    exact ⟨h, ha.trans hb.symm⟩
  · have hpoint : ∀ d : Decimal, '.' ∉ (paddedDigits d).take ((paddedDigits d).length - d.scale) := by
      intro d hm
      cases isDigit_of_mem (List.mem_of_mem_take hm)
    rw [if_neg ha, if_neg (hs.mp ha), Separated.append_cons_inj (hpoint a) (hpoint b)] at h
    obtain ⟨hwhole, hfraction⟩ := h
    refine ⟨?_, ?_⟩
    · rw [← List.take_append_drop ((paddedDigits a).length - a.scale) (paddedDigits a), hwhole, hfraction,
        List.take_append_drop]
    · have hla := scale_lt_length a
      have hlb := scale_lt_length b
      have hlen := congrArg List.length hfraction
      rw [List.length_drop, List.length_drop] at hlen
      omega

/-- **Texts of decimals**: the text says the mantissa and the scale. -/
theorem text_injective : Function.Injective Decimal.text := by
  intro a b h
  have hneg : a.mantissa < 0 ↔ b.mantissa < 0 := by rw [neg_iff_mem_text, neg_iff_mem_text, h]
  have hscale : a.scale ≠ 0 ↔ b.scale ≠ 0 := by
    rw [scale_ne_zero_iff_mem_text, scale_ne_zero_iff_mem_text, h]
  have hlist := congrArg String.toList h
  rw [toList_text, toList_text, if_congr hneg rfl rfl] at hlist
  obtain ⟨hdigits, hs⟩ := eq_of_pointed_eq hscale (List.append_cancel_left hlist)
  have habs : a.mantissa.natAbs = b.mantissa.natAbs := by
    rw [← ofDigitChars_paddedDigits a, ← ofDigitChars_paddedDigits b, hdigits]
  obtain ⟨m, s, hm, hs'⟩ := a
  obtain ⟨m', s', hm', hs''⟩ := b
  obtain rfl : s = s' := hs
  obtain rfl : m = m' := by
    simp only at habs hneg
    omega
  rfl

/-! ## Signatures -/

theorem toList_part (e : Entry) :
    (part e).toList = e.account.asStr.toList ++ ':' :: (e.side.letter.toList ++ ':' :: e.amount.text.toList) := by
  unfold part
  simp

/-- A part says which entry it writes. -/
theorem part_injective : Function.Injective part := by
  intro e e' h
  have haccount : ∀ e : Entry, ':' ∉ e.account.asStr.toList := fun e h => by
    have := Id.mem_asStr h
    revert this
    decide
  have hside : ∀ e : Entry, ':' ∉ e.side.letter.toList := fun e => by
    cases e.side <;> decide
  have hletter : ∀ s s' : EntrySide, s.letter.toList = s'.letter.toList → s = s' := by
    intro s s'
    cases s <;> cases s' <;> decide
  have hl := congrArg String.toList h
  rw [toList_part, toList_part, Separated.append_cons_inj (haccount e) (haccount e'),
    Separated.append_cons_inj (hside e) (hside e')] at hl
  obtain ⟨ha, hs, ht⟩ := hl
  obtain ⟨account, side, amount⟩ := e
  obtain ⟨account', side', amount'⟩ := e'
  obtain rfl : account = account' := Id.asStr_injective (String.toList_inj.mp ha)
  obtain rfl : side = side' := hletter _ _ hs
  obtain rfl : amount = amount' := text_injective (String.toList_inj.mp ht)
  rfl

theorem notMem_part (e : Entry) : '|' ∉ (part e).toList ∧ (part e).toList ≠ [] := by
  rw [toList_part]
  refine ⟨fun h => ?_, by simp⟩
  simp only [List.mem_append, List.mem_cons] at h
  rcases h with h | h | h | h | h
  · have := Id.mem_asStr h
    revert this
    decide
  · cases h
  · revert h
    cases e.side <;> decide
  · cases h
  · rcases mem_text h with ⟨h, -⟩ | ⟨h, -⟩ | h
    · cases h
    · cases h
    · cases h

/-- **Signatures** are equal when the entries are the same, in any order, their amounts digit for digit. -/
theorem signature_eq_iff (a b : Posting) : signature a = signature b ↔ a.entries.Perm b.entries := by
  have hsort : ∀ l : List String, l.mergeSort.Pairwise (· ≤ ·) := by
    intro l
    have := @List.pairwise_mergeSort String (fun a b => decide (a ≤ b)) (by simpa using fun a b c => le_trans)
      (by simpa using le_total) l
    simpa using this
  have hparts : ∀ (tx : Posting), ∀ x ∈ ((tx.entries.map part).mergeSort).map String.toList, '|' ∉ x ∧ x ≠ [] := by
    intro tx x hx
    obtain ⟨s, hs, rfl⟩ := List.mem_map.mp hx
    obtain ⟨e, -, rfl⟩ := List.mem_map.mp (List.mem_mergeSort.mp hs)
    exact notMem_part e
  unfold signature
  rw [← String.toList_inj, String.toList_intercalate, String.toList_intercalate]
  show ['|'].intercalate _ = ['|'].intercalate _ ↔ _
  rw [Separated.intercalate_inj (hparts a) (hparts b), ← List.map_perm_map_iff part_injective]
  constructor
  · intro h
    have h := List.map_injective_iff.mpr (fun _ _ => String.toList_inj.mp) h
    exact ((List.mergeSort_perm _ _).symm.trans (.of_eq h)).trans (List.mergeSort_perm _ _)
  · intro h
    have hp := ((List.mergeSort_perm (a.entries.map part) (fun a b => decide (a ≤ b))).trans h).trans
      (List.mergeSort_perm (b.entries.map part) (fun a b => decide (a ≤ b))).symm
    congr 1
    exact hp.eq_of_pairwise (fun _ _ _ _ => le_antisymm) (hsort _) (hsort _)

/-! ## Duplicates -/

/-- An entry up to the way its amount is written. -/
def valued (e : Entry) : AccountId × EntrySide × ℚ := (e.account, e.side, e.amount.value)

/-- The same entries: account, side and an equal amount. -/
def SameEntries (a b : Posting) : Prop := (a.entries.map valued).Perm (b.entries.map valued)

instance (a b : Posting) : Decidable (SameEntries a b) := inferInstanceAs (Decidable (List.Perm _ _))

/-- The first balanced transaction with another id and the same entries. -/
def firstRepeated (before : List Server.LedgerEvent) (tx : Posting) : Option TransactionId :=
  (before.find? fun ev => ev.posting.isBalanced = some true ∧ ev.posting.id ≠ tx.id ∧ SameEntries ev.posting tx).map
    (·.posting.id)

/-- The first balanced transaction with the same entries, their amounts digit for digit. -/
def firstAlike (before : List Server.LedgerEvent) (tx : Posting) : Option TransactionId :=
  (before.find? fun ev => ev.posting.isBalanced = some true ∧ ev.posting.entries.Perm tx.entries).map (·.posting.id)

theorem firstRepeated_isSome {before : List Server.LedgerEvent} {tx : Posting} {f : TransactionId}
    (h : firstAlike before tx = some f) (hne : f ≠ tx.id) : (firstRepeated before tx).isSome := by
  obtain ⟨ev, hev, rfl⟩ := Option.map_eq_some_iff.mp h
  have hp := List.find?_some hev
  rw [decide_eq_true_iff] at hp
  unfold firstRepeated
  rw [Option.isSome_map, List.find?_isSome]
  exact ⟨ev, List.mem_of_find?_eq_some hev, decide_eq_true ⟨hp.1, hne, hp.2.map valued⟩⟩

theorem firstRepeated_ne {before : List Server.LedgerEvent} {tx : Posting} {f : TransactionId}
    (h : firstRepeated before tx = some f) : f ≠ tx.id := by
  obtain ⟨ev, hev, rfl⟩ := Option.map_eq_some_iff.mp h
  have hp := List.find?_some hev
  rw [decide_eq_true_iff] at hp
  exact hp.2.1

namespace AnomalyProjector

variable (toF64 : Decimal → Option Float) (p : AnomalyProjector)

theorem seen_detectAmount (tx : TransactionId) (value : Float) : (p.detectAmount tx value).seen = p.seen := rfl

/-- The outlier detector finds no duplicates. -/
theorem anomalies_detectAmount (tx : TransactionId) (value : Float) :
    ∃ found, (p.detectAmount tx value).anomalies = p.anomalies ++ found ∧ ∀ tx' f, .duplicate tx' f ∉ found := by
  refine ⟨_, rfl, fun tx' f h => ?_⟩
  dsimp only at h
  split at h
  · split at h
    · split at h
      · cases List.mem_singleton.mp h
      · cases h
    · cases h
  · cases h

theorem detectDuplicate_spec (tx : Posting) :
    ∃ found, (p.detectDuplicate tx).anomalies = p.anomalies ++ found ∧
      (∀ f, .duplicate tx.id f ∈ found ↔ p.seen.lookup (signature tx) = some f ∧ f ≠ tx.id) ∧
      ∀ sig, (p.detectDuplicate tx).seen.lookup sig =
        (p.seen.lookup sig).or (if signature tx = sig then some tx.id else none) := by
  unfold detectDuplicate
  dsimp only
  cases h : p.seen.lookup (signature tx) with
  | none =>
    refine ⟨[], (List.append_nil _).symm, fun f => by simp, fun sig => ?_⟩
    rw [AssocMap.lookup_insert_eq]
    by_cases hs : sig = signature tx
    · rw [hs, if_pos rfl, if_pos rfl, h]
      rfl
    · rw [if_neg hs, if_neg (Ne.symm hs), Option.or_none]
  | some first =>
    have hseen : ∀ sig, p.seen.lookup sig =
        (p.seen.lookup sig).or (if signature tx = sig then some tx.id else none) := by
      intro sig
      split
      · next hs => rw [← hs, h]; rfl
      · rw [Option.or_none]
    by_cases hne : first = tx.id
    · refine ⟨[], ?_, fun f => ?_, fun sig => ?_⟩
      · simp [hne]
      · simp only [List.not_mem_nil, Option.some.injEq, false_iff, not_and, not_not]
        exact fun hf => hf ▸ hne
      · simpa [hne] using hseen sig
    · refine ⟨[.duplicate tx.id first], ?_, fun f => ?_, fun sig => ?_⟩
      · simp [hne]
      · simp
        constructor
        · rintro rfl
          exact ⟨rfl, hne⟩
        · exact fun h => h.1.symm
      · simpa [hne] using hseen sig

/-- The sums of an event are equal; not when they overflow. -/
def Balanced (ev : Server.LedgerEvent) : Prop := ev.posting.isBalanced = some true

instance (ev : Server.LedgerEvent) : Decidable (Balanced ev) := inferInstanceAs (Decidable (_ = _))

theorem seen_apply (ev : Server.LedgerEvent) (sig : String) :
    (p.apply toF64 ev).seen.lookup sig = (p.seen.lookup sig).or
      (if Balanced ev ∧ signature ev.posting = sig then some ev.posting.id else none) := by
  obtain ⟨tx⟩ := ev
  show (p.apply toF64 (.transactionPosted tx)).seen.lookup sig = (p.seen.lookup sig).or
      (if tx.isBalanced = some true ∧ signature tx = sig then some tx.id else none)
  obtain ⟨_, -, -, hseen⟩ := p.detectDuplicate_spec tx
  cases h : tx.isBalanced with
  | none => simp [apply, h]
  | some balanced =>
    cases balanced with
    | false => simp [apply, h]
    | true => simp [apply, h, seen_detectAmount, hseen]

/-- The first balanced event with a signature is the one remembered for it. -/
theorem seen_run (events : List Server.LedgerEvent) (sig : String) :
    (p.run toF64 events).seen.lookup sig = (p.seen.lookup sig).or
      ((events.find? fun ev => Balanced ev ∧ signature ev.posting = sig).map (·.posting.id)) := by
  induction events generalizing p with
  | nil => exact (Option.or_none).symm
  | cons ev events ih =>
    show ((p.apply toF64 ev).run toF64 events).seen.lookup sig = _
    rw [ih, seen_apply, Option.or_assoc, List.find?_cons]
    congr 1
    split
    · next h => simp [h]
    · next h => simp [h]

/-- What an event adds to the anomalies. -/
theorem anomalies_apply (tx : Posting) :
    ∃ found, (p.apply toF64 (.transactionPosted tx)).anomalies = p.anomalies ++ found ∧
      (tx.isBalanced = some true →
        ∀ f, .duplicate tx.id f ∈ found ↔ p.seen.lookup (signature tx) = some f ∧ f ≠ tx.id) := by
  cases h : tx.isBalanced with
  | none => exact ⟨[], by simp [apply, h], nofun⟩
  | some balanced =>
    cases balanced with
    | false => exact ⟨[.unbalanced tx.id], by simp [apply, h], nofun⟩
    | true =>
      obtain ⟨dups, hdups, hspec, -⟩ := p.detectDuplicate_spec tx
      obtain ⟨outliers, houtliers, hno⟩ := (p.detectDuplicate tx).anomalies_detectAmount tx.id
        (tx.entries.foldl (fun sum e => sum + (toF64 e.amount).getD 0) 0)
      refine ⟨dups ++ outliers, ?_, fun _ f => ?_⟩
      · simp only [apply, h]
        rw [houtliers, hdups, List.append_assoc]
      · rw [List.mem_append, ← hspec]
        exact or_iff_left (hno tx.id f)

theorem findings_duplicate (before : List Server.LedgerEvent) {tx : Posting} (h : tx.isBalanced = some true)
    (f : TransactionId) :
    .duplicate tx.id f ∈ p.findings toF64 before (.transactionPosted tx) ↔
      (p.run toF64 before).seen.lookup (signature tx) = some f ∧ f ≠ tx.id := by
  obtain ⟨found, hfound, hspec⟩ := (p.run toF64 before).anomalies_apply toF64 tx
  unfold findings
  rw [hfound, List.drop_left]
  exact hspec h f

/-- What is found at the events, one after the other, is what the detector has in the end. -/
theorem anomalies_run_append (before : List Server.LedgerEvent) (ev : Server.LedgerEvent) :
    (p.run toF64 (before ++ [ev])).anomalies = (p.run toF64 before).anomalies ++ p.findings toF64 before ev := by
  obtain ⟨tx⟩ := ev
  obtain ⟨found, hfound, -⟩ := (p.run toF64 before).anomalies_apply toF64 tx
  have hrun : p.run toF64 (before ++ [.transactionPosted tx]) =
      (p.run toF64 before).apply toF64 (.transactionPosted tx) := List.foldl_append
  unfold findings
  rw [hrun, hfound, List.drop_left]

/-- A fresh detector flags a transaction with the id of the first one written alike, when it is another one's. -/
theorem findings_duplicate_withConfig (z : Float) (m : Nat) (before : List Server.LedgerEvent) {tx : Posting}
    (h : tx.isBalanced = some true) (f : TransactionId) :
    .duplicate tx.id f ∈ (withConfig z m).findings toF64 before (.transactionPosted tx) ↔
      firstAlike before tx = some f ∧ f ≠ tx.id := by
  have hseen : ((withConfig z m).run toF64 before).seen.lookup (signature tx) = firstAlike before tx := by
    rw [seen_run]
    unfold firstAlike
    simp only [signature_eq_iff]
    rfl
  rw [findings_duplicate toF64 _ before h, hseen]

end AnomalyProjector

/-- Every balanced transaction of the stream is flagged as a duplicate of the first one with another id and the same
entries, and of no other. -/
def DuplicatesExact (toF64 : Decimal → Option Float) (p : AnomalyProjector) (events : List Server.LedgerEvent) : Prop :=
  ∀ before tx after, events = before ++ .transactionPosted tx :: after → tx.isBalanced = some true →
    ∀ f, .duplicate tx.id f ∈ p.findings toF64 before (.transactionPosted tx) ↔ firstRepeated before tx = some f

/-- **Duplicate detection** is exact on the streams in which the first transaction with another id and the same entries
has the id of the first one whose entries are written alike. -/
theorem duplicates_exact_iff (toF64 : Decimal → Option Float) (zThreshold : Float) (minSamples : Nat)
    (events : List Server.LedgerEvent) :
    DuplicatesExact toF64 (.withConfig zThreshold minSamples) events ↔
      ∀ before tx after, events = before ++ .transactionPosted tx :: after → tx.isBalanced = some true →
        ∀ first, firstRepeated before tx = some first → firstAlike before tx = some first := by
  have hstep : ∀ before : List Server.LedgerEvent, ∀ tx : Posting, tx.isBalanced = some true →
      ((∀ f, .duplicate tx.id f ∈ (AnomalyProjector.withConfig zThreshold minSamples).findings toF64 before
          (.transactionPosted tx) ↔ firstRepeated before tx = some f) ↔
        ∀ first, firstRepeated before tx = some first → firstAlike before tx = some first) := by
    intro before tx hb
    simp only [AnomalyProjector.findings_duplicate_withConfig toF64 _ _ before hb]
    constructor
    · exact fun h first hf => ((h first).mpr hf).1
    · intro h f
      constructor
      · rintro ⟨hf, hne⟩
        obtain ⟨first, hfirst⟩ := Option.isSome_iff_exists.mp (firstRepeated_isSome hf hne)
        rw [hfirst, ← hf, h first hfirst]
      · exact fun hf => ⟨h f hf, firstRepeated_ne hf⟩
  unfold DuplicatesExact
  constructor
  · exact fun h before tx after he hb => (hstep before tx hb).mp (h before tx after he hb)
  · exact fun h before tx after he hb => (hstep before tx hb).mpr (h before tx after he hb)

/-- One unit from an account to another, with the amount's digits after the point. -/
def oneUnit (id : Nat) (scale : Fin 29) : Posting :=
  let one : Decimal := ⟨10 ^ scale.val, scale.val, by revert scale; decide, by omega⟩
  { id := ⟨id⟩
    entries := [{ account := ⟨1⟩, side := .debit, amount := one }, { account := ⟨2⟩, side := .credit, amount := one }] }

/-- `1.0` posted again as `1.00` is not found. -/
theorem duplicates_not_exact :
    ¬ DuplicatesExact (fun _ => none) .new [.transactionPosted (oneUnit 1 1), .transactionPosted (oneUnit 2 2)] := by
  intro h
  have hfound := (h [.transactionPosted (oneUnit 1 1)] (oneUnit 2 2) [] rfl (by decide) ⟨1⟩).mpr (by decide +kernel)
  rw [AnomalyProjector.new, AnomalyProjector.findings_duplicate_withConfig _ _ _ _ (by decide)] at hfound
  have hnone : firstAlike [.transactionPosted (oneUnit 1 1)] (oneUnit 2 2) = none := by decide
  rw [hnone] at hfound
  cases hfound.1

end TptErp.Ledger
