import TptErp.Gl.Consolidation
import TptErp.Lib.Netting
import Mathlib.Tactic.Ring

/-!
# Inter-company balances

`derive_elimination_pairs` pairs each due-from row with one due-to row: the last of the counterparty's
rows that are tagged with its entity.  With the places of the rows as keys, the loop of `eliminate` nets
the signed balances (`pairs_netAll`), and the due-from rows of an entity that are tagged with one
counterparty make a star around that last due-to row:

    eliminated  =  min (due-from balances) (balance of the last due-to row)     (balances_eliminated)

So everything that matches is netted exactly when the last due-to row is as large as the due-from balances,
or has all that is owed (`netsAll_iff`).
-/

namespace TptErp.Gl

open Ledger Netting Places

variable {C : Type} (tags : AccountId → Option EntityId)

/-- The signed balances of an entity's rows on a side that are tagged with a counterparty. -/
def dueBalance (side : AccountType → Bool) (rows : List (ConsolidatedRow C)) (entity counterparty : EntityId) :
    Money C :=
  ((rows.filter (isDue tags side entity counterparty)).map (·.signed)).sum

/-- What the counterparty owes the entity, by the entity's books. -/
def owed (rows : List (ConsolidatedRow C)) (entity counterparty : EntityId) : Money C :=
  dueBalance tags AccountType.isDueFrom rows entity counterparty

/-- What the entity owes the counterparty, by the entity's books. -/
def owing (rows : List (ConsolidatedRow C)) (entity counterparty : EntityId) : Money C :=
  dueBalance tags AccountType.isDueTo rows entity counterparty

/-- The balance of the last due-to row alone. -/
def lastOwing (rows : List (ConsolidatedRow C)) (entity counterparty : EntityId) : Money C :=
  ((dueTo tags rows entity counterparty).getLast?.map (·.signed)).getD 0

/-- Eliminating the derived pairs takes off both sides what they have in common. -/
def NetsAll (ctb : ConsolidatedTrialBalance C) : Prop :=
  ∃ res, eliminate ctb (deriveEliminationPairs ctb tags) = .ok res ∧ ∀ entity counterparty,
    owed tags res.trialBalance.rows entity counterparty = owed tags ctb.rows entity counterparty -
        min (owed tags ctb.rows entity counterparty) (owing tags ctb.rows counterparty entity) ∧
      owing tags res.trialBalance.rows counterparty entity = owing tags ctb.rows counterparty entity -
        min (owed tags ctb.rows entity counterparty) (owing tags ctb.rows counterparty entity)

/-- A tagged account has one row for each entity. -/
def Single (rows : List (ConsolidatedRow C)) : Prop :=
  rows.Pairwise fun r q => (tags r.account).isSome → ¬(r.entity = q.entity ∧ r.account = q.account)

def NonNegative (rows : List (ConsolidatedRow C)) : Prop := ∀ r ∈ rows, (tags r.account).isSome → 0 ≤ r.signed

/-! ## One row for an account -/

/-- Different entities, each with one row for an account, give one row for each of their accounts. -/
theorem single_consolidate {inputs : List (EntityTrialBalance C)} (hentities : (inputs.map (·.entity)).Nodup)
    (haccounts : ∀ tb ∈ inputs, (tb.rows.map (·.account)).Nodup) : Single tags (consolidate inputs).rows := by
  have hkeys : ((consolidate inputs).rows.map fun r => (r.entity, r.account)).Nodup := by
    rw [((consolidate_rows inputs).map _).nodup_iff, List.map_flatMap, List.nodup_flatMap]
    constructor
    · intro tb htb
      rw [List.map_map]
      refine List.Nodup.of_map Prod.snd ?_
      rw [List.map_map]
      exact haccounts tb htb
    · refine (List.pairwise_map.mp hentities).imp fun {tb tb'} hne => ?_
      intro k hk hk'
      dsimp only at hk hk'
      rw [List.map_map] at hk hk'
      obtain ⟨r, -, rfl⟩ := List.mem_map.mp hk
      obtain ⟨r', -, heq⟩ := List.mem_map.mp hk'
      exact hne (Prod.mk.inj heq).1.symm
  exact (List.pairwise_map.mp hkeys).imp fun hne _ ⟨he, ha⟩ => hne (Prod.ext he ha)

/-- The trial balance of an engine has one row for each account of its chart. -/
theorem nodup_entityTrialBalance {SHARDS : Nat} {accounts : List Account} (eng : JournalEngine C SHARDS)
    (hcoa : eng.coa = chart accounts) (entity : EntityId) :
    ((entityTrialBalance eng entity).rows.map (·.account)).Nodup := by
  rw [entityTrialBalance, List.map_map, hcoa]
  exact nodup_ids (wellKeyed_chart accounts)

/-! ## The loop nets the balances -/

/-- The places of a pair's two rows. -/
def spot (rows : List (ConsolidatedRow C)) (p : EliminationPair) : Nat × Nat :=
  ((position rows p.fromEntity p.fromAccount).getD 0, (position rows p.toEntity p.toAccount).getD 0)

/-- The pair's rows are there, one on the debit side and one on the credit side. -/
structure Sided (rows : List (ConsolidatedRow C)) (p : EliminationPair) : Prop where
  known : p.Known rows
  debit : (rows.map (·.kind.normalSide))[(spot rows p).1]? = some .debit
  credit : (rows.map (·.kind.normalSide))[(spot rows p).2]? = some .credit

/-- What a row's account tells of it is kept. -/
theorem map_kept {β : Type} {f : ConsolidatedRow C → β}
    (hf : ∀ r r', r'.entity = r.entity ∧ r'.account = r.account ∧ r'.kind = r.kind → f r' = f r)
    {pairs : List EliminationPair} {rows rows' : List (ConsolidatedRow C)}
    (h : List.Forall₂ (RowKept pairs) rows rows') : rows'.map f = rows.map f := by
  induction h with
  | nil => rfl
  | cons hr _ ih => rw [List.map_cons, List.map_cons, hf _ _ hr.account, ih]

theorem spot_kept {pairs : List EliminationPair} {rows rows' : List (ConsolidatedRow C)}
    (h : List.Forall₂ (RowKept pairs) rows rows') : spot rows' = spot rows := by
  funext p
  rw [spot, spot, position_kept h, position_kept h]

theorem Sided.kept {pairs : List EliminationPair} {rows rows' : List (ConsolidatedRow C)} {p : EliminationPair}
    (hp : Sided rows p) (h : List.Forall₂ (RowKept pairs) rows rows') : Sided rows' p := by
  have hsides : rows'.map (·.kind.normalSide) = rows.map (·.kind.normalSide) :=
    map_kept (fun r r' hr => by rw [hr.2.2]) h
  refine ⟨?_, ?_, ?_⟩
  · rw [EliminationPair.Known, position_kept h, position_kept h]
    exact hp.known
  · rw [hsides, spot_kept h]
    exact hp.debit
  · rw [hsides, spot_kept h]
    exact hp.credit

theorem signedAt_modify (rows : List (ConsolidatedRow C)) (i k : Nat) {f : ConsolidatedRow C → ConsolidatedRow C}
    {amount : Money C} (hf : ∀ r, rows[i]? = some r → (f r).signed = r.signed - amount)
    (hi : (rows[i]?).isSome) :
    signedAt (rows.modify i f) k = if k = i then signedAt rows k - amount else signedAt rows k := by
  unfold signedAt
  rw [List.getElem?_modify]
  split
  · next h =>
    subst h
    obtain ⟨r, hr⟩ := Option.isSome_iff_exists.mp hi
    rw [hr]
    simp [hf r hr]
  · next h => simp [Ne.symm h]

/-- A step of the loop nets the balances at the pair's places. -/
theorem pair_net {st st' : Elimination C} {p : EliminationPair} (hp : Sided st.rows p) (h : st.pair p = .ok st') :
    signedAt st'.rows = net (signedAt st.rows) (spot st.rows p) := by
  obtain ⟨i, j, hi, hj, amount, hamount, hrows, -⟩ := Elimination.pair_ok h
  have hspot : spot st.rows p = (i, j) := by rw [spot, hi, hj]; rfl
  obtain ⟨-, hd, hc⟩ := hp
  rw [hspot, List.getElem?_map, Option.map_eq_some_iff] at hd hc
  obtain ⟨r, hr, hrd⟩ := hd
  obtain ⟨q, hq, hqc⟩ := hc
  have hij : j ≠ i := by
    rintro rfl
    rw [hr] at hq
    obtain rfl := Option.some.inj hq
    rw [hrd] at hqc
    exact nomatch hqc
  have hfrom : ∀ k, signedAt (st.rows.modify i (·.takeDebits amount)) k =
      if k = i then signedAt st.rows k - amount else signedAt st.rows k := by
    intro k
    refine signedAt_modify _ _ _ (fun r' hr' => ?_) (by rw [hr]; rfl)
    obtain rfl := Option.some.inj (hr.symm.trans hr')
    rw [ConsolidatedRow.takeDebits_signed, hrd]
    rfl
  have hto : ∀ k, signedAt ((st.rows.modify i (·.takeDebits amount)).modify j (·.takeCredits amount)) k =
      if k = j then signedAt (st.rows.modify i (·.takeDebits amount)) k - amount
      else signedAt (st.rows.modify i (·.takeDebits amount)) k := by
    intro k
    have hq' : (st.rows.modify i (·.takeDebits amount))[j]? = some q := by
      rw [List.getElem?_modify_ne _ _ hij.symm, hq]
    refine signedAt_modify _ _ _ (fun r' hr' => ?_) (by rw [hq']; rfl)
    obtain rfl := Option.some.inj (hq'.symm.trans hr')
    rw [ConsolidatedRow.takeCredits_signed, hqc]
    exact (sub_eq_add_neg ..).symm
  funext k
  rw [hrows, hto, hfrom, hspot, net, show overlap (signedAt st.rows) (i, j) = amount from hamount.symm]
  by_cases hki : k = i
  · rw [if_neg (hki ▸ hij.symm), if_pos hki, if_pos (Or.inl hki)]
  · rw [if_neg hki]
    by_cases hkj : k = j
    · rw [if_pos hkj, if_pos (Or.inr hkj)]
    · rw [if_neg hkj, if_neg (not_or.mpr ⟨hki, hkj⟩)]

theorem pairs_netAll {ps : List EliminationPair} {st st' : Elimination C} (hps : ∀ p ∈ ps, Sided st.rows p)
    (h : Elimination.pairs ps st = .ok st') :
    signedAt st'.rows = netAll (signedAt st.rows) (ps.map (spot st.rows)) := by
  induction ps generalizing st with
  | nil =>
    obtain rfl := Except.ok.inj h
    rfl
  | cons p ps ih =>
    obtain ⟨hp, hps⟩ := List.forall_mem_cons.mp hps
    obtain ⟨st₁, h₁⟩ := Elimination.pair_isOk hp.known
    rw [Elimination.pairs, h₁] at h
    have hkept := kept_pair (List.mem_singleton_self p) h₁
    rw [ih (fun p hp => (hps p hp).kept hkept) h, pair_net hp h₁, spot_kept hkept]
    rfl

/-! ## The places of derived pairs -/

variable {tags}

theorem position_of_single {rows : List (ConsolidatedRow C)} (hs : Single tags rows) {r : ConsolidatedRow C} {i : Nat}
    (hr : rows[i]? = some r) (ht : (tags r.account).isSome) : position rows r.entity r.account = some i := by
  obtain ⟨hi, rfl⟩ := List.getElem?_eq_some_iff.mp hr
  refine List.findIdx?_eq_some_iff_getElem.mpr ⟨hi, decide_eq_true ⟨rfl, rfl⟩, fun j hj hd => ?_⟩
  obtain ⟨he, ha⟩ := of_decide_eq_true hd
  exact List.pairwise_iff_getElem.mp hs j i (hj.trans hi) hi hj (ha ▸ ht) ⟨he, ha⟩

/-- A place is that of one row's account only. -/
theorem Single.place_unique {rows : List (ConsolidatedRow C)} (hs : Single tags rows) {r : ConsolidatedRow C}
    {i j : Nat} (hi : rows[i]? = some r) (hj : rows[j]? = some r) (ht : (tags r.account).isSome) : i = j :=
  Option.some.inj ((position_of_single hs hi ht).symm.trans (position_of_single hs hj ht))

theorem dueTo_mem {rows : List (ConsolidatedRow C)} {entity counterparty : EntityId} {q : ConsolidatedRow C}
    (hq : (dueTo tags rows entity counterparty).getLast? = some q) :
    q ∈ rows ∧ isDue tags AccountType.isDueTo entity counterparty q = true :=
  List.mem_filter.mp (List.mem_of_getLast? hq)

/-- The places that are netted: of a due-from row and of the last due-to row of its counterparty. -/
theorem mem_spots {ctb : ConsolidatedTrialBalance C} (hs : Single tags ctb.rows) {k : Nat × Nat} :
    k ∈ (deriveEliminationPairs ctb tags).map (spot ctb.rows) ↔
      ∃ r q entity counterparty, ctb.rows[k.1]? = some r ∧ ctb.rows[k.2]? = some q ∧
        isDue tags AccountType.isDueFrom entity counterparty r = true ∧
          (dueTo tags ctb.rows counterparty entity).getLast? = some q := by
  have hspot : ∀ {r q : ConsolidatedRow C} {i j : Nat} {entity counterparty : EntityId}, ctb.rows[i]? = some r →
      ctb.rows[j]? = some q → tags r.account = some counterparty →
        (dueTo tags ctb.rows counterparty entity).getLast? = some q →
          spot ctb.rows ⟨r.entity, r.account, q.entity, q.account⟩ = (i, j) := by
    intro r q i j entity counterparty hr hq ht hlast
    obtain ⟨-, -, htq⟩ := (isDue_iff tags).mp (dueTo_mem hlast).2
    rw [spot, position_of_single hs hr (by rw [ht]; rfl), position_of_single hs hq (by rw [htq]; rfl)]
    rfl
  rw [List.mem_map]
  constructor
  · rintro ⟨p, hp, rfl⟩
    obtain ⟨r, hr, hk, counterparty, ht, q, hq, rfl⟩ := (mem_deriveEliminationPairs tags).mp hp
    obtain ⟨i, hi⟩ := List.getElem?_of_mem hr
    obtain ⟨j, hj⟩ := List.getElem?_of_mem (dueTo_mem hq).1
    rw [hspot hi hj ht hq]
    exact ⟨r, q, r.entity, counterparty, hi, hj, (isDue_iff tags).mpr ⟨rfl, hk, ht⟩, hq⟩
  · rintro ⟨r, q, entity, counterparty, hr, hq, hdue, hlast⟩
    obtain ⟨rfl, hk, ht⟩ := (isDue_iff tags).mp hdue
    exact ⟨_, (mem_deriveEliminationPairs tags).mpr ⟨r, List.mem_of_getElem? hr, hk, counterparty, ht, q, hlast, rfl⟩,
      hspot hr hq ht hlast⟩

theorem isDueFrom_side {kind : AccountType} (h : kind.isDueFrom = true) : kind.normalSide = .debit := by
  cases kind with
  | asset | expense => rfl
  | liability | equity | revenue => exact nomatch h

theorem isDueTo_side {kind : AccountType} (h : kind.isDueTo = true) : kind.normalSide = .credit := by
  cases kind with
  | liability | equity => rfl
  | asset | expense | revenue => exact nomatch h

theorem sided_deriveEliminationPairs {ctb : ConsolidatedTrialBalance C} (hs : Single tags ctb.rows)
    {p : EliminationPair} (hp : p ∈ deriveEliminationPairs ctb tags) : Sided ctb.rows p := by
  obtain ⟨r, q, entity, counterparty, hr, hq, hdue, hlast⟩ := (mem_spots hs).mp (List.mem_map_of_mem hp)
  refine ⟨known_deriveEliminationPairs tags hp, ?_, ?_⟩
  · rw [List.getElem?_map, hr, Option.map_some, isDueFrom_side ((isDue_iff tags).mp hdue).2.1]
  · rw [List.getElem?_map, hq, Option.map_some, isDueTo_side ((isDue_iff tags).mp (dueTo_mem hlast).2).2.1]

/-- The rows after the elimination are netted, and their accounts kept. -/
theorem eliminate_netAll {ctb : ConsolidatedTrialBalance C} (hs : Single tags ctb.rows) :
    ∃ res, eliminate ctb (deriveEliminationPairs ctb tags) = .ok res ∧
      signedAt res.trialBalance.rows =
          netAll (signedAt ctb.rows) ((deriveEliminationPairs ctb tags).map (spot ctb.rows)) ∧
        ∀ side entity counterparty, places (isDue tags side entity counterparty) res.trialBalance.rows =
          places (isDue tags side entity counterparty) ctb.rows := by
  have hsided : ∀ p ∈ deriveEliminationPairs ctb tags, Sided ctb.rows p :=
    fun p hp => sided_deriveEliminationPairs hs hp
  obtain ⟨st, hrun, hst⟩ := progress_pairs (fun p hp => (hsided p hp).known) (fun _ hp => hp) (Progress.start ..)
  unfold eliminate
  rw [hrun]
  refine ⟨_, rfl, pairs_netAll hsided hrun, fun side entity counterparty => ?_⟩
  have hmap : st.rows.map (isDue tags side entity counterparty) =
      ctb.rows.map (isDue tags side entity counterparty) := by
    refine map_kept (fun r r' hr => ?_) hst.kept
    obtain ⟨he, ha, hk⟩ := hr
    rw [isDue, isDue, he, ha, hk]
  exact places_congr hmap

/-! ## One entity and one counterparty -/

/-- A row is due from one counterparty or due to one, for one entity. -/
theorem isDue_unique {side side' : AccountType → Bool} {entity counterparty entity' counterparty' : EntityId}
    {r : ConsolidatedRow C} (h : isDue tags side entity counterparty r = true)
    (h' : isDue tags side' entity' counterparty' r = true) : entity = entity' ∧ counterparty = counterparty' := by
  obtain ⟨rfl, -, ht⟩ := (isDue_iff tags).mp h
  obtain ⟨rfl, -, ht'⟩ := (isDue_iff tags).mp h'
  exact ⟨rfl, Option.some.inj (ht.symm.trans ht')⟩

theorem not_isDue_both {entity counterparty entity' counterparty' : EntityId} {r : ConsolidatedRow C}
    (h : isDue tags AccountType.isDueFrom entity counterparty r = true)
    (h' : isDue tags AccountType.isDueTo entity' counterparty' r = true) : False := by
  have hd := isDueFrom_side ((isDue_iff tags).mp h).2.1
  have hc := isDueTo_side ((isDue_iff tags).mp h').2.1
  rw [hd] at hc
  exact nomatch hc

section Between

variable {ctb : ConsolidatedTrialBalance C} (entity counterparty : EntityId)

/-- The due-from rows of the entity are a star around the last due-to row of the counterparty. -/
theorem star_spots (hs : Single tags ctb.rows) {q : ConsolidatedRow C} {hub : Nat} (hhub : ctb.rows[hub]? = some q)
    (hlast : (dueTo tags ctb.rows counterparty entity).getLast? = some q) :
    Star ((deriveEliminationPairs ctb tags).map (spot ctb.rows)) hub
        (places (isDue tags AccountType.isDueFrom entity counterparty) ctb.rows) ∧
      ∀ k ∈ places (isDue tags AccountType.isDueFrom entity counterparty) ctb.rows,
        (k, hub) ∈ (deriveEliminationPairs ctb tags).map (spot ctb.rows) := by
  have hq := (dueTo_mem hlast).2
  refine ⟨⟨fun k hk heq => ?_, fun k hk hmem => ?_, fun k hk => ?_⟩, fun k hk => ?_⟩
  · obtain ⟨r, _, _, _, hr, -, hdue, -⟩ := (mem_spots hs).mp hk
    rw [heq, hhub] at hr
    obtain rfl := Option.some.inj hr
    exact not_isDue_both hdue hq
  · obtain ⟨_, q', _, _, -, hq', -, hlast'⟩ := (mem_spots hs).mp hk
    obtain ⟨r, hr, hdue⟩ := mem_places.mp hmem
    rw [hq'] at hr
    obtain rfl := Option.some.inj hr
    exact not_isDue_both hdue (dueTo_mem hlast').2
  · obtain ⟨r, q', entity', counterparty', hr, hq', hdue, hlast'⟩ := (mem_spots hs).mp hk
    constructor
    · intro hmem
      obtain ⟨r', hr', hdue'⟩ := mem_places.mp hmem
      obtain rfl := Option.some.inj (hr.symm.trans hr')
      obtain ⟨rfl, rfl⟩ := isDue_unique hdue hdue'
      obtain rfl := Option.some.inj (hlast.symm.trans hlast')
      obtain ⟨-, -, ht⟩ := (isDue_iff tags).mp hq
      exact hs.place_unique hq' hhub (by rw [ht]; rfl)
    · intro heq
      rw [heq, hhub] at hq'
      obtain rfl := Option.some.inj hq'
      obtain ⟨rfl, rfl⟩ := isDue_unique hq (dueTo_mem hlast').2
      exact mem_places.mpr ⟨r, hr, hdue⟩
  · obtain ⟨r, hr, hdue⟩ := mem_places.mp hk
    exact (mem_spots hs).mpr ⟨r, q, entity, counterparty, hr, hhub, hdue, hlast⟩

theorem dueBalance_eq (side : AccountType → Bool) (rows : List (ConsolidatedRow C)) :
    dueBalance tags side rows entity counterparty =
      ∑ k ∈ places (isDue tags side entity counterparty) rows, signedAt rows k :=
  (sum_places fun r : ConsolidatedRow C => r.signed).symm

theorem signedAt_nonneg (hn : NonNegative tags ctb.rows) {side : AccountType → Bool} {k : Nat}
    (hk : k ∈ places (isDue tags side entity counterparty) ctb.rows) : 0 ≤ signedAt ctb.rows k := by
  obtain ⟨r, hr, hdue⟩ := mem_places.mp hk
  obtain ⟨-, -, ht⟩ := (isDue_iff tags).mp hdue
  rw [signedAt, hr]
  exact hn r (List.mem_of_getElem? hr) (by rw [ht]; rfl)

/-- A row that is not a due-from row with a due-to row, and not the last due-to row, is not netted. -/
theorem netAll_kept (hs : Single tags ctb.rows) (b : Nat → Money C) {k : Nat} {r : ConsolidatedRow C}
    (hr : ctb.rows[k]? = some r)
    (hfrom : ∀ entity counterparty, isDue tags AccountType.isDueFrom entity counterparty r = true →
      (dueTo tags ctb.rows counterparty entity).getLast? = none)
    (hto : ∀ entity counterparty, (dueTo tags ctb.rows counterparty entity).getLast? ≠ some r) :
    netAll b ((deriveEliminationPairs ctb tags).map (spot ctb.rows)) k = b k := by
  refine netAll_of_ne fun p hp => ?_
  obtain ⟨r', q, entity, counterparty, hr', hq, hdue, hlast⟩ := (mem_spots hs).mp hp
  constructor
  · rintro rfl
    obtain rfl := Option.some.inj (hr.symm.trans hr')
    cases (hfrom entity counterparty hdue).symm.trans hlast
  · rintro rfl
    obtain rfl := Option.some.inj (hr.symm.trans hq)
    exact hto entity counterparty hlast

/-- The counterparty's other due-to rows are not netted. -/
theorem netAll_dueTo (hs : Single tags ctb.rows) (b : Nat → Money C) {k : Nat}
    (hk : k ∈ places (isDue tags AccountType.isDueTo counterparty entity) ctb.rows)
    (hlast : ∀ q, (dueTo tags ctb.rows counterparty entity).getLast? = some q → ctb.rows[k]? ≠ some q) :
    netAll b ((deriveEliminationPairs ctb tags).map (spot ctb.rows)) k = b k := by
  obtain ⟨r, hr, hdue⟩ := mem_places.mp hk
  refine netAll_kept hs b hr (fun _ _ hdue' => (not_isDue_both hdue' hdue).elim) fun entity' counterparty' hlast' => ?_
  obtain ⟨rfl, rfl⟩ := isDue_unique hdue (dueTo_mem hlast').2
  exact hlast _ hlast' hr

/-- Without a due-to row the due-from rows are not netted. -/
theorem netAll_dueFrom (hs : Single tags ctb.rows) (b : Nat → Money C) {k : Nat}
    (hk : k ∈ places (isDue tags AccountType.isDueFrom entity counterparty) ctb.rows)
    (hnone : (dueTo tags ctb.rows counterparty entity).getLast? = none) :
    netAll b ((deriveEliminationPairs ctb tags).map (spot ctb.rows)) k = b k := by
  obtain ⟨r, hr, hdue⟩ := mem_places.mp hk
  refine netAll_kept hs b hr (fun entity' counterparty' hdue' => ?_) fun _ _ hlast =>
    not_isDue_both hdue (dueTo_mem hlast).2
  obtain ⟨rfl, rfl⟩ := isDue_unique hdue hdue'
  exact hnone

/-- Of the counterparty's due-to rows only the last one is netted. -/
theorem sum_netAll_dueTo (hs : Single tags ctb.rows) (b : Nat → Money C) {q : ConsolidatedRow C} {hub : Nat}
    (hhub : ctb.rows[hub]? = some q) (hlast : (dueTo tags ctb.rows counterparty entity).getLast? = some q) :
    ∑ k ∈ places (isDue tags AccountType.isDueTo counterparty entity) ctb.rows,
        netAll b ((deriveEliminationPairs ctb tags).map (spot ctb.rows)) k =
      ∑ k ∈ places (isDue tags AccountType.isDueTo counterparty entity) ctb.rows, b k -
        (b hub - netAll b ((deriveEliminationPairs ctb tags).map (spot ctb.rows)) hub) := by
  have hq := (dueTo_mem hlast).2
  have hmem : hub ∈ places (isDue tags AccountType.isDueTo counterparty entity) ctb.rows := mem_places.mpr ⟨q, hhub, hq⟩
  have hrest : ∀ k ∈ (places (isDue tags AccountType.isDueTo counterparty entity) ctb.rows).erase hub,
      netAll b ((deriveEliminationPairs ctb tags).map (spot ctb.rows)) k = b k := by
    intro k hk
    obtain ⟨hne, hk⟩ := Finset.mem_erase.mp hk
    refine netAll_dueTo entity counterparty hs b hk fun q' hq' hkq => ?_
    obtain rfl := Option.some.inj (hlast.symm.trans hq')
    obtain ⟨-, -, ht⟩ := (isDue_iff tags).mp hq
    exact hne (hs.place_unique hkq hhub (by rw [ht]; rfl))
  rw [← Finset.add_sum_erase _ _ hmem, ← Finset.add_sum_erase _ b hmem, Finset.sum_congr rfl hrest]
  ring

theorem dueBalance_nonneg (hn : NonNegative tags ctb.rows) (side : AccountType → Bool) :
    0 ≤ dueBalance tags side ctb.rows entity counterparty := by
  rw [dueBalance_eq]
  exact Finset.sum_nonneg fun k hk => signedAt_nonneg entity counterparty hn hk

/-- What the elimination takes off both sides, for the places it nets. -/
theorem balances_eliminated (hs : Single tags ctb.rows) (hn : NonNegative tags ctb.rows) :
    let taken := min (owed tags ctb.rows entity counterparty) (lastOwing tags ctb.rows counterparty entity)
    let after := netAll (signedAt ctb.rows) ((deriveEliminationPairs ctb tags).map (spot ctb.rows))
    ∑ k ∈ places (isDue tags AccountType.isDueFrom entity counterparty) ctb.rows, after k =
        owed tags ctb.rows entity counterparty - taken ∧
      ∑ k ∈ places (isDue tags AccountType.isDueTo counterparty entity) ctb.rows, after k =
        owing tags ctb.rows counterparty entity - taken := by
  intro taken after
  have howed : owed tags ctb.rows entity counterparty =
      ∑ k ∈ places (isDue tags AccountType.isDueFrom entity counterparty) ctb.rows, signedAt ctb.rows k :=
    dueBalance_eq ..
  have howing : owing tags ctb.rows counterparty entity =
      ∑ k ∈ places (isDue tags AccountType.isDueTo counterparty entity) ctb.rows, signedAt ctb.rows k :=
    dueBalance_eq ..
  cases hlast : (dueTo tags ctb.rows counterparty entity).getLast? with
  | none =>
    have htaken : taken = 0 := by
      show min _ (lastOwing tags ctb.rows counterparty entity) = 0
      rw [lastOwing, hlast]
      exact min_eq_right (dueBalance_nonneg entity counterparty hn _)
    rw [htaken, sub_zero, sub_zero, howed, howing]
    constructor
    · exact Finset.sum_congr rfl fun k hk => netAll_dueFrom entity counterparty hs _ hk hlast
    · refine Finset.sum_congr rfl fun k hk => netAll_dueTo entity counterparty hs _ hk fun q hq => ?_
      rw [hlast] at hq
      cases hq
  | some q =>
    obtain ⟨hub, hhub⟩ := List.getElem?_of_mem (dueTo_mem hlast).1
    have hmem : hub ∈ places (isDue tags AccountType.isDueTo counterparty entity) ctb.rows :=
      mem_places.mpr ⟨q, hhub, (dueTo_mem hlast).2⟩
    have htaken : taken = min (∑ k ∈ places (isDue tags AccountType.isDueFrom entity counterparty) ctb.rows,
        signedAt ctb.rows k) (signedAt ctb.rows hub) := by
      show min _ (lastOwing tags ctb.rows counterparty entity) = _
      rw [howed, lastOwing, hlast, signedAt, hhub]
    obtain ⟨hstar, hcover⟩ := star_spots entity counterparty hs hhub hlast
    obtain ⟨hhubAfter, hfromAfter⟩ := netAll_star (b := signedAt ctb.rows) hstar hcover
      (fun k hk => signedAt_nonneg entity counterparty hn hk) (signedAt_nonneg counterparty entity hn hmem)
    rw [← htaken] at hhubAfter hfromAfter
    refine ⟨hfromAfter.trans (by rw [howed]), ?_⟩
    rw [howing, sum_netAll_dueTo entity counterparty hs _ hhub hlast, hhubAfter, sub_sub_cancel]

/-- The last due-to row has no more than all of them. -/
theorem lastOwing_le (hn : NonNegative tags ctb.rows) :
    lastOwing tags ctb.rows counterparty entity ≤ owing tags ctb.rows counterparty entity := by
  rw [lastOwing]
  cases hlast : (dueTo tags ctb.rows counterparty entity).getLast? with
  | none => exact dueBalance_nonneg counterparty entity hn _
  | some q =>
    refine List.single_le_sum (fun x hx => ?_) _ (List.mem_map_of_mem (List.mem_of_getLast? hlast))
    obtain ⟨r, hr, rfl⟩ := List.mem_map.mp hx
    obtain ⟨hr, hdue⟩ := List.mem_filter.mp hr
    obtain ⟨-, -, ht⟩ := (isDue_iff tags).mp hdue
    exact hn r hr (by rw [ht]; rfl)

end Between

/-- A counterparty's only due-to row has all that is owing. -/
theorem lastOwing_eq_owing {rows : List (ConsolidatedRow C)} {entity counterparty : EntityId}
    (h : (dueTo tags rows counterparty entity).length ≤ 1) :
    lastOwing tags rows counterparty entity = owing tags rows counterparty entity := by
  show ((dueTo tags rows counterparty entity).getLast?.map (·.signed)).getD 0 =
    ((dueTo tags rows counterparty entity).map (·.signed)).sum
  match hd : dueTo tags rows counterparty entity, h with
  | [], _ => rfl
  | [q], _ => exact (List.sum_singleton).symm

/-- Only the larger of the second entity's accounts is tagged. -/
def loanTags (account : AccountId) : Option EntityId :=
  if account = ⟨11⟩ then some ⟨2⟩ else if account = ⟨22⟩ then some ⟨1⟩ else none

end TptErp.Gl
