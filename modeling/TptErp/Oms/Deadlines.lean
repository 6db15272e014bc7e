import TptErp.Oms.Calls

/-!
# The holds' deadlines

The expiry of a hold is recorded in the state of its SKU, and again in the expiry index and in the
cache, by later instructions.  What holds of these copies in every interleaving (`DeadlineInv`):
an index entry of a recorded hold is its recorded expiry, a cache entry is no earlier, and the
instructions that are still to write them will keep it so (`DeadlinePending`).
-/

namespace TptErp.Oms

variable {SHARDS : Nat}

namespace ReservationEngine

variable (eng : ReservationEngine SHARDS)

/-- The deadline a sweep goes by: the cache's when one is attached, else the index's. -/
def deadline (hold : HoldId) : Option Int :=
  match eng.cache with
  | some cache => cache.lookup hold
  | none => eng.expiryIndex.lookup hold

theorem isExpired_iff (now : Int) (hold : HoldId) :
    eng.isExpired now hold = true ↔ ∀ d, eng.deadline hold = some d → d ≤ now := by
  unfold isExpired deadline
  cases eng.cache with
  | some cache =>
    dsimp only [Option.bind_some]
    cases AList.lookup hold cache with
    | some d => simp
    | none => simp
  | none =>
    dsimp only
    cases AList.lookup hold eng.expiryIndex with
    | some d => simp
    | none => simp

/-- The recorded expiry of a hold. -/
def expiry (sku : SkuId) (hold : HoldId) : Option Int := (eng.stateOf sku).expiresAt.lookup hold

end ReservationEngine

/-! ## The candidates of a sweep -/

/-- Every SKU's state is in its own shard. -/
def StatesAtHome (eng : ReservationEngine SHARDS) : Prop :=
  ∀ i sku, sku ∈ (eng.shards i).states → eng.shardIndex sku = i

/-- Exactly the held holds have a recorded expiry. -/
def SkuState.Dated (st : SkuState) : Prop :=
  ∀ hold, st.expiresAt.lookup hold = none ↔ st.holds.lookup hold = none

theorem mem_candidates (eng : ReservationEngine SHARDS) (sku : SkuId) (hold : HoldId)
    (h : (eng.stateOf sku).holds.lookup hold ≠ none) :
    (sku, hold) ∈ eng.candidates (eng.shardIndex sku) := by
  have hst : ∃ st, (eng.shards (eng.shardIndex sku)).states.lookup sku = some st ∧
      st.holds.lookup hold ≠ none := by
    unfold ReservationEngine.stateOf AssocMap.getD at h
    cases hl : (eng.shards (eng.shardIndex sku)).states.lookup sku with
    | none =>
      rw [hl] at h
      exact absurd rfl h
    | some st =>
      rw [hl] at h
      exact ⟨st, rfl, h⟩
  obtain ⟨st, hl, hh⟩ := hst
  refine List.mem_flatMap.mpr ⟨⟨sku, st⟩, AList.mem_lookup_iff.mp hl, List.mem_map.mpr ⟨hold, ?_, rfl⟩⟩
  by_contra hk
  exact hh (AList.lookup_eq_none.mpr hk)

theorem held_of_mem_candidates {eng : ReservationEngine SHARDS} (hhome : StatesAtHome eng) {i : Fin SHARDS}
    {sku : SkuId} {hold : HoldId} (h : (sku, hold) ∈ eng.candidates i) :
    (eng.stateOf sku).holds.lookup hold ≠ none := by
  obtain ⟨⟨k, st⟩, hmem, hin⟩ := List.mem_flatMap.mp h
  obtain ⟨x, hx, hpair⟩ := List.mem_map.mp hin
  obtain ⟨rfl, rfl⟩ := Prod.mk.inj hpair
  have hl : (eng.shards i).states.lookup k = some st := AList.mem_lookup_iff.mpr hmem
  have hi : eng.shardIndex k = i := hhome i k (by
    rw [← AList.lookup_isSome, hl]
    rfl)
  have hstate : eng.stateOf k = st := by
    unfold ReservationEngine.stateOf AssocMap.getD
    rw [hi, hl]
    rfl
  rw [hstate]
  intro hnone
  exact AList.lookup_eq_none.mp hnone hx

theorem statesAtHome_record {eng : ReservationEngine SHARDS} (h : StatesAtHome eng) (sku : SkuId)
    (eventType : String) (ev : ReserveEvent) (st : SkuState) :
    StatesAtHome (eng.record sku eventType ev st) := by
  intro i k hk
  simp only [ReservationEngine.record, ReservationEngine.setShard, Function.update_apply] at hk
  split at hk
  · next hi =>
    subst hi
    rcases (AList.mem_insert _).mp hk with rfl | hk
    · rfl
    · exact h _ k hk
  · exact h i k hk

theorem SkuState.Dated.insertHold {st : SkuState} (h : st.Dated) (hold : HoldId) (qty : Nat)
    (expires : Int) : (st.insertHold hold qty expires).Dated := by
  intro x
  show (st.expiresAt.insert hold expires).lookup x = none ↔ (st.holds.insert hold qty).lookup x = none
  rw [AssocMap.lookup_insert_eq, AssocMap.lookup_insert_eq]
  split
  · simp
  · exact h x

theorem SkuState.Dated.dropHold {st : SkuState} (h : st.Dated) (hold : HoldId) :
    (st.dropHold hold).Dated := by
  intro x
  show (st.expiresAt.erase hold).lookup x = none ↔ (st.holds.erase hold).lookup x = none
  rw [AssocMap.lookup_erase_eq, AssocMap.lookup_erase_eq]
  split
  · simp
  · exact h x

theorem Change.dated {c : Core SHARDS} {i : Instr SHARDS} {sku : SkuId} {ev : ReserveEvent}
    {st : SkuState} (hc : Change c i sku ev st) (h : (c.stateOf sku).Dated) : st.Dated := by
  cases hc with
  | receive => exact h
  | returnStock => exact h
  | reserve => exact h.insertHold _ _ _
  | hold => exact h.insertHold _ _ _
  | backorder => exact h
  | fill sku bo =>
    have hb : ({ c.stateOf sku with backorders := (c.stateOf sku).backorders.erase bo } : SkuState).Dated := h
    exact hb.insertHold _ _ _
  | confirm _ hold => exact h.dropHold hold
  | release _ hold => exact h.dropHold hold
  | sweepRelease _ hold => exact h.dropHold hold

/-! ## How recorded expiries change -/

/-- The recorded expiries of the ids that were in use before are the same or gone. -/
structure Later (c c' : Core SHARDS) : Prop where
  ids : c.nextId ≤ c'.nextId
  now : c.now ≤ c'.now
  expiry : ∀ sku (hold : HoldId) e, hold.uuid < c.nextId → c'.engine.expiry sku hold = some e →
    c.engine.expiry sku hold = some e

theorem Change.expiry {c : Core SHARDS} {i : Instr SHARDS} {sku : SkuId} {ev : ReserveEvent}
    {st : SkuState} (hc : Change c i sku ev st) {hold : HoldId} {e : Int} (hid : hold.uuid < c.nextId)
    (h : st.expiresAt.lookup hold = some e) : c.engine.expiry sku hold = some e := by
  have hne : hold ≠ c.newId := by
    rintro rfl
    exact absurd hid (lt_irrefl _)
  have hins : ∀ x, ((c.stateOf sku).expiresAt.insert c.newId x).lookup hold = some e →
      (c.stateOf sku).expiresAt.lookup hold = some e := by
    intro x hx
    rwa [AssocMap.lookup_insert_eq, if_neg hne] at hx
  have hdel : ∀ x, ((c.stateOf sku).expiresAt.erase x).lookup hold = some e →
      (c.stateOf sku).expiresAt.lookup hold = some e := by
    intro x hx
    rw [AssocMap.lookup_erase_eq] at hx
    split at hx
    · cases hx
    · exact hx
  cases hc with
  | receive => exact h
  | returnStock => exact h
  | reserve _ _ expires => exact hins expires h
  | hold _ _ _ expires => exact hins expires h
  | backorder => exact h
  | fill _ _ _ expires => exact hins expires h
  | confirm _ x => exact hdel x h
  | release _ x => exact hdel x h
  | sweepRelease _ x => exact hdel x h

/-- What an instruction does to the clock, the expiry index and the cache. -/
structure IndexStep (c c' : Core SHARDS) (i : Instr SHARDS) : Prop where
  now : c'.now = c.now
  index : ∀ hold d, c'.engine.expiryIndex.lookup hold = some d →
    c.engine.expiryIndex.lookup hold = some d ∨ i = .indexInsert hold d
  cache : ∀ m', c'.engine.cache = some m' → ∃ m, c.engine.cache = some m ∧
    ∀ hold d, m'.lookup hold = some d → m.lookup hold = some d ∨ ∃ ttl, i = .cachePut hold ttl ∧ d = c.now + ttl

theorem indexStep_of_eq {c c' : Core SHARDS} (i : Instr SHARDS) (hn : c'.now = c.now)
    (hi : c'.engine.expiryIndex = c.engine.expiryIndex) (hc : c'.engine.cache = c.engine.cache) :
    IndexStep c c' i := by
  refine ⟨hn, fun hold d h => ?_, fun m' hm => ?_⟩
  · rw [hi] at h
    exact Or.inl h
  · rw [hc] at hm
    exact ⟨m', hm, fun hold d h => Or.inl h⟩

theorem instr_indexes {c c' : Core SHARDS} {i : Instr SHARDS} {k : Choice} {more : List (Instr SHARDS)}
    (h : instr c i k = some (c', more)) : IndexStep c c' i := by
  cases does_instr h with
  | indexInsert hold expires =>
    refine ⟨rfl, fun x d hx => ?_, fun m' hm => ⟨m', hm, fun x d hx => Or.inl hx⟩⟩
    have hx' : (c.engine.expiryIndex.insert hold expires).lookup x = some d := hx
    rw [AssocMap.lookup_insert_eq] at hx'
    split at hx'
    · next he =>
      cases hx'
      rw [he]
      exact Or.inr rfl
    · exact Or.inl hx'
  | indexRemove hold =>
    refine ⟨rfl, fun x d hx => Or.inl ?_, fun m' hm => ⟨m', hm, fun x d hx => Or.inl hx⟩⟩
    have hx' : (c.engine.expiryIndex.erase hold).lookup x = some d := hx
    rw [AssocMap.lookup_erase_eq] at hx'
    split at hx'
    · cases hx'
    · exact hx'
  | cachePut hold ttl =>
    refine ⟨rfl, fun x d hx => Or.inl hx, fun m' hm => ?_⟩
    obtain ⟨m, hcache, rfl⟩ := Option.map_eq_some_iff.mp hm
    refine ⟨m, hcache, fun x d hx => ?_⟩
    rw [AssocMap.lookup_insert_eq] at hx
    split at hx
    · next he =>
      cases hx
      rw [he]
      exact Or.inr ⟨ttl, rfl, rfl⟩
    · exact Or.inl hx
  | cacheInvalidate hold =>
    refine ⟨rfl, fun x d hx => Or.inl hx, fun m' hm => ?_⟩
    obtain ⟨m, hcache, rfl⟩ := Option.map_eq_some_iff.mp hm
    refine ⟨m, hcache, fun x d hx => Or.inl ?_⟩
    rw [AssocMap.lookup_erase_eq] at hx
    split at hx
    · cases hx
    · exact hx
  | _ => exact indexStep_of_eq _ rfl rfl rfl

theorem later_instr {c c' : Core SHARDS} {i : Instr SHARDS} {k : Choice} {more : List (Instr SHARDS)}
    (h : instr c i k = some (c', more)) : Later c c' := by
  have hnow := (instr_indexes h).now
  rcases instr_change h with ⟨hs, hn, -⟩ | ⟨sku', kind, ev, st, hc, he, hn⟩
  · refine ⟨hn.ge, hnow.ge, fun sku hold e hid hx => ?_⟩
    rwa [ReservationEngine.expiry, hs.stateOf] at hx
  · refine ⟨by omega, hnow.ge, fun sku hold e hid hx => ?_⟩
    rw [ReservationEngine.expiry, he, ReservationEngine.stateOf_record] at hx
    split at hx
    · next hsku =>
      rw [hsku]
      exact hc.expiry hid hx
    · exact hx

theorem later_tick (c : Core SHARDS) (d : Nat) : Later c (c.tick d) := by
  refine ⟨le_rfl, ?_, fun sku hold e _ hx => hx⟩
  show c.now ≤ c.now + d
  omega

/-! ## What holds in every interleaving -/

structure DeadlineInv (c : Core SHARDS) : Prop where
  fresh : IdsFresh c
  home : StatesAtHome c.engine
  dated : ∀ sku, (c.stateOf sku).Dated
  index : ∀ sku hold e d, c.engine.expiry sku hold = some e →
    c.engine.expiryIndex.lookup hold = some d → d = e
  indexUsed : ∀ (hold : HoldId) d, c.engine.expiryIndex.lookup hold = some d → hold.uuid < c.nextId
  cache : ∀ m, c.engine.cache = some m → ∀ sku hold e d, c.engine.expiry sku hold = some e →
    m.lookup hold = some d → e ≤ d
  cacheUsed : ∀ m, c.engine.cache = some m → ∀ (hold : HoldId) d, m.lookup hold = some d →
    hold.uuid < c.nextId

/-- What is known of an instruction that is still to come. -/
def DeadlinePending (c : Core SHARDS) : Instr SHARDS → Prop
  | .indexInsert hold x => hold.uuid < c.nextId ∧ ∀ sku e, c.engine.expiry sku hold = some e → x = e
  | .cachePut hold ttl =>
    hold.uuid < c.nextId ∧ ∀ sku e, c.engine.expiry sku hold = some e → e ≤ c.now + ttl
  | .reserve _ _ expires ttl | .reservable _ _ expires ttl | .hold _ _ _ expires ttl =>
    expires ≤ c.now + ttl
  | .scan _ found => ∀ x ∈ found, x.2.uuid < c.nextId
  | .check candidates => ∀ x ∈ candidates, x.2.uuid < c.nextId
  | .sweepRelease sku hold checkedAt =>
    hold.uuid < c.nextId ∧ checkedAt ≤ c.now ∧ ∀ e, c.engine.expiry sku hold = some e → e ≤ checkedAt
  | _ => True

/-- A sweep that looks a held hold up finds it entered, or past its recorded expiry; and when the
recorded expiry has passed, so has the deadline it is entered with. -/
def ChecksRight (c : Core SHARDS) : Instr SHARDS → Choice → Prop
  | .check ((sku, hold) :: _), _ => ∀ e ∈ c.engine.expiry sku hold,
    (c.engine.deadline hold = none → e ≤ c.now) ∧ ∀ d ∈ c.engine.deadline hold, e ≤ c.now → d ≤ c.now
  | _, _ => True

instance (c : Core SHARDS) (i : Instr SHARDS) (k : Choice) : Decidable (ChecksRight c i k) := by
  unfold ChecksRight
  split <;> infer_instance

theorem DeadlineInv.le_deadline {c : Core SHARDS} (h : DeadlineInv c) {sku : SkuId} {hold : HoldId}
    {e d : Int} (he : c.engine.expiry sku hold = some e) (hd : c.engine.deadline hold = some d) : e ≤ d := by
  unfold ReservationEngine.deadline at hd
  split at hd
  · next m hm => exact h.cache m hm sku hold e d he hd
  · exact (h.index sku hold e d he hd).ge

theorem deadlinePending_later {c c' : Core SHARDS} (h : Later c c') {i : Instr SHARDS}
    (hi : DeadlinePending c i) : DeadlinePending c' i := by
  have hids := h.ids
  have hnow := h.now
  cases i with
  | indexInsert hold x =>
    exact ⟨lt_of_lt_of_le hi.1 hids, fun sku e he => hi.2 sku e (h.expiry sku hold e hi.1 he)⟩
  | cachePut hold ttl =>
    refine ⟨lt_of_lt_of_le hi.1 hids, fun sku e he => ?_⟩
    have := hi.2 sku e (h.expiry sku hold e hi.1 he)
    omega
  | reserve sku qty expires ttl => exact le_trans (show expires ≤ c.now + ttl from hi) (by omega)
  | reservable sku qty expires ttl => exact le_trans (show expires ≤ c.now + ttl from hi) (by omega)
  | hold sku qty short expires ttl => exact le_trans (show expires ≤ c.now + ttl from hi) (by omega)
  | scan shards found => exact fun x hx => lt_of_lt_of_le (hi x hx) hids
  | check candidates => exact fun x hx => lt_of_lt_of_le (hi x hx) hids
  | sweepRelease sku hold checkedAt =>
    obtain ⟨hid, hat, hexp⟩ := hi
    exact ⟨lt_of_lt_of_le hid hids, hat.trans hnow, fun e he => hexp e (h.expiry sku hold e hid he)⟩
  | _ => trivial

theorem deadlineInv_instr {c c' : Core SHARDS} {i : Instr SHARDS} {k : Choice} {more : List (Instr SHARDS)}
    (h : DeadlineInv c) (hp : DeadlinePending c i) (hi : instr c i k = some (c', more)) :
    DeadlineInv c' := by
  have hl := later_instr hi
  have hix := instr_indexes hi
  have hindexUsed : ∀ (hold : HoldId) d, c'.engine.expiryIndex.lookup hold = some d → hold.uuid < c.nextId := by
    intro hold d hd
    rcases hix.index hold d hd with hd | rfl
    · exact h.indexUsed hold d hd
    · exact hp.1
  have hcacheUsed : ∀ m, c'.engine.cache = some m → ∀ (hold : HoldId) d, m.lookup hold = some d →
      hold.uuid < c.nextId := by
    intro m' hm' hold d hd
    obtain ⟨m, hm, hmem⟩ := hix.cache m' hm'
    rcases hmem hold d hd with hd | ⟨ttl, rfl, rfl⟩
    · exact h.cacheUsed m hm hold d hd
    · exact hp.1
  refine ⟨idsFresh_instr h.fresh hi, ?_, fun sku => ?_, ?_, ?_, ?_, ?_⟩
  · rcases instr_change hi with ⟨hs, -, -⟩ | ⟨sku', kind, ev, st, hc, he, -⟩
    · intro j sku hmem
      rw [hs.shardIndex]
      rcases hs.states j sku hmem with hmem | hj
      · exact h.home j sku hmem
      · exact hj
    · rw [he]
      exact statesAtHome_record h.home sku' kind ev st
  · rcases instr_change hi with ⟨hs, -, -⟩ | ⟨sku', kind, ev, st, hc, he, -⟩
    · rw [Core.stateOf, hs.stateOf]
      exact h.dated sku
    · rw [Core.stateOf, he, ReservationEngine.stateOf_record]
      split
      · exact hc.dated (h.dated sku')
      · exact h.dated sku
  · intro sku hold e d he hd
    have he' := hl.expiry sku hold e (hindexUsed hold d hd) he
    rcases hix.index hold d hd with hd | rfl
    · exact h.index sku hold e d he' hd
    · exact hp.2 sku e he'
  · exact fun hold d hd => lt_of_lt_of_le (hindexUsed hold d hd) hl.ids
  · intro m' hm' sku hold e d he hd
    have he' := hl.expiry sku hold e (hcacheUsed m' hm' hold d hd) he
    obtain ⟨m, hm, hmem⟩ := hix.cache m' hm'
    rcases hmem hold d hd with hd | ⟨ttl, rfl, rfl⟩
    · exact h.cache m hm sku hold e d he' hd
    · exact hp.2 sku e he'
  · exact fun m hm hold d hd => lt_of_lt_of_le (hcacheUsed m hm hold d hd) hl.ids

/-- The new hold is recorded for one SKU only, with the expiry it was inserted with. -/
theorem expiry_newId {c : Core SHARDS} (h : IdsFresh c) (sku : SkuId) (qty : Nat) (expires : Int)
    (kind : String) (ev : ReserveEvent) (k : SkuId) (e : Int)
    (he : (c.engine.record sku kind ev ((c.stateOf sku).insertHold c.newId qty expires)).expiry k c.newId =
      some e) : expires = e := by
  rw [ReservationEngine.expiry, ReservationEngine.stateOf_record] at he
  split at he
  · have hins : ((c.stateOf sku).expiresAt.insert c.newId expires).lookup c.newId = some e := he
    rw [AList.lookup_insert] at hins
    exact Option.some.inj hins
  · have hnone := (lacks_newId h k).expiresAt
    rw [Core.stateOf] at hnone
    rw [hnone] at he
    cases he

/-- The instructions that enter a new hold into the index and the cache. -/
theorem pending_enter {c : Core SHARDS} (h : IdsFresh c) (sku : SkuId) (qty : Nat) {expires : Int}
    {ttl : Nat} (hle : expires ≤ c.now + ttl) (kind : String) (ev : ReserveEvent) :
    ∀ j ∈ [Instr.indexInsert c.newId expires, .cachePut c.newId ttl],
      DeadlinePending (c.withNewId
        (c.engine.record sku kind ev ((c.stateOf sku).insertHold c.newId qty expires)))
        (j : Instr SHARDS) := by
  have hnew := expiry_newId h sku qty expires kind ev
  have hid : c.newId.uuid < c.nextId + 1 := Nat.lt_succ_self _
  intro j hj
  simp only [List.mem_cons, List.not_mem_nil, or_false] at hj
  rcases hj with rfl | rfl
  · exact ⟨hid, fun k e he => hnew k e he⟩
  · refine ⟨hid, fun k e he => ?_⟩
    rw [← hnew k e he]
    exact hle

/-- A hold that is checked and found expired is past its recorded expiry. -/
theorem expired_of_check {c : Core SHARDS} (h : DeadlineInv c) {sku : SkuId} {hold : HoldId}
    {rest : List (SkuId × HoldId)} {k : Choice} (hok : ChecksRight c (.check ((sku, hold) :: rest)) k)
    (hexp : c.engine.isExpired c.now hold = true) {e : Int} (he : c.engine.expiry sku hold = some e) :
    e ≤ c.now := by
  rw [ReservationEngine.isExpired_iff] at hexp
  cases hd : c.engine.deadline hold with
  | none => exact (hok e he).1 hd
  | some d => exact (h.le_deadline he hd).trans (hexp d hd)

/-- The end of a release waits for nothing. -/
theorem pending_dropIndexes (c : Core SHARDS) (hold : HoldId) :
    ∀ j ∈ (dropIndexes hold : List (Instr SHARDS)), DeadlinePending c j := by
  rw [dropIndexes, List.forall_mem_cons, List.forall_mem_singleton]
  exact ⟨trivial, trivial⟩

/-- What a call goes on with after it changed a SKU. -/
theorem pending_handsOn {c : Core SHARDS} (h : IdsFresh c) {i : Instr SHARDS} (hp : DeadlinePending c i) {sku : SkuId}
    {ev : ReserveEvent} {st : SkuState} (kind : String) (change : Change c i sku ev st) :
    ∀ j ∈ handsOn c i, DeadlinePending
      { c with engine := c.engine.record sku kind ev st, nextId := c.nextId + idsUsed ev } j := by
  cases change with
  | receive | returnStock | backorder | fill => exact List.forall_mem_nil _
  | reserve sku qty expires ttl => exact pending_enter h sku qty hp _ _
  | hold sku qty short expires ttl =>
    refine List.forall_mem_append.mpr ⟨?_, pending_enter h sku qty hp _ _⟩
    split
    · exact List.forall_mem_singleton.mpr trivial
    · exact List.forall_mem_nil _
  | confirm sku hold => exact pending_dropIndexes _ hold
  | release sku hold => exact pending_dropIndexes _ hold
  | sweepRelease sku hold =>
    exact List.forall_mem_append.mpr ⟨pending_dropIndexes _ hold, List.forall_mem_singleton.mpr trivial⟩

/-- What an instruction hands on to its call. -/
theorem deadlinePending_more {c c' : Core SHARDS} {i : Instr SHARDS} {k : Choice}
    {more : List (Instr SHARDS)} (h : DeadlineInv c) (hp : DeadlinePending c i) (hok : ChecksRight c i k)
    (hi : instr c i k = some (c', more)) : ∀ j ∈ more, DeadlinePending c' j := by
  cases does_instr hi with
  | changed kind change => exact pending_handsOn h.fresh hp kind change
  | scanned found => exact List.forall_mem_singleton.mpr hp
  | scan s shards found order perm =>
    have hp' : ∀ x ∈ found, x.2.uuid < c.nextId := hp
    rw [List.forall_mem_singleton]
    intro x hx
    rcases List.mem_append.mp hx with hx | hx
    · exact hp' x hx
    · -- a candidate is held, and a held id is one that was used
      have hheld := held_of_mem_candidates h.home (perm.subset hx)
      by_contra hge
      exact hheld (h.fresh x.1 x.2 (not_lt.mp hge)).holds
  | expired sku hold rest expired =>
    have hp' : ∀ x ∈ (sku, hold) :: rest, x.2.uuid < c.nextId := hp
    rw [List.forall_mem_cons, List.forall_mem_singleton]
    constructor
    · exact ⟨hp' (sku, hold) List.mem_cons_self, le_rfl, fun e he => expired_of_check h hok expired he⟩
    · exact fun y hy => hp' y (List.mem_cons_of_mem _ hy)
  | notExpired sku hold rest running =>
    have hp' : ∀ x ∈ (sku, hold) :: rest, x.2.uuid < c.nextId := hp
    exact List.forall_mem_singleton.mpr fun y hy => hp' y (List.mem_cons_of_mem _ hy)
  | stampReserve sku qty ttl =>
    rw [List.forall_mem_singleton]
    show c.now + chronoTtl ttl ≤ c.now + ttl
    have := chronoTtl_le ttl
    omega
  | stampReservable sku qty ttl =>
    rw [List.forall_mem_singleton]
    show c.now + chronoTtl ttl ≤ c.now + ttl
    have := chronoTtl_le ttl
    omega
  | reservable sku qty expires ttl =>
    split
    · exact List.forall_mem_singleton.mpr hp
    · split
      · exact List.forall_mem_singleton.mpr trivial
      · exact List.forall_mem_nil _
  | shardKeys s shards order perm =>
    refine List.forall_mem_append.mpr ⟨?_, List.forall_mem_singleton.mpr trivial⟩
    exact List.forall_mem_map.mpr fun _ _ => trivial
  | pick sku bo qty waits covered =>
    rw [List.forall_mem_cons, List.forall_mem_singleton]
    exact ⟨trivial, trivial⟩
  | stampFill sku bo qty => exact List.forall_mem_singleton.mpr trivial
  | refused | unknown | checked | countReleased | indexInsert | cachePut | noShards | picked | indexRemove | cacheInvalidate =>
    exact List.forall_mem_nil _

end TptErp.Oms
