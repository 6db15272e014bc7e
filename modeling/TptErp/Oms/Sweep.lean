import TptErp.Oms.Deadlines

/-!
# The sweep

`sweep_expired` collects the held holds shard by shard, looks each one up in the cache (or, without
a cache, in the expiry index) and releases those it takes for expired; a hold it does not find
there is taken for expired.  Holds are entered there only after their section, and those made by
filling a backorder never.

`sweeps_sound`: in a run where every hold that is looked up is entered, with a deadline that passes
when its recorded expiry does, a sweep releases only expired holds, and a sweep that runs alone
releases all of them.
-/

namespace TptErp.Oms

variable {SHARDS : Nat}

/-! ## Releasing only expired holds -/

/-- A sweep that releases a hold has checked it at a time not before its recorded expiry. -/
def ReleasesExpired (c : Core SHARDS) : Instr SHARDS → Choice → Prop
  | .sweepRelease sku hold checkedAt, _ => (c.stateOf sku).holds.lookup hold ≠ none →
    ∃ e ∈ c.engine.expiry sku hold, e ≤ checkedAt ∧ checkedAt ≤ c.now
  | _, _ => True

/-- `ReleasesExpired`, computed. -/
def releasesExpired (c : Core SHARDS) : Instr SHARDS → Choice → Bool
  | .sweepRelease sku hold checkedAt, _ =>
    decide ((c.stateOf sku).holds.lookup hold ≠ none →
      ∃ e ∈ c.engine.expiry sku hold, e ≤ checkedAt ∧ checkedAt ≤ c.now)
  | _, _ => true

theorem releasesExpired_iff (c : Core SHARDS) (i : Instr SHARDS) (k : Choice) :
    releasesExpired c i k = true ↔ ReleasesExpired c i k := by
  cases i with
  | sweepRelease sku hold checkedAt => exact decide_eq_true_iff
  | _ => exact iff_of_true rfl trivial

instance (c : Core SHARDS) (i : Instr SHARDS) (k : Choice) : Decidable (ReleasesExpired c i k) :=
  decidable_of_iff _ (releasesExpired_iff c i k)

theorem keeps_instr {c c' : Core SHARDS} {i : Instr SHARDS} {k : Choice} {more : List (Instr SHARDS)}
    (h : DeadlineInv c) (hp : DeadlinePending c i) (hok : ChecksRight c i k)
    (hi : instr c i k = some (c', more)) : Machine.Keeps DeadlineInv DeadlinePending c c' more :=
  ⟨deadlineInv_instr h hp hi, deadlinePending_more h hp hok hi,
    fun _ hj => deadlinePending_later (later_instr hi) hj⟩

theorem keeps_tick (c : Core SHARDS) (d : Nat) (h : DeadlineInv c) :
    Machine.Keeps DeadlineInv DeadlinePending c (c.tick d) [] :=
  ⟨⟨h.fresh, h.home, h.dated, h.index, h.indexUsed, h.cache, h.cacheUsed⟩, fun _ hj => (nomatch hj),
    fun _ hj => deadlinePending_later (later_tick c d) hj⟩

theorem pending_prog (c : Core SHARDS) (op : Op) : ∀ i ∈ (calls SHARDS).prog op, DeadlinePending c i := by
  have hsweep : DeadlinePending c sweep := fun x hx => nomatch hx
  cases op with
  | reserve sku qty ttl => exact List.forall_mem_cons.mpr ⟨hsweep, List.forall_mem_singleton.mpr trivial⟩
  | reserveOrBackorder sku qty ttl => exact List.forall_mem_cons.mpr ⟨hsweep, List.forall_mem_singleton.mpr trivial⟩
  | sweepExpired => exact List.forall_mem_singleton.mpr hsweep
  | _ => exact List.forall_mem_singleton.mpr trivial

theorem deadlineInv_init (shardIndex : SkuId → Fin SHARDS) (withCache : Bool) (now : Int) :
    DeadlineInv (initCore shardIndex withCache now) := by
  have hcache : ∀ m, (initCore shardIndex withCache now).engine.cache = some m → m = ∅ := by
    intro m hm
    cases withCache with
    | true => exact (Option.some.inj hm).symm
    | false => cases hm
  refine ⟨idsFresh_init shardIndex withCache now, fun i sku h => ?_, fun sku hold => iff_of_true rfl rfl, ?_, ?_, ?_, ?_⟩
  · exact absurd h (AList.notMem_empty sku)
  · exact fun sku hold e d he => nomatch he
  · exact fun hold d hd => nomatch hd
  · exact fun m hm sku hold e d he => nomatch he
  · intro m hm hold d hd
    rw [hcache m hm] at hd
    cases hd

/-- The invariant throughout a run whose checks are right. -/
theorem good_run {shardIndex : SkuId → Fin SHARDS} {withCache : Bool} {now : Int}
    {labels : List (Machine.Label Choice Op Nat)}
    (h : (calls SHARDS).RunDoes ChecksRight { core := initCore shardIndex withCache now } labels) :
    LabelledRun.AllStates (calls SHARDS).step (Machine.Good DeadlineInv DeadlinePending)
      { core := initCore shardIndex withCache now } labels :=
  (calls SHARDS).allStates_good DeadlineInv DeadlinePending (fun c op _ => pending_prog c op)
    (fun c d hc => keeps_tick c d hc) (fun _ _ _ _ _ hc hp hok hi => keeps_instr hc hp hok hi)
    (Machine.good_init (deadlineInv_init shardIndex withCache now)) h

theorem releasesExpired_of_pending {c : Core SHARDS} (h : DeadlineInv c) {i : Instr SHARDS}
    (hp : DeadlinePending c i) (k : Choice) : ReleasesExpired c i k := by
  cases i with
  | sweepRelease sku hold checkedAt =>
    intro hheld
    obtain ⟨-, hat, hexp⟩ := hp
    cases he : c.engine.expiry sku hold with
    | none => exact absurd ((h.dated sku hold).mp he) hheld
    | some e => exact ⟨e, rfl, hexp e he, hat⟩
  | _ => trivial

/-! ## Releasing all of them -/

/-- No recorded expiry has passed. -/
def NoExpiredHold (c : Core SHARDS) : Prop :=
  ∀ sku hold e, c.engine.expiry sku hold = some e → c.now < e

/-- Call `th` is a sweep that has just begun, the steps are all its own, and then it is done. -/
def SweepAlone (s : Machine.State (Core SHARDS) (Instr SHARDS)) (labels : List (Machine.Label Choice Op Nat))
    (t : Machine.State (Core SHARDS) (Instr SHARDS)) : Prop :=
  ∃ th, s.threads[th]? = some [sweep] ∧ (∀ a ∈ labels, ∃ choice, a = .run th choice) ∧
    LabelledRun.exec (calls SHARDS).step s labels = some t ∧ t.threads[th]? = some []

/-- The instructions of a sweep. -/
def InSweep : Instr SHARDS → Prop
  | .scan .. | .check .. | .sweepRelease .. | .countReleased | .indexRemove .. | .cacheInvalidate .. => True
  | _ => False

/-- The instruction will collect, check or release this hold. -/
def Ahead (eng : ReservationEngine SHARDS) (sku : SkuId) (hold : HoldId) : Instr SHARDS → Prop
  | .scan shards found => eng.shardIndex sku ∈ shards ∨ (sku, hold) ∈ found
  | .check candidates => (sku, hold) ∈ candidates
  | .sweepRelease k h _ => k = sku ∧ h = hold
  | _ => False

/-- The rest of a sweep that still has every expired hold ahead of it. -/
structure Sweeping (c : Core SHARDS) (rest : List (Instr SHARDS)) : Prop where
  instrs : ∀ i ∈ rest, InSweep i
  ahead : ∀ sku hold e, c.engine.expiry sku hold = some e → e ≤ c.now → ∃ i ∈ rest, Ahead c.engine sku hold i

/-- An instruction that leaves the engine as it is hands its hold on. -/
theorem sweeping_handOn {c : Core SHARDS} {i : Instr SHARDS} {rest more : List (Instr SHARDS)}
    (h : Sweeping c (i :: rest)) (hmore : ∀ j ∈ more, InSweep j)
    (hon : ∀ sku hold e, c.engine.expiry sku hold = some e → e ≤ c.now → Ahead c.engine sku hold i →
      ∃ j ∈ more, Ahead c.engine sku hold j) : Sweeping c (more ++ rest) := by
  refine ⟨fun j hj => ?_, fun sku hold e he hle => ?_⟩
  · rcases List.mem_append.mp hj with hj | hj
    · exact hmore j hj
    · exact h.instrs j (List.mem_cons_of_mem _ hj)
  · obtain ⟨j, hj, ha⟩ := h.ahead sku hold e he hle
    rcases List.mem_cons.mp hj with rfl | hj
    · obtain ⟨j', hj', ha'⟩ := hon sku hold e he hle ha
      exact ⟨j', List.mem_append_left _ hj', ha'⟩
    · exact ⟨j, List.mem_append_right _ hj, ha⟩

/-- An instruction that leaves the recorded expiries and is ahead of no hold. -/
theorem sweeping_drop {c c' : Core SHARDS} {i : Instr SHARDS} {rest : List (Instr SHARDS)}
    (h : Sweeping c (i :: rest)) (hnow : c'.now = c.now) (hindex : c'.engine.shardIndex = c.engine.shardIndex)
    (hexpiry : c'.engine.expiry = c.engine.expiry) (hi : ∀ sku hold, ¬ Ahead c.engine sku hold i) : Sweeping c' rest := by
  have hahead : ∀ sku hold j, Ahead c.engine sku hold j → Ahead c'.engine sku hold j := by
    intro sku hold j ha
    cases j with
    | scan shards found =>
      show c'.engine.shardIndex sku ∈ shards ∨ (sku, hold) ∈ found
      rw [hindex]
      exact ha
    | _ => exact ha
  refine ⟨fun j hj => h.instrs j (List.mem_cons_of_mem _ hj), fun sku hold e he hle => ?_⟩
  rw [hexpiry] at he
  rw [hnow] at hle
  obtain ⟨j, hj, ha⟩ := h.ahead sku hold e he hle
  rcases List.mem_cons.mp hj with rfl | hj
  · exact absurd ha (hi sku hold)
  · exact ⟨j, hj, hahead sku hold j ha⟩

/-- A released hold has no recorded expiry any more. -/
theorem expiry_dropHold {c : Core SHARDS} {k sku : SkuId} {x hold : HoldId} {kind : String} {ev : ReserveEvent} {e : Int}
    (he : (c.engine.record k kind ev ((c.stateOf k).dropHold x)).expiry sku hold = some e) :
    c.engine.expiry sku hold = some e ∧ ¬ (k = sku ∧ x = hold) := by
  rw [ReservationEngine.expiry, ReservationEngine.stateOf_record] at he
  split at he
  · next hsku =>
    subst hsku
    have hdel : ((c.engine.stateOf sku).expiresAt.erase x).lookup hold = some e := he
    rw [AssocMap.lookup_erase_eq] at hdel
    split at hdel
    · cases hdel
    · next hne => exact ⟨hdel, fun hx => hne hx.2.symm⟩
  · next hsku => exact ⟨he, fun hx => hsku hx.1.symm⟩

/-- A sweep's next instruction keeps every expired hold ahead of the rest of it. -/
theorem sweeping_instr {c c' : Core SHARDS} {i : Instr SHARDS} {k : Choice} {rest more : List (Instr SHARDS)}
    (hinv : DeadlineInv c) (hok : ChecksRight c i k) (h : Sweeping c (i :: rest))
    (hi : instr c i k = some (c', more)) : Sweeping c' (more ++ rest) := by
  have hin := h.instrs i List.mem_cons_self
  cases does_instr hi with
  | scanned found =>
    refine sweeping_handOn h (List.forall_mem_singleton.mpr trivial) fun sku hold e he hle ha => ?_
    exact ⟨_, List.mem_singleton_self _, ha.resolve_left List.not_mem_nil⟩
  | scan s shards found order perm =>
    refine sweeping_handOn h (List.forall_mem_singleton.mpr trivial) fun sku hold e he hle ha => ?_
    refine ⟨_, List.mem_singleton_self _, ?_⟩
    rcases ha with ha | ha
    · rcases List.mem_cons.mp ha with hs | ha
      · -- the hold is held, so its shard has it among its candidates
        have hheld : (c.engine.stateOf sku).holds.lookup hold ≠ none := by
          intro hnone
          have hsome : some e = none := he.symm.trans ((hinv.dated sku hold).mpr hnone)
          cases hsome
        have hmem := mem_candidates c.engine sku hold hheld
        rw [hs] at hmem
        exact Or.inr (List.mem_append_right _ (perm.mem_iff.mpr hmem))
      · exact Or.inl ha
    · exact Or.inr (List.mem_append_left _ ha)
  | checked =>
    exact sweeping_handOn h (List.forall_mem_nil _) fun sku hold e he hle ha => absurd ha List.not_mem_nil
  | expired k' x others expired =>
    refine sweeping_handOn h ?_ fun sku hold e he hle ha => ?_
    · rw [List.forall_mem_cons, List.forall_mem_singleton]
      exact ⟨trivial, trivial⟩
    · rcases List.mem_cons.mp ha with hx | ha
      · obtain ⟨rfl, rfl⟩ := Prod.mk.inj hx
        exact ⟨_, List.mem_cons_self, rfl, rfl⟩
      · exact ⟨_, List.mem_cons_of_mem _ List.mem_cons_self, ha⟩
  | notExpired k' x others running =>
    refine sweeping_handOn h (List.forall_mem_singleton.mpr trivial) fun sku hold e he hle ha => ?_
    refine ⟨_, List.mem_singleton_self _, ?_⟩
    rcases List.mem_cons.mp ha with hx | ha
    · -- an expired hold is found expired
      obtain ⟨rfl, rfl⟩ := Prod.mk.inj hx
      refine absurd ((c.engine.isExpired_iff c.now hold).mpr fun d hd => ?_) running
      exact (hok e he).2 d hd hle
    · exact ha
  | changed kind change =>
    cases change with
    | sweepRelease k' x checkedAt qty held =>
      refine ⟨fun j hj => ?_, fun sku hold e he hle => ?_⟩
      · simp only [handsOn, dropIndexes, List.cons_append, List.nil_append, List.mem_cons] at hj
        rcases hj with rfl | rfl | rfl | hj
        · trivial
        · trivial
        · trivial
        · exact h.instrs j (List.mem_cons_of_mem _ hj)
      · obtain ⟨he', hne⟩ := expiry_dropHold he
        obtain ⟨j, hj, ha⟩ := h.ahead sku hold e he' hle
        rcases List.mem_cons.mp hj with rfl | hj
        · exact absurd ha hne
        · exact ⟨j, List.mem_append_right _ hj, ha⟩
    | _ => cases hin
  | unknown k' x hnamed hnone =>
    refine sweeping_handOn h (List.forall_mem_nil _) fun sku hold e he hle ha => ?_
    -- a hold that is not held has no recorded expiry
    cases i with
    | sweepRelease k'' y checkedAt =>
      cases hnamed
      obtain ⟨rfl, rfl⟩ := ha
      have hsome : some e = none := he.symm.trans ((hinv.dated k' x).mpr hnone)
      cases hsome
    | confirm | release => cases hin
    | _ => cases hnamed
  | countReleased => exact sweeping_drop h rfl rfl rfl fun _ _ ha => ha
  | indexRemove x => exact sweeping_drop h rfl rfl rfl fun _ _ ha => ha
  | cacheInvalidate x => exact sweeping_drop h rfl rfl rfl fun _ _ ha => ha
  | _ => cases hin

/-- The steps of one call that sweeps. -/
theorem sweeping_run {s t : Machine.State (Core SHARDS) (Instr SHARDS)} {th : Nat}
    {labels : List (Machine.Label Choice Op Nat)} {rest : List (Instr SHARDS)}
    (hgood : LabelledRun.AllStates (calls SHARDS).step (Machine.Good DeadlineInv DeadlinePending) s labels)
    (hok : (calls SHARDS).RunDoes ChecksRight s labels) (hown : ∀ a ∈ labels, ∃ choice, a = .run th choice)
    (hrest : s.threads[th]? = some rest) (h : Sweeping s.core rest)
    (he : LabelledRun.exec (calls SHARDS).step s labels = some t) :
    ∃ rest', t.threads[th]? = some rest' ∧ Sweeping t.core rest' := by
  induction labels generalizing s rest with
  | nil =>
    cases he
    exact ⟨rest, hrest, h⟩
  | cons a labels ih =>
    obtain ⟨choice, rfl⟩ := hown a List.mem_cons_self
    simp only [LabelledRun.exec, Option.bind_eq_some_iff] at he
    obtain ⟨u, hu, he⟩ := he
    have hu' := hu
    cases (calls SHARDS).moves_of_step hu' with
    | @run _ _ i rest' more core hth hi =>
      rw [hth] at hrest
      cases hrest
      have hinv := hgood.head.core
      have hstep := hok.1 _ hu th choice i rfl ⟨rest', hth⟩
      refine ih (hgood.2 _ hu) (hok.2 _ hu) (fun b hb => hown b (List.mem_cons_of_mem _ hb)) ?_
        (sweeping_instr hinv hstep h hi) he
      obtain ⟨hlt, -⟩ := List.getElem?_eq_some_iff.mp hth
      rw [List.getElem?_set_self hlt]

/-- **When sweeps are sound.**  In a run whose checks are right, every hold that a sweep releases
was past its recorded expiry when the sweep checked it, and a sweep that runs alone leaves no
expired hold. -/
theorem sweeps_sound (shardIndex : SkuId → Fin SHARDS) (withCache : Bool) (now : Int)
    (labels : List (Machine.Label Choice Op Nat))
    (h : (calls SHARDS).RunDoes ChecksRight { core := initCore shardIndex withCache now } labels) :
    (calls SHARDS).RunDoes ReleasesExpired { core := initCore shardIndex withCache now } labels ∧
      ∀ pre alone post s t, labels = pre ++ (alone ++ post) →
        LabelledRun.exec (calls SHARDS).step { core := initCore shardIndex withCache now } pre = some s →
        SweepAlone s alone t → NoExpiredHold t.core := by
  have hgood := good_run h
  constructor
  · refine LabelledRun.allSteps_of_allStates (calls SHARDS).step ?_ hgood
    rintro w a hw t - th choice i - ⟨rest, hn⟩
    exact releasesExpired_of_pending hw.core (hw.threads _ (Machine.mem_of_next hn) i List.mem_cons_self) choice
  · rintro pre alone post s t rfl hpre ⟨th, hth, hown, hexec, hdone⟩
    have hok := LabelledRun.AllSteps.left _ (LabelledRun.AllSteps.right _ h hpre)
    have hgood' := LabelledRun.AllStates.left _ (LabelledRun.AllStates.right _ hgood hpre)
    have hstart : Sweeping s.core [sweep] := by
      refine ⟨fun i hi => ?_, fun sku hold e he hle => ?_⟩
      · rw [List.mem_singleton.mp hi]
        trivial
      · exact ⟨_, List.mem_singleton_self _, Or.inl (List.mem_finRange _)⟩
    obtain ⟨rest, hrest, hend⟩ := sweeping_run hgood' hok hown hth hstart hexec
    rw [hdone] at hrest
    cases hrest
    intro sku hold e he
    by_contra hle
    obtain ⟨i, hi, -⟩ := hend.ahead sku hold e he (not_lt.mp hle)
    cases hi

/-- Ten units, a hold of four for a minute, and a sweep two minutes later. -/
def sweepAfterExpiry : List (Machine.Label Choice Op Nat) :=
  [.spawn (.receive ⟨7⟩ (i64 10)), .run 0 .only, .spawn (.reserve ⟨7⟩ 4 60)] ++ emptySweep 1 ++
  [.run 1 .only, .run 1 .only, .run 1 .only, .run 1 .only, .env 120, .spawn .sweepExpired] ++
    List.replicate 7 (.run 2 (.candidates [])) ++ [.run 2 (.candidates [(⟨7⟩, ⟨0⟩)])] ++
    List.replicate 56 (.run 2 (.candidates [])) ++ List.replicate 7 (.run 2 .only)

theorem sweepAfterExpiry_sound :
    (calls 64).RunDoes ReleasesExpired { core := initCore modShard false 0 } sweepAfterExpiry :=
  (sweeps_sound modShard false 0 sweepAfterExpiry (by decide +kernel)).1

/-- An order for four units that are not there, then ten units, the backorder is filled with a hold
for a hundred years, and a sweep. -/
def sweepAfterFill : List (Machine.Label Choice Op Nat) :=
  [.spawn (.reserveOrBackorder ⟨7⟩ 4 60)] ++ emptySweep 0 ++
  [.run 0 .only, .run 0 .only, .run 0 .only,
    .spawn (.receive ⟨7⟩ (i64 10)), .run 1 .only, .spawn .fulfillBackorders] ++
    List.replicate 7 (.run 2 (.skus [])) ++
  [.run 2 (.skus [⟨7⟩]), .run 2 (.backorder (some ⟨0⟩)), .run 2 .only, .run 2 .only, .spawn .sweepExpired] ++
    List.replicate 7 (.run 3 (.candidates [])) ++ [.run 3 (.candidates [(⟨7⟩, ⟨1⟩)])] ++
    List.replicate 56 (.run 3 (.candidates [])) ++ List.replicate 3 (.run 3 .only)

/-- The hold was never entered in the expiry index, so the sweep releases it at once. -/
theorem filled_hold_swept :
    ¬ (calls 64).RunDoes ReleasesExpired { core := initCore modShard false 0 } sweepAfterFill := by
  decide +kernel

end TptErp.Oms
