import TptErp.Cache.ReadModel
import TptErp.Wms.StockLog

/-!
# The read model of stock, and replenishment

A call that has written a quantity announces it when its lock is released (`after_write`): a replenishment job goes
to the bus if the quantity is below the reorder point, and the quantity goes to the cache.  The bus and the cache
may fail, and other calls may run in between.

* `announced_from_log`: whatever the calls, the failures and the interleaving, a cached quantity or that of a job is
  one that the key had, the sum of the first movements of its log; and a rebuild without interruption corrects the
  cache.
* `cached_up_to_date`: the cached quantity of a key is the one on hand as long as every change of it is announced,
  waits for the one before to reach the cache, and reaches the cache.

The changes that are not announced are those of the source of a pallet move and of a pick that is given up
(`unannounced`).
-/

namespace TptErp.Wms

open Cache Tenant

def StockKey.cacheStr (key : StockKey) : String := key.bin.asStr ++ "::" ++ key.sku.asStr

theorem StockKey.toList_cacheStr (key : StockKey) :
    key.cacheStr.toList = key.bin.asStr.toList ++ ':' :: ':' :: key.sku.asStr.toList := by
  simp only [cacheStr, String.toList_append, List.append_assoc]
  rfl

theorem StockKey.cacheStr_injective : Function.Injective StockKey.cacheStr := by
  rintro ⟨b, s⟩ ⟨b', s'⟩ h
  have hcolon : ∀ id : Id Bin, ':' ∉ id.asStr.toList := fun id hm => absurd (Id.mem_asStr hm) (by decide)
  have hl := congrArg String.toList h
  rw [toList_cacheStr, toList_cacheStr, Separated.append_cons_inj (hcolon b) (hcolon b')] at hl
  obtain ⟨hb, hs⟩ := hl
  have hb := Id.asStr_injective (String.toList_injective hb)
  have hs := Id.asStr_injective (String.toList_injective (List.cons.inj hs).2)
  dsimp only at hb hs
  rw [hb, hs]

/-- The payload of `jobs.replenish`. -/
structure ReplenishJob where
  bin : String
  sku : String
  onHand : Int
deriving DecidableEq

namespace InventoryEngine

variable {SHARDS : Nat}

/-- The quantity that a section has written and its call announces. -/
def written (eng : InventoryEngine SHARDS) : Instr → Option (StockKey × Int)
  | .apply key m => (appendWith wrapI64 eng key m m.delta).1.toOption.map fun n => (key, n)
  | .applyVersioned key m v => (applyVersionedWith wrapI64 eng key m v).1.toOption.map fun n => (key, n)
  | .receive key lot qty expiry serials =>
    (receiveSection wrapI64 eng key lot qty expiry serials).1.toOption.map fun n => (key, n)
  | .pick key qty asOf =>
    (pickSection wrapI64 eng key qty asOf).1.toOption.map fun _ =>
      (key, (pickSection wrapI64 eng key qty asOf).2.onHand key)
  | .pickFromLot key lot qty asOf =>
    (pickFromLotSection wrapI64 eng key lot qty asOf).1.toOption.map fun _ =>
      (key, (pickFromLotSection wrapI64 eng key lot qty asOf).2.onHand key)
  | .transferIn _ _ toBin line expiry serials _ =>
    (receiveSection wrapI64 eng ⟨toBin, line.sku⟩ line.lot line.qty expiry serials).1.toOption.map fun n =>
      (⟨toBin, line.sku⟩, n)
  | .adjust bin _ reason sku delta _ =>
    (appendWith wrapI64 eng ⟨bin, sku⟩ (.adjustment (i64 delta) reason) delta).1.toOption.map fun n => (⟨bin, sku⟩, n)
  | _ => none

/-- The section changes the serials before the call announces what it has written. -/
def Instr.hasSerials : Instr → Bool
  | .receive _ _ _ _ _ | .pick _ _ _ | .pickFromLot _ _ _ _ => true
  | _ => false

/-! ## What is written is what is there -/

theorem continueWith_fst {R : Type} (r : Call SHARDS R) (more : R → List Instr) : (continueWith r more).1 = r.2 := by
  obtain ⟨e | a, eng⟩ := r
  · rfl
  · rfl

/-- A section that writes the quantity of `key`: it announces it, or it has changed nothing. -/
def Writes (eng eng' : InventoryEngine SHARDS) (key : StockKey) (announced : Option (StockKey × Int)) : Prop :=
  (announced = some (key, eng'.onHand key) ∧ ∀ k, k ≠ key → eng'.onHand k = eng.onHand k) ∨
    (announced = none ∧ ∀ k, eng'.onHand k = eng.onHand k)

section
variable (eng : InventoryEngine SHARDS)

theorem writes_appendWith (key : StockKey) (m : Movement) (delta : Int) :
    Writes eng (appendWith wrapI64 eng key m delta).2 key
      ((appendWith wrapI64 eng key m delta).1.toOption.map fun n => (key, n)) := by
  unfold appendWith
  dsimp only
  split
  · exact Or.inr ⟨rfl, fun _ => rfl⟩
  · refine Or.inl ⟨?_, fun k hk => ?_⟩
    · rw [onHand_move, if_pos rfl]
      rfl
    · rw [onHand_move, if_neg hk]

theorem writes_applyVersionedWith (key : StockKey) (m : Movement) (v : Nat) :
    Writes eng (applyVersionedWith wrapI64 eng key m v).2 key
      ((applyVersionedWith wrapI64 eng key m v).1.toOption.map fun n => (key, n)) := by
  rcases eng.applyVersionedWith_cases wrapI64 key m v with ⟨-, e, he⟩ | ⟨-, he⟩
  · rw [he]
    exact Or.inr ⟨rfl, fun _ => rfl⟩
  · rw [he]
    refine Or.inl ⟨?_, fun k hk => ?_⟩
    · rw [onHand_moveBy, if_pos rfl]
      rfl
    · rw [onHand_moveBy, if_neg hk]

theorem writes_receiveSection (key : StockKey) (lot : LotNumber) (qty : U32) (expiry : Option Int)
    (serials : List SerialNumber) :
    Writes eng (receiveSection wrapI64 eng key lot qty expiry serials).2 key
      ((receiveSection wrapI64 eng key lot qty expiry serials).1.toOption.map fun n => (key, n)) := by
  unfold receiveSection
  have hw := eng.writes_appendWith key (.received qty.1) qty.1
  generalize appendWith wrapI64 eng key (.received qty.1) qty.1 = r at hw
  obtain ⟨e | n, mid⟩ := r
  · exact hw
  · rcases hw with ⟨hn, ho⟩ | ⟨hn, -⟩
    · refine Or.inl ⟨?_, fun k hk => ?_⟩
      · dsimp only at hn ⊢
        rw [onHand_logLot, onHand_setLots]
        exact hn
      · dsimp only
        rw [onHand_logLot, onHand_setLots]
        exact ho k hk
    · cases hn

theorem writes_pickFromLotSection (key : StockKey) (lot : LotNumber) (qty : U32) (asOf : Int) :
    Writes eng (pickFromLotSection wrapI64 eng key lot qty asOf).2 key
      ((pickFromLotSection wrapI64 eng key lot qty asOf).1.toOption.map fun _ =>
        (key, (pickFromLotSection wrapI64 eng key lot qty asOf).2.onHand key)) := by
  rcases eng.pickFromLotSection_cases wrapI64 key lot qty asOf with ⟨-, e, he⟩ | ⟨-, ld, -, he⟩
  · rw [he]
    exact Or.inr ⟨rfl, fun _ => rfl⟩
  · rw [he]
    refine Or.inl ⟨rfl, fun k hk => ?_⟩
    rw [onHand_setLots, onHand_logLot, onHand_moveBy, if_neg hk]

/-- A pick that is given up has written, and announces nothing. -/
theorem writes_pickSection (key : StockKey) (qty : U32) (asOf : Int) :
    Writes eng (pickSection wrapI64 eng key qty asOf).2 key
        ((pickSection wrapI64 eng key qty asOf).1.toOption.map fun _ =>
          (key, (pickSection wrapI64 eng key qty asOf).2.onHand key)) ∨
      ((pickSection wrapI64 eng key qty asOf).1.toOption = none ∧
        ∀ k, k ≠ key → (pickSection wrapI64 eng key qty asOf).2.onHand k = eng.onHand k) := by
  rcases eng.pickSection_cases wrapI64 key qty asOf with ⟨-, e, he⟩ | ⟨-, eng', hp, he⟩ |
    ⟨-, first, c, rest, eng', e, -, hp, -, he⟩
  · rw [he]
    exact Or.inl (Or.inr ⟨rfl, fun _ => rfl⟩)
  · rw [he]
    refine Or.inl (Or.inl ⟨rfl, fun k hk => ?_⟩)
    rw [onHand_setLots, picked_onHand_ne hp hk, onHand_setLots]
  · rw [he]
    refine Or.inr ⟨rfl, fun k hk => ?_⟩
    rw [picked_onHand_ne hp hk, onHand_setLots]

theorem onHand_transferOut (key : StockKey) (lot : LotNumber) (qty : U32) (fromBin toBin : Id Bin) {k : StockKey}
    (hk : k ≠ key) : (transferOut wrapI64 eng key lot qty fromBin toBin).2.onHand k = eng.onHand k := by
  rcases eng.transferOut_cases wrapI64 key lot qty fromBin toBin with ⟨e, he⟩ | ⟨ld, -, -, -, e, he⟩ |
    ⟨ld, -, -, -, he⟩
  · rw [he]
  · rw [he, onHand_setLots]
  · rw [he, onHand_logLot, onHand_moveBy, if_neg hk, onHand_setLots]

/-- The changes that are not announced: a pick that is given up, and the source of a pallet move. -/
inductive Unannounced (key : StockKey) : Instr → Prop
  | pick (qty : U32) (asOf : Int) (fails : (pickSection wrapI64 eng key qty asOf).1.toOption = none) :
      Unannounced key (.pick key qty asOf)
  | moveLine {lpn : LpnId} {location toBin : Id Bin} {line : PalletLine} {todo : List PalletLine}
      (source : key = ⟨location, line.sku⟩) : Unannounced key (.moveLine lpn location toBin (line :: todo))

/-- **What a section writes, it announces**, but for these changes. -/
theorem unannounced (i : Instr) (key : StockKey) :
    eng.written i = some (key, (exec wrapI64 eng i).1.onHand key) ∨
      ((exec wrapI64 eng i).1.onHand key = eng.onHand key ∧ ∀ n, eng.written i ≠ some (key, n)) ∨
      (eng.written i = none ∧ eng.Unannounced key i) := by
  have hwrites : ∀ {k : StockKey} {announced : Option (StockKey × Int)} {eng' : InventoryEngine SHARDS},
      Writes eng eng' k announced → announced = some (key, eng'.onHand key) ∨
        (eng'.onHand key = eng.onHand key ∧ ∀ n, announced ≠ some (key, n)) := by
    rintro k announced eng' (⟨rfl, ho⟩ | ⟨rfl, ho⟩)
    · by_cases hk : key = k
      · rw [hk]
        exact Or.inl rfl
      · refine Or.inr ⟨ho key hk, fun n hn => hk ?_⟩
        exact (Prod.mk.inj (Option.some.inj hn)).1.symm
    · exact Or.inr ⟨ho key, fun n hn => nomatch hn⟩
  have hsame : ∀ {eng' : InventoryEngine SHARDS}, eng'.onHand key = eng.onHand key →
      (eng'.onHand key = eng.onHand key ∧ ∀ n, (none : Option (StockKey × Int)) ≠ some (key, n)) :=
    fun h => ⟨h, fun n hn => nomatch hn⟩
  cases i with
  | apply k m =>
    simp only [exec, written, continueWith_fst]
    exact or_assoc.mp (Or.inl (hwrites (eng.writes_appendWith k m m.delta)))
  | applyVersioned k m v =>
    simp only [exec, written, continueWith_fst]
    exact or_assoc.mp (Or.inl (hwrites (eng.writes_applyVersionedWith k m v)))
  | receive k lot qty expiry serials =>
    simp only [exec, written, continueWith_fst]
    exact or_assoc.mp (Or.inl (hwrites (eng.writes_receiveSection k lot qty expiry serials)))
  | pickFromLot k lot qty asOf =>
    simp only [exec, written, continueWith_fst]
    exact or_assoc.mp (Or.inl (hwrites (eng.writes_pickFromLotSection k lot qty asOf)))
  | transferIn lpn location toBin line expiry serials todo =>
    simp only [exec, written, continueWith_fst]
    exact or_assoc.mp (Or.inl (hwrites (eng.writes_receiveSection ⟨toBin, line.sku⟩ line.lot line.qty expiry serials)))
  | adjust bin counted reason sku delta todo =>
    simp only [exec, written, continueWith_fst]
    exact or_assoc.mp (Or.inl (hwrites (eng.writes_appendWith ⟨bin, sku⟩ (.adjustment (i64 delta) reason) delta)))
  | pick k qty asOf =>
    simp only [exec, written, continueWith_fst]
    rcases eng.writes_pickSection k qty asOf with hw | ⟨hn, ho⟩
    · exact or_assoc.mp (Or.inl (hwrites hw))
    · rw [hn]
      by_cases hk : key = k
      · subst hk
        exact Or.inr (Or.inr ⟨rfl, .pick qty asOf hn⟩)
      · exact Or.inr (Or.inl (hsame (ho key hk)))
  | moveLine lpn location toBin todo =>
    cases todo with
    | nil =>
      refine Or.inr (Or.inl (hsame ?_))
      simp only [exec]
      split
      · rfl
      · rfl
    | cons line todo =>
      by_cases hk : key = ⟨location, line.sku⟩
      · exact Or.inr (Or.inr ⟨rfl, .moveLine hk⟩)
      · refine Or.inr (Or.inl (hsame ?_))
        simp only [exec]
        split
        · rfl
        · rw [continueWith_fst]
          exact eng.onHand_transferOut _ _ _ _ _ hk
  | checkSerials k lot qty expiry serials =>
    refine Or.inr (Or.inl (hsame ?_))
    simp only [exec]
    split
    · rfl
    · rfl
  | checkLine location lines id todo =>
    refine Or.inr (Or.inl (hsame ?_))
    cases todo with
    | nil => rfl
    | cons line todo =>
      simp only [exec]
      split
      · rfl
      · rfl
  | pickFromPallet lpn sku lot qty asOf =>
    refine Or.inr (Or.inl (hsame ?_))
    simp only [exec]
    split
    · rfl
    · split
      · rfl
      · split
        · rfl
        · rfl
  | readPallet lpn toBin =>
    refine Or.inr (Or.inl (hsame ?_))
    simp only [exec]
    split
    · rfl
    · split
      · rfl
      · rfl
  | countLine bin counted reason todo =>
    refine Or.inr (Or.inl (hsame ?_))
    cases todo with
    | nil => rfl
    | cons sku todo =>
      simp only [exec]
      split
      · rfl
      · rfl
  | putSerials | removeSerials | registerMoved => exact Or.inr (Or.inl (hsame rfl))

end

/-! ## The log only grows -/

/-- The quantity after the first movements of a key. -/
def OnLog (eng : InventoryEngine SHARDS) (key : StockKey) (n : Int) : Prop :=
  0 ≤ n ∧ ∃ ms, ms <+: eng.movements key ∧ n = wrappingSum ms

theorem movements_edit {eng eng' : InventoryEngine SHARDS} (h : LogKept eng) (he : Edit wrapI64 eng eng')
    (key : StockKey) : eng.movements key <+: eng'.movements key := by
  cases he with
  | move k m delta =>
    rw [movements_move _ _ _ _ h]
    split
    · exact List.prefix_append _ _
    · exact List.prefix_rfl
  | logLot k e => rw [movements_logLot _ _ _ h]
  | setLots k ls => rw [movements_setLots]
  | putSerials => exact List.prefix_rfl
  | removeSerials => exact List.prefix_rfl
  | putPallet => exact List.prefix_rfl

theorem movements_edits {eng eng' : InventoryEngine SHARDS} (h : LogKept eng) (he : Edits wrapI64 eng eng')
    (key : StockKey) : LogKept eng' ∧ eng.movements key <+: eng'.movements key := by
  induction he with
  | refl => exact ⟨h, List.prefix_rfl⟩
  | tail _ h1 ih => exact ⟨logKept_edit ih.1 h1, ih.2.trans (movements_edit ih.1 h1 key)⟩

theorem OnLog.edits {eng eng' : InventoryEngine SHARDS} (h : LogKept eng) (he : Edits wrapI64 eng eng')
    {key : StockKey} {n : Int} (hn : OnLog eng key n) : OnLog eng' key n := by
  obtain ⟨h0, ms, hms, hsum⟩ := hn
  exact ⟨h0, ms, hms.trans (movements_edits h he key).2, hsum⟩

theorem onLog_onHand {eng : InventoryEngine SHARDS} (h : Balanced eng) (key : StockKey) :
    OnLog eng key (eng.onHand key) :=
  ⟨(h.floor key).1, _, List.prefix_rfl, h.sum key⟩

theorem edits_exec (eng : InventoryEngine SHARDS) (i : Instr) : Edits wrapI64 eng (exec wrapI64 eng i).1 :=
  edits_does (eng.does_exec wrapI64 i)

end InventoryEngine

/-! ## The bus and the cache -/

open InventoryEngine

/-- The engine with what is attached to it. -/
structure Warehouse (SHARDS : Nat) where
  engine : InventoryEngine SHARDS
  tenant : TenantId
  reorderPoint : Int
  /-- The replenishment jobs that the bus has accepted. -/
  bus : Option (List ReplenishJob) := none
  cache : Option (Models Int) := none
  publishedJobs : Nat := 0

/-- What a call has to do: a section, or one of the two awaits of `after_write`. -/
inductive Duty
  | section (i : Instr)
  | publish (key : StockKey) (newQty : Int)
  | cachePut (key : StockKey) (newQty : Int)

def afterWrite (key : StockKey) (newQty : Int) : List Duty := [.publish key newQty, .cachePut key newQty]

/-- The duties after a section. -/
def follow (i : Instr) (more : List Instr) : Option (StockKey × Int) → List Duty
  | none => more.map .section
  | some (key, newQty) =>
    if i.hasSerials then more.map .section ++ afterWrite key newQty
    else afterWrite key newQty ++ more.map .section

namespace Warehouse

variable {SHARDS : Nat} (w : Warehouse SHARDS)

/-- One duty; `ok` says whether the bus or the cache succeeds, `now` is the time. -/
def act (ok : Bool) (now : Int) : Duty → Warehouse SHARDS × List Duty
  | .section i =>
    let r := exec wrapI64 w.engine i
    ({ w with engine := r.1 }, follow i r.2 (w.engine.written i))
  | .publish key newQty =>
    match w.bus with
    | none => (w, [])
    | some jobs =>
      if newQty < w.reorderPoint ∧ ok then
        ({ w with
            bus := some (jobs ++ [{ bin := key.bin.asStr, sku := key.sku.asStr, onHand := newQty }])
            publishedJobs := (w.publishedJobs + 1) % 2 ^ 64 }, [])
      else (w, [])
  | .cachePut key newQty =>
    if ok then
      ({ w with cache := w.cache.bind fun c => c.put now w.tenant "inventory" key.cacheStr newQty none }, [])
    else (w, [])

/-- What the cache answers at a time. -/
def cachedOnHand (now : Int) (key : StockKey) : Option Int :=
  w.cache.bind fun c => (c.get now w.tenant "inventory" key.cacheStr).1

/-- `rebuild_read_models`, without interruption: the quantities replayed from the log go to the cache, except those
for which the cache fails. -/
def rebuildReadModels (fails : StockKey → Bool) (now : Int) : Option (AssocMap StockKey Int × Warehouse SHARDS) :=
  w.engine.rebuildReadModels.map fun proj =>
    (proj, { w with
      cache := proj.entries.foldl
        (fun cache e =>
          if fails e.1 then cache
          else cache.bind fun c => c.put now w.tenant "inventory" e.1.cacheStr e.2 none)
        w.cache })

end Warehouse

/-- The calls of an engine with a bus and a cache, interleaved. -/
def announcing (SHARDS : Nat) : Machine (Warehouse SHARDS) Duty (Bool × Int) Op Unit where
  prog op := (prog op).map .section
  instr w duty choice := some (w.act choice.1 choice.2 duty)
  env w _ := w

/-! ## What is announced was there -/

namespace Warehouse

variable {SHARDS : Nat}

/-- The entries of the cache and the jobs on the bus are from the log. -/
structure FromLog (w : Warehouse SHARDS) : Prop where
  balanced : Balanced w.engine
  cached : ∀ c, w.cache = some c → ∀ key v, c.models.lookup (w.tenant, "inventory", key.cacheStr) = some v →
    v.2 = none ∧ OnLog w.engine key v.1
  jobs : ∀ jobs, w.bus = some jobs → ∀ job ∈ jobs, job.onHand < w.reorderPoint ∧
    ∃ key : StockKey, job.bin = key.bin.asStr ∧ job.sku = key.sku.asStr ∧ OnLog w.engine key job.onHand
  published : ∀ jobs, w.bus = some jobs → w.publishedJobs = jobs.length % 2 ^ 64

/-- What is still to be announced is from the log. -/
def Due (w : Warehouse SHARDS) : Duty → Prop
  | .section _ => True
  | .publish key n => OnLog w.engine key n
  | .cachePut key n => OnLog w.engine key n

theorem due_follow {w : Warehouse SHARDS} {i : Instr} {more : List Instr} {announced : Option (StockKey × Int)}
    (h : ∀ key n, announced = some (key, n) → OnLog w.engine key n) :
    ∀ duty ∈ follow i more announced, Due w duty := by
  have hsections : ∀ duty ∈ more.map Duty.section, Due w duty := by
    intro duty hd
    obtain ⟨j, -, rfl⟩ := List.mem_map.mp hd
    exact trivial
  cases announced with
  | none => exact hsections
  | some kn =>
    obtain ⟨key, n⟩ := kn
    have hn := h key n rfl
    have hafter : ∀ duty ∈ afterWrite key n, Due w duty :=
      List.forall_mem_cons.mpr ⟨hn, List.forall_mem_singleton.mpr hn⟩
    simp only [follow]
    split
    · exact List.forall_mem_append.mpr ⟨hsections, hafter⟩
    · exact List.forall_mem_append.mpr ⟨hafter, hsections⟩

theorem Due.edits {w w' : Warehouse SHARDS} (h : Balanced w.engine) (he : Edits wrapI64 w.engine w'.engine)
    {duty : Duty} (hd : Due w duty) : Due w' duty := by
  cases duty with
  | «section» i => exact trivial
  | publish key n => exact OnLog.edits h.log he hd
  | cachePut key n => exact OnLog.edits h.log he hd

/-- A put of `inventory` at a key. -/
theorem put_lookup (c : Models Int) (now : Int) (tenant : TenantId) (key k : StockKey) (n : Int) :
    ∃ c', c.put now tenant "inventory" key.cacheStr n none = some c' ∧
      c'.models.lookup (tenant, "inventory", k.cacheStr) =
        if k = key then some (n, none) else c.models.lookup (tenant, "inventory", k.cacheStr) := by
  refine ⟨_, rfl, ?_⟩
  dsimp only
  rw [AssocMap.lookup_insert_eq]
  by_cases hk : k = key
  · rw [if_pos hk, if_pos (by rw [hk])]
  · rw [if_neg hk, if_neg]
    intro he
    exact hk (StockKey.cacheStr_injective (Prod.mk.inj (Prod.mk.inj he).2).2)

/-- Every duty keeps what is announced from the log. -/
theorem keeps_act {w : Warehouse SHARDS} (h : FromLog w) {duty : Duty} (hd : Due w duty) (ok : Bool) (now : Int) :
    Machine.Keeps FromLog Due w (w.act ok now duty).1 (w.act ok now duty).2 := by
  cases duty with
  | «section» i =>
    have he := edits_exec w.engine i
    have hb := balanced_edits h.balanced he
    refine ⟨⟨hb, fun c hc key v hv => ?_, fun jobs hj job hm => ?_, h.published⟩, ?_, fun _ => Due.edits h.balanced he⟩
    · obtain ⟨hexp, hlog⟩ := h.cached c hc key v hv
      exact ⟨hexp, hlog.edits h.balanced.log he⟩
    · obtain ⟨hlt, key, hbin, hsku, hlog⟩ := h.jobs jobs hj job hm
      exact ⟨hlt, key, hbin, hsku, hlog.edits h.balanced.log he⟩
    · refine due_follow fun key n hn => ?_
      rcases w.engine.unannounced i key with hw | ⟨-, hno⟩ | ⟨hno, -⟩
      · rw [hw] at hn
        obtain ⟨-, rfl⟩ := Prod.mk.inj (Option.some.inj hn)
        exact onLog_onHand hb key
      · exact absurd hn (hno n)
      · rw [hno] at hn
        cases hn
  | publish key n =>
    simp only [act]
    split
    · exact ⟨h, List.forall_mem_nil _, fun _ => id⟩
    · next jobs hbus =>
      split
      · next hlow =>
        refine ⟨⟨h.balanced, h.cached, fun jobs' hj job hm => ?_, fun jobs' hj => ?_⟩, List.forall_mem_nil _, ?_⟩
        · obtain rfl := Option.some.inj hj
          rcases List.mem_append.mp hm with hm | hm
          · exact h.jobs jobs hbus job hm
          · rw [List.mem_singleton.mp hm]
            exact ⟨hlow.1, key, rfl, rfl, hd⟩
        · obtain rfl := Option.some.inj hj
          show (w.publishedJobs + 1) % 2 ^ 64 = _
          rw [List.length_append, List.length_singleton, h.published jobs hbus, Nat.mod_add_mod]
        · intro duty hdue
          cases duty with
          | «section» i => exact trivial
          | publish | cachePut => exact hdue
      · exact ⟨h, List.forall_mem_nil _, fun _ => id⟩
  | cachePut key n =>
    simp only [act]
    split
    · refine ⟨⟨h.balanced, fun c' hc' k v hv => ?_, h.jobs, h.published⟩, List.forall_mem_nil _, ?_⟩
      · obtain ⟨c, hc, hput⟩ := Option.bind_eq_some_iff.mp hc'
        obtain ⟨c₁, hc₁, hl⟩ := put_lookup c now w.tenant key k n
        rw [hc₁] at hput
        obtain rfl := Option.some.inj hput
        rw [hl] at hv
        split at hv
        · next hk =>
          subst hk
          obtain rfl := Option.some.inj hv
          exact ⟨rfl, hd⟩
        · exact h.cached c hc k v hv
      · intro duty hdue
        cases duty with
        | «section» i => exact trivial
        | publish | cachePut => exact hdue
    · exact ⟨h, List.forall_mem_nil _, fun _ => id⟩

/-- What is cached and has not expired. -/
theorem get_fst (c : Models Int) (now : Int) (tenant : TenantId) (model key : String) :
    (c.get now tenant model key).1 =
      (c.models.lookup (tenant, model, key)).bind fun v => if v.2.any (· ≤ now) then none else some v.1 := by
  unfold Models.get
  cases c.models.lookup (tenant, model, key) with
  | none => rfl
  | some v =>
    obtain ⟨n, - | exp⟩ := v
    · rfl
    · simp only [Option.bind_some, Option.any_some, decide_eq_true_eq]
      split
      · rfl
      · rfl

/-- A quantity that the cache takes is there from then on. -/
theorem cachedOnHand_put (w : Warehouse SHARDS) (now later : Int) (key k : StockKey) (n : Int) :
    (w.act true now (.cachePut key n)).1.cachedOnHand later k =
      if k = key then w.cache.map fun _ => n else w.cachedOnHand later k := by
  simp only [act, if_true, cachedOnHand]
  cases hc : w.cache with
  | none =>
    split
    · rfl
    · rfl
  | some c =>
    obtain ⟨c', hc', hl⟩ := put_lookup c now w.tenant key k n
    rw [Option.bind_some, hc', Option.bind_some, Option.bind_some, get_fst, get_fst, hl]
    split
    · rfl
    · rfl

/-! ## Rebuilding -/

/-- The puts of a rebuild, for entries without repeated keys. -/
theorem foldl_put_lookup (tenant : TenantId) (fails : StockKey → Bool) (now : Int) (c : Models Int)
    {entries : List ((_ : StockKey) × Int)} (hnodup : (entries.map (·.1)).Nodup) :
    ∃ c', entries.foldl (fun cache e =>
        if fails e.1 then cache
        else cache.bind fun c => c.put now tenant "inventory" e.1.cacheStr e.2 none) (some c) = some c' ∧
      ∀ k, c'.models.lookup (tenant, "inventory", k.cacheStr) =
        if fails k then c.models.lookup (tenant, "inventory", k.cacheStr)
        else ((entries.dlookup k).map fun n => (n, none)).or (c.models.lookup (tenant, "inventory", k.cacheStr)) := by
  induction entries generalizing c with
  | nil =>
    refine ⟨c, rfl, fun k => ?_⟩
    split
    · rfl
    · rfl
  | cons e entries ih =>
    obtain ⟨hnew, hnodup⟩ := List.nodup_cons.mp hnodup
    have hnone : entries.dlookup e.1 = none := List.dlookup_eq_none.mpr hnew
    rw [List.foldl_cons]
    by_cases hf : fails e.1 = true
    · rw [if_pos hf]
      obtain ⟨c', hc', hl⟩ := ih c hnodup
      refine ⟨c', hc', fun k => ?_⟩
      rw [hl k]
      by_cases hk : k = e.1
      · rw [hk, if_pos hf, if_pos hf]
      · rw [List.dlookup_cons_ne _ _ hk]
    · rw [if_neg hf, Option.bind_some]
      obtain ⟨c₁, hc₁, hl₁⟩ := put_lookup c now tenant e.1 e.1 e.2
      obtain ⟨c', hc', hl⟩ := ih c₁ hnodup
      refine ⟨c', by rw [hc₁]; exact hc', fun k => ?_⟩
      obtain ⟨c₂, hc₂, hl₂⟩ := put_lookup c now tenant e.1 k e.2
      rw [hc₁] at hc₂
      obtain rfl := Option.some.inj hc₂
      rw [hl k, hl₂]
      by_cases hk : k = e.1
      · subst hk
        rw [if_neg hf, if_neg hf, if_pos rfl, hnone, List.dlookup_cons_eq]
        rfl
      · rw [if_neg hk, List.dlookup_cons_ne _ _ hk]

theorem mem_onHand_foldl_apply (events : List (StockKey × Movement)) (proj : InventoryProjection) (key : StockKey) :
    key ∈ (events.foldl InventoryProjection.apply proj).onHand ↔ key ∈ proj.onHand ∨ ∃ e ∈ events, e.1 = key := by
  induction events generalizing proj with
  | nil => simp
  | cons e events ih =>
    rw [List.foldl_cons, ih, InventoryProjection.apply, AList.mem_insert, List.exists_mem_cons_iff,
      or_comm (b := _ ∈ _), or_assoc, eq_comm]

/-- The replay has the keys that were moved. -/
theorem replay_lookup {eng : InventoryEngine SHARDS} (h : Balanced eng) :
    ∃ proj, eng.rebuildReadModels = some proj ∧ (∀ key, AssocMap.getD proj key 0 = eng.onHand key) ∧
      ∀ key, proj.lookup key = if eng.movements key = [] then none else some (eng.onHand key) := by
  obtain ⟨proj, hp, hq⟩ := rebuildReadModels_eq h.log
  have honhand : ∀ key, AssocMap.getD proj key 0 = eng.onHand key := fun key => (hq key).trans (h.sum key).symm
  have hmem : ∀ key, key ∈ proj ↔ eng.movements key ≠ [] := by
    intro key
    have hp' := hp
    unfold InventoryEngine.rebuildReadModels at hp'
    rw [readEvents_eq isSome_movement? (typed_allEvents h.log)] at hp'
    obtain rfl := Option.some.inj hp'
    rw [mem_onHand_foldl_apply]
    have hfilter := filter_filterMap_read InventoryEvent.movement? eng.allEvents key
    constructor
    · rintro (hk | ⟨e, he, hk⟩)
      · exact absurd hk (AList.notMem_empty _)
      · intro hnil
        have hme := (List.mem_filter (p := fun x => decide (x.1 = key))).mpr ⟨he, decide_eq_true hk⟩
        rw [hfilter, show (eng.allEvents.filter fun e => e.aggregateId = key).filterMap
          (fun e => e.payload.movement?) = [] from hnil] at hme
        cases hme
    · intro hne
      obtain ⟨m, hm⟩ := List.exists_mem_of_ne_nil _ hne
      have hme : (key, m) ∈ ((eng.allEvents.filter fun e => e.aggregateId = key).filterMap
          fun e => e.payload.movement?).map fun p => (key, p) := List.mem_map_of_mem hm
      rw [← hfilter] at hme
      exact Or.inr ⟨_, (List.mem_filter.mp hme).1, rfl⟩
  refine ⟨proj, hp, honhand, fun key => ?_⟩
  split
  · next hnil => exact AList.lookup_eq_none.mpr fun hk => (hmem key).mp hk hnil
  · next hne =>
    obtain ⟨n, hn⟩ := Option.isSome_iff_exists.mp (AList.lookup_isSome.mpr ((hmem key).mpr hne))
    rw [hn, ← honhand key, AssocMap.getD, hn]
    rfl

/-- What a rebuild leaves in the cache. -/
theorem rebuilt {w : Warehouse SHARDS} (h : FromLog w) (fails : StockKey → Bool) (now : Int) :
    ∃ proj w', w.rebuildReadModels fails now = some (proj, w') ∧
      (∀ key, AssocMap.getD proj key 0 = w.engine.onHand key) ∧
      ∀ later key, w'.cachedOnHand later key =
        if w.cache.isSome ∧ w.engine.movements key ≠ [] ∧ fails key = false then some (w.engine.onHand key)
        else w.cachedOnHand later key := by
  obtain ⟨proj, hp, honhand, hlookup⟩ := replay_lookup h.balanced
  refine ⟨proj, _, by rw [Warehouse.rebuildReadModels, hp]; rfl, honhand, fun later key => ?_⟩
  cases hc : w.cache with
  | none =>
    rw [if_neg (fun hf => nomatch hf.1), cachedOnHand, cachedOnHand, hc]
    have hnone : ∀ entries : List ((_ : StockKey) × Int), entries.foldl (fun cache e =>
        if fails e.1 then cache
        else cache.bind fun c => c.put now w.tenant "inventory" e.1.cacheStr e.2 none)
          (none : Option (Models Int)) = none := by
      intro entries
      induction entries with
      | nil => rfl
      | cons e entries ih =>
        rw [List.foldl_cons, Option.bind_none, ite_self]
        exact ih
    rw [hnone]
  | some c =>
    obtain ⟨c', hc', hl⟩ := foldl_put_lookup w.tenant fails now c proj.nodupKeys
    rw [cachedOnHand, cachedOnHand, hc, hc', Option.bind_some, Option.bind_some, get_fst, get_fst, hl key]
    have hentries : proj.entries.dlookup key = _ := hlookup key
    rw [hentries]
    by_cases hf : fails key = true
    · rw [if_pos hf, if_neg (fun h => Bool.noConfusion (hf.symm.trans h.2.2))]
    · rw [if_neg hf]
      by_cases hm : w.engine.movements key = []
      · rw [if_pos hm, if_neg fun h => h.2.1 hm]
        rfl
      · rw [if_neg hm, if_pos ⟨rfl, hm, Bool.not_eq_true _ ▸ hf⟩]
        rfl

/-- A new engine, with or without a bus and a cache. -/
def new (shardIndex : StockKey → Fin SHARDS) (tenant : TenantId) (reorderPoint : Int) (bus cache : Bool) :
    Warehouse SHARDS where
  engine := .new shardIndex
  tenant := tenant
  reorderPoint := reorderPoint
  bus := if bus then some [] else none
  cache := if cache then some {} else none

theorem fromLog_new (shardIndex : StockKey → Fin SHARDS) (tenant : TenantId) (reorderPoint : Int) (bus cache : Bool) :
    FromLog (new shardIndex tenant reorderPoint bus cache) := by
  refine ⟨balanced_new shardIndex, fun c hc key v hv => ?_, fun jobs hj job hm => ?_, fun jobs hj => ?_⟩
  · cases cache with
    | false => cases hc
    | true =>
      cases hc
      cases hv
  · cases bus with
    | false => cases hj
    | true =>
      cases hj
      cases hm
  · cases bus with
    | false => cases hj
    | true =>
      cases hj
      rfl

/-- What the cache and the bus say of the stock: quantities that the keys had, and jobs for those below the reorder
point, as many as are counted (a publication and its count are one step).  A rebuild that nothing interrupts puts the
quantities on hand in the cache, as far as the cache takes them. -/
structure Announces (w : Warehouse SHARDS) : Prop where
  cached : ∀ now key n, w.cachedOnHand now key = some n → OnLog w.engine key n
  jobs : ∀ jobs, w.bus = some jobs → w.publishedJobs = jobs.length % 2 ^ 64 ∧ ∀ job ∈ jobs,
    job.onHand < w.reorderPoint ∧
      ∃ key : StockKey, job.bin = key.bin.asStr ∧ job.sku = key.sku.asStr ∧ OnLog w.engine key job.onHand
  rebuilt : ∀ fails now, ∃ proj w', w.rebuildReadModels fails now = some (proj, w') ∧
    (∀ key, AssocMap.getD proj key 0 = w.engine.onHand key) ∧
    ∀ later key, w'.cachedOnHand later key =
      if w.cache.isSome ∧ w.engine.movements key ≠ [] ∧ fails key = false then some (w.engine.onHand key)
      else w.cachedOnHand later key

theorem announces_of_fromLog {w : Warehouse SHARDS} (h : FromLog w) : Announces w := by
  refine ⟨fun now key n hn => ?_, fun jobs hj => ⟨h.published jobs hj, h.jobs jobs hj⟩, rebuilt h⟩
  obtain ⟨c, hc, hn⟩ := Option.bind_eq_some_iff.mp hn
  rw [get_fst] at hn
  obtain ⟨v, hv, hn⟩ := Option.bind_eq_some_iff.mp hn
  obtain ⟨hexp, hlog⟩ := h.cached c hc key v hv
  rw [hexp] at hn
  obtain rfl := Option.some.inj hn
  exact hlog

/-- **What is announced was there**, whatever the calls, the failures and the interleaving. -/
theorem announced_from_log (shardIndex : StockKey → Fin SHARDS) (tenant : TenantId) (reorderPoint : Int)
    (bus cache : Bool) (labels : List (Machine.Label (Bool × Int) Op Unit)) :
    LabelledRun.AllStates (announcing SHARDS).step (fun s => Announces s.core)
      { core := new shardIndex tenant reorderPoint bus cache } labels := by
  have hgood : LabelledRun.AllStates (announcing SHARDS).step (Machine.Good FromLog Due)
      { core := new shardIndex tenant reorderPoint bus cache } labels := by
    refine LabelledRun.allStates_of_step _ (fun s a t hs ht => ?_) labels
      (Machine.good_init (fromLog_new shardIndex tenant reorderPoint bus cache))
    refine (announcing SHARDS).good_step (fun c op _ i hi => ?_) (fun c e hc => ?_) hs ht ?_
    · obtain ⟨j, -, rfl⟩ := List.mem_map.mp hi
      exact trivial
    · exact ⟨hc, List.forall_mem_nil _, fun _ => id⟩
    · intro th choice i core more _ _ hd hi
      have hk := keeps_act hs.core hd choice.1 choice.2
      rw [Option.some.inj hi] at hk
      exact hk
  exact hgood.mono _ fun s hs => announces_of_fromLog hs.core

/-! ## When the cache is up to date -/

/-- A call is about to put the quantity of the key into the cache. -/
def Waiting (key : StockKey) (s : Machine.State (Warehouse SHARDS) Duty) : Prop :=
  ∃ prog ∈ s.threads, ∃ n, Duty.cachePut key n ∈ prog

/-- A change of the key's quantity is announced, and not made while an earlier one waits to be cached; and the cache
takes what it is given for the key. -/
def Orderly (key : StockKey) (s : Machine.State (Warehouse SHARDS) Duty) (a : Machine.Label (Bool × Int) Op Unit) :
    Prop :=
  ∀ th choice duty, a = .run th choice → Machine.Next s th duty →
    (∀ i, duty = .section i →
      ¬ (s.core.engine.Unannounced key i ∧
        (exec wrapI64 s.core.engine i).1.onHand key ≠ s.core.engine.onHand key) ∧
      ((∃ n, s.core.engine.written i = some (key, n)) → ¬ Waiting key s)) ∧
    ∀ n, duty = .cachePut key n → choice.1 = true

/-- What waits is what is on hand; when nothing waits, neither is what is cached anything else. -/
structure UpToDate (key : StockKey) (s : Machine.State (Warehouse SHARDS) Duty) : Prop where
  waiting : ∀ prog ∈ s.threads, ∀ n, Duty.cachePut key n ∈ prog → n = s.core.engine.onHand key
  cached : ¬ Waiting key s → ∀ now n, s.core.cachedOnHand now key = some n → n = s.core.engine.onHand key

theorem cachePut_mem_follow {key : StockKey} {n : Int} {i : Instr} {more : List Instr}
    {announced : Option (StockKey × Int)} :
    Duty.cachePut key n ∈ follow i more announced ↔ announced = some (key, n) := by
  have hsections : Duty.cachePut key n ∉ more.map Duty.section := fun hm => by
    obtain ⟨j, -, hj⟩ := List.mem_map.mp hm
    cases hj
  cases announced with
  | none => exact iff_of_false hsections (fun h => nomatch h)
  | some kn =>
    obtain ⟨k, q⟩ := kn
    have hafter : Duty.cachePut key n ∈ afterWrite k q ↔ some (k, q) = some (key, n) := by
      simp [afterWrite, eq_comm]
    simp only [follow]
    split
    · rw [List.mem_append, hafter, or_iff_right hsections]
    · rw [List.mem_append, hafter, or_iff_left hsections]

/-- The duties after a step of one thread: those that it goes on with, and those that were there, without the one
carried out. -/
theorem mem_threads_set {threads : List (List Duty)} {th : Nat} {duty d : Duty} {rest more : List Duty}
    (hth : threads[th]? = some (duty :: rest)) (hne : d ≠ duty) :
    (∃ prog ∈ threads.set th (more ++ rest), d ∈ prog) ↔ d ∈ more ∨ ∃ prog ∈ threads, d ∈ prog := by
  obtain ⟨hlt, hget⟩ := List.getElem?_eq_some_iff.mp hth
  constructor
  · rintro ⟨prog, hp, hd⟩
    rcases List.mem_or_eq_of_mem_set hp with hp | rfl
    · exact Or.inr ⟨prog, hp, hd⟩
    · rcases List.mem_append.mp hd with hd | hd
      · exact Or.inl hd
      · exact Or.inr ⟨_, List.mem_of_getElem? hth, List.mem_cons_of_mem _ hd⟩
  · rintro (hd | ⟨prog, hp, hd⟩)
    · exact ⟨_, List.mem_set hlt _, List.mem_append_left _ hd⟩
    · obtain ⟨j, hj, rfl⟩ := List.mem_iff_getElem.mp hp
      by_cases hjt : j = th
      · subst hjt
        rw [hget] at hd
        rcases List.mem_cons.mp hd with rfl | hd
        · exact absurd rfl hne
        · exact ⟨_, List.mem_set hlt _, List.mem_append_right _ hd⟩
      · refine ⟨threads[j], ?_, hd⟩
        rw [List.mem_iff_getElem?]
        exact ⟨j, by rw [List.getElem?_set_ne (Ne.symm hjt)]; exact List.getElem?_eq_getElem hj⟩

/-- A step that leaves the key's quantity and its cache entry, and has nothing of the key cached. -/
theorem UpToDate.same {key : StockKey} {s t : Machine.State (Warehouse SHARDS) Duty} (h : UpToDate key s)
    (hq : t.core.engine.onHand key = s.core.engine.onHand key)
    (hcached : ∀ now, t.core.cachedOnHand now key = s.core.cachedOnHand now key)
    (hduties : ∀ n, (∃ prog ∈ t.threads, Duty.cachePut key n ∈ prog) ↔ ∃ prog ∈ s.threads, Duty.cachePut key n ∈ prog) :
    UpToDate key t := by
  have hwaiting : Waiting key s → Waiting key t := by
    rintro ⟨prog, hp, n, hn⟩
    obtain ⟨prog', hp', hn'⟩ := (hduties n).mpr ⟨prog, hp, hn⟩
    exact ⟨prog', hp', n, hn'⟩
  refine ⟨fun prog hp n hn => ?_, fun hw now n hn => ?_⟩
  · obtain ⟨prog', hp', hn'⟩ := (hduties n).mp ⟨prog, hp, hn⟩
    rw [hq]
    exact h.waiting prog' hp' n hn'
  · rw [hq]
    rw [hcached now] at hn
    exact h.cached (mt hwaiting hw) now n hn

theorem upToDate_step {key : StockKey} {s t : Machine.State (Warehouse SHARDS) Duty}
    {a : Machine.Label (Bool × Int) Op Unit} (h : UpToDate key s) (hok : Orderly key s a)
    (ht : (announcing SHARDS).step s a = some t) : UpToDate key t := by
  cases (announcing SHARDS).moves_of_step ht with
  | env e => exact h
  | spawn op =>
    refine h.same rfl (fun _ => rfl) fun n => ?_
    have hnew : Duty.cachePut key n ∉ (prog op).map Duty.section := fun hm => by
      obtain ⟨j, -, hj⟩ := List.mem_map.mp hm
      cases hj
    constructor
    · rintro ⟨prog, hp, hn⟩
      rcases List.mem_append.mp hp with hp | hp
      · exact ⟨prog, hp, hn⟩
      · rw [List.mem_singleton.mp hp] at hn
        exact absurd hn hnew
    · rintro ⟨prog, hp, hn⟩
      exact ⟨prog, List.mem_append_left _ hp, hn⟩
  | @run th choice duty rest more core hth hi =>
    obtain ⟨hsection, hput⟩ := hok th choice duty rfl ⟨rest, hth⟩
    have hact : s.core.act choice.1 choice.2 duty = (core, more) := Option.some.inj hi
    cases duty with
    | «section» i =>
      obtain ⟨hannounced, hfirst⟩ := hsection i rfl
      obtain ⟨rfl, rfl⟩ := Prod.mk.inj hact.symm
      rcases s.core.engine.unannounced i key with hw | hsame | ⟨hno, hun⟩
      · -- nothing of the key waits, so what waits now is what was written
        have hnone := hfirst ⟨_, hw⟩
        refine ⟨fun prog hp n hn => ?_, fun hwait => ?_⟩
        · rcases (mem_threads_set hth (by simp)).mp ⟨prog, hp, hn⟩ with hn | ⟨prog', hp', hn'⟩
          · rw [cachePut_mem_follow, hw] at hn
            exact (Prod.mk.inj (Option.some.inj hn)).2.symm
          · exact absurd ⟨prog', hp', n, hn'⟩ hnone
        · have hmem : Duty.cachePut key ((exec wrapI64 s.core.engine i).1.onHand key) ∈
              follow i (exec wrapI64 s.core.engine i).2 (s.core.engine.written i) := cachePut_mem_follow.mpr hw
          obtain ⟨prog, hp, hn⟩ := (mem_threads_set hth (by simp)).mpr (Or.inl hmem)
          exact absurd ⟨prog, hp, _, hn⟩ hwait
      · refine h.same hsame.1 (fun _ => rfl) fun n => (mem_threads_set hth (by simp)).trans ?_
        rw [cachePut_mem_follow, or_iff_right (hsame.2 n)]
      · refine h.same (not_not.mp fun hne => hannounced ⟨hun, hne⟩) (fun _ => rfl) fun n =>
          (mem_threads_set hth (by simp)).trans ?_
        rw [cachePut_mem_follow, hno, or_iff_right (fun hn => nomatch hn)]
    | publish k n =>
      have hcore : core.engine = s.core.engine ∧ core.cache = s.core.cache ∧ core.tenant = s.core.tenant ∧
          more = [] := by
        simp only [act] at hact
        split at hact
        · obtain ⟨rfl, rfl⟩ := Prod.mk.inj hact
          exact ⟨rfl, rfl, rfl, rfl⟩
        · split at hact
          · obtain ⟨rfl, rfl⟩ := Prod.mk.inj hact
            exact ⟨rfl, rfl, rfl, rfl⟩
          · obtain ⟨rfl, rfl⟩ := Prod.mk.inj hact
            exact ⟨rfl, rfl, rfl, rfl⟩
      obtain ⟨hengine, hcache, htenant, rfl⟩ := hcore
      refine h.same (by rw [hengine]) (fun now => ?_) fun m => (mem_threads_set hth (by simp)).trans ?_
      · rw [cachedOnHand, cachedOnHand, hcache, htenant]
      · exact or_iff_right (fun hm => nomatch hm)
    | cachePut k n =>
      have hcore : core.engine = s.core.engine ∧ more = [] := by
        simp only [act] at hact
        split at hact
        · obtain ⟨rfl, rfl⟩ := Prod.mk.inj hact
          exact ⟨rfl, rfl⟩
        · obtain ⟨rfl, rfl⟩ := Prod.mk.inj hact
          exact ⟨rfl, rfl⟩
      obtain ⟨hengine, rfl⟩ := hcore
      by_cases hk : k = key
      · subst hk
        have hn := h.waiting _ (List.mem_of_getElem? hth) n List.mem_cons_self
        have htrue := hput n rfl
        refine ⟨fun prog hp m hm => ?_, fun _ now m hm => ?_⟩
        · rw [hengine]
          by_cases hmn : m = n
          · rw [hmn, hn]
          · obtain ⟨prog', hp', hm'⟩ :=
              ((mem_threads_set hth (by simp [hmn])).mp ⟨prog, hp, hm⟩).resolve_left (fun hm => nomatch hm)
            exact h.waiting prog' hp' m hm'
        · have hc := cachedOnHand_put s.core choice.2 now k k n
          rw [← htrue, hact, if_pos rfl] at hc
          rw [hc] at hm
          obtain ⟨-, -, rfl⟩ := Option.map_eq_some_iff.mp hm
          rw [hengine]
          exact hn
      · refine h.same (by rw [hengine]) (fun now => ?_) fun m => (mem_threads_set hth ?_).trans ?_
        · cases hc1 : choice.1 with
          | true =>
            have hc := cachedOnHand_put s.core choice.2 now k key n
            rw [← hc1, hact, if_neg (Ne.symm hk)] at hc
            exact hc
          | false =>
            rw [hc1] at hact
            obtain ⟨rfl, -⟩ := Prod.mk.inj hact
            rfl
        · exact fun he => hk (Duty.cachePut.inj he).1.symm
        · exact or_iff_right (fun hm => nomatch hm)

/-- **The cache is up to date** for a key whose changes are orderly: when none of them waits to be cached, what is
cached of the key is what is on hand. -/
theorem cached_up_to_date (shardIndex : StockKey → Fin SHARDS) (tenant : TenantId) (reorderPoint : Int)
    (bus cache : Bool) (key : StockKey) {labels : List (Machine.Label (Bool × Int) Op Unit)}
    (h : LabelledRun.AllSteps (announcing SHARDS).step (Orderly key)
      { core := new shardIndex tenant reorderPoint bus cache } labels) :
    LabelledRun.AllStates (announcing SHARDS).step (UpToDate key)
      { core := new shardIndex tenant reorderPoint bus cache } labels := by
  refine LabelledRun.allStates_of_allSteps _ (fun s a t hs hok ht => upToDate_step hs hok ht) ?_ h
  refine ⟨fun _ hp => (nomatch hp), fun _ now n hn => ?_⟩
  cases cache with
  | false => cases hn
  | true => cases hn

/-! ## Checking a run -/

/-- `Unannounced`, computed. -/
def isUnannounced (eng : InventoryEngine SHARDS) (key : StockKey) : Instr → Bool
  | .pick k qty asOf => k == key && (pickSection wrapI64 eng key qty asOf).1.toOption.isNone
  | .moveLine _ location _ (line :: _) => key == ⟨location, line.sku⟩
  | _ => false

theorem isUnannounced_iff (eng : InventoryEngine SHARDS) (key : StockKey) (i : Instr) :
    isUnannounced eng key i = true ↔ eng.Unannounced key i := by
  constructor
  · intro h
    cases i with
    | pick k qty asOf =>
      obtain ⟨hk, hfails⟩ := Bool.and_eq_true_iff.mp h
      obtain rfl := eq_of_beq hk
      exact .pick qty asOf (Option.isNone_iff_eq_none.mp hfails)
    | moveLine lpn location toBin todo =>
      cases todo with
      | nil => cases h
      | cons line todo => exact .moveLine (eq_of_beq h)
    | _ => cases h
  · intro h
    cases h with
    | pick qty asOf hfails =>
      exact Bool.and_eq_true_iff.mpr ⟨beq_self_eq_true key, Option.isNone_iff_eq_none.mpr hfails⟩
    | moveLine hsource => exact beq_iff_eq.mpr hsource

/-- The duty puts the quantity of the key into the cache. -/
def caches (key : StockKey) : Duty → Bool
  | .cachePut k _ => k == key
  | _ => false

theorem caches_iff {key : StockKey} {duty : Duty} : caches key duty = true ↔ ∃ n, duty = .cachePut key n := by
  constructor
  · intro h
    cases duty with
    | cachePut k n => exact ⟨n, by rw [eq_of_beq h]⟩
    | _ => cases h
  · rintro ⟨n, rfl⟩
    exact beq_self_eq_true key

instance (key : StockKey) (s : Machine.State (Warehouse SHARDS) Duty) : Decidable (Waiting key s) :=
  decidable_of_iff (∃ prog ∈ s.threads, ∃ duty ∈ prog, caches key duty = true) <| by
    refine exists_congr fun prog => and_congr_right fun _ => ?_
    constructor
    · rintro ⟨duty, hd, hc⟩
      obtain ⟨n, rfl⟩ := caches_iff.mp hc
      exact ⟨n, hd⟩
    · rintro ⟨n, hd⟩
      exact ⟨_, hd, caches_iff.mpr ⟨n, rfl⟩⟩

/-- What `Orderly` asks of the duty that a call carries out. -/
def isOrderly (key : StockKey) (s : Machine.State (Warehouse SHARDS) Duty) (ok : Bool) : Duty → Bool
  | .section i =>
    (!isUnannounced s.core.engine key i || (exec wrapI64 s.core.engine i).1.onHand key == s.core.engine.onHand key) &&
      (!decide (Waiting key s) || (s.core.engine.written i).map Prod.fst != some key)
  | .cachePut k _ => ok || k != key
  | .publish _ _ => true

theorem isOrderly_iff {key : StockKey} {s : Machine.State (Warehouse SHARDS) Duty} {ok : Bool} {duty : Duty} :
    isOrderly key s ok duty = true ↔
      (∀ i, duty = .section i →
        ¬ (s.core.engine.Unannounced key i ∧
          (exec wrapI64 s.core.engine i).1.onHand key ≠ s.core.engine.onHand key) ∧
        ((∃ n, s.core.engine.written i = some (key, n)) → ¬ Waiting key s)) ∧
      ∀ n, duty = .cachePut key n → ok = true := by
  cases duty with
  | «section» i =>
    have hwritten : (s.core.engine.written i).map Prod.fst = some key ↔
        ∃ n, s.core.engine.written i = some (key, n) := by
      rw [Option.map_eq_some_iff]
      constructor
      · rintro ⟨⟨k, n⟩, hn, rfl⟩
        exact ⟨n, hn⟩
      · rintro ⟨n, hn⟩
        exact ⟨(key, n), hn, rfl⟩
    simp only [isOrderly, Bool.and_eq_true, Bool.or_eq_true, Bool.not_eq_true', ← Bool.not_eq_true, isUnannounced_iff,
      beq_iff_eq, decide_eq_true_eq, bne_iff_ne, hwritten, ne_eq]
    constructor
    · rintro ⟨hsame, hfirst⟩
      refine ⟨fun j hj => ?_, fun n hn => nomatch hn⟩
      cases hj
      exact ⟨fun h => h.2 (hsame.resolve_left (not_not_intro h.1)),
        fun hw hwait => hfirst.elim (fun h => h hwait) (fun h => h hw)⟩
    · rintro ⟨h, -⟩
      obtain ⟨hsame, hfirst⟩ := h i rfl
      exact ⟨or_iff_not_imp_left.mpr fun hun => not_not.mp fun hne => hsame ⟨not_not.mp hun, hne⟩,
        or_iff_not_imp_left.mpr fun hwait hw => hfirst hw (not_not.mp hwait)⟩
  | cachePut k n =>
    simp only [isOrderly, Bool.or_eq_true, bne_iff_ne]
    constructor
    · intro h
      refine ⟨fun i hi => (nomatch hi), fun m hm => ?_⟩
      cases hm
      exact h.resolve_right (not_not_intro rfl)
    · rintro ⟨-, h⟩
      by_cases hk : k = key
      · exact Or.inl (h n (by rw [hk]))
      · exact Or.inr hk
  | publish k n => exact iff_of_true rfl ⟨fun i hi => (nomatch hi), fun m hm => (nomatch hm)⟩

instance (key : StockKey) (s : Machine.State (Warehouse SHARDS) Duty) (a : Machine.Label (Bool × Int) Op Unit) :
    Decidable (Orderly key s a) :=
  match a with
  | .spawn _ => isTrue fun _ _ _ ha => nomatch ha
  | .env _ => isTrue fun _ _ _ ha => nomatch ha
  | .run th choice =>
    decidable_of_iff (∀ duty ∈ s.threads[th]?.bind List.head?, isOrderly key s choice.1 duty = true) <| by
      simp only [isOrderly_iff, Option.mem_def, Option.bind_eq_some_iff]
      constructor
      · rintro h th' choice' duty ha ⟨rest, hn⟩
        cases ha
        exact h duty ⟨_, hn, rfl⟩
      · rintro h duty ⟨prog, hn, hd⟩
        obtain ⟨rest, rfl⟩ := List.head?_eq_some_iff.mp hd
        exact h th choice duty rfl ⟨rest, hn⟩

/-- Ten units are received and four of them picked, while a call on another key is under way, whose quantity the cache
does not take. -/
def receivedAndPicked : List (Machine.Label (Bool × Int) Op Unit) :=
  [.spawn (.apply ⟨⟨0⟩, ⟨0⟩⟩ (.received 10)), .run 0 (true, 0), .run 0 (true, 0),
    .spawn (.apply ⟨⟨0⟩, ⟨1⟩⟩ (.received 5)), .run 1 (true, 1), .run 0 (true, 1),
    .spawn (.apply ⟨⟨0⟩, ⟨0⟩⟩ (.picked 4)), .run 1 (false, 2), .run 2 (true, 2), .run 2 (false, 2),
    .run 1 (false, 3), .run 2 (true, 3)]

theorem up_to_date_twice :
    LabelledRun.AllStates (announcing 64).step (UpToDate ⟨⟨0⟩, ⟨0⟩⟩)
        { core := new (fun key => mod64 key.sku.uuid) ⟨1⟩ 20 true true } receivedAndPicked ∧
      (LabelledRun.exec (announcing 64).step { core := new (fun key => mod64 key.sku.uuid) ⟨1⟩ 20 true true }
        receivedAndPicked).map (fun s => (s.core.cachedOnHand 4 ⟨⟨0⟩, ⟨0⟩⟩, s.core.cachedOnHand 4 ⟨⟨0⟩, ⟨1⟩⟩)) =
          some (some 6, none) :=
  ⟨cached_up_to_date _ _ _ _ _ _ (by decide +kernel), by decide +kernel⟩

end Warehouse

end TptErp.Wms
