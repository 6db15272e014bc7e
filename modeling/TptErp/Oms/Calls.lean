import TptErp.Oms.Reservation
import TptErp.Lib.Threads

/-!
# The engine's calls

Each call of the reservation engine as the instructions between which other calls can run: one
instruction for each section under a shard's lock, each reading of the clock, each access of the
expiry index or the cache.  `instr` is one instruction; its choice stands for the order a hash map
is iterated in.  Client calls may name any hold; a new id is the next one never used before.

The cache keeps an entry exactly until its deadline.  The caching of the on-hand counts and the
messages on the bus are left out: nothing reads them back.
-/

namespace TptErp.Oms

variable {SHARDS : Nat}

/-- The engine, the clock and the ids used so far. -/
structure Core (SHARDS : Nat) where
  engine : ReservationEngine SHARDS
  now : Int
  nextId : Nat := 0

inductive Instr (SHARDS : Nat)
  | receive (sku : SkuId) (qty : I64)
  | returnStock (sku : SkuId) (qty : I64)
  /-- A sweep collects its candidates, shard by shard. -/
  | scan (shards : List (Fin SHARDS)) (found : List (SkuId × HoldId))
  /-- It looks whether the next candidate is expired. -/
  | check (candidates : List (SkuId × HoldId))
  /-- It releases a candidate that was found expired at `checkedAt`. -/
  | sweepRelease (sku : SkuId) (hold : HoldId) (checkedAt : Int)
  | countReleased
  /-- `reserve` computes the expiry time. -/
  | stampReserve (sku : SkuId) (qty ttl : Nat)
  | reserve (sku : SkuId) (qty : Nat) (expires : Int) (ttl : Nat)
  /-- `reserve_or_backorder` computes the expiry time. -/
  | stampReservable (sku : SkuId) (qty ttl : Nat)
  /-- It looks how much it can reserve, in one section. -/
  | reservable (sku : SkuId) (qty : Nat) (expires : Int) (ttl : Nat)
  /-- It inserts a hold of that much, in another; `short` is what it will backorder. -/
  | hold (sku : SkuId) (qty short : Nat) (expires : Int) (ttl : Nat)
  | backorder (sku : SkuId) (qty : Nat)
  | indexInsert (hold : HoldId) (expires : Int)
  | cachePut (hold : HoldId) (ttl : Nat)
  /-- `fulfill_backorders` goes through the shards. -/
  | shardKeys (shards : List (Fin SHARDS))
  /-- It picks a backorder of the SKU that the pool covers, in one section. -/
  | pick (sku : SkuId)
  | stampFill (sku : SkuId) (bo : HoldId) (qty : Nat)
  /-- It turns the backorder into a hold, in another. -/
  | fill (sku : SkuId) (bo : HoldId) (qty : Nat) (expires : Int)
  | confirm (sku : SkuId) (hold : HoldId)
  | release (sku : SkuId) (hold : HoldId)
  | indexRemove (hold : HoldId)
  | cacheInvalidate (hold : HoldId)

/-- What iterating a hash map gives first. -/
inductive Choice
  | only
  | candidates (order : List (SkuId × HoldId))
  | skus (order : List SkuId)
  | backorder (bo : Option HoldId)

/-- The public calls. -/
inductive Op
  | receive (sku : SkuId) (qty : I64)
  | returnStock (sku : SkuId) (qty : I64)
  | reserve (sku : SkuId) (qty ttl : Nat)
  | reserveOrBackorder (sku : SkuId) (qty ttl : Nat)
  | fulfillBackorders
  | confirm (sku : SkuId) (hold : HoldId)
  | release (sku : SkuId) (hold : HoldId)
  | sweepExpired

/-- A hundred years. -/
def hundredYears : Int := 36500 * 86400 * 10 ^ 9

/-- `Duration::from_std(ttl)`, or a hundred years when it is out of range. -/
def chronoTtl (ttl : Nat) : Int := if ttl ≤ (2 ^ 63 - 1) * 10 ^ 6 then ttl else hundredYears

theorem chronoTtl_le (ttl : Nat) : chronoTtl ttl ≤ ttl := by
  unfold chronoTtl hundredYears
  split <;> omega

/-- The start of `sweep_expired`. -/
def sweep : Instr SHARDS := .scan (List.finRange SHARDS) []

/-- The end of a release: `release_cache_and_index`. -/
def dropIndexes (hold : HoldId) : List (Instr SHARDS) := [.indexRemove hold, .cacheInvalidate hold]

def prog : Op → List (Instr SHARDS)
  | .receive sku qty => [.receive sku qty]
  | .returnStock sku qty => [.returnStock sku qty]
  | .reserve sku qty ttl => [sweep, .stampReserve sku qty ttl]
  | .reserveOrBackorder sku qty ttl => [sweep, .stampReservable sku qty ttl]
  | .fulfillBackorders => [.shardKeys (List.finRange SHARDS)]
  | .confirm sku hold => [.confirm sku hold]
  | .release sku hold => [.release sku hold]
  | .sweepExpired => [sweep]

namespace Core

variable (c : Core SHARDS)

/-- The next new id. -/
def newId : HoldId := ⟨c.nextId⟩

def withEngine (engine : ReservationEngine SHARDS) : Core SHARDS := { c with engine }

/-- The engine after a section that used up the new id. -/
def withNewId (engine : ReservationEngine SHARDS) : Core SHARDS :=
  { c with engine, nextId := c.nextId + 1 }

def stateOf (sku : SkuId) : SkuState := c.engine.stateOf sku

def tick (d : Nat) : Core SHARDS := { c with now := c.now + d }

end Core

/-- The SKUs of a shard. -/
def skusOf (eng : ReservationEngine SHARDS) (i : Fin SHARDS) : List SkuId := (eng.shards i).states.keys

/-- No backorder of the SKU is covered by the pool. -/
def NoneSatisfiable (st : SkuState) : Prop := ∀ e ∈ st.backorders.entries, ¬ (e.2 : Int) ≤ st.available

instance (st : SkuState) : Decidable (NoneSatisfiable st) := inferInstanceAs (Decidable (∀ e ∈ _, _))

/-- One instruction of a call. -/
def instr (c : Core SHARDS) : Instr SHARDS → Choice → Option (Core SHARDS × List (Instr SHARDS))
  | .receive sku qty, _ => some (c.withEngine (c.engine.receive sku qty.1), [])
  | .returnStock sku qty, _ => some (c.withEngine (c.engine.returnStock sku qty.1), [])
  | .scan (i :: shards) found, .candidates order =>
    if order.Perm (c.engine.candidates i) then some (c, [.scan shards (found ++ order)]) else none
  | .scan [] found, _ => some (c, [.check found])
  | .check [], _ => some (c, [])
  | .check ((sku, hold) :: rest), _ =>
    if c.engine.isExpired c.now hold then some (c, [.sweepRelease sku hold c.now, .check rest])
    else some (c, [.check rest])
  | .sweepRelease sku hold _, _ =>
    match c.engine.release sku hold with
    | .ok engine => some (c.withEngine engine, dropIndexes hold ++ [.countReleased])
    | .error _ => some (c, [])
  | .countReleased, _ => some (c.withEngine c.engine.countReleased, [])
  | .stampReserve sku qty ttl, _ => some (c, [.reserve sku qty (c.now + chronoTtl ttl) ttl])
  | .reserve sku qty expires ttl, _ =>
    match c.engine.reserve sku c.newId qty expires with
    | .ok engine => some (c.withNewId engine, [.indexInsert c.newId expires, .cachePut c.newId ttl])
    | .error _ => some (c.withEngine (c.engine.touch sku), [])
  | .stampReservable sku qty ttl, _ => some (c, [.reservable sku qty (c.now + chronoTtl ttl) ttl])
  | .reservable sku qty expires ttl, _ =>
    let reserved := c.engine.reservable sku qty
    some (c.withEngine (c.engine.touch sku),
      if 0 < reserved then [.hold sku reserved (qty - reserved) expires ttl]
      else if reserved < qty then [.backorder sku (qty - reserved)] else [])
  | .hold sku qty short expires ttl, _ =>
    some (c.withNewId (c.engine.insertHold sku c.newId qty expires),
      (if 0 < short then [.backorder sku short] else []) ++
        [.indexInsert c.newId expires, .cachePut c.newId ttl])
  | .backorder sku qty, _ => some (c.withNewId (c.engine.placeBackorder sku c.newId qty), [])
  | .indexInsert hold expires, _ => some (c.withEngine (c.engine.indexInsert hold expires), [])
  | .cachePut hold ttl, _ => some (c.withEngine (c.engine.cachePut hold (c.now + ttl)), [])
  | .shardKeys (i :: shards), .skus order =>
    if order.Perm (skusOf c.engine i) then some (c, order.map .pick ++ [.shardKeys shards]) else none
  | .shardKeys [], _ => some (c, [])
  | .pick sku, .backorder (some bo) =>
    match (c.stateOf sku).backorders.lookup bo with
    | some qty =>
      if (qty : Int) ≤ (c.stateOf sku).available then some (c, [.stampFill sku bo qty, .pick sku])
      else none
    | none => none
  | .pick sku, .backorder none => if NoneSatisfiable (c.stateOf sku) then some (c, []) else none
  | .stampFill sku bo qty, _ => some (c, [.fill sku bo qty (c.now + hundredYears)])
  | .fill sku bo qty expires, _ => some (c.withNewId (c.engine.fill sku bo c.newId qty expires), [])
  | .confirm sku hold, _ =>
    match c.engine.confirm sku hold with
    | .ok engine => some (c.withEngine engine, dropIndexes hold)
    | .error _ => some (c, [])
  | .release sku hold, _ =>
    match c.engine.release sku hold with
    | .ok engine => some (c.withEngine engine, dropIndexes hold)
    | .error _ => some (c, [])
  | .indexRemove hold, _ => some (c.withEngine (c.engine.indexRemove hold), [])
  | .cacheInvalidate hold, _ => some (c.withEngine (c.engine.cacheInvalidate hold), [])
  | _, _ => none

/-- The calls of one engine, interleaved; the environment moves the clock forward. -/
def calls (SHARDS : Nat) : Machine (Core SHARDS) (Instr SHARDS) Choice Op Nat :=
  { prog := prog, instr := instr, env := Core.tick }

/-! ## What an instruction does to the SKUs -/

/-- Instruction `i` appends event `ev` to SKU `sku` and leaves the SKU in state `st`. -/
inductive Change (c : Core SHARDS) : Instr SHARDS → SkuId → ReserveEvent → SkuState → Prop
  | receive (sku : SkuId) (qty : I64) :
      Change c (.receive sku qty) sku (.received qty) ((c.stateOf sku).addStock qty)
  | returnStock (sku : SkuId) (qty : I64) :
      Change c (.returnStock sku qty) sku (.ret qty) ((c.stateOf sku).addStock qty)
  | reserve (sku : SkuId) (qty : Nat) (expires : Int) (ttl : Nat)
      (covered : (qty : Int) ≤ (c.stateOf sku).available) :
      Change c (.reserve sku qty expires ttl) sku (.hold c.newId qty)
        ((c.stateOf sku).insertHold c.newId qty expires)
  | hold (sku : SkuId) (qty short : Nat) (expires : Int) (ttl : Nat) :
      Change c (.hold sku qty short expires ttl) sku (.hold c.newId qty)
        ((c.stateOf sku).insertHold c.newId qty expires)
  | backorder (sku : SkuId) (qty : Nat) :
      Change c (.backorder sku qty) sku (.backorderPlaced c.newId qty)
        ((c.stateOf sku).placeBackorder c.newId qty)
  | fill (sku : SkuId) (bo : HoldId) (qty : Nat) (expires : Int) :
      Change c (.fill sku bo qty expires) sku (.backorderFilled c.newId qty)
        ((c.stateOf sku).fill bo c.newId qty expires)
  | confirm (sku : SkuId) (hold : HoldId) (qty : Nat)
      (held : (c.stateOf sku).holds.lookup hold = some qty) :
      Change c (.confirm sku hold) sku (.capture hold) ((c.stateOf sku).capture hold qty)
  | release (sku : SkuId) (hold : HoldId) (qty : Nat)
      (held : (c.stateOf sku).holds.lookup hold = some qty) :
      Change c (.release sku hold) sku (.release hold) ((c.stateOf sku).dropHold hold)
  | sweepRelease (sku : SkuId) (hold : HoldId) (checkedAt : Int) (qty : Nat)
      (held : (c.stateOf sku).holds.lookup hold = some qty) :
      Change c (.sweepRelease sku hold checkedAt) sku (.release hold) ((c.stateOf sku).dropHold hold)

/-- How many new ids an event uses up. -/
def idsUsed : ReserveEvent → Nat
  | .hold .. | .backorderPlaced .. | .backorderFilled .. => 1
  | _ => 0

/-- The SKUs' states and the logs are the same. -/
structure Same (eng eng' : ReservationEngine SHARDS) : Prop where
  shardIndex : eng'.shardIndex = eng.shardIndex
  stateOf : ∀ sku, eng'.stateOf sku = eng.stateOf sku
  store : ∀ i, (eng'.shards i).store = (eng.shards i).store
  states : ∀ i sku, sku ∈ (eng'.shards i).states → sku ∈ (eng.shards i).states ∨ eng.shardIndex sku = i

theorem same_refl (eng : ReservationEngine SHARDS) : Same eng eng :=
  ⟨rfl, fun _ => rfl, fun _ => rfl, fun _ _ => Or.inl⟩

theorem same_touch (eng : ReservationEngine SHARDS) (sku : SkuId) : Same eng (eng.touch sku) := by
  refine ⟨rfl, fun k => eng.stateOf_touch sku k, fun i => ?_, fun i k hk => ?_⟩
  · simp only [ReservationEngine.touch, ReservationEngine.setShard, Function.update_apply]
    split
    · next h => rw [h]
    · rfl
  · simp only [ReservationEngine.touch, ReservationEngine.setShard, Function.update_apply] at hk
    split at hk
    · next h =>
      subst h
      rcases (AList.mem_insert _).mp hk with rfl | hk
      · exact Or.inr rfl
      · exact Or.inl hk
    · exact Or.inl hk

theorem reserve_ok_iff (eng eng' : ReservationEngine SHARDS) (sku : SkuId) (hold : HoldId) (qty : Nat)
    (expires : Int) :
    eng.reserve sku hold qty expires = .ok eng' ↔
      (qty : Int) ≤ (eng.stateOf sku).available ∧
        eng' = eng.record sku "hold" (.hold hold qty) ((eng.stateOf sku).insertHold hold qty expires) := by
  simp only [ReservationEngine.reserve]
  split
  · next h => simp [h]
  · next h => simp [not_lt.mp h, eq_comm]

theorem confirm_ok_iff (eng eng' : ReservationEngine SHARDS) (sku : SkuId) (hold : HoldId) :
    eng.confirm sku hold = .ok eng' ↔
      ∃ qty, (eng.stateOf sku).holds.lookup hold = some qty ∧
        eng' = eng.record sku "capture" (.capture hold) ((eng.stateOf sku).capture hold qty) := by
  unfold ReservationEngine.confirm
  split
  · next qty h => simp [h, eq_comm]
  · next h => simp [h]

theorem release_ok_iff (eng eng' : ReservationEngine SHARDS) (sku : SkuId) (hold : HoldId) :
    eng.release sku hold = .ok eng' ↔
      ∃ qty, (eng.stateOf sku).holds.lookup hold = some qty ∧
        eng' = eng.record sku "release" (.release hold) ((eng.stateOf sku).dropHold hold) := by
  unfold ReservationEngine.release
  split
  · next qty h => simp [h, eq_comm]
  · next h => simp [h]

/-! ## One instruction -/

/-- What a call goes on with after an instruction that changed a SKU. -/
def handsOn (c : Core SHARDS) : Instr SHARDS → List (Instr SHARDS)
  | .reserve _ _ expires ttl => [.indexInsert c.newId expires, .cachePut c.newId ttl]
  | .hold sku _ short expires ttl =>
    (if 0 < short then [.backorder sku short] else []) ++ [.indexInsert c.newId expires, .cachePut c.newId ttl]
  | .confirm _ hold | .release _ hold => dropIndexes hold
  | .sweepRelease _ hold _ => dropIndexes hold ++ [.countReleased]
  | _ => []

/-- The hold that an instruction takes out, if it is there. -/
def named : Instr SHARDS → Option (SkuId × HoldId)
  | .confirm sku hold | .release sku hold | .sweepRelease sku hold _ => some (sku, hold)
  | _ => none

/-- **What an instruction can do**, with the instructions that the call goes on with. -/
inductive Does (c : Core SHARDS) : Instr SHARDS → Core SHARDS → List (Instr SHARDS) → Prop
  | changed {i : Instr SHARDS} {sku : SkuId} {ev : ReserveEvent} {st : SkuState} (kind : String)
      (change : Change c i sku ev st) :
      Does c i { c with engine := c.engine.record sku kind ev st, nextId := c.nextId + idsUsed ev } (handsOn c i)
  | refused (sku : SkuId) (qty : Nat) (expires : Int) (ttl : Nat) (short : (c.stateOf sku).available < qty) :
      Does c (.reserve sku qty expires ttl) (c.withEngine (c.engine.touch sku)) []
  | unknown {i : Instr SHARDS} (sku : SkuId) (hold : HoldId) (named : named i = some (sku, hold))
      (none : (c.stateOf sku).holds.lookup hold = none) : Does c i c []
  | scan (i : Fin SHARDS) (shards : List (Fin SHARDS)) (found order : List (SkuId × HoldId))
      (perm : order.Perm (c.engine.candidates i)) :
      Does c (.scan (i :: shards) found) c [.scan shards (found ++ order)]
  | scanned (found : List (SkuId × HoldId)) : Does c (.scan [] found) c [.check found]
  | checked : Does c (.check []) c []
  | expired (sku : SkuId) (hold : HoldId) (rest : List (SkuId × HoldId))
      (expired : c.engine.isExpired c.now hold = true) :
      Does c (.check ((sku, hold) :: rest)) c [.sweepRelease sku hold c.now, .check rest]
  | notExpired (sku : SkuId) (hold : HoldId) (rest : List (SkuId × HoldId))
      (running : ¬ c.engine.isExpired c.now hold = true) : Does c (.check ((sku, hold) :: rest)) c [.check rest]
  | countReleased : Does c .countReleased (c.withEngine c.engine.countReleased) []
  | stampReserve (sku : SkuId) (qty ttl : Nat) :
      Does c (.stampReserve sku qty ttl) c [.reserve sku qty (c.now + chronoTtl ttl) ttl]
  | stampReservable (sku : SkuId) (qty ttl : Nat) :
      Does c (.stampReservable sku qty ttl) c [.reservable sku qty (c.now + chronoTtl ttl) ttl]
  | reservable (sku : SkuId) (qty : Nat) (expires : Int) (ttl : Nat) :
      Does c (.reservable sku qty expires ttl) (c.withEngine (c.engine.touch sku))
        (if 0 < c.engine.reservable sku qty then
          [.hold sku (c.engine.reservable sku qty) (qty - c.engine.reservable sku qty) expires ttl]
        else if c.engine.reservable sku qty < qty then [.backorder sku (qty - c.engine.reservable sku qty)] else [])
  | indexInsert (hold : HoldId) (expires : Int) :
      Does c (.indexInsert hold expires) (c.withEngine (c.engine.indexInsert hold expires)) []
  | cachePut (hold : HoldId) (ttl : Nat) :
      Does c (.cachePut hold ttl) (c.withEngine (c.engine.cachePut hold (c.now + ttl))) []
  | shardKeys (i : Fin SHARDS) (shards : List (Fin SHARDS)) (order : List SkuId)
      (perm : order.Perm (skusOf c.engine i)) :
      Does c (.shardKeys (i :: shards)) c (order.map .pick ++ [.shardKeys shards])
  | noShards : Does c (.shardKeys []) c []
  | pick (sku : SkuId) (bo : HoldId) (qty : Nat) (waits : (c.stateOf sku).backorders.lookup bo = some qty)
      (covered : (qty : Int) ≤ (c.stateOf sku).available) : Does c (.pick sku) c [.stampFill sku bo qty, .pick sku]
  | picked (sku : SkuId) (none : NoneSatisfiable (c.stateOf sku)) : Does c (.pick sku) c []
  | stampFill (sku : SkuId) (bo : HoldId) (qty : Nat) :
      Does c (.stampFill sku bo qty) c [.fill sku bo qty (c.now + hundredYears)]
  | indexRemove (hold : HoldId) : Does c (.indexRemove hold) (c.withEngine (c.engine.indexRemove hold)) []
  | cacheInvalidate (hold : HoldId) :
      Does c (.cacheInvalidate hold) (c.withEngine (c.engine.cacheInvalidate hold)) []

theorem not_confirm_iff (eng : ReservationEngine SHARDS) (sku : SkuId) (hold : HoldId) :
    (∃ e, eng.confirm sku hold = .error e) ↔ (eng.stateOf sku).holds.lookup hold = none := by
  unfold ReservationEngine.confirm
  split
  · next qty h => simp [h]
  · next h => simp [h]

theorem not_release_iff (eng : ReservationEngine SHARDS) (sku : SkuId) (hold : HoldId) :
    (∃ e, eng.release sku hold = .error e) ↔ (eng.stateOf sku).holds.lookup hold = none := by
  unfold ReservationEngine.release
  split
  · next qty h => simp [h]
  · next h => simp [h]

theorem does_instr {c c' : Core SHARDS} {i : Instr SHARDS} {k : Choice} {more : List (Instr SHARDS)}
    (h : instr c i k = some (c', more)) : Does c i c' more := by
  cases i with
  | receive sku qty =>
    cases h
    exact .changed "received" (.receive sku qty)
  | returnStock sku qty =>
    cases h
    exact .changed "return" (.returnStock sku qty)
  | hold sku qty short expires ttl =>
    cases h
    exact .changed "hold" (.hold sku qty short expires ttl)
  | backorder sku qty =>
    cases h
    exact .changed "backorder_placed" (.backorder sku qty)
  | fill sku bo qty expires =>
    cases h
    exact .changed "backorder_filled" (.fill sku bo qty expires)
  | reserve sku qty expires ttl =>
    simp only [instr] at h
    split at h
    · next engine hok =>
      cases h
      obtain ⟨hcov, rfl⟩ := (reserve_ok_iff ..).mp hok
      exact .changed "hold" (.reserve sku qty expires ttl hcov)
    · next err herr =>
      cases h
      apply Does.refused
      by_contra hcov
      rw [(reserve_ok_iff c.engine _ sku c.newId qty expires).mpr ⟨not_lt.mp hcov, rfl⟩] at herr
      cases herr
  | confirm sku hold =>
    simp only [instr] at h
    split at h
    · next engine hok =>
      cases h
      obtain ⟨qty, hheld, rfl⟩ := (confirm_ok_iff ..).mp hok
      exact .changed "capture" (.confirm sku hold qty hheld)
    · next err herr =>
      cases h
      exact .unknown sku hold rfl ((not_confirm_iff c.engine sku hold).mp ⟨err, herr⟩)
  | release sku hold =>
    simp only [instr] at h
    split at h
    · next engine hok =>
      cases h
      obtain ⟨qty, hheld, rfl⟩ := (release_ok_iff ..).mp hok
      exact .changed "release" (.release sku hold qty hheld)
    · next err herr =>
      cases h
      exact .unknown sku hold rfl ((not_release_iff c.engine sku hold).mp ⟨err, herr⟩)
  | sweepRelease sku hold checkedAt =>
    simp only [instr] at h
    split at h
    · next engine hok =>
      cases h
      obtain ⟨qty, hheld, rfl⟩ := (release_ok_iff ..).mp hok
      exact .changed "release" (.sweepRelease sku hold checkedAt qty hheld)
    · next err herr =>
      cases h
      exact .unknown sku hold rfl ((not_release_iff c.engine sku hold).mp ⟨err, herr⟩)
  | scan shards found =>
    cases shards with
    | nil =>
      simp only [instr] at h
      cases h
      exact .scanned found
    | cons s shards =>
      cases k with
      | candidates order =>
        simp only [instr] at h
        split at h
        · next hperm =>
          cases h
          exact .scan s shards found order hperm
        · cases h
      | only | skus | backorder => cases h
  | check candidates =>
    cases candidates with
    | nil =>
      simp only [instr] at h
      cases h
      exact .checked
    | cons x rest =>
      simp only [instr] at h
      split at h
      · next hexp =>
        cases h
        exact .expired x.1 x.2 rest hexp
      · next hrun =>
        cases h
        exact .notExpired x.1 x.2 rest hrun
  | shardKeys shards =>
    cases shards with
    | nil =>
      simp only [instr] at h
      cases h
      exact .noShards
    | cons s shards =>
      cases k with
      | skus order =>
        simp only [instr] at h
        split at h
        · next hperm =>
          cases h
          exact .shardKeys s shards order hperm
        · cases h
      | only | candidates | backorder => cases h
  | pick sku =>
    cases k with
    | backorder bo =>
      cases bo with
      | none =>
        simp only [instr] at h
        split at h
        · next hnone =>
          cases h
          exact .picked sku hnone
        · cases h
      | some bo =>
        simp only [instr] at h
        split at h
        · next qty hbo =>
          split at h
          · next hcov =>
            cases h
            exact .pick sku bo qty hbo hcov
          · cases h
        · cases h
    | only | candidates | skus => cases h
  | reservable sku qty expires ttl =>
    cases h
    exact .reservable sku qty expires ttl
  | countReleased =>
    cases h
    exact .countReleased
  | indexInsert hold expires =>
    cases h
    exact .indexInsert hold expires
  | cachePut hold ttl =>
    cases h
    exact .cachePut hold ttl
  | indexRemove hold =>
    cases h
    exact .indexRemove hold
  | cacheInvalidate hold =>
    cases h
    exact .cacheInvalidate hold
  | stampReserve sku qty ttl =>
    cases h
    exact .stampReserve sku qty ttl
  | stampReservable sku qty ttl =>
    cases h
    exact .stampReservable sku qty ttl
  | stampFill sku bo qty =>
    cases h
    exact .stampFill sku bo qty

/-- **An instruction changes at most one SKU**, in one of the ways of `Change`. -/
theorem instr_change {c c' : Core SHARDS} {i : Instr SHARDS} {k : Choice} {more : List (Instr SHARDS)}
    (h : instr c i k = some (c', more)) :
    (Same c.engine c'.engine ∧ c'.nextId = c.nextId ∧ ∀ sku ev st, ¬ Change c i sku ev st) ∨
      ∃ sku kind ev st, Change c i sku ev st ∧ c'.engine = c.engine.record sku kind ev st ∧
        c'.nextId = c.nextId + idsUsed ev := by
  cases does_instr h with
  | changed kind change => exact Or.inr ⟨_, kind, _, _, change, rfl, rfl⟩
  | refused sku qty expires ttl short =>
    refine Or.inl ⟨same_touch c.engine sku, rfl, ?_⟩
    intro k ev st hc
    cases hc with
    | reserve _ _ _ _ covered => omega
  | unknown sku hold named none =>
    refine Or.inl ⟨same_refl c.engine, rfl, ?_⟩
    intro k ev st hc
    have hheld : ∀ qty, (c.stateOf sku).holds.lookup hold ≠ some qty := by
      intro qty hq
      rw [none] at hq
      cases hq
    cases hc with
    | confirm _ _ qty held | release _ _ qty held | sweepRelease _ _ _ qty held =>
      cases named
      exact hheld qty held
    | _ => cases named
  | reservable sku qty expires ttl => exact Or.inl ⟨same_touch c.engine sku, rfl, fun _ _ _ hc => nomatch hc⟩
  | _ => exact Or.inl ⟨⟨rfl, fun _ => rfl, fun _ => rfl, fun _ _ => Or.inl⟩, rfl, fun _ _ _ hc => nomatch hc⟩

/-! ## Ids that were never used -/

/-- The id is in none of the SKU's maps. -/
structure SkuState.Lacks (st : SkuState) (id : HoldId) : Prop where
  holds : st.holds.lookup id = none
  expiresAt : st.expiresAt.lookup id = none
  backorders : st.backorders.lookup id = none

/-- Ids not yet used occur nowhere. -/
def IdsFresh (c : Core SHARDS) : Prop :=
  ∀ sku (id : HoldId), c.nextId ≤ id.uuid → (c.stateOf sku).Lacks id

theorem SkuState.Lacks.dropHold {st : SkuState} {id : HoldId} (h : st.Lacks id) (hold : HoldId) :
    (st.dropHold hold).Lacks id := by
  refine ⟨?_, ?_, h.backorders⟩
  · show (st.holds.erase hold).lookup id = none
    rw [AssocMap.lookup_erase_eq, h.holds, ite_self]
  · show (st.expiresAt.erase hold).lookup id = none
    rw [AssocMap.lookup_erase_eq, h.expiresAt, ite_self]

theorem SkuState.Lacks.insertHold {st : SkuState} {id hold : HoldId} (h : st.Lacks id) (hne : id ≠ hold)
    (qty : Nat) (expires : Int) : (st.insertHold hold qty expires).Lacks id := by
  refine ⟨?_, ?_, h.backorders⟩
  · show (st.holds.insert hold qty).lookup id = none
    rw [AssocMap.lookup_insert_eq, if_neg hne, h.holds]
  · show (st.expiresAt.insert hold expires).lookup id = none
    rw [AssocMap.lookup_insert_eq, if_neg hne, h.expiresAt]

/-- A change brings in no id but the new one. -/
theorem Change.lacks {c : Core SHARDS} {i : Instr SHARDS} {sku : SkuId} {ev : ReserveEvent} {st : SkuState}
    (hc : Change c i sku ev st) {id : HoldId} (h : (c.stateOf sku).Lacks id)
    (hid : c.nextId + idsUsed ev ≤ id.uuid) : st.Lacks id := by
  have hne : 1 ≤ idsUsed ev → id ≠ c.newId := by
    rintro h1 rfl
    have : c.newId.uuid = c.nextId := rfl
    omega
  cases hc with
  | receive => exact ⟨h.holds, h.expiresAt, h.backorders⟩
  | returnStock => exact ⟨h.holds, h.expiresAt, h.backorders⟩
  | reserve => exact h.insertHold (hne le_rfl) _ _
  | hold => exact h.insertHold (hne le_rfl) _ _
  | backorder sku qty =>
    refine ⟨h.holds, h.expiresAt, ?_⟩
    show ((c.stateOf sku).backorders.insert c.newId qty).lookup id = none
    rw [AssocMap.lookup_insert_eq, if_neg (hne le_rfl), h.backorders]
  | fill sku bo qty expires =>
    have hb : ({ c.stateOf sku with backorders := (c.stateOf sku).backorders.erase bo } : SkuState).Lacks id := by
      refine ⟨h.holds, h.expiresAt, ?_⟩
      show ((c.stateOf sku).backorders.erase bo).lookup id = none
      rw [AssocMap.lookup_erase_eq, h.backorders, ite_self]
    exact hb.insertHold (hne le_rfl) _ _
  | confirm sku hold qty =>
    have hd := h.dropHold hold
    exact ⟨hd.holds, hd.expiresAt, hd.backorders⟩
  | release sku hold => exact h.dropHold hold
  | sweepRelease sku hold => exact h.dropHold hold

theorem idsFresh_instr {c c' : Core SHARDS} {i : Instr SHARDS} {k : Choice} {more : List (Instr SHARDS)}
    (h : IdsFresh c) (hi : instr c i k = some (c', more)) : IdsFresh c' := by
  intro sku id hid
  rcases instr_change hi with ⟨hs, hn, -⟩ | ⟨sku', kind, ev, st, hc, he, hn⟩
  · have := h sku id (by omega)
    rwa [Core.stateOf, ← hs.stateOf sku] at this
  · rw [Core.stateOf, he, ReservationEngine.stateOf_record]
    split
    · exact hc.lacks (h sku' id (by omega)) (by omega)
    · exact h sku id (by omega)

theorem lacks_newId {c : Core SHARDS} (h : IdsFresh c) (sku : SkuId) : (c.stateOf sku).Lacks c.newId :=
  h sku c.newId le_rfl

/-- A new engine. -/
def initCore (shardIndex : SkuId → Fin SHARDS) (withCache : Bool) (now : Int) : Core SHARDS :=
  { engine := .new shardIndex withCache, now }

/-- The 64 shards of the engine, picked by the id modulo 64. -/
def modShard (sku : SkuId) : Fin 64 := mod64 sku.uuid

/-- Call `th` sweeps an engine that has no holds. -/
def emptySweep (th : Nat) : List (Machine.Label Choice Op Nat) :=
  List.replicate 64 (.run th (.candidates [])) ++ [.run th .only, .run th .only]

theorem idsFresh_init (shardIndex : SkuId → Fin SHARDS) (withCache : Bool) (now : Int) :
    IdsFresh (initCore shardIndex withCache now) :=
  fun _ _ _ => ⟨rfl, rfl, rfl⟩

end TptErp.Oms
