import TptErp.Cache.RedisSessions

/-!
# The two session stores

`RedisSessionStore` against `InMemoryCache`, one call after another on a clock that does not go back.  Redis counts the
time to live in whole seconds, and each `touch` rounds it down again:

    what Redis returns is in memory; what is in memory with a second left, Redis returns     (redis_within_second)

In the last second the session may be gone from Redis, or be there without its last `touch`.
-/

namespace TptErp.Cache

open Tenant

/-! ## Calls that run alone -/

/-- Clocks that agree. -/
def Moment.clock (now : Int) : Moment := { server := now, client := now }

namespace RedisSessions

variable {D : Type} (server : RedisServer) (s : RedisSessions D)

/-- The commands that a call goes on with. -/
def finish (now : Int) (is : List (Instr D)) : RedisSessions D :=
  is.foldl (fun s i => ((s.instr server (.clock now) i).map Prod.fst).getD s) s

/-- A call from its first command to its last. -/
def call (c : Call D) : Option (RedisSessions D) :=
  (prog c.op).head?.bind fun i =>
    (s.instr server (.clock c.time) i).map fun r => r.1.finish server c.time r.2

end RedisSessions

/-- The commands that end a call or are followed by such. -/
def Instr.last {D : Type} : Instr D → Bool
  | .index .. | .drop _ | .rewrite .. | .unindex .. | .remove _ | .revoke .. | .dropIndex _ => true
  | _ => false

section
variable {D : Type} {server : RedisServer} {s s' : RedisSessions D} {m : Moment}

theorem instr_last {i : Instr D} (h : i.last = true) : ∃ s', s.instr server m i = some (s', []) := by
  cases i <;> first | exact ⟨_, rfl⟩ | cases h

theorem last_more {i : Instr D} {more : List (Instr D)} (hstep : s.instr server m i = some (s', more)) :
    ∀ j ∈ more, j.last = true := by
  intro j hj
  cases i with
  | store newId tenant data ttl =>
    simp only [RedisSessions.instr] at hstep
    split at hstep
    · cases hstep
    · split at hstep
      · cases hstep
        cases hj
      · cases hstep
        split at hj
        · rw [List.mem_singleton.mp hj]
          rfl
        · cases hj
  | read id =>
    cases hstep
    split at hj
    · split at hj
      · rw [List.mem_singleton.mp hj]
        rfl
      · cases hj
    · cases hj
  | readToTouch id =>
    cases hstep
    split at hj
    · rw [List.mem_singleton.mp hj]
      rfl
    · cases hj
  | readToDelete id =>
    cases hstep
    split at hj
    · rcases List.mem_cons.mp hj with rfl | hj
      · rfl
      · rw [List.mem_singleton.mp hj]
        rfl
    · rw [List.mem_singleton.mp hj]
      rfl
    · cases hj
  | readMembers tenant =>
    cases hstep
    split at hj
    · rcases List.mem_append.mp hj with hj | hj
      · obtain ⟨id, -, rfl⟩ := List.mem_map.mp hj
        rfl
      · rw [List.mem_singleton.mp hj]
        rfl
    · cases hj
  | _ =>
    cases hstep
    cases hj

theorem runsAlone_finish (now : Int) {is : List (Instr D)} (h : ∀ i ∈ is, i.last = true) :
    (redisCalls D server).RunsAlone s is (s.finish server now is) := by
  induction is generalizing s with
  | nil => exact Machine.runsAlone_nil _ s
  | cons i is ih =>
    obtain ⟨hi, h⟩ := List.forall_mem_cons.mp h
    obtain ⟨s₁, hs₁⟩ : ∃ s₁, s.instr server (.clock now) i = some (s₁, []) := instr_last hi
    have hfinish : s.finish server now (i :: is) = s₁.finish server now is := by
      unfold RedisSessions.finish
      rw [List.foldl_cons, hs₁]
      rfl
    rw [hfinish]
    exact Machine.runsAlone_cons _ (.clock now) s₁ [] hs₁ (ih h)

/-- Such a call is one of the interleaved ones, when it runs alone. -/
theorem runsAlone_call {c : Call D} (h : s.call server c = some s') :
    (redisCalls D server).RunsAlone s (prog c.op) s' := by
  obtain ⟨i, hi, h⟩ := Option.bind_eq_some_iff.mp h
  obtain ⟨⟨s₁, more⟩, hstep, rfl⟩ := Option.map_eq_some_iff.mp h
  have hprog : prog c.op = [i] := by
    obtain ⟨time, op⟩ := c
    cases op <;> cases hi <;> rfl
  rw [hprog]
  refine Machine.runsAlone_cons _ (.clock c.time) s₁ more hstep ?_
  rw [List.append_nil]
  exact runsAlone_finish c.time (last_more hstep)

end

/-! ## Commands that go through -/

/-- The ids under a tenant. -/
def RedisSessions.index {D : Type} (s : RedisSessions D) (tenant : TenantId) : List String :=
  match s.db.lookup (tenantSetKey tenant) with
  | some (.ids ids, _) => ids
  | _ => []

section
variable {D : Type} {server : RedisServer} {s : RedisSessions D} {now : Int} {tenant tenant' : TenantId}
  {id k : String}

theorem send_clock (server : RedisServer) (now : Int) (db : Keyspace D) (c : Command D) :
    server.send (.clock now) db c = server.serve now db c := rfl

/-- A set is always alive. -/
theorem Typed.live_set (h : Typed s) (now : Int) (tenant : TenantId) :
    s.db.live now (tenantSetKey tenant) = s.db.lookup (tenantSetKey tenant) := by
  unfold Keyspace.live
  cases hl : s.db.lookup (tenantSetKey tenant) with
  | none => rfl
  | some v =>
    obtain ⟨v, exp⟩ := v
    cases v with
    | session x =>
      obtain ⟨hkey, hknown⟩ := h.session _ _ _ hl
      obtain ⟨y, hy, hid, -⟩ := hknown.ownedBy
      exact absurd hkey.symm (sessKey_ne_tenantSetKey (hid ▸ h.uuid y hy) tenant)
    | ids ids =>
      obtain ⟨rfl, -⟩ := h.ids _ _ _ hl
      rfl

/-- What a set holds. -/
theorem Typed.set_cases (h : Typed s) (tenant : TenantId) :
    (s.db.lookup (tenantSetKey tenant) = none ∧ s.index tenant = []) ∨
      s.db.lookup (tenantSetKey tenant) = some (.ids (s.index tenant), none) := by
  unfold RedisSessions.index
  cases hl : s.db.lookup (tenantSetKey tenant) with
  | none => exact Or.inl ⟨rfl, rfl⟩
  | some v =>
    obtain ⟨v, exp⟩ := v
    cases v with
    | session x =>
      obtain ⟨hkey, hknown⟩ := h.session _ _ _ hl
      obtain ⟨y, hy, hid, -⟩ := hknown.ownedBy
      exact absurd hkey.symm (sessKey_ne_tenantSetKey (hid ▸ h.uuid y hy) tenant)
    | ids ids =>
      obtain ⟨rfl, -⟩ := h.ids _ _ _ hl
      exact Or.inr rfl

theorem Typed.ownedBy_index (h : Typed s) (hid : id ∈ s.index tenant) : OwnedBy s.created tenant id := by
  rcases h.set_cases tenant with ⟨-, hnone⟩ | hl
  · rw [hnone] at hid
    cases hid
  · obtain ⟨-, tenant', hkey, hall⟩ := h.ids _ _ _ hl
    rw [tenantSetKey_injective hkey]
    exact hall id hid

theorem index_congr {t : RedisSessions D} (h : s.db.lookup (tenantSetKey tenant) = t.db.lookup (tenantSetKey tenant)) :
    s.index tenant = t.index tenant := by
  unfold RedisSessions.index
  rw [h]

/-- A set that is written. -/
theorem index_insert_set (ids : List String) :
    { s with db := s.db.insert (tenantSetKey tenant) (.ids ids, none) }.index tenant' =
      if tenant' = tenant then ids else s.index tenant' := by
  unfold RedisSessions.index
  dsimp only
  rw [AssocMap.lookup_insert_eq]
  by_cases ht : tenant' = tenant
  · rw [if_pos ht, if_pos (congrArg tenantSetKey ht)]
  · rw [if_neg ht, if_neg (fun he => ht (tenantSetKey_injective he))]

theorem Typed.index_sadd (h : Typed s) :
    id ∈ (s.send server (.clock now) (.sadd (tenantSetKey tenant) k)).index tenant' ↔
      id ∈ s.index tenant' ∨ tenant' = tenant ∧ id = k := by
  unfold RedisSessions.send
  simp only [send_clock, RedisServer.serve, h.live_set]
  rcases h.set_cases tenant with ⟨hl, hnone⟩ | hl
  · rw [hl]
    simp only [index_insert_set]
    split
    · next ht => simp [ht, hnone]
    · next ht => simp [ht]
  · rw [hl]
    simp only [index_insert_set]
    split
    · next ht =>
      subst ht
      by_cases hk : id = k <;> simp [hk]
    · next ht => simp [ht]

theorem Typed.index_srem (h : Typed s) :
    id ∈ (s.send server (.clock now) (.srem (tenantSetKey tenant) k)).index tenant' ↔
      id ∈ s.index tenant' ∧ ¬ (tenant' = tenant ∧ id = k) := by
  unfold RedisSessions.send
  simp only [send_clock, RedisServer.serve, h.live_set]
  rcases h.set_cases tenant with ⟨hl, hnone⟩ | hl
  · rw [hl]
    have hsame : { s with db := s.db }.index tenant' = s.index tenant' := rfl
    dsimp only
    rw [hsame]
    by_cases ht : tenant' = tenant
    · simp [ht, hnone]
    · simp [ht]
  · rw [hl]
    simp only [index_insert_set]
    split
    · next ht =>
      subst ht
      by_cases hk : id = k <;> simp [hk]
    · next ht => simp [ht]

/-- A command for a set leaves the sessions as they are. -/
theorem Typed.lookup_sadd (h : Typed s) (hk : ':' ∉ k.toList) :
    (s.send server (.clock now) (.sadd (tenantSetKey tenant) id)).db.lookup (sessKey k) =
      s.db.lookup (sessKey k) := by
  unfold RedisSessions.send
  simp only [send_clock, RedisServer.serve, h.live_set]
  rcases h.set_cases tenant with ⟨hl, -⟩ | hl <;> rw [hl] <;> dsimp only <;>
    rw [AssocMap.lookup_insert_eq, if_neg (sessKey_ne_tenantSetKey hk tenant)]

theorem Typed.lookup_srem (h : Typed s) (hk : ':' ∉ k.toList) :
    (s.send server (.clock now) (.srem (tenantSetKey tenant) id)).db.lookup (sessKey k) =
      s.db.lookup (sessKey k) := by
  unfold RedisSessions.send
  simp only [send_clock, RedisServer.serve, h.live_set]
  rcases h.set_cases tenant with ⟨hl, -⟩ | hl
  · rw [hl]
  · rw [hl]
    dsimp only
    rw [AssocMap.lookup_insert_eq, if_neg (sessKey_ne_tenantSetKey hk tenant)]

theorem lookup_del (key : String) :
    (s.send server (.clock now) (.del key)).db.lookup k = if k = key then none else s.db.lookup k :=
  AssocMap.lookup_erase_eq s.db key k

theorem index_del_sess (hid : ':' ∉ id.toList) :
    (s.send server (.clock now) (.del (sessKey id))).index tenant = s.index tenant := by
  unfold RedisSessions.index
  rw [lookup_del, if_neg (sessKey_ne_tenantSetKey hid tenant).symm]

theorem index_del_set :
    (s.send server (.clock now) (.del (tenantSetKey tenant))).index tenant' =
      if tenant' = tenant then [] else s.index tenant' := by
  unfold RedisSessions.index
  rw [lookup_del]
  by_cases ht : tenant' = tenant
  · rw [if_pos ht, if_pos (congrArg tenantSetKey ht)]
  · rw [if_neg ht, if_neg (fun he => ht (tenantSetKey_injective he))]

/-- A session that the server takes. -/
theorem send_set {x : Session D} {secs : Option Nat} (h : ∀ n, secs = some n → server.acceptsTtl now n = true) :
    server.send (.clock now) s.db (.set (sessKey id) x secs) =
      (.ok .ok, s.db.insert (sessKey id) (.session x, secs.map fun n : Nat => now + n * 10 ^ 9)) := by
  cases secs with
  | none => rfl
  | some n =>
    rw [send_clock]
    simp only [RedisServer.serve, h n rfl]
    rfl

theorem index_insert_sess (v : RedisValue D × Option Int) (hid : ':' ∉ id.toList) :
    { s with db := s.db.insert (sessKey id) v }.index tenant = s.index tenant := by
  unfold RedisSessions.index
  dsimp only
  rw [AssocMap.lookup_insert_eq, if_neg (sessKey_ne_tenantSetKey hid tenant).symm]

/-- A `get` that goes through. -/
theorem fetch_clock (server : RedisServer) (s : RedisSessions D) (now : Int) (id : String) :
    s.fetch server (.clock now) id =
      match s.db.live now (sessKey id) with
      | some (.session x, _) => .ok (some x)
      | some (.ids _, _) => .error .backend
      | none => .ok none := by
  unfold RedisSessions.fetch
  simp only [send_clock, RedisServer.serve]
  cases hl : s.db.live now (sessKey id) with
  | none => rfl
  | some v =>
    obtain ⟨v, exp⟩ := v
    cases v <;> rfl

end

/-! ## Side by side -/

/-- Both stores. -/
structure Stores (D : Type) where
  memory : Store D := {}
  redis : RedisSessions D := {}

/-- A call to both. -/
def Stores.step {D : Type} (server : RedisServer) (s : Stores D) (c : Call D) : Option (Stores D) :=
  (s.memory.step c).bind fun memory => (s.redis.call server c).map fun redis => { memory, redis }

/-- A time to live of a second at least, and of at most `longest` seconds. -/
def Call.Storable {D : Type} (longest : Nat) (c : Call D) : Prop :=
  match c.op with
  | .create _ _ _ (some d) => 10 ^ 9 ≤ d ∧ d ≤ MAX_DURATION ∧ asSecs d ≤ longest
  | _ => True

/-- A session that does not expire within the second. -/
def Early {D : Type} (now : Int) (y : Session D) : Prop := ∀ exp, y.expiresAt = some exp → now + 10 ^ 9 ≤ exp

/-- What Redis returns is in memory, but for the last touch; what is in memory and does not expire within the second,
Redis returns. -/
structure WithinSecond {D : Type} (now : Int) (redis memory : Option (Session D)) : Prop where
  held : ∀ x, redis = some x → ∃ y, memory = some y ∧ x = { y with lastSeen := x.lastSeen }
  kept : ∀ y, memory = some y → Early now y → redis = some y

/-- The expiry of a session against that of its key. -/
def Lasts (longest : Nat) (now : Int) (exp e : Option Int) : Prop :=
  (exp = none ∧ e = none) ∨ ∃ a b, exp = some a ∧ e = some b ∧ b ≤ a ∧ a < b + 10 ^ 9 ∧ secsUntil now a ≤ longest

/-- What is in memory under an id, and what its key holds. -/
structure Near {D : Type} (longest : Nat) (now : Int) (y : Option (Session D))
    (v : Option (RedisValue D × Option Int)) : Prop where
  held : ∀ x e, v = some (.session x, e) →
    Lasts longest now x.expiresAt e ∧ ∃ y', y = some y' ∧ x = { y' with lastSeen := x.lastSeen }
  kept : ∀ y', y = some y' → Early now y' → ∃ e, v = some (.session y', e)

structure Close {D : Type} (longest : Nat) (s : Stores D) (now : Int) : Prop where
  sound : Sound s.memory
  typed : Typed s.redis
  uuid : ∀ id ∈ s.memory.used, ':' ∉ id.toList
  near : ∀ id, ':' ∉ id.toList →
    Near longest now (s.memory.inner.sessions.lookup id) (s.redis.db.live now (sessKey id))
  indexed : ∀ tenant id, id ∈ s.memory.inner.index tenant → id ∈ s.redis.index tenant

section
variable {D : Type} {server : RedisServer} {longest : Nat} {now now' : Int}

theorem secsUntil_le (h : now ≤ now') (exp : Int) : secsUntil now' exp ≤ secsUntil now exp := by
  unfold secsUntil
  split
  · rw [if_pos (by omega)]
    exact Nat.div_le_div_right (by omega)
  · exact Nat.zero_le _

/-- The seconds that are left, rounded down. -/
theorem secsUntil_spec {exp : Int} (h : now ≤ exp) :
    now + secsUntil now exp * 10 ^ 9 ≤ exp ∧ exp < now + secsUntil now exp * 10 ^ 9 + 10 ^ 9 := by
  unfold secsUntil asSecs
  rw [if_pos h]
  have hdiv := Nat.div_add_mod (exp - now).toNat (10 ^ 9)
  have hmod := Nat.mod_lt (exp - now).toNat (show 0 < 10 ^ 9 by decide)
  omega

theorem Lasts.later {exp e : Option Int} (h : Lasts longest now exp e) (hle : now ≤ now') :
    Lasts longest now' exp e := by
  rcases h with h | ⟨a, b, ha, hb, h1, h2, h3⟩
  · exact Or.inl h
  · exact Or.inr ⟨a, b, ha, hb, h1, h2, (secsUntil_le hle a).trans h3⟩

/-- What is there later is there now. -/
theorem Keyspace.live_of_later {db : Keyspace D} {key : String} {v : RedisValue D} {e : Option Int} (hle : now ≤ now')
    (h : db.live now' key = some (v, e)) : db.live now key = some (v, e) := by
  unfold Keyspace.live at h ⊢
  rw [Option.filter_eq_some_iff] at h ⊢
  refine ⟨h.1, ?_⟩
  cases e with
  | none => rfl
  | some b =>
    have hlt : now' < b := of_decide_eq_true h.2
    exact decide_eq_true (by omega)

/-- What is there now is there later, unless it expires. -/
theorem Keyspace.live_later {db : Keyspace D} {key : String} {v : RedisValue D} {e : Option Int}
    (h : db.live now key = some (v, e)) (he : ∀ b, e = some b → now' < b) : db.live now' key = some (v, e) := by
  unfold Keyspace.live at h ⊢
  rw [Option.filter_eq_some_iff] at h ⊢
  refine ⟨h.1, ?_⟩
  cases e with
  | none => rfl
  | some b => exact decide_eq_true (he b rfl)

theorem Near.later {y : Option (Session D)} {db : Keyspace D} {key : String} (h : Near longest now y (db.live now key))
    (hle : now ≤ now') : Near longest now' y (db.live now' key) where
  held x e hv := by
    obtain ⟨hlasts, hy⟩ := h.held x e (Keyspace.live_of_later hle hv)
    exact ⟨hlasts.later hle, hy⟩
  kept y' hy hearly := by
    obtain ⟨e, hv⟩ := h.kept y' hy fun exp hexp => by
      have := hearly exp hexp
      omega
    obtain ⟨hlasts, -⟩ := h.held y' e hv
    refine ⟨e, Keyspace.live_later hv fun b hb => ?_⟩
    rcases hlasts with ⟨-, hnone⟩ | ⟨a, b', ha, hb', -, h2, -⟩
    · rw [hnone] at hb
      cases hb
    · rw [hb] at hb'
      cases hb'
      have := hearly a ha
      omega

theorem Close.later {s : Stores D} (h : Close longest s now) (hle : now ≤ now') : Close longest s now' where
  sound := h.sound
  typed := h.typed
  uuid := h.uuid
  near id hid := (h.near id hid).later hle
  indexed := h.indexed

/-- Nothing that is alive has expired. -/
theorem Near.not_expired {y : Option (Session D)} {db : Keyspace D} {key : String} {x : Session D} {e : Option Int}
    (h : Near longest now y (db.live now key)) (hv : db.live now key = some (.session x, e)) :
    x.isExpired now = false := by
  obtain ⟨hlasts, -⟩ := h.held x e hv
  unfold Session.isExpired
  rcases hlasts with ⟨hnone, -⟩ | ⟨a, b, ha, rfl, h1, -, -⟩
  · rw [hnone]
  · have hlive : now < b := of_decide_eq_true (Option.filter_eq_some_iff.mp hv).2
    rw [ha]
    exact decide_eq_false (by omega)

/-- No session at a key, and none in memory that does not expire within the second. -/
theorem near_none {y : Option (Session D)} {v : Option (RedisValue D × Option Int)}
    (hv : ∀ x e, v ≠ some (.session x, e)) (hy : ∀ y', y = some y' → ¬ Early now y') : Near longest now y v where
  held x e h := absurd h (hv x e)
  kept y' h hearly := absurd hearly (hy y' h)

theorem Keyspace.live_congr {db db' : Keyspace D} {key : String} (h : db.lookup key = db'.lookup key) (now : Int) :
    db.live now key = db'.live now key := by
  unfold Keyspace.live
  rw [h]

end

/-! ## Call by call -/

section
variable {D : Type} {server : RedisServer} {longest : Nat} {now : Int} {s s' : RedisSessions D} {id : String}

theorem call_create {newId : String} {tenant : TenantId} {data : D} {ttl : Option Nat}
    (haccepts : ∀ n, ttl.map asSecs = some n → server.acceptsTtl now n = true)
    (h : s.call server { time := now, op := .create newId tenant data ttl } = some s') :
    (newId ∉ s.created.map (·.id) ∧ ':' ∉ newId.toList) ∧
      ((expiry now ttl = none ∧ s' = s) ∨ ∃ expiresAt, expiry now ttl = some expiresAt ∧
        s' = RedisSessions.send server
          { db := s.db.insert (sessKey newId)
              (.session { id := newId, tenant, data, createdAt := now, expiresAt, lastSeen := now },
                (ttl.map asSecs).map fun n : Nat => now + n * 10 ^ 9)
            created := { id := newId, tenant, data, createdAt := now, expiresAt, lastSeen := now } :: s.created }
          (.clock now) (.sadd (tenantSetKey tenant) newId)) := by
  obtain ⟨i, hi, h⟩ := Option.bind_eq_some_iff.mp h
  cases hi
  obtain ⟨⟨s₁, more⟩, hstep, rfl⟩ := Option.map_eq_some_iff.mp h
  simp only [RedisSessions.instr] at hstep
  split at hstep
  · cases hstep
  · next hnew =>
    push Not at hnew
    refine ⟨hnew, ?_⟩
    split at hstep
    · next hexp =>
      cases hstep
      exact Or.inl ⟨hexp, rfl⟩
    · next expiresAt hexp =>
      have hexp' : expiry now ttl = some expiresAt := hexp
      refine Or.inr ⟨expiresAt, hexp', ?_⟩
      have hsend : server.send (.clock now) s.db (.set (sessKey newId)
          { id := newId, tenant, data, createdAt := now, expiresAt, lastSeen := now } (ttl.map asSecs)) = _ :=
        send_set haccepts
      have hclock : (Moment.clock now).client = now := rfl
      rw [hclock, hsend] at hstep
      cases hstep
      simp only [RedisSessions.send, hsend]
      rfl

theorem call_get (h : s.call server { time := now, op := .get id } = some s') :
    s' = match s.fetch server (.clock now) id with
      | .ok (some x) => if x.isExpired now then s.send server (.clock now) (.del (sessKey id)) else s
      | _ => s := by
  have hclock : (Moment.clock now).client = now := rfl
  cases h
  simp only [hclock]
  rcases s.fetch server (.clock now) id with e | (_ | x)
  · rfl
  · rfl
  · by_cases hexp : x.isExpired now <;> simp only [hexp] <;> rfl

theorem call_touch (h : s.call server { time := now, op := .touch id } = some s') :
    s' = match s.fetch server (.clock now) id with
      | .ok (some x) => s.rewrite server (.clock now) id (x.touched now)
      | _ => s := by
  cases h
  simp only
  rcases s.fetch server (.clock now) id with e | (_ | x) <;> rfl

theorem call_delete (h : s.call server { time := now, op := .delete id } = some s') :
    s' = match s.fetch server (.clock now) id with
      | .ok (some x) =>
        (s.send server (.clock now) (.srem (tenantSetKey x.tenant) id)).send server (.clock now) (.del (sessKey id))
      | .ok none => s.send server (.clock now) (.del (sessKey id))
      | .error _ => s := by
  cases h
  simp only
  rcases s.fetch server (.clock now) id with e | (_ | x) <;> rfl

/-- The keys of the members are deleted. -/
theorem lookup_revokes (tenant : TenantId) (ids : List String) (k : String) :
    (s.finish server now (ids.map (.revoke tenant))).db.lookup k =
      if k ∈ ids.map sessKey then none else s.db.lookup k := by
  induction ids generalizing s with
  | nil => rfl
  | cons id ids ih =>
    have hfinish : s.finish server now ((id :: ids).map (.revoke tenant)) =
        (s.send server (.clock now) (.del (sessKey id))).finish server now (ids.map (.revoke tenant)) := rfl
    rw [hfinish, ih, lookup_del]
    simp only [List.map_cons, List.mem_cons]
    by_cases hmem : k ∈ ids.map sessKey
    · rw [if_pos hmem, if_pos (Or.inr hmem)]
    · by_cases hk : k = sessKey id
      · rw [if_neg hmem, if_pos hk, if_pos (Or.inl hk)]
      · rw [if_neg hmem, if_neg hk, if_neg (not_or.mpr ⟨hk, hmem⟩)]

theorem call_deleteForTenant {tenant : TenantId} (hs : Typed s)
    (h : s.call server { time := now, op := .deleteForTenant tenant } = some s') :
    s' = (s.finish server now ((s.index tenant).map (.revoke tenant))).send server (.clock now)
      (.del (tenantSetKey tenant)) := by
  have hmembers : server.send (.clock now) s.db (.smembers (tenantSetKey tenant)) =
      (.ok (.members (s.index tenant)), s.db) := by
    rw [send_clock]
    simp only [RedisServer.serve, Keyspace.members, hs.live_set]
    rcases hs.set_cases tenant with ⟨hl, hnone⟩ | hl
    · rw [hl, hnone]
    · rw [hl]
  cases h
  simp only [hmembers]
  unfold RedisSessions.finish
  rw [List.foldl_append]
  rfl

theorem typed_call {c : Call D} (hs : Typed s) (h : s.call server c = some s') : Typed s' := by
  obtain ⟨choices, hexec⟩ := runsAlone_call h
  have hstart : TypedState ({ core := s, threads := [prog c.op] } : Machine.State (RedisSessions D) (Instr D)) := by
    refine ⟨hs, fun p hp i hi => ?_⟩
    rw [List.mem_singleton.mp hp] at hi
    obtain ⟨time, op⟩ := c
    cases op <;> rw [List.mem_singleton.mp hi] <;> trivial
  have hend := (LabelledRun.allStates_of_step (redisCalls D server).step (fun _ _ _ h ht => typed_step h ht)
    (choices.map (.run 0)) hstart).last _ hexec
  exact hend.core

end

/-! ## What a call keeps -/

/-- The near parts of `Close`: each id, and the sets. -/
structure Together {D : Type} (longest : Nat) (memory : Inner D) (redis : RedisSessions D) (now : Int) : Prop where
  near : ∀ id, ':' ∉ id.toList → Near longest now (memory.sessions.lookup id) (redis.db.live now (sessKey id))
  indexed : ∀ tenant id, id ∈ memory.index tenant → id ∈ redis.index tenant

section
variable {D : Type} {server : RedisServer} {longest : Nat} {now : Int} {memory memory' : Inner D}
  {s s' : RedisSessions D} {id : String}

/-- The session of a call of `create`, and the expiry of its key. -/
theorem near_created {newId : String} {tenant : TenantId} {data : D} {ttl : Option Nat} {expiresAt : Option Int}
    (hstorable : ({ time := now, op := .create newId tenant data ttl } : Call D).Storable longest)
    (hexp : expiry now ttl = some expiresAt) {db : Keyspace D} {key : String} {x : Session D}
    (hx : x.expiresAt = expiresAt)
    (hdb : db.lookup key = some (.session x, (ttl.map asSecs).map fun n : Nat => now + n * 10 ^ 9)) :
    Near longest now (some x) (db.live now key) := by
  cases ttl with
  | none =>
    cases hexp
    have hlive : db.live now key = some (.session x, none) := by
      unfold Keyspace.live
      rw [hdb]
      rfl
    rw [hlive]
    refine ⟨fun y e hy => ?_, fun y hy _ => ?_⟩
    · cases hy
      exact ⟨Or.inl ⟨hx, rfl⟩, x, rfl, rfl⟩
    · cases hy
      exact ⟨none, rfl⟩
  | some d =>
    obtain ⟨hd, hmax, hlongest⟩ := hstorable
    have hfrom : fromStd d = d := if_pos hmax
    simp only [expiry, hfrom] at hexp
    split at hexp
    · cases hexp
      have hsecs : secsUntil now (now + d) = asSecs d := by
        unfold secsUntil
        rw [if_pos (by omega)]
        congr 1
        omega
      have hspec := secsUntil_spec (show now ≤ now + d by omega)
      rw [hsecs] at hspec
      have hpos : 0 < asSecs d := Nat.div_pos hd (by decide)
      have hlive : db.live now key = some (.session x, some (now + asSecs d * 10 ^ 9)) := by
        unfold Keyspace.live
        rw [hdb]
        refine Option.filter_eq_some_iff.mpr ⟨rfl, ?_⟩
        exact decide_eq_true (by omega)
      rw [hlive]
      refine ⟨fun y e hy => ?_, fun y hy _ => ?_⟩
      · cases hy
        exact ⟨Or.inr ⟨now + d, _, hx, rfl, hspec.1, hspec.2, hsecs ▸ hlongest⟩, x, rfl, rfl⟩
      · cases hy
        exact ⟨_, rfl⟩
    · cases hexp

theorem together_create {newId : String} {tenant : TenantId} {data : D} {ttl : Option Nat}
    (haccepts : ∀ now n, 0 < n → n ≤ longest → server.acceptsTtl now n = true)
    (hstorable : ({ time := now, op := .create newId tenant data ttl } : Call D).Storable longest)
    (hs : Typed s) (h : Together longest memory s now)
    (hcall : s.call server { time := now, op := .create newId tenant data ttl } = some s') :
    Together longest (memory.apply { time := now, op := .create newId tenant data ttl }).2 s' now := by
  have httl : ∀ n, ttl.map asSecs = some n → server.acceptsTtl now n = true := by
    intro n hn
    obtain ⟨d, rfl, rfl⟩ := Option.map_eq_some_iff.mp hn
    exact haccepts now _ (Nat.div_pos hstorable.1 (by decide)) hstorable.2.2
  obtain ⟨⟨hnew, hplain⟩, ⟨hexp, rfl⟩ | ⟨expiresAt, hexp, rfl⟩⟩ := call_create httl hcall
  · have hmem : memory.create now newId tenant data ttl = none := by
      unfold Inner.create
      rw [hexp]
    simp only [Inner.apply, hmem]
    exact h
  · obtain ⟨x, memory', hmem, hx, hxexp⟩ : ∃ x memory', memory.create now newId tenant data ttl = some (x, memory') ∧
        x = { id := newId, tenant, data, createdAt := now, expiresAt, lastSeen := now } ∧ x.expiresAt = expiresAt := by
      unfold Inner.create
      rw [hexp]
      exact ⟨_, _, rfl, rfl, rfl⟩
    have hmid := (hs.create (x := x) (by rw [hx]; exact hplain) (by rw [hx]; exact hnew)).write
      (c := .set (sessKey newId) x none) ⟨by rw [hx], ⟨x, List.mem_cons_self, rfl⟩⟩
      (.set (sessKey newId) x none ((ttl.map asSecs).map fun n : Nat => now + n * 10 ^ 9))
    rw [← hx]
    simp only [Inner.apply, hmem]
    refine ⟨fun id hid => ?_, fun tenant' id hid => ?_⟩
    · have hlookup : (RedisSessions.send server
          { db := s.db.insert (sessKey newId) (.session x, (ttl.map asSecs).map fun n : Nat => now + n * 10 ^ 9)
            created := x :: s.created } (.clock now) (.sadd (tenantSetKey tenant) newId)).db.lookup (sessKey id) = _ :=
        hmid.lookup_sadd hid
      dsimp only at hlookup
      rw [AssocMap.lookup_insert_eq] at hlookup
      rw [lookup_create hmem]
      by_cases he : id = newId
      · rw [if_pos he]
        rw [if_pos (congrArg sessKey he)] at hlookup
        exact near_created hstorable hexp hxexp hlookup
      · rw [if_neg he]
        rw [if_neg (fun hk => he (sessKey_injective hk))] at hlookup
        rw [Keyspace.live_congr hlookup]
        exact h.near id hid
    · rw [hmid.index_sadd, index_insert_sess _ hplain]
      rw [index_create hmem] at hid
      split at hid
      · next ht =>
        rcases List.mem_append.mp hid with hid | hid
        · exact Or.inl (h.indexed tenant' id (ht ▸ hid))
        · exact Or.inr ⟨ht, List.mem_singleton.mp hid⟩
      · exact Or.inl (h.indexed tenant' id hid)

/-- What is fetched is alive. -/
theorem fetch_cases (server : RedisServer) (s : RedisSessions D) (now : Int) (id : String) :
    (∃ x e, s.db.live now (sessKey id) = some (.session x, e) ∧ s.fetch server (.clock now) id = .ok (some x)) ∨
      (s.db.live now (sessKey id) = none ∧ s.fetch server (.clock now) id = .ok none) ∨
      ∃ ids e, s.db.live now (sessKey id) = some (.ids ids, e) ∧ s.fetch server (.clock now) id = .error .backend := by
  rw [fetch_clock]
  cases hl : s.db.live now (sessKey id) with
  | none => exact Or.inr (Or.inl ⟨rfl, rfl⟩)
  | some v =>
    obtain ⟨v, e⟩ := v
    cases v with
    | session x => exact Or.inl ⟨x, e, rfl, rfl⟩
    | ids ids => exact Or.inr (Or.inr ⟨ids, e, rfl, rfl⟩)

/-- A session's id is that of a UUID. -/
theorem Typed.plain (hs : Typed s) {x : Session D} {e : Option Int}
    (hl : s.db.live now (sessKey id) = some (.session x, e)) : x.id = id ∧ ':' ∉ id.toList := by
  obtain ⟨hkey, hknown⟩ := hs.session _ _ _ (Keyspace.lookup_of_live hl)
  obtain ⟨y, hy, hid, -⟩ := hknown.ownedBy
  have he : x.id = id := (sessKey_injective hkey).symm
  exact ⟨he, by rw [← he, ← hid]; exact hs.uuid y hy⟩

theorem together_get (hs : Typed s) (h : Together longest memory s now)
    (hcall : s.call server { time := now, op := .get id } = some s') :
    Together longest (memory.apply { time := now, op := .get id }).2 s' now := by
  -- what is alive in Redis has not expired
  have hsame : s' = s := by
    rw [call_get hcall]
    rcases fetch_cases server s now id with ⟨x, e, hl, hf⟩ | ⟨-, hf⟩ | ⟨ids, e, -, hf⟩
    · rw [hf]
      dsimp only
      rw [if_neg (by rw [(h.near id (hs.plain hl).2).not_expired hl]; decide)]
    · rw [hf]
    · rw [hf]
  subst hsame
  refine ⟨fun k hk => ?_, fun tenant k hk => ?_⟩
  · show Near longest now ((memory.get now id).2.sessions.lookup k) _
    rw [lookup_get]
    split
    · next he =>
      subst he
      refine ⟨fun x e hv => ?_, fun y hy hearly => ?_⟩
      · obtain ⟨hlasts, y, hy, hx⟩ := (h.near k hk).held x e hv
        refine ⟨hlasts, y, ?_, hx⟩
        have halive := (h.near k hk).not_expired hv
        rw [hy]
        refine Option.filter_eq_some_iff.mpr ⟨rfl, ?_⟩
        rw [hx] at halive
        show (!y.isExpired now) = true
        rw [show y.isExpired now = false from halive]
        rfl
      · exact (h.near k hk).kept y (Option.filter_eq_some_iff.mp hy).1 hearly
    · exact h.near k hk
  · exact h.indexed tenant k (index_get now id tenant ▸ hk)

/-- The write of a `touch`. -/
theorem near_touched (haccepts : ∀ now n, 0 < n → n ≤ longest → server.acceptsTtl now n = true) {x y : Session D}
    {e : Option Int} (hlasts : Lasts longest now x.expiresAt e) (hx : x = { y with lastSeen := x.lastSeen })
    (hl : s.db.live now (sessKey id) = some (.session x, e)) :
    Near longest now (some (y.touched now))
      ((s.rewrite server (.clock now) id (x.touched now)).db.live now (sessKey id)) := by
  have htouched : x.touched now = y.touched now := by
    rw [Session.touched_eq, Session.touched_eq, hx]
  have hexp : (x.touched now).expiresAt = x.expiresAt := x.touched_expiresAt now
  unfold RedisSessions.rewrite
  rw [hexp]
  rcases hlasts with ⟨hnone, rfl⟩ | ⟨a, b, ha, rfl, h1, h2, h3⟩
  · rw [hnone]
    have hlive : (s.send server (.clock now) (.set (sessKey id) (x.touched now) none)).db.live now (sessKey id) =
        some (.session (x.touched now), none) := by
      unfold RedisSessions.send Keyspace.live
      rw [send_set (by simp)]
      dsimp only
      rw [AssocMap.lookup_insert_eq, if_pos rfl]
      rfl
    dsimp only
    rw [hlive, htouched]
    refine ⟨fun z e hz => ?_, fun z hz _ => ?_⟩
    · cases hz
      exact ⟨Or.inl ⟨by rw [← htouched, hexp, hnone], rfl⟩, _, rfl, rfl⟩
    · cases hz
      exact ⟨none, rfl⟩
  · rw [ha]
    have hle : now ≤ a := by
      have hlt : now < b := of_decide_eq_true (Option.filter_eq_some_iff.mp hl).2
      omega
    have hclock : (Moment.clock now).client = now := rfl
    have hspec := secsUntil_spec hle
    dsimp only
    rw [hclock]
    split
    · next hpos =>
      have hlive : (s.send server (.clock now) (.set (sessKey id) (x.touched now) (some (secsUntil now a)))).db.live now
          (sessKey id) = some (.session (x.touched now), some (now + secsUntil now a * 10 ^ 9)) := by
        unfold RedisSessions.send Keyspace.live
        rw [send_set fun n hn => by cases hn; exact haccepts now _ hpos h3]
        dsimp only
        rw [AssocMap.lookup_insert_eq, if_pos rfl]
        refine Option.filter_eq_some_iff.mpr ⟨rfl, decide_eq_true ?_⟩
        show now < now + secsUntil now a * 10 ^ 9
        omega
      rw [hlive, htouched]
      refine ⟨fun z e hz => ?_, fun z hz _ => ?_⟩
      · cases hz
        exact ⟨Or.inr ⟨a, _, by rw [← htouched, hexp, ha], rfl, hspec.1, hspec.2, h3⟩, _, rfl, rfl⟩
      · cases hz
        exact ⟨_, rfl⟩
    · next hzero =>
      rw [hl]
      refine ⟨fun z e hz => ?_, fun z hz hearly => ?_⟩
      · cases hz
        refine ⟨Or.inr ⟨a, b, ha, rfl, h1, h2, h3⟩, _, rfl, ?_⟩
        rw [Session.touched_eq, hx]
      · cases hz
        have := hearly a (by rw [← htouched, hexp, ha])
        omega

theorem together_touch (haccepts : ∀ now n, 0 < n → n ≤ longest → server.acceptsTtl now n = true)
    (hs : Typed s) (h : Together longest memory s now)
    (hcall : s.call server { time := now, op := .touch id } = some s') :
    Together longest (memory.apply { time := now, op := .touch id }).2 s' now := by
  -- the other keys, and the sets
  have hother : ∀ k, k ≠ sessKey id → s'.db.lookup k = s.db.lookup k := by
    intro k hk
    rw [call_touch hcall]
    rcases fetch_cases server s now id with ⟨x, e, hl, hf⟩ | ⟨-, hf⟩ | ⟨ids, e, -, hf⟩
    · rw [hf]
      dsimp only
      have hsend : ∀ secs, (s.send server (.clock now) (.set (sessKey id) (x.touched now) secs)).db.lookup k =
          s.db.lookup k := by
        intro secs
        unfold RedisSessions.send
        rcases sent_cases server (.clock now) s.db (.set (sessKey id) (x.touched now) secs) with
          he | ⟨key, v, hw, he⟩ | ⟨key, hd, he⟩
        · rw [he]
        · rw [he]
          cases hw
          exact (AssocMap.lookup_insert_eq _ _ _ _).trans (if_neg hk)
        · cases hd
      unfold RedisSessions.rewrite
      split
      · split
        · exact hsend _
        · rfl
      · exact hsend _
    · rw [hf]
    · rw [hf]
  refine ⟨fun k hk => ?_, fun tenant k hk => ?_⟩
  · show Near longest now ((memory.touch now id).sessions.lookup k) _
    rw [lookup_touch]
    split
    · next he =>
      subst he
      rw [call_touch hcall]
      rcases fetch_cases server s now k with ⟨x, e, hl, hf⟩ | ⟨hl, hf⟩ | ⟨ids, e, hl, hf⟩
      · obtain ⟨hlasts, y, hy, hx⟩ := (h.near k hk).held x e hl
        rw [hf, hy]
        exact near_touched haccepts hlasts hx hl
      · rw [hf]
        dsimp only
        refine near_none (fun x e hv => by rw [hl] at hv; cases hv) fun y' hy' hearly => ?_
        obtain ⟨y, hy, rfl⟩ := Option.map_eq_some_iff.mp hy'
        obtain ⟨e, hv⟩ := (h.near k hk).kept y hy fun exp hexp => hearly exp (y.touched_expiresAt now ▸ hexp)
        rw [hl] at hv
        cases hv
      · obtain ⟨-, tenant, hkey, -⟩ := hs.ids _ _ _ (Keyspace.lookup_of_live hl)
        exact absurd hkey (sessKey_ne_tenantSetKey hk tenant)
    · next hne =>
      rw [Keyspace.live_congr (hother _ fun he => hne (sessKey_injective he))]
      exact h.near k hk
  · have hk' : k ∈ memory.index tenant := index_touch now id tenant ▸ hk
    have hmem := h.indexed tenant k hk'
    by_cases he : tenantSetKey tenant = sessKey id
    · -- a set is not touched
      have hsame : s' = s := by
        rw [call_touch hcall]
        rcases fetch_cases server s now id with ⟨x, e, hl, hf⟩ | ⟨-, hf⟩ | ⟨ids, e, -, hf⟩
        · exact absurd he.symm (sessKey_ne_tenantSetKey (hs.plain hl).2 tenant)
        · rw [hf]
        · rw [hf]
      rw [hsame]
      exact hmem
    · unfold RedisSessions.index
      rw [hother _ he]
      exact hmem

theorem together_delete (hs : Typed s) (h : Together longest memory s now)
    (hcall : s.call server { time := now, op := .delete id } = some s') :
    Together longest (memory.apply { time := now, op := .delete id }).2 s' now := by
  -- the keys of the sessions
  have hnear : ∀ k, ':' ∉ k.toList → s'.db.lookup (sessKey k) = if k = id then none else s.db.lookup (sessKey k) := by
    intro k hk
    have hkeys : (sessKey k = sessKey id) = (k = id) := propext ⟨fun he => sessKey_injective he, congrArg sessKey⟩
    rw [call_delete hcall]
    rcases fetch_cases server s now id with ⟨x, e, hl, hf⟩ | ⟨hl, hf⟩ | ⟨ids, e, hl, hf⟩
    · rw [hf]
      dsimp only
      rw [lookup_del, hs.lookup_srem hk]
      simp only [hkeys]
    · rw [hf]
      dsimp only
      rw [lookup_del]
      simp only [hkeys]
    · rw [hf]
      dsimp only
      split
      · next he =>
        subst he
        obtain ⟨-, tenant, hkey, -⟩ := hs.ids _ _ _ (Keyspace.lookup_of_live hl)
        exact absurd hkey (sessKey_ne_tenantSetKey hk tenant)
      · rfl
  refine ⟨fun k hk => ?_, fun tenant k hk => ?_⟩
  · show Near longest now ((memory.delete id).sessions.lookup k) _
    have hlive : s'.db.live now (sessKey k) = if k = id then none else s.db.live now (sessKey k) := by
      unfold Keyspace.live
      rw [hnear k hk]
      split <;> rfl
    rw [lookup_delete, hlive]
    split
    · exact near_none (fun x e hv => nomatch hv) fun y hy => nomatch hy
    · exact h.near k hk
  · have hk' : k ∈ (memory.delete id).index tenant := hk
    rw [index_delete] at hk'
    rw [call_delete hcall]
    rcases fetch_cases server s now id with ⟨x, e, hl, hf⟩ | ⟨hl, hf⟩ | ⟨ids, e, hl, hf⟩
    · rw [hf]
      dsimp only
      obtain ⟨hid, hplain⟩ := hs.plain hl
      obtain ⟨-, y, hy, hx⟩ := (h.near id hplain).held x e hl
      rw [index_del_sess hplain, hs.index_srem]
      rw [hy, Option.any_some] at hk'
      have hsame : x.tenant = y.tenant := by rw [hx]
      split at hk'
      · rw [List.mem_filter] at hk'
        exact ⟨h.indexed tenant k hk'.1, fun hand => absurd hand.2 (of_decide_eq_true hk'.2)⟩
      · next hne =>
        refine ⟨h.indexed tenant k hk', fun hand => hne ?_⟩
        exact decide_eq_true (hsame ▸ hand.1).symm
    · rw [hf]
      dsimp only
      have hmem : k ∈ s.index tenant := by
        refine h.indexed tenant k ?_
        split at hk'
        · exact (List.mem_filter.mp hk').1
        · exact hk'
      unfold RedisSessions.index
      rw [lookup_del]
      split
      · next ids e hv =>
        split at hv
        · cases hv
        · unfold RedisSessions.index at hmem
          rw [hv] at hmem
          exact hmem
      · next hnone =>
        -- a set is there, and would have been fetched
        have hne : tenantSetKey tenant ≠ sessKey id := by
          intro he
          rw [← he, hs.live_set] at hl
          unfold RedisSessions.index at hmem
          rw [hl] at hmem
          cases hmem
        unfold RedisSessions.index at hmem
        rw [if_neg hne] at hnone
        split at hmem
        · next ids e hv => exact absurd hv (hnone ids e)
        · exact hmem
    · rw [hf]
      refine h.indexed tenant k ?_
      split at hk'
      · exact (List.mem_filter.mp hk').1
      · exact hk'

theorem together_deleteForTenant {tenant : TenantId} {used : List String}
    (hmemory : Sound { inner := memory, used := used }) (hs : Typed s) (h : Together longest memory s now)
    (hcall : s.call server { time := now, op := .deleteForTenant tenant } = some s') :
    Together longest (memory.apply { time := now, op := .deleteForTenant tenant }).2 s' now := by
  obtain rfl := call_deleteForTenant hs hcall
  have hkeys : ∀ k : String, sessKey k ∈ (s.index tenant).map sessKey ↔ k ∈ s.index tenant :=
    fun k => List.mem_map_of_injective sessKey_injective
  refine ⟨fun k hk => ?_, fun tenant' k hk => ?_⟩
  · show Near longest now ((memory.deleteForTenant tenant).sessions.lookup k) _
    have hlive : ((s.finish server now ((s.index tenant).map (.revoke tenant))).send server (.clock now)
        (.del (tenantSetKey tenant))).db.live now (sessKey k) =
          if k ∈ s.index tenant then none else s.db.live now (sessKey k) := by
      unfold Keyspace.live
      rw [lookup_del, if_neg (sessKey_ne_tenantSetKey hk tenant), lookup_revokes]
      simp only [hkeys]
      split <;> rfl
    rw [lookup_deleteForTenant, hlive]
    by_cases hmem : k ∈ memory.index tenant
    · rw [if_pos hmem, if_pos (h.indexed tenant k hmem)]
      exact near_none (fun x e hv => nomatch hv) fun y hy => nomatch hy
    · rw [if_neg hmem]
      split
      · next hin =>
        -- a session under the tenant in Redis alone has expired in memory
        refine near_none (fun x e hv => nomatch hv) fun y hy hearly => hmem ?_
        obtain ⟨e, hv⟩ := (h.near k hk).kept y hy hearly
        obtain ⟨hid, hknown⟩ := hs.session _ _ _ (Keyspace.lookup_of_live hv)
        have htenant : tenant = y.tenant :=
          (hs.ownedBy_index hin).unique hs.fresh (sessKey_injective hid ▸ hknown.ownedBy)
        exact htenant ▸ hmemory.indexed k y hy
      · exact h.near k hk
  · have hk' : k ∈ (memory.deleteForTenant tenant).index tenant' := hk
    rw [index_deleteForTenant] at hk'
    rw [index_del_set]
    split
    · next ht =>
      rw [if_pos ht] at hk'
      cases hk'
    · next ht =>
      rw [if_neg ht] at hk'
      have hset : tenantSetKey tenant' ∉ (s.index tenant).map sessKey := by
        intro hin
        obtain ⟨id, hid, he⟩ := List.mem_map.mp hin
        obtain ⟨y, hy, rfl, -⟩ := hs.ownedBy_index hid
        exact sessKey_ne_tenantSetKey (hs.uuid y hy) tenant' he
      rw [index_congr (t := s) (by rw [lookup_revokes, if_neg hset])]
      exact h.indexed tenant' k hk'

/-- **What a call keeps.** -/
theorem close_step (haccepts : ∀ now n, 0 < n → n ≤ longest → server.acceptsTtl now n = true) {c : Call D}
    (hstorable : c.Storable longest) {s t : Stores D} (h : Close longest s c.time) (hstep : s.step server c = some t) :
    Close longest t c.time := by
  obtain ⟨memory, hmemory, hstep⟩ := Option.bind_eq_some_iff.mp hstep
  obtain ⟨redis, hredis, rfl⟩ := Option.map_eq_some_iff.mp hstep
  have htogether : Together longest s.memory.inner s.redis c.time := ⟨h.near, h.indexed⟩
  have hsound := sound_step h.sound hmemory
  have htyped := typed_call h.typed hredis
  obtain ⟨time, op⟩ := c
  have hboth : Together longest memory.inner redis time ∧ ∀ id ∈ memory.used, ':' ∉ id.toList := by
    cases op with
    | create newId tenant data ttl =>
      have hboth := together_create haccepts hstorable h.typed htogether hredis
      simp only [Store.step, SessionOp.newId?] at hmemory
      split at hmemory
      · cases hmemory
      · cases hmemory
        refine ⟨hboth, fun id hid => ?_⟩
        rcases List.mem_cons.mp hid with rfl | hid
        · obtain ⟨i, hi, hcall⟩ := Option.bind_eq_some_iff.mp hredis
          cases hi
          obtain ⟨r, hr, -⟩ := Option.map_eq_some_iff.mp hcall
          simp only [RedisSessions.instr] at hr
          split at hr
          · cases hr
          · next hnew => exact fun hcolon => hnew (Or.inr hcolon)
        · exact h.uuid id hid
    | get id =>
      cases hmemory
      exact ⟨together_get h.typed htogether hredis, h.uuid⟩
    | touch id =>
      cases hmemory
      exact ⟨together_touch haccepts h.typed htogether hredis, h.uuid⟩
    | delete id =>
      cases hmemory
      exact ⟨together_delete h.typed htogether hredis, h.uuid⟩
    | deleteForTenant tenant =>
      cases hmemory
      exact ⟨together_deleteForTenant h.sound h.typed htogether hredis, h.uuid⟩
  exact ⟨hsound, htyped, hboth.2, hboth.1.near, hboth.1.indexed⟩

theorem close_start : Close longest ({} : Stores D) now where
  sound := sound_start
  typed := (typed_start (D := D)).core
  uuid := List.forall_mem_nil _
  near id _ := near_none (fun x e hv => nomatch hv) fun y hy => nomatch hy
  indexed tenant id hid := by cases hid

theorem close_run (haccepts : ∀ now n, 0 < n → n ≤ longest → server.acceptsTtl now n = true) {calls : List (Call D)}
    {s t : Stores D} (h : Close longest s now) (hclock : (now :: calls.map (·.time)).Pairwise (· ≤ ·))
    (hstorable : ∀ c ∈ calls, c.Storable longest) (hrun : LabelledRun.exec (Stores.step server) s calls = some t)
    {u : Int} (hu : ∀ c ∈ calls, c.time ≤ u) (hnow : now ≤ u) : Close longest t u := by
  induction calls generalizing s now with
  | nil =>
    cases hrun
    exact h.later hnow
  | cons c calls ih =>
    obtain ⟨r, hr, hrun⟩ := Option.bind_eq_some_iff.mp hrun
    obtain ⟨hfirst, hclock⟩ := List.pairwise_cons.mp hclock
    obtain ⟨hc, hstorable⟩ := List.forall_mem_cons.mp hstorable
    obtain ⟨hcu, hu⟩ := List.forall_mem_cons.mp hu
    have hstep := close_step haccepts hc (h.later (hfirst c.time List.mem_cons_self)) hr
    exact ih hstep hclock hstorable hrun hu hcu

/-- **Redis agrees with memory to within a second.**  On a clock that does not go back, for sessions that live a second
or longer: whatever calls both stores have taken, what a `get` of any id returns from Redis is in memory, and what is in
memory with a second left Redis returns. -/
theorem redis_within_second (server : RedisServer) (longest : Nat)
    (haccepts : ∀ now n, 0 < n → n ≤ longest → server.acceptsTtl now n = true) {calls : List (Call D)} {u : Int}
    (hclock : (calls.map (·.time) ++ [u]).Pairwise (· ≤ ·)) (hstorable : ∀ c ∈ calls, c.Storable longest)
    {s : Stores D} (hrun : LabelledRun.exec (Stores.step server) {} calls = some s) (id : String) :
    WithinSecond u (s.redis.returns server (.clock u) id) (s.memory.inner.get u id).1 := by
  have hclose : Close longest s u := by
    cases calls with
    | nil =>
      cases hrun
      exact close_start
    | cons c calls =>
      obtain ⟨htimes, -, hlast⟩ := List.pairwise_append.mp hclock
      have hu : ∀ c' ∈ c :: calls, c'.time ≤ u := fun c' hc' =>
        hlast c'.time (List.mem_map_of_mem hc') u (List.mem_singleton.mpr rfl)
      refine close_run haccepts close_start (List.pairwise_cons.mpr ⟨?_, htimes⟩) hstorable hrun hu
        (hu c List.mem_cons_self)
      intro time htime
      rcases List.mem_cons.mp htime with rfl | htime
      · exact le_rfl
      · exact (List.pairwise_cons.mp htimes).1 time htime
  constructor
  · intro x hx
    obtain ⟨e, hl⟩ := returns_some hx
    obtain ⟨-, hplain⟩ := hclose.typed.plain hl
    have halive := (hclose.near id hplain).not_expired hl
    obtain ⟨-, y, hy, hxy⟩ := (hclose.near id hplain).held x e hl
    refine ⟨y, ?_, hxy⟩
    rw [hxy] at halive
    have hexp : y.isExpired u = false := halive
    unfold Inner.get
    rw [hy]
    dsimp only
    rw [if_neg (by rw [hexp]; decide)]
  · intro y hy hearly
    have hlookup : s.memory.inner.sessions.lookup id = some y := by
      unfold Inner.get at hy
      split at hy
      · next z hz =>
        split at hy
        · cases hy
        · cases hy
          exact hz
      · cases hy
    have hplain := hclose.uuid id (hclose.sound.sessionUsed id y hlookup)
    obtain ⟨e, hl⟩ := (hclose.near id hplain).kept y hlookup hearly
    have hfetch : s.redis.fetch server (.clock u) id = .ok (some y) := by
      rw [fetch_clock, hl]
    have halive := (hclose.near id hplain).not_expired hl
    unfold RedisSessions.returns
    rw [hfetch]
    exact if_neg (by rw [show y.isExpired (Moment.clock u).client = false from halive]; decide)

end

/-- A session of 60 s that is touched after half a second, and again in its last. -/
def touchedTwice : List (Call Unit) :=
  [{ time := 0, op := .create "a" ⟨1⟩ () (some 60000000000) }, { time := 500000000, op := .touch "a" },
    { time := 59400000000, op := .touch "a" }]

/-- Half a second before it expires, it is gone from Redis and still in memory. -/
theorem agree_touchedTwice : ∃ s, LabelledRun.exec (Stores.step lenient) {} touchedTwice = some s ∧
    s.redis.returns lenient (.clock 59500000000) "a" = none ∧ (s.memory.inner.get 59500000000 "a").1 ≠ none ∧
    WithinSecond 59500000000 (s.redis.returns lenient (.clock 59500000000) "a")
      (s.memory.inner.get 59500000000 "a").1 := by
  have hrun : ∃ s, LabelledRun.exec (Stores.step lenient) {} touchedTwice = some s ∧
      s.redis.returns lenient (.clock 59500000000) "a" = none ∧ (s.memory.inner.get 59500000000 "a").1 ≠ none :=
    ⟨_, rfl, rfl, fun h => nomatch h⟩
  obtain ⟨s, hs, hgone, hthere⟩ := hrun
  refine ⟨s, hs, hgone, hthere, redis_within_second lenient 60 (fun _ _ _ _ => rfl) (by decide) ?_ hs "a"⟩
  intro c hc
  simp only [touchedTwice, List.mem_cons, List.not_mem_nil, or_false] at hc
  rcases hc with rfl | rfl | rfl
  · exact ⟨by decide, by decide, by decide⟩
  · trivial
  · trivial

end TptErp.Cache
