import TptErp.Cache.ReadModel
import TptErp.Lib.Threads

/-!
# Sessions over Redis

`RedisSessionStore`, with its calls cut at the commands that they send.  Calls overlap as they like, the server and the
callers have clocks of their own, and a command may be lost before or after it is carried out.

* `sessions_isolated`: a `get` returns what was created under its id, for the tenant that it was created for, and
  `delete_for_tenant` leaves the keys of the other tenants alone.
* `deleted_for_good_iff`: a session that is deleted stays deleted exactly when no `touch` of it is between its read and
  its write.

The id of a new session is that of a UUID, and was not used before.
-/

namespace TptErp.Cache

open Tenant

/-! ## The keyspace -/

/-- What a key holds: the JSON of a session, which reads back as it was written, or a set. -/
inductive RedisValue (D : Type)
  | session (x : Session D)
  | ids (members : List String)

abbrev Keyspace (D : Type) := AssocMap String (RedisValue D × Option Int)

/-- The value at a key: an expired one is not there. -/
def Keyspace.live {D : Type} (now : Int) (db : Keyspace D) (key : String) : Option (RedisValue D × Option Int) :=
  (db.lookup key).filter fun v => v.2.all fun exp => now < exp

def sessKey (id : String) : String := "tpt:sess:" ++ id

def tenantSetKey (tenant : TenantId) : String := "tpt:sess:tenant:" ++ tenant.asStr

inductive Command (D : Type)
  | get (key : String)
  | set (key : String) (x : Session D) (secs : Option Nat)
  | sadd (key id : String)
  | srem (key id : String)
  | smembers (key : String)
  | del (key : String)

inductive RedisReply (D : Type)
  | value (x : Option (Session D))
  | members (ids : List String)
  | ok

/-- The ids in a set. -/
def Keyspace.members {D : Type} (now : Int) (db : Keyspace D) (key : String) : List String :=
  match db.live now key with
  | some (.ids ids, _) => ids
  | _ => []

/-- A command on its server.  Those for a set are errors at a key that holds a session, and the other way round. -/
def RedisServer.serve {D : Type} (server : RedisServer) (now : Int) (db : Keyspace D) :
    Command D → Except CacheError (RedisReply D) × Keyspace D
  | .get key =>
    match db.live now key with
    | some (.session x, _) => (.ok (.value (some x)), db)
    | some (.ids _, _) => (.error .backend, db)
    | none => (.ok (.value none), db)
  | .set key x none => (.ok .ok, db.insert key (.session x, none))
  | .set key x (some secs) =>
    if server.acceptsTtl now secs then (.ok .ok, db.insert key (.session x, some (now + secs * 10 ^ 9)))
    else (.error .backend, db)
  | .sadd key id =>
    match db.live now key with
    | some (.session _, _) => (.error .backend, db)
    | some (.ids ids, exp) => (.ok .ok, db.insert key (.ids (ids.filter (· ≠ id) ++ [id]), exp))
    | none => (.ok .ok, db.insert key (.ids [id], none))
  | .srem key id =>
    match db.live now key with
    | some (.session _, _) => (.error .backend, db)
    | some (.ids ids, exp) => (.ok .ok, db.insert key (.ids (ids.filter (· ≠ id)), exp))
    | none => (.ok .ok, db)
  | .smembers key =>
    match db.live now key with
    | some (.session _, _) => (.error .backend, db)
    | _ => (.ok (.members (db.members now key)), db)
  | .del key => (.ok .ok, db.erase key)

/-- Whether a command goes through; of one that is lost it is not known whether it was carried out. -/
inductive Connection
  | up
  | lost (executed : Bool)

/-- The clocks of the server and of the caller, and the connection, at a step of a call. -/
structure Moment where
  server : Int
  client : Int
  connection : Connection := .up

def RedisServer.send {D : Type} (server : RedisServer) (m : Moment) (db : Keyspace D) (command : Command D) :
    Except CacheError (RedisReply D) × Keyspace D :=
  match m.connection with
  | .up => server.serve m.server db command
  | .lost true => (.error .backend, (server.serve m.server db command).2)
  | .lost false => (.error .backend, db)

/-! ## The store -/

/-- The commands of the calls: `create` stores and indexes; `get` reads and drops what has expired; `touch` reads to
touch and rewrites; `delete` reads to delete, unindexes and removes; `delete_for_tenant` reads the members, revokes each
and drops the index. -/
inductive Instr (D : Type)
  | store (newId : String) (tenant : TenantId) (data : D) (ttl : Option Nat)
  | index (tenant : TenantId) (id : String)
  | read (id : String)
  | drop (id : String)
  | readToTouch (id : String)
  | rewrite (id : String) (x : Session D)
  | readToDelete (id : String)
  | unindex (tenant : TenantId) (id : String)
  | remove (id : String)
  | readMembers (tenant : TenantId)
  | revoke (tenant : TenantId) (id : String)
  | dropIndex (tenant : TenantId)

/-- The keyspace, and the sessions that calls of `create` have made. -/
structure RedisSessions (D : Type) where
  db : Keyspace D := ∅
  created : List (Session D) := []

/-- The whole seconds from a time to another, `(d - Utc::now()).to_std()`. -/
def secsUntil (now exp : Int) : Nat := if now ≤ exp then asSecs (exp - now).toNat else 0

namespace RedisSessions

variable {D : Type} (server : RedisServer) (s : RedisSessions D) (m : Moment)

def send (command : Command D) : RedisSessions D := { s with db := (server.send m s.db command).2 }

/-- What `conn.get(sess_key(id))` returns. -/
def fetch (id : String) : Except CacheError (Option (Session D)) :=
  match (server.send m s.db (.get (sessKey id))).1 with
  | .ok (.value x) => .ok x
  | .ok _ => .ok none
  | .error e => .error e

/-- What `get` returns, of a session that is there and has not expired. -/
def returns (id : String) : Option (Session D) :=
  match s.fetch server m id with
  | .ok (some x) => if x.isExpired m.client then none else some x
  | _ => none

/-- A `set_ex` with the seconds that are left, if there are any, or a `set`. -/
def rewrite (id : String) (x : Session D) : RedisSessions D :=
  match x.expiresAt with
  | some exp =>
    if secsUntil m.client exp > 0 then s.send server m (.set (sessKey id) x (some (secsUntil m.client exp)))
    else s
  | none => s.send server m (.set (sessKey id) x none)

/-- A command of a call, and what the call goes on with. -/
def instr : Instr D → Option (RedisSessions D × List (Instr D))
  | .store newId tenant data ttl =>
    if newId ∈ s.created.map (·.id) ∨ ':' ∈ newId.toList then none
    else
      match expiry m.client ttl with
      | none => some (s, [])
      | some expiresAt =>
        let x : Session D :=
          { id := newId, tenant, data, createdAt := m.client, expiresAt, lastSeen := m.client }
        let command : Command D := .set (sessKey newId) x (ttl.map asSecs)
        some ({ s.send server m command with created := x :: s.created },
          match (server.send m s.db command).1 with
          | .ok _ => [.index tenant newId]
          | .error _ => [])
  | .index tenant id => some (s.send server m (.sadd (tenantSetKey tenant) id), [])
  | .read id =>
    some (s,
      match s.fetch server m id with
      | .ok (some x) => if x.isExpired m.client then [.drop id] else []
      | _ => [])
  | .readToTouch id =>
    some (s,
      match s.fetch server m id with
      | .ok (some x) => [.rewrite id (x.touched m.client)]
      | _ => [])
  | .rewrite id x => some (s.rewrite server m id x, [])
  | .readToDelete id =>
    some (s,
      match s.fetch server m id with
      | .ok (some x) => [.unindex x.tenant id, .remove id]
      | .ok none => [.remove id]
      | .error _ => [])
  | .unindex tenant id => some (s.send server m (.srem (tenantSetKey tenant) id), [])
  | .readMembers tenant =>
    some (s,
      match (server.send m s.db (.smembers (tenantSetKey tenant))).1 with
      | .ok (.members ids) => ids.map (.revoke tenant) ++ [.dropIndex tenant]
      | _ => [])
  | .drop id | .remove id | .revoke _ id => some (s.send server m (.del (sessKey id)), [])
  | .dropIndex tenant => some (s.send server m (.del (tenantSetKey tenant)), [])

end RedisSessions

def prog {D : Type} : SessionOp D → List (Instr D)
  | .create newId tenant data ttl => [.store newId tenant data ttl]
  | .get id => [.read id]
  | .touch id => [.readToTouch id]
  | .delete id => [.readToDelete id]
  | .deleteForTenant tenant => [.readMembers tenant]

/-- The calls on a server, which changes nothing by itself. -/
def redisCalls (D : Type) (server : RedisServer) : Machine (RedisSessions D) (Instr D) Moment (SessionOp D) Empty where
  prog := prog
  instr s i m := s.instr server m i
  env s _ := s

/-! ## Keys -/

theorem sessKey_injective : Function.Injective sessKey := by
  intro id id' h
  have hlist := congrArg String.toList h
  simp only [sessKey, String.toList_append] at hlist
  exact String.toList_injective (List.append_cancel_left hlist)

/-- No session of a UUID has the key of a set. -/
theorem sessKey_ne_tenantSetKey {id : String} (h : ':' ∉ id.toList) (tenant : TenantId) :
    sessKey id ≠ tenantSetKey tenant := by
  intro he
  have hlist := congrArg String.toList he
  have hset : (tenantSetKey tenant).toList = "tpt:sess:".toList ++ ("tenant:".toList ++ tenant.asStr.toList) := by
    simp only [tenantSetKey, String.toList_append]
    rfl
  rw [hset, sessKey, String.toList_append] at hlist
  refine h ?_
  rw [List.append_cancel_left hlist]
  exact List.mem_append_left _ (by decide)

theorem tenantSetKey_injective : Function.Injective tenantSetKey := by
  intro tenant tenant' h
  have hlist := congrArg String.toList h
  simp only [tenantSetKey, String.toList_append] at hlist
  exact Id.asStr_injective (String.toList_injective (List.append_cancel_left hlist))

/-! ## What the commands do -/

theorem Keyspace.lookup_of_live {D : Type} {now : Int} {db : Keyspace D} {key : String}
    {v : RedisValue D × Option Int} (h : db.live now key = some v) : db.lookup key = some v :=
  (Option.filter_eq_some_iff.mp h).1

section
variable {D : Type} {server : RedisServer} {m : Moment} {db db' : Keyspace D}

/-- A value that a command writes at a key. -/
inductive Writes (db : Keyspace D) : Command D → String → RedisValue D × Option Int → Prop
  | set (key : String) (x : Session D) (secs : Option Nat) (exp : Option Int) :
      Writes db (.set key x secs) key (.session x, exp)
  | sadd {key id : String} {ids : List String} {exp : Option Int} (held : db.lookup key = some (.ids ids, exp)) :
      Writes db (.sadd key id) key (.ids (ids.filter (· ≠ id) ++ [id]), exp)
  | saddNew (key id : String) : Writes db (.sadd key id) key (.ids [id], none)
  | srem {key id : String} {ids : List String} {exp : Option Int} (held : db.lookup key = some (.ids ids, exp)) :
      Writes db (.srem key id) key (.ids (ids.filter (· ≠ id)), exp)

/-- **What a command can do** to the keyspace: nothing, to write a value, or to delete a key. -/
theorem serve_cases (server : RedisServer) (now : Int) (db : Keyspace D) (command : Command D) :
    (server.serve now db command).2 = db ∨
      (∃ key v, Writes db command key v ∧ (server.serve now db command).2 = db.insert key v) ∨
      ∃ key, command = .del key ∧ (server.serve now db command).2 = db.erase key := by
  cases command with
  | get key =>
    left
    simp only [RedisServer.serve]
    split <;> rfl
  | set key x secs =>
    cases secs with
    | none => exact Or.inr (Or.inl ⟨key, _, .set key x none none, rfl⟩)
    | some secs =>
      simp only [RedisServer.serve]
      split
      · exact Or.inr (Or.inl ⟨key, _, .set key x _ _, rfl⟩)
      · exact Or.inl rfl
  | sadd key id =>
    simp only [RedisServer.serve]
    split
    · exact Or.inl rfl
    · next ids exp h => exact Or.inr (Or.inl ⟨key, _, .sadd (Keyspace.lookup_of_live h), rfl⟩)
    · exact Or.inr (Or.inl ⟨key, _, .saddNew key id, rfl⟩)
  | srem key id =>
    simp only [RedisServer.serve]
    split
    · exact Or.inl rfl
    · next ids exp h => exact Or.inr (Or.inl ⟨key, _, .srem (Keyspace.lookup_of_live h), rfl⟩)
    · exact Or.inl rfl
  | smembers key =>
    left
    simp only [RedisServer.serve]
    split <;> rfl
  | del key => exact Or.inr (Or.inr ⟨key, rfl, rfl⟩)

/-- A command that is sent is carried out, or it is lost. -/
theorem send_cases (server : RedisServer) (m : Moment) (db : Keyspace D) (command : Command D) :
    (server.send m db command).2 = (server.serve m.server db command).2 ∨ (server.send m db command).2 = db := by
  unfold RedisServer.send
  split
  · exact Or.inl rfl
  · exact Or.inl rfl
  · exact Or.inr rfl

/-- The same, for one that is sent. -/
theorem sent_cases (server : RedisServer) (m : Moment) (db : Keyspace D) (command : Command D) :
    (server.send m db command).2 = db ∨
      (∃ key v, Writes db command key v ∧ (server.send m db command).2 = db.insert key v) ∨
      ∃ key, command = .del key ∧ (server.send m db command).2 = db.erase key := by
  rcases send_cases server m db command with h | h
  · rw [h]
    exact serve_cases server m.server db command
  · exact Or.inl h

/-- What is read was sent for, and is there. -/
theorem fetch_some {s : RedisSessions D} {id : String} {x : Session D} (h : s.fetch server m id = .ok (some x)) :
    ∃ exp, s.db.live m.server (sessKey id) = some (.session x, exp) := by
  unfold RedisSessions.fetch RedisServer.send at h
  cases hc : m.connection with
  | lost executed =>
    rw [hc] at h
    cases executed <;> cases h
  | up =>
    rw [hc] at h
    simp only [RedisServer.serve] at h
    cases hl : s.db.live m.server (sessKey id) with
    | none =>
      rw [hl] at h
      cases h
    | some v =>
      obtain ⟨v, exp⟩ := v
      rw [hl] at h
      cases v with
      | session y =>
        cases h
        exact ⟨exp, rfl⟩
      | ids ids => cases h

theorem returns_some {s : RedisSessions D} {id : String} {x : Session D} (h : s.returns server m id = some x) :
    ∃ exp, s.db.live m.server (sessKey id) = some (.session x, exp) := by
  unfold RedisSessions.returns at h
  split at h
  · next y hy =>
    split at h
    · cases h
    · cases h
      exact fetch_some hy
  · cases h

end

/-! ## What is in the keyspace -/

/-- A session as it was created, but for the time at which it was last seen. -/
def Known {D : Type} (created : List (Session D)) (x : Session D) : Prop :=
  ∃ y ∈ created, x = { y with lastSeen := x.lastSeen }

def OwnedBy {D : Type} (created : List (Session D)) (tenant : TenantId) (id : String) : Prop :=
  ∃ y ∈ created, y.id = id ∧ y.tenant = tenant

/-- Every key of a session holds one that was created with its id, and every set the ids of one tenant. -/
structure Typed {D : Type} (s : RedisSessions D) : Prop where
  uuid : ∀ y ∈ s.created, ':' ∉ y.id.toList
  fresh : (s.created.map (·.id)).Nodup
  session : ∀ key x exp, s.db.lookup key = some (.session x, exp) → key = sessKey x.id ∧ Known s.created x
  ids : ∀ key ids exp, s.db.lookup key = some (.ids ids, exp) →
    exp = none ∧ ∃ tenant, key = tenantSetKey tenant ∧ ∀ id ∈ ids, OwnedBy s.created tenant id

def Command.Fits {D : Type} (created : List (Session D)) : Command D → Prop
  | .set key x _ => key = sessKey x.id ∧ Known created x
  | .sadd key id => ∃ tenant, key = tenantSetKey tenant ∧ OwnedBy created tenant id
  | _ => True

/-- What a call has read holds of what was created. -/
def Instr.Fits {D : Type} (created : List (Session D)) : Instr D → Prop
  | .index tenant id | .revoke tenant id => OwnedBy created tenant id
  | .rewrite id x => x.id = id ∧ Known created x
  | _ => True

section
variable {D : Type} {server : RedisServer} {m : Moment} {s : RedisSessions D} {created : List (Session D)}

theorem Known.cons {x : Session D} (h : Known created x) (y : Session D) : Known (y :: created) x := by
  obtain ⟨z, hz, he⟩ := h
  exact ⟨z, List.mem_cons_of_mem _ hz, he⟩

theorem OwnedBy.cons {tenant : TenantId} {id : String} (h : OwnedBy created tenant id) (y : Session D) :
    OwnedBy (y :: created) tenant id := by
  obtain ⟨z, hz, he⟩ := h
  exact ⟨z, List.mem_cons_of_mem _ hz, he⟩

theorem Known.ownedBy {x : Session D} (h : Known created x) : OwnedBy created x.tenant x.id := by
  obtain ⟨y, hy, he⟩ := h
  exact ⟨y, hy, by rw [he], by rw [he]⟩

/-- An id has one tenant. -/
theorem OwnedBy.unique (hfresh : (created.map (·.id)).Nodup) {tenant tenant' : TenantId} {id : String}
    (h : OwnedBy created tenant id) (h' : OwnedBy created tenant' id) : tenant = tenant' := by
  obtain ⟨y, hy, rfl, rfl⟩ := h
  obtain ⟨z, hz, hid, rfl⟩ := h'
  rw [List.inj_on_of_nodup_map hfresh hz hy hid]

/-- What `touch` changes. -/
theorem Session.touched_eq (x : Session D) (now : Int) : x.touched now = { x with lastSeen := now } := by
  have hexp := x.touched_expiresAt now
  obtain ⟨id, tenant, data, createdAt, expiresAt, lastSeen⟩ := x
  unfold Session.touched at hexp ⊢
  dsimp only at hexp ⊢
  cases expiresAt with
  | none => rfl
  | some exp =>
    dsimp only at hexp ⊢
    split
    · next hleft =>
      rw [if_pos hleft] at hexp
      dsimp only at hexp
      rw [hexp]
    · rfl

theorem Known.touched {x : Session D} (h : Known created x) (now : Int) : Known created (x.touched now) := by
  obtain ⟨y, hy, he⟩ := h
  refine ⟨y, hy, ?_⟩
  rw [Session.touched_eq, he]

theorem Typed.write (h : Typed s) {c : Command D} (hc : c.Fits s.created) {key : String}
    {v : RedisValue D × Option Int} (hw : Writes s.db c key v) : Typed { s with db := s.db.insert key v } where
  uuid := h.uuid
  fresh := h.fresh
  session k x exp hk := by
    rw [AssocMap.lookup_insert_eq] at hk
    split at hk
    · next he =>
      subst he
      cases hw with
      | set key x secs exp' =>
        cases hk
        exact hc
      | sadd held => cases hk
      | saddNew key id => cases hk
      | srem held => cases hk
    · exact h.session k x exp hk
  ids k ids exp hk := by
    rw [AssocMap.lookup_insert_eq] at hk
    split at hk
    · next he =>
      subst he
      cases hw with
      | set key x secs exp' => cases hk
      | @sadd key id old exp' held =>
        cases hk
        obtain ⟨hexp, tenant, hkey, hold⟩ := h.ids _ _ _ held
        obtain ⟨tenant', hkey', hnew⟩ := hc
        obtain rfl : tenant = tenant' := tenantSetKey_injective (hkey.symm.trans hkey')
        refine ⟨hexp, tenant, hkey, fun id' hid' => ?_⟩
        rcases List.mem_append.mp hid' with hid' | hid'
        · exact hold id' (List.mem_filter.mp hid').1
        · rw [List.mem_singleton.mp hid']
          exact hnew
      | saddNew key id =>
        cases hk
        obtain ⟨tenant, hkey, hnew⟩ := hc
        exact ⟨rfl, tenant, hkey, fun id' hid' => List.mem_singleton.mp hid' ▸ hnew⟩
      | @srem key id old exp' held =>
        cases hk
        obtain ⟨hexp, tenant, hkey, hold⟩ := h.ids _ _ _ held
        exact ⟨hexp, tenant, hkey, fun id' hid' => hold id' (List.mem_filter.mp hid').1⟩
    · exact h.ids k ids exp hk

theorem Typed.erase (h : Typed s) (key : String) : Typed { s with db := s.db.erase key } where
  uuid := h.uuid
  fresh := h.fresh
  session k x exp hk := by
    rw [AssocMap.lookup_erase_eq] at hk
    split at hk
    · cases hk
    · exact h.session k x exp hk
  ids k ids exp hk := by
    rw [AssocMap.lookup_erase_eq] at hk
    split at hk
    · cases hk
    · exact h.ids k ids exp hk

theorem Typed.send (h : Typed s) {c : Command D} (hc : c.Fits s.created) : Typed (s.send server m c) := by
  unfold RedisSessions.send
  rcases sent_cases server m s.db c with he | ⟨key, v, hw, he⟩ | ⟨key, -, he⟩
  · rw [he]
    exact h
  · rw [he]
    exact h.write hc hw
  · rw [he]
    exact h.erase key

theorem Typed.create (h : Typed s) {x : Session D} (huuid : ':' ∉ x.id.toList)
    (hnew : x.id ∉ s.created.map (·.id)) :
    Typed { s with created := x :: s.created } where
  uuid y hy := by
    rcases List.mem_cons.mp hy with rfl | hy
    · exact huuid
    · exact h.uuid y hy
  fresh := List.nodup_cons.mpr ⟨hnew, h.fresh⟩
  session key y exp hk := ⟨(h.session key y exp hk).1, (h.session key y exp hk).2.cons x⟩
  ids key ids exp hk := by
    obtain ⟨hexp, tenant, hkey, hall⟩ := h.ids key ids exp hk
    exact ⟨hexp, tenant, hkey, fun id hid => (hall id hid).cons x⟩

/-- What a `get` reads. -/
theorem Typed.fetched (h : Typed s) {id : String} {x : Session D} (hx : s.fetch server m id = .ok (some x)) :
    x.id = id ∧ Known s.created x := by
  obtain ⟨exp, hl⟩ := fetch_some hx
  obtain ⟨hkey, hknown⟩ := h.session _ _ _ (Keyspace.lookup_of_live hl)
  exact ⟨(sessKey_injective hkey).symm, hknown⟩

theorem Typed.members (h : Typed s) (now : Int) (tenant : TenantId) {id : String}
    (hid : id ∈ s.db.members now (tenantSetKey tenant)) : OwnedBy s.created tenant id := by
  unfold Keyspace.members at hid
  split at hid
  · next ids exp hl =>
    obtain ⟨-, tenant', hkey, hall⟩ := h.ids _ _ _ (Keyspace.lookup_of_live hl)
    rw [tenantSetKey_injective hkey]
    exact hall id hid
  · cases hid

/-- The members that are read are those of the set. -/
theorem readMembers_ok {key : String} {ids : List String}
    (h : (server.send m s.db (.smembers key)).1 = .ok (.members ids)) : ids = s.db.members m.server key := by
  unfold RedisServer.send at h
  split at h
  · simp only [RedisServer.serve] at h
    split at h <;> cases h
    rfl
  · cases h
  · cases h

theorem Instr.Fits.cons {i : Instr D} (h : i.Fits created) (x : Session D) : i.Fits (x :: created) := by
  cases i with
  | index tenant id => exact OwnedBy.cons h x
  | revoke tenant id => exact OwnedBy.cons h x
  | rewrite id y => exact ⟨h.1, h.2.cons x⟩
  | _ => trivial

end

/-! ## Every step -/

/-- What holds of the store, and of what the calls are still to send. -/
abbrev TypedState {D : Type} : Machine.State (RedisSessions D) (Instr D) → Prop :=
  Machine.Good Typed fun s i => i.Fits s.created

section
variable {D : Type} {server : RedisServer} {m : Moment} {s s' : RedisSessions D}

theorem keeps_send (h : Typed s) {c : Command D} (hc : c.Fits s.created) {more : List (Instr D)}
    (hmore : ∀ j ∈ more, j.Fits s.created) :
    Machine.Keeps Typed (fun s i => i.Fits s.created) s (s.send server m c) more :=
  ⟨h.send hc, hmore, fun _ hj => hj⟩

theorem keeps_none (h : Typed s) {more : List (Instr D)} (hmore : ∀ j ∈ more, j.Fits s.created) :
    Machine.Keeps Typed (fun s i => i.Fits s.created) s s more :=
  ⟨h, hmore, fun _ hj => hj⟩

/-- A command of a call keeps what is in the keyspace. -/
theorem keeps_instr (h : Typed s) {i : Instr D} (hi : i.Fits s.created) {more : List (Instr D)}
    (hstep : s.instr server m i = some (s', more)) :
    Machine.Keeps Typed (fun s i => i.Fits s.created) s s' more := by
  cases i with
  | store newId tenant data ttl =>
    simp only [RedisSessions.instr] at hstep
    split at hstep
    · cases hstep
    · next hnew =>
      push Not at hnew
      split at hstep
      · cases hstep
        exact keeps_none h (List.forall_mem_nil _)
      · next expiresAt hexp =>
        cases hstep
        let x : Session D := { id := newId, tenant, data, createdAt := m.client, expiresAt, lastSeen := m.client }
        have hcreate : Typed { s with created := x :: s.created } := h.create hnew.2 hnew.1
        refine ⟨?_, ?_, fun _ hj => Instr.Fits.cons hj _⟩
        · exact hcreate.send ⟨rfl, _, List.mem_cons_self, rfl⟩
        · intro j hj
          split at hj
          · rw [List.mem_singleton.mp hj]
            exact ⟨_, List.mem_cons_self, rfl, rfl⟩
          · cases hj
  | index tenant id =>
    cases hstep
    exact keeps_send (c := .sadd (tenantSetKey tenant) id) h ⟨tenant, rfl, hi⟩ (List.forall_mem_nil _)
  | read id =>
    cases hstep
    refine keeps_none h fun j hj => ?_
    split at hj
    · split at hj
      · rw [List.mem_singleton.mp hj]
        trivial
      · cases hj
    · cases hj
  | readToTouch id =>
    cases hstep
    refine keeps_none h fun j hj => ?_
    split at hj
    · next x hx =>
      obtain ⟨hid, hknown⟩ := h.fetched hx
      rw [List.mem_singleton.mp hj, Session.touched_eq]
      exact ⟨hid, Session.touched_eq x m.client ▸ hknown.touched m.client⟩
    · cases hj
  | rewrite id x =>
    cases hstep
    have hc : ∀ secs, (Command.set (sessKey id) x secs).Fits s.created := fun secs => ⟨by rw [hi.1], hi.2⟩
    unfold RedisSessions.rewrite
    split
    · split
      · exact keeps_send h (hc _) (List.forall_mem_nil _)
      · exact keeps_none h (List.forall_mem_nil _)
    · exact keeps_send h (hc _) (List.forall_mem_nil _)
  | readToDelete id =>
    cases hstep
    refine keeps_none h fun j hj => ?_
    split at hj
    · rcases List.mem_cons.mp hj with rfl | hj
      · trivial
      · rw [List.mem_singleton.mp hj]
        trivial
    · rw [List.mem_singleton.mp hj]
      trivial
    · cases hj
  | readMembers tenant =>
    cases hstep
    refine keeps_none h fun j hj => ?_
    split at hj
    · next ids hids =>
      rcases List.mem_append.mp hj with hj | hj
      · obtain ⟨id, hid, rfl⟩ := List.mem_map.mp hj
        exact h.members m.server tenant (readMembers_ok hids ▸ hid)
      · rw [List.mem_singleton.mp hj]
        trivial
    · cases hj
  | unindex tenant id =>
    cases hstep
    exact keeps_send (c := .srem (tenantSetKey tenant) id) h trivial (List.forall_mem_nil _)
  | drop id =>
    cases hstep
    exact keeps_send (c := .del (sessKey id)) h trivial (List.forall_mem_nil _)
  | remove id =>
    cases hstep
    exact keeps_send (c := .del (sessKey id)) h trivial (List.forall_mem_nil _)
  | revoke tenant id =>
    cases hstep
    exact keeps_send (c := .del (sessKey id)) h trivial (List.forall_mem_nil _)
  | dropIndex tenant =>
    cases hstep
    exact keeps_send (c := .del (tenantSetKey tenant)) h trivial (List.forall_mem_nil _)

theorem typed_step {w t : Machine.State (RedisSessions D) (Instr D)} {a : Machine.Label Moment (SessionOp D) Empty}
    (h : TypedState w) (ht : (redisCalls D server).step w a = some t) : TypedState t := by
  refine (redisCalls D server).good_step ?_ (fun _ e => nomatch e) h ht ?_
  · intro c op _ i hi
    cases op <;> rw [List.mem_singleton.mp hi] <;> trivial
  · intro th k i core more _ _ hp hi
    exact keeps_instr h.core hp hi

theorem typed_start : TypedState ({ core := {} } : Machine.State (RedisSessions D) (Instr D)) :=
  Machine.good_init
    { uuid := List.forall_mem_nil _
      fresh := List.nodup_nil
      session := fun _ _ _ hk => nomatch hk
      ids := fun _ _ _ hk => nomatch hk }

end

/-! ## Tenants -/

/-- The commands of a call of `delete_for_tenant`. -/
def Instr.OfDeleteForTenant {D : Type} (tenant : TenantId) : Instr D → Prop
  | .readMembers tenant' | .revoke tenant' _ | .dropIndex tenant' => tenant' = tenant
  | _ => False

/-- Sessions are read under their ids, as they were created, once for each id; and `delete_for_tenant` changes nothing
but the tenant's set and the keys of its sessions. -/
structure Isolated {D : Type} (server : RedisServer) (w : Machine.State (RedisSessions D) (Instr D)) : Prop where
  once : (w.core.created.map (·.id)).Nodup
  reads : ∀ m id x, w.core.returns server m id = some x → x.id = id ∧ Known w.core.created x
  deletes : ∀ th m t tenant, (redisCalls D server).step w (.run th m) = some t →
    (∃ i, Machine.Next w th i ∧ i.OfDeleteForTenant tenant) → ∀ key, t.core.db.lookup key ≠ w.core.db.lookup key →
      key = tenantSetKey tenant ∨ ∃ x exp, w.core.db.lookup key = some (.session x, exp) ∧ x.tenant = tenant

section
variable {D : Type} {server : RedisServer} {m : Moment} {s : RedisSessions D}

theorem lookup_send_del {key k : String} (h : (s.send server m (.del key)).db.lookup k ≠ s.db.lookup k) :
    k = key ∧ s.db.lookup k ≠ none := by
  unfold RedisSessions.send at h
  rcases send_cases server m s.db (.del key) with he | he
  · rw [he, RedisServer.serve, AssocMap.lookup_erase_eq] at h
    by_cases hk : k = key
    · rw [if_pos hk] at h
      exact ⟨hk, h.symm⟩
    · rw [if_neg hk] at h
      exact absurd rfl h
  · exact absurd (congrArg (AList.lookup k) he) h

theorem TypedState.isolated {w : Machine.State (RedisSessions D) (Instr D)} (h : TypedState w) : Isolated server w where
  once := h.core.fresh
  reads m id x hx := by
    obtain ⟨exp, hl⟩ := returns_some hx
    obtain ⟨hkey, hknown⟩ := h.core.session _ _ _ (Keyspace.lookup_of_live hl)
    exact ⟨(sessKey_injective hkey).symm, hknown⟩
  deletes th m t tenant ht hof key hkey := by
    obtain ⟨i, ⟨rest, hth⟩, hof⟩ := hof
    have hfits := h.threads _ (Machine.mem_of_next hth) i List.mem_cons_self
    cases (redisCalls D server).moves_of_step ht with
    | @run _ _ j rest' more core hth' hi =>
      obtain ⟨rfl, rfl⟩ : i = j ∧ rest = rest' := List.cons.inj (Option.some.inj (hth.symm.trans hth'))
      cases i with
      | readMembers tenant' =>
        cases hi
        exact absurd rfl hkey
      | dropIndex tenant' =>
        cases hi
        cases hof
        exact Or.inl (lookup_send_del hkey).1
      | revoke tenant' id =>
        cases hi
        cases hof
        obtain ⟨rfl, hheld⟩ := lookup_send_del hkey
        obtain ⟨y, hy, rfl, htenant⟩ := hfits
        obtain ⟨⟨v, exp⟩, hl⟩ := Option.ne_none_iff_exists'.mp hheld
        cases v with
        | session x =>
          obtain ⟨hid, hknown⟩ := h.core.session _ _ _ hl
          refine Or.inr ⟨x, exp, hl, hknown.ownedBy.unique h.core.fresh ⟨y, hy, sessKey_injective hid, htenant⟩⟩
        | ids ids =>
          obtain ⟨-, tenant', hset, -⟩ := h.core.ids _ _ _ hl
          exact absurd hset (sessKey_ne_tenantSetKey (h.core.uuid y hy) tenant')
      | _ => exact absurd hof id

/-- **Tenants are isolated**, whatever calls overlap, clocks show and connections lose. -/
theorem sessions_isolated (server : RedisServer) (labels : List (Machine.Label Moment (SessionOp D) Empty)) :
    LabelledRun.AllStates (redisCalls D server).step (Isolated server) { core := {} } labels :=
  LabelledRun.AllStates.mono _ (fun _ h => h.isolated)
    (LabelledRun.allStates_of_step _ (fun _ _ _ h ht => typed_step h ht) labels typed_start)

end

/-! ## Deleted sessions -/

/-- The commands that delete a session. -/
def Instr.Deletes {D : Type} (id : String) : Instr D → Prop
  | .drop id' | .remove id' | .revoke _ id' => id' = id
  | _ => False

/-- The commands that are alone in their calls when they are to come. -/
def Instr.alone {D : Type} : Instr D → Bool
  | .store .. | .read _ | .readToTouch _ | .rewrite .. | .readToDelete _ | .readMembers _ => true
  | _ => false

def Single {D : Type} (prog : List (Instr D)) : Prop := ∀ i ∈ prog, i.alone = true → prog = [i]

/-- Not the write of a `touch`. -/
def Instr.Leaves {D : Type} (id : String) (i : Instr D) : Prop := ∀ x, i ≠ .rewrite id x

/-- A session was created with the id, and its key holds none. -/
structure Gone {D : Type} (id : String) (s : RedisSessions D) : Prop where
  created : id ∈ s.created.map (·.id)
  key : ∀ x exp, s.db.lookup (sessKey id) ≠ some (.session x, exp)

section
variable {D : Type} {server : RedisServer} {m : Moment} {s s' : RedisSessions D} {id : String}

theorem single_singleton (i : Instr D) : Single [i] := by
  intro j hj _
  rw [List.mem_singleton.mp hj]

theorem single_nil : Single ([] : List (Instr D)) := fun _ hj => nomatch hj

theorem single_of_not_alone {prog : List (Instr D)} (h : ∀ i ∈ prog, i.alone = false) : Single prog := by
  intro i hi ha
  rw [h i hi] at ha
  cases ha

/-- What a call goes on with. -/
theorem instr_more {i : Instr D} {more : List (Instr D)} (hstep : s.instr server m i = some (s', more)) :
    Single more ∧ (i.alone = false → more = []) := by
  cases i with
  | store newId tenant data ttl =>
    simp only [RedisSessions.instr] at hstep
    refine ⟨?_, fun h => nomatch h⟩
    split at hstep
    · cases hstep
    · split at hstep
      · cases hstep
        exact single_nil
      · cases hstep
        split
        · exact single_singleton _
        · exact single_nil
  | read id =>
    cases hstep
    refine ⟨?_, fun h => nomatch h⟩
    split
    · split
      · exact single_singleton _
      · exact single_nil
    · exact single_nil
  | readToTouch id =>
    cases hstep
    refine ⟨?_, fun h => nomatch h⟩
    split
    · exact single_singleton _
    · exact single_nil
  | readToDelete id =>
    cases hstep
    refine ⟨?_, fun h => nomatch h⟩
    split
    · exact single_of_not_alone (by simp [Instr.alone])
    · exact single_singleton _
    · exact single_nil
  | readMembers tenant =>
    cases hstep
    refine ⟨?_, fun h => nomatch h⟩
    split
    · refine single_of_not_alone fun j hj => ?_
      rcases List.mem_append.mp hj with hj | hj
      · obtain ⟨id, -, rfl⟩ := List.mem_map.mp hj
        rfl
      · rw [List.mem_singleton.mp hj]
        rfl
    · exact single_nil
  | _ =>
    cases hstep
    exact ⟨single_nil, fun _ => rfl⟩

theorem single_step {w t : Machine.State (RedisSessions D) (Instr D)} {a : Machine.Label Moment (SessionOp D) Empty}
    (h : ∀ prog ∈ w.threads, Single prog) (ht : (redisCalls D server).step w a = some t) :
    ∀ prog ∈ t.threads, Single prog := by
  intro prog' hprog
  cases (redisCalls D server).moves_of_step ht with
  | spawn op =>
    rcases List.mem_append.mp hprog with hprog | hprog
    · exact h prog' hprog
    · rw [List.mem_singleton.mp hprog]
      cases op <;> exact single_singleton _
  | env e => cases e
  | @run th k i rest more core hth hi =>
    rcases List.mem_or_eq_of_mem_set hprog with hprog | rfl
    · exact h prog' hprog
    · have hall := h _ (Machine.mem_of_next hth)
      obtain ⟨hmore, hnone⟩ := instr_more hi
      cases ha : i.alone with
      | true =>
        obtain rfl : rest = [] := (List.cons.inj (hall i List.mem_cons_self ha)).2
        rw [List.append_nil]
        exact hmore
      | false =>
        rw [hnone ha]
        intro j hj hja
        have hone := hall j (List.mem_cons_of_mem _ hj) hja
        rw [(List.cons.inj hone).2] at hj
        cases hj

/-- A command that writes no session at the key leaves it without one. -/
theorem Gone.send (h : Gone id s) {c : Command D} (hc : ∀ x secs, c ≠ .set (sessKey id) x secs) :
    Gone id (s.send server m c) where
  created := h.created
  key x exp hk := by
    unfold RedisSessions.send at hk
    rcases sent_cases server m s.db c with he | ⟨key, v, hw, he⟩ | ⟨key, -, he⟩
    · rw [he] at hk
      exact h.key x exp hk
    · rw [he, AssocMap.lookup_insert_eq] at hk
      split at hk
      · next hkey =>
        cases hk
        cases hw with
        | set key x secs exp => exact hc x secs (by rw [hkey])
      · exact h.key x exp hk
    · rw [he, AssocMap.lookup_erase_eq] at hk
      split at hk
      · cases hk
      · exact h.key x exp hk

theorem Gone.returns (h : Gone id s) (m : Moment) : s.returns server m id = none := by
  rw [← Option.not_isSome_iff_eq_none]
  intro hsome
  obtain ⟨x, hx⟩ := Option.isSome_iff_exists.mp hsome
  obtain ⟨exp, hl⟩ := returns_some hx
  exact h.key x exp (Keyspace.lookup_of_live hl)

/-- A command of a call other than the write of a `touch` keeps a session away. -/
theorem gone_instr (h : Gone id s) {i : Instr D} (hi : i.Leaves id) {more : List (Instr D)}
    (hstep : s.instr server m i = some (s', more)) :
    Machine.Keeps (Gone id) (fun _ i => i.Leaves id) s s' more := by
  have hsend : ∀ c : Command D, (∀ x secs, c ≠ .set (sessKey id) x secs) →
      Machine.Keeps (Gone id) (fun _ (i : Instr D) => i.Leaves id) s (s.send server m c) [] :=
    fun c hc => ⟨h.send hc, List.forall_mem_nil _, fun _ hj => hj⟩
  cases i with
  | store newId tenant data ttl =>
    simp only [RedisSessions.instr] at hstep
    split at hstep
    · cases hstep
    · next hnew =>
      push Not at hnew
      split at hstep
      · cases hstep
        exact ⟨h, List.forall_mem_nil _, fun _ hj => hj⟩
      · cases hstep
        refine ⟨⟨List.mem_cons_of_mem _ h.created, ?_⟩, ?_, fun _ hj => hj⟩
        · have hother : ∀ y x n secs, Command.set (D := D) (sessKey newId) y n ≠ .set (sessKey id) x secs := by
            rintro y x n secs hc
            injection hc with hkey
            exact hnew.1 (sessKey_injective hkey ▸ h.created)
          exact (h.send fun x secs => hother _ x _ secs).key
        · intro j hj x
          split at hj
          · rw [List.mem_singleton.mp hj]
            exact fun he => nomatch he
          · cases hj
  | rewrite id' y =>
    cases hstep
    have hne : sessKey id' ≠ sessKey id := fun he => hi y (by rw [sessKey_injective he])
    unfold RedisSessions.rewrite
    split
    · split
      · exact hsend _ fun x secs hc => hne (by injection hc)
      · exact ⟨h, List.forall_mem_nil _, fun _ hj => hj⟩
    · exact hsend _ fun x secs hc => hne (by injection hc)
  | readToTouch id' =>
    cases hstep
    refine ⟨h, fun j hj x => ?_, fun _ hj => hj⟩
    split at hj
    · next y hy =>
      rw [List.mem_singleton.mp hj]
      intro he
      injection he with hid
      subst hid
      obtain ⟨exp, hl⟩ := fetch_some hy
      exact h.key y exp (Keyspace.lookup_of_live hl)
    · cases hj
  | read id' =>
    cases hstep
    refine ⟨h, fun j hj x he => ?_, fun _ hj => hj⟩
    subst he
    split at hj
    · split at hj <;> simp at hj
    · cases hj
  | readToDelete id' =>
    cases hstep
    refine ⟨h, fun j hj x he => ?_, fun _ hj => hj⟩
    subst he
    split at hj <;> simp at hj
  | readMembers tenant =>
    cases hstep
    refine ⟨h, fun j hj x he => ?_, fun _ hj => hj⟩
    subst he
    split at hj <;> simp at hj
  | _ =>
    cases hstep
    exact hsend _ fun x secs hc => nomatch hc

theorem gone_step {w t : Machine.State (RedisSessions D) (Instr D)} {a : Machine.Label Moment (SessionOp D) Empty}
    (h : Machine.Good (Gone id) (fun _ (i : Instr D) => i.Leaves id) w) (ht : (redisCalls D server).step w a = some t) :
    Machine.Good (Gone id) (fun _ (i : Instr D) => i.Leaves id) t := by
  refine (redisCalls D server).good_step ?_ (fun _ e => nomatch e) h ht ?_
  · intro c op _ i hi x he
    cases op <;> rw [List.mem_singleton.mp hi] at he <;> cases he
  · intro th k i core more _ _ hp hi
    exact gone_instr h.core hp hi

/-- A step that deletes a session. -/
theorem gone_deletes {i : Instr D} (hi : i.Deletes id) (hc : id ∈ s.created.map (·.id)) (hup : m.connection = .up)
    {more : List (Instr D)} (hstep : s.instr server m i = some (s', more)) : Gone id s' := by
  have hdel : Gone id (s.send server m (.del (sessKey id))) := by
    refine ⟨hc, fun x exp hk => ?_⟩
    unfold RedisSessions.send RedisServer.send at hk
    rw [hup] at hk
    simp only [RedisServer.serve, AssocMap.lookup_erase_eq, if_pos] at hk
    cases hk
  cases i with
  | drop id' =>
    cases hstep
    cases hi
    exact hdel
  | remove id' =>
    cases hstep
    cases hi
    exact hdel
  | revoke tenant id' =>
    cases hstep
    cases hi
    exact hdel
  | _ => exact False.elim hi

/-- The write of a `touch`, when the server takes it, brings its session back. -/
theorem returns_rewrite {x : Session D} (haccept : ∃ now, server.acceptsTtl now 1 = true) :
    ∃ m m', (s.rewrite server m id x).returns server m' id = some x := by
  obtain ⟨now, hnow⟩ := haccept
  cases hexp : x.expiresAt with
  | none =>
    refine ⟨{ server := now, client := 0 }, { server := now, client := 0 }, ?_⟩
    have hdb : (s.rewrite server { server := now, client := 0 } id x).db =
        s.db.insert (sessKey id) (.session x, none) := by
      unfold RedisSessions.rewrite
      rw [hexp]
      rfl
    have hfetch : (s.rewrite server { server := now, client := 0 } id x).fetch server
        { server := now, client := 0 } id = .ok (some x) := by
      unfold RedisSessions.fetch RedisServer.send
      simp only [RedisServer.serve, Keyspace.live, hdb, AssocMap.lookup_insert_eq, if_pos, Option.filter,
        Option.all_none]
    unfold RedisSessions.returns
    rw [hfetch]
    simp [Session.isExpired, hexp]
  | some exp =>
    refine ⟨{ server := now, client := exp - 10 ^ 9 }, { server := now, client := exp }, ?_⟩
    have hsecs : secsUntil (exp - 10 ^ 9) exp = 1 := by
      unfold secsUntil
      rw [if_pos (by omega), show exp - (exp - 10 ^ 9) = 10 ^ 9 by omega]
      rfl
    have hdb : (s.rewrite server { server := now, client := exp - 10 ^ 9 } id x).db =
        s.db.insert (sessKey id) (.session x, some (now + 1 * 10 ^ 9)) := by
      unfold RedisSessions.rewrite
      simp only [hexp, hsecs, RedisSessions.send, RedisServer.send, RedisServer.serve, hnow]
      rfl
    have hfetch : (s.rewrite server { server := now, client := exp - 10 ^ 9 } id x).fetch server
        { server := now, client := exp } id = .ok (some x) := by
      have hlive : now < now + 1 * 10 ^ 9 := by omega
      unfold RedisSessions.fetch RedisServer.send
      simp only [RedisServer.serve, Keyspace.live, hdb, AssocMap.lookup_insert_eq, if_pos, Option.filter,
        Option.all_some, decide_eq_true hlive]
    unfold RedisSessions.returns
    rw [hfetch]
    simp [Session.isExpired, hexp]

/-- **When a deleted session stays deleted**: exactly when no `touch` of it has read it and is yet to write it back. -/
theorem deleted_for_good_iff (server : RedisServer) (haccept : ∃ now, server.acceptsTtl now 1 = true)
    {labels : List (Machine.Label Moment (SessionOp D) Empty)} {w u : Machine.State (RedisSessions D) (Instr D)}
    (hw : LabelledRun.exec (redisCalls D server).step { core := {} } labels = some w)
    {th : Nat} {m : Moment} {id : String} (hdel : ∃ i, Machine.Next w th i ∧ i.Deletes id) (hup : m.connection = .up)
    (hcreated : id ∈ w.core.created.map (·.id)) (hu : (redisCalls D server).step w (.run th m) = some u) :
    (∀ later, LabelledRun.AllStates (redisCalls D server).step
      (fun t => ∀ m, t.core.returns server m id = none) u later) ↔
        ∀ th' x, ¬ Machine.Next w th' (.rewrite id x) := by
  have hsingle : ∀ prog ∈ w.threads, Single prog :=
    (LabelledRun.allStates_of_step (redisCalls D server).step (fun _ _ _ h ht => single_step h ht) labels
      (show ∀ prog ∈ ({ core := {} } : Machine.State (RedisSessions D) (Instr D)).threads, Single prog from
        List.forall_mem_nil _)).last _ hw
  obtain ⟨i, ⟨rest, hth⟩, hi⟩ := hdel
  have hmoves := (redisCalls D server).moves_of_step hu
  cases hmoves with
  | @run _ _ j rest' more core hth' hstep =>
    obtain ⟨rfl, rfl⟩ : i = j ∧ rest = rest' := List.cons.inj (Option.some.inj (hth.symm.trans hth'))
    have halone : i.alone = false := by
      cases i <;> first | rfl | exact False.elim hi
    constructor
    · rintro hgone th' x ⟨rest', hn⟩
      have hne : th ≠ th' := by
        rintro rfl
        rw [hth] at hn
        cases hn
        exact hi
      obtain ⟨k, m', hreturns⟩ : ∃ k m', (core.rewrite server k id x).returns server m' id = some x :=
        returns_rewrite haccept
      have hn' : (w.threads.set th (more ++ rest))[th']? = some (.rewrite id x :: rest') :=
        (List.getElem?_set_ne hne).trans hn
      have hwrite : (redisCalls D server).instr core (.rewrite id x) k = some (core.rewrite server k id x, []) := rfl
      have hstep' := (redisCalls D server).step_run (w := { core, threads := w.threads.set th (more ++ rest) }) hn'
        hwrite
      have hstates := (hgone [.run th' k]).2 _ hstep'
      exact absurd (hstates m') (by rw [hreturns]; exact fun he => nomatch he)
    · intro hnone later
      have hleaves : ∀ prog ∈ w.threads.set th (more ++ rest), ∀ j ∈ prog, j.Leaves id := by
        rintro prog hprog j hj x rfl
        have hone := single_step hsingle hu prog hprog _ hj rfl
        obtain ⟨th', hn⟩ := List.mem_iff_getElem?.mp hprog
        rw [hone] at hn
        by_cases hne : th = th'
        · subst hne
          obtain ⟨-, hnothing⟩ := instr_more hstep
          rw [List.getElem?_set_self (List.getElem?_eq_some_iff.mp hth).1, hnothing halone] at hn
          have hrest : rest = [.rewrite id x] := Option.some.inj hn
          have hfirst := hsingle _ (Machine.mem_of_next hth) (.rewrite id x) (by rw [hrest]; simp) rfl
          rw [hrest] at hfirst
          cases hfirst
        · exact hnone th' x ⟨[], (List.getElem?_set_ne hne).symm.trans hn⟩
      have hgood : Machine.Good (Gone id) (fun _ (i : Instr D) => i.Leaves id)
          { core, threads := w.threads.set th (more ++ rest) } :=
        ⟨gone_deletes hi hcreated hup hstep, hleaves⟩
      exact LabelledRun.AllStates.mono _ (fun _ h m => h.core.returns m)
        (LabelledRun.allStates_of_step _ (fun _ _ _ h ht => gone_step h ht) later hgood)

end

/-! ## A touch that is under way -/

/-- A server that takes every time-to-live. -/
def lenient : RedisServer := { glob := fun _ _ => true, scan := fun _ _ _ => [], acceptsTtl := fun _ _ => true }

def noon : Moment := { server := 0, client := 0 }

/-- A session is read by a `touch`, then a `delete` comes to the removal. -/
def touchedMeanwhile : List (Machine.Label Moment (SessionOp Unit) Empty) :=
  [.spawn (.create "a" ⟨1⟩ () none), .run 0 noon, .spawn (.touch "a"), .run 1 noon, .spawn (.delete "a"), .run 2 noon,
    .run 2 noon]

/-- The session is back in some state after the removal. -/
theorem deleted_comes_back : ∃ w u,
    LabelledRun.exec (redisCalls Unit lenient).step { core := {} } touchedMeanwhile = some w ∧
    (redisCalls Unit lenient).step w (.run 2 noon) = some u ∧
    ¬ ∀ later, LabelledRun.AllStates (redisCalls Unit lenient).step
      (fun t => ∀ m, t.core.returns lenient m "a" = none) u later := by
  have hw : ∃ w, LabelledRun.exec (redisCalls Unit lenient).step { core := {} } touchedMeanwhile = some w ∧
      (∃ i, Machine.Next w 2 i ∧ i.Deletes "a") ∧ "a" ∈ w.core.created.map (·.id) ∧
      (∃ x, Machine.Next w 1 (.rewrite "a" x)) ∧ ∃ u, (redisCalls Unit lenient).step w (.run 2 noon) = some u :=
    ⟨_, rfl, ⟨_, ⟨_, rfl⟩, rfl⟩, List.mem_singleton.mpr rfl, ⟨_, _, rfl⟩, _, rfl⟩
  obtain ⟨w, hw, hdel, hcreated, ⟨x, hx⟩, u, hu⟩ := hw
  exact ⟨w, u, hw, hu, fun hgone =>
    (deleted_for_good_iff lenient ⟨0, rfl⟩ hw hdel rfl hcreated hu).mp hgone 1 x hx⟩

end TptErp.Cache
