import TptErp.IdText
import TptErp.Cache.Sessions
import TptErp.Lib.Glob
import TptErp.Lib.Separated
import Mathlib.Data.Set.Basic

/-!
# Read models

`ReadModelCache` in memory, a map from tenant, model and key, and over Redis, where the three are one text:

    tpt:rm:{tenant}:{model}:{key}

A model name may contain the separator.  What decides is whether one name in use goes on after another and a `:`:

    Faithful ↔ no name in M continues another        (faithful_iff)

The Redis server is what is documented of it; so is `serde_json`.
-/

namespace TptErp.Cache

open Tenant

/-! ## Calls -/

inductive ModelOp (V : Type)
  | get (tenant : TenantId) (model key : String)
  | put (tenant : TenantId) (model key : String) (value : V) (ttl : Option Nat)
  | invalidate (tenant : TenantId) (model key : String)
  | invalidateModel (tenant : TenantId) (model : String)

/-- A call, with the time that the clock shows to it. -/
structure ModelCall (V : Type) where
  time : Int
  op : ModelOp V

/-- The errors, without the texts that the libraries give them. -/
inductive CacheError
  | serialize
  | backend

inductive Answer (V : Type)
  | got (r : Except CacheError (Option V))
  | done (r : Except CacheError Unit)
  | panicked

/-! ## In memory -/

/-- The read models of `Inner`; its sessions are in `Cache/Sessions`. -/
structure Models (V : Type) where
  models : AssocMap (TenantId × String × String) (V × Option Int) := ∅

namespace Models

variable {V : Type} (s : Models V)

def get (now : Int) (tenant : TenantId) (model key : String) : Option V × Models V :=
  match s.models.lookup (tenant, model, key) with
  | some (v, some exp) => if exp ≤ now then (none, { models := s.models.erase (tenant, model, key) }) else (some v, s)
  | some (v, none) => (some v, s)
  | none => (none, s)

/-- `none`: the sum of the time and the time-to-live panics. -/
def put (now : Int) (tenant : TenantId) (model key : String) (value : V) (ttl : Option Nat) : Option (Models V) :=
  (expiry now ttl).map fun expiresAt => { models := s.models.insert (tenant, model, key) (value, expiresAt) }

def invalidate (tenant : TenantId) (model key : String) : Models V :=
  { models := s.models.erase (tenant, model, key) }

def invalidateModel (tenant : TenantId) (model : String) : Models V :=
  { models := s.models.retain fun k => k.1 ≠ tenant ∨ k.2.1 ≠ model }

def apply (c : ModelCall V) : Answer V × Models V :=
  match c.op with
  | .get tenant model key => (.got (.ok (s.get c.time tenant model key).1), (s.get c.time tenant model key).2)
  | .put tenant model key value ttl =>
    match s.put c.time tenant model key value ttl with
    | some s' => (.done (.ok ()), s')
    | none => (.panicked, s)
  | .invalidate tenant model key => (.done (.ok ()), s.invalidate tenant model key)
  | .invalidateModel tenant model => (.done (.ok ()), s.invalidateModel tenant model)

end Models

/-! ## Redis -/

/-- The strings that Redis holds, with the times at which they expire. -/
abbrev Db := AssocMap String (String × Option Int)

/-- The value at a key: an expired one is not there. -/
def Db.get (now : Int) (db : Db) (key : String) : Option String :=
  ((db.lookup key).filter fun x => x.2.all fun exp => now < exp).map Prod.fst

def Db.del (db : Db) (keys : List String) : Db := keys.foldl (fun db key => db.erase key) db

/-- A server: whether a pattern matches a key, the batches that a whole `SCAN … MATCH pattern` returns while the keys
that it has returned are deleted, and the seconds that `SETEX` accepts. -/
structure RedisServer where
  glob : String → String → Bool
  scan : Int → Db → String → List (List String)
  acceptsTtl : Int → Nat → Bool

/-- A pattern of ordinary characters and a star matches what begins with these.  A scan returns only keys that match, and
every one that is there from its start to its end: a key that it did not return would not be deleted, and be there. -/
structure RedisServer.Documented (server : RedisServer) : Prop where
  glob : ∀ text : String, (∀ c ∈ text.toList, c ∉ Glob.specials) → ∀ key : String,
    server.glob (text ++ "*") key = true ↔ text.toList <+: key.toList
  scan_matches : ∀ now db pattern keys key, keys ∈ server.scan now db pattern → key ∈ keys →
    server.glob pattern key = true
  scan_complete : ∀ now db pattern key json, db.get now key = some json → server.glob pattern key = true →
    ∃ keys ∈ server.scan now db pattern, key ∈ keys

/-- `serde_json`, for the values of a type. -/
structure Codec (V : Type) where
  toString : V → String
  fromStr : String → Option V

/-- The `as_secs` of a duration. -/
def asSecs (d : Nat) : Nat := d / 10 ^ 9

def modelKey (tenant : TenantId) (model key : String) : String :=
  "tpt:rm:" ++ tenant.asStr ++ ":" ++ model ++ ":" ++ key

/-- The pattern of `invalidate_model`. -/
def modelPattern (tenant : TenantId) (model : String) : String :=
  "tpt:rm:" ++ tenant.asStr ++ ":" ++ model ++ ":*"

/-- `RedisReadModelCache`, on its server. -/
structure RedisReadModelCache (V : Type) where
  server : RedisServer
  codec : Codec V

namespace RedisReadModelCache

variable {V : Type} (cache : RedisReadModelCache V)

def get (now : Int) (db : Db) (tenant : TenantId) (model key : String) : Except CacheError (Option V) :=
  match db.get now (modelKey tenant model key) with
  | none => .ok none
  | some json =>
    match cache.codec.fromStr json with
    | some v => .ok (some v)
    | none => .error .serialize

/-- `set_ex` with the whole seconds, or `set`. -/
def put (now : Int) (db : Db) (tenant : TenantId) (model key : String) (value : V) (ttl : Option Nat) :
    Except CacheError Unit × Db :=
  let json := cache.codec.toString value
  match ttl with
  | some d =>
    if cache.server.acceptsTtl now (asSecs d) then
      (.ok (), db.insert (modelKey tenant model key) (json, some (now + asSecs d * 10 ^ 9)))
    else (.error .backend, db)
  | none => (.ok (), db.insert (modelKey tenant model key) (json, none))

def invalidate (db : Db) (tenant : TenantId) (model key : String) : Db := db.del [modelKey tenant model key]

def invalidateModel (now : Int) (db : Db) (tenant : TenantId) (model : String) : Db :=
  (cache.server.scan now db (modelPattern tenant model)).foldl
    (fun db keys => if keys.isEmpty then db else db.del keys) db

def apply (db : Db) (c : ModelCall V) : Answer V × Db :=
  match c.op with
  | .get tenant model key => (.got (cache.get c.time db tenant model key), db)
  | .put tenant model key value ttl =>
    (.done (cache.put c.time db tenant model key value ttl).1, (cache.put c.time db tenant model key value ttl).2)
  | .invalidate tenant model key => (.done (.ok ()), invalidate db tenant model key)
  | .invalidateModel tenant model => (.done (.ok ()), cache.invalidateModel c.time db tenant model)

end RedisReadModelCache

/-! ## Both, side by side -/

/-- Both caches. -/
structure Caches (V : Type) where
  memory : Models V := {}
  redis : Db := ∅

/-- No entry of either has expired. -/
structure Caches.Unexpired {V : Type} (s : Caches V) (now : Int) : Prop where
  memory : ∀ k v exp, s.memory.models.lookup k = some (v, some exp) → now < exp
  redis : ∀ key json exp, s.redis.lookup key = some (json, some exp) → now < exp

/-- The names in a call: those of the entries it is about, and those whose entries it invalidates. -/
def ModelOp.Uses {V : Type} (names invalidated : Set String) : ModelOp V → Prop
  | .get _ model _ | .put _ model _ _ _ | .invalidate _ model _ => model ∈ names
  | .invalidateModel _ model => model ∈ invalidated

namespace RedisReadModelCache

variable {V : Type} (cache : RedisReadModelCache V)

/-- A call to both. -/
def step (s : Caches V) (c : ModelCall V) : Option (Caches V) :=
  some { memory := (s.memory.apply c).2, redis := (cache.apply s.redis c).2 }

/-- What is put can be read back, and its time-to-live is one that both accept. -/
def Storable (c : ModelCall V) : Prop :=
  match c.op with
  | .put _ _ _ value ttl => cache.codec.fromStr (cache.codec.toString value) = some value ∧
      ∀ d, ttl = some d → cache.server.acceptsTtl c.time (asSecs d) = true ∧ expiry c.time ttl ≠ none
  | _ => True

/-- **The Redis cache is the one in memory**, for entries of some models and `invalidate_model` of some of these: two of
their triples have two keys, `invalidate_model` removes the entries of its tenant and model and no others, and a run in
which nothing expires gives the same answers. -/
structure Faithful (names invalidated : Set String) : Prop where
  keys : ∀ tenant model key tenant' model' key', model ∈ names → model' ∈ names →
    modelKey tenant model key = modelKey tenant' model' key' → tenant = tenant' ∧ model = model' ∧ key = key'
  removes : ∀ now (db : Db) tenant model, model ∈ invalidated → ∀ tenant' model' key', model' ∈ names →
    (cache.invalidateModel now db tenant model).get now (modelKey tenant' model' key') =
      if tenant' = tenant ∧ model' = model then none else db.get now (modelKey tenant' model' key')
  answers : ∀ calls : List (ModelCall V), (∀ c ∈ calls, c.op.Uses names invalidated ∧ cache.Storable c) →
    LabelledRun.AllSteps cache.step (fun s c => s.Unexpired c.time) {} calls →
      LabelledRun.AllSteps cache.step (fun s c => (cache.apply s.redis c).1 = (s.memory.apply c).1) {} calls

end RedisReadModelCache

/-- A name that goes on after another and the separator. -/
def Continues (model' model : String) : Prop := (model ++ ":").toList <+: model'.toList

/-! ## Keys -/

theorem toList_modelKey (tenant : TenantId) (model key : String) :
    (modelKey tenant model key).toList =
      "tpt:rm:".toList ++ (tenant.asStr.toList ++ ':' :: (model.toList ++ ':' :: key.toList)) := by
  unfold modelKey
  simp only [String.toList_append, List.append_assoc]
  rfl

theorem colon_notMem_asStr (tenant : TenantId) : ':' ∉ tenant.asStr.toList := by
  intro h
  exact absurd (Id.mem_asStr h) (by decide)

/-- The fields of a key, when the names do not continue each other. -/
theorem fields_inj {names : Set String} (hnames : ∀ model ∈ names, ∀ model' ∈ names, ¬ Continues model' model)
    {tenant tenant' : TenantId} {model model' : String} (hm : model ∈ names) (hm' : model' ∈ names)
    {key key' : List Char}
    (h : "tpt:rm:".toList ++ (tenant.asStr.toList ++ ':' :: (model.toList ++ ':' :: key)) =
      "tpt:rm:".toList ++ (tenant'.asStr.toList ++ ':' :: (model'.toList ++ ':' :: key'))) :
    tenant = tenant' ∧ model = model' ∧ key = key' := by
  rw [List.append_cancel_left_eq,
    Separated.append_cons_inj (colon_notMem_asStr tenant) (colon_notMem_asStr tenant')] at h
  obtain ⟨htenant, h⟩ := h
  refine ⟨Id.asStr_injective (String.toList_injective htenant), ?_⟩
  rcases Separated.append_cons_cases h with ⟨hmodel, hkey⟩ | hle | hle
  · exact ⟨String.toList_injective hmodel, hkey⟩
  · refine absurd ?_ (hnames model hm model' hm')
    unfold Continues
    rw [String.toList_append]
    exact hle
  · refine absurd ?_ (hnames model' hm' model hm)
    unfold Continues
    rw [String.toList_append]
    exact hle

theorem modelKey_inj {names : Set String} (hnames : ∀ model ∈ names, ∀ model' ∈ names, ¬ Continues model' model)
    {tenant tenant' : TenantId} {model model' key key' : String} (hm : model ∈ names) (hm' : model' ∈ names) :
    modelKey tenant model key = modelKey tenant' model' key' ↔ (tenant, model, key) = (tenant', model', key') := by
  constructor
  · intro h
    have hline := congrArg String.toList h
    rw [toList_modelKey, toList_modelKey] at hline
    obtain ⟨rfl, rfl, hkey⟩ := fields_inj hnames hm hm' hline
    rw [String.toList_injective hkey]
  · intro h
    cases h
    rfl

/-- The pattern of a model matches its keys. -/
theorem glob_modelPattern {server : RedisServer} (h : server.Documented) {names : Set String}
    (hnames : ∀ model ∈ names, ∀ model' ∈ names, ¬ Continues model' model) {model model' : String} (hm : model ∈ names)
    (hm' : model' ∈ names) (hplain : ∀ c ∈ model.toList, c ∉ Glob.specials) (tenant tenant' : TenantId)
    (key' : String) :
    server.glob (modelPattern tenant model) (modelKey tenant' model' key') = true ↔
      tenant' = tenant ∧ model' = model := by
  have htext : modelPattern tenant model = "tpt:rm:" ++ tenant.asStr ++ ":" ++ model ++ ":" ++ "*" := by
    have hstar : ":*" = ":" ++ "*" := rfl
    rw [modelPattern, hstar]
    simp only [String.append_assoc]
  have hlist : ("tpt:rm:" ++ tenant.asStr ++ ":" ++ model ++ ":").toList =
      "tpt:rm:".toList ++ (tenant.asStr.toList ++ ':' :: (model.toList ++ [':'])) := by
    simp only [String.toList_append, List.append_assoc]
    rfl
  have hordinary : ∀ c ∈ ("tpt:rm:" ++ tenant.asStr ++ ":" ++ model ++ ":").toList, c ∉ Glob.specials := by
    intro c hc
    rw [hlist] at hc
    simp only [List.mem_append, List.mem_cons, List.not_mem_nil, or_false] at hc
    rcases hc with hc | hc | rfl | hc | rfl
    · exact Glob.plain_of_all (by decide) c hc
    · exact Glob.plain_of_all (by decide) c (Id.mem_asStr hc)
    · decide
    · exact hplain c hc
    · decide
  rw [htext, h.glob _ hordinary, hlist, toList_modelKey]
  constructor
  · rintro ⟨rest, hrest⟩
    have hline : "tpt:rm:".toList ++ (tenant'.asStr.toList ++ ':' :: (model'.toList ++ ':' :: key'.toList)) =
        "tpt:rm:".toList ++ (tenant.asStr.toList ++ ':' :: (model.toList ++ ':' :: rest)) := by
      rw [← hrest]
      simp
    obtain ⟨htenant, hmodel, -⟩ := fields_inj hnames hm' hm hline
    exact ⟨htenant, hmodel⟩
  · rintro ⟨rfl, rfl⟩
    exact ⟨key'.toList, by simp⟩

/-! ## Redis, key by key -/

theorem Db.lookup_del (db : Db) (keys : List String) (key : String) :
    (db.del keys).lookup key = if key ∈ keys then none else db.lookup key :=
  AssocMap.lookup_foldl_erase keys db key

theorem Db.get_congr {db db' : Db} {key : String} (h : db.lookup key = db'.lookup key) (now : Int) :
    db.get now key = db'.get now key := by
  unfold Db.get
  rw [h]

/-- An entry that has not expired is read. -/
theorem Db.get_eq_lookup {db : Db} {now : Int} {key : String}
    (hlive : ∀ json exp, db.lookup key = some (json, some exp) → now < exp) :
    db.get now key = (db.lookup key).map Prod.fst := by
  unfold Db.get
  congr 1
  cases h : db.lookup key with
  | none => rfl
  | some x =>
    obtain ⟨json, exp⟩ := x
    cases exp with
    | none => rfl
    | some exp => simp [hlive json exp h]

theorem Db.live_of_get {db : Db} {now : Int} {key json : String} (h : db.get now key = some json) :
    ∀ json exp, db.lookup key = some (json, some exp) → now < exp := by
  intro json' exp hl
  unfold Db.get at h
  rw [hl] at h
  by_contra hexp
  simp [hexp] at h

namespace RedisReadModelCache

variable {V : Type} {cache : RedisReadModelCache V}

theorem lookup_batches (batches : List (List String)) (db : Db) (key : String) :
    (batches.foldl (fun db keys => if keys.isEmpty then db else db.del keys) db).lookup key =
      if ∃ keys ∈ batches, key ∈ keys then none else db.lookup key := by
  induction batches generalizing db with
  | nil => simp
  | cons keys batches ih =>
    have hdel : (if keys.isEmpty then db else db.del keys).lookup key = if key ∈ keys then none else db.lookup key := by
      split
      · next h => rw [List.isEmpty_iff.mp h, if_neg List.not_mem_nil]
      · exact Db.lookup_del db keys key
    rw [List.foldl_cons, ih, hdel]
    by_cases h1 : key ∈ keys
    · simp [h1]
    · by_cases h2 : ∃ keys ∈ batches, key ∈ keys
      · rw [if_pos h2, if_pos (by obtain ⟨ks, hk, hmem⟩ := h2; exact ⟨ks, List.mem_cons_of_mem _ hk, hmem⟩)]
      · rw [if_neg h2, if_neg h1, if_neg (by simpa [h1] using h2)]

/-- `invalidate_model` removes what matches, of what has not expired. -/
theorem lookup_invalidateModel (h : cache.server.Documented) {now : Int} {db : Db} {key : String}
    (hlive : ∀ json exp, db.lookup key = some (json, some exp) → now < exp) (tenant : TenantId) (model : String) :
    (cache.invalidateModel now db tenant model).lookup key =
      if cache.server.glob (modelPattern tenant model) key = true then none else db.lookup key := by
  unfold invalidateModel
  rw [lookup_batches]
  cases hl : db.lookup key with
  | none => simp
  | some x =>
    have hget : db.get now key = some x.1 := by
      rw [Db.get_eq_lookup hlive, hl]
      rfl
    by_cases hglob : cache.server.glob (modelPattern tenant model) key = true
    · rw [if_pos hglob, if_pos (h.scan_complete now db _ key x.1 hget hglob)]
    · rw [if_neg hglob, if_neg]
      rintro ⟨keys, hkeys, hkey⟩
      exact hglob (h.scan_matches now db _ keys key hkeys hkey)

theorem get_invalidateModel (h : cache.server.Documented) (now : Int) (db : Db) (key : String) (tenant : TenantId)
    (model : String) :
    (cache.invalidateModel now db tenant model).get now key =
      if cache.server.glob (modelPattern tenant model) key = true then none else db.get now key := by
  cases hget : db.get now key with
  | none =>
    rw [ite_self]
    unfold invalidateModel
    have hl := lookup_batches (cache.server.scan now db (modelPattern tenant model)) db key
    split at hl
    · unfold Db.get
      rw [hl]
      rfl
    · rw [Db.get_congr hl, hget]
  | some json =>
    have hl := lookup_invalidateModel h (Db.live_of_get hget) tenant model
    rw [← hget]
    split at hl
    · next hglob =>
      rw [if_pos hglob]
      unfold Db.get
      rw [hl]
      rfl
    · next hglob => rw [if_neg hglob, Db.get_congr hl]

/-! ## The simulation -/

/-- At the keys of the models, Redis has the values of the entries in memory. -/
def Sim (cache : RedisReadModelCache V) (names : Set String) (s : Caches V) : Prop :=
  ∀ tenant model key, model ∈ names →
    (s.redis.lookup (modelKey tenant model key)).map (fun x => cache.codec.fromStr x.1) =
      (s.memory.models.lookup (tenant, model, key)).map fun x => some x.1

/-- The names in use: no two continue each other, and those that are invalidated are of ordinary characters. -/
structure Usable (names invalidated : Set String) : Prop where
  apart : ∀ model ∈ names, ∀ model' ∈ names, ¬ Continues model' model
  subset : invalidated ⊆ names
  plain : ∀ model ∈ invalidated, ∀ c ∈ model.toList, c ∉ Glob.specials

variable {names invalidated : Set String} {s : Caches V}

/-- Both caches change what they have for one entry, to the same. -/
theorem sim_write (h : Sim cache names s) (hn : Usable names invalidated) {tenant : TenantId} {model key : String}
    (hm : model ∈ names) {t : Caches V} {x : Option (V × Option Int)} {y : Option (String × Option Int)}
    (hmemory : ∀ k, t.memory.models.lookup k = if k = (tenant, model, key) then x else s.memory.models.lookup k)
    (hredis : ∀ k, t.redis.lookup k = if k = modelKey tenant model key then y else s.redis.lookup k)
    (hvalue : y.map (fun y => cache.codec.fromStr y.1) = x.map fun x => some x.1) : Sim cache names t := by
  intro tenant' model' key' hm'
  rw [hmemory, hredis]
  by_cases hk : modelKey tenant' model' key' = modelKey tenant model key
  · rw [if_pos hk, if_pos ((modelKey_inj hn.apart hm' hm).mp hk)]
    exact hvalue
  · rw [if_neg hk, if_neg fun htriple => hk ((modelKey_inj hn.apart hm' hm).mpr htriple)]
    exact h tenant' model' key' hm'

theorem sim_put (h : Sim cache names s) (hn : Usable names invalidated) {tenant : TenantId} {model key : String}
    (hm : model ∈ names) {value : V} {json : String} (hjson : cache.codec.fromStr json = some value)
    (exp exp' : Option Int) :
    Sim cache names
      { memory := { models := s.memory.models.insert (tenant, model, key) (value, exp) }
        redis := s.redis.insert (modelKey tenant model key) (json, exp') } :=
  sim_write h hn hm (fun k => AssocMap.lookup_insert_eq _ _ k _) (fun k => AssocMap.lookup_insert_eq _ _ k _)
    (congrArg some hjson)

theorem sim_invalidate (h : Sim cache names s) (hn : Usable names invalidated) (tenant : TenantId) {model : String}
    (key : String) (hm : model ∈ names) :
    Sim cache names
      { memory := s.memory.invalidate tenant model key, redis := invalidate s.redis tenant model key } :=
  sim_write h hn hm (fun k => AssocMap.lookup_erase_eq _ _ k) (fun k => AssocMap.lookup_erase_eq _ _ k) rfl

theorem sim_invalidateModel (hserver : cache.server.Documented) (h : Sim cache names s) (hn : Usable names invalidated)
    {now : Int} (hlive : s.Unexpired now) (tenant : TenantId) {model : String} (hm : model ∈ invalidated) :
    Sim cache names
      { memory := s.memory.invalidateModel tenant model, redis := cache.invalidateModel now s.redis tenant model } := by
  intro tenant' model' key' hm'
  dsimp only
  have hmatch := glob_modelPattern hserver hn.apart (hn.subset hm) hm' (hn.plain model hm) tenant tenant' key'
  rw [lookup_invalidateModel hserver (hlive.redis _), Models.invalidateModel, AssocMap.lookup_retain]
  by_cases heq : tenant' = tenant ∧ model' = model
  · rw [if_pos (hmatch.mpr heq), if_neg (by simp [heq])]
    rfl
  · rw [if_neg fun hglob => heq (hmatch.mp hglob), if_pos (by simpa [imp_iff_not_or] using heq)]
    exact h tenant' model' key' hm'

/-- Nothing has expired: `get` in memory returns the entry. -/
theorem memory_get {now : Int} (hlive : s.Unexpired now) (tenant : TenantId) (model key : String) :
    s.memory.get now tenant model key = ((s.memory.models.lookup (tenant, model, key)).map Prod.fst, s.memory) := by
  unfold Models.get
  cases hl : s.memory.models.lookup (tenant, model, key) with
  | none => rfl
  | some x =>
    obtain ⟨v, exp⟩ := x
    cases exp with
    | none => rfl
    | some exp => exact if_neg (not_le.mpr (hlive.memory _ v exp hl))

theorem redis_get (h : Sim cache names s) {now : Int} (hlive : s.Unexpired now) (tenant : TenantId) {model : String}
    (key : String) (hm : model ∈ names) :
    cache.get now s.redis tenant model key =
      .ok ((s.memory.models.lookup (tenant, model, key)).map Prod.fst) := by
  have hsim := h tenant model key hm
  unfold get
  rw [Db.get_eq_lookup (hlive.redis _)]
  cases hr : s.redis.lookup (modelKey tenant model key) with
  | none =>
    rw [hr] at hsim
    rw [Option.map_eq_none_iff.mp hsim.symm]
    rfl
  | some x =>
    rw [hr] at hsim
    obtain ⟨y, hy, hv⟩ := Option.map_eq_some_iff.mp hsim.symm
    have hread : cache.codec.fromStr x.1 = some y.1 := hv.symm
    rw [hy]
    dsimp only [Option.map_some]
    rw [hread]

/-- **One call**: the same answer, and the values stay the same. -/
theorem sim_step (hserver : cache.server.Documented) (h : Sim cache names s) (hn : Usable names invalidated)
    {c : ModelCall V} (huses : c.op.Uses names invalidated) (hstorable : cache.Storable c)
    (hlive : s.Unexpired c.time) {t : Caches V} (hstep : cache.step s c = some t) :
    (cache.apply s.redis c).1 = (s.memory.apply c).1 ∧ Sim cache names t := by
  obtain rfl := Option.some.inj hstep
  obtain ⟨time, op⟩ := c
  cases op with
  | get tenant model key =>
    simp only [apply, Models.apply]
    rw [memory_get hlive, redis_get h hlive tenant key huses]
    exact ⟨rfl, h⟩
  | put tenant model key value ttl =>
    obtain ⟨hjson, httl⟩ := hstorable
    simp only [apply, Models.apply]
    cases ttl with
    | none => exact ⟨rfl, sim_put h hn huses hjson none none⟩
    | some d =>
      obtain ⟨haccepts, hexpiry⟩ := httl d rfl
      obtain ⟨exp, hexp⟩ := Option.ne_none_iff_exists'.mp hexpiry
      have hmemory : s.memory.put time tenant model key value (some d) =
          some { models := s.memory.models.insert (tenant, model, key) (value, exp) } := by
        unfold Models.put
        rw [hexp]
        rfl
      have hredis : cache.put time s.redis tenant model key value (some d) = (.ok (), s.redis.insert
          (modelKey tenant model key) (cache.codec.toString value, some (time + asSecs d * 10 ^ 9))) := if_pos haccepts
      rw [hmemory, hredis]
      exact ⟨rfl, sim_put h hn huses hjson exp _⟩
  | invalidate tenant model key => exact ⟨rfl, sim_invalidate h hn tenant key huses⟩
  | invalidateModel tenant model => exact ⟨rfl, sim_invalidateModel hserver h hn hlive tenant huses⟩

/-- **A whole run.** -/
theorem answers_of_sim (hserver : cache.server.Documented) (h : Sim cache names s) (hn : Usable names invalidated)
    (calls : List (ModelCall V)) (hcalls : ∀ c ∈ calls, c.op.Uses names invalidated ∧ cache.Storable c)
    (hlive : LabelledRun.AllSteps cache.step (fun s c => s.Unexpired c.time) s calls) :
    LabelledRun.AllSteps cache.step (fun s c => (cache.apply s.redis c).1 = (s.memory.apply c).1) s calls := by
  induction calls generalizing s with
  | nil => trivial
  | cons c calls ih =>
    obtain ⟨hc, hcalls⟩ := List.forall_mem_cons.mp hcalls
    have hone : ∀ t, cache.step s c = some t → (cache.apply s.redis c).1 = (s.memory.apply c).1 ∧ Sim cache names t :=
      fun t ht => sim_step hserver h hn hc.1 hc.2 hlive.1 ht
    exact ⟨(hone _ rfl).1, fun t ht => ih (hone t ht).2 hcalls (hlive.2 t ht)⟩

theorem faithful_of_usable (hserver : cache.server.Documented) (hn : Usable names invalidated) :
    cache.Faithful names invalidated where
  keys tenant model key tenant' model' key' hm hm' hkey := by
    have htriple := (modelKey_inj hn.apart hm hm').mp hkey
    simpa using htriple
  removes now db tenant model hm tenant' model' key' hm' := by
    rw [get_invalidateModel hserver]
    have hmatch := glob_modelPattern hserver hn.apart (hn.subset hm) hm' (hn.plain model hm) tenant tenant' key'
    simp only [hmatch]
  answers calls hcalls hlive := by
    have hstart : Sim cache names {} := fun tenant model key hm => rfl
    exact answers_of_sim hserver hstart hn calls hcalls hlive

/-- A name that continues another has a key in common with it. -/
theorem modelKey_continues {model model' : String} (h : Continues model' model) (tenant : TenantId) :
    ∃ key key', modelKey tenant model' key' = modelKey tenant model key ∧ model' ≠ model := by
  obtain ⟨rest, hrest⟩ := h
  rw [String.toList_append, List.append_assoc] at hrest
  refine ⟨String.ofList (rest ++ [':']), "", ?_, ?_⟩
  · apply String.toList_injective
    rw [toList_modelKey, toList_modelKey, ← hrest, String.toList_ofList]
    simp
  · rintro rfl
    have hlength := congrArg List.length hrest
    simp at hlength

/-- **The Redis cache is the one in memory** on models of which no name continues another. -/
theorem faithful_iff (hserver : cache.server.Documented) (hsubset : invalidated ⊆ names)
    (hplain : ∀ model ∈ invalidated, ∀ c ∈ model.toList, c ∉ Glob.specials) :
    cache.Faithful names invalidated ↔ ∀ model ∈ names, ∀ model' ∈ names, ¬ Continues model' model := by
  constructor
  · intro h model hm model' hm' hcontinues
    obtain ⟨key, key', hkey, hne⟩ := modelKey_continues hcontinues ⟨0⟩
    exact hne (h.keys _ _ _ _ _ _ hm' hm hkey).2.1
  · intro hapart
    exact faithful_of_usable hserver { apart := hapart, subset := hsubset, plain := hplain }

end RedisReadModelCache

/-- A server that returns all keys that match in one batch. -/
def oneBatch : RedisServer where
  glob := Glob.test
  scan _ db pattern := [db.keys.filter (Glob.test pattern)]
  acceptsTtl _ secs := 0 < secs ∧ secs < 2 ^ 53

theorem oneBatch_documented : oneBatch.Documented where
  glob _ h key := Glob.test_append_many h key
  scan_matches now db pattern keys key hkeys hkey := by
    rw [List.mem_singleton.mp hkeys] at hkey
    exact (List.mem_filter.mp hkey).2
  scan_complete now db pattern key json hget hglob := by
    have hmem : key ∈ db := by
      by_contra hnot
      unfold Db.get at hget
      rw [AList.lookup_eq_none.mpr hnot] at hget
      cases hget
    exact ⟨_, List.mem_singleton_self _, List.mem_filter.mpr ⟨AList.mem_keys.mp hmem, hglob⟩⟩

/-- The JSON texts of the truth values. -/
def jsonBool : Codec Bool where
  toString b := if b then "true" else "false"
  fromStr json := if json = "true" then some true else if json = "false" then some false else none

def flagCache : RedisReadModelCache Bool := { server := oneBatch, codec := jsonBool }

theorem faithful_balances_stock : flagCache.Faithful {"balances", "stock"} {"balances", "stock"} := by
  refine (RedisReadModelCache.faithful_iff oneBatch_documented (fun _ h => h) ?_).mpr ?_
  · rintro model (rfl | rfl)
    · exact Glob.plain_of_all (by decide)
    · exact Glob.plain_of_all (by decide)
  · unfold Continues
    rintro model (rfl | rfl) model' (rfl | rfl)
    · decide
    · decide
    · decide
    · decide

/-- The entry `"b:c"` of the model `"a"` has the key of the entry `"c"` of the model `"a:b"`. -/
theorem not_faithful : ¬ flagCache.Faithful Set.univ Set.univ := by
  intro h
  have hkey : modelKey ⟨1⟩ "a" "b:c" = modelKey ⟨1⟩ "a:b" "c" := by
    apply String.toList_injective
    rw [toList_modelKey, toList_modelKey]
    rfl
  exact absurd (h.keys _ _ _ _ _ _ trivial trivial hkey).2.1 (by decide)

end TptErp.Cache
