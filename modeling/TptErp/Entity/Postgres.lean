import TptErp.Entity.Router
import TptErp.Lib.GroupBy

/-!
# The Postgres repository

`PostgresRepository` over a model of the statements it issues, and the question whether it answers like the
repository in memory.

* A bare identifier is folded to lower case.  A statement whose table or column cannot be resolved, or whose column
  is not of type TEXT, or whose conflict target has no unique constraint, fails and leaves the database as it is.
* Serde round-trips entities (`Serde`).  `created_at` and `updated_at` are columns nothing reads.
* Rows come in no particular order.

`create_table` names its key column `id`, the other statements use `id_column`.  `sameAnswers_iff`: the two
repositories answer alike exactly when `id_column` is `id`, up to case, or no call comes to a statement with a key.
-/

namespace TptErp.Entity

/-! ## Statements -/

inductive SqlType
  | text
  | jsonb
  | timestamptz
deriving DecidableEq

inductive SqlError
  | syntaxError (name : String)
  | undefinedTable (table : String)
  | undefinedColumn (column : String)
  | operatorDoesNotExist (left : SqlType)
  | noUniqueConstraint (column : String)
deriving DecidableEq

/-- The key words that are no bare identifiers. -/
def reserved : List String :=
  ["all", "analyse", "analyze", "and", "any", "array", "as", "asc", "asymmetric", "authorization", "binary", "both",
    "case", "cast", "check", "collate", "collation", "column", "concurrently", "constraint", "create", "cross",
    "current_catalog", "current_date", "current_role", "current_schema", "current_time", "current_timestamp",
    "current_user", "default", "deferrable", "desc", "distinct", "do", "else", "end", "except", "false", "fetch", "for",
    "foreign", "freeze", "from", "full", "grant", "group", "having", "ilike", "in", "initially", "inner", "intersect",
    "into", "is", "isnull", "join", "lateral", "leading", "left", "like", "limit", "localtime", "localtimestamp",
    "natural", "not", "notnull", "null", "offset", "on", "only", "or", "order", "outer", "overlaps", "placing",
    "primary", "references", "returning", "right", "select", "session_user", "similar", "some", "symmetric",
    "system_user", "table", "tablesample", "then", "to", "trailing", "true", "union", "unique", "user", "using",
    "variadic", "verbose", "when", "where", "window", "with"]

/-- A bare identifier is folded to lower case. -/
def foldCase (name : String) : String := String.ofList (name.toList.map Char.toLower)

/-- A folded name that is a bare identifier: letters, digits and `_`, no digit first, no key word. -/
def isBare (name : String) : Bool :=
  match name.toList with
  | [] => false
  | c :: cs => (c.isAlpha || c == '_') && cs.all (fun d => d.isAlphanum || d == '_') && !reserved.contains name

def ident (name : String) : Except SqlError String :=
  if isBare (foldCase name) then .ok (foldCase name) else .error (.syntaxError name)

/-- A row, without the columns nothing reads. -/
structure Row (J : Type) where
  id : String
  data : J

/-- The columns of the table that `create_table` makes; `id` is the primary key. -/
def columns : List (String × SqlType) :=
  [("id", .text), ("data", .jsonb), ("created_at", .timestamptz), ("updated_at", .timestamptz)]

/-- The tables, by folded name. -/
abbrev Database (J : Type) := AssocMap String (List (Row J))

namespace Database

variable {J : Type} (db : Database J)

/-- `CREATE TABLE IF NOT EXISTS table (id TEXT PRIMARY KEY, ..)`. -/
def createTable (table : String) : Except SqlError (Database J) :=
  match ident table with
  | .error e => .error e
  | .ok name => if (db.lookup name).isSome then .ok db else .ok (db.insert name [])

/-- `FROM table`: the table's name and its rows. -/
def «from» (table : String) : Except SqlError (String × List (Row J)) :=
  match ident table with
  | .error e => .error e
  | .ok name =>
    match db.lookup name with
    | none => .error (.undefinedTable name)
    | some rows => .ok (name, rows)

/-- `WHERE column = $1` with a text: the rows it keeps, and the others. -/
def whereEq (column value : String) (rows : List (Row J)) : Except SqlError (List (Row J) × List (Row J)) :=
  match ident column with
  | .error e => .error e
  | .ok name =>
    match columns.lookup name with
    | none => .error (.undefinedColumn name)
    -- the one column of type TEXT is the id
    | some .text => .ok (rows.filter (·.id = value), rows.filter (·.id ≠ value))
    | some type => .error (.operatorDoesNotExist type)

/-- `ON CONFLICT (column)`: the column of the primary key. -/
def onConflict (column : String) : Except SqlError Unit :=
  match ident column with
  | .error e => .error e
  | .ok name =>
    match columns.lookup name with
    | none => .error (.undefinedColumn name)
    | some _ => if name = "id" then .ok () else .error (.noUniqueConstraint name)

/-- `SELECT id, data FROM table`. -/
def selectAll (table : String) : Except SqlError (List (Row J)) := (db.from table).map (·.2)

/-- `SELECT data FROM table WHERE column = $1`. -/
def selectWhere (table column value : String) : Except SqlError (List J) := do
  let (_, rows) ← db.from table
  let (kept, _) ← whereEq column value rows
  .ok (kept.map (·.data))

/-- `INSERT INTO table (id, data) VALUES ($1, $2) ON CONFLICT (column) DO NOTHING`: the rows affected. -/
def insertOrNothing (table column : String) (row : Row J) : Except SqlError (Database J × Nat) := do
  let (name, rows) ← db.from table
  onConflict column
  if rows.any (·.id = row.id) then .ok (db, 0) else .ok (db.insert name (rows ++ [row]), 1)

/-- `UPDATE table SET data = $2, updated_at = now() WHERE column = $1`. -/
def updateWhere (table column value : String) (data : J) : Except SqlError (Database J × Nat) := do
  let (name, rows) ← db.from table
  let (kept, others) ← whereEq column value rows
  .ok (db.insert name (others ++ kept.map fun row => { row with data }), kept.length)

/-- `DELETE FROM table WHERE column = $1`. -/
def deleteWhere (table column value : String) : Except SqlError (Database J × Nat) := do
  let (name, rows) ← db.from table
  let (kept, others) ← whereEq column value rows
  .ok (db.insert name others, kept.length)

end Database

/-! ## The repository -/

/-- Serde's conversions of entities to and from JSON. -/
structure Serde (E J : Type) where
  toValue : E → J
  fromValue : J → Option E
  roundTrip : ∀ e, fromValue (toValue e) = some e

inductive BackendError
  | sqlx (e : SqlError)
  | serde
deriving DecidableEq

namespace PostgresRepository

variable {E I F J : Type} [LinearOrder I] (t : EntityType E I F) (serde : Serde E J)

/-- `map_err(Backend)` of a statement's outcome. -/
def backend {α : Type} (r : Except SqlError α) : Except (RepositoryError BackendError) α :=
  r.mapError fun e => .backend (.sqlx e)

def fromValue (data : J) : Except (RepositoryError BackendError) E :=
  match serde.fromValue data with
  | some e => .ok e
  | none => .error (.backend .serde)

def createTable (db : Database J) : Except (RepositoryError BackendError) (Database J) :=
  backend (db.createTable t.tableName)

def fetchAll (db : Database J) (order : Arrangement (Row J)) : Except (RepositoryError BackendError) (List E) :=
  match backend (db.selectAll t.tableName) with
  | .error e => .error e
  | .ok rows => (order.run rows).mapM fun row => fromValue serde row.data

def list (db : Database J) (order : Arrangement (Row J)) (pagination : Pagination) (filter : F) :
    Except (RepositoryError BackendError) (Page E) :=
  (fetchAll t serde db order).map fun found => Page.of t found pagination filter

def get (db : Database J) (id : I) : Except (RepositoryError BackendError) (Option E) :=
  match backend (db.selectWhere t.tableName t.idColumn (t.idText id)) with
  | .error e => .error e
  | .ok [] => .ok none
  | .ok (data :: _) => (fromValue serde data).map some

def create (db : Database J) (entity : E) : Database J × Except (RepositoryError BackendError) E :=
  match t.validate entity with
  | .error e => (db, .error (.validation e))
  | .ok () =>
    let row := { id := t.idText (t.id entity), data := serde.toValue entity }
    match db.insertOrNothing t.tableName t.idColumn row with
    | .error e => (db, .error (.backend (.sqlx e)))
    | .ok (db, affected) =>
      if affected = 0 then
        (db, .error (.conflict ("entity " ++ t.idText (t.id entity) ++ " already exists")))
      else (db, .ok entity)

def replace (db : Database J) (id : I) (entity : E) :
    Database J × Except (RepositoryError BackendError) (Option E) :=
  match t.validate entity with
  | .error e => (db, .error (.validation e))
  | .ok () =>
    match db.updateWhere t.tableName t.idColumn (t.idText id) (serde.toValue entity) with
    | .error e => (db, .error (.backend (.sqlx e)))
    | .ok (db, affected) => if affected = 0 then (db, .ok none) else (db, .ok (some entity))

def delete (db : Database J) (id : I) : Database J × Except (RepositoryError BackendError) Bool :=
  match db.deleteWhere t.tableName t.idColumn (t.idText id) with
  | .error e => (db, .error (.backend (.sqlx e)))
  | .ok (db, affected) => (db, .ok (0 < affected))

/-- `impl Repository for PostgresRepository`. -/
def repository : Repository E I F BackendError (Database J) (Arrangement (Row J)) where
  list := list t serde
  get := get t serde
  create := create t serde
  replace := replace t serde
  delete := delete t

end PostgresRepository

/-! ## The same calls of both repositories -/

inductive Call (E I F : Type)
  | list (pagination : Pagination) (filter : F)
  | get (id : I)
  | create (entity : E)
  | replace (id : I) (entity : E)
  | delete (id : I)

inductive Answer (E B : Type)
  | page (answer : Except (RepositoryError B) (Page E))
  | found (answer : Except (RepositoryError B) (Option E))
  | created (answer : Except (RepositoryError B) E)
  | replaced (answer : Except (RepositoryError B) (Option E))
  | deleted (answer : Except (RepositoryError B) Bool)

namespace Repository

variable {E I F B S κ : Type} (repo : Repository E I F B S κ)

/-- A call; `choice` is the order a listing meets. -/
def call (s : S) (choice : κ) : Call E I F → S × Answer E B
  | .list pagination filter => (s, .page (repo.list s choice pagination filter))
  | .get id => (s, .found (repo.get s id))
  | .create entity => ((repo.create s entity).1, .created (repo.create s entity).2)
  | .replace id entity => ((repo.replace s id entity).1, .replaced (repo.replace s id entity).2)
  | .delete id => ((repo.delete s id).1, .deleted (repo.delete s id).2)

/-- The answers to a sequence of calls. -/
def answers : S → List (κ × Call E I F) → List (Answer E B)
  | _, [] => []
  | s, (choice, c) :: cs => (repo.call s choice c).2 :: answers (repo.call s choice c).1 cs

end Repository

section
variable {E I F : Type} [LinearOrder I] (t : EntityType E I F)

/-- The same part of two lists that are sorted by id and differ in the order of equal ids at most. -/
structure SamePage (p q : Page E) : Prop where
  page : p.page = q.page
  perPage : p.perPage = q.perPage
  total : p.total = q.total
  items : ∃ xs ys : List E, xs.Perm ys ∧ (xs.Pairwise fun a b => t.id a ≤ t.id b) ∧
    (ys.Pairwise fun a b => t.id a ≤ t.id b) ∧
    ∃ start n, p.items = (xs.drop start).take n ∧ q.items = (ys.drop start).take n

/-- The same answer, up to the order of entities with equal ids on a page. -/
def SameAnswer {B : Type} : Answer E B → Answer E B → Prop
  | .page (.ok p), .page (.ok q) => SamePage t p q
  | a, b => a = b

/-- A call that comes to no statement with a key: a listing, or an entity that does not validate. -/
def Unkeyed : Call E I F → Prop
  | .list _ _ => True
  | .create entity | .replace _ entity => t.validate entity ≠ .ok ()
  | .get _ | .delete _ => False

end

/-! ## The rows of a table and the entities in memory -/

section
variable {E I F J : Type} [LinearOrder I] (t : EntityType E I F) (serde : Serde E J)

/-- The row of an entity that is stored under an id. -/
def rowOf (id : I) (e : E) : Row J := { id := t.idText id, data := serde.toValue e }

/-- The rows are those of the stored entities. -/
structure Mirrors (r : InMemoryRepository E I) (rows : List (Row J)) : Prop where
  ids : (rows.map (·.id)).Nodup
  mem : ∀ row, row ∈ rows ↔ ∃ id e, r.store.lookup id = some e ∧ row = rowOf t serde id e

variable {t serde} {r : InMemoryRepository E I} {rows : List (Row J)}

/-- The rows with an id: that of the entity stored under it. -/
theorem Mirrors.filter_some (h : Mirrors t serde r rows) {id : I} {e : E} (hl : r.store.lookup id = some e) :
    rows.filter (·.id = t.idText id) = [rowOf t serde id e] :=
  GroupBy.filter_key_eq h.ids (a := rowOf t serde id e) ((h.mem _).mpr ⟨id, e, hl, rfl⟩)

section
variable (hinj : Function.Injective t.idText)
include hinj

theorem Mirrors.filter_none (h : Mirrors t serde r rows) {id : I} (hl : r.store.lookup id = none) :
    rows.filter (·.id = t.idText id) = [] := by
  rw [List.filter_eq_nil_iff]
  intro row hrow he
  obtain ⟨id', e, hl', rfl⟩ := (h.mem row).mp hrow
  have hid : id' = id := hinj (of_decide_eq_true he)
  rw [hid, hl] at hl'
  cases hl'

/-- The other rows are those of the entities stored under other ids. -/
theorem Mirrors.erase (h : Mirrors t serde r rows) (id : I) :
    Mirrors t serde { r with store := r.store.erase id } (rows.filter (·.id ≠ t.idText id)) := by
  refine ⟨h.ids.sublist (List.filter_sublist.map _), fun row => ?_⟩
  rw [List.mem_filter, h.mem]
  constructor
  · rintro ⟨⟨id', e, hl, rfl⟩, hne⟩
    refine ⟨id', e, ?_, rfl⟩
    show (r.store.erase id).lookup id' = some e
    rw [AssocMap.lookup_erase_eq, if_neg]
    · exact hl
    · rintro rfl
      exact of_decide_eq_true hne rfl
  · rintro ⟨id', e, hl, rfl⟩
    change (r.store.erase id).lookup id' = some e at hl
    rw [AssocMap.lookup_erase_eq] at hl
    split at hl
    · cases hl
    · next hne => exact ⟨⟨id', e, hl, rfl⟩, decide_eq_true fun he => hne (hinj he)⟩

/-- A new row. -/
theorem Mirrors.insert (h : Mirrors t serde r rows) {id : I} (e : E) (hl : r.store.lookup id = none) :
    Mirrors t serde { r with store := r.store.insert id e } (rows ++ [rowOf t serde id e]) := by
  constructor
  · rw [List.map_append, List.map_singleton]
    refine List.nodup_append.mpr ⟨h.ids, List.nodup_singleton _, ?_⟩
    rintro x hx y hy rfl
    obtain ⟨row, hrow, rfl⟩ := List.mem_map.mp hx
    obtain ⟨id', e', hl', rfl⟩ := (h.mem row).mp hrow
    have hid : id' = id := hinj (List.mem_singleton.mp hy)
    rw [hid, hl] at hl'
    cases hl'
  · intro row
    rw [List.mem_append, List.mem_singleton, h.mem]
    constructor
    · rintro (⟨id', e', hl', rfl⟩ | rfl)
      · refine ⟨id', e', ?_, rfl⟩
        show (r.store.insert id e).lookup id' = some e'
        rw [AssocMap.lookup_insert_eq, if_neg]
        · exact hl'
        · rintro rfl
          rw [hl] at hl'
          cases hl'
      · exact ⟨id, e, AList.lookup_insert r.store, rfl⟩
    · rintro ⟨id', e', hl', rfl⟩
      change (r.store.insert id e).lookup id' = some e' at hl'
      rw [AssocMap.lookup_insert_eq] at hl'
      split at hl'
      · next hid =>
        cases hl'
        rw [hid]
        exact Or.inr rfl
      · exact Or.inl ⟨id', e', hl', rfl⟩

/-- Replacing an entity is erasing its row and adding the new one. -/
theorem Mirrors.replace (h : Mirrors t serde r rows) (id : I) (e : E) :
    Mirrors t serde { r with store := r.store.insert id e } (rows.filter (·.id ≠ t.idText id) ++ [rowOf t serde id e]) := by
  have hi := (h.erase hinj id).insert hinj e (AList.lookup_erase id r.store)
  refine ⟨hi.ids, fun row => ?_⟩
  rw [hi.mem]
  have hsame : ∀ id', ((r.store.erase id).insert id e).lookup id' = (r.store.insert id e).lookup id' := by
    intro id'
    rw [AssocMap.lookup_insert_eq, AssocMap.lookup_insert_eq, AssocMap.lookup_erase_eq]
    split <;> rfl
  simp only [hsame]

end

/-- The table has the rows of the entities that a listing in memory meets. -/
theorem Mirrors.perm (hinj : Function.Injective t.idText) (h : Mirrors t serde r rows) :
    rows.Perm (r.store.entries.map fun e => rowOf t serde e.1 e.2) := by
  refine (List.perm_ext_iff_of_nodup h.ids.of_map ?_).mpr fun row => ?_
  · have hkeys : ((r.store.entries.map (·.1)).map t.idText).Nodup := List.Nodup.map hinj r.store.nodupKeys
    rw [List.map_map] at hkeys
    refine List.Nodup.of_map (·.id) ?_
    rw [List.map_map]
    exact hkeys
  · rw [h.mem, List.mem_map]
    constructor
    · rintro ⟨id, e, hl, rfl⟩
      exact ⟨⟨id, e⟩, (List.mem_dlookup_iff r.store.nodupKeys).mp hl, rfl⟩
    · rintro ⟨⟨id, e⟩, he, rfl⟩
      exact ⟨id, e, (List.mem_dlookup_iff r.store.nodupKeys).mpr he, rfl⟩

/-- Rows that all hold an entity are read as those entities. -/
theorem mapM_fromValue {l : List (Row J)} (h : ∀ row ∈ l, ∃ e, serde.fromValue row.data = some e) :
    (l.mapM fun row => PostgresRepository.fromValue serde row.data) =
      .ok (l.filterMap fun row => serde.fromValue row.data) := by
  induction l with
  | nil => rfl
  | cons row l ih =>
    obtain ⟨e, he⟩ := h row List.mem_cons_self
    rw [List.mapM_cons, ih fun row hrow => h row (List.mem_cons_of_mem _ hrow)]
    simp only [PostgresRepository.fromValue, List.filterMap_cons, he]
    rfl

/-- What `fetch_all` finds is what a listing in memory meets, in some order. -/
theorem Mirrors.fetch (hinj : Function.Injective t.idText) (h : Mirrors t serde r rows) (order : Arrangement (Row J)) :
    ∃ found, ((order.run rows).mapM fun row => PostgresRepository.fromValue serde row.data) = .ok found ∧
      found.Perm r.values := by
  have hp := (order.perm rows).trans (h.perm hinj)
  refine ⟨_, mapM_fromValue fun row hrow => ?_, ?_⟩
  · obtain ⟨e, -, rfl⟩ := List.mem_map.mp (hp.subset hrow)
    exact ⟨e.2, serde.roundTrip e.2⟩
  · refine (hp.filterMap _).trans (List.Perm.of_eq ?_)
    rw [List.filterMap_map]
    unfold InMemoryRepository.values
    rw [← List.filterMap_eq_map]
    congr 1
    funext e
    exact serde.roundTrip e.2

/-- The pages of two arrangements of the same entities. -/
theorem samePage_of_perm {found found' : List E} (h : found.Perm found') (pagination : Pagination) (filter : F) :
    SamePage t (Page.of t found pagination filter) (Page.of t found' pagination filter) := by
  have : Std.Total fun a b : E => t.id a ≤ t.id b := ⟨fun a b => le_total _ _⟩
  have : IsTrans E fun a b => t.id a ≤ t.id b := ⟨fun a b c h1 h2 => h1.trans h2⟩
  have hp : (sortedMatches t found filter).Perm (sortedMatches t found' filter) :=
    (List.perm_insertionSort _ _).trans ((h.filter _).trans (List.perm_insertionSort _ _).symm)
  exact
    { page := rfl
      perPage := rfl
      total := hp.length_eq
      items := ⟨_, _, hp, List.pairwise_insertionSort _ _, List.pairwise_insertionSort _ _, pagination.offset,
        pagination.limit, Page.items_eq t found pagination filter, Page.items_eq t found' pagination filter⟩ }

end

/-! ## Columns -/

theorem columns_text {name : String} (h : columns.lookup name = some .text) : name = "id" := by
  simp only [columns, List.lookup_cons, List.lookup_nil] at h
  split at h
  · next hid => exact eq_of_beq hid
  · split at h
    · cases h
    · split at h
      · cases h
      · split at h
        · cases h
        · cases h

section
variable {J : Type} {column : String}

/-- The key column by its name. -/
theorem whereEq_id (h : foldCase column = "id") (value : String) (rows : List (Row J)) :
    Database.whereEq column value rows = .ok (rows.filter (·.id = value), rows.filter (·.id ≠ value)) := by
  unfold Database.whereEq ident
  rw [h]
  rfl

theorem onConflict_id (h : foldCase column = "id") : Database.onConflict column = .ok () := by
  unfold Database.onConflict ident
  rw [h]
  rfl

theorem ident_ok {name folded : String} (h : ident name = .ok folded) : folded = foldCase name := by
  unfold ident at h
  split at h
  · exact (Except.ok.inj h).symm
  · cases h

/-- Any other name is an error. -/
theorem whereEq_other (h : foldCase column ≠ "id") (value : String) (rows : List (Row J)) :
    ∃ e, Database.whereEq column value rows = .error e := by
  unfold Database.whereEq
  split
  · exact ⟨_, rfl⟩
  · next name hname =>
    have hne : name ≠ "id" := ident_ok hname ▸ h
    split
    · exact ⟨_, rfl⟩
    · next htext => exact absurd (columns_text htext) hne
    · exact ⟨_, rfl⟩

theorem onConflict_other (h : foldCase column ≠ "id") : ∃ e, Database.onConflict column = .error e := by
  unfold Database.onConflict
  split
  · exact ⟨_, rfl⟩
  · next name hname =>
    have hne : name ≠ "id" := ident_ok hname ▸ h
    split
    · exact ⟨_, rfl⟩
    · rw [if_neg hne]
      exact ⟨_, rfl⟩

/-- A table that is there. -/
theorem from_table {table : String} {db : Database J} {rows : List (Row J)} (hlegal : isBare (foldCase table) = true)
    (h : db.lookup (foldCase table) = some rows) : db.from table = .ok (foldCase table, rows) := by
  unfold Database.from ident
  rw [if_pos hlegal]
  dsimp only
  rw [h]

end

/-! ## One call -/

section
variable {E I F J : Type} [LinearOrder I] (t : EntityType E I F) (serde : Serde E J)

/-- The table of the entity type has the rows of the entities in memory. -/
def Sim (r : InMemoryRepository E I) (db : Database J) : Prop :=
  ∃ rows, db.lookup (foldCase t.tableName) = some rows ∧ Mirrors t serde r rows

variable {t serde} {r : InMemoryRepository E I} {db : Database J} {rows : List (Row J)}

/-- A statement that replaces the rows of the table. -/
theorem sim_insert {r' : InMemoryRepository E I} {rows' : List (Row J)} (h : Mirrors t serde r' rows') :
    Sim t serde r' (db.insert (foldCase t.tableName) rows') := ⟨rows', AList.lookup_insert db, h⟩

/-- An entity that does not validate reaches neither store. -/
theorem create_invalid (serde : Serde E J) {entity : E} (h : t.validate entity ≠ .ok ())
    (r : InMemoryRepository E I) (db : Database J) :
    ∃ e, r.create BackendError t entity = (r, .error (.validation e)) ∧
      PostgresRepository.create t serde db entity = (db, .error (.validation e)) := by
  unfold InMemoryRepository.create PostgresRepository.create
  cases hv : t.validate entity with
  | error e => exact ⟨e, rfl, rfl⟩
  | ok u => exact absurd hv h

theorem replace_invalid (serde : Serde E J) {entity : E} (h : t.validate entity ≠ .ok ())
    (r : InMemoryRepository E I) (db : Database J) (id : I) :
    ∃ e, r.replace BackendError t id entity = (r, .error (.validation e)) ∧
      PostgresRepository.replace t serde db id entity = (db, .error (.validation e)) := by
  unfold InMemoryRepository.replace PostgresRepository.replace
  cases hv : t.validate entity with
  | error e => exact ⟨e, rfl, rfl⟩
  | ok u => exact absurd hv h

section
variable (hinj : Function.Injective t.idText) (hlegal : isBare (foldCase t.tableName) = true)
include hinj hlegal

/-- A listing. -/
theorem sim_list (h : Sim t serde r db) (order : Arrangement E) (rowOrder : Arrangement (Row J))
    (pagination : Pagination) (filter : F) :
    ∃ p q, r.list BackendError t order pagination filter = .ok p ∧
      PostgresRepository.list t serde db rowOrder pagination filter = .ok q ∧ SamePage t p q := by
  obtain ⟨rows, hl, hm⟩ := h
  obtain ⟨found, hfound, hperm⟩ := hm.fetch hinj rowOrder
  refine ⟨_, Page.of t found pagination filter, rfl, ?_, samePage_of_perm ((order.perm _).trans hperm.symm) _ _⟩
  unfold PostgresRepository.list PostgresRepository.fetchAll Database.selectAll
  rw [from_table hlegal hl]
  show ((rowOrder.run rows).mapM fun row => PostgresRepository.fromValue serde row.data).map _ = _
  rw [hfound]
  rfl

section
variable (hid : foldCase t.idColumn = "id")
include hid

theorem sim_get (h : Sim t serde r db) (id : I) :
    PostgresRepository.get t serde db id = r.get BackendError id := by
  obtain ⟨rows, hl, hm⟩ := h
  unfold PostgresRepository.get Database.selectWhere
  rw [from_table hlegal hl]
  simp only [bind, Except.bind, whereEq_id hid]
  unfold InMemoryRepository.get
  cases hlk : r.store.lookup id with
  | none =>
    rw [hm.filter_none hinj hlk]
    rfl
  | some e =>
    rw [hm.filter_some hlk]
    show (PostgresRepository.fromValue serde (serde.toValue e)).map some = _
    unfold PostgresRepository.fromValue
    rw [serde.roundTrip]
    rfl

theorem sim_delete (h : Sim t serde r db) (id : I) :
    (PostgresRepository.delete t db id).2 = (r.delete BackendError id).2 ∧
      Sim t serde (r.delete BackendError id).1 (PostgresRepository.delete t db id).1 := by
  obtain ⟨rows, hl, hm⟩ := h
  unfold PostgresRepository.delete Database.deleteWhere
  rw [from_table hlegal hl]
  simp only [bind, Except.bind, whereEq_id hid]
  refine ⟨?_, sim_insert (hm.erase hinj id)⟩
  unfold InMemoryRepository.delete
  cases hlk : r.store.lookup id with
  | none =>
    rw [hm.filter_none hinj hlk]
    rfl
  | some e =>
    rw [hm.filter_some hlk]
    rfl

theorem sim_create (h : Sim t serde r db) (entity : E) :
    (PostgresRepository.create t serde db entity).2 = (r.create BackendError t entity).2 ∧
      Sim t serde (r.create BackendError t entity).1 (PostgresRepository.create t serde db entity).1 := by
  unfold PostgresRepository.create InMemoryRepository.create
  cases t.validate entity with
  | error e => exact ⟨rfl, h⟩
  | ok _ =>
    obtain ⟨rows, hl, hm⟩ := h
    unfold Database.insertOrNothing
    rw [from_table hlegal hl]
    simp only [bind, Except.bind, onConflict_id hid]
    cases hlk : r.store.lookup (t.id entity) with
    | none =>
      have hany : rows.any (·.id = t.idText (t.id entity)) = false := by
        rw [List.any_eq_false]
        exact fun row hrow => List.filter_eq_nil_iff.mp (hm.filter_none hinj hlk) row hrow
      rw [hany]
      exact ⟨rfl, sim_insert (hm.insert hinj entity hlk)⟩
    | some e =>
      have hany : rows.any (·.id = t.idText (t.id entity)) = true := by
        rw [List.any_eq_true]
        exact ⟨_, (hm.mem _).mpr ⟨_, e, hlk, rfl⟩, decide_eq_true rfl⟩
      rw [hany]
      exact ⟨rfl, rows, hl, hm⟩

theorem sim_replace (h : Sim t serde r db) (id : I) (entity : E) :
    (PostgresRepository.replace t serde db id entity).2 = (r.replace BackendError t id entity).2 ∧
      Sim t serde (r.replace BackendError t id entity).1 (PostgresRepository.replace t serde db id entity).1 := by
  unfold PostgresRepository.replace InMemoryRepository.replace
  cases t.validate entity with
  | error e => exact ⟨rfl, h⟩
  | ok _ =>
    obtain ⟨rows, hl, hm⟩ := h
    unfold Database.updateWhere
    rw [from_table hlegal hl]
    simp only [bind, Except.bind, whereEq_id hid]
    cases hlk : r.store.lookup id with
    | none =>
      have hmem : rows.filter (·.id ≠ t.idText id) = rows := by
        rw [List.filter_eq_self]
        intro row hrow
        have := List.filter_eq_nil_iff.mp (hm.filter_none hinj hlk) row hrow
        simpa using this
      rw [hm.filter_none hinj hlk, hmem]
      exact ⟨rfl, sim_insert (by simpa using hm)⟩
    | some e =>
      rw [hm.filter_some hlk]
      exact ⟨rfl, sim_insert (hm.replace hinj id entity)⟩

end

/-- **A call that is answered alike**: any call when `id_column` is `id`, and a call without a key. -/
theorem sim_call (h : Sim t serde r db) (order : Arrangement E) (rowOrder : Arrangement (Row J)) (c : Call E I F)
    (hok : foldCase t.idColumn = "id" ∨ Unkeyed t c) :
    SameAnswer t ((InMemoryRepository.repository BackendError t).call r order c).2
        ((PostgresRepository.repository t serde).call db rowOrder c).2 ∧
      Sim t serde ((InMemoryRepository.repository BackendError t).call r order c).1
        ((PostgresRepository.repository t serde).call db rowOrder c).1 := by
  cases c with
  | list pagination filter =>
    obtain ⟨p, q, hp, hq, hsame⟩ := sim_list hinj hlegal h order rowOrder pagination filter
    simp only [Repository.call, InMemoryRepository.repository, PostgresRepository.repository, hp, hq]
    exact ⟨hsame, h⟩
  | get id =>
    rcases hok with hid | hk
    · simp only [Repository.call, InMemoryRepository.repository, PostgresRepository.repository,
        sim_get hinj hlegal hid h id]
      exact ⟨rfl, h⟩
    · exact hk.elim
  | create entity =>
    rcases hok with hid | hk
    · obtain ⟨he, hs⟩ := sim_create hinj hlegal hid h entity
      simp only [Repository.call, InMemoryRepository.repository, PostgresRepository.repository, he]
      exact ⟨rfl, hs⟩
    · obtain ⟨e, hm, hp⟩ := create_invalid serde hk r db
      simp only [Repository.call, InMemoryRepository.repository, PostgresRepository.repository, hm, hp]
      exact ⟨rfl, h⟩
  | replace id entity =>
    rcases hok with hid | hk
    · obtain ⟨he, hs⟩ := sim_replace hinj hlegal hid h id entity
      simp only [Repository.call, InMemoryRepository.repository, PostgresRepository.repository, he]
      exact ⟨rfl, hs⟩
    · obtain ⟨e, hm, hp⟩ := replace_invalid serde hk r db id
      simp only [Repository.call, InMemoryRepository.repository, PostgresRepository.repository, hm, hp]
      exact ⟨rfl, h⟩
  | delete id =>
    rcases hok with hid | hk
    · obtain ⟨he, hs⟩ := sim_delete hinj hlegal hid h id
      simp only [Repository.call, InMemoryRepository.repository, PostgresRepository.repository, he]
      exact ⟨rfl, hs⟩
    · exact hk.elim

omit hinj in
/-- **A call with a key is answered differently** when `id_column` is not `id`: its statement fails. -/
theorem call_differs (h : Sim t serde r db) (order : Arrangement E) (rowOrder : Arrangement (Row J)) (c : Call E I F)
    (hid : foldCase t.idColumn ≠ "id") (hk : ¬ Unkeyed t c) :
    ¬ SameAnswer t ((InMemoryRepository.repository BackendError t).call r order c).2
      ((PostgresRepository.repository t serde).call db rowOrder c).2 := by
  obtain ⟨rows, hl, -⟩ := h
  have hfrom := from_table hlegal hl
  cases c with
  | list pagination filter => exact absurd trivial hk
  | get id =>
    obtain ⟨e, he⟩ := whereEq_other hid (t.idText id) rows
    intro hsame
    have hpg : PostgresRepository.get t serde db id = .error (.backend (.sqlx e)) := by
      unfold PostgresRepository.get Database.selectWhere
      rw [hfrom]
      simp only [bind, Except.bind, he]
      rfl
    simp only [Repository.call, InMemoryRepository.repository, PostgresRepository.repository, hpg] at hsame
    cases hsame
  | create entity =>
    obtain ⟨e, he⟩ := onConflict_other hid
    have hv : t.validate entity = .ok () := not_not.mp hk
    intro hsame
    have hpg : (PostgresRepository.create t serde db entity).2 = .error (.backend (.sqlx e)) := by
      unfold PostgresRepository.create Database.insertOrNothing
      rw [hv, hfrom]
      simp only [bind, Except.bind, he]
    simp only [Repository.call, InMemoryRepository.repository, PostgresRepository.repository, hpg] at hsame
    unfold InMemoryRepository.create at hsame
    rw [hv] at hsame
    dsimp only at hsame
    split at hsame
    · cases hsame
    · cases hsame
  | replace id entity =>
    obtain ⟨e, he⟩ := whereEq_other hid (t.idText id) rows
    have hv : t.validate entity = .ok () := not_not.mp hk
    intro hsame
    have hpg : (PostgresRepository.replace t serde db id entity).2 = .error (.backend (.sqlx e)) := by
      unfold PostgresRepository.replace Database.updateWhere
      rw [hv, hfrom]
      simp only [bind, Except.bind, he]
    simp only [Repository.call, InMemoryRepository.repository, PostgresRepository.repository, hpg] at hsame
    unfold InMemoryRepository.replace at hsame
    rw [hv] at hsame
    dsimp only at hsame
    split at hsame
    · cases hsame
    · cases hsame
  | delete id =>
    obtain ⟨e, he⟩ := whereEq_other hid (t.idText id) rows
    intro hsame
    have hpg : (PostgresRepository.delete t db id).2 = .error (.backend (.sqlx e)) := by
      unfold PostgresRepository.delete Database.deleteWhere
      rw [hfrom]
      simp only [bind, Except.bind, he]
    simp only [Repository.call, InMemoryRepository.repository, PostgresRepository.repository, hpg] at hsame
    cases hsame

/-! ## Every sequence of calls -/

/-- **Every run.** -/
theorem sim_answers (h : Sim t serde r db) (calls : List (Arrangement E × Arrangement (Row J) × Call E I F)) :
    List.Forall₂ (SameAnswer t)
        ((InMemoryRepository.repository BackendError t).answers r (calls.map fun c => (c.1, c.2.2)))
        ((PostgresRepository.repository t serde).answers db (calls.map fun c => (c.2.1, c.2.2))) ↔
      foldCase t.idColumn = "id" ∨ ∀ c ∈ calls, Unkeyed t c.2.2 := by
  induction calls generalizing r db with
  | nil => exact iff_of_true .nil (Or.inr fun c hc => nomatch hc)
  | cons c calls ih =>
    obtain ⟨order, rowOrder, c⟩ := c
    simp only [List.map_cons, Repository.answers, List.forall₂_cons, List.forall_mem_cons]
    by_cases hok : foldCase t.idColumn = "id" ∨ Unkeyed t c
    · obtain ⟨hsame, hsim⟩ := sim_call hinj hlegal h order rowOrder c hok
      rw [ih hsim, and_iff_right hsame]
      constructor
      · rintro (hid | hall)
        · exact Or.inl hid
        · rcases hok with hid | hk
          · exact Or.inl hid
          · exact Or.inr ⟨hk, hall⟩
      · rintro (hid | ⟨-, hall⟩)
        · exact Or.inl hid
        · exact Or.inr hall
    · rw [not_or] at hok
      refine iff_of_false (fun hb => call_differs hlegal h order rowOrder c hok.1 hok.2 hb.1) ?_
      rintro (hid | ⟨hk, -⟩)
      · exact hok.1 hid
      · exact hok.2 hk

end

theorem mirrors_new : Mirrors t serde {} ([] : List (Row J)) :=
  ⟨List.nodup_nil, fun _ => iff_of_false (fun h => nomatch h) fun ⟨_, _, h, _⟩ => nomatch h⟩

end

/-- **The Postgres repository refines the one in memory** exactly when `id_column` is `id`, up to case, or no call
of the sequence has a key. -/
theorem sameAnswers_iff {E I F J : Type} [LinearOrder I] (t : EntityType E I F) (serde : Serde E J)
    (hinj : Function.Injective t.idText) (hlegal : isBare (foldCase t.tableName) = true) (db : Database J)
    (hnew : db.lookup (foldCase t.tableName) = none)
    (calls : List (Arrangement E × Arrangement (Row J) × Call E I F)) :
    ∃ db', PostgresRepository.createTable t db = .ok db' ∧
      (List.Forall₂ (SameAnswer t)
          ((InMemoryRepository.repository BackendError t).answers {} (calls.map fun c => (c.1, c.2.2)))
          ((PostgresRepository.repository t serde).answers db' (calls.map fun c => (c.2.1, c.2.2))) ↔
        foldCase t.idColumn = "id" ∨ ∀ c ∈ calls, Unkeyed t c.2.2) := by
  refine ⟨db.insert (foldCase t.tableName) [], ?_, sim_answers hinj hlegal (sim_insert mirrors_new) calls⟩
  unfold PostgresRepository.createTable Database.createTable ident
  rw [if_pos hlegal]
  dsimp only
  rw [hnew]
  rfl

/-- An entity as its own JSON. -/
def plainSerde (E : Type) : Serde E E := ⟨fun e => e, some, fun _ => rfl⟩

/-- Two numbers print differently. -/
theorem testUsers_idText_injective : Function.Injective testUsers.idText := by
  intro m n h
  have hdigits : Nat.toDigits 10 m = Nat.toDigits 10 n := by
    rw [← Nat.toList_repr, ← Nat.toList_repr]
    exact congrArg String.toList h
  have hvalue := congrArg (fun digits => Nat.ofDigitChars 10 digits 0) hdigits
  rwa [Nat.ofDigitChars_ten_toDigits, Nat.ofDigitChars_ten_toDigits] at hvalue

theorem sameAnswers_testUsers :
    ∃ db', PostgresRepository.createTable testUsers ∅ = .ok db' ∧
      List.Forall₂ (SameAnswer testUsers)
        ((InMemoryRepository.repository BackendError testUsers).answers {}
          [(default, .create (7, "bob")), (default, .replace 7 (7, "eve")), (default, .get 7)])
        ((PostgresRepository.repository testUsers (plainSerde (Nat × String))).answers db'
          [(default, .create (7, "bob")), (default, .replace 7 (7, "eve")), (default, .get 7)]) := by
  obtain ⟨db', hnew, hiff⟩ := sameAnswers_iff testUsers (plainSerde (Nat × String)) testUsers_idText_injective
    (by decide) ∅ rfl [(default, default, .create (7, "bob")), (default, default, .replace 7 (7, "eve")),
      (default, default, .get 7)]
  exact ⟨db', hnew, hiff.mpr (Or.inl (by decide))⟩

/-- With the primary key in a column `user_id` the first `get` fails. -/
theorem get_fails_of_user_id :
    isBare (foldCase "user_id") = true ∧ isBare (foldCase testUsers.tableName) = true ∧
      Function.Injective testUsers.idText ∧
      ¬ ∃ db', PostgresRepository.createTable { testUsers with idColumn := "user_id" } ∅ = .ok db' ∧
        List.Forall₂ (SameAnswer { testUsers with idColumn := "user_id" })
          ((InMemoryRepository.repository BackendError { testUsers with idColumn := "user_id" }).answers {}
            [(default, .get 7)])
          ((PostgresRepository.repository { testUsers with idColumn := "user_id" }
            (plainSerde (Nat × String))).answers db' [(default, .get 7)]) := by
  refine ⟨by decide, by decide, testUsers_idText_injective, ?_⟩
  rintro ⟨db', hdb, hsame⟩
  cases hdb
  cases hsame with
  | cons hfound _ => cases hfound

end TptErp.Entity
