import TptErp.Lib.AssocMap
import Mathlib.Data.List.Sort

/-!
# Entity repositories

The storage contract behind the generated router (`Repository`) and the repository in memory.

* `EntityType`: what an entity type brings: its table, its primary key, its validation, and its filter.
* A hash map has no order: what `list` meets first is the environment's choice (`Arrangement`).
* `Page.of`: the page of a list of matching entities, which both repositories compute alike.
-/

namespace TptErp.Entity

/-! ## Errors -/

inductive ValidationError
  | required (field : String)
  | length (field : String) (len min max : Nat)
  | range (field value min max : String)
  | email (field : String)
  | custom (message : String)
deriving DecidableEq

/-- `Display`. -/
def ValidationError.text : ValidationError → String
  | required field => "field `" ++ field ++ "` is required but was empty"
  | length field len min max =>
    "field `" ++ field ++ "` length " ++ toString len ++ " is outside range " ++ toString min ++ "..=" ++ toString max
  | range field value min max =>
    "field `" ++ field ++ "` value " ++ value ++ " is outside range " ++ min ++ "..=" ++ max
  | email field => "field `" ++ field ++ "` is not a valid email address"
  | custom message => "validation failed: " ++ message

/-- The errors of a repository; `B` are those of the backend. -/
inductive RepositoryError (B : Type)
  | notFound
  | validation (e : ValidationError)
  | conflict (message : String)
  | backend (source : B)
deriving DecidableEq

/-! ## Pages -/

def MAX_PER_PAGE : Nat := 1000

/-- `page` and `per_page` of a query. -/
structure Pagination where
  page : Nat
  perPage : Nat

namespace Pagination

def offset (p : Pagination) : Nat := (max p.page 1 - 1) * min (max p.perPage 1) MAX_PER_PAGE

def limit (p : Pagination) : Nat := min (max p.perPage 1) MAX_PER_PAGE

end Pagination

structure Page (E : Type) where
  items : List E
  page : Nat
  perPage : Nat
  total : Nat
deriving DecidableEq

/-- What an entity type brings. -/
structure EntityType (E I F : Type) where
  tableName : String
  idColumn : String := "id"
  id : E → I
  /-- `Display` of an id. -/
  idText : I → String
  validate : E → Except ValidationError Unit
  /-- `ApplyFilter::matches`. -/
  applyFilter : F → E → Bool
  /-- The page the filter asks for. -/
  page : F → Option Nat
  perPage : F → Option Nat

/-- The order in which an unordered collection is met. -/
structure Arrangement (α : Type) where
  run : List α → List α
  perm : ∀ l, (run l).Perm l

instance {α : Type} : Inhabited (Arrangement α) := ⟨⟨fun l => l, fun l => List.Perm.refl l⟩⟩

section
variable {E I F : Type} [LinearOrder I] (t : EntityType E I F)

/-- The page of the entities in `found` that match. -/
def Page.of (found : List E) (pagination : Pagination) (filter : F) : Page E :=
  let «matched» := (found.filter (t.applyFilter filter)).insertionSort fun a b => t.id a ≤ t.id b
  let total := matched.length
  let start := pagination.offset
  let «end» := min (start + pagination.limit) matched.length
  { items := if matched.length ≤ start then [] else (matched.drop start).take («end» - start)
    page := max pagination.page 1
    perPage := max pagination.perPage 1
    total }

/-- The entities that match, sorted by their ids. -/
def sortedMatches (found : List E) (filter : F) : List E :=
  (found.filter (t.applyFilter filter)).insertionSort fun a b => t.id a ≤ t.id b

/-- A page is a slice, cut short at the end of the list. -/
theorem Page.items_eq (found : List E) (pagination : Pagination) (filter : F) :
    (Page.of t found pagination filter).items =
      ((sortedMatches t found filter).drop pagination.offset).take pagination.limit := by
  show (if (sortedMatches t found filter).length ≤ pagination.offset then [] else
    ((sortedMatches t found filter).drop pagination.offset).take
      (min (pagination.offset + pagination.limit) (sortedMatches t found filter).length - pagination.offset)) = _
  split
  · next h => rw [List.drop_eq_nil_of_le h, List.take_nil]
  · next h =>
    have hmin : min (pagination.offset + pagination.limit) (sortedMatches t found filter).length -
        pagination.offset = min pagination.limit ((sortedMatches t found filter).drop pagination.offset).length := by
      rw [List.length_drop]
      omega
    rw [hmin, ← List.take_eq_take_min]

/-- A page's entities are among those found. -/
theorem Page.items_subperm (found : List E) (pagination : Pagination) (filter : F) :
    (Page.of t found pagination filter).items.Subperm found := by
  have hsub : (Page.of t found pagination filter).items.Sublist (sortedMatches t found filter) := by
    rw [Page.items_eq]
    exact (List.take_sublist _ _).trans (List.drop_sublist _ _)
  exact hsub.subperm.trans ((List.perm_insertionSort _ _).subperm.trans List.filter_sublist.subperm)

end

/-! ## The storage contract -/

/-- A repository with states of type `S`; `κ` are the choices of a listing. -/
structure Repository (E I F B S κ : Type) where
  list : S → κ → Pagination → F → Except (RepositoryError B) (Page E)
  get : S → I → Except (RepositoryError B) (Option E)
  create : S → E → S × Except (RepositoryError B) E
  replace : S → I → E → S × Except (RepositoryError B) (Option E)
  delete : S → I → S × Except (RepositoryError B) Bool

/-! ## In memory -/

structure InMemoryRepository (E I : Type) where
  store : AssocMap I E := ∅

namespace InMemoryRepository

variable {E I : Type}

def values (r : InMemoryRepository E I) : List E := r.store.entries.map (·.2)

section
variable {F : Type} (B : Type) [LinearOrder I] (t : EntityType E I F)

def list (r : InMemoryRepository E I) (order : Arrangement E) (pagination : Pagination) (filter : F) :
    Except (RepositoryError B) (Page E) :=
  .ok (Page.of t (order.run r.values) pagination filter)

def get (r : InMemoryRepository E I) (id : I) : Except (RepositoryError B) (Option E) := .ok (r.store.lookup id)

def create (r : InMemoryRepository E I) (entity : E) : InMemoryRepository E I × Except (RepositoryError B) E :=
  match t.validate entity with
  | .error e => (r, .error (.validation e))
  | .ok () =>
    match r.store.lookup (t.id entity) with
    | some _ => (r, .error (.conflict ("entity " ++ t.idText (t.id entity) ++ " already exists")))
    | none => ({ r with store := r.store.insert (t.id entity) entity }, .ok entity)

def replace (r : InMemoryRepository E I) (id : I) (entity : E) :
    InMemoryRepository E I × Except (RepositoryError B) (Option E) :=
  match t.validate entity with
  | .error e => (r, .error (.validation e))
  | .ok () =>
    match r.store.lookup id with
    | some _ => ({ r with store := r.store.insert id entity }, .ok (some entity))
    | none => (r, .ok none)

def delete (r : InMemoryRepository E I) (id : I) : InMemoryRepository E I × Except (RepositoryError B) Bool :=
  ({ r with store := r.store.erase id }, .ok (r.store.lookup id).isSome)

/-- `impl Repository for InMemoryRepository`. -/
def repository : Repository E I F B (InMemoryRepository E I) (Arrangement E) where
  list := list B t
  get := get B
  create := create B t
  replace := replace B t
  delete := delete B

end

end InMemoryRepository

end TptErp.Entity
