import TptErp.Entity.Repository
import TptErp.Lib.Run

/-!
# The generated router

The handlers that `#[derive(TptApi)]` generates, over any repository, and what they make of the repository in
memory.  A request that the framework cannot read (a path or a body that does not parse) reaches no handler.

`PUT` takes the id from the path and the entity from the body, and `replace` stores the one under the other.
`underOwnId_iff`: throughout a sequence of requests every entity is stored under its own id exactly when every
`PUT` that replaces something carries the id of its path.
-/

namespace TptErp.Entity

/-! ## The handlers -/

inductive Operation
  | list
  | read
  | create
  | update
  | delete
deriving DecidableEq

structure Principal where
  subject : Option String := none
  tenant : Option String := none
  roles : List String := []

structure AuthError where
  operation : Operation

/-- `AuthPolicy::authorize`. -/
abbrev AuthPolicy := Operation → Principal → Except AuthError Unit

inductive ApiError
  | forbidden
  | notFound
  | badRequest (message : String)
  | conflict (message : String)
  | internal (message : String)
deriving DecidableEq

namespace ApiError

/-- `From<RepositoryError>`; `text` is `Display` of the backend's errors. -/
def ofRepository {B : Type} (text : B → String) : RepositoryError B → ApiError
  | .notFound => notFound
  | .validation e => badRequest e.text
  | .conflict message => conflict message
  | .backend source => internal (text source)

/-- `IntoResponse`: the status and the message. -/
def intoResponse : ApiError → Nat × String
  | forbidden => (403, "forbidden")
  | notFound => (404, "not found")
  | badRequest message => (400, message)
  | conflict message => (409, message)
  | internal message => (500, message)

end ApiError

inductive ApiResponse (E : Type)
  | page (page : Page E)
  | entity (entity : E)
  | created (entity : E)
  | noContent

inductive ApiCall (E I F κ : Type)
  | list (order : κ) (filter : F)
  | getOne (id : I)
  | create (body : E)
  | replace (id : I) (body : E)
  | delete (id : I)

/-- A request, with the principal an upstream layer has set. -/
structure ApiRequest (E I F κ : Type) where
  principal : Option Principal := none
  call : ApiCall E I F κ

/-- The principal after `ensure_principal`. -/
def ApiRequest.ensurePrincipal {E I F κ : Type} (req : ApiRequest E I F κ) : Principal := req.principal.getD {}

section
variable {E I F B S κ : Type} (t : EntityType E I F) (authorize : AuthPolicy) (text : B → String)
  (repo : Repository E I F B S κ)

/-- The handler of a request. -/
def handle (s : S) (req : ApiRequest E I F κ) : S × Except ApiError (ApiResponse E) :=
  let principal := req.ensurePrincipal
  match req.call with
  | .list order filter =>
    match authorize .list principal with
    | .error _ => (s, .error .forbidden)
    | .ok () =>
      let pagination := { page := (t.page filter).getD 1, perPage := (t.perPage filter).getD 20 }
      match repo.list s order pagination filter with
      | .error e => (s, .error (.ofRepository text e))
      | .ok page => (s, .ok (.page page))
  | .getOne id =>
    match authorize .read principal with
    | .error _ => (s, .error .forbidden)
    | .ok () =>
      match repo.get s id with
      | .error e => (s, .error (.ofRepository text e))
      | .ok none => (s, .error .notFound)
      | .ok (some e) => (s, .ok (.entity e))
  | .create body =>
    match authorize .create principal with
    | .error _ => (s, .error .forbidden)
    | .ok () =>
      match repo.create s body with
      | (s, .error e) => (s, .error (.ofRepository text e))
      | (s, .ok created) => (s, .ok (.created created))
  | .replace id body =>
    match authorize .update principal with
    | .error _ => (s, .error .forbidden)
    | .ok () =>
      match repo.replace s id body with
      | (s, .error e) => (s, .error (.ofRepository text e))
      | (s, .ok none) => (s, .error .notFound)
      | (s, .ok (some e)) => (s, .ok (.entity e))
  | .delete id =>
    match authorize .delete principal with
    | .error _ => (s, .error .forbidden)
    | .ok () =>
      match repo.delete s id with
      | (s, .error e) => (s, .error (.ofRepository text e))
      | (s, .ok true) => (s, .ok .noContent)
      | (s, .ok false) => (s, .error .notFound)

end

/-! ## What a request does to the state -/

section
variable {E I F B S κ : Type} (t : EntityType E I F) (authorize : AuthPolicy) (text : B → String)
  (repo : Repository E I F B S κ) (s : S)

/-- A request that only reads. -/
theorem handle_list (principal : Option Principal) (order : κ) (filter : F) :
    (handle t authorize text repo s { principal, call := .list order filter }).1 = s := by
  unfold handle
  dsimp only
  split
  · rfl
  · split <;> rfl

theorem handle_getOne (principal : Option Principal) (id : I) :
    (handle t authorize text repo s { principal, call := .getOne id }).1 = s := by
  unfold handle
  dsimp only
  split
  · rfl
  · split <;> rfl

/-- A request that may write writes what the repository does, when it is authorised. -/
theorem handle_create (principal : Option Principal) (body : E) :
    (handle t authorize text repo s { principal, call := .create body }).1 =
      match authorize .create (principal.getD {}) with
      | .error _ => s
      | .ok () => (repo.create s body).1 := by
  unfold handle ApiRequest.ensurePrincipal
  dsimp only
  split
  · rfl
  · split <;> next h => rw [h]

theorem handle_replace (principal : Option Principal) (id : I) (body : E) :
    (handle t authorize text repo s { principal, call := .replace id body }).1 =
      match authorize .update (principal.getD {}) with
      | .error _ => s
      | .ok () => (repo.replace s id body).1 := by
  unfold handle ApiRequest.ensurePrincipal
  dsimp only
  split
  · rfl
  · split <;> next h => rw [h]

theorem handle_delete (principal : Option Principal) (id : I) :
    (handle t authorize text repo s { principal, call := .delete id }).1 =
      match authorize .delete (principal.getD {}) with
      | .error _ => s
      | .ok () => (repo.delete s id).1 := by
  unfold handle ApiRequest.ensurePrincipal
  dsimp only
  split
  · rfl
  · split <;> next h => rw [h]

end

/-! ## Entities under their own ids -/

section
variable {E I F : Type} (B : Type) [LinearOrder I] (t : EntityType E I F)

/-- Every entity is stored under its own id. -/
def Own (r : InMemoryRepository E I) : Prop := ∀ id e, r.store.lookup id = some e → t.id e = id

theorem own_new : Own t ({} : InMemoryRepository E I) := fun _ _ h => nomatch h

/-- Storing an entity under an id. -/
theorem own_insert_iff {r : InMemoryRepository E I} (h : Own t r) (id : I) (e : E) :
    Own t { r with store := r.store.insert id e } ↔ t.id e = id := by
  constructor
  · intro ho
    exact ho id e (AList.lookup_insert r.store)
  · intro he id' e' hl
    change (r.store.insert id e).lookup id' = some e' at hl
    rw [AssocMap.lookup_insert_eq] at hl
    split at hl
    · next hid =>
      cases hl
      exact he.trans hid.symm
    · exact h id' e' hl

theorem own_create {r : InMemoryRepository E I} (h : Own t r) (entity : E) : Own t (r.create B t entity).1 := by
  unfold InMemoryRepository.create
  split
  · exact h
  · split
    · exact h
    · exact (own_insert_iff t h _ entity).mpr rfl

theorem own_delete {r : InMemoryRepository E I} (h : Own t r) (id : I) : Own t (r.delete B id).1 := by
  intro id' e hl
  change (r.store.erase id).lookup id' = some e at hl
  rw [AssocMap.lookup_erase_eq] at hl
  split at hl
  · cases hl
  · exact h id' e hl

/-- A replacement that is stored has to carry the id. -/
theorem own_replace_iff {r : InMemoryRepository E I} (h : Own t r) (id : I) (entity : E) :
    Own t (r.replace B t id entity).1 ↔
      (t.validate entity = .ok () → (r.store.lookup id).isSome → t.id entity = id) := by
  unfold InMemoryRepository.replace
  split
  · next e he =>
    refine iff_of_true h fun hv => ?_
    rw [he] at hv
    cases hv
  · next hv =>
    split
    · next old hl =>
      rw [own_insert_iff t h, hl]
      exact ⟨fun he _ _ => he, fun he => he hv rfl⟩
    · next hl =>
      refine iff_of_true h fun _ hs => ?_
      rw [hl] at hs
      cases hs

/-- What follows: a listing never has two entities with one id, and what it has can be fetched, deleted and
replaced by its own id. -/
structure UnderOwnId (r : InMemoryRepository E I) : Prop where
  own : ∀ id e, r.get B id = .ok (some e) → t.id e = id
  listed : ∀ order pagination filter page, r.list B t order pagination filter = .ok page →
    (page.items.map t.id).Nodup ∧ ∀ e ∈ page.items,
      r.get B (t.id e) = .ok (some e) ∧ (r.delete B (t.id e)).2 = .ok true ∧
        ∀ e', t.validate e' = .ok () → (r.replace B t (t.id e) e').2 = .ok (some e')

theorem values_ids {r : InMemoryRepository E I} (h : Own t r) : r.values.map t.id = r.store.entries.map (·.1) := by
  unfold InMemoryRepository.values
  rw [List.map_map]
  apply List.map_congr_left
  intro e he
  exact h e.1 e.2 ((List.mem_dlookup_iff r.store.nodupKeys).mpr he)

theorem underOwnId_iff_own (r : InMemoryRepository E I) : UnderOwnId B t r ↔ Own t r := by
  constructor
  · intro h id e hl
    exact h.own id e (congrArg Except.ok hl)
  · intro h
    refine ⟨fun id e hg => h id e (Except.ok.inj hg), ?_⟩
    intro order pagination filter page hp
    cases hp
    have hsub := (Page.items_subperm t (order.run r.values) pagination filter).trans (order.perm r.values).subperm
    constructor
    · obtain ⟨l, hl, hs⟩ := hsub
      rw [← (hl.map t.id).nodup_iff]
      refine (hs.map t.id).nodup ?_
      rw [values_ids t h]
      exact r.store.nodupKeys
    · intro e he
      obtain ⟨⟨id, e'⟩, hmem, rfl⟩ := List.mem_map.mp (hsub.subset he)
      have hl : r.store.lookup id = some e' := (List.mem_dlookup_iff r.store.nodupKeys).mpr hmem
      have hid : t.id e' = id := h id e' hl
      rw [hid]
      refine ⟨congrArg Except.ok hl, ?_, ?_⟩
      · show Except.ok (r.store.lookup id).isSome = _
        rw [hl]
        rfl
      · intro new hv
        unfold InMemoryRepository.replace
        rw [hv]
        dsimp only
        rw [hl]

end

/-! ## Every sequence of requests -/

section
variable {E I F : Type} (B : Type) [LinearOrder I] (t : EntityType E I F) (authorize : AuthPolicy) (text : B → String)

/-- The repository after a request. -/
def routerStep (r : InMemoryRepository E I) (req : ApiRequest E I F (Arrangement E)) :
    Option (InMemoryRepository E I) :=
  some (handle t authorize text (InMemoryRepository.repository B t) r req).1

/-- A `PUT` that is authorised and valid, of an id that is there, carries the id of its path. -/
def PutMatches (r : InMemoryRepository E I) (req : ApiRequest E I F (Arrangement E)) : Prop :=
  match req.call with
  | .replace id body =>
    authorize .update req.ensurePrincipal = .ok () → t.validate body = .ok () → (r.store.lookup id).isSome →
      t.id body = id
  | _ => True

/-- **One request.** -/
theorem own_step_iff {r : InMemoryRepository E I} (h : Own t r) (req : ApiRequest E I F (Arrangement E)) :
    Own t (handle t authorize text (InMemoryRepository.repository B t) r req).1 ↔ PutMatches t authorize r req := by
  obtain ⟨principal, call⟩ := req
  cases call with
  | list order filter =>
    rw [handle_list]
    exact iff_of_true h trivial
  | getOne id =>
    rw [handle_getOne]
    exact iff_of_true h trivial
  | create body =>
    rw [handle_create]
    refine iff_of_true ?_ trivial
    split
    · exact h
    · exact own_create B t h body
  | delete id =>
    rw [handle_delete]
    refine iff_of_true ?_ trivial
    split
    · exact h
    · exact own_delete B t h id
  | replace id body =>
    rw [handle_replace]
    show _ ↔ (authorize .update (principal.getD {}) = .ok () → _)
    split
    · next e he =>
      refine iff_of_true h fun hok => ?_
      rw [he] at hok
      cases hok
    · next hok =>
      rw [forall_prop_of_true hok]
      exact own_replace_iff B t h id body

/-- **Entities sit under their own ids**, throughout a sequence of requests, exactly when every `PUT` that replaces
something carries the id of its path. -/
theorem underOwnId_iff (requests : List (ApiRequest E I F (Arrangement E))) :
    LabelledRun.AllStates (routerStep B t authorize text) (UnderOwnId B t) {} requests ↔
      LabelledRun.AllSteps (routerStep B t authorize text) (PutMatches t authorize) {} requests := by
  have hiff : ∀ (r : InMemoryRepository E I) req r', Own t r → UnderOwnId B t r →
      routerStep B t authorize text r req = some r' → (UnderOwnId B t r' ↔ PutMatches t authorize r req) := by
    intro r req r' h _ ht
    cases ht
    rw [underOwnId_iff_own]
    exact own_step_iff B t authorize text h req
  exact LabelledRun.allStates_iff_allSteps_of_none (routerStep B t authorize text) (Own t)
    (fun r req r' h hp hm ht => (underOwnId_iff_own B t r').mp ((hiff r req r' h hp ht).mpr hm)) hiff
    (fun r req hnone => absurd hnone (Option.some_ne_none _)) (own_new t) ((underOwnId_iff_own B t _).mpr (own_new t))

end

/-- A user with a number and a name, and listings by name. -/
def testUsers : EntityType (Nat × String) Nat (Option String) where
  tableName := "test_users"
  id := Prod.fst
  idText := toString
  validate _ := .ok ()
  applyFilter filter user := filter.all (user.2 == ·)
  page _ := none
  perPage _ := none

/-- `PUT /7` with the body of user 8 stores it under 7. -/
theorem put_under_other_id :
    ¬ LabelledRun.AllStates (routerStep Unit testUsers (fun _ _ => .ok ()) fun _ => "") (UnderOwnId Unit testUsers) {}
      [{ call := .create (7, "bob") }, { call := .replace 7 (8, "eve") }] := by
  intro h
  have hown := (h.last _ rfl).own 7 (8, "eve") rfl
  exact absurd hown (by decide)

end TptErp.Entity
