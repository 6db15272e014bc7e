import TptErp.Entity.Router

/-!
# The derived validation

`#[derive(TptEntity)]` turns the `#[validate(..)]` directives of the fields into `validate`: the checks run field
after field, the first that fails is the error.  A directive that does not apply to the type of its field is no
check.

* `EntityField.Meets`: what a directive asks of an entity, apart from how it is checked.
* `validate_ok_iff`, `validate_error_iff`: the entity meets all of them, or the error is the first not met.
* `stored_entities_valid`: throughout a sequence of requests, the router stores and lists only entities that meet
  all directives, and answers the others with the first not met.
-/

namespace TptErp.Entity

/-! ## Directives -/

inductive Validator
  | required
  | email
  | len (min max : Nat)
  | range (min max : Int)
deriving DecidableEq

def Validator.isRange : Validator → Bool
  | .range .. => true
  | _ => false

/-- A field by the type that the checks depend on; a number is read by the cast to `i128`. -/
inductive Column (E : Type)
  | string (get : E → String)
  | option (isSome : E → Bool)
  | number (get : E → Int)
  | other

def Column.isNumber {E : Type} : Column E → Bool
  | .number _ => true
  | _ => false

/-- A field with its directives.  The cast of a range check compiles for numbers only. -/
structure EntityField (E : Type) where
  name : String
  column : Column E
  validators : List Validator := []
  compiles : validators.any Validator.isRange = true → column.isNumber = true := by decide

/-- The Unicode property `White_Space`. -/
def isWhiteSpace (c : Char) : Bool :=
  let n := c.toNat
  (9 ≤ n && n ≤ 13) || n == 0x20 || n == 0x85 || n == 0xa0 || n == 0x1680 || (0x2000 ≤ n && n ≤ 0x200a) ||
    n == 0x2028 || n == 0x2029 || n == 0x202f || n == 0x205f || n == 0x3000

/-- `s.trim().is_empty()`. -/
def isBlank (s : String) : Bool := s.toList.all isWhiteSpace

namespace EntityField

variable {E : Type} (f : EntityField E)

/-- The check of one directive: its error, if it fails. -/
def check (v : Validator) (e : E) : Option ValidationError :=
  match v, f.column with
  | .required, .string get => if isBlank (get e) then some (.required f.name) else none
  | .required, .option isSome => if isSome e then none else some (.required f.name)
  | .required, _ => none
  | .email, .string get =>
    if !(get e).toList.contains '@' || !(get e).toList.contains '.' then some (.email f.name) else none
  | .email, _ => none
  | .len min max, .string get =>
    let len := (get e).utf8ByteSize
    if len < min ∨ max < len then some (.length f.name len min max) else none
  | .len .., _ => none
  | .range min max, .number get =>
    let v := get e
    if min ≤ v ∧ v ≤ max then none else some (.range f.name (toString v) (toString min) (toString max))
  | .range .., _ => none

/-- What the directive asks for. -/
def Meets (v : Validator) (e : E) : Prop :=
  match v, f.column with
  | .required, .string get => ∃ c ∈ (get e).toList, isWhiteSpace c = false
  | .required, .option isSome => isSome e = true
  | .email, .string get => '@' ∈ (get e).toList ∧ '.' ∈ (get e).toList
  | .len min max, .string get => min ≤ (get e).utf8ByteSize ∧ (get e).utf8ByteSize ≤ max
  | .range min max, .number get => min ≤ get e ∧ get e ≤ max
  | _, _ => True

theorem check_none_iff (v : Validator) (e : E) : f.check v e = none ↔ f.Meets v e := by
  unfold check Meets
  cases v with
  | required =>
    cases f.column with
    | string get => simp [isBlank]
    | option isSome => simp
    | number get => simp
    | other => simp
  | email =>
    cases f.column with
    | string get => simp
    | option isSome => simp
    | number get => simp
    | other => simp
  | len min max =>
    cases f.column with
    | string get => simp
    | option isSome => simp
    | number get => simp
    | other => simp
  | range min max =>
    cases f.column with
    | string get => simp
    | option isSome => simp
    | number get => simp
    | other => simp

end EntityField

/-! ## Validation -/

section
variable {E : Type}

/-- The directives in the order of their checks. -/
def directives (fields : List (EntityField E)) : List (EntityField E × Validator) :=
  fields.flatMap fun f => f.validators.map fun v => (f, v)

/-- `validate`: the first error. -/
def validateFields (fields : List (EntityField E)) (e : E) : Except ValidationError Unit :=
  match (directives fields).findSome? fun d => d.1.check d.2 e with
  | some err => .error err
  | none => .ok ()

/-- The entity meets every directive. -/
def MeetsAll (fields : List (EntityField E)) (e : E) : Prop := ∀ d ∈ directives fields, d.1.Meets d.2 e

/-- `err` is the error of the first directive that the entity does not meet. -/
def FirstError (fields : List (EntityField E)) (e : E) (err : ValidationError) : Prop :=
  ∃ before f v after, directives fields = before ++ (f, v) :: after ∧ (∀ d ∈ before, d.1.Meets d.2 e) ∧
    ¬ f.Meets v e ∧ f.check v e = some err

theorem validate_ok_iff (fields : List (EntityField E)) (e : E) :
    validateFields fields e = .ok () ↔ MeetsAll fields e := by
  unfold validateFields MeetsAll
  cases h : (directives fields).findSome? fun d => d.1.check d.2 e with
  | none =>
    rw [List.findSome?_eq_none_iff] at h
    exact iff_of_true rfl fun d hd => (d.1.check_none_iff d.2 e).mp (h d hd)
  | some err =>
    refine iff_of_false nofun fun hall => ?_
    obtain ⟨d, hd, he⟩ := List.exists_of_findSome?_eq_some h
    rw [(d.1.check_none_iff d.2 e).mpr (hall d hd)] at he
    cases he

theorem validate_error_iff (fields : List (EntityField E)) (e : E) (err : ValidationError) :
    validateFields fields e = .error err ↔ FirstError fields e err := by
  have hsome : validateFields fields e = .error err ↔
      ((directives fields).findSome? fun d => d.1.check d.2 e) = some err := by
    unfold validateFields
    cases (directives fields).findSome? fun d => d.1.check d.2 e <;> simp
  rw [hsome, List.findSome?_eq_some_iff]
  constructor
  · rintro ⟨before, ⟨f, v⟩, after, heq, he, hbefore⟩
    refine ⟨before, f, v, after, heq, fun d hd => (d.1.check_none_iff d.2 e).mp (hbefore d hd), ?_, he⟩
    rw [← f.check_none_iff, he]
    exact nofun
  · rintro ⟨before, f, v, after, heq, hbefore, -, he⟩
    exact ⟨before, (f, v), after, heq, he, fun d hd => (d.1.check_none_iff d.2 e).mpr (hbefore d hd)⟩

end

/-! ## The router's store -/

section
variable {E I F : Type} (B : Type) [LinearOrder I] (t : EntityType E I F) (authorize : AuthPolicy) (text : B → String)

/-- Every stored entity satisfies `P`. -/
def Stores (P : E → Prop) (r : InMemoryRepository E I) : Prop := ∀ id e, r.store.lookup id = some e → P e

theorem stores_insert {P : E → Prop} {r : InMemoryRepository E I} (h : Stores P r) (id : I) {e : E} (he : P e) :
    Stores P { r with store := r.store.insert id e } := by
  intro id' e' hl
  change (r.store.insert id e).lookup id' = some e' at hl
  rw [AssocMap.lookup_insert_eq] at hl
  split at hl
  · cases hl
    exact he
  · exact h id' e' hl

/-- **One request** stores nothing that is not valid. -/
theorem stores_valid_handle {r : InMemoryRepository E I} (h : Stores (fun e => t.validate e = .ok ()) r)
    (req : ApiRequest E I F (Arrangement E)) :
    Stores (fun e => t.validate e = .ok ()) (handle t authorize text (InMemoryRepository.repository B t) r req).1 := by
  obtain ⟨principal, call⟩ := req
  cases call with
  | list order filter => rwa [handle_list]
  | getOne id => rwa [handle_getOne]
  | create body =>
    rw [handle_create]
    split
    · exact h
    · show Stores _ (r.create B t body).1
      unfold InMemoryRepository.create
      split
      · exact h
      · next hv =>
        split
        · exact h
        · exact stores_insert h _ hv
  | replace id body =>
    rw [handle_replace]
    split
    · exact h
    · show Stores _ (r.replace B t id body).1
      unfold InMemoryRepository.replace
      split
      · exact h
      · next hv =>
        split
        · exact stores_insert h _ hv
        · exact h
  | delete id =>
    rw [handle_delete]
    split
    · exact h
    · intro id' e hl
      change (r.store.erase id).lookup id' = some e at hl
      rw [AssocMap.lookup_erase_eq] at hl
      split at hl
      · cases hl
      · exact h id' e hl

/-- The body that a request would store, with the operation it is authorised for. -/
def ApiCall.body? {κ : Type} : ApiCall E I F κ → Option (Operation × E)
  | .create body => some (.create, body)
  | .replace _ body => some (.update, body)
  | _ => none

/-- A body that is not valid: the error is answered, and nothing changes. -/
theorem handle_invalid (r : InMemoryRepository E I) (principal : Option Principal)
    (call : ApiCall E I F (Arrangement E)) {op : Operation} {body : E} {err : ValidationError}
    (hbody : call.body? = some (op, body)) (hauth : authorize op (principal.getD {}) = .ok ())
    (hv : t.validate body = .error err) :
    handle t authorize text (InMemoryRepository.repository B t) r { principal, call } =
      (r, .error (.badRequest err.text)) := by
  cases call with
  | list order filter => cases hbody
  | getOne id => cases hbody
  | delete id => cases hbody
  | create body =>
    cases hbody
    have hcreate : (InMemoryRepository.repository B t).create r body = (r, .error (.validation err)) := by
      show r.create B t body = _
      unfold InMemoryRepository.create
      rw [hv]
    unfold handle ApiRequest.ensurePrincipal
    dsimp only
    rw [hauth, hcreate]
    rfl
  | replace id body =>
    cases hbody
    have hreplace : (InMemoryRepository.repository B t).replace r id body = (r, .error (.validation err)) := by
      show r.replace B t id body = _
      unfold InMemoryRepository.replace
      rw [hv]
    unfold handle ApiRequest.ensurePrincipal
    dsimp only
    rw [hauth, hreplace]
    rfl

/-- An entity type with the validation that is derived from its fields. -/
def EntityType.derive (t : EntityType E I F) (fields : List (EntityField E)) : EntityType E I F :=
  { t with validate := validateFields fields }

/-- What is kept out of a repository by the directives of `fields`. -/
structure Guarded (fields : List (EntityField E)) (r : InMemoryRepository E I) : Prop where
  stored : ∀ id e, r.get B id = .ok (some e) → MeetsAll fields e
  listed : ∀ order pagination filter page, r.list B t order pagination filter = .ok page →
    ∀ e ∈ page.items, MeetsAll fields e
  /-- An authorised request with a body that does not meet all of them changes nothing, and is answered with 400
  and the first that is not met. -/
  refused : ∀ principal (call : ApiCall E I F (Arrangement E)) op body, call.body? = some (op, body) →
    authorize op (principal.getD {}) = .ok () → ¬ MeetsAll fields body →
      ∃ err, FirstError fields body err ∧
        handle t authorize text (InMemoryRepository.repository B t) r { principal, call } =
          (r, .error (.badRequest err.text)) ∧
        (ApiError.badRequest err.text).intoResponse = (400, err.text)

theorem guarded_of_stores (fields : List (EntityField E)) {r : InMemoryRepository E I}
    (h : Stores (fun e => (t.derive fields).validate e = .ok ()) r) :
    Guarded B (t.derive fields) authorize text fields r := by
  refine ⟨?_, ?_, ?_⟩
  · intro id e hg
    exact (validate_ok_iff fields e).mp (h id e (Except.ok.inj hg))
  · intro order pagination filter page hp e he
    cases hp
    have hsub := (Page.items_subperm (t.derive fields) (order.run r.values) pagination filter).trans
      (order.perm r.values).subperm
    obtain ⟨⟨id, e'⟩, hmem, rfl⟩ := List.mem_map.mp (hsub.subset he)
    exact (validate_ok_iff fields e').mp (h id e' ((List.mem_dlookup_iff r.store.nodupKeys).mpr hmem))
  · intro principal call op body hbody hauth hnot
    cases hv : validateFields fields body with
    | ok u => exact absurd ((validate_ok_iff fields body).mp hv) hnot
    | error err =>
      exact ⟨err, (validate_error_iff fields body err).mp hv,
        handle_invalid B (t.derive fields) authorize text r principal call hbody hauth hv, rfl⟩

/-- **Only valid entities are stored**, whatever the directives, the policy and the requests. -/
theorem stored_entities_valid (fields : List (EntityField E)) (requests : List (ApiRequest E I F (Arrangement E))) :
    LabelledRun.AllStates (routerStep B (t.derive fields) authorize text)
      (Guarded B (t.derive fields) authorize text fields) {} requests := by
  have hstep : ∀ r req r', Stores (fun e => (t.derive fields).validate e = .ok ()) r →
      routerStep B (t.derive fields) authorize text r req = some r' →
      Stores (fun e => (t.derive fields).validate e = .ok ()) r' := by
    intro r req r' h ht
    cases ht
    exact stores_valid_handle B (t.derive fields) authorize text h req
  have hempty : Stores (fun e => (t.derive fields).validate e = .ok ()) ({} : InMemoryRepository E I) :=
    fun _ _ h => nomatch h
  exact (LabelledRun.allStates_of_step _ hstep requests hempty).mono _
    fun r h => guarded_of_stores B t authorize text fields h

end

end TptErp.Entity
