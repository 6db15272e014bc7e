import TptErp.Entity.Derive
import TptErp.Primitives
import Mathlib.Data.List.Infix

/-!
# The catalog

Products and orders behind their generated routers: staff may do everything with products, customers may list,
read and create orders.  The audit columns of the rows are left out, as nothing reads them.

Orders are therefore append-only.  After any sequence of requests the orders are

    the first one posted under each id                                      (storefront_appends)

with the status and the total that its body claims: the router knows nothing of the life of an order.
-/

namespace TptErp.Oms.Catalog

open TptErp.Entity

/-! ## Entities -/

inductive Product

inductive Order

inductive Customer

structure OrderLine where
  product : Id Product
  sku : String
  qty : U32
  unitPrice : Money Usd
deriving DecidableEq

inductive OrderStatus
  | cart
  | reserved
  | paid
  | fulfilled
  | shipped
  | cancelled
  | returnRequested
  | returnAuthorized
  | returnReceived
  | refunded
  | returnRejected
  | backordered
deriving DecidableEq

structure ProductRow where
  id : Id Product
  sku : String
  name : String
  price : Money Usd
  stockOnHand : I64

structure OrderRow where
  id : Id Order
  customer : Id Customer
  status : OrderStatus
  lines : List OrderLine
  total : Money Usd
deriving DecidableEq

/-! ## Filters -/

/-- The conditions generated for every column. -/
def eqMatches {V : Type} [DecidableEq V] (eq : Option V) (value : V) : Bool := eq.all fun v => value = v

/-- Those of a text besides: a part of it, and its beginning. -/
def textMatches (contains start : Option String) (value : String) : Bool :=
  (contains.all fun v => v.toList <:+: value.toList) && start.all fun v => v.toList <+: value.toList

/-- Those of a number besides. -/
def rangeMatches (min max : Option I64) (value : I64) : Bool :=
  (min.all fun v => ¬ value.val < v.val) && max.all fun v => ¬ v.val < value.val

structure ProductRowFilter where
  page : Option Nat := none
  perPage : Option Nat := none
  sku : Option String := none
  skuContains : Option String := none
  skuPrefix : Option String := none
  name : Option String := none
  nameContains : Option String := none
  namePrefix : Option String := none
  price : Option (Money Usd) := none
  stockOnHand : Option I64 := none
  stockOnHandMin : Option I64 := none
  stockOnHandMax : Option I64 := none

def ProductRowFilter.matches (f : ProductRowFilter) (row : ProductRow) : Bool :=
  eqMatches f.sku row.sku && textMatches f.skuContains f.skuPrefix row.sku &&
    (eqMatches f.name row.name && textMatches f.nameContains f.namePrefix row.name) && eqMatches f.price row.price &&
    (eqMatches f.stockOnHand row.stockOnHand && rangeMatches f.stockOnHandMin f.stockOnHandMax row.stockOnHand)

structure OrderRowFilter where
  page : Option Nat := none
  perPage : Option Nat := none
  customer : Option (Id Customer) := none
  status : Option OrderStatus := none
  lines : Option (List OrderLine) := none
  total : Option (Money Usd) := none

def OrderRowFilter.matches (f : OrderRowFilter) (row : OrderRow) : Bool :=
  eqMatches f.customer row.customer && eqMatches f.status row.status && eqMatches f.lines row.lines &&
    eqMatches f.total row.total

/-! ## Tables -/

def productFields : List (EntityField ProductRow) :=
  [{ name := "id", column := .other },
    { name := "sku", column := .string ProductRow.sku, validators := [.required, .len 1 64] },
    { name := "name", column := .string ProductRow.name, validators := [.required, .len 1 256] },
    { name := "price", column := .other },
    { name := "stock_on_hand", column := .number fun row => row.stockOnHand.val }]

/-- An id is neither a text nor an option, so that `required` checks nothing. -/
def orderFields : List (EntityField OrderRow) :=
  [{ name := "id", column := .other },
    { name := "customer", column := .other, validators := [.required] },
    { name := "status", column := .other },
    { name := "lines", column := .other },
    { name := "total", column := .other }]

variable (idText : Nat → String)

/-- `idText` is the text of a UUID. -/
def products : EntityType ProductRow (Id Product) ProductRowFilter where
  tableName := "products"
  id := ProductRow.id
  idText id := idText id.uuid
  validate := validateFields productFields
  applyFilter := ProductRowFilter.matches
  page := ProductRowFilter.page
  perPage := ProductRowFilter.perPage

def orders : EntityType OrderRow (Id Order) OrderRowFilter where
  tableName := "orders"
  id := OrderRow.id
  idText id := idText id.uuid
  validate := validateFields orderFields
  applyFilter := OrderRowFilter.matches
  page := OrderRowFilter.page
  perPage := OrderRowFilter.perPage

def staffAuth : AuthPolicy := fun _ _ => .ok ()

def customerAuth : AuthPolicy := fun op _ =>
  match op with
  | .delete | .update => .error ⟨op⟩
  | .list | .read | .create => .ok ()

/-! ## The two routers -/

/-- What the two in-memory repositories hold; their backend has no errors. -/
structure CatalogState where
  products : InMemoryRepository ProductRow (Id Product) := {}
  orders : InMemoryRepository OrderRow (Id Order) := {}

inductive CatalogRequest
  | products (req : ApiRequest ProductRow (Id Product) ProductRowFilter (Arrangement ProductRow))
  | orders (req : ApiRequest OrderRow (Id Order) OrderRowFilter (Arrangement OrderRow))

def handleProducts (r : InMemoryRepository ProductRow (Id Product))
    (req : ApiRequest ProductRow (Id Product) ProductRowFilter (Arrangement ProductRow)) :
    InMemoryRepository ProductRow (Id Product) × Except ApiError (ApiResponse ProductRow) :=
  handle (products idText) staffAuth (fun _ : Empty => "") (InMemoryRepository.repository Empty (products idText)) r req

def handleOrders (r : InMemoryRepository OrderRow (Id Order))
    (req : ApiRequest OrderRow (Id Order) OrderRowFilter (Arrangement OrderRow)) :
    InMemoryRepository OrderRow (Id Order) × Except ApiError (ApiResponse OrderRow) :=
  handle (orders idText) customerAuth (fun _ : Empty => "") (InMemoryRepository.repository Empty (orders idText)) r req

/-- The routers merged. -/
def catalog (s : CatalogState) : CatalogRequest → CatalogState
  | .products req => { s with products := (handleProducts idText s.products req).1 }
  | .orders req => { s with orders := (handleOrders idText s.orders req).1 }

/-! ## Products -/

/-- What the directives of a product ask for. -/
def GoodProduct (row : ProductRow) : Prop :=
  ((∃ c ∈ row.sku.toList, isWhiteSpace c = false) ∧ 1 ≤ row.sku.utf8ByteSize ∧ row.sku.utf8ByteSize ≤ 64) ∧
    (∃ c ∈ row.name.toList, isWhiteSpace c = false) ∧ 1 ≤ row.name.utf8ByteSize ∧ row.name.utf8ByteSize ≤ 256

theorem validate_product_iff (row : ProductRow) : (products idText).validate row = .ok () ↔ GoodProduct row := by
  rw [show (products idText).validate row = validateFields productFields row from rfl, validate_ok_iff]
  simp [MeetsAll, directives, productFields, EntityField.Meets, GoodProduct, and_assoc]

/-- The products that staff keep are good ones. -/
theorem products_good (requests : List CatalogRequest) :
    Stores GoodProduct (requests.foldl (catalog idText) {}).products := by
  suffices ∀ s : CatalogState, Stores (fun row => (products idText).validate row = .ok ()) s.products →
      Stores (fun row => (products idText).validate row = .ok ()) (requests.foldl (catalog idText) s).products by
    intro id row h
    exact (validate_product_iff idText row).mp (this {} (fun _ _ h => nomatch h) id row h)
  induction requests with
  | nil => exact fun _ h => h
  | cons req requests ih =>
    intro s h
    refine ih _ ?_
    cases req with
    | orders req => exact h
    | products req => exact stores_valid_handle Empty (products idText) staffAuth _ h req

/-! ## Orders -/

/-- The order posted under the id. -/
def CatalogRequest.postsOrder (id : Id Order) : CatalogRequest → Option OrderRow
  | .orders { call := .create body, .. } => if body.id = id then some body else none
  | _ => none

theorem validate_order (row : OrderRow) : (orders idText).validate row = .ok () :=
  (validate_ok_iff orderFields row).mpr (by
    intro d hd
    simp only [directives, orderFields, List.flatMap_cons, List.flatMap_nil, List.map_cons, List.map_nil,
      List.nil_append, List.append_nil, List.mem_singleton] at hd
    subst hd
    trivial)

/-- **One request**: an order that is posted under a new id is stored as it is, and nothing else changes. -/
theorem lookup_handleOrders (r : InMemoryRepository OrderRow (Id Order))
    (req : ApiRequest OrderRow (Id Order) OrderRowFilter (Arrangement OrderRow)) (id : Id Order) :
    (handleOrders idText r req).1.store.lookup id =
      (r.store.lookup id).or ((CatalogRequest.orders req).postsOrder id) := by
  have hor : ∀ o : Option OrderRow, o = o.or none := fun o => (Option.or_none).symm
  obtain ⟨principal, call⟩ := req
  unfold handleOrders
  cases call with
  | list order filter =>
    rw [handle_list]
    exact hor _
  | getOne id' =>
    rw [handle_getOne]
    exact hor _
  | replace id' body =>
    rw [handle_replace]
    exact hor _
  | delete id' =>
    rw [handle_delete]
    exact hor _
  | create body =>
    rw [handle_create]
    show (r.create Empty (orders idText) body).1.store.lookup id =
      (r.store.lookup id).or (if body.id = id then _ else _)
    unfold InMemoryRepository.create
    rw [validate_order]
    dsimp only
    by_cases hid : body.id = id
    · subst hid
      rw [if_pos rfl]
      cases hl : r.store.lookup body.id with
      | some old =>
        rw [show r.store.lookup ((orders idText).id body) = some old from hl]
        exact hl
      | none =>
        rw [show r.store.lookup ((orders idText).id body) = none from hl]
        exact AList.lookup_insert r.store
    · rw [if_neg hid, Option.or_none]
      cases hl : r.store.lookup ((orders idText).id body) with
      | some old => rfl
      | none => exact AList.lookup_insert_ne (Ne.symm hid)

/-- The orders are append-only: what is stored under each id, and how a request that would change one is answered. -/
structure AppendOnly (start s : CatalogState) (requests : List CatalogRequest) : Prop where
  /-- The order that was there, else the first one posted. -/
  stored : ∀ id, s.orders.store.lookup id =
    (start.orders.store.lookup id).or (requests.findSome? (CatalogRequest.postsOrder id))
  forbidden : ∀ principal id body,
    handleOrders idText s.orders { principal, call := .replace id body } = (s.orders, .error .forbidden) ∧
      handleOrders idText s.orders { principal, call := .delete id } = (s.orders, .error .forbidden)
  /-- A post is answered with 201 exactly when its id is new; the status and the total are whatever it says. -/
  created : ∀ principal body, (handleOrders idText s.orders { principal, call := .create body }).2 =
    if (s.orders.store.lookup body.id).isSome then
      .error (.conflict ("entity " ++ idText body.id.uuid ++ " already exists"))
    else .ok (.created body)

theorem created_iff (r : InMemoryRepository OrderRow (Id Order)) (principal : Option Principal) (body : OrderRow) :
    (handleOrders idText r { principal, call := .create body }).2 =
      if (r.store.lookup body.id).isSome then
        .error (.conflict ("entity " ++ idText body.id.uuid ++ " already exists"))
      else .ok (.created body) := by
  have hcreate : (InMemoryRepository.repository Empty (orders idText)).create r body =
      match r.store.lookup body.id with
      | some _ => (r, .error (.conflict ("entity " ++ idText body.id.uuid ++ " already exists")))
      | none => ({ r with store := r.store.insert body.id body }, .ok body) := by
    show r.create Empty (orders idText) body = _
    unfold InMemoryRepository.create
    rw [validate_order, show (orders idText).id body = body.id from rfl]
    cases r.store.lookup body.id <;> rfl
  unfold handleOrders handle
  dsimp only [customerAuth]
  rw [hcreate]
  cases r.store.lookup body.id <;> rfl

/-- **The storefront only adds orders.** -/
theorem storefront_appends (start : CatalogState) (requests : List CatalogRequest) :
    AppendOnly idText start (requests.foldl (catalog idText) start) requests := by
  refine ⟨?_, fun _ _ _ => ⟨rfl, rfl⟩, fun _ _ => created_iff ..⟩
  induction requests generalizing start with
  | nil => exact fun id => (Option.or_none).symm
  | cons req requests ih =>
    intro id
    rw [List.foldl_cons, ih]
    cases req with
    | products req => rfl
    | orders req =>
      show ((handleOrders idText start.orders req).1.store.lookup id).or _ = _
      rw [lookup_handleOrders, Option.or_assoc, List.findSome?_cons]
      congr 1
      cases (CatalogRequest.orders req).postsOrder id <;> rfl

end TptErp.Oms.Catalog
