import TptErp.Entity.Repository

/-!
# Paging through a list

`fetchAll` is a client of `list` that asks for pages 1, 2, 3, ... and stops when the pages it has seen, at the page size
that is reported, cover the reported total.

The size that is reported is the one that was asked for; the size of a page is at most `MAX_PER_PAGE`.  With `n` pages
asked for,

    the client receives every matching entity once, in order ↔ total ≤ n * limit        (fetchAll_iff)
-/

namespace TptErp.Entity

/-! ## The client -/

section
variable {E I F : Type} (B : Type) [LinearOrder I] (t : EntityType E I F) (r : InMemoryRepository E I)
  (orders : Nat → Arrangement E) (perPage : Nat) (filter : F)

/-- What a client receives from a page on; `left` page numbers are left. -/
def fetchFrom : (left page : Nat) → List E
  | 0, _ => []
  | left + 1, page =>
    match r.list B t (orders page) { page := page, perPage := perPage } filter with
    | .error _ => []
    | .ok got => got.items ++ if got.total ≤ page * got.perPage then [] else fetchFrom left (page + 1)

/-- All pages; a page number is a `u32`. -/
def fetchAll : List E := fetchFrom B t r orders perPage filter (2 ^ 32 - 1) 1

/-- The matching entities, each once, in the order of their ids. -/
structure VisitsOnce (received : List E) : Prop where
  everyMatch : received.Perm (r.values.filter (t.applyFilter filter))
  inOrder : received.Pairwise fun a b => t.id a < t.id b

end

/-- The number of pages asked for, from a page on, when `reported` entities a page are to cover `total`. -/
def asked (total reported : Nat) : (left page : Nat) → Nat
  | 0, _ => 0
  | left + 1, page => 1 + if total ≤ page * reported then 0 else asked total reported left (page + 1)

/-- Pages of a size that cover a total. -/
def pagesFor (total reported : Nat) : Nat := (total + reported - 1) / reported

theorem pagesFor_le_iff (total k : Nat) {reported : Nat} (h : 0 < reported) :
    pagesFor total reported ≤ k ↔ total ≤ k * reported := by
  unfold pagesFor
  rw [← Nat.lt_succ_iff, Nat.div_lt_iff_lt_mul h, Nat.succ_mul]
  omega

theorem asked_eq (total left page : Nat) {reported : Nat} (h : 0 < reported) (hp : 0 < page) :
    asked total reported left page = min left (max 1 (pagesFor total reported - (page - 1))) := by
  induction left generalizing page with
  | zero => simp [asked]
  | succ left ih =>
    have hcover := pagesFor_le_iff total page h
    unfold asked
    split
    · next hle =>
      have := hcover.mpr hle
      omega
    · next hgt =>
      have := mt hcover.mp hgt
      rw [ih (page + 1) (by omega)]
      omega

/-! ## The order of the entities -/

section
variable {E I F : Type} [LinearOrder I] (t : EntityType E I F)

theorem sortedMatches_perm (found : List E) (filter : F) :
    (sortedMatches t found filter).Perm (found.filter (t.applyFilter filter)) := List.perm_insertionSort _ _

/-- Entities with distinct ids are sorted strictly. -/
theorem sortedMatches_pairwise {found : List E} (h : (found.map t.id).Nodup) (filter : F) :
    (sortedMatches t found filter).Pairwise fun a b => t.id a < t.id b := by
  have htotal : Std.Total fun a b : E => t.id a ≤ t.id b := ⟨fun a b => le_total (t.id a) (t.id b)⟩
  have htrans : IsTrans E fun a b => t.id a ≤ t.id b := ⟨fun _ _ _ => le_trans⟩
  have hle := List.pairwise_insertionSort (fun a b => t.id a ≤ t.id b) (found.filter (t.applyFilter filter))
  have hnodup : ((sortedMatches t found filter).map t.id).Nodup :=
    ((sortedMatches_perm t found filter).map t.id).nodup_iff.mpr (h.sublist (List.filter_sublist.map t.id))
  have hne : (sortedMatches t found filter).Pairwise fun a b => t.id a ≠ t.id b := List.pairwise_map.mp hnodup
  exact hle.imp₂ (fun _ _ hle hne => lt_of_le_of_ne hle hne) hne

/-- The order in which the entities are met makes no difference. -/
theorem sortedMatches_perm_eq {found found' : List E} (hp : found'.Perm found) (h : (found.map t.id).Nodup) (filter : F) :
    sortedMatches t found' filter = sortedMatches t found filter := by
  have h' : (found'.map t.id).Nodup := (hp.map t.id).nodup_iff.mpr h
  have hsame := ((sortedMatches_perm t found' filter).trans (hp.filter _)).trans (sortedMatches_perm t found filter).symm
  exact hsame.eq_of_pairwise (fun a b _ _ hab hba => absurd hab (lt_asymm hba)) (sortedMatches_pairwise t h' filter)
    (sortedMatches_pairwise t h filter)

end

/-! ## What the client receives -/

section
variable {E I F : Type} (B : Type) [LinearOrder I] (t : EntityType E I F) {r : InMemoryRepository E I}
  (orders : Nat → Arrangement E) (perPage : Nat) (filter : F)

/-- The pages are slices that follow each other. -/
theorem fetchFrom_eq (h : (r.values.map t.id).Nodup) (left page : Nat) (hp : 0 < page) :
    fetchFrom B t r orders perPage filter left page =
      ((sortedMatches t r.values filter).drop ((page - 1) * min (max perPage 1) MAX_PER_PAGE)).take
        (asked (sortedMatches t r.values filter).length (max perPage 1) left page * min (max perPage 1) MAX_PER_PAGE) := by
  induction left generalizing page with
  | zero => simp [fetchFrom, asked]
  | succ left ih =>
    have hsorted := sortedMatches_perm_eq t ((orders page).perm r.values) h filter
    have hitems := Page.items_eq t ((orders page).run r.values) { page := page, perPage := perPage } filter
    have hoffset : Pagination.offset { page := page, perPage := perPage } =
        (page - 1) * min (max perPage 1) MAX_PER_PAGE := by
      unfold Pagination.offset
      rw [max_eq_left (show 1 ≤ page from hp)]
    rw [hsorted, hoffset] at hitems
    have htotal : (Page.of t ((orders page).run r.values) { page := page, perPage := perPage } filter).total =
        (sortedMatches t r.values filter).length := congrArg List.length hsorted
    unfold fetchFrom asked
    show (Page.of t ((orders page).run r.values) { page := page, perPage := perPage } filter).items ++
      (if (Page.of t ((orders page).run r.values) { page := page, perPage := perPage } filter).total ≤
        page * max perPage 1 then [] else fetchFrom B t r orders perPage filter left (page + 1)) = _
    rw [hitems, htotal, Nat.add_mul, List.take_add, Nat.one_mul, List.drop_drop]
    congr 1
    split
    · simp
    · rw [ih (page + 1) (by omega)]
      congr 2
      rw [← Nat.succ_mul]
      congr 1
      omega

/-- The number of pages that the client asks for, times the size of a page. -/
def room (total perPage : Nat) : Nat :=
  min (2 ^ 32 - 1) (max 1 (pagesFor total (max perPage 1))) * min (max perPage 1) MAX_PER_PAGE

theorem fetchAll_eq (h : (r.values.map t.id).Nodup) :
    fetchAll B t r orders perPage filter =
      (sortedMatches t r.values filter).take (room (sortedMatches t r.values filter).length perPage) := by
  unfold fetchAll room
  rw [fetchFrom_eq B t orders perPage filter h _ 1 (by omega), asked_eq _ _ 1 (by omega) (by omega)]
  simp

/-- **Paging** visits every matching entity once, in order, exactly when the pages asked for have room for all of
them. -/
theorem fetchAll_iff (h : (r.values.map t.id).Nodup) :
    VisitsOnce t r filter (fetchAll B t r orders perPage filter) ↔
      (sortedMatches t r.values filter).length ≤ room (sortedMatches t r.values filter).length perPage := by
  rw [fetchAll_eq B t orders perPage filter h]
  constructor
  · rintro ⟨hall, -⟩
    have hlen := (hall.trans (sortedMatches_perm t r.values filter).symm).length_eq
    rw [List.length_take] at hlen
    omega
  · intro hle
    rw [List.take_of_length_le hle]
    exact ⟨sortedMatches_perm t r.values filter, sortedMatches_pairwise t h filter⟩

end

/-- Entities that are their ids. -/
def numbers : EntityType Nat Nat Unit where
  tableName := "numbers"
  id := id
  idText := toString
  validate _ := .ok ()
  applyFilter _ _ := true
  page _ := none
  perPage _ := none

/-- The repository of the numbers below `n`. -/
def numbersBelow (n : Nat) : InMemoryRepository Nat Nat :=
  { store := ⟨(List.range n).map fun i => ⟨i, i⟩, by
      unfold List.NodupKeys List.keys
      rw [List.map_map]
      exact (List.map_id (List.range n)).symm ▸ List.nodup_range⟩ }

theorem values_numbersBelow (n : Nat) : (numbersBelow n).values = List.range n := by
  unfold InMemoryRepository.values numbersBelow
  rw [List.map_map]
  exact List.map_id (List.range n)

theorem nodup_numbersBelow (n : Nat) : ((numbersBelow n).values.map numbers.id).Nodup := by
  rw [values_numbersBelow]
  exact (List.map_id (List.range n)).symm ▸ List.nodup_range

theorem length_numbersBelow (n : Nat) : (sortedMatches numbers (numbersBelow n).values ()).length = n := by
  rw [(sortedMatches_perm numbers (numbersBelow n).values ()).length_eq, values_numbersBelow]
  have hall : (List.range n).filter (numbers.applyFilter ()) = List.range n := List.filter_eq_self.mpr fun _ _ => rfl
  rw [hall, List.length_range]

/-- Three entities in two pages. -/
theorem fetchAll_three : VisitsOnce numbers (numbersBelow 3) () (fetchAll Empty numbers (numbersBelow 3) default 2 ()) :=
  (fetchAll_iff Empty numbers default 2 () (nodup_numbersBelow 3)).mpr (by rw [length_numbersBelow]; decide)

/-- A client that asks for 1001 entities a page does not see the last of 1001. -/
theorem fetchAll_misses :
    ¬ VisitsOnce numbers (numbersBelow 1001) () (fetchAll Empty numbers (numbersBelow 1001) default 1001 ()) := by
  rintro ⟨hall, -⟩
  have hlen := (hall.trans (sortedMatches_perm numbers (numbersBelow 1001).values ()).symm).length_eq
  rw [fetchAll_eq Empty numbers default 1001 () (nodup_numbersBelow 1001), List.length_take, length_numbersBelow] at hlen
  revert hlen
  decide

end TptErp.Entity
