import TptErp.Wms.LotCover
import Mathlib.Algebra.Group.Pi.Basic
import Mathlib.Data.Multiset.OrderedMonoid

/-!
# Serials and their registry

The registry of serials and the lots are changed in different sections of a call.  In between a serial
is under way: put into a lot and still to be registered, taken out and still to be forgotten, or moved
to another bin.  `Placed` says where a single serial is, with the sections under way for it; the calls
keep it (`placed_does`) as long as no receipt brings a serial that is already there, nothing is taken
that is not registered, and no serial is lost (`SerialsSafe`).  Where no call is in progress the registry
and the lots then agree (`serials_placed`).
-/

namespace TptErp.Wms

/-! ## The life of one serial -/

/-- A place for serials. -/
abbrev SerialPlace := StockKey × LotNumber

/-- What a section that is still to come does for a serial. -/
inductive Role
  /-- The serial is in the lot, to be registered there. -/
  | registering (place : SerialPlace)
  /-- The serial left its lot, to be registered where it goes, or to be forgotten. -/
  | leaving (next : Option SerialPlace)
  /-- The serial is registered where it goes, and is to be put there. -/
  | moving (place : SerialPlace)

/-- Where a serial is: the lots of each key that it lies in, its place in the registry, and the roles of
the sections to come. -/
inductive Placed (lies : StockKey → Multiset LotNumber) (registry : Option SerialPlace) (roles : Multiset Role) : Prop
  | absent (lots : lies = 0) (place : registry = none) (under : roles = 0)
  | arriving (key : StockKey) (lot : LotNumber) (lots : lies = Pi.single key {lot}) (place : registry = none)
      (under : roles = {.registering (key, lot)})
  | stored (key : StockKey) (lot : LotNumber) (lots : lies = Pi.single key {lot}) (place : registry = some (key, lot))
      (under : roles = 0)
  | leaving (next : Option SerialPlace) (lots : lies = 0) (place : registry.isSome) (under : roles = {.leaving next})
  | moving (key : StockKey) (lot : LotNumber) (lots : lies = 0) (place : registry = some (key, lot))
      (under : roles = {.moving (key, lot)})

theorem replicate_add_eq_singleton {α : Type} {n : Nat} {x r : α} {R : Multiset α} (hn : 0 < n)
    (h : Multiset.replicate n x + R = {r}) : n = 1 ∧ x = r ∧ R = 0 := by
  have hcard := congrArg Multiset.card h
  rw [Multiset.card_add, Multiset.card_replicate, Multiset.card_singleton] at hcard
  have h1 : n = 1 := by omega
  have hR : R = 0 := Multiset.card_eq_zero.mp (by omega)
  subst h1 hR
  rw [add_zero, Multiset.replicate_one] at h
  exact ⟨rfl, Multiset.singleton_inj.mp h, rfl⟩

theorem replicate_add_ne_zero {α : Type} {n : Nat} {x : α} {R : Multiset α} (hn : 0 < n) :
    Multiset.replicate n x + R ≠ 0 := by
  intro h
  have hcard := congrArg Multiset.card h
  rw [Multiset.card_add, Multiset.card_replicate, Multiset.card_zero] at hcard
  omega

section
variable {lies lies' : StockKey → Multiset LotNumber} {registry : Option SerialPlace} {R : Multiset Role}

/-- With nothing under way a serial is in one lot and registered there, or nowhere. -/
theorem placed_zero_cases (h : Placed lies registry 0) : (lies = 0 ∧ registry = none) ∨
    ∃ key lot, lies = Pi.single key {lot} ∧ registry = some (key, lot) := by
  cases h with
  | absent lots place under => exact Or.inl ⟨lots, place⟩
  | stored key lot lots place under => exact Or.inr ⟨key, lot, lots, place⟩
  | arriving key lot lots place under => exact absurd under.symm (Multiset.singleton_ne_zero _)
  | leaving next lots place under => exact absurd under.symm (Multiset.singleton_ne_zero _)
  | moving key lot lots place under => exact absurd under.symm (Multiset.singleton_ne_zero _)

/-- A role that the section does not have for the serial. -/
theorem placed_of_zero {x : Role} {n : Nat} (hn : ¬ 0 < n) (h : Placed lies registry (Multiset.replicate n x + R)) :
    Placed lies registry R := by
  obtain rfl : n = 0 := by omega
  rw [Multiset.replicate_zero, zero_add] at h
  exact h

/-- A serial is put into a lot, once and from nowhere, or it is not among those that are. -/
theorem placed_enter {n : Nat} (h : Placed lies registry R) (hn : n ≤ 1)
    (hfree : 0 < n → lies = 0 ∧ registry = none) (key : StockKey) (lot : LotNumber) :
    Placed (lies + Pi.single key (Multiset.replicate n lot)) registry
      (Multiset.replicate n (.registering (key, lot)) + R) := by
  by_cases h0 : 0 < n
  · obtain ⟨rfl, rfl⟩ := hfree h0
    obtain rfl : n = 1 := by omega
    rw [Multiset.replicate_one, Multiset.replicate_one, zero_add]
    cases h with
    | absent lots place under =>
      apply Placed.arriving key lot rfl rfl
      rw [under, add_zero]
    | arriving key' lot' lots place under =>
      have hk := congrFun lots key'
      rw [Pi.single_eq_same] at hk
      exact absurd hk.symm (Multiset.singleton_ne_zero _)
    | stored key' lot' lots place under => cases place
    | leaving next lots place under => cases place
    | moving key' lot' lots place under => cases place
  · obtain rfl : n = 0 := by omega
    rw [Multiset.replicate_zero, Multiset.replicate_zero, Pi.single_zero, add_zero, zero_add]
    exact h

/-- A registered serial that is taken out of a key's lots has been in one lot, once. -/
theorem placed_leave {n : Nat} {taken : Multiset LotNumber} {key : StockKey} (h : Placed lies registry R)
    (hl : lies' + Pi.single key taken = lies) (hn : taken.card = n) (hr : 0 < n → registry.isSome)
    (next : Option SerialPlace) : Placed lies' registry (Multiset.replicate n (.leaving next) + R) := by
  by_cases h0 : 0 < n
  · have hkey := congrFun hl key
    rw [Pi.add_apply, Pi.single_eq_same] at hkey
    have ht : taken ≠ 0 := by
      rw [← Multiset.card_pos]
      omega
    have hnone : lies ≠ 0 := by
      rintro rfl
      exact ht (add_eq_zero.mp hkey).2
    cases h with
    | absent lots place under => exact absurd lots hnone
    | arriving key' lot lots place under =>
      have hsome := hr h0
      rw [place] at hsome
      cases hsome
    | stored key' lot lots place under =>
      have hone : key' = key := by
        by_contra hne
        rw [lots, Pi.single_eq_of_ne (Ne.symm hne)] at hkey
        exact ht (add_eq_zero.mp hkey).2
      subst hone
      rw [lots, Pi.single_eq_same] at hkey
      have hcard := congrArg Multiset.card hkey
      rw [Multiset.card_add, Multiset.card_singleton] at hcard
      obtain rfl : n = 1 := by omega
      refine .leaving next ?_ (hr h0) (by rw [under, add_zero, Multiset.replicate_one])
      ext1 k
      by_cases hk : k = key'
      · subst hk
        exact Multiset.card_eq_zero.mp (by omega)
      · have hother := congrFun hl k
        rw [lots, Pi.add_apply, Pi.single_eq_of_ne hk, Pi.single_eq_of_ne hk, add_zero] at hother
        exact hother
    | leaving next' lots place under => exact absurd lots hnone
    | moving key' lot lots place under => exact absurd lots hnone
  · obtain rfl : n = 0 := by omega
    rw [Multiset.card_eq_zero.mp hn, Pi.single_zero, add_zero] at hl
    rw [hl, Multiset.replicate_zero, zero_add]
    exact h

/-- A serial that lies in a lot is registered there. -/
theorem placed_register {n : Nat} {key : StockKey} {lot : LotNumber}
    (h : Placed lies registry (Multiset.replicate n (.registering (key, lot)) + R)) :
    Placed lies (if 0 < n then some (key, lot) else registry) R := by
  split
  · next hn =>
    cases h with
    | absent lots place under => exact absurd under (replicate_add_ne_zero hn)
    | arriving key' lot' lots place under =>
      obtain ⟨-, hrole, rfl⟩ := replicate_add_eq_singleton hn under
      cases hrole
      exact .stored key lot lots rfl rfl
    | stored key' lot' lots place under => exact absurd under (replicate_add_ne_zero hn)
    | leaving next lots place under => cases (replicate_add_eq_singleton hn under).2.1
    | moving key' lot' lots place under => cases (replicate_add_eq_singleton hn under).2.1
  · next hn => exact placed_of_zero hn h

/-- A serial that left its lot is forgotten, or registered where it goes. -/
theorem placed_left {n : Nat} {next : Option SerialPlace}
    (h : Placed lies registry (Multiset.replicate n (.leaving next) + R)) :
    Placed lies (if 0 < n then next else registry)
      (next.elim 0 (fun place => Multiset.replicate n (.moving place)) + R) := by
  split
  · next hn =>
    cases h with
    | absent lots place under => exact absurd under (replicate_add_ne_zero hn)
    | arriving key lot lots place under => cases (replicate_add_eq_singleton hn under).2.1
    | stored key lot lots place under => exact absurd under (replicate_add_ne_zero hn)
    | leaving next' lots place under =>
      obtain ⟨rfl, -, rfl⟩ := replicate_add_eq_singleton hn under
      cases next with
      | none => exact .absent lots rfl rfl
      | some place => exact .moving place.1 place.2 lots rfl rfl
    | moving key lot lots place under => cases (replicate_add_eq_singleton hn under).2.1
  · next hn =>
    have hR := placed_of_zero hn h
    obtain rfl : n = 0 := by omega
    cases next with
    | none =>
      rw [Option.elim_none, zero_add]
      exact hR
    | some place =>
      rw [Option.elim_some, Multiset.replicate_zero, zero_add]
      exact hR

/-- A serial arrives where it goes. -/
theorem placed_arrive {n : Nat} {key : StockKey} {lot : LotNumber}
    (h : Placed lies registry (Multiset.replicate n (.moving (key, lot)) + R)) :
    Placed (lies + Pi.single key (Multiset.replicate n lot)) registry R := by
  by_cases hn : 0 < n
  · cases h with
    | absent lots place under => exact absurd under (replicate_add_ne_zero hn)
    | arriving key' lot' lots place under => cases (replicate_add_eq_singleton hn under).2.1
    | stored key' lot' lots place under => exact absurd under (replicate_add_ne_zero hn)
    | leaving next lots place under => cases (replicate_add_eq_singleton hn under).2.1
    | moving key' lot' lots place under =>
      obtain ⟨rfl, hrole, rfl⟩ := replicate_add_eq_singleton hn under
      cases hrole
      apply Placed.stored key lot _ place rfl
      rw [lots, zero_add, Multiset.replicate_one]
  · have hR := placed_of_zero hn h
    obtain rfl : n = 0 := by omega
    rw [Multiset.replicate_zero, Pi.single_zero, add_zero]
    exact hR

end

/-! ## The lots that a serial lies in -/

/-- The lots that have the serial, each as often as it has it. -/
def holding (sn : SerialNumber) (lots : List LotDetail) : Multiset LotNumber :=
  (lots.map fun ld => Multiset.replicate (ld.serials.count sn) ld.lot).sum

section
variable (sn : SerialNumber)

theorem holding_cons (ld : LotDetail) (lots : List LotDetail) :
    holding sn (ld :: lots) = Multiset.replicate (ld.serials.count sn) ld.lot + holding sn lots := rfl

theorem mem_holding {lots : List LotDetail} {lot : LotNumber} :
    lot ∈ holding sn lots ↔ ∃ ld ∈ lots, ld.lot = lot ∧ sn ∈ ld.serials := by
  induction lots with
  | nil => simp [holding]
  | cons ld lots ih =>
    rw [holding_cons, Multiset.mem_add, ih, Multiset.mem_replicate, List.exists_mem_cons_iff]
    apply or_congr_left
    rw [ne_eq, List.count_eq_zero, not_not, and_comm, eq_comm]

theorem card_holding (lots : List LotDetail) :
    (holding sn lots).card = (lots.flatMap (·.serials)).count sn := by
  induction lots with
  | nil => rfl
  | cons ld lots ih => rw [holding_cons, Multiset.card_add, Multiset.card_replicate, ih, List.flatMap_cons, List.count_append]

/-- Taking units of a lot takes some of its serials. -/
theorem count_take (ld : LotDetail) (qty : Nat) :
    (ld.take qty).serials.count sn + (ld.takenSerials qty).count sn = ld.serials.count sn := by
  simp only [LotDetail.take, LotDetail.takenSerials]
  rw [add_comm, ← List.count_append, List.take_append_drop]

/-- Changing a lot changes its part. -/
theorem holding_update {f : LotDetail → LotDetail} (hf : ∀ ld, (f ld).lot = ld.lot) {lots : List LotDetail}
    {lot : LotNumber} {ld : LotDetail} (found : findLot lots lot = some ld) :
    holding sn (updateLot lot f lots) + Multiset.replicate (ld.serials.count sn) lot =
      holding sn lots + Multiset.replicate ((f ld).serials.count sn) lot := by
  induction lots with
  | nil => cases found
  | cons l lots ih =>
    rw [findLot_cons] at found
    unfold updateLot
    by_cases hl : l.lot = lot
    · rw [if_pos hl] at found ⊢
      obtain rfl := Option.some.inj found
      rw [holding_cons, holding_cons, hf, hl]
      ac_rfl
    · rw [if_neg hl] at found ⊢
      rw [holding_cons, holding_cons, add_assoc, ih found, add_assoc]

theorem holding_updateLot {lots : List LotDetail} {lot : LotNumber} {ld : LotDetail} (found : findLot lots lot = some ld)
    (qty : Nat) :
    holding sn (updateLot lot (fun ld => ld.take qty) lots) +
      Multiset.replicate ((ld.takenSerials qty).count sn) lot = holding sn lots := by
  have h := holding_update sn (fun ld => take_lot ld qty) found
  have hc := count_take sn ld qty
  rw [← hc, add_comm ((ld.take qty).serials.count sn), Multiset.replicate_add, ← add_assoc] at h
  exact add_right_cancel h

theorem holding_addToLot (lots : List LotDetail) (lot : LotNumber) (qty : Nat) (expiry : Option Int)
    (serials : List SerialNumber) :
    holding sn (addToLot lots lot qty expiry serials) =
      holding sn lots + Multiset.replicate (serials.count sn) lot := by
  unfold addToLot
  cases found : findLot lots lot with
  | none =>
    show holding sn (lots ++ [_]) = _
    simp [holding]
  | some ld =>
    show holding sn (updateLot lot (fun ld => ld.receive qty expiry serials) lots) = _
    have h := holding_update sn (fun ld => receive_lot ld qty expiry serials) found
    have hc : (ld.receive qty expiry serials).serials.count sn = serials.count sn + ld.serials.count sn := by
      rw [add_comm]
      exact List.count_append
    rw [hc, Multiset.replicate_add, ← add_assoc] at h
    exact add_right_cancel h

theorem holding_set {lots : List LotDetail} {i : Nat} {ld : LotDetail} (hi : lots[i]? = some ld) (qty : Nat) :
    holding sn (lots.set i (ld.take qty)) + Multiset.replicate ((ld.takenSerials qty).count sn) ld.lot =
      holding sn lots := by
  obtain ⟨rest, h1, h2⟩ := Machine.sum_map_set (fun ld : LotDetail => Multiset.replicate (ld.serials.count sn) ld.lot) hi
  unfold holding
  rw [h1, h2, take_lot, add_right_comm, ← Multiset.replicate_add, count_take]

/-- The serials that a plan takes leave the lots. -/
theorem holding_takePlan (lots : List LotDetail) (plan : List (Nat × Nat)) :
    ∃ taken : Multiset LotNumber, holding sn (takePlan lots plan).1 + taken = holding sn lots ∧
      taken.card = ((takePlan lots plan).2.flatMap (·.serials)).count sn := by
  induction plan generalizing lots with
  | nil => exact ⟨0, add_zero _, rfl⟩
  | cons p plan ih =>
    obtain ⟨i, qty⟩ := p
    unfold takePlan
    cases hi : lots[i]? with
    | none => exact ih lots
    | some ld =>
      obtain ⟨taken, h1, h2⟩ := ih (lots.set i (ld.take qty))
      refine ⟨taken + Multiset.replicate ((ld.takenSerials qty).count sn) ld.lot, ?_, ?_⟩
      · rw [← add_assoc]
        dsimp only
        rw [h1, holding_set sn hi]
      · rw [Multiset.card_add, Multiset.card_replicate, h2, List.flatMap_cons, List.count_append, add_comm]

/-- Dropping the emptied lots, which have no serials. -/
theorem holding_filter {lots : List LotDetail} (h : ∀ ld ∈ lots, ld.onHand = 0 → ld.serials = []) :
    holding sn (lots.filter fun l => 0 < l.onHand) = holding sn lots := by
  induction lots with
  | nil => rfl
  | cons ld lots ih =>
    have hrest := ih fun ld hld => h ld (List.mem_cons_of_mem _ hld)
    by_cases hq : 0 < ld.onHand
    · rw [List.filter_cons_of_pos (by simpa using hq), holding_cons, holding_cons, hrest]
    · have hnil := h ld List.mem_cons_self (by omega)
      rw [List.filter_cons_of_neg (by simpa using hq), holding_cons, hnil, hrest, List.count_nil,
        Multiset.replicate_zero, zero_add]

end

namespace InventoryEngine

variable {SHARDS : Nat}

/-- The lots of each key that a serial lies in. -/
def lies (eng : InventoryEngine SHARDS) (sn : SerialNumber) : StockKey → Multiset LotNumber :=
  fun key => holding sn (eng.lots key)

/-- A serial lies in some lot. -/
def Held (eng : InventoryEngine SHARDS) (sn : SerialNumber) : Prop :=
  ∃ key, ∃ ld ∈ eng.lots key, sn ∈ ld.serials

/-- **The registry agrees with the lots**: no serial lies in two lots, or twice in one, and a serial is
registered at a lot exactly when it lies there. -/
structure SerialsPlaced (eng : InventoryEngine SHARDS) : Prop where
  once : ∀ keys : List StockKey, keys.Nodup → (keys.flatMap fun key => (eng.lots key).flatMap (·.serials)).Nodup
  registered : ∀ sn key lot, eng.serialLocation sn = some (key, lot) ↔
    ∃ ld ∈ eng.lots key, ld.lot = lot ∧ sn ∈ ld.serials

/-- A section does no harm to serials.  A receipt that goes through brings no serial twice, and none that
is registered or lies in a lot; what is taken out of the lots is registered; a pick leaves no serials in
a lot that it empties; and serials that have left their bin do arrive. -/
def SerialsSafe (eng : InventoryEngine SHARDS) : Instr → Prop
  | .receive key _ qty _ serials => eng.Floor wrapI64 key qty.1 →
      serials.Nodup ∧ ∀ sn ∈ serials, eng.serialLocation sn = none ∧ ¬ eng.Held sn
  | .pick key qty asOf => qty.1 ≤ issuable (eng.lots key) asOf →
      (∀ sn ∈ (eng.pickTakes key qty.1 asOf).2.flatMap (·.serials), (eng.serialLocation sn).isSome) ∧
        ∀ ld ∈ (eng.pickTakes key qty.1 asOf).1, ld.onHand = 0 → ld.serials = []
  | .pickFromLot key lot qty asOf => ∀ ld ∈ findLot (eng.lots key) lot, ld.issuableOn asOf = true → qty.1 ≤ ld.onHand →
      ∀ sn ∈ ld.takenSerials qty.1, (eng.serialLocation sn).isSome
  | .moveLine _ location _ (line :: _) => ∀ ld ∈ findLot (eng.lots ⟨location, line.sku⟩) line.lot,
      line.qty.1 ≤ ld.onHand → ∀ sn ∈ ld.takenSerials line.qty.1, (eng.serialLocation sn).isSome
  | .transferIn _ _ toBin line _ serials _ => serials ≠ [] → eng.Floor wrapI64 ⟨toBin, line.sku⟩ line.qty.1
  | _ => True

section
variable {eng : InventoryEngine SHARDS}

theorem count_serials (eng : InventoryEngine SHARDS) (sn : SerialNumber) (key : StockKey) :
    ((eng.lots key).flatMap (·.serials)).count sn = (eng.lies sn key).card :=
  (card_holding sn (eng.lots key)).symm

/-- A serial lies in one lot of one key, once. -/
theorem lies_once {sn : SerialNumber} (h : Placed (eng.lies sn) (eng.serialLocation sn) 0) :
    (∀ key, (eng.lies sn key).card ≤ 1) ∧
      ∀ k k', 0 < (eng.lies sn k).card → 0 < (eng.lies sn k').card → k = k' := by
  rcases placed_zero_cases h with ⟨hl, -⟩ | ⟨key, lot, hl, -⟩
  · constructor
    · intro key
      rw [hl]
      exact Nat.zero_le 1
    · intro k k' hk
      rw [hl] at hk
      exact absurd hk (lt_irrefl 0)
  · have hcard : ∀ k, (eng.lies sn k).card = if k = key then 1 else 0 := by
      intro k
      rw [hl, Pi.single_apply]
      split
      · exact Multiset.card_singleton lot
      · rfl
    constructor
    · intro k
      rw [hcard]
      split
      · exact le_rfl
      · exact Nat.zero_le 1
    · intro k k' hk hk'
      rw [hcard] at hk hk'
      have h1 : k = key := by
        by_contra hne
        rw [if_neg hne] at hk
        exact lt_irrefl 0 hk
      have h2 : k' = key := by
        by_contra hne
        rw [if_neg hne] at hk'
        exact lt_irrefl 0 hk'
      rw [h1, h2]

theorem nodup_serials (h : ∀ sn, Placed (eng.lies sn) (eng.serialLocation sn) 0) {keys : List StockKey}
    (hk : keys.Nodup) : (keys.flatMap fun key => (eng.lots key).flatMap (·.serials)).Nodup := by
  rw [List.nodup_flatMap]
  constructor
  · intro key _
    rw [List.nodup_iff_count_le_one]
    intro sn
    rw [count_serials]
    exact (lies_once (h sn)).1 key
  · apply hk.imp
    intro k k' hne sn hs hs'
    rw [← List.count_pos_iff, count_serials] at hs hs'
    exact hne ((lies_once (h sn)).2 k k' hs hs')

theorem registered_iff {sn : SerialNumber} (h : Placed (eng.lies sn) (eng.serialLocation sn) 0) (key : StockKey)
    (lot : LotNumber) :
    eng.serialLocation sn = some (key, lot) ↔ ∃ ld ∈ eng.lots key, ld.lot = lot ∧ sn ∈ ld.serials := by
  rw [← mem_holding]
  show _ ↔ lot ∈ eng.lies sn key
  rcases placed_zero_cases h with ⟨hl, hr⟩ | ⟨k, l, hl, hr⟩
  · rw [hl, hr]
    simp
  · rw [hl, hr]
    by_cases hk : key = k
    · subst hk
      rw [Pi.single_eq_same, Multiset.mem_singleton]
      simp [eq_comm]
    · rw [Pi.single_eq_of_ne hk]
      have hk' : k ≠ key := Ne.symm hk
      simp [hk']

/-- Where no section is to come for any serial, the registry agrees with the lots. -/
theorem serialsPlaced_of_placed (h : ∀ sn, Placed (eng.lies sn) (eng.serialLocation sn) 0) : SerialsPlaced eng :=
  ⟨fun _ hk => nodup_serials h hk, fun sn => registered_iff (h sn)⟩

theorem lies_eq_zero {sn : SerialNumber} (h : ¬ eng.Held sn) : eng.lies sn = 0 := by
  ext1 key
  apply Multiset.eq_zero_of_forall_notMem
  intro lot hm
  obtain ⟨ld, hld, -, hsn⟩ := (mem_holding sn).mp hm
  exact h ⟨key, ld, hld, hsn⟩

end

/-! ## One section -/

/-- What a section that is still to come does for a serial, as often as its list has it. -/
def Instr.roles (sn : SerialNumber) : Instr → Multiset Role
  | .putSerials serials key lot => Multiset.replicate (serials.count sn) (.registering (key, lot))
  | .removeSerials serials => Multiset.replicate (serials.count sn) (.leaving none)
  | .registerMoved _ _ toBin line _ serials _ =>
    Multiset.replicate (serials.count sn) (.leaving (some (⟨toBin, line.sku⟩, line.lot)))
  | .transferIn _ _ toBin line _ serials _ =>
    Multiset.replicate (serials.count sn) (.moving (⟨toBin, line.sku⟩, line.lot))
  | _ => 0

section
variable (serials : List SerialNumber) (lpn : LpnId) (location toBin : Id Bin) (line : PalletLine)
  (expiry : Option Int) (todo : List PalletLine) (sn : SerialNumber)

@[simp] theorem roles_putSerials (key : StockKey) (lot : LotNumber) :
    (Instr.putSerials serials key lot).roles sn = Multiset.replicate (serials.count sn) (.registering (key, lot)) := rfl

@[simp] theorem roles_removeSerials :
    (Instr.removeSerials serials).roles sn = Multiset.replicate (serials.count sn) (.leaving none) := rfl

@[simp] theorem roles_registerMoved :
    (Instr.registerMoved lpn location toBin line expiry serials todo).roles sn =
      Multiset.replicate (serials.count sn) (.leaving (some (⟨toBin, line.sku⟩, line.lot))) := rfl

@[simp] theorem roles_transferIn :
    (Instr.transferIn lpn location toBin line expiry serials todo).roles sn =
      Multiset.replicate (serials.count sn) (.moving (⟨toBin, line.sku⟩, line.lot)) := rfl

end

theorem roles_plain {i : Instr} (h : i.plain = true) (sn : SerialNumber) : i.roles sn = 0 := by
  cases i with
  | putSerials | removeSerials | registerMoved | transferIn => cases h
  | _ => rfl

theorem sum_roles_plain {more : List Instr} (h : ∀ j ∈ more, j.plain = true) (sn : SerialNumber) :
    (more.map (·.roles sn)).sum = 0 := by
  induction more with
  | nil => rfl
  | cons j more ih =>
    rw [List.map_cons, List.sum_cons, roles_plain (h j List.mem_cons_self), ih fun j hj => h j (List.mem_cons_of_mem _ hj),
      add_zero]

theorem serialLocation_putSerials (eng : InventoryEngine SHARDS) (sns : List SerialNumber) (key : StockKey)
    (lot : LotNumber) (sn : SerialNumber) :
    (eng.putSerials sns key lot).serialLocation sn =
      if 0 < sns.count sn then some (key, lot) else eng.serialLocation sn := by
  simp only [List.count_pos_iff]
  exact AssocMap.lookup_foldl_insert sns (key, lot) eng.serials sn

theorem serialLocation_removeSerials (eng : InventoryEngine SHARDS) (sns : List SerialNumber) (sn : SerialNumber) :
    (eng.removeSerials sns).serialLocation sn = if 0 < sns.count sn then none else eng.serialLocation sn := by
  simp only [List.count_pos_iff]
  exact AssocMap.lookup_foldl_erase sns eng.serials sn

theorem picked_serialLocation {w : Int → Int} {key : StockKey} {cs : List LotConsumption}
    {eng eng' : InventoryEngine SHARDS} (h : Picked w key cs eng eng') (sn : SerialNumber) :
    eng'.serialLocation sn = eng.serialLocation sn := by
  induction h with
  | nil eng => rfl
  | cons c floor rest ih => exact ih

section
variable {eng eng' : InventoryEngine SHARDS} {sn : SerialNumber} {R : Multiset Role}

/-- A lot that units go into has their serials. -/
theorem lies_received {key : StockKey} {lot : LotNumber} {qty : U32} {expiry : Option Int} {serials : List SerialNumber} :
    (((eng.moveBy wrapI64 key (.received qty.1) qty.1).setLots key
      (addToLot (eng.lots key) lot qty.1 expiry serials)).logLot key (.received lot qty.1 expiry serials)).lies sn =
      eng.lies sn + Pi.single key (Multiset.replicate (serials.count sn) lot) := by
  ext1 k
  unfold lies
  rw [lots_logLot, lots_setLots, Pi.add_apply]
  by_cases hk : k = key
  · subst hk
    rw [if_pos rfl, holding_addToLot, Pi.single_eq_same]
  · rw [if_neg hk, lots_moveBy, Pi.single_eq_of_ne hk, add_zero]

/-- Registered serials that a section takes out of a key's lots. -/
theorem placed_taken (hp : Placed (eng.lies sn) (eng.serialLocation sn) R) (key : StockKey) (lots : List LotDetail)
    (hlots : ∀ k, eng'.lots k = if k = key then lots else eng.lots k)
    (hregistry : eng'.serialLocation sn = eng.serialLocation sn) {serials : List SerialNumber}
    {taken : Multiset LotNumber} (htaken : holding sn lots + taken = holding sn (eng.lots key))
    (hcard : taken.card = serials.count sn) (hreg : ∀ sn ∈ serials, (eng.serialLocation sn).isSome)
    (next : Option SerialPlace) :
    Placed (eng'.lies sn) (eng'.serialLocation sn) (Multiset.replicate (serials.count sn) (.leaving next) + R) := by
  have hl : eng'.lies sn + Pi.single key taken = eng.lies sn := by
    ext1 k
    rw [Pi.add_apply]
    unfold lies
    rw [hlots]
    by_cases hk : k = key
    · subst hk
      rw [if_pos rfl, Pi.single_eq_same, htaken]
    · rw [if_neg hk, Pi.single_eq_of_ne hk, add_zero]
  rw [hregistry]
  apply placed_leave hp hl hcard
  intro hpos
  exact hreg sn (List.count_pos_iff.mp hpos)

/-- One section keeps every serial in its place. -/
theorem placed_does (h : LotsKept eng) {i : Instr} {more : List Instr} (hi : i.lotAware = true)
    (hok : SerialsSafe eng i) (hd : Does wrapI64 eng i eng' more)
    (hp : Placed (eng.lies sn) (eng.serialLocation sn) (i.roles sn + R)) :
    Placed (eng'.lies sn) (eng'.serialLocation sn) ((more.map (·.roles sn)).sum + R) := by
  cases hd with
  | stop plain =>
    rw [roles_plain plain] at hp
    exact hp
  | goOn plain blind next =>
    rw [roles_plain plain] at hp
    rw [sum_roles_plain (List.forall_mem_singleton.mpr next)]
    exact hp
  | pallet lpn p more plain blind next =>
    rw [roles_plain plain] at hp
    rw [sum_roles_plain next]
    exact hp
  | blind plain blind =>
    rw [eng.blindMove_of_lotAware wrapI64 hi] at blind
    cases blind
  | receiptRefused => exact hp
  | @received key lot qty expiry serials floor =>
    obtain ⟨hn, hfree⟩ := hok floor
    rw [roles_plain rfl, zero_add] at hp
    rw [lies_received, List.map_singleton, List.sum_singleton, roles_putSerials]
    apply placed_enter hp (List.nodup_iff_count_le_one.mp hn sn)
    intro hpos
    obtain ⟨hr, hheld⟩ := hfree sn (List.count_pos_iff.mp hpos)
    exact ⟨lies_eq_zero hheld, hr⟩
  | pickRefused => exact hp
  | @picked key qty asOf mid enough picked =>
    obtain ⟨hreg, hleft⟩ := hok enough
    obtain ⟨taken, htaken, hcard⟩ := holding_takePlan sn (eng.lots key)
      (planLoop (pickCandidates (eng.lots key) asOf) qty.1).1
    rw [List.map_singleton, List.sum_singleton]
    rw [roles_plain rfl, zero_add] at hp
    refine placed_taken hp key ((eng.pickTakes key qty.1 asOf).1.filter fun l => 0 < l.onHand) ?_ ?_ ?_ hcard hreg none
    · intro k
      rw [lots_setLots, picked_lots picked, picked_lots picked, lots_setLots, lots_setLots, if_pos rfl]
      by_cases hk : k = key
      · rw [if_pos hk, if_pos hk]
      · rw [if_neg hk, if_neg hk, if_neg hk]
    · exact picked_serialLocation picked sn
    · rw [holding_filter sn hleft]
      exact htaken
  | pickGivenUp first c rest enough split picked floor =>
    exact absurd (not_givenUp quantityArith_wrapI64 h.stocked h.covered enough split picked) floor
  | lotPickRefused => exact hp
  | @lotPicked key lot qty asOf ld floor pickable =>
    rw [List.map_singleton, List.sum_singleton]
    rw [roles_plain rfl, zero_add] at hp
    refine placed_taken hp _ _ ?_ ?_ (holding_updateLot sn pickable.1 qty.1) (Multiset.card_replicate _ _)
      (hok ld pickable.1 pickable.2.1 pickable.2.2) none
    · intro k
      rw [lots_setLots, lots_logLot, lots_moveBy]
    · rfl
  | departureRefused ld found enough floor => exact absurd (floor_of_found h found enough) floor
  | @departed lpn location toBin line todo ld found enough floor =>
    rw [List.map_singleton, List.sum_singleton]
    rw [roles_plain rfl, zero_add] at hp
    refine placed_taken hp _ _ ?_ ?_ (holding_updateLot sn found line.qty.1) (Multiset.card_replicate _ _)
      (hok ld found enough) _
    · intro k
      rw [lots_logLot, lots_moveBy, lots_setLots]
    · rfl
  | @arrivalRefused lpn location toBin line expiry serials todo floor =>
    have hnil : serials = [] := not_not.mp fun hne => floor (hok hne)
    subst hnil
    exact hp
  | @arrived lpn location toBin line expiry serials todo floor =>
    rw [roles_transferIn] at hp
    rw [lies_received, List.map_singleton, List.sum_singleton, roles_plain rfl, zero_add]
    exact placed_arrive hp
  | putSerials serials key lot =>
    rw [roles_putSerials] at hp
    rw [serialLocation_putSerials, List.map_nil, List.sum_nil, zero_add]
    exact placed_register hp
  | removeSerials serials =>
    rw [roles_removeSerials] at hp
    rw [serialLocation_removeSerials, List.map_nil, List.sum_nil]
    exact placed_left hp
  | registerMoved lpn location toBin line expiry serials todo =>
    rw [roles_registerMoved] at hp
    rw [serialLocation_putSerials, List.map_singleton, List.sum_singleton, roles_transferIn]
    exact placed_left hp

end

/-! ## Runs -/

/-- A serial that lies in some lot is found in the shards. -/
theorem held_iff (eng : InventoryEngine SHARDS) (sn : SerialNumber) :
    eng.Held sn ↔ ∃ i, ∃ e ∈ (eng.shards i).lots.entries, ∃ ld ∈ eng.lots e.1, sn ∈ ld.serials := by
  constructor
  · rintro ⟨key, ld, hld, hsn⟩
    refine ⟨eng.shardIndex key, ?_⟩
    have hl : eng.lots key = ((eng.shards (eng.shardIndex key)).lots.lookup key).getD [] := rfl
    cases hf : (eng.shards (eng.shardIndex key)).lots.lookup key with
    | none =>
      rw [hl, hf] at hld
      cases hld
    | some ls => exact ⟨⟨key, ls⟩, AList.mem_lookup_iff.mp hf, ld, hld, hsn⟩
  · rintro ⟨i, e, -, h⟩
    exact ⟨e.1, h⟩

instance (eng : InventoryEngine SHARDS) (sn : SerialNumber) : Decidable (eng.Held sn) :=
  decidable_of_iff _ (eng.held_iff sn).symm

instance (eng : InventoryEngine SHARDS) (i : Instr) : Decidable (SerialsSafe eng i) :=
  match i with
  | .receive _ _ _ _ _ | .pick _ _ _ => inferInstanceAs (Decidable (_ → _ ∧ _))
  | .pickFromLot _ _ _ _ | .moveLine _ _ _ (_ :: _) => inferInstanceAs (Decidable (∀ ld ∈ _, _))
  | .transferIn _ _ _ _ _ _ _ => inferInstanceAs (Decidable (_ → _))
  | .apply _ _ | .applyVersioned _ _ _ | .checkSerials _ _ _ _ _ | .putSerials _ _ _ | .removeSerials _ |
    .checkLine _ _ _ _ | .pickFromPallet _ _ _ _ _ | .readPallet _ _ | .moveLine _ _ _ [] |
    .registerMoved _ _ _ _ _ _ _ | .countLine _ _ _ _ | .adjust _ _ _ _ _ _ => isTrue trivial

/-- What holds in every run of calls that know the lots and do no harm to serials. -/
structure SerialsKept (s : Machine.State (InventoryEngine SHARDS) Instr) : Prop where
  good : Machine.Good LotsKept (fun _ i => i.lotAware = true) s
  placed : ∀ sn, Placed (s.core.lies sn) (s.core.serialLocation sn) (Machine.pendingSum (Instr.roles sn) s)

theorem serialsKept_new (shardIndex : StockKey → Fin SHARDS) :
    SerialsKept { core := new shardIndex } := by
  refine ⟨Machine.good_init (lotsKept_new shardIndex), ?_⟩
  intro sn
  exact .absent rfl rfl rfl

theorem serialsKept_step {s t : Machine.State (InventoryEngine SHARDS) Instr} {a : Machine.Label Unit LotOp Unit}
    (h : SerialsKept s) (hok : Machine.Does (fun eng i _ => SerialsSafe eng i) s a)
    (ht : (lotCalls wrapI64 SHARDS).step s a = some t) : SerialsKept t := by
  constructor
  · apply (lotCalls wrapI64 SHARDS).good_step _ _ h.good ht
    · intro th choice i core more _ _ hi hx
      have hd := s.core.does_exec wrapI64 i
      rw [Option.some.inj hx] at hd
      exact ⟨lotsKept_does h.good.core hi hd, lotAware_does hi hd, fun _ hj => hj⟩
    · intro eng op _
      exact lotAware_prog op
    · intro eng e hk
      exact ⟨hk, List.forall_mem_nil _, fun _ hi => hi⟩
  · intro sn
    have hp := h.placed sn
    cases (lotCalls wrapI64 SHARDS).moves_of_step ht with
    | spawn op =>
      have h0 : (((lotCalls wrapI64 SHARDS).prog op).map (Instr.roles sn)).sum = 0 := sum_roles_plain (plain_prog op.1) sn
      rw [Machine.pendingSum_spawn, h0, add_zero]
      exact hp
    | env e => exact hp
    | @run th choice i rest more core hth hx =>
      have hi := h.good.threads _ (Machine.mem_of_next hth) i List.mem_cons_self
      have hd := s.core.does_exec wrapI64 i
      rw [Option.some.inj hx] at hd
      obtain ⟨R, hsum, hmore⟩ := Machine.pendingSum_run (Instr.roles sn) hth
      rw [hsum] at hp
      rw [hmore]
      exact placed_does h.good.core hi (hok th choice i rfl ⟨rest, hth⟩) hd hp

/-- No call is in progress. -/
def Idle (s : Machine.State (InventoryEngine SHARDS) Instr) : Prop := ∀ prog ∈ s.threads, prog = []

theorem pendingSum_idle {s : Machine.State (InventoryEngine SHARDS) Instr} (h : Idle s) (sn : SerialNumber) :
    Machine.pendingSum (Instr.roles sn) s = 0 := by
  unfold Machine.pendingSum
  apply List.sum_eq_zero
  intro x hx
  obtain ⟨prog, hprog, rfl⟩ := List.mem_map.mp hx
  rw [h prog hprog]
  rfl

/-- **Serials are unique and registered where they lie**, whenever no call is in progress, in every run of
interleaved calls whose sections do no harm to serials. -/
theorem serials_placed (shardIndex : StockKey → Fin SHARDS) (labels : List (Machine.Label Unit LotOp Unit))
    (h : (lotCalls wrapI64 SHARDS).RunDoes (fun eng i _ => SerialsSafe eng i) { core := new shardIndex } labels) :
    LabelledRun.AllStates (lotCalls wrapI64 SHARDS).step (fun s => Idle s → SerialsPlaced s.core)
      { core := new shardIndex } labels := by
  have hall : LabelledRun.AllStates (lotCalls wrapI64 SHARDS).step SerialsKept { core := new shardIndex } labels := by
    apply LabelledRun.allStates_of_allSteps _ _ (serialsKept_new shardIndex) h
    intro s a t hs hok ht
    exact serialsKept_step hs (hok t ht) ht
  apply hall.mono
  intro s hs hidle
  apply serialsPlaced_of_placed
  intro sn
  rw [← pendingSum_idle hidle sn]
  exact hs.placed sn

/-- Two units with their serials, of which one goes to another bin on a pallet while the other is picked. -/
def movedAndPicked : List (Machine.Label Unit LotOp Unit) :=
  .spawn ⟨.receiveLot ⟨⟨0⟩, ⟨0⟩⟩ ⟨"LOT-1"⟩ (u32 2) none [⟨"SN-1"⟩, ⟨"SN-2"⟩], rfl⟩ :: List.replicate 3 (.run 0 ()) ++
  .spawn ⟨.createPallet ⟨0⟩ [⟨⟨0⟩, ⟨"LOT-1"⟩, u32 1⟩] ⟨0⟩, rfl⟩ :: List.replicate 2 (.run 1 ()) ++
  [.spawn ⟨.movePallet ⟨0⟩ ⟨1⟩, rfl⟩, .run 2 (), .run 2 (), .spawn ⟨.pick ⟨⟨0⟩, ⟨0⟩⟩ (u32 1) 0, rfl⟩, .run 3 (), .run 2 (),
    .run 3 (), .run 2 (), .run 2 ()]

theorem moved_and_picked_placed :
    LabelledRun.AllStates (lotCalls wrapI64 1).step (fun s => Idle s → SerialsPlaced s.core)
      { core := new fun _ => 0 } movedAndPicked :=
  serials_placed _ _ (by decide +kernel)

/-- A receipt that brings one serial twice goes through, and the serial lies in its lot twice. -/
theorem serial_received_twice :
    ¬ ∀ labels : List (Machine.Label Unit LotOp Unit),
      LabelledRun.AllStates (lotCalls wrapI64 1).step (fun s => Idle s → SerialsPlaced s.core)
        { core := new fun _ => 0 } labels := by
  intro h
  have hrun : (LabelledRun.exec (lotCalls wrapI64 1).step { core := new fun _ => 0 }
      (.spawn ⟨.receiveLot ⟨⟨0⟩, ⟨0⟩⟩ ⟨"LOT-1"⟩ (u32 2) none [⟨"SN-1"⟩, ⟨"SN-1"⟩], rfl⟩ ::
        List.replicate 3 (.run 0 ()))).map
      (fun s => (s.threads.all (·.isEmpty), (s.core.lots ⟨⟨0⟩, ⟨0⟩⟩).flatMap (·.serials))) =
        some (true, [⟨"SN-1"⟩, ⟨"SN-1"⟩]) := by decide +kernel
  obtain ⟨s, hs, hlast⟩ := Option.map_eq_some_iff.mp hrun
  obtain ⟨hidle, hserials⟩ := Prod.mk.inj hlast
  have hplaced := (h _).last _ hs fun prog hprog => List.isEmpty_iff.mp (List.all_eq_true.mp hidle prog hprog)
  have honce := hplaced.once [⟨⟨0⟩, ⟨0⟩⟩] (List.nodup_singleton _)
  rw [List.flatMap_singleton, hserials] at honce
  exact absurd honce (by decide)

end InventoryEngine

end TptErp.Wms
