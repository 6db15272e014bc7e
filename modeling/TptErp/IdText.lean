import TptErp.Primitives
import Mathlib.Data.Nat.Digits.Defs
import Mathlib.Data.List.Basic

/-!
# Ids as texts

`Id::as_str` is the UUID in lower-case hexadecimal, in groups of 8, 4, 4, 4 and 12 digits.  Different ids have
different texts (`asStr_injective`), made of digits and hyphens (`mem_asStr`).
-/

namespace TptErp

/-- Lower-case hexadecimal, at least 32 digits, the highest first. -/
def hexDigits (n : Nat) : List Char :=
  ((Nat.digits 16 n ++ List.replicate (32 - (Nat.digits 16 n).length) 0).map Nat.digitChar).reverse

/-- The UUID as a hyphenated string. -/
def Id.asStr {T : Type} (id : Id T) : String :=
  let digits := hexDigits id.uuid
  String.ofList (digits.take 8 ++ '-' :: ((digits.drop 8).take 4 ++ '-' :: ((digits.drop 12).take 4 ++
    '-' :: ((digits.drop 16).take 4 ++ '-' :: digits.drop 20))))

/-! ## Reading the digits back -/

/-- The value of a hexadecimal digit. -/
def hexVal (c : Char) : Nat := if c.toNat < 58 then c.toNat - 48 else c.toNat - 87

theorem hexVal_digitChar : ∀ d < 16, hexVal (Nat.digitChar d) = d := by decide

theorem digitChar_ne : ∀ d < 16, Nat.digitChar d ≠ '-' := by decide

theorem mem_digits : ∀ d < 16, Nat.digitChar d ∈ "0123456789abcdef".toList := by decide

theorem mem_hexDigits {n : Nat} {c : Char} (h : c ∈ hexDigits n) : ∃ d < 16, c = Nat.digitChar d := by
  unfold hexDigits at h
  rw [List.mem_reverse, List.mem_map] at h
  obtain ⟨d, hd, rfl⟩ := h
  rcases List.mem_append.mp hd with hd | hd
  · exact ⟨d, Nat.digits_lt_base (by omega) hd, rfl⟩
  · exact ⟨d, by rw [List.eq_of_mem_replicate hd]; omega, rfl⟩

theorem ofDigits_hexDigits (n : Nat) : Nat.ofDigits 16 ((hexDigits n).reverse.map hexVal) = n := by
  have hval : ((hexDigits n).reverse.map hexVal) = Nat.digits 16 n ++ List.replicate (32 - (Nat.digits 16 n).length) 0 := by
    unfold hexDigits
    rw [List.reverse_reverse, List.map_map]
    conv => rhs; rw [← List.map_id (Nat.digits 16 n ++ _)]
    apply List.map_congr_left
    intro d hd
    apply hexVal_digitChar
    rcases List.mem_append.mp hd with hd | hd
    · exact Nat.digits_lt_base (by omega) hd
    · rw [List.eq_of_mem_replicate hd]; omega
  rw [hval, Nat.ofDigits_append_replicate_zero, Nat.ofDigits_digits]

theorem hexDigits_injective : Function.Injective hexDigits := by
  intro m n h
  rw [← ofDigits_hexDigits m, ← ofDigits_hexDigits n, h]

namespace Id

variable {T : Type}

/-- The digits are what is left without the hyphens. -/
theorem filter_asStr (id : Id T) : id.asStr.toList.filter (· ≠ '-') = hexDigits id.uuid := by
  have hfilter : ∀ l : List Char, (∀ c ∈ l, c ∈ hexDigits id.uuid) → l.filter (· ≠ '-') = l := by
    intro l hl
    apply List.filter_eq_self.mpr
    intro c hc
    obtain ⟨d, hd, rfl⟩ := mem_hexDigits (hl c hc)
    exact decide_eq_true (digitChar_ne d hd)
  have hgroup : ∀ i n, (((hexDigits id.uuid).drop i).take n).filter (· ≠ '-') = ((hexDigits id.uuid).drop i).take n :=
    fun i n => hfilter _ fun c hc => List.mem_of_mem_drop (List.mem_of_mem_take hc)
  have hfirst := hgroup 0 8
  have hlast := hfilter ((hexDigits id.uuid).drop 20) fun c hc => List.mem_of_mem_drop hc
  rw [List.drop_zero] at hfirst
  unfold asStr
  simp only [String.toList_ofList, List.filter_append, List.filter_cons_of_neg, ne_eq, not_true_eq_false, decide_false,
    Bool.false_eq_true, not_false_eq_true]
  simp only [ne_eq] at hfirst hgroup hlast
  rw [hfirst, hgroup, hgroup, hgroup, hlast]
  have hrest : ∀ i n, ((hexDigits id.uuid).drop i).take n ++ (hexDigits id.uuid).drop (i + n) =
      (hexDigits id.uuid).drop i := by
    intro i n
    rw [← List.drop_drop, List.take_append_drop]
  rw [hrest 16 4, hrest 12 4, hrest 8 4, List.take_append_drop]

theorem asStr_injective : Function.Injective (asStr : Id T → String) := by
  intro a b h
  apply uuid_injective
  apply hexDigits_injective
  rw [← filter_asStr, ← filter_asStr, h]

/-- Its characters are hexadecimal digits and hyphens. -/
theorem mem_asStr {id : Id T} {c : Char} (h : c ∈ id.asStr.toList) : c ∈ "-0123456789abcdef".toList := by
  by_cases hc : c = '-'
  · rw [hc]
    decide
  · have hd : c ∈ hexDigits id.uuid := by
      rw [← filter_asStr id]
      exact List.mem_filter.mpr ⟨h, decide_eq_true hc⟩
    obtain ⟨d, hlt, rfl⟩ := mem_hexDigits hd
    exact List.mem_cons_of_mem _ (mem_digits d hlt)

end Id

end TptErp
