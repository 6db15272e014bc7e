import TptErp.Tenant.Auth
import TptErp.Lib.Separated
import Mathlib.Data.List.Basic

/-!
# Sub-domains

The tenant that `from_subdomain` reads off a `Host` header, for the hosts that have no sub-domain: a bare
name, an apex domain, an address.  It counts the pieces between the points before the first colon:

    fromSubdomain host = some (the first piece)  ↔  there are three pieces or more, and the first is not empty

so an IPv4 address and an apex domain with its root dot select a tenant (`no_subdomain_iff`), before the
`X-Tenant-Id` header is looked at.
-/

namespace TptErp

namespace Tenant

/-! ## Host headers -/

/-- A piece of a host between its points and colons. -/
structure Piece where
  text : List Char
  plain : ∀ c ∈ text, c ≠ '.' ∧ c ≠ ':'

structure Label extends Piece where
  ne_nil : text ≠ []

/-- A host without a sub-domain. -/
inductive HostName
  | bare (label : Label)
  /-- Two labels, and the root dot or not. -/
  | apex (name tld : Label) (root : Bool)
  | ipv4 (a b c d : Fin 256)
  /-- In brackets: a first group, which may be empty, a colon, and the rest. -/
  | ipv6 (group : Piece) (rest : List Char)

structure Host where
  name : HostName
  port : Option (List Char)

/-- An octet in decimal. -/
def octet (n : Fin 256) : List Char := Nat.toDigits 10 n

namespace HostName

def text : HostName → List Char
  | .bare label => label.text
  | .apex name tld root => name.text ++ '.' :: tld.text ++ (if root then ['.'] else [])
  | .ipv4 a b c d => octet a ++ '.' :: octet b ++ '.' :: octet c ++ '.' :: octet d
  | .ipv6 group rest => '[' :: group.text ++ ':' :: rest ++ [']']

/-- The pieces before the first colon. -/
def pieces : HostName → List (List Char)
  | .bare label => [label.text]
  | .apex name tld root => [name.text, tld.text] ++ (if root then [[]] else [])
  | .ipv4 a b c d => [octet a, octet b, octet c, octet d]
  | .ipv6 group _ => ['[' :: group.text]

def isIpv4 : HostName → Bool
  | .ipv4 .. => true
  | _ => false

/-- An apex domain with the root dot. -/
def isRooted : HostName → Bool
  | .apex _ _ root => root
  | _ => false

end HostName

def Host.text (host : Host) : String :=
  String.ofList (host.name.text ++ (host.port.map fun port => ':' :: port).getD [])

/-! ## The pieces of a host -/

theorem octet_spec (n : Fin 256) : octet n ≠ [] ∧ ∀ c ∈ octet n, c ≠ '.' ∧ c ≠ ':' := by
  unfold octet
  refine ⟨Nat.toDigits_ne_nil, fun c hc => ?_⟩
  have hdigit : c.isDigit = true := Nat.isDigit_of_mem_toDigits (by decide) (by decide) hc
  constructor
  · rintro rfl
    exact absurd hdigit (by decide)
  · rintro rfl
    exact absurd hdigit (by decide)

namespace HostName

theorem pieces_plain (name : HostName) : ∀ piece ∈ name.pieces, ∀ c ∈ piece, c ≠ '.' ∧ c ≠ ':' := by
  cases name with
  | bare label => simpa [pieces] using label.plain
  | apex name tld root =>
    cases root with
    | false => simpa [pieces] using ⟨name.plain, tld.plain⟩
    | true => simpa [pieces] using ⟨name.plain, tld.plain⟩
  | ipv4 a b c d => simpa [pieces] using ⟨(octet_spec a).2, (octet_spec b).2, (octet_spec c).2, (octet_spec d).2⟩
  | ipv6 group rest => simpa [pieces] using group.plain

/-- A host is its pieces, and then nothing or a colon. -/
theorem text_eq (name : HostName) :
    ∃ rest, name.text = ['.'].intercalate name.pieces ++ rest ∧ (rest = [] ∨ ∃ more, rest = ':' :: more) := by
  cases name with
  | bare label => exact ⟨[], by simp [text, pieces], .inl rfl⟩
  | apex name tld root =>
    cases root with
    | false => exact ⟨[], by simp [text, pieces, List.intercalate], .inl rfl⟩
    | true => exact ⟨[], by simp [text, pieces, List.intercalate], .inl rfl⟩
  | ipv4 a b c d => exact ⟨[], by simp [text, pieces, List.intercalate], .inl rfl⟩
  | ipv6 group rest => exact ⟨':' :: (rest ++ [']']), by simp [text, pieces, List.intercalate], .inr ⟨_, rfl⟩⟩

end HostName

/-- The first of three pieces or more. -/
def slugOf : List (List Char) → Option TenantSlug
  | first :: _ :: _ :: _ => if first = [] then none else some ⟨lower (String.ofList first)⟩
  | _ => none

/-- `from_subdomain` of pieces joined with points, before the first colon. -/
theorem fromSubdomain_pieces {pieces : List (List Char)} (hplain : ∀ piece ∈ pieces, ∀ c ∈ piece, c ≠ '.' ∧ c ≠ ':')
    (hne : pieces ≠ []) {rest : List Char} (hrest : rest = [] ∨ ∃ more, rest = ':' :: more) :
    fromSubdomain (String.ofList (['.'].intercalate pieces ++ rest)) = slugOf pieces := by
  have hcolon : ':' ∉ ['.'].intercalate pieces :=
    Separated.not_mem_intercalate (by decide) fun piece hp hc => (hplain piece hp _ hc).2 rfl
  have hhost : (split ':' (String.ofList (['.'].intercalate pieces ++ rest))).headD
      (String.ofList (['.'].intercalate pieces ++ rest)) = String.ofList (['.'].intercalate pieces) := by
    unfold split
    rcases hrest with rfl | ⟨more, rfl⟩
    · rw [String.toList_ofList, List.append_nil, List.splitOn_eq_singleton hcolon]
      rfl
    · rw [String.toList_ofList, List.splitOn_append_cons_self_of_not_mem hcolon]
      rfl
  have hsplit : split '.' (String.ofList (['.'].intercalate pieces)) = pieces.map String.ofList := by
    unfold split
    rw [String.toList_ofList, List.splitOn_intercalate '.' (fun piece hp hc => (hplain piece hp _ hc).1 rfl) hne]
  unfold fromSubdomain slugOf
  simp only [hhost, hsplit]
  clear hhost hsplit hcolon
  rcases pieces with _ | ⟨first, _ | ⟨second, _ | ⟨third, more⟩⟩⟩
  · rfl
  · rfl
  · rfl
  · have hempty : String.ofList first = "" ↔ first = [] := by
      rw [← String.toList_inj, String.toList_ofList]
      rfl
    simp only [List.map_cons, hempty]

namespace Host

theorem fromSubdomain_eq (host : Host) :
    fromSubdomain host.text = slugOf host.name.pieces := by
  obtain ⟨name, port⟩ := host
  obtain ⟨rest, htext, hrest⟩ := name.text_eq
  have hne : name.pieces ≠ [] := by
    cases name <;> exact List.cons_ne_nil _ _
  rw [Host.text, htext, List.append_assoc]
  refine fromSubdomain_pieces name.pieces_plain hne ?_
  rcases hrest with rfl | ⟨more, rfl⟩
  · cases port with
    | none => exact .inl rfl
    | some port => exact .inr ⟨port, rfl⟩
  · exact .inr ⟨_, rfl⟩

/-- The hosts that select a tenant, though they have no sub-domain. -/
theorem fromSubdomain_eq_none_iff (host : Host) :
    fromSubdomain host.text = none ↔ host.name.isIpv4 = false ∧ host.name.isRooted = false := by
  rw [fromSubdomain_eq]
  cases host.name with
  | bare label => simp [slugOf, HostName.pieces, HostName.isIpv4, HostName.isRooted]
  | apex name tld root =>
    cases root with
    | false => simp [slugOf, HostName.pieces, HostName.isIpv4, HostName.isRooted]
    | true => simp [slugOf, HostName.pieces, HostName.isIpv4, HostName.isRooted, name.ne_nil]
  | ipv4 a b c d => simp [slugOf, HostName.pieces, HostName.isIpv4, (octet_spec a).1]
  | ipv6 group rest => simp [slugOf, HostName.pieces, HostName.isIpv4, HostName.isRooted]

/-- **Only a sub-domain selects a tenant**, unless the host is an IPv4 address or an apex domain with its root
dot: otherwise the header decides, and then the token's claim. -/
theorem no_subdomain_iff (codecs : Codecs) (headers : Headers) (host : Host) :
    (fromSubdomain host.text = none ∧
        resolveSlug codecs { headers with host := some host.text } =
          (headers.tenantId.bind fromHeader).or (resolveSlugFromJwt codecs headers)) ↔
      host.name.isIpv4 = false ∧ host.name.isRooted = false := by
  rw [← fromSubdomain_eq_none_iff, and_iff_left_iff_imp]
  intro hnone
  have hjwt : resolveSlugFromJwt codecs { headers with host := some host.text } =
      resolveSlugFromJwt codecs headers := rfl
  rw [resolveSlug, hjwt, Option.bind_some, hnone, Option.none_or]

/-- `192.168.1.1`, and `example.com.`. -/
theorem subdomain_of_address :
    fromSubdomain (Host.text ⟨.ipv4 192 168 1 1, none⟩) = some ⟨"192"⟩ ∧
      fromSubdomain "example.com." = some ⟨"example"⟩ := by
  decide

end Host

end Tenant

end TptErp
