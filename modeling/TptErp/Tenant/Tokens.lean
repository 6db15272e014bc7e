import TptErp.Tenant.Auth
import TptErp.Lib.Separated
import Mathlib.Tactic.NormNum

/-!
# Issued and verified tokens

What `verify` checks of a token, as facts about its segments and its payload:

    verify token = ok claims ↔ signed, addressed, not expired, claims read from the payload     (verify_ok_iff)

`verify` reads `exp` as an `i64` and takes what it cannot read so for absent (`verify_sound_iff`).  `issue` writes the
payload that `verify` reads back (`verify_issue`).
-/

namespace TptErp.Tenant

/-- A number in JSON. -/
def Json.number : Json → Option ℚ
  | .int n => some n
  | .float x => some x
  | _ => none

variable (codecs : Codecs) (config : JwtConfig)

/-- A segment of a token, read. -/
def readSegment (segment : String) : Except String Json := codecs.b64urlDecode segment >>= codecs.parseJson

/-- The token has three segments: a header that names HS256, the payload, and the MAC of the two. -/
structure Signed (token : String) (header64 payload64 : String) (payload : Json) : Prop where
  segments : split '.' token = [header64, payload64, codecs.sign (header64 ++ "." ++ payload64) config.secret]
  header : ∃ header, readSegment codecs header64 = .ok header ∧ header.get "alg" = some (.string "HS256")
  payload : readSegment codecs payload64 = .ok payload

/-- Issuer and audience are the configured ones. -/
structure Addressed (payload : Json) : Prop where
  issuer : ∀ iss, config.issuer = some iss → payload.get "iss" = some (.string iss)
  audience : ∀ aud, config.audience = some aud →
    payload.get "aud" = some (.string aud) ∨ ∃ xs, payload.get "aud" = some (.array xs) ∧ .string aud ∈ xs

/-- The tenant claim, in lower case, is a valid slug. -/
structure Names (payload : Json) (slug : TenantSlug) : Prop where
  claim : ∃ tenant, payload.get config.tenantClaim = some (.string tenant) ∧ slug.slug = lower tenant
  valid : slug.validate = .ok ()

/-! ## What is verified -/

theorem asStr_eq_some {json : Json} {s : String} : json.asStr = some s ↔ json = .string s := by
  cases json <;> simp [Json.asStr]

theorem bind_asStr_eq_some {json? : Option Json} {s : String} :
    json?.bind Json.asStr = some s ↔ json? = some (.string s) := by
  rw [Option.bind_eq_some_iff]
  simp only [asStr_eq_some]
  exact ⟨fun ⟨_, h, rfl⟩ => h, fun h => ⟨_, h, rfl⟩⟩

theorem splitToken_ok_iff {token header64 payload64 sig : String} :
    splitToken token = .ok (header64, payload64, sig) ↔ split '.' token = [header64, payload64, sig] := by
  unfold splitToken
  split <;> simp_all

theorem audienceMatches_iff {payload : Json} {aud : String} :
    audienceMatches payload aud = true ↔
      payload.get "aud" = some (.string aud) ∨ ∃ xs, payload.get "aud" = some (.array xs) ∧ .string aud ∈ xs := by
  unfold audienceMatches
  split
  · next s h => simp [h]
  · next xs h => simp [h, asStr_eq_some]
  · next h₁ h₂ =>
    simp only [Bool.false_eq_true, false_iff, not_or]
    exact ⟨h₁ aud, fun ⟨xs, h, _⟩ => h₂ xs h⟩

theorem malformed_ok_iff {α : Type} {r : Except String α} {x : α} : malformed r = .ok x ↔ r = .ok x := by
  cases r <;> simp [malformed]

/-- The token says what its payload is. -/
theorem Signed.payload_eq {token header64 payload64 header64' payload64' : String} {payload payload' : Json}
    (h : Signed codecs config token header64 payload64 payload)
    (h' : Signed codecs config token header64' payload64' payload') : payload = payload' := by
  have hsame := h.segments.symm.trans h'.segments
  simp only [List.cons.injEq] at hsame
  obtain ⟨rfl, rfl, -⟩ := hsame
  exact Except.ok.inj (h.payload.symm.trans h'.payload)

theorem bind_ok_iff {ε α β : Type} {r : Except ε α} {f : α → Except ε β} {y : β} :
    (r >>= f) = .ok y ↔ ∃ x, r = .ok x ∧ f x = .ok y := by
  cases r with
  | error err => simp [bind, Except.bind]
  | ok x => simp [bind, Except.bind]

/-- A check that ends the function when it fails. -/
theorem guard_ok_iff {ε α : Type} {c : Prop} [Decidable c] {err : ε} {r : Except ε α} {x : α} :
    (if c then (Except.error err : Except ε PUnit) >>= (fun _ => r) else r) = .ok x ↔ ¬c ∧ r = .ok x := by
  split
  · next h => simp [h, bind, Except.bind]
  · next h => simp [h]

theorem pure_ok_iff {ε α : Type} {x y : α} : (pure x : Except ε α) = .ok y ↔ x = y := by
  simp [pure, Except.pure]

theorem any_false_iff {α : Type} {o : Option α} {c : α → Bool} : ¬ o.any c = true ↔ ∀ x, o = some x → c x = false := by
  cases o <;> simp

/-- `verify` gets to the claims of the tokens that are signed, for the right parties, and not past an `exp` that is an
`i64`. -/
theorem verifiedPayload_ok_iff {now : Int} {token : String} {payload : Json} :
    config.verifiedPayload codecs now token = .ok payload ↔
      (∃ header64 payload64, Signed codecs config token header64 payload64 payload) ∧ Addressed config payload ∧
        ∀ exp, (payload.get "exp").bind Json.asI64 = some exp → now < exp := by
  unfold JwtConfig.verifiedPayload
  simp only [bind_ok_iff, malformed_ok_iff]
  constructor
  · rintro ⟨⟨header64, payload64, sig⟩, hsplit, header, hheader, h⟩
    split at h
    · next alg halg =>
      simp only [guard_ok_iff, bind_ok_iff, malformed_ok_iff, pure_ok_iff, any_false_iff, not_not] at h
      obtain ⟨rfl, rfl, payload', hpayload, hexp, hiss, haud, rfl⟩ := h
      refine ⟨⟨header64, payload64, splitToken_ok_iff.mp hsplit, ⟨header, bind_ok_iff.mpr hheader, ?_⟩,
        bind_ok_iff.mpr hpayload⟩, ⟨fun iss hi => ?_, fun aud ha => ?_⟩, fun exp he => ?_⟩
      · exact bind_asStr_eq_some.mp halg
      · have := hiss iss hi
        simpa [bind_asStr_eq_some] using this
      · have := haud aud ha
        simpa [audienceMatches_iff] using this
      · have := hexp exp he
        simpa using this
    · cases h
  · rintro ⟨⟨header64, payload64, hsegments, ⟨header, hheader, halg⟩, hpayload⟩, ⟨hiss, haud⟩, hexp⟩
    refine ⟨_, splitToken_ok_iff.mpr hsegments, header, bind_ok_iff.mp hheader, ?_⟩
    rw [bind_asStr_eq_some.mpr halg]
    simp only [guard_ok_iff, bind_ok_iff, malformed_ok_iff, pure_ok_iff, any_false_iff, not_not]
    refine ⟨trivial, trivial, payload, bind_ok_iff.mp hpayload, fun exp he => ?_, fun iss hi => ?_, fun aud ha => ?_,
      rfl⟩
    · simpa using hexp exp he
    · simpa [bind_asStr_eq_some] using hiss iss hi
    · simpa [audienceMatches_iff] using haud aud ha

/-- The roles that `verify` reads: the texts of an array. -/
def rolesIn (payload : Json) : List String :=
  match payload.get config.rolesClaim with
  | some (.array xs) => xs.filterMap Json.asStr
  | _ => []

theorem readClaims_ok_iff {payload : Json} {claims : VerifiedClaims} :
    config.readClaims payload = .ok claims ↔ Names config payload claims.tenant ∧
      claims.subject = ((payload.get "sub").bind Json.asStr).getD "" ∧ claims.roles = rolesIn config payload := by
  unfold JwtConfig.readClaims
  constructor
  · intro h
    split at h
    · cases h
    · next tenant htenant =>
      dsimp only at h
      split at h
      · cases h
      · next hvalid =>
        cases h
        exact ⟨⟨⟨tenant, bind_asStr_eq_some.mp htenant, rfl⟩, hvalid⟩, rfl, rfl⟩
  · rintro ⟨⟨⟨tenant, htenant, hslug⟩, hvalid⟩, hsub, hroles⟩
    obtain ⟨subject, ⟨slug⟩, roles⟩ := claims
    obtain rfl : slug = lower tenant := hslug
    rw [bind_asStr_eq_some.mpr htenant]
    dsimp only at hsub hroles hvalid ⊢
    rw [hvalid, hsub, hroles]
    rfl

theorem verify_ok_iff {now : Int} {token : String} {claims : VerifiedClaims} :
    config.verify codecs now token = .ok claims ↔
      ∃ payload, config.verifiedPayload codecs now token = .ok payload ∧ config.readClaims payload = .ok claims := by
  unfold JwtConfig.verify
  cases config.verifiedPayload codecs now token with
  | error err => simp
  | ok payload => simp

/-! ## Soundness -/

/-- What acceptance should say: the token is signed and for the right parties, an `exp` claim is a number still to come,
and the tenant is the one it names. -/
def SoundlyVerified (now : Int) (token : String) (claims : VerifiedClaims) : Prop :=
  ∃ header64 payload64 payload, Signed codecs config token header64 payload64 payload ∧ Addressed config payload ∧
    Names config payload claims.tenant ∧ ∀ exp, payload.get "exp" = some exp → ∃ x, exp.number = some x ∧ now < x

/-- An `exp` claim is an `i64`, or a number still to come. -/
def ExpChecked (now : Int) (payload : Json) : Prop :=
  ∀ exp, payload.get "exp" = some exp → (∃ n, exp.asI64 = some n) ∨ ∃ x, exp.number = some x ∧ now < x

theorem number_of_asI64 {json : Json} {n : Int} (h : json.asI64 = some n) : json.number = some (n : ℚ) := by
  unfold Json.asI64 at h
  split at h
  · split at h
    · cases h
      rfl
    · cases h
  · cases h

/-- **Verification** is sound on the tokens whose `exp` claim, if everything else is in order, is an `i64` or a number
still to come. -/
theorem verify_sound_iff (now : Int) (token : String) :
    (∀ claims, config.verify codecs now token = .ok claims → SoundlyVerified codecs config now token claims) ↔
      ∀ header64 payload64 payload slug, Signed codecs config token header64 payload64 payload →
        Addressed config payload → Names config payload slug → ExpChecked now payload := by
  constructor
  · intro h header64 payload64 payload slug hsigned haddressed hnames exp hexp
    by_cases hi : ∃ n, exp.asI64 = some n
    · exact .inl hi
    · -- `verify` accepts the token, and its payload is the one given
      have hpayload : config.verifiedPayload codecs now token = .ok payload := by
        rw [verifiedPayload_ok_iff]
        refine ⟨⟨header64, payload64, hsigned⟩, haddressed, fun n hn => ?_⟩
        rw [hexp] at hn
        exact absurd ⟨n, hn⟩ hi
      obtain ⟨claims, hread⟩ : ∃ claims, config.readClaims payload = .ok claims :=
        ⟨⟨_, slug, _⟩, (readClaims_ok_iff config).mpr ⟨hnames, rfl, rfl⟩⟩
      obtain ⟨_, _, payload', hsigned', -, -, hexp'⟩ := h _ ((verify_ok_iff codecs config).mpr ⟨payload, hpayload, hread⟩)
      obtain rfl := hsigned.payload_eq codecs config hsigned'
      exact .inr (hexp' exp hexp)
  · intro h claims hverify
    obtain ⟨payload, hpayload, hread⟩ := (verify_ok_iff codecs config).mp hverify
    obtain ⟨⟨header64, payload64, hsigned⟩, haddressed, hcurrent⟩ := (verifiedPayload_ok_iff codecs config).mp hpayload
    have hnames := ((readClaims_ok_iff config).mp hread).1
    refine ⟨header64, payload64, payload, hsigned, haddressed, hnames, fun exp hexp => ?_⟩
    rcases h header64 payload64 payload _ hsigned haddressed hnames exp hexp with ⟨n, hn⟩ | hnumber
    · refine ⟨n, number_of_asI64 hn, ?_⟩
      exact_mod_cast hcurrent n (by rw [hexp]; exact hn)
    · exact hnumber

/-- The bytes of an ASCII text. -/
def ascii (s : String) : List UInt8 := s.toList.map Char.toUInt8

/-- A token whose `exp` is `1000.5`, as the codecs read it; its key is `test-secret`. -/
def fractionalExp : Codecs where
  b64urlDecode segment :=
    if segment = "eyJhbGciOiJIUzI1NiIsInR5cCI6IkpXVCJ9" then .ok (ascii "\x7b\"alg\":\"HS256\",\"typ\":\"JWT\"\x7d")
    else .ok (ascii "\x7b\"exp\":1000.5,\"tenant\":\"acme\"\x7d")
  parseJson bytes :=
    if bytes = ascii "\x7b\"alg\":\"HS256\",\"typ\":\"JWT\"\x7d" then
      .ok (.object [("alg", .string "HS256"), ("typ", .string "JWT")])
    else .ok (.object [("exp", .float (2001 / 2)), ("tenant", .string "acme")])
  fromUtf8 _ := none
  sign _ _ := "T7yxiWC1afSlw09MLtj2YudbJV0Z16sGrbZm_lGoqM4"
  uuidV5 _ := 0

def fractionalToken : String :=
  "eyJhbGciOiJIUzI1NiIsInR5cCI6IkpXVCJ9.eyJleHAiOjEwMDAuNSwidGVuYW50IjoiYWNtZSJ9." ++
    "T7yxiWC1afSlw09MLtj2YudbJV0Z16sGrbZm_lGoqM4"

theorem split_fractionalToken : split '.' fractionalToken = ["eyJhbGciOiJIUzI1NiIsInR5cCI6IkpXVCJ9",
    "eyJleHAiOjEwMDAuNSwidGVuYW50IjoiYWNtZSJ9", "T7yxiWC1afSlw09MLtj2YudbJV0Z16sGrbZm_lGoqM4"] := by
  decide +kernel

/-- It is accepted in 2023. -/
theorem verify_not_sound :
    ¬ ∀ claims, JwtConfig.verify fractionalExp { secret := ascii "test-secret" } 1700000000 fractionalToken = .ok claims →
      SoundlyVerified fractionalExp { secret := ascii "test-secret" } 1700000000 fractionalToken claims := by
  intro h
  have hverify : JwtConfig.verify fractionalExp { secret := ascii "test-secret" } 1700000000 fractionalToken =
      .ok { subject := "", tenant := ⟨"acme"⟩, roles := [] } := by decide +kernel
  obtain ⟨header64, payload64, payload, hsigned, -, -, hexp⟩ := h _ hverify
  have hsegments := hsigned.segments.symm.trans split_fractionalToken
  simp only [List.cons.injEq] at hsegments
  obtain ⟨-, rfl, -⟩ := hsegments
  have hread : readSegment fractionalExp "eyJleHAiOjEwMDAuNSwidGVuYW50IjoiYWNtZSJ9" =
      .ok (.object [("exp", .float (2001 / 2)), ("tenant", .string "acme")]) := rfl
  obtain rfl := Except.ok.inj (hsigned.payload.symm.trans hread)
  obtain ⟨x, hx, hlt⟩ := hexp (.float (2001 / 2)) rfl
  obtain rfl := Option.some.inj hx
  norm_num at hlt

/-! ## Issuing -/

/-- The other direction of the codecs. -/
structure Encoders where
  b64urlEncode : List UInt8 → String
  jsonToVec : Json → Except String (List UInt8)

/-- The claims carried by an issued token. -/
structure Claims where
  sub : String
  tenant : String
  roles : List String
  exp : Option I64 := none
  iss : Option String := none
  aud : Option String := none

namespace JwtConfig

def new (secret : List UInt8) : JwtConfig := { secret := secret }

def withIssuer (config : JwtConfig) (issuer : String) : JwtConfig := { config with issuer := some issuer }

def withAudience (config : JwtConfig) (audience : String) : JwtConfig := { config with audience := some audience }

/-- The configurations that are built with `new`, `with_issuer` and `with_audience`. -/
inductive Built : JwtConfig → Prop
  | new (secret : List UInt8) : Built (.new secret)
  | withIssuer {config : JwtConfig} (issuer : String) : Built config → Built (config.withIssuer issuer)
  | withAudience {config : JwtConfig} (audience : String) : Built config → Built (config.withAudience audience)

end JwtConfig

/-- `Map::insert`, with the fields in the order of their keys. -/
def insertField (key : String) (value : Json) : List (String × Json) → List (String × Json)
  | [] => [(key, value)]
  | (k, v) :: fields =>
    if key = k then (key, value) :: fields
    else if key < k then (key, value) :: (k, v) :: fields
    else (k, v) :: insertField key value fields

/-- A claim that may be absent. -/
def insertSome (key : String) (value : Option Json) (fields : List (String × Json)) : List (String × Json) :=
  match value with
  | some v => insertField key v fields
  | none => fields

def tokenHeader : Json := .object (insertField "typ" (.string "JWT") (insertField "alg" (.string "HS256") []))

def tokenPayload (claims : Claims) : Json :=
  let payload := insertField "sub" (.string claims.sub) []
  let payload := insertField config.tenantClaim (.string claims.tenant) payload
  let payload := insertField config.rolesClaim (.array (claims.roles.map .string)) payload
  let payload := insertSome "exp" (claims.exp.map fun exp => .int exp.val) payload
  let payload := insertSome "iss" (claims.iss.map .string) payload
  let payload := insertSome "aud" (claims.aud.map .string) payload
  .object payload

/-- `JwtConfig::issue`. -/
def JwtConfig.issue (encoders : Encoders) (claims : Claims) : Except JwtAuthError String := do
  let header ← malformed (encoders.jsonToVec tokenHeader)
  let header64 := encoders.b64urlEncode header
  let payload ← malformed (encoders.jsonToVec (tokenPayload config claims))
  let payload64 := encoders.b64urlEncode payload
  let signingInput := header64 ++ "." ++ payload64
  let sig := codecs.sign signingInput config.secret
  pure (signingInput ++ "." ++ sig)

/-! ## Reading back what was issued -/

theorem lookup_cons_eq (key key' : String) (value : Json) (fields : List (String × Json)) :
    ((key, value) :: fields).lookup key' = if key' = key then some value else fields.lookup key' := by
  rw [List.lookup_cons]
  by_cases h : key' = key
  · rw [if_pos h, beq_iff_eq.mpr h]
  · rw [if_neg h, beq_eq_false_iff_ne.mpr h]

theorem lookup_insertField (key key' : String) (value : Json) (fields : List (String × Json)) :
    (insertField key value fields).lookup key' = if key' = key then some value else fields.lookup key' := by
  induction fields with
  | nil => exact lookup_cons_eq key key' value []
  | cons field fields ih =>
    obtain ⟨k, v⟩ := field
    unfold insertField
    split
    · next hk =>
      rw [lookup_cons_eq, lookup_cons_eq, ← hk]
      by_cases h : key' = key
      · rw [if_pos h, if_pos h]
      · rw [if_neg h, if_neg h, if_neg h]
    · next hk =>
      split
      · exact lookup_cons_eq key key' value _
      · rw [lookup_cons_eq, lookup_cons_eq, ih]
        by_cases h : key' = k
        · rw [if_pos h, if_neg fun h' => hk (h'.symm.trans h), if_pos h]
        · rw [if_neg h, if_neg h]

theorem lookup_insertSome (key key' : String) (value : Option Json) (fields : List (String × Json)) :
    (insertSome key value fields).lookup key' =
      if key' = key then value.or (fields.lookup key') else fields.lookup key' := by
  unfold insertSome
  cases value with
  | none => simp
  | some v => simp [lookup_insertField]

theorem JwtConfig.Built.keys {config : JwtConfig} (h : config.Built) :
    config.tenantClaim = "tenant" ∧ config.rolesClaim = "roles" := by
  induction h with
  | new secret => exact ⟨rfl, rfl⟩
  | withIssuer issuer _ ih => exact ih
  | withAudience audience _ ih => exact ih

section
variable {config : JwtConfig} (hb : config.Built) (claims : Claims)

include hb in
/-- The fields of the payload of an issued token. -/
theorem get_tokenPayload (key : String) :
    (tokenPayload config claims).get key =
      if key = "aud" then claims.aud.map .string
      else if key = "iss" then claims.iss.map .string
      else if key = "exp" then claims.exp.map fun exp => .int exp.val
      else if key = "roles" then some (.array (claims.roles.map .string))
      else if key = "tenant" then some (.string claims.tenant)
      else if key = "sub" then some (.string claims.sub)
      else none := by
  obtain ⟨htenant, hroles⟩ := hb.keys
  show List.lookup key _ = _
  simp only [lookup_insertSome, lookup_insertField, htenant, hroles, List.lookup_nil]
  by_cases haud : key = "aud"
  · simp [haud]
  · by_cases hiss : key = "iss"
    · simp [hiss]
    · by_cases hexp : key = "exp"
      · simp [hexp]
      · simp [haud, hiss, hexp]

end

/-- Serialised and decoded again, a value is the same; its base64 text has no point. -/
def RoundTrips (encoders : Encoders) (json : Json) : Prop :=
  ∃ bytes, encoders.jsonToVec json = .ok bytes ∧ codecs.b64urlDecode (encoders.b64urlEncode bytes) = .ok bytes ∧
    codecs.parseJson bytes = .ok json ∧ '.' ∉ (encoders.b64urlEncode bytes).toList

theorem split_segments {header64 payload64 sig : String} (hh : '.' ∉ header64.toList) (hp : '.' ∉ payload64.toList)
    (hs : '.' ∉ sig.toList) : split '.' (header64 ++ "." ++ payload64 ++ "." ++ sig) = [header64, payload64, sig] := by
  have hl : (header64 ++ "." ++ payload64 ++ "." ++ sig).toList =
      ['.'].intercalate [header64.toList, payload64.toList, sig.toList] := by
    simp [List.intercalate]
  unfold split
  rw [hl, List.splitOn_intercalate '.' (by simp [hh, hp, hs]) (List.cons_ne_nil _ _)]
  simp

theorem rolesIn_tokenPayload {config : JwtConfig} (hb : config.Built) (claims : Claims) :
    rolesIn config (tokenPayload config claims) = claims.roles := by
  unfold rolesIn
  rw [get_tokenPayload hb, hb.keys.2]
  simp [List.filterMap_map, Function.comp_def, Json.asStr]

theorem asI64_int (n : I64) : (Json.int n.val).asI64 = some n.val := if_pos n.2

theorem addressed_tokenPayload_iff {config : JwtConfig} (hb : config.Built) (claims : Claims) :
    Addressed config (tokenPayload config claims) ↔
      (∀ iss, config.issuer = some iss → claims.iss = some iss) ∧
        ∀ aud, config.audience = some aud → claims.aud = some aud := by
  have hiss : (tokenPayload config claims).get "iss" = claims.iss.map .string := by
    rw [get_tokenPayload hb]
    rfl
  have haud : (tokenPayload config claims).get "aud" = claims.aud.map .string := get_tokenPayload hb claims "aud"
  constructor
  · rintro ⟨hi, ha⟩
    rw [hiss] at hi
    rw [haud] at ha
    refine ⟨fun iss h => by simpa using hi iss h, fun aud h => ?_⟩
    rcases ha aud h with ha | ⟨xs, ha, -⟩
    · simpa using ha
    · simp at ha
  · rintro ⟨hi, ha⟩
    exact ⟨fun iss h => by rw [hiss, hi iss h]; rfl, fun aud h => .inl (by rw [haud, ha aud h]; rfl)⟩

theorem names_tokenPayload_iff {config : JwtConfig} (hb : config.Built) (claims : Claims) (slug : TenantSlug) :
    Names config (tokenPayload config claims) slug ↔
      slug = ⟨lower claims.tenant⟩ ∧ TenantSlug.validate ⟨lower claims.tenant⟩ = .ok () := by
  have htenant : (tokenPayload config claims).get config.tenantClaim = some (.string claims.tenant) := by
    rw [get_tokenPayload hb, hb.keys.1]
    rfl
  constructor
  · rintro ⟨⟨tenant, ht, hs⟩, hvalid⟩
    rw [htenant] at ht
    cases ht
    obtain rfl : slug = ⟨lower claims.tenant⟩ := by rw [← hs]
    exact ⟨rfl, hvalid⟩
  · rintro ⟨rfl, hvalid⟩
    exact ⟨⟨claims.tenant, htenant, rfl⟩, hvalid⟩

/-- What `verify` says of a token that carries the payload of some claims. -/
theorem verify_tokenPayload_iff {config : JwtConfig} (hb : config.Built) {claims : Claims} {now : Int}
    {token header64 payload64 : String}
    (hsigned : Signed codecs config token header64 payload64 (tokenPayload config claims)) (verified : VerifiedClaims) :
    config.verify codecs now token = .ok verified ↔
      (TenantSlug.validate ⟨lower claims.tenant⟩ = .ok () ∧ (∀ exp, claims.exp = some exp → now < exp.val) ∧
        (∀ iss, config.issuer = some iss → claims.iss = some iss) ∧
        ∀ aud, config.audience = some aud → claims.aud = some aud) ∧
      verified = { subject := claims.sub, tenant := ⟨lower claims.tenant⟩, roles := claims.roles } := by
  have hexp : ((tokenPayload config claims).get "exp").bind Json.asI64 = claims.exp.map (·.val) := by
    have hget : (tokenPayload config claims).get "exp" = claims.exp.map fun exp => .int exp.val := by
      rw [get_tokenPayload hb]
      rfl
    rw [hget]
    cases claims.exp with
    | none => rfl
    | some exp => exact asI64_int exp
  have hsub : (((tokenPayload config claims).get "sub").bind Json.asStr).getD "" = claims.sub := by
    rw [get_tokenPayload hb]
    rfl
  rw [verify_ok_iff]
  simp only [verifiedPayload_ok_iff, readClaims_ok_iff]
  constructor
  · rintro ⟨payload, ⟨⟨_, _, hsigned'⟩, haddressed, hcurrent⟩, hnames, hsubject, hroles⟩
    obtain rfl := hsigned.payload_eq codecs config hsigned'
    obtain ⟨hissuer, haudience⟩ := (addressed_tokenPayload_iff hb claims).mp haddressed
    obtain ⟨htenant, hvalid⟩ := (names_tokenPayload_iff hb claims _).mp hnames
    rw [hsub] at hsubject
    rw [rolesIn_tokenPayload hb] at hroles
    rw [hexp] at hcurrent
    obtain ⟨subject, tenant, roles⟩ := verified
    obtain rfl : subject = claims.sub := hsubject
    obtain rfl : roles = claims.roles := hroles
    obtain rfl : tenant = ⟨lower claims.tenant⟩ := htenant
    exact ⟨⟨hvalid, fun exp he => hcurrent exp.val (by rw [he]; rfl), hissuer, haudience⟩, rfl⟩
  · rintro ⟨⟨hvalid, hcurrent, hissuer, haudience⟩, rfl⟩
    refine ⟨_, ⟨⟨_, _, hsigned⟩, (addressed_tokenPayload_iff hb claims).mpr ⟨hissuer, haudience⟩, fun n hn => ?_⟩,
      (names_tokenPayload_iff hb claims _).mpr ⟨rfl, hvalid⟩, hsub.symm, (rolesIn_tokenPayload hb claims).symm⟩
    rw [hexp, Option.map_eq_some_iff] at hn
    obtain ⟨exp, he, rfl⟩ := hn
    exact hcurrent exp he

/-- **Issued tokens verify** when the tenant, in lower case, is a valid slug, the expiry is still to come, and issuer and
audience are the configured ones; they then have the subject, the tenant in lower case and the roles issued. -/
theorem verify_issue (encoders : Encoders) {config : JwtConfig} (hb : config.Built) (claims : Claims) (now : Int)
    (hheader : RoundTrips codecs encoders tokenHeader)
    (hpayload : RoundTrips codecs encoders (tokenPayload config claims))
    (hsign : ∀ text, '.' ∉ (codecs.sign text config.secret).toList) :
    ∃ token, config.issue codecs encoders claims = .ok token ∧
      ((∃ verified, config.verify codecs now token = .ok verified) ↔
        TenantSlug.validate ⟨lower claims.tenant⟩ = .ok () ∧ (∀ exp, claims.exp = some exp → now < exp.val) ∧
          (∀ iss, config.issuer = some iss → claims.iss = some iss) ∧
          ∀ aud, config.audience = some aud → claims.aud = some aud) ∧
      ∀ verified, config.verify codecs now token = .ok verified →
        verified = { subject := claims.sub, tenant := ⟨lower claims.tenant⟩, roles := claims.roles } := by
  obtain ⟨headerBytes, hhvec, hhdec, hhparse, hhpoint⟩ := hheader
  obtain ⟨payloadBytes, hpvec, hpdec, hpparse, hppoint⟩ := hpayload
  let header64 := encoders.b64urlEncode headerBytes
  let payload64 := encoders.b64urlEncode payloadBytes
  have hissue : config.issue codecs encoders claims = .ok (header64 ++ "." ++ payload64 ++ "." ++
      codecs.sign (header64 ++ "." ++ payload64) config.secret) := by
    unfold JwtConfig.issue
    rw [hhvec, hpvec]
    rfl
  have hsigned : Signed codecs config (header64 ++ "." ++ payload64 ++ "." ++
      codecs.sign (header64 ++ "." ++ payload64) config.secret) header64 payload64 (tokenPayload config claims) :=
    { segments := split_segments hhpoint hppoint (hsign _)
      header := ⟨tokenHeader, bind_ok_iff.mpr ⟨_, hhdec, hhparse⟩, rfl⟩
      payload := bind_ok_iff.mpr ⟨_, hpdec, hpparse⟩ }
  refine ⟨_, hissue, ?_, fun verified h => ((verify_tokenPayload_iff codecs hb hsigned verified).mp h).2⟩
  simp only [verify_tokenPayload_iff codecs hb hsigned]
  exact ⟨fun ⟨_, h, _⟩ => h, fun h => ⟨_, h, rfl⟩⟩

/-- Claims of a user of one tenant, valid until 2033. -/
def adminClaims : Claims :=
  { sub := "user-1", tenant := "Acme", roles := ["admin"], exp := some (i64 2000000000), iss := some "tpt"
    aud := some "api" }

def adminConfig : JwtConfig := ((JwtConfig.new (ascii "test-secret")).withIssuer "tpt").withAudience "api"

/-- The JSON text of its payload. -/
def adminText : String :=
  "\x7b\"aud\":\"api\",\"exp\":2000000000,\"iss\":\"tpt\",\"roles\":[\"admin\"]," ++
    "\"sub\":\"user-1\",\"tenant\":\"Acme\"\x7d"

/-- The codecs on the token of these claims. -/
def adminEncoders : Encoders where
  b64urlEncode bytes :=
    if bytes = ascii "\x7b\"alg\":\"HS256\",\"typ\":\"JWT\"\x7d" then "eyJhbGciOiJIUzI1NiIsInR5cCI6IkpXVCJ9"
    else "eyJhdWQiOiJhcGkiLCJleHAiOjIwMDAwMDAwMDAsImlzcyI6InRwdCIsInJvbGVzIjpbImFkbWluIl0sInN1YiI6InVzZXItMSIs" ++
      "InRlbmFudCI6IkFjbWUifQ"
  jsonToVec json :=
    if (json.get "alg").isSome then .ok (ascii "\x7b\"alg\":\"HS256\",\"typ\":\"JWT\"\x7d")
    else .ok (ascii adminText)

def adminCodecs : Codecs where
  b64urlDecode segment :=
    if segment = "eyJhbGciOiJIUzI1NiIsInR5cCI6IkpXVCJ9" then .ok (ascii "\x7b\"alg\":\"HS256\",\"typ\":\"JWT\"\x7d")
    else .ok (ascii adminText)
  parseJson bytes :=
    if bytes = ascii "\x7b\"alg\":\"HS256\",\"typ\":\"JWT\"\x7d" then .ok tokenHeader
    else .ok (tokenPayload adminConfig adminClaims)
  fromUtf8 _ := none
  sign _ _ := "GACVdvzOlkHTwGtTwQiRuKBIF4uPkQ23HP1roZuoLe4"
  uuidV5 _ := 0

theorem roundTrips_tokenHeader : RoundTrips adminCodecs adminEncoders tokenHeader :=
  ⟨_, rfl, rfl, rfl, by decide⟩

theorem adminText_ne : ascii adminText ≠ ascii "\x7b\"alg\":\"HS256\",\"typ\":\"JWT\"\x7d" := by decide +kernel

theorem roundTrips_adminPayload : RoundTrips adminCodecs adminEncoders (tokenPayload adminConfig adminClaims) := by
  have hparse : adminCodecs.parseJson (ascii adminText) = .ok (tokenPayload adminConfig adminClaims) := by
    simp only [adminCodecs, if_neg adminText_ne]
  exact ⟨ascii adminText, rfl, by decide +kernel, hparse, by decide +kernel⟩

theorem verify_issue_admin : ∃ token, adminConfig.issue adminCodecs adminEncoders adminClaims = .ok token ∧
    ∃ verified, adminConfig.verify adminCodecs 1700000000 token = .ok verified := by
  have hpoint : ∀ text, '.' ∉ (adminCodecs.sign text adminConfig.secret).toList := by
    intro text
    have h : '.' ∉ "GACVdvzOlkHTwGtTwQiRuKBIF4uPkQ23HP1roZuoLe4".toList := by decide
    exact h
  have hbuilt : adminConfig.Built := .withAudience "api" (.withIssuer "tpt" (.new _))
  obtain ⟨token, hissue, hverify, -⟩ := verify_issue adminCodecs adminEncoders hbuilt adminClaims 1700000000
    roundTrips_tokenHeader roundTrips_adminPayload hpoint
  refine ⟨token, hissue, hverify.mpr ⟨by decide, ?_, ?_, ?_⟩⟩
  · rintro exp he
    cases he
    decide
  · rintro iss hi
    cases hi
    rfl
  · rintro aud ha
    cases ha
    rfl

end TptErp.Tenant
