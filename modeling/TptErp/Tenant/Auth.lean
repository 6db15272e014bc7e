import TptErp.Primitives

/-!
# Tenant resolution

Where a request's tenant comes from: the verified token (`JwtConfig.verify`, `authMiddleware`), or, when no
layer has resolved it, the host, a header or an unverified claim (`resolveSlug`).

Base64, JSON, HMAC and UUID v5 are the `Codecs` the code is given.  `to_str` of a header is none for a header
that is absent or not text.
-/

namespace TptErp

/-- Marker of tenants. -/
inductive Tenant

namespace Tenant

abbrev TenantId := Id Tenant

/-! ## Text -/

/-- `to_ascii_lowercase`. -/
def lower (s : String) : String := String.ofList (s.toList.map Char.toLower)

def split (c : Char) (s : String) : List String := (s.toList.splitOn c).map String.ofList

def trim (s : String) : String :=
  String.ofList ((s.toList.dropWhile Char.isWhitespace).reverse.dropWhile Char.isWhitespace).reverse

/-- What follows `start`. -/
def after? (start s : String) : Option String :=
  if start.toList.isPrefixOf s.toList then some (String.ofList (s.toList.drop start.length)) else none

/-- A JSON value. -/
inductive Json
  | null
  | bool (b : Bool)
  | int (n : Int)
  | float (x : ℚ)
  | string (s : String)
  | array (xs : List Json)
  | object (fields : List (String × Json))

namespace Json

def get : Json → String → Option Json
  | .object fields, key => fields.lookup key
  | _, _ => none

def asStr : Json → Option String
  | .string s => some s
  | _ => none

def asI64 : Json → Option Int
  | .int n => if -2 ^ 63 ≤ n ∧ n < 2 ^ 63 then some n else none
  | _ => none

end Json

/-- What the third-party crates compute; an error is its text. -/
structure Codecs where
  b64urlDecode : String → Except String (List UInt8)
  parseJson : List UInt8 → Except String Json
  fromUtf8 : List UInt8 → Option String
  /-- HMAC-SHA256 of a text under a key, in base64. -/
  sign : String → List UInt8 → String
  /-- UUID v5 in the DNS namespace. -/
  uuidV5 : String → Nat

/-! ## Identification -/

structure TenantSlug where
  slug : String
deriving DecidableEq

inductive TenantResolutionError
  | unresolved
  | invalidSlug (slug : String)
  | malformedClaims (err : String)
deriving DecidableEq

def TenantResolutionError.message : TenantResolutionError → String
  | .unresolved => "no tenant could be resolved from the request"
  | .invalidSlug slug => "invalid tenant slug: " ++ slug
  | .malformedClaims err => "malformed JWT claims JSON: " ++ err

namespace TenantSlug

def validate (s : TenantSlug) : Except TenantResolutionError Unit :=
  if s.slug.toList = [] then .error (.invalidSlug s.slug)
  else if s.slug.toList.all fun c => c.isAlphanum || c == '-' || c == '_' then .ok ()
  else .error (.invalidSlug s.slug)

def toId (codecs : Codecs) (s : TenantSlug) : TenantId := ⟨codecs.uuidV5 s.slug⟩

end TenantSlug

def fromSubdomain (host : String) : Option TenantSlug :=
  let host := (split ':' host).headD host
  match split '.' host with
  | first :: _ :: _ :: _ => if first = "" then none else some ⟨lower first⟩
  | _ => none

def fromHeader (value : String) : Option TenantSlug :=
  let trimmed := trim value
  if trimmed = "" then none else some ⟨lower trimmed⟩

def fromJwtClaims (codecs : Codecs) (claims : List UInt8) (field : String) :
    Except TenantResolutionError (Option TenantSlug) :=
  match codecs.parseJson claims with
  | .error err => .error (.malformedClaims err)
  | .ok json =>
    match (json.get field).bind Json.asStr with
    | some s => .ok (if s = "" then none else some ⟨lower s⟩)
    | none => .ok none

structure TenantContext where
  id : TenantId
  slug : TenantSlug
deriving DecidableEq

/-! ## The extractor -/

structure Headers where
  authorization : Option String := none
  host : Option String := none
  tenantId : Option String := none
  contentType : Option String := none
deriving DecidableEq

def afterBearer (auth : String) : Option String := (after? "Bearer " auth).or (after? "bearer " auth)

/-- The claim of a token that nobody has verified. -/
def resolveSlugFromJwt (codecs : Codecs) (headers : Headers) : Option TenantSlug := do
  let auth ← headers.authorization
  let token ← afterBearer auth
  let payload ← (split '.' token)[1]?
  let decoded ← (codecs.b64urlDecode payload).toOption
  -- the text is checked to be UTF-8 before it is read as JSON
  let _ ← codecs.fromUtf8 decoded
  (fromJwtClaims codecs decoded "tenant").toOption.join

def resolveSlug (codecs : Codecs) (headers : Headers) : Option TenantSlug :=
  ((headers.host.bind fromSubdomain).or (headers.tenantId.bind fromHeader)).or (resolveSlugFromJwt codecs headers)

/-- `TenantContext::from_request_parts`, with the context that a layer left in the extensions. -/
def fromRequestParts (codecs : Codecs) (extension : Option TenantContext) (headers : Headers) :
    Except TenantResolutionError TenantContext :=
  match extension with
  | some ctx => .ok ctx
  | none =>
    match resolveSlug codecs headers with
    | none => .error .unresolved
    | some slug => do
      slug.validate
      pure { id := slug.toId codecs, slug := slug }

/-! ## Verified tokens -/

inductive JwtAuthError
  | missingCredentials
  | unsupportedAlg (alg : String)
  | invalidSignature
  | malformed (err : String)
  | expired
  | issuerMismatch
  | audienceMismatch
  | missingTenant
deriving DecidableEq

def JwtAuthError.message : JwtAuthError → String
  | .missingCredentials => "missing or malformed Authorization header"
  | .unsupportedAlg alg => "unsupported token algorithm: " ++ alg
  | .invalidSignature => "invalid token signature"
  | .malformed err => "malformed token: " ++ err
  | .expired => "token expired"
  | .issuerMismatch => "issuer mismatch"
  | .audienceMismatch => "audience mismatch"
  | .missingTenant => "missing tenant claim"

structure JwtConfig where
  secret : List UInt8 := []
  issuer : Option String := none
  audience : Option String := none
  tenantClaim : String := "tenant"
  rolesClaim : String := "roles"

structure VerifiedClaims where
  subject : String
  tenant : TenantSlug
  roles : List String
deriving DecidableEq

def splitToken (token : String) : Except JwtAuthError (String × String × String) :=
  match split '.' token with
  | [] => .error (.malformed "missing header")
  | [_] => .error (.malformed "missing payload")
  | [_, _] => .error (.malformed "missing signature")
  | [header, payload, sig] => .ok (header, payload, sig)
  | _ => .error (.malformed "too many segments")

def malformed {α : Type} : Except String α → Except JwtAuthError α
  | .ok x => .ok x
  | .error err => .error (.malformed err)

def audienceMatches (payload : Json) (expected : String) : Bool :=
  match payload.get "aud" with
  | some (.string s) => s = expected
  | some (.array xs) => xs.any fun v => v.asStr = some expected
  | _ => false

namespace JwtConfig

variable (codecs : Codecs) (config : JwtConfig)

/-- The first part of `verify`: the payload of a token that is signed, current, and from and for the right
parties. -/
def verifiedPayload (now : Int) (token : String) : Except JwtAuthError Json := do
  let (header64, payload64, sig) ← splitToken token
  let header ← malformed (codecs.b64urlDecode header64 >>= codecs.parseJson)
  let some alg := (header.get "alg").bind Json.asStr | .error (.malformed "missing alg")
  if alg ≠ "HS256" then .error (.unsupportedAlg alg)
  -- the comparison of all bytes is the comparison of the texts
  if codecs.sign (header64 ++ "." ++ payload64) config.secret ≠ sig then .error .invalidSignature
  let payload ← malformed (codecs.b64urlDecode payload64 >>= codecs.parseJson)
  if ((payload.get "exp").bind Json.asI64).any fun exp => exp ≤ now then .error .expired
  if config.issuer.any fun iss => (payload.get "iss").bind Json.asStr ≠ some iss then .error .issuerMismatch
  if config.audience.any fun aud => !audienceMatches payload aud then .error .audienceMismatch
  pure payload

/-- The second part of `verify`: the claims of a payload. -/
def readClaims (payload : Json) : Except JwtAuthError VerifiedClaims :=
  match (payload.get config.tenantClaim).bind Json.asStr with
  | none => .error .missingTenant
  | some tenant =>
    let slug : TenantSlug := ⟨lower tenant⟩
    match slug.validate with
    | .error err => .error (.malformed err.message)
    | .ok () =>
      let roles :=
        match payload.get config.rolesClaim with
        | some (.array xs) => xs.filterMap Json.asStr
        | _ => []
      .ok { subject := ((payload.get "sub").bind Json.asStr).getD "", tenant := slug, roles := roles }

/-- `JwtConfig::verify` at a time. -/
def verify (now : Int) (token : String) : Except JwtAuthError VerifiedClaims :=
  match config.verifiedPayload codecs now token with
  | .error err => .error err
  | .ok payload => config.readClaims payload

end JwtConfig

def VerifiedClaims.toTenantContext (codecs : Codecs) (claims : VerifiedClaims) : TenantContext :=
  { id := claims.tenant.toId codecs, slug := claims.tenant }

def bearerToken (headers : Headers) : Option String := (headers.authorization.bind afterBearer).map trim

/-- `auth_middleware`: the tenant context that it leaves in the extensions, or the text of its 401. -/
def authMiddleware (codecs : Codecs) (config : JwtConfig) (now : Int) (headers : Headers) :
    Except String TenantContext :=
  match bearerToken headers with
  | none => .error "missing bearer token"
  | some token =>
    match config.verify codecs now token with
    | .error err => .error err.message
    | .ok claims => .ok (claims.toTenantContext codecs)

/-! ## Normalised slugs -/

/-- A slug as `verify` leaves it: lower case and valid. -/
def TenantSlug.Normalised (s : TenantSlug) : Prop := (∃ text, s.slug = lower text) ∧ s.validate = .ok ()

theorem normalised_of_verify {codecs : Codecs} {config : JwtConfig} {now : Int} {token : String}
    {claims : VerifiedClaims} (h : config.verify codecs now token = .ok claims) : claims.tenant.Normalised := by
  unfold JwtConfig.verify at h
  split at h
  · cases h
  · next payload _ =>
    unfold JwtConfig.readClaims at h
    split at h
    · cases h
    · next tenant _ =>
      dsimp only at h
      split at h
      · cases h
      · next hv =>
        cases h
        exact ⟨⟨tenant, rfl⟩, hv⟩

/-- The context of an authenticated request has a normalised slug and the slug's id. -/
theorem authMiddleware_ok {codecs : Codecs} {config : JwtConfig} {now : Int} {headers : Headers}
    {ctx : TenantContext} (h : authMiddleware codecs config now headers = .ok ctx) :
    ctx.slug.Normalised ∧ ctx.id = ctx.slug.toId codecs := by
  unfold authMiddleware at h
  split at h
  · cases h
  · split at h
    · cases h
    · next claims hv =>
      cases h
      exact ⟨normalised_of_verify hv, rfl⟩

end Tenant

end TptErp
