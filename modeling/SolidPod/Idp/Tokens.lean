import SolidPod.Foundation.Numerals
import SolidPod.Oidc.AccessToken

/-!
# Keys, tokens and the discovery document

The signing keys of the identity provider with the document in which they are
published, the access tokens it mints with the active one, and the document that
tells the others where to look. The signature library is a parameter.
-/

namespace SolidPod

open Foundation Str Fallible Oidc

namespace Idp

/-! ## Keys -/

structure PublicJwk where
  kty : Str
  crv : Str
  x : Str
  y : Str
  kid : Str
  alg : Str
  use : Str
  deriving DecidableEq

/-- The published form of a point of the curve. -/
def es256Jwk (kid : Str) (point : Str × Str) : PublicJwk where
  kty := "EC"
  crv := "P-256"
  x := point.1
  y := point.2
  kid := kid
  alg := "ES256"
  use := "sig"

structure AccessTokenPayload where
  iss : Str
  sub : Str
  aud : Str
  webid : Str
  iat : UInt64
  exp : UInt64
  jti : Str
  clientId : Str
  scope : Str
  cnf : Option CnfClaim
  deriving DecidableEq

/-- What is asked of the libraries for signing, besides verification. -/
structure IdpLibrary extends AccessTokenLibrary where
  /-- The coordinates of the public key of a private one, in base64. -/
  publicPoint : Bytes → Str × Str
  /-- A published key as the token library reads it. -/
  toJwk : PublicJwk → Option (LibJwk Material)
  /-- A token with the algorithm and the key id in its header. -/
  encode : Algorithm → Str → AccessTokenPayload → Bytes → Except Str Str
  /-- The URL-safe base64 form of the SHA-256 hash. -/
  sha256Base64Url : Bytes → Str

/-- A key is published by what its constructors derive from its private part. -/
structure SigningKey (lib : IdpLibrary) where
  kid : Str
  alg : Str
  privatePem : Str
  privateDer : Bytes
  publicJwk : PublicJwk
  createdAt : UInt64
  alg_eq : alg = "ES256"
  published : publicJwk = es256Jwk kid (lib.publicPoint privateDer)

/-- The active key and the retired ones that are still published, each with the
time it was retired at. -/
structure Jwks (lib : IdpLibrary) where
  active : SigningKey lib
  retired : List (SigningKey lib × Nat)
  retention : Nat

section Library

variable {lib : IdpLibrary}

def Jwks.publicDocument (jwks : Jwks lib) : List PublicJwk :=
  jwks.active.publicJwk :: jwks.retired.map fun (k, _) => k.publicJwk

/-- The published keys that the token library can read. -/
def buildJwkSet (jwks : Jwks lib) : List (LibJwk lib.Material) :=
  jwks.publicDocument.filterMap lib.toJwk

/-! ## Tokens -/

inductive TokenError where
  | encode (msg : Str)
  deriving DecidableEq

def TokenError.display : TokenError → Str
  | .encode msg => "JWT encode: " ++ msg

structure AccessToken where
  jwt : Str
  payload : AccessTokenPayload

/-- A token that the active key signs; `jti` is drawn at random. The answer is `none`
for a panic. -/
def issueAccessToken (overflowChecks : Bool) (signingKey : SigningKey lib)
    (issuer webid accountId clientId scope : Str) (dpopJkt : Option Str) (jti : Str)
    (now ttlSecs : UInt64) : Option (Except TokenError AccessToken) :=
  (addU64 overflowChecks now ttlSecs).map fun exp =>
    let payload : AccessTokenPayload := ⟨issuer, accountId, "solid", webid, now, exp, jti,
      clientId, scope, dpopJkt.map CnfClaim.mk⟩
    match lib.encode .ES256 signingKey.kid payload signingKey.privateDer with
    | .ok jwt => .ok ⟨jwt, payload⟩
    | .error e => .error (.encode e)

/-- A token is issued when the expiry fits and the library can sign the payload. -/
theorem issueAccessToken_eq_ok_iff {overflowChecks : Bool} {signingKey : SigningKey lib}
    {issuer webid accountId clientId scope jti : Str} {dpopJkt : Option Str}
    {now ttlSecs : UInt64} {t : AccessToken} :
    issueAccessToken overflowChecks signingKey issuer webid accountId clientId scope dpopJkt jti now
        ttlSecs = some (.ok t) ↔
      ∃ exp, addU64 overflowChecks now ttlSecs = some exp ∧
        t.payload = ⟨issuer, accountId, "solid", webid, now, exp, jti, clientId, scope,
          dpopJkt.map CnfClaim.mk⟩ ∧
        lib.encode .ES256 signingKey.kid t.payload signingKey.privateDer = .ok t.jwt := by
  rw [issueAccessToken, Option.map_eq_some_iff]
  refine exists_congr fun exp => and_congr_right fun _ => ?_
  obtain ⟨jwt, payload⟩ := t
  constructor
  · intro h
    cases hencode : lib.encode .ES256 signingKey.kid ⟨issuer, accountId, "solid", webid, now, exp,
        jti, clientId, scope, dpopJkt.map CnfClaim.mk⟩ signingKey.privateDer with
    | error e =>
        simp only [hencode] at h
        cases h
    | ok signed =>
        simp only [hencode] at h
        cases h
        exact ⟨rfl, hencode⟩
  · rintro ⟨hpayload, hencode⟩
    dsimp only at hpayload hencode
    subst hpayload
    simp only [hencode]

end Library

/-! ## Discovery -/

structure DiscoveryDocument where
  issuer : Str
  authorizationEndpoint : Str
  tokenEndpoint : Str
  userinfoEndpoint : Str
  jwksUri : Str
  registrationEndpoint : Str
  introspectionEndpoint : Str
  revocationEndpoint : Str
  endSessionEndpoint : Str
  scopesSupported : List Str
  responseTypesSupported : List Str
  responseModesSupported : List Str
  grantTypesSupported : List Str
  subjectTypesSupported : List Str
  idTokenSigningAlgValuesSupported : List Str
  tokenEndpointAuthMethodsSupported : List Str
  claimsSupported : List Str
  codeChallengeMethodsSupported : List Str
  dpopSigningAlgValuesSupported : List Str
  authorizationResponseIssParameterSupported : Bool
  solidOidcSupported : Str

/-- The issuer is published with a slash at its end, the endpoints are below the
issuer without its slashes. -/
def buildDiscovery (issuer : Str) : DiscoveryDocument :=
  let base := trimEndMatches '/' issuer
  { issuer := if endsWith "/" issuer then issuer else issuer ++ "/"
    authorizationEndpoint := base ++ "/idp/auth"
    tokenEndpoint := base ++ "/idp/token"
    userinfoEndpoint := base ++ "/idp/me"
    jwksUri := base ++ "/.well-known/jwks.json"
    registrationEndpoint := base ++ "/idp/reg"
    introspectionEndpoint := base ++ "/idp/token/introspection"
    revocationEndpoint := base ++ "/idp/token/revocation"
    endSessionEndpoint := base ++ "/idp/session/end"
    scopesSupported := ["openid", "webid", "profile", "email", "offline_access"]
    responseTypesSupported := ["code"]
    responseModesSupported := ["query", "fragment", "form_post"]
    grantTypesSupported := ["authorization_code", "refresh_token", "client_credentials"]
    subjectTypesSupported := ["public"]
    idTokenSigningAlgValuesSupported := ["ES256"]
    tokenEndpointAuthMethodsSupported := ["none", "client_secret_basic", "client_secret_post"]
    claimsSupported := ["sub", "webid", "name", "email", "email_verified"]
    codeChallengeMethodsSupported := ["S256"]
    dpopSigningAlgValuesSupported := ["ES256"]
    authorizationResponseIssParameterSupported := true
    solidOidcSupported := "https://solidproject.org/TR/solid-oidc" }

end Idp

end SolidPod
