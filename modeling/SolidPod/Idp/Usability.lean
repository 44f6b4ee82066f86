import SolidPod.Idp.Provider

/-!
# Tokens that resource servers take

A resource server reads the issuer and the keys of the identity provider from its
discovery document and verifies a token with them. It takes every token that is
minted for an issuer that is configured the way it is published, with the slash at
its end, and for an account with the URL of a WebID.
-/

namespace SolidPod

open Foundation Str Fallible Oidc Security

namespace Idp

/-- The claims that a verifier reads in a token. -/
def AccessTokenPayload.claims (p : AccessTokenPayload) : SolidOidcClaims :=
  ⟨p.iss, p.sub, .string p.aud, p.exp, p.iat, some p.webid, some p.clientId, p.cnf, some p.scope⟩

/-- What is documented of the libraries: a published key is read with its id, and a
token that its private part signed is read back with it, for the token's issuer. -/
structure IdpLibrary.Lawful (lib : IdpLibrary) : Prop where
  reads : ∀ kid der, ∃ jwk key, lib.toJwk (es256Jwk kid (lib.publicPoint der)) = some jwk ∧
    jwk.keyId = some kid ∧ lib.fromJwk jwk = .ok key
  header : ∀ {alg kid payload der jwt}, lib.encode alg kid payload der = .ok jwt →
    lib.decodeHeader jwt = .ok (alg, some kid)
  decodes : ∀ {kid payload der jwt jwk key}, lib.encode .ES256 kid payload der = .ok jwt →
    lib.toJwk (es256Jwk kid (lib.publicPoint der)) = some jwk → lib.fromJwk jwk = .ok key →
      lib.decode jwt key .ES256 payload.iss = .ok payload.claims

/-- The accounts of a store have URLs as WebIDs. -/
structure UserStore.WebIds (users : UserStore) : Prop where
  byId : ∀ {id user}, users.findById id = .ok (some user) → urlShaped user.webid = true
  byEmail : ∀ {email user}, users.findByEmail email = .ok (some user) → urlShaped user.webid = true

section Usable

variable {lib : IdpLibrary} {config : ProviderConfig} {jwks : Jwks lib}

/-- A resource server that follows the discovery document. -/
def verifyAtServer (config : ProviderConfig) (jwks : Jwks lib) (accessToken jkt : Str)
    (now : UInt64) : Except PodError AccessTokenVerified :=
  verifyAccessToken lib.toAccessTokenLibrary accessToken (.asymmetric (buildJwkSet jwks))
    (buildDiscovery config.issuer).issuer jkt now

/-- The active key signed the payload, and the token is good for what it says until
it expires. -/
structure UsableToken (config : ProviderConfig) (jwks : Jwks lib) (accessToken jkt : Str)
    (payload : AccessTokenPayload) : Prop where
  signed : lib.encode .ES256 jwks.active.kid payload jwks.active.privateDer = .ok accessToken
  bound : payload.cnf = some ⟨jkt⟩
  verifies : ∀ now < payload.exp, verifyAtServer config jwks accessToken jkt now =
    .ok ⟨payload.webid, some payload.clientId, payload.iss, jkt, some payload.scope, payload.exp⟩
  userinfo : ∀ now < payload.exp, userinfo config jwks accessToken jkt now =
    .ok ⟨payload.webid, payload.webid, some payload.clientId, some payload.scope⟩

/-- The active key is the first of the published ones that has its id. -/
theorem findKey_active (hlib : lib.Lawful) (jwks : Jwks lib) (alg : Algorithm) :
    ∃ jwk key, findKey (buildJwkSet jwks) alg (some jwks.active.kid) = .ok jwk ∧
      lib.toJwk (es256Jwk jwks.active.kid (lib.publicPoint jwks.active.privateDer)) = some jwk ∧
      lib.fromJwk jwk = .ok key := by
  obtain ⟨jwk, key, hread, hkid, hkey⟩ := hlib.reads jwks.active.kid jwks.active.privateDer
  refine ⟨jwk, key, ?_, hread, hkey⟩
  have hset : ∃ rest, buildJwkSet jwks = jwk :: rest := by
    rw [buildJwkSet, Jwks.publicDocument, List.filterMap_cons, jwks.active.published, hread]
    exact ⟨_, rfl⟩
  obtain ⟨rest, hset⟩ := hset
  rw [findKey, hset]
  simp only [List.find?_cons, hkid, decide_true]

/-- The published keys decode what the active one signed. -/
theorem decodeToken_signed (hlib : lib.Lawful) {payload : AccessTokenPayload} {accessToken : Str}
    (h : lib.encode .ES256 jwks.active.kid payload jwks.active.privateDer = .ok accessToken) :
    decodeToken lib.toAccessTokenLibrary accessToken (.asymmetric (buildJwkSet jwks)) payload.iss =
      .ok payload.claims := by
  obtain ⟨jwk, key, hfind, hread, hkey⟩ := findKey_active hlib jwks .ES256
  refine decodeToken_eq_ok_iff.mpr
    ⟨.ES256, some jwks.active.kid, key, hlib.header h, ?_, hlib.decodes h hread hkey⟩
  refine bind_eq_ok_iff.mpr ⟨jwk, hfind, ?_⟩
  rw [hkey]
  rfl

theorem extractWebid_claims {payload : AccessTokenPayload}
    (h : urlShaped payload.webid = true) : extractWebid payload.claims = .ok payload.webid := by
  have hwebid : payload.claims.webid.filter urlShaped = some payload.webid :=
    Option.filter_eq_some_iff.mpr ⟨rfl, h⟩
  simp only [extractWebid, hwebid]

/-- A signed payload verifies for its own issuer until it expires. -/
theorem verifyAccessToken_signed (hlib : lib.Lawful) {payload : AccessTokenPayload}
    {accessToken jkt : Str} {now : UInt64}
    (h : lib.encode .ES256 jwks.active.kid payload jwks.active.privateDer = .ok accessToken)
    (hbound : payload.cnf = some ⟨jkt⟩) (hwebid : urlShaped payload.webid = true)
    (hnow : now < payload.exp) :
    verifyAccessToken lib.toAccessTokenLibrary accessToken (.asymmetric (buildJwkSet jwks))
        payload.iss jkt now =
      .ok ⟨payload.webid, some payload.clientId, payload.iss, jkt, some payload.scope,
        payload.exp⟩ := by
  refine verifyAccessToken_eq_ok_iff.mpr ⟨payload.claims, decodeToken_signed hlib h, ?_⟩
  exact checkClaims_eq_ok_iff.mpr
    ⟨UInt64.le_of_lt hnow, hbound, extractWebid_claims hwebid, rfl⟩

theorem buildDiscovery_issuer {issuer : Str} (h : endsWith "/" issuer = true) :
    (buildDiscovery issuer).issuer = issuer :=
  if_pos h

/-- What is minted with a thumbprint can be used. -/
theorem usableToken_of_issued (hlib : lib.Lawful) (hissuer : endsWith "/" config.issuer = true)
    {overflowChecks : Bool} {webid accountId clientId scope jkt jti : Str} {now ttl : UInt64}
    (hwebid : urlShaped webid = true) {token : AccessToken}
    (h : issueAccessToken overflowChecks jwks.active config.issuer webid accountId clientId scope
      (some jkt) jti now ttl = some (.ok token)) :
    UsableToken config jwks token.jwt jkt token.payload := by
  obtain ⟨exp, -, hpayload, hencode⟩ := issueAccessToken_eq_ok_iff.mp h
  have hiss : token.payload.iss = config.issuer := congrArg AccessTokenPayload.iss hpayload
  have hbound : token.payload.cnf = some ⟨jkt⟩ := congrArg AccessTokenPayload.cnf hpayload
  have hurl : urlShaped token.payload.webid = true := by
    rw [hpayload]
    exact hwebid
  have hverifies : ∀ later < token.payload.exp, verifyAccessToken lib.toAccessTokenLibrary
      token.jwt (.asymmetric (buildJwkSet jwks)) config.issuer jkt later = .ok ⟨token.payload.webid,
        some token.payload.clientId, token.payload.iss, jkt, some token.payload.scope,
        token.payload.exp⟩ := by
    intro later hlater
    rw [← hiss]
    exact verifyAccessToken_signed hlib hencode hbound hurl hlater
  refine ⟨hencode, hbound, ?_, ?_⟩
  · intro later hlater
    rw [verifyAtServer, buildDiscovery_issuer hissuer]
    exact hverifies later hlater
  · intro later hlater
    rw [userinfo, hverifies later hlater]

/-- A token of the code flow can be used with the key of the call's proof. -/
theorem usableToken_of_token (hlib : lib.Lawful) (hissuer : endsWith "/" config.issuer = true)
    {jwt : JsonWebToken} {overflowChecks : Bool} {users : UserStore} (husers : users.WebIds)
    {req : TokenRequest} {jti : Str} {at' : Nat} {sessions : SessionStore} {r : TokenResponse}
    (h : (token jwt overflowChecks config jwks users req jti at' sessions).1 = some (.ok r)) :
    ∃ jkt payload, checkGrant jwt config req = .ok jkt ∧
      UsableToken config jwks r.accessToken jkt payload := by
  obtain ⟨jkt, code, user, t, hredeem, huser, hmint⟩ := token_eq_ok h
  obtain ⟨hissue, rfl⟩ := mint_eq_ok_iff.mp hmint
  exact ⟨jkt, t.payload, (redeem_eq_ok_iff.mp hredeem).1,
    usableToken_of_issued hlib hissuer (husers.byId huser) hissue⟩

theorem authenticate_eq_ok {users : UserStore} {email password : Str} {user : User}
    (h : authenticate users email password = .ok user) :
    users.findByEmail email = .ok (some user) := by
  unfold authenticate at h
  split_ifs at h
  cases hfind : users.findByEmail email with
  | error e =>
      simp only [hfind] at h
      cases h
  | ok found =>
      cases found with
      | none =>
          simp only [hfind] at h
          cases h
      | some u =>
          simp only [hfind] at h
          cases hverify : users.verifyPassword u password with
          | error e =>
              simp only [hverify] at h
              cases h
          | ok good =>
              cases good with
              | false =>
                  simp only [hverify] at h
                  cases h
              | true =>
                  simp only [hverify] at h
                  cases h
                  rfl

/-- A login with a thumbprint is answered with a token for it. -/
theorem usableToken_of_login (hlib : lib.Lawful) (hissuer : endsWith "/" config.issuer = true)
    {overflowChecks : Bool} {users : UserStore} (husers : users.WebIds)
    {email password jkt ip jti : Str} {limiter : RateLimitKey → RateLimitDecision}
    {now ttl : UInt64} {r : CredentialsResponse}
    (h : login overflowChecks email password users jwks config.issuer (some jkt) limiter ip jti now
      ttl = some (.ok r)) :
    ∃ payload, UsableToken config jwks r.accessToken jkt payload := by
  unfold login at h
  cases hlimit : limiter ⟨rateLimitRoute, .ip ip⟩ with
  | deny retry limit window =>
      simp only [hlimit] at h
      cases h
  | allow =>
      cases hauth : authenticate users email password with
      | error e =>
          simp only [hlimit, hauth] at h
          cases h
      | ok user =>
          simp only [hlimit, hauth] at h
          obtain ⟨issued, hissue, hr⟩ := Option.map_eq_some_iff.mp h
          cases issued with
          | error e => cases hr
          | ok t =>
              cases hr
              exact ⟨t.payload, usableToken_of_issued hlib hissuer
                (husers.byEmail (authenticate_eq_ok hauth)) hissue⟩

/-- Where the configured issuer is the published one and the accounts have the URLs of
WebIDs, whatever either grant mints for a key can be used with it. -/
theorem minted_usable (hlib : lib.Lawful) (hissuer : endsWith "/" config.issuer = true)
    {users : UserStore} (husers : users.WebIds) :
    (∀ (jwt : JsonWebToken) (overflowChecks : Bool) (req : TokenRequest) (jti : Str) (at' : Nat)
        (sessions : SessionStore) (r : TokenResponse),
      (token jwt overflowChecks config jwks users req jti at' sessions).1 = some (.ok r) →
        ∃ jkt payload, checkGrant jwt config req = .ok jkt ∧
          UsableToken config jwks r.accessToken jkt payload) ∧
      ∀ (overflowChecks : Bool) (email password jkt ip jti : Str)
        (limiter : RateLimitKey → RateLimitDecision) (now ttl : UInt64) (r : CredentialsResponse),
        login overflowChecks email password users jwks config.issuer (some jkt) limiter ip jti now
            ttl = some (.ok r) →
          ∃ payload, UsableToken config jwks r.accessToken jkt payload := by
  constructor
  · intro jwt overflowChecks req jti at' sessions r h
    exact usableToken_of_token hlib hissuer husers h
  · intro overflowChecks email password jkt ip jti limiter now ttl r h
    exact usableToken_of_login hlib hissuer husers h

end Usable

/-! ## One account -/

section Sample

variable (issuer webid : Str)

def samplePayload : AccessTokenPayload :=
  ⟨issuer, "acct-1", "solid", webid, 0, 3600, "j", "credentials_client", "openid webid",
    some ⟨"jkt"⟩⟩

/-- Libraries that sign one payload with one key. -/
def sampleLibrary : IdpLibrary where
  Material := Unit
  DecodingKey := Unit
  decodeHeader _ := .ok (.ES256, some "k")
  fromSecret _ := ()
  fromJwk _ := .ok ()
  decode _ _ _ expected :=
    if expected ≠ issuer then .error "InvalidIssuer" else .ok (samplePayload issuer webid).claims
  publicPoint _ := ([], [])
  toJwk key := some ⟨some key.kid, some (.signature .ES256), ()⟩
  encode alg kid payload _ :=
    if alg ≠ .ES256 ∨ kid ≠ "k" ∨ payload ≠ samplePayload issuer webid then .error "InvalidKey"
    else .ok "t"
  sha256Base64Url _ := []

def sampleJwks : Jwks (sampleLibrary issuer webid) where
  active := ⟨"k", "ES256", [], [], es256Jwk "k" ([], []), 0, rfl, rfl⟩
  retired := []
  retention := 0

def sampleUser : User := ⟨"acct-1", "a", webid, none, []⟩

def sampleUsers : UserStore where
  findByEmail _ := .ok (some (sampleUser webid))
  findById id := .ok (if id = "acct-1" then some (sampleUser webid) else none)
  verifyPassword _ _ := .ok true

def sampleConfig : ProviderConfig := ⟨issuer, 3600, 60⟩

def sampleLogin : Option (Except LoginError CredentialsResponse) :=
  login true "a" "b" (sampleUsers webid) (sampleJwks issuer webid) issuer (some "jkt")
    (fun _ => .allow) "ip" "j" 0 3600

theorem encode_sampleLibrary : (sampleLibrary issuer webid).encode .ES256 "k"
    (samplePayload issuer webid) [] = .ok "t" :=
  if_neg (by simp)

theorem eq_of_encode_sampleLibrary {alg : Algorithm} {kid jwt : Str}
    {payload : AccessTokenPayload} {der : Bytes}
    (h : (sampleLibrary issuer webid).encode alg kid payload der = .ok jwt) :
    alg = .ES256 ∧ kid = "k" ∧ payload = samplePayload issuer webid := by
  obtain ⟨hne, -⟩ := guard_eq_ok_iff.mp h
  simpa only [not_or, not_not] using hne

theorem eq_of_decode_sampleLibrary {jwt expected : Str} {key : Unit} {alg : Algorithm}
    {claims : SolidOidcClaims}
    (h : (sampleLibrary issuer webid).decode jwt key alg expected = .ok claims) :
    expected = issuer ∧ claims = (samplePayload issuer webid).claims := by
  obtain ⟨hissuer, hclaims⟩ := guard_eq_ok_iff.mp h
  cases hclaims
  exact ⟨not_not.mp hissuer, rfl⟩

theorem sampleLibrary_lawful : (sampleLibrary issuer webid).Lawful where
  reads kid der := ⟨_, (), rfl, rfl, rfl⟩
  header h := by
    obtain ⟨rfl, rfl, -⟩ := eq_of_encode_sampleLibrary issuer webid h
    rfl
  decodes h _ _ := by
    obtain ⟨-, -, rfl⟩ := eq_of_encode_sampleLibrary issuer webid h
    exact if_neg (not_not.mpr rfl)

theorem sampleLogin_eq :
    sampleLogin issuer webid = some (.ok ⟨"t", "DPoP", 3600, webid, "acct-1"⟩) := by
  have hexp : addU64 true 0 3600 = some 3600 := by decide
  have hissued : issueAccessToken true (sampleJwks issuer webid).active issuer webid "acct-1"
      "credentials_client" "openid webid" (some "jkt") "j" 0 3600 =
        some (.ok ⟨"t", samplePayload issuer webid⟩) :=
    issueAccessToken_eq_ok_iff.mpr ⟨3600, hexp, rfl, encode_sampleLibrary issuer webid⟩
  have hauth : authenticate (sampleUsers webid) "a" "b" =
      .ok (sampleUser webid) := rfl
  exact login_of_issued rfl hauth hissued

theorem eq_of_findById_sampleUsers {id : Str} {user : User}
    (h : (sampleUsers webid).findById id = .ok (some user)) :
    id = "acct-1" ∧ user = sampleUser webid := by
  have hfound : (if id = "acct-1" then some (sampleUser webid) else none) = some user :=
    Except.ok.inj h
  split_ifs at hfound with hid
  exact ⟨hid, (Option.some.inj hfound).symm⟩

theorem sampleUsers_finds : (sampleUsers webid).Finds where
  id hfind := by
    obtain ⟨rfl, rfl⟩ := eq_of_findById_sampleUsers webid hfind
    rfl

theorem sampleUsers_webIds (h : urlShaped webid = true) : (sampleUsers webid).WebIds where
  byId hfind := by
    obtain ⟨-, rfl⟩ := eq_of_findById_sampleUsers webid hfind
    exact h
  byEmail hfind := by
    cases hfind
    exact h

end Sample

theorem sample_usable : ∃ payload, UsableToken (sampleConfig "https://pod/")
    (sampleJwks "https://pod/" "https://me") "t" "jkt" payload := by
  have hlogin := sampleLogin_eq "https://pod/" "https://me"
  have husers := sampleUsers_webIds "https://me" (by decide)
  have hissuer : endsWith "/" (sampleConfig "https://pod/").issuer = true := by decide
  exact (minted_usable (sampleLibrary_lawful "https://pod/" "https://me") hissuer husers).2
    true "a" "b" "jkt" "ip" "j" (fun _ => .allow) 0 3600 _ hlogin

/-- An issuer without the slash at its end is published with it, so that the resource
server refuses the token; a WebID that is no URL is refused as well; and the subject
that is reported is the WebID. -/
theorem sample_not_usable :
    (sampleLogin "https://pod" "https://me" =
        some (.ok ⟨"t", "DPoP", 3600, "https://me", "acct-1"⟩) ∧
      ∀ v, verifyAtServer (sampleConfig "https://pod") (sampleJwks "https://pod" "https://me") "t"
        "jkt" 0 ≠ .ok v) ∧
    (sampleLogin "https://pod/" "me" = some (.ok ⟨"t", "DPoP", 3600, "me", "acct-1"⟩) ∧
      ∀ v, verifyAtServer (sampleConfig "https://pod/") (sampleJwks "https://pod/" "me") "t" "jkt"
        0 ≠ .ok v) ∧
    sampleLogin "https://pod/" "https://me" =
        some (.ok ⟨"t", "DPoP", 3600, "https://me", "acct-1"⟩) ∧
      ∀ info, userinfo (sampleConfig "https://pod/") (sampleJwks "https://pod/" "https://me") "t"
        "jkt" 0 = .ok info → info.sub ≠ (samplePayload "https://pod/" "https://me").sub := by
  refine ⟨⟨sampleLogin_eq _ _, ?_⟩, ⟨sampleLogin_eq _ _, ?_⟩, sampleLogin_eq _ _, ?_⟩
  · intro v h
    obtain ⟨claims, hdecoded, -⟩ := verifyAccessToken_eq_ok_iff.mp h
    obtain ⟨alg, kid, key, -, -, hdecode⟩ := decodeToken_eq_ok_iff.mp hdecoded
    exact absurd (eq_of_decode_sampleLibrary _ _ hdecode).1 (by decide)
  · intro v h
    obtain ⟨claims, hdecoded, hcheck⟩ := verifyAccessToken_eq_ok_iff.mp h
    obtain ⟨alg, kid, key, -, -, hdecode⟩ := decodeToken_eq_ok_iff.mp hdecoded
    obtain ⟨-, rfl⟩ := eq_of_decode_sampleLibrary _ _ hdecode
    have hwebid := (checkClaims_eq_ok_iff.mp hcheck).2.2.1
    have hnone : extractWebid (samplePayload "https://pod/" "me").claims = .error (.nip98
        "no WebID present in access token (neither webid claim nor url-shaped sub)") := rfl
    rw [hnone] at hwebid
    cases hwebid
  · intro info h
    have hlogin := sampleLogin_eq "https://pod/" "https://me"
    have husers := sampleUsers_webIds "https://me" (by decide)
    have hissuer : endsWith "/" (sampleConfig "https://pod/").issuer = true := by decide
    obtain ⟨payload, hpayload⟩ := usableToken_of_login
      (sampleLibrary_lawful "https://pod/" "https://me") hissuer husers hlogin
    obtain ⟨-, -, rfl⟩ := eq_of_encode_sampleLibrary _ _ hpayload.signed
    cases h.symm.trans (hpayload.userinfo 0 (by decide))
    decide

end Idp

end SolidPod
