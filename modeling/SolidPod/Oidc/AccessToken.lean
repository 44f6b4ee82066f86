import SolidPod.Foundation.Fallible
import SolidPod.Oidc.Dpop

/-!
# Access tokens

`verifyAccessToken` picks the key by the algorithm and the key id in the header of
a token, has the token library check the signature and the issuer, and then checks
the expiry, the binding to the key of the DPoP proof and the WebID. Decoding and
keys are the library's, so they are the parameters of `AccessTokenLibrary`.
-/

namespace SolidPod

open Foundation Str Fallible

namespace Oidc

/-- The algorithm that a key of a key set declares. -/
inductive KeyAlgorithm where
  | signature (alg : Algorithm)
  | RSA1_5
  | RSA_OAEP
  | RSA_OAEP_256
  deriving DecidableEq

/-- The algorithm of the same name, if there is one for signatures. -/
def KeyAlgorithm.toAlgorithm : KeyAlgorithm → Option Algorithm
  | .signature alg => some alg
  | .RSA1_5 | .RSA_OAEP | .RSA_OAEP_256 => none

/-- A key of a key set: what the selection reads of it, and the rest. -/
structure LibJwk (M : Type*) where
  keyId : Option Str
  keyAlgorithm : Option KeyAlgorithm
  material : M

inductive TokenVerifyKey (M : Type*) where
  | symmetric (secret : Bytes)
  | asymmetric (set : List (LibJwk M))

structure CnfClaim where
  jkt : Str
  deriving DecidableEq

structure SolidOidcClaims where
  iss : Str
  sub : Str
  aud : Json
  exp : UInt64
  iat : UInt64
  webid : Option Str
  clientId : Option Str
  cnf : Option CnfClaim
  scope : Option Str

structure AccessTokenVerified where
  webid : Str
  clientId : Option Str
  iss : Str
  jkt : Str
  scope : Option Str
  exp : UInt64
  deriving DecidableEq

/-- What is asked of the token library. An error is given by its text. -/
structure AccessTokenLibrary where
  Material : Type
  DecodingKey : Type
  /-- The algorithm and the key id that a header names. -/
  decodeHeader : Str → Except Str (Algorithm × Option Str)
  fromSecret : Bytes → DecodingKey
  fromJwk : LibJwk Material → Except Str DecodingKey
  /-- The claims of a token whose signature the key verifies, of the issuer. -/
  decode : Str → DecodingKey → Algorithm → Str → Except Str SolidOidcClaims

def urlShaped (s : Str) : Bool := startsWith "http://" s || startsWith "https://" s

/-- The explicit claim goes first, then a subject that is a URL. -/
def extractWebid (claims : SolidOidcClaims) : Except PodError Str :=
  match claims.webid.filter urlShaped with
  | some w => .ok w
  | none =>
    if urlShaped claims.sub then .ok claims.sub
    else .error (.nip98
      "no WebID present in access token (neither webid claim nor url-shaped sub)")

section Library

variable (lib : AccessTokenLibrary)

/-- The first key of a set that the header of a token asks for. -/
def findKey {M : Type} (set : List (LibJwk M)) (alg : Algorithm) (kid : Option Str) :
    Except PodError (LibJwk M) :=
  match kid with
  | some kid =>
    match set.find? fun jwk => jwk.keyId = some kid with
    | some jwk => .ok jwk
    | none =>
      .error (.nip98 ("access token kid '" ++ kid ++ "' not present in configured JwkSet"))
  | none =>
    match set.find? fun jwk => jwk.keyAlgorithm.bind KeyAlgorithm.toAlgorithm = some alg with
    | some jwk => .ok jwk
    | none =>
      .error (.nip98 ("access token alg " ++ alg.debug ++ " has no matching JWK in keyset"))

/-- The key that the algorithm and the key set decide on. -/
def selectKey (alg : Algorithm) (kid : Option Str) (keyset : TokenVerifyKey lib.Material) :
    Except PodError lib.DecodingKey :=
  match alg, keyset with
  | .HS256, .symmetric secret => .ok (lib.fromSecret secret)
  | .HS256, .asymmetric _ =>
    .error (.nip98 "HS256 not permitted for external OIDC — asymmetric keyset required")
  | .RS256, .asymmetric set | .ES256, .asymmetric set | .EdDSA, .asymmetric set => do
    let jwk ← findKey set alg kid
    orNip98 "JwkSet → DecodingKey failed: " (lib.fromJwk jwk)
  | .RS256, .symmetric _ | .ES256, .symmetric _ | .EdDSA, .symmetric _ =>
    .error (.nip98 ("access token uses asymmetric alg " ++ alg.debug ++
      " but only a symmetric keyset is configured"))
  | other, _ =>
    .error (.nip98 ("access token alg " ++ other.debug ++
      " not permitted (ES256/RS256/EdDSA for production, HS256 for test-only)"))

/-- The claims of a token that the key set and the issuer are good for. -/
def decodeToken (token : Str) (keyset : TokenVerifyKey lib.Material) (expectedIssuer : Str) :
    Except PodError SolidOidcClaims := do
  let (alg, kid) ← orNip98 "access token header decode failed: " (lib.decodeHeader token)
  let key ← selectKey lib alg kid keyset
  orNip98 "access token decode failed: " (lib.decode token key alg expectedIssuer)

/-- The checks of the claims, which the library is told to leave out. -/
def checkClaims (claims : SolidOidcClaims) (dpopJkt : Str) (now : UInt64) :
    Except PodError AccessTokenVerified :=
  if claims.exp < now then .error (.nip98 "access token expired")
  else
    match claims.cnf with
    | none => .error (.nip98 "access token missing cnf")
    | some cnf =>
      if cnf.jkt ≠ dpopJkt then .error (.nip98 "cnf.jkt does not match DPoP thumbprint")
      else do
        let webid ← extractWebid claims
        return ⟨webid, claims.clientId, claims.iss, cnf.jkt, claims.scope, claims.exp⟩

def verifyAccessToken (token : Str) (keyset : TokenVerifyKey lib.Material)
    (expectedIssuer dpopJkt : Str) (now : UInt64) : Except PodError AccessTokenVerified := do
  let claims ← decodeToken lib token keyset expectedIssuer
  checkClaims claims dpopJkt now

end Library

/-! ## What acceptance means -/

section Sound

variable {lib : AccessTokenLibrary} {token issuer jkt : Str}
  {keyset : TokenVerifyKey lib.Material} {now : UInt64}

/-- The key is one of the key set, which the header of the token asks for, and the
algorithm is one that the kind of key set permits. -/
inductive Selects (lib : AccessTokenLibrary) :
    TokenVerifyKey lib.Material → Algorithm → Option Str → lib.DecodingKey → Prop where
  | secret (secret : Bytes) (kid : Option Str) :
      Selects lib (.symmetric secret) .HS256 kid (lib.fromSecret secret)
  | named {set : List (LibJwk lib.Material)} {alg : Algorithm} {kid : Str}
      {jwk : LibJwk lib.Material} {key : lib.DecodingKey}
      (permitted : alg ∈ [.RS256, .ES256, .EdDSA]) (member : jwk ∈ set)
      (name : jwk.keyId = some kid) (usable : lib.fromJwk jwk = .ok key) :
      Selects lib (.asymmetric set) alg (some kid) key
  | declared {set : List (LibJwk lib.Material)} {alg : Algorithm}
      {jwk : LibJwk lib.Material} {key : lib.DecodingKey}
      (permitted : alg ∈ [.RS256, .ES256, .EdDSA]) (member : jwk ∈ set)
      (algorithm : jwk.keyAlgorithm = some (.signature alg)) (usable : lib.fromJwk jwk = .ok key) :
      Selects lib (.asymmetric set) alg none key

/-- What is documented of the library: it lets a token through only when the token
carries the claims signed under the key with the algorithm, and only when its issuer
is the configured one. -/
structure AccessTokenLibrary.Checks (lib : AccessTokenLibrary)
    (SignedUnder : Str → SolidOidcClaims → lib.DecodingKey → Algorithm → Prop) : Prop where
  signature : ∀ {token key alg issuer claims}, lib.decode token key alg issuer = .ok claims →
    SignedUnder token claims key alg
  issuer : ∀ {token key alg issuer claims}, lib.decode token key alg issuer = .ok claims →
    claims.iss = issuer

/-- What an accepted token is. -/
structure Authentic (lib : AccessTokenLibrary)
    (SignedUnder : Str → SolidOidcClaims → lib.DecodingKey → Algorithm → Prop) (token : Str)
    (keyset : TokenVerifyKey lib.Material) (issuer jkt : Str) (now : UInt64)
    (v : AccessTokenVerified) (claims : SolidOidcClaims) : Prop where
  signed : ∃ alg kid key, lib.decodeHeader token = .ok (alg, kid) ∧
    Selects lib keyset alg kid key ∧ SignedUnder token claims key alg
  issuer : claims.iss = issuer
  fresh : now < claims.exp
  bound : claims.cnf = some ⟨jkt⟩
  webid : extractWebid claims = .ok v.webid
  verified : v = ⟨v.webid, claims.clientId, claims.iss, jkt, claims.scope, claims.exp⟩

theorem toAlgorithm_eq_some_iff {k : Option KeyAlgorithm} {alg : Algorithm} :
    k.bind KeyAlgorithm.toAlgorithm = some alg ↔ k = some (.signature alg) := by
  cases k with
  | none => simp
  | some k => cases k <;> simp [KeyAlgorithm.toAlgorithm]

/-- What `findKey` finds. -/
theorem findKey_eq_ok {M : Type} {set : List (LibJwk M)} {alg : Algorithm} {kid : Option Str}
    {jwk : LibJwk M} (h : findKey set alg kid = .ok jwk) :
    jwk ∈ set ∧ (∀ name, kid = some name → jwk.keyId = some name) ∧
      (kid = none → jwk.keyAlgorithm = some (.signature alg)) := by
  cases kid with
  | some name =>
      rw [findKey] at h
      cases hfind : set.find? fun jwk => jwk.keyId = some name with
      | none =>
          simp only [hfind] at h
          cases h
      | some found =>
          simp only [hfind] at h
          cases h
          refine ⟨List.mem_of_find?_eq_some hfind, ?_, nofun⟩
          intro name' hname
          cases hname
          simpa using List.find?_some hfind
  | none =>
      rw [findKey] at h
      cases hfind : set.find? fun jwk => jwk.keyAlgorithm.bind KeyAlgorithm.toAlgorithm =
          some alg with
      | none =>
          simp only [hfind] at h
          cases h
      | some found =>
          simp only [hfind] at h
          cases h
          refine ⟨List.mem_of_find?_eq_some hfind, nofun, fun _ => ?_⟩
          have hdeclared := List.find?_some hfind
          rw [decide_eq_true_eq] at hdeclared
          exact toAlgorithm_eq_some_iff.mp hdeclared

theorem selects_of_findKey {set : List (LibJwk lib.Material)} {alg : Algorithm}
    {kid : Option Str} {key : lib.DecodingKey} (halg : alg ∈ [.RS256, .ES256, .EdDSA])
    (h : (do
      let jwk ← findKey set alg kid
      orNip98 "JwkSet → DecodingKey failed: " (lib.fromJwk jwk)) = .ok key) :
    Selects lib (.asymmetric set) alg kid key := by
  obtain ⟨jwk, hfind, hkey⟩ := bind_eq_ok_iff.mp h
  obtain ⟨hmem, hname, hdeclared⟩ := findKey_eq_ok hfind
  rw [orNip98_eq_ok_iff] at hkey
  cases kid with
  | some name => exact .named halg hmem (hname name rfl) hkey
  | none => exact .declared halg hmem (hdeclared rfl) hkey

/-- The five ways through the dispatch. -/
theorem selects_of_selectKey {alg : Algorithm} {kid : Option Str} {key : lib.DecodingKey}
    (h : selectKey lib alg kid keyset = .ok key) : Selects lib keyset alg kid key := by
  cases keyset with
  | symmetric secret =>
      cases alg with
      | HS256 =>
          cases h
          exact .secret secret kid
      | _ => cases h
  | asymmetric set =>
      cases alg with
      | RS256 => exact selects_of_findKey (by decide) h
      | ES256 => exact selects_of_findKey (by decide) h
      | EdDSA => exact selects_of_findKey (by decide) h
      | _ => cases h

theorem checkClaims_eq_ok_iff {claims : SolidOidcClaims} {v : AccessTokenVerified} :
    checkClaims claims jkt now = .ok v ↔
      now ≤ claims.exp ∧ claims.cnf = some ⟨jkt⟩ ∧ extractWebid claims = .ok v.webid ∧
        v = ⟨v.webid, claims.clientId, claims.iss, jkt, claims.scope, claims.exp⟩ := by
  rw [checkClaims, guard_eq_ok_iff, UInt64.not_lt]
  refine and_congr_right fun _ => ?_
  cases hcnf : claims.cnf with
  | none => simp
  | some cnf =>
      simp only [guard_eq_ok_iff, not_not, bind_eq_ok_iff]
      constructor
      · rintro ⟨rfl, webid, hwebid, hv⟩
        cases hv
        exact ⟨rfl, hwebid, rfl⟩
      · rintro ⟨hbound, hwebid, hv⟩
        cases hbound
        exact ⟨rfl, v.webid, hwebid, congrArg Except.ok hv.symm⟩

theorem verifyAccessToken_eq_ok_iff {v : AccessTokenVerified} :
    verifyAccessToken lib token keyset issuer jkt now = .ok v ↔
      ∃ claims, decodeToken lib token keyset issuer = .ok claims ∧
        checkClaims claims jkt now = .ok v :=
  bind_eq_ok_iff

theorem decodeToken_eq_ok_iff {claims : SolidOidcClaims} :
    decodeToken lib token keyset issuer = .ok claims ↔
      ∃ alg kid key, lib.decodeHeader token = .ok (alg, kid) ∧
        selectKey lib alg kid keyset = .ok key ∧ lib.decode token key alg issuer = .ok claims := by
  simp only [decodeToken, bind_eq_ok_iff, orNip98_eq_ok_iff, Prod.exists]
  constructor
  · rintro ⟨alg, kid, hheader, key, hkey, hdecode⟩
    exact ⟨alg, kid, key, hheader, hkey, hdecode⟩
  · rintro ⟨alg, kid, key, hheader, hkey, hdecode⟩
    exact ⟨alg, kid, hheader, key, hkey, hdecode⟩

/-- A token that is good for the key set, the issuer and the thumbprint, in the
second of its expiry. -/
def ExpiresNow (lib : AccessTokenLibrary) (token : Str) (keyset : TokenVerifyKey lib.Material)
    (issuer jkt : Str) (now : UInt64) : Prop :=
  ∃ claims, decodeToken lib token keyset issuer = .ok claims ∧ claims.cnf = some ⟨jkt⟩ ∧
    (∃ webid, extractWebid claims = .ok webid) ∧ claims.exp = now

variable {SignedUnder : Str → SolidOidcClaims → lib.DecodingKey → Algorithm → Prop}

/-- Acceptance is sound except for the second of the expiry. -/
theorem authentic_of_verifyAccessToken (hlib : lib.Checks SignedUnder) {v : AccessTokenVerified}
    (h : verifyAccessToken lib token keyset issuer jkt now = .ok v)
    (hnow : ¬ ExpiresNow lib token keyset issuer jkt now) :
    ∃ claims, Authentic lib SignedUnder token keyset issuer jkt now v claims := by
  obtain ⟨claims, hdecoded, hcheck⟩ := verifyAccessToken_eq_ok_iff.mp h
  obtain ⟨hexp, hbound, hwebid, hv⟩ := checkClaims_eq_ok_iff.mp hcheck
  obtain ⟨alg, kid, key, hheader, hkey, hdecode⟩ := decodeToken_eq_ok_iff.mp hdecoded
  have hne : now ≠ claims.exp :=
    fun heq => hnow ⟨claims, hdecoded, hbound, ⟨v.webid, hwebid⟩, heq.symm⟩
  exact ⟨claims, {
    signed := ⟨alg, kid, key, hheader, selects_of_selectKey hkey, hlib.signature hdecode⟩
    issuer := hlib.issuer hdecode
    fresh := UInt64.lt_of_le_of_ne hexp hne
    bound := hbound
    webid := hwebid
    verified := hv }⟩

theorem verifyAccessToken_of_expiresNow (h : ExpiresNow lib token keyset issuer jkt now) :
    ∃ v, verifyAccessToken lib token keyset issuer jkt now = .ok v ∧ v.exp = now := by
  obtain ⟨claims, hdecoded, hbound, ⟨webid, hwebid⟩, rfl⟩ := h
  refine ⟨⟨webid, claims.clientId, claims.iss, jkt, claims.scope, claims.exp⟩, ?_, rfl⟩
  exact verifyAccessToken_eq_ok_iff.mpr
    ⟨claims, hdecoded, checkClaims_eq_ok_iff.mpr ⟨UInt64.le_refl _, hbound, hwebid, rfl⟩⟩

/-- Everything accepted is authentic exactly when this is not the second in which a
good token expires. -/
theorem verifyAccessToken_sound_iff (hlib : lib.Checks SignedUnder) :
    (∀ v, verifyAccessToken lib token keyset issuer jkt now = .ok v →
        ∃ claims, Authentic lib SignedUnder token keyset issuer jkt now v claims) ↔
      ¬ ExpiresNow lib token keyset issuer jkt now := by
  constructor
  · intro hsound hexpires
    obtain ⟨v, hok, hexp⟩ := verifyAccessToken_of_expiresNow hexpires
    obtain ⟨claims, hclaims⟩ := hsound v hok
    have hlt := hclaims.fresh
    rw [← hexp, hclaims.verified] at hlt
    exact UInt64.lt_irrefl _ hlt
  · intro hnow v hok
    exact authentic_of_verifyAccessToken hlib hok hnow

end Sound

/-! ## A token that expires at second 100 -/

def centuryClaims : SolidOidcClaims where
  iss := "https://op"
  sub := "https://me"
  aud := .string "solid"
  exp := 100
  iat := 0
  webid := none
  clientId := none
  cnf := some ⟨"T"⟩
  scope := none

/-- A library that reads every token as the one of its issuer. -/
def centuryLibrary : AccessTokenLibrary where
  Material := Unit
  DecodingKey := Unit
  decodeHeader _ := .ok (.HS256, none)
  fromSecret _ := ()
  fromJwk _ := .ok ()
  decode _ _ _ issuer :=
    if issuer ≠ centuryClaims.iss then .error "InvalidIssuer" else .ok centuryClaims

theorem decode_centuryLibrary {token issuer : Str} {key : Unit} {alg : Algorithm}
    {claims : SolidOidcClaims} (h : centuryLibrary.decode token key alg issuer = .ok claims) :
    issuer = centuryClaims.iss ∧ claims = centuryClaims := by
  obtain ⟨hissuer, hclaims⟩ := guard_eq_ok_iff.mp h
  cases hclaims
  exact ⟨not_not.mp hissuer, rfl⟩

theorem centuryLibrary_checks :
    centuryLibrary.Checks fun _ claims _ _ => claims = centuryClaims where
  signature h := (decode_centuryLibrary h).2
  issuer h := by
    obtain ⟨rfl, rfl⟩ := decode_centuryLibrary h
    rfl

theorem verifyAccessToken_century_sound :
    (∀ v, verifyAccessToken centuryLibrary [] (.symmetric []) "https://op" "T" 50 = .ok v →
        ∃ claims, Authentic centuryLibrary (fun _ claims _ _ => claims = centuryClaims) []
          (.symmetric []) "https://op" "T" 50 v claims) ↔
      ¬ ExpiresNow centuryLibrary [] (.symmetric []) "https://op" "T" 50 :=
  verifyAccessToken_sound_iff centuryLibrary_checks

/-- At second 100 it is still accepted. -/
theorem not_verifyAccessToken_sound :
    ¬ ∀ (lib : AccessTokenLibrary)
      (SignedUnder : Str → SolidOidcClaims → lib.DecodingKey → Algorithm → Prop)
      (token issuer jkt : Str) (keyset : TokenVerifyKey lib.Material) (now : UInt64)
      (v : AccessTokenVerified), lib.Checks SignedUnder →
        verifyAccessToken lib token keyset issuer jkt now = .ok v →
          ∃ claims, Authentic lib SignedUnder token keyset issuer jkt now v claims := by
  intro hall
  obtain ⟨claims, hclaims⟩ := hall centuryLibrary _ [] "https://op" "T" (.symmetric []) 100
    ⟨"https://me", none, "https://op", "T", none, 100⟩ centuryLibrary_checks rfl
  have hexp : 100 = claims.exp := congrArg AccessTokenVerified.exp hclaims.verified
  have hfresh := hclaims.fresh
  rw [← hexp] at hfresh
  exact UInt64.lt_irrefl _ hfresh

end Oidc

end SolidPod
