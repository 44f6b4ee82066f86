import SolidPod.Idp.Accounts
import SolidPod.Idp.Clients

/-!
# The provider

The authorization code flow: `authorize` hands out a code to the client of an
authenticated account, `token` exchanges it for an access token that is bound to
the key of a DPoP proof, and `userinfo` tells what an access token is good for. A
call that waits for something goes on in a later step, so each is cut where it
waits.
-/

namespace SolidPod

open Foundation Str Fallible Oidc

namespace Idp

inductive ProviderError where
  | invalidRequest (msg : Str)
  | invalidGrant (msg : Str)
  | invalidClient (msg : Str)
  | invalidDpop (msg : Str)
  | clientDocument (msg : Str)
  | userStore (msg : Str)
  | crypto (msg : Str)
  deriving DecidableEq

structure ProviderConfig where
  issuer : Str
  accessTokenTtlSecs : UInt64
  dpopSkewSecs : UInt64

/-! ## Codes -/

/-- What a code was issued for. Instants are whole nanoseconds. -/
structure AuthCodeRecord where
  code : Str
  clientId : Str
  accountId : Str
  redirectUri : Str
  codeChallenge : Option Str
  issuedAt : Nat
  requestedScope : Option Str
  deriving DecidableEq

/-- The codes that are neither taken nor forgotten. -/
structure SessionStore where
  codes : Str → Option AuthCodeRecord
  codeTtl : Nat

def SessionStore.empty (codeTtl : Nat) : SessionStore := ⟨fun _ => none, codeTtl⟩

/-- The code is drawn at random. -/
def SessionStore.issueCode (s : SessionStore) (record : AuthCodeRecord) : SessionStore :=
  { s with codes := fun code => if code = record.code then some record else s.codes code }

/-- A code is gone once it was asked for, whether it is still good or not. -/
def SessionStore.takeCode (s : SessionStore) (code : Str) (now : Nat) :
    Option AuthCodeRecord × SessionStore :=
  ((s.codes code).filter fun record => decide (now - record.issuedAt ≤ s.codeTtl),
    { s with codes := fun c => if c = code then none else s.codes c })

/-! ## `authorize` -/

structure AuthorizeRequest where
  clientId : Str
  responseType : Str
  redirectUri : Str
  state : Option Str
  codeChallenge : Option Str
  codeChallengeMethod : Option Str
  scope : Option Str
  sessionAccountId : Option Str

inductive AuthorizeResponse where
  | redirect (redirectUri code : Str) (state : Option Str) (iss : Str)
  | needsLogin (clientId redirectUri : Str) (state codeChallenge scope : Option Str)

def lookedUp (clientId : Str) : Except RegError (Option ClientDocument) →
    Except ProviderError ClientDocument
  | .error e => .error (.clientDocument e.display)
  | .ok none => .error (.invalidClient ("unknown: " ++ clientId))
  | .ok (some client) => .ok client

/-- The checks of a request against its client. -/
def checkAuthorize (req : AuthorizeRequest) (client : ClientDocument) :
    Except ProviderError Unit :=
  if req.responseType ≠ "code" then
    .error (.invalidRequest ("response_type must be 'code', got '" ++ req.responseType ++ "'"))
  else if req.redirectUri ∉ client.redirectUris then
    .error (.invalidRequest ("redirect_uri not registered: " ++ req.redirectUri))
  else if req.codeChallengeMethod ≠ some ("S256" : Str) then
    .error (.invalidRequest "PKCE S256 is required (code_challenge_method)")
  else if req.codeChallenge = none then .error (.invalidRequest "code_challenge is required")
  else .ok ()

/-- The record of the code that a request is answered with. -/
def AuthorizeRequest.record (req : AuthorizeRequest) (client : ClientDocument)
    (accountId code : Str) (now : Nat) : AuthCodeRecord :=
  ⟨code, client.clientId, accountId, req.redirectUri, req.codeChallenge, now, req.scope⟩

/-- What a request is issued after its client was looked up: the client and the record
of the code that is drawn, or nothing when nobody is logged in. -/
def authorizeCode (req : AuthorizeRequest) (found : Except RegError (Option ClientDocument))
    (drawn : Str) (now : Nat) :
    Except ProviderError (Option (ClientDocument × AuthCodeRecord)) := do
  let client ← lookedUp req.clientId found
  checkAuthorize req client
  return req.sessionAccountId.map fun accountId =>
    (client, req.record client accountId drawn now)

/-- The part of a call after the look-up of the client. -/
def authorize (config : ProviderConfig) (req : AuthorizeRequest)
    (found : Except RegError (Option ClientDocument)) (drawn : Str) (now : Nat)
    (sessions : SessionStore) : Except ProviderError AuthorizeResponse × SessionStore :=
  match authorizeCode req found drawn now with
  | .error e => (.error e, sessions)
  | .ok none => (.ok (.needsLogin req.clientId req.redirectUri req.state req.codeChallenge
      req.scope), sessions)
  | .ok (some (_, record)) =>
    (.ok (.redirect req.redirectUri record.code req.state config.issuer), sessions.issueCode record)

/-! ## `token` -/

structure TokenRequest where
  grantType : Str
  code : Str
  redirectUri : Str
  clientId : Str
  codeVerifier : Option Str
  dpopProof : Option Str
  nowUnix : UInt64

structure TokenResponse where
  accessToken : Str
  tokenType : Str
  expiresIn : UInt64
  scope : Str
  webid : Option Str

section Library

variable (jwt : JsonWebToken) {lib : IdpLibrary}

def pkceS256 (lib : IdpLibrary) (verifier : Str) : Str := lib.sha256Base64Url (utf8 verifier)

/-- The proof of a call, checked against the token endpoint and without a replay
cache. -/
def checkProof (config : ProviderConfig) (proof : Str) (nowUnix : UInt64) :
    Except PodError DpopVerified :=
  (verifyDpopProof (L := LruList Str Nat) jwt proof
    (trimEndMatches '/' config.issuer ++ "/idp/token") "POST" nowUnix.toNat
    config.dpopSkewSecs.toNat 0 ⟨none, 0⟩).1

/-- The checks before the code is taken; the answer is the thumbprint of the proof. -/
def checkGrant (config : ProviderConfig) (req : TokenRequest) : Except ProviderError Str :=
  if req.grantType ≠ "authorization_code" then
    .error (.invalidRequest ("grant_type must be 'authorization_code', got '" ++ req.grantType ++
      "'"))
  else
    match req.dpopProof with
    | none => .error (.invalidDpop "missing DPoP header")
    | some proof =>
      match checkProof jwt config proof req.nowUnix with
      | .error e => .error (.invalidDpop e.display)
      | .ok verified => .ok verified.jkt

/-- The verifier that PKCE asks for. -/
def checkPkce (lib : IdpLibrary) (challenge verifier : Option Str) : Except ProviderError Unit :=
  match challenge with
  | none => .ok ()
  | some challenge =>
    match verifier with
    | none => .error (.invalidRequest "code_verifier required for PKCE")
    | some verifier =>
      if pkceS256 lib verifier ≠ challenge then .error (.invalidGrant "PKCE verifier mismatch")
      else .ok ()

/-- The checks of the call against what its code was issued for. -/
def checkCode (lib : IdpLibrary) (req : TokenRequest) (code : AuthCodeRecord) :
    Except ProviderError Unit :=
  if code.clientId ≠ req.clientId then
    .error (.invalidGrant "code issued to different client_id")
  else if code.redirectUri ≠ req.redirectUri then .error (.invalidGrant "redirect_uri mismatch")
  else checkPkce lib code.codeChallenge req.codeVerifier

/-- The first part of a call, up to the look-up of the account: the proof is checked and
the code is taken. -/
def redeem (lib : IdpLibrary) (config : ProviderConfig) (req : TokenRequest) (now : Nat)
    (sessions : SessionStore) : Except ProviderError (Str × AuthCodeRecord) × SessionStore :=
  match checkGrant jwt config req with
  | .error e => (.error e, sessions)
  | .ok jkt =>
    match sessions.takeCode req.code now with
    | (none, sessions) => (.error (.invalidGrant "code expired or unknown"), sessions)
    | (some code, sessions) => ((checkCode lib req code).map fun _ => (jkt, code), sessions)

/-- The account of a code. -/
def account : Except Str (Option User) → Except ProviderError User
  | .error e => .error (.userStore e)
  | .ok none => .error (.invalidGrant "account not found")
  | .ok (some user) => .ok user

/-- The second part of a call: the active key signs the token. -/
def mint (overflowChecks : Bool) (config : ProviderConfig) (jwks : Jwks lib) (jkt : Str)
    (code : AuthCodeRecord) (user : User) (jti : Str) (nowUnix : UInt64) :
    Option (Except ProviderError (AccessToken × TokenResponse)) :=
  (issueAccessToken overflowChecks jwks.active config.issuer user.webid user.id code.clientId
    (code.requestedScope.getD "openid webid") (some jkt) jti nowUnix
    config.accessTokenTtlSecs).map fun issued =>
      match issued with
      | .error e => .error (.crypto e.display)
      | .ok token => .ok (token, ⟨token.jwt, "DPoP", config.accessTokenTtlSecs,
          token.payload.scope, some user.webid⟩)

/-- A whole call, if nothing else happens while it waits. The answer is `none` for a
panic. -/
def token (overflowChecks : Bool) (config : ProviderConfig) (jwks : Jwks lib) (users : UserStore)
    (req : TokenRequest) (jti : Str) (now : Nat) (sessions : SessionStore) :
    Option (Except ProviderError TokenResponse) × SessionStore :=
  match redeem jwt lib config req now sessions with
  | (.error e, sessions) => (some (.error e), sessions)
  | (.ok (jkt, code), sessions) =>
    match account (users.findById code.accountId) with
    | .error e => (some (.error e), sessions)
    | .ok user =>
      ((mint overflowChecks config jwks jkt code user jti req.nowUnix).map fun minted =>
        minted.map Prod.snd, sessions)

/-! ## `userinfo` -/

structure UserInfo where
  sub : Str
  webid : Str
  clientId : Option Str
  scope : Option Str
  deriving DecidableEq

def userinfo (config : ProviderConfig) (jwks : Jwks lib) (accessToken dpopJkt : Str)
    (nowUnix : UInt64) : Except ProviderError UserInfo :=
  match verifyAccessToken lib.toAccessTokenLibrary accessToken (.asymmetric (buildJwkSet jwks))
      config.issuer dpopJkt nowUnix with
  | .error e => .error (.invalidDpop e.display)
  | .ok v => .ok ⟨v.webid, v.webid, v.clientId, v.scope⟩

end Library

/-! ## What a part of a call has checked -/

section Checked

variable {jwt : JsonWebToken} {lib : IdpLibrary} {config : ProviderConfig} {req : TokenRequest}

theorem checkAuthorize_eq_ok_iff {req : AuthorizeRequest} {client : ClientDocument} :
    checkAuthorize req client = .ok () ↔ req.responseType = "code" ∧
      req.redirectUri ∈ client.redirectUris ∧ req.codeChallengeMethod = some ("S256" : Str) ∧
        req.codeChallenge ≠ none := by
  simp only [checkAuthorize, guard_eq_ok_iff, not_not, and_true, ne_eq]

theorem lookedUp_eq_ok_iff {clientId : Str} {found : Except RegError (Option ClientDocument)}
    {client : ClientDocument} :
    lookedUp clientId found = .ok client ↔ found = .ok (some client) := by
  cases found with
  | error e => simp [lookedUp]
  | ok client? =>
      cases client? with
      | none => simp [lookedUp]
      | some c => simp [lookedUp]

theorem authorizeCode_eq_ok_some_iff {req : AuthorizeRequest}
    {found : Except RegError (Option ClientDocument)} {drawn : Str} {now : Nat}
    {client : ClientDocument} {record : AuthCodeRecord} :
    authorizeCode req found drawn now = .ok (some (client, record)) ↔
      found = .ok (some client) ∧ checkAuthorize req client = .ok () ∧
        ∃ accountId, req.sessionAccountId = some accountId ∧
          record = req.record client accountId drawn now := by
  simp only [authorizeCode, bind_eq_ok_iff, lookedUp_eq_ok_iff]
  constructor
  · rintro ⟨client', hfound, u, hcheck, hpure⟩
    obtain ⟨accountId, haccount, hrecord⟩ :=
      Option.map_eq_some_iff.mp (Except.ok.inj hpure)
    cases hrecord
    exact ⟨hfound, hcheck, accountId, haccount, rfl⟩
  · rintro ⟨hfound, hcheck, accountId, haccount, rfl⟩
    refine ⟨client, hfound, (), hcheck, ?_⟩
    rw [haccount]
    rfl

theorem checkGrant_eq_ok_iff {jkt : Str} :
    checkGrant jwt config req = .ok jkt ↔ req.grantType = "authorization_code" ∧
      ∃ proof v, req.dpopProof = some proof ∧ checkProof jwt config proof req.nowUnix = .ok v ∧
        v.jkt = jkt := by
  rw [checkGrant, guard_eq_ok_iff, not_not]
  refine and_congr_right fun _ => ?_
  cases req.dpopProof with
  | none => simp
  | some proof =>
      cases hproof : checkProof jwt config proof req.nowUnix with
      | error e => simp [hproof]
      | ok v => simp [hproof]

theorem checkCode_eq_ok_iff {code : AuthCodeRecord} :
    checkCode lib req code = .ok () ↔ code.clientId = req.clientId ∧
      code.redirectUri = req.redirectUri ∧ ∀ challenge ∈ code.codeChallenge,
        ∃ verifier, req.codeVerifier = some verifier ∧ pkceS256 lib verifier = challenge := by
  simp only [checkCode, guard_eq_ok_iff, not_not]
  refine and_congr_right fun _ => and_congr_right fun _ => ?_
  cases code.codeChallenge with
  | none => exact iff_of_true rfl fun _ h => by cases h
  | some challenge =>
      cases req.codeVerifier with
      | none =>
          constructor
          · intro h
            cases h
          · intro h
            obtain ⟨verifier, hverifier, -⟩ := h challenge rfl
            cases hverifier
      | some verifier =>
          constructor
          · intro h
            have hmatch := not_not.mp (guard_eq_ok_iff.mp h).1
            rintro _ ⟨⟩
            exact ⟨verifier, rfl, hmatch⟩
          · intro h
            obtain ⟨_, ⟨⟩, hmatch⟩ := h challenge rfl
            exact guard_eq_ok_iff.mpr ⟨not_not.mpr hmatch, rfl⟩

/-- A call with a good proof takes its code, whether it is there or not. -/
theorem redeem_of_checkGrant {now : Nat} {sessions : SessionStore} {jkt : Str}
    (h : checkGrant jwt config req = .ok jkt) :
    redeem jwt lib config req now sessions =
      (match (sessions.takeCode req.code now).1 with
        | none => .error (.invalidGrant "code expired or unknown")
        | some code => (checkCode lib req code).map fun _ => (jkt, code),
      (sessions.takeCode req.code now).2) := by
  rw [redeem, h]
  cases htake : sessions.takeCode req.code now with
  | mk taken rest =>
      cases taken with
      | none => rfl
      | some code => rfl

theorem redeem_eq_ok_iff {now : Nat} {sessions : SessionStore} {jkt : Str}
    {code : AuthCodeRecord} :
    (redeem jwt lib config req now sessions).1 = .ok (jkt, code) ↔
      checkGrant jwt config req = .ok jkt ∧
        (sessions.takeCode req.code now).1 = some code ∧ checkCode lib req code = .ok () := by
  cases hgrant : checkGrant jwt config req with
  | error e => simp [redeem, hgrant]
  | ok jkt' =>
      rw [redeem_of_checkGrant hgrant]
      simp only [Except.ok.injEq]
      cases (sessions.takeCode req.code now).1 with
      | none => simp
      | some taken =>
          simp only [map_eq_ok_iff, Prod.mk.injEq, Option.some.injEq]
          constructor
          · rintro ⟨u, hcheck, rfl, rfl⟩
            exact ⟨rfl, rfl, hcheck⟩
          · rintro ⟨rfl, rfl, hcheck⟩
            exact ⟨(), hcheck, rfl, rfl⟩

/-- A call with a good proof asks for its code. -/
theorem redeem_snd {now : Nat} {sessions : SessionStore} :
    (redeem jwt lib config req now sessions).2 = match checkGrant jwt config req with
      | .ok _ => (sessions.takeCode req.code now).2
      | .error _ => sessions := by
  cases hgrant : checkGrant jwt config req with
  | error e => simp only [redeem, hgrant]
  | ok jkt => rw [redeem_of_checkGrant hgrant]

theorem takeCode_eq_some_iff {sessions : SessionStore} {code : Str} {now : Nat}
    {record : AuthCodeRecord} : (sessions.takeCode code now).1 = some record ↔
      sessions.codes code = some record ∧ now - record.issuedAt ≤ sessions.codeTtl := by
  rw [SessionStore.takeCode, Option.filter_eq_some_iff, decide_eq_true_eq]

theorem mint_eq_ok_iff {overflowChecks : Bool} {jwks : Jwks lib} {jkt jti : Str}
    {code : AuthCodeRecord} {user : User} {now : UInt64} {t : AccessToken} {r : TokenResponse} :
    mint overflowChecks config jwks jkt code user jti now = some (.ok (t, r)) ↔
      issueAccessToken overflowChecks jwks.active config.issuer user.webid user.id code.clientId
          (code.requestedScope.getD "openid webid") (some jkt) jti now config.accessTokenTtlSecs =
        some (.ok t) ∧
      r = ⟨t.jwt, "DPoP", config.accessTokenTtlSecs, t.payload.scope, some user.webid⟩ := by
  rw [mint, Option.map_eq_some_iff]
  constructor
  · rintro ⟨issued, hissued, hr⟩
    cases issued with
    | error e => cases hr
    | ok t' =>
        cases hr
        exact ⟨hissued, rfl⟩
  · rintro ⟨hissued, rfl⟩
    exact ⟨.ok t, hissued, rfl⟩

theorem account_eq_ok_iff {found : Except Str (Option User)} {user : User} :
    account found = .ok user ↔ found = .ok (some user) := by
  cases found with
  | error e => simp [account]
  | ok user? =>
      cases user? with
      | none => simp [account]
      | some u => simp [account]

/-- A call that is answered with a token has redeemed its code and minted for the
account of the code. -/
theorem token_eq_ok {overflowChecks : Bool} {jwks : Jwks lib} {users : UserStore} {jti : Str}
    {now : Nat} {sessions : SessionStore} {r : TokenResponse}
    (h : (token jwt overflowChecks config jwks users req jti now sessions).1 = some (.ok r)) :
    ∃ jkt code user t, (redeem jwt lib config req now sessions).1 = .ok (jkt, code) ∧
      users.findById code.accountId = .ok (some user) ∧
        mint overflowChecks config jwks jkt code user jti req.nowUnix = some (.ok (t, r)) := by
  unfold token at h
  cases hredeem : redeem jwt lib config req now sessions with
  | mk redeemed rest =>
      rw [hredeem] at h
      cases redeemed with
      | error e => cases h
      | ok grant =>
          obtain ⟨jkt, code⟩ := grant
          cases haccount : account (users.findById code.accountId) with
          | error e =>
              simp only [haccount] at h
              cases h
          | ok user =>
              simp only [haccount] at h
              obtain ⟨minted, hmint, hr⟩ := Option.map_eq_some_iff.mp h
              obtain ⟨⟨t, r'⟩, rfl, rfl⟩ := map_eq_ok_iff.mp hr
              exact ⟨jkt, code, user, t, rfl, account_eq_ok_iff.mp haccount, hmint⟩

end Checked

end Idp

end SolidPod
