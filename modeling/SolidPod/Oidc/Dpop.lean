import SolidPod.Foundation.Fallible
import SolidPod.Json
import SolidPod.Oidc.Replay

/-!
# DPoP proofs

`verifyDpopProofCore` decides about one proof without a memory of earlier ones,
`verifyDpopProofWithAth` asks the replay cache besides. Decoding a token,
checking its signature and hashing are the libraries', so they are the
parameters of `JsonWebToken`; so is the upper case of the Unicode tables.
-/

namespace SolidPod

open Foundation

namespace Oidc

/-- The signature algorithms that the token library knows. -/
inductive Algorithm where
  | HS256 | HS384 | HS512 | ES256 | ES384 | RS256 | RS384 | RS512 | PS256 | PS384 | PS512 | EdDSA
  deriving DecidableEq

def Algorithm.debug : Algorithm → Str
  | .HS256 => "HS256"
  | .HS384 => "HS384"
  | .HS512 => "HS512"
  | .ES256 => "ES256"
  | .ES384 => "ES384"
  | .RS256 => "RS256"
  | .RS384 => "RS384"
  | .RS512 => "RS512"
  | .PS256 => "PS256"
  | .PS384 => "PS384"
  | .PS512 => "PS512"
  | .EdDSA => "EdDSA"

/-- What a thumbprint reads of a JSON Web Key. -/
structure Jwk where
  kty : Str
  crv : Option Str
  x : Option Str
  y : Option Str
  n : Option Str
  e : Option Str
  k : Option Str

structure DpopClaims where
  htu : Str
  htm : Str
  iat : Nat
  jti : Str
  ath : Option Str

structure DpopVerified where
  jkt : Str
  htm : Str
  htu : Str
  iat : Nat
  jti : Str
  ath : Option Str

/-- The header of a token, with the embedded key in the library's own type. -/
structure JwtHeader (K : Type*) where
  typ : Option Str
  alg : Algorithm
  jwk : Option K

/-- What is asked of the token, JSON, hashing and text libraries. An error is
given by its text. -/
structure JsonWebToken where
  LibJwk : Type
  DecodingKey : Type
  decodeHeader : Str → Except Str (JwtHeader LibJwk)
  toValue : LibJwk → Except Str Json
  jwkOfValue : Json → Except Str Jwk
  libJwkOfValue : Json → Except Str LibJwk
  decodingKey : LibJwk → Except Str DecodingKey
  /-- The claims of a token whose signature the key verifies. -/
  decode : Str → DecodingKey → Algorithm → Except Str DpopClaims
  /-- The URL-safe base64 form of the SHA-256 hash. -/
  sha256Base64Url : Bytes → Str
  /-- An object as the JSON library writes it. -/
  toVec : List (Str × Str) → Except Str Bytes
  toUppercase : Str → Str

/-- An error of a library, behind what was being done. -/
def orNip98 {α : Type*} (what : Str) : Except Str α → Except PodError α
  | .ok a => .ok a
  | .error e => .error (.nip98 (what ++ e))

theorem orNip98_eq_ok_iff {α : Type} {what : Str} {x : Except Str α} {a : α} :
    orNip98 what x = .ok a ↔ x = .ok a := by
  cases x with
  | error e => simp [orNip98]
  | ok b => simp [orNip98]

/-- A member that the key type asks for. -/
def Jwk.require (field : Option Str) (msg : Str) : Except PodError Str :=
  match field with
  | some v => .ok v
  | none => .error (.unsupported msg)

/-- The members of a key that its thumbprint is taken of, in their order. -/
def Jwk.members (jwk : Jwk) : Except PodError (List (Str × Str)) :=
  if jwk.kty = "EC" then do
    let crv ← require jwk.crv "EC JWK missing crv"
    let x ← require jwk.x "EC JWK missing x"
    let y ← require jwk.y "EC JWK missing y"
    .ok [("crv", crv), ("kty", "EC"), ("x", x), ("y", y)]
  else if jwk.kty = "RSA" then do
    let e ← require jwk.e "RSA JWK missing e"
    let n ← require jwk.n "RSA JWK missing n"
    .ok [("e", e), ("kty", "RSA"), ("n", n)]
  else if jwk.kty = "OKP" then do
    let crv ← require jwk.crv "OKP JWK missing crv"
    let x ← require jwk.x "OKP JWK missing x"
    .ok [("crv", crv), ("kty", "OKP"), ("x", x)]
  else if jwk.kty = "oct" then do
    let k ← require jwk.k "oct JWK missing k"
    .ok [("k", k), ("kty", "oct")]
  else .error (.unsupported ("unsupported JWK kty: " ++ jwk.kty))

def Jwk.thumbprint (lib : JsonWebToken) (jwk : Jwk) : Except PodError Str := do
  let map ← jwk.members
  let bytes ← orNip98 "JWK thumbprint canonical JSON: " (lib.toVec map)
  return lib.sha256Base64Url bytes

def normaliseHtu (u : Str) : Str := Str.toAsciiLowercase (Str.trimEndMatches '/' u)

/-- Every byte is compared, whatever the first difference is. -/
def constantTimeEq (a b : Bytes) : Bool :=
  if a.length ≠ b.length then false
  else (a.zip b).foldl (fun diff (x, y) => diff ||| (x ^^^ y)) 0 == 0

/-- Whether a proof may be signed by a key of the type with the algorithm. -/
def algPermitted (alg : Algorithm) (kty : Str) : Bool :=
  match alg with
  | .ES256 | .ES384 | .RS256 | .RS384 | .RS512 | .PS256 | .PS384 | .PS512 | .EdDSA => true
  | .HS256 => kty = "oct"
  | .HS384 | .HS512 => false

/-- The thumbprint and the claims of a proof whose signature is good. -/
def decodeProof (lib : JsonWebToken) (proof : Str) : Except PodError (Str × DpopClaims) := do
  let header ← orNip98 "DPoP header decode failed: " (lib.decodeHeader proof)
  if header.typ ≠ some ("dpop+jwt" : Str) then throw (.nip98 "DPoP typ must be dpop+jwt")
  let some jwkJson := header.jwk | throw (.nip98 "DPoP header missing jwk")
  let jwkVal ← orNip98 "DPoP jwk serialisation failed: " (lib.toValue jwkJson)
  let jwk ← orNip98 "DPoP jwk parse failed: " (lib.jwkOfValue jwkVal)
  let jkt ← jwk.thumbprint lib
  let alg := header.alg
  if !algPermitted alg jwk.kty then
    throw (.nip98 ("DPoP alg " ++ alg.debug ++ " is not permitted (RFC 9449 §5: " ++
      "ES256/ES384/RS256/RS384/RS512/PS256/PS384/PS512/EdDSA only; HS* symmetric " ++
      "algs are rejected — alg-confusion mitigation)"))
  let jwtJwk ← orNip98 "DPoP jwk → jsonwebtoken parse failed: " (lib.libJwkOfValue jwkVal)
  let key ← orNip98 "DPoP jwk → DecodingKey failed: " (lib.decodingKey jwtJwk)
  let claims ← orNip98 "DPoP proof signature verification failed: " (lib.decode proof key alg)
  return (jkt, claims)

/-- The issue time of the proof is `skew` seconds or less away. -/
def InTolerance (now skew iat : Nat) : Prop := now - iat ≤ skew ∧ iat - now ≤ skew

instance (now skew iat : Nat) : Decidable (InTolerance now skew iat) :=
  inferInstanceAs (Decidable (_ ∧ _))

def checkAth (expectedAth : Option Str) (ath : Option Str) : Except PodError Unit :=
  match expectedAth with
  | none => .ok ()
  | some want =>
    match ath with
    | none => .error (.nip98 "DPoP proof missing ath but access token present")
    | some got =>
      if constantTimeEq (Str.utf8 got) (Str.utf8 want) then .ok ()
      else .error (.nip98 "DPoP ath does not match access-token hash")

def verifyDpopProofCore (lib : JsonWebToken) (proof expectedHtu expectedHtm : Str) (now skew : Nat)
    (expectedAth : Option Str) : Except PodError DpopVerified :=
  match decodeProof lib proof with
  | .error e => .error e
  | .ok (jkt, claims) =>
    if lib.toUppercase claims.htm ≠ lib.toUppercase expectedHtm then
      .error (.nip98 ("DPoP htm mismatch: " ++ claims.htm ++ " vs " ++ expectedHtm))
    else if normaliseHtu claims.htu ≠ normaliseHtu expectedHtu then
      .error (.nip98 ("DPoP htu mismatch: " ++ claims.htu ++ " vs " ++ expectedHtu))
    else if now - claims.iat > skew ∨ claims.iat - now > skew then
      .error (.nip98 "DPoP iat outside tolerance")
    else do
      checkAth expectedAth claims.ath
      return ⟨jkt, claims.htm, claims.htu, claims.iat, claims.jti, claims.ath⟩

theorem foldl_diff_eq_zero_iff (ps : List (UInt8 × UInt8)) (diff : UInt8) :
    ps.foldl (fun diff (x, y) => diff ||| (x ^^^ y)) diff = 0 ↔
      diff = 0 ∧ ∀ p ∈ ps, p.1 = p.2 := by
  induction ps generalizing diff with
  | nil => simp
  | cons p ps ih => rw [List.foldl_cons, ih, UInt8.or_eq_zero_iff, UInt8.xor_eq_zero_iff,
      List.forall_mem_cons, and_assoc]

theorem constantTimeEq_iff {a b : Bytes} : constantTimeEq a b = true ↔ a = b := by
  rw [constantTimeEq]
  by_cases hlen : a.length = b.length
  · rw [if_neg (not_not_intro hlen), beq_iff_eq, foldl_diff_eq_zero_iff]
    constructor
    · rintro ⟨-, hall⟩
      exact List.ext_getElem hlen fun i ha hb =>
        hall (a[i], b[i]) (List.mem_iff_getElem.mpr ⟨i, by simp [ha, hb], by simp⟩)
    · rintro rfl
      refine ⟨rfl, ?_⟩
      rintro ⟨x, y⟩ hmem
      have hboth : y ∈ a ∧ y = x := by simpa [List.zip_eq_zipWith] using hmem
      exact hboth.2.symm
  · rw [if_pos hlen]
    constructor
    · intro h
      cases h
    · intro h
      exact absurd (congrArg List.length h) hlen

theorem verifyDpopProofCore_eq_ok_iff {lib : JsonWebToken} {proof htu htm : Str} {now skew : Nat}
    {ath : Option Str} {v : DpopVerified} :
    verifyDpopProofCore lib proof htu htm now skew ath = .ok v ↔
      decodeProof lib proof = .ok (v.jkt, ⟨v.htu, v.htm, v.iat, v.jti, v.ath⟩) ∧
        lib.toUppercase v.htm = lib.toUppercase htm ∧ normaliseHtu v.htu = normaliseHtu htu ∧
        InTolerance now skew v.iat ∧ checkAth ath v.ath = .ok () := by
  rw [verifyDpopProofCore]
  cases decodeProof lib proof with
  | error e => simp
  | ok decoded =>
      obtain ⟨jkt, claims⟩ := decoded
      have hath : (do
          checkAth ath claims.ath
          return ⟨jkt, claims.htm, claims.htu, claims.iat, claims.jti, claims.ath⟩) =
            Except.ok v ↔ checkAth ath claims.ath = .ok () ∧
              v = ⟨jkt, claims.htm, claims.htu, claims.iat, claims.jti, claims.ath⟩ := by
        cases checkAth ath claims.ath with
        | error e => simp [bind, Except.bind]
        | ok u => simp [bind, Except.bind, pure, Except.pure, eq_comm]
      simp only [Fallible.guard_eq_ok_iff, hath, not_not, not_or, not_lt, gt_iff_lt]
      constructor
      · rintro ⟨hhtm, hhtu, hiat, hcheck, rfl⟩
        exact ⟨rfl, hhtm, hhtu, hiat, hcheck⟩
      · rintro ⟨heq, hhtm, hhtu, hiat, hcheck⟩
        cases heq
        exact ⟨hhtm, hhtu, hiat, hcheck, rfl⟩

/-- The time of day matters for the tolerance only. -/
theorem verifyDpopProofCore_of_inTolerance {lib : JsonWebToken} {proof htu htm : Str}
    {now later skew : Nat} {ath : Option Str} {v : DpopVerified}
    (hok : verifyDpopProofCore lib proof htu htm now skew ath = .ok v)
    (hlater : InTolerance later skew v.iat) :
    verifyDpopProofCore lib proof htu htm later skew ath = .ok v := by
  rw [verifyDpopProofCore_eq_ok_iff] at hok ⊢
  obtain ⟨hdecode, hhtm, hhtu, -, hath⟩ := hok
  exact ⟨hdecode, hhtm, hhtu, hlater, hath⟩

/-- The replay cache, if there is one, and the counter of replays. -/
structure ReplayState (L : Type*) where
  replayCache : Option (DpopReplayCache L)
  rejectedTotal : UInt64

section Verify

variable {L : Type*} [LruCache L Str Nat]

/-- The clock of the cache shows `instant`. -/
def verifyDpopProofWithAth (lib : JsonWebToken) (proof expectedHtu expectedHtm : Str)
    (now skew : Nat) (expectedAth : Option Str) (instant : Nat) (s : ReplayState L) :
    Except PodError DpopVerified × ReplayState L :=
  match verifyDpopProofCore lib proof expectedHtu expectedHtm now skew expectedAth with
  | .error e => (.error e, s)
  | .ok verified =>
    match s.replayCache with
    | none => (.ok verified, s)
    | some cache =>
      match cache.checkAndRecord instant verified.jti with
      | (.ok (), cache) => (.ok verified, { s with replayCache := some cache })
      | (.error e, cache) =>
        (.error (.nip98 ("DPoP jti replay detected: " ++ e.display)),
          { s with replayCache := some cache, rejectedTotal := s.rejectedTotal + 1 })

def verifyDpopProof (lib : JsonWebToken) (proof expectedHtu expectedHtm : Str) (now skew : Nat)
    (instant : Nat) (s : ReplayState L) : Except PodError DpopVerified × ReplayState L :=
  verifyDpopProofWithAth lib proof expectedHtu expectedHtm now skew none instant s

theorem verifyDpopProofWithAth_of_error {lib : JsonWebToken} {proof htu htm : Str}
    {now skew instant : Nat} {ath : Option Str} {s : ReplayState L} {e : PodError}
    (h : verifyDpopProofCore lib proof htu htm now skew ath = .error e) :
    verifyDpopProofWithAth lib proof htu htm now skew ath instant s = (.error e, s) := by
  rw [verifyDpopProofWithAth, h]

theorem verifyDpopProofWithAth_of_no_cache {lib : JsonWebToken} {proof htu htm : Str}
    {now skew instant : Nat} {ath : Option Str} {s : ReplayState L} {v : DpopVerified}
    (h : verifyDpopProofCore lib proof htu htm now skew ath = .ok v)
    (hcache : s.replayCache = none) :
    verifyDpopProofWithAth lib proof htu htm now skew ath instant s = (.ok v, s) := by
  rw [verifyDpopProofWithAth, h]
  simp only [hcache]

theorem verifyDpopProofWithAth_of_remembers {lib : JsonWebToken} {proof htu htm : Str}
    {now skew instant : Nat} {ath : Option Str} {s : ReplayState L} {v : DpopVerified}
    {cache : DpopReplayCache L}
    (h : verifyDpopProofCore lib proof htu htm now skew ath = .ok v)
    (hcache : s.replayCache = some cache) (hseen : cache.Remembers instant v.jti) :
    verifyDpopProofWithAth lib proof htu htm now skew ath instant s =
      (.error (.nip98 ("DPoP jti replay detected: " ++
        (ReplayError.replayed cache.ttl).display)),
        { s with rejectedTotal := s.rejectedTotal + 1 }) := by
  rw [verifyDpopProofWithAth, h]
  simp only [hcache, DpopReplayCache.checkAndRecord_of_remembers hseen]

theorem verifyDpopProofWithAth_of_not_remembers {lib : JsonWebToken} {proof htu htm : Str}
    {now skew instant : Nat} {ath : Option Str} {s : ReplayState L} {v : DpopVerified}
    {cache : DpopReplayCache L}
    (h : verifyDpopProofCore lib proof htu htm now skew ath = .ok v)
    (hcache : s.replayCache = some cache) (hseen : ¬ cache.Remembers instant v.jti) :
    verifyDpopProofWithAth lib proof htu htm now skew ath instant s =
      (.ok v, { s with
        replayCache := some { cache with
          entries := LruCache.put cache.entries v.jti instant } }) := by
  rw [verifyDpopProofWithAth, h]
  simp only [hcache, DpopReplayCache.checkAndRecord_of_not_remembers hseen]

theorem verifyDpopProofWithAth_eq_ok_iff {lib : JsonWebToken} {proof htu htm : Str}
    {now skew instant : Nat} {ath : Option Str} {s : ReplayState L} {w : DpopVerified} :
    (verifyDpopProofWithAth lib proof htu htm now skew ath instant s).1 = .ok w ↔
      verifyDpopProofCore lib proof htu htm now skew ath = .ok w ∧
        ∀ cache, s.replayCache = some cache → ¬ cache.Remembers instant w.jti := by
  cases hcore : verifyDpopProofCore lib proof htu htm now skew ath with
  | error e => simp [verifyDpopProofWithAth_of_error hcore]
  | ok v =>
      cases hcache : s.replayCache with
      | none => simp [verifyDpopProofWithAth_of_no_cache hcore hcache]
      | some cache =>
          by_cases hseen : cache.Remembers instant v.jti
          · rw [verifyDpopProofWithAth_of_remembers hcore hcache hseen]
            constructor
            · intro h
              cases h
            · rintro ⟨hv, hall⟩
              cases hv
              exact absurd hseen (hall cache rfl)
          · rw [verifyDpopProofWithAth_of_not_remembers hcore hcache hseen]
            constructor
            · intro h
              cases h
              refine ⟨rfl, fun cache' hcache' => ?_⟩
              cases hcache'
              exact hseen
            · exact And.left

end Verify

end Oidc

end SolidPod
