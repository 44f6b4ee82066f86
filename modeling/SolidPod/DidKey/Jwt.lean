import SolidPod.ActivityPub.HttpSig
import SolidPod.Error
import SolidPod.Foundation.Fallible
import SolidPod.Foundation.Numerals
import SolidPod.Foundation.Utf8
import SolidPod.Ldp.Patch

/-!
# Self-signed tokens

A compact token that is signed by the `did:key` its header names.
`verifySelfSignedJwt` reads the three segments, finds the key, checks that the
algorithm is the one of the key, the signature, and then the claims against the
request. Base64, JSON, multibase, varints and the three signature schemes are
the libraries', so they are the parameters of `DidKeyLibrary`.
-/

namespace SolidPod

open Foundation Str Fallible

namespace DidKey

inductive DidKeyError where
  | notDidKey (did : Str)
  | invalidMultibase (msg : Str)
  | unknownCodec (code : UInt64)
  | invalidKeyLength (codec : Str) (expected actual : Nat)
  | malformedJwt (msg : Str)
  | invalidHeader (msg : Str)
  | invalidClaims (msg : Str)
  | badSignature (msg : Str)
  | keyParse (msg : Str)
  deriving DecidableEq

/-- A number as `{:04x}` writes it. -/
def hex04 (n : Nat) : Str :=
  let digits := Nat.toDigits 16 n
  List.replicate (4 - digits.length) '0' ++ digits

def DidKeyError.display : DidKeyError → Str
  | .notDidKey did => "not a did:key identifier: " ++ did
  | .invalidMultibase m => "invalid multibase encoding: " ++ m
  | .unknownCodec code => "unknown multicodec codec 0x" ++ hex04 code.toNat
  | .invalidKeyLength codec expected actual =>
    "invalid key length for " ++ codec ++ ": expected " ++ decimal expected ++ ", got " ++
      decimal actual
  | .malformedJwt m => "malformed JWT: " ++ m
  | .invalidHeader m => "invalid JWT header: " ++ m
  | .invalidClaims m => "invalid JWT claims: " ++ m
  | .badSignature m => "signature verification failed: " ++ m
  | .keyParse m => "key material parse error: " ++ m

/-! ## Keys -/

def codecEd25519 : UInt64 := 0xed

def codecSecp256k1 : UInt64 := 0xe7

def codecP256 : UInt64 := 0x1200

def ed25519Len : Nat := 32

def sec1CompressedLen : Nat := 33

inductive DidKeyPubkey where
  | ed25519 (bytes : { b : Bytes // b.length = ed25519Len })
  | p256 (sec1 : Bytes)
  | secp256k1 (sec1 : Bytes)
  deriving DecidableEq

namespace DidKeyPubkey

def codecName : DidKeyPubkey → Str
  | .ed25519 _ => "ed25519"
  | .p256 _ => "p-256"
  | .secp256k1 _ => "secp256k1"

def codecCode : DidKeyPubkey → UInt64
  | .ed25519 _ => codecEd25519
  | .p256 _ => codecP256
  | .secp256k1 _ => codecSecp256k1

/-- The algorithm of the tokens that the key signs. -/
def jwsAlg : DidKeyPubkey → Str
  | .ed25519 _ => "EdDSA"
  | .p256 _ => "ES256"
  | .secp256k1 _ => "ES256K"

def asBytes : DidKeyPubkey → Bytes
  | .ed25519 bytes => bytes.1
  | .p256 sec1 => sec1
  | .secp256k1 sec1 => sec1

end DidKeyPubkey

/-! ## Tokens -/

structure JwkLite where
  kty : Str
  crv : Option Str
  x : Option Str
  y : Option Str

structure JwtHeader where
  alg : Str
  kid : Option Str
  jwk : Option JwkLite

structure JwtClaims where
  htm : Str
  htu : Str
  iat : UInt64
  exp : Option UInt64
  sub : Option Str
  deriving DecidableEq

structure VerifiedJwt where
  did : Str
  verificationMethod : Str
  htm : Str
  htu : Str
  iat : UInt64
  exp : Option UInt64
  sub : Option Str
  deriving DecidableEq

/-- A base of the multibase library, by its `Debug` text. -/
inductive Base where
  | base58Btc
  | other (debug : Str)
  deriving DecidableEq

/-- A curve of the ECDSA libraries. -/
structure Curve where
  VerifyingKey : Type
  Signature : Type
  verifyingKey : Bytes → Except Str VerifyingKey
  signature : Bytes → Except Str Signature
  verify : VerifyingKey → Bytes → Signature → Except Str Unit

/-- What is asked of the libraries. An error is given by its text. -/
structure DidKeyLibrary where
  base64Url : Str → Except Str Bytes
  headerFromSlice : Bytes → Except Str JwtHeader
  claimsFromSlice : Bytes → Except Str JwtClaims
  multibaseDecode : Str → Except Str (Base × Bytes)
  /-- The base58btc form, with the `z` in front. -/
  multibaseEncode : Bytes → Str
  varintDecode : Bytes → Except Str (UInt64 × Bytes)
  varintEncode : UInt64 → Bytes
  Ed25519Key : Type
  ed25519Key : Bytes → Except Str Ed25519Key
  /-- Every 64 octets are a signature, which may then be wrong. -/
  ed25519Verify : Ed25519Key → Bytes → Bytes → Except Str Unit
  p256 : Curve
  k256 : Curve
  printable : Char → Bool

/-- An error of a library, as an error of this crate. -/
def orElse {α : Type} (wrap : Str → DidKeyError) : Except Str α → Except DidKeyError α
  | .ok a => .ok a
  | .error e => .error (wrap e)

section Library

variable (lib : DidKeyLibrary)

def DidKeyPubkey.toMulticodecBytes (pubkey : DidKeyPubkey) : Bytes :=
  lib.varintEncode pubkey.codecCode ++ pubkey.asBytes

def DidKeyPubkey.fromMulticodecBytes (bytes : Bytes) : Except DidKeyError DidKeyPubkey :=
  match lib.varintDecode bytes with
  | .error e => .error (.invalidMultibase ("varint: " ++ e))
  | .ok (code, rest) =>
    if code = codecEd25519 then
      if h : rest.length = ed25519Len then .ok (.ed25519 ⟨rest, h⟩)
      else .error (.invalidKeyLength "ed25519" ed25519Len rest.length)
    else if code = codecP256 then
      if rest.length ≠ sec1CompressedLen then
        .error (.invalidKeyLength "p-256" sec1CompressedLen rest.length)
      else .ok (.p256 rest)
    else if code = codecSecp256k1 then
      if rest.length ≠ sec1CompressedLen then
        .error (.invalidKeyLength "secp256k1" sec1CompressedLen rest.length)
      else .ok (.secp256k1 rest)
    else .error (.unknownCodec code)

def didKeyPrefix : Str := "did:key:"

def encode (pubkey : DidKeyPubkey) : Str :=
  didKeyPrefix ++ lib.multibaseEncode (pubkey.toMulticodecBytes lib)

def decode (did : Str) : Except DidKeyError DidKeyPubkey :=
  match stripPrefix didKeyPrefix did with
  | none => .error (.notDidKey did)
  | some stripped =>
    let body := (stripped.splitOn '#').headD stripped
    if body.head? ≠ some 'z' then
      .error (.invalidMultibase ("did:key requires base58btc 'z' prefix, got '" ++
        [body.headD ' '] ++ "'"))
    else
      match lib.multibaseDecode body with
      | .error e => .error (.invalidMultibase ("decode: " ++ e))
      | .ok (.other debug, _) =>
        .error (.invalidMultibase ("did:key multibase must be base58btc, got " ++ debug))
      | .ok (.base58Btc, bytes) => DidKeyPubkey.fromMulticodecBytes lib bytes

/-- The sign of a compressed point is the parity of its `y`. -/
def compressed (x y : Bytes) : Bytes :=
  (if (y.getD 31 0) &&& 1 = 0 then 0x02 else 0x03) :: x

def jwkToPubkey (jwk : JwkLite) : Except DidKeyError DidKeyPubkey :=
  if jwk.kty = "OKP" then
    if jwk.crv ≠ some ("Ed25519" : Str) then
      .error (.invalidHeader ("OKP jwk crv unsupported: " ++
        Ldp.debugOption lib.printable jwk.crv))
    else
      match jwk.x with
      | none => .error (.invalidHeader "OKP jwk missing x")
      | some x => do
        let bytes ← orElse (fun e => .invalidHeader ("OKP x base64: " ++ e)) (lib.base64Url x)
        if h : bytes.length = ed25519Len then .ok (.ed25519 ⟨bytes, h⟩)
        else .error (.invalidKeyLength "ed25519" 32 bytes.length)
  else if jwk.kty = "EC" then
    match jwk.crv, jwk.x, jwk.y with
    | none, _, _ => .error (.invalidHeader "EC jwk missing crv")
    | _, none, _ => .error (.invalidHeader "EC jwk missing x")
    | _, _, none => .error (.invalidHeader "EC jwk missing y")
    | some crv, some x, some y => do
      let xBytes ← orElse (fun e => .invalidHeader ("EC x base64: " ++ e)) (lib.base64Url x)
      let yBytes ← orElse (fun e => .invalidHeader ("EC y base64: " ++ e)) (lib.base64Url y)
      if xBytes.length ≠ 32 ∨ yBytes.length ≠ 32 then
        .error (.invalidHeader ("EC x/y must be 32 bytes each, got " ++ decimal xBytes.length ++
          "/" ++ decimal yBytes.length))
      else if crv = "P-256" then .ok (.p256 (compressed xBytes yBytes))
      else if crv = "secp256k1" then .ok (.secp256k1 (compressed xBytes yBytes))
      else .error (.invalidHeader ("EC jwk crv unsupported: " ++ crv))
  else .error (.invalidHeader ("jwk kty unsupported: " ++ jwk.kty))

/-- The key of a header and the verification method it is known by; `kid` goes
first. -/
def resolveKey (header : JwtHeader) : Except DidKeyError (DidKeyPubkey × Str) :=
  match header.kid, header.jwk with
  | some kid, _ => (decode lib kid).map fun pk => (pk, kid)
  | none, some jwk => (jwkToPubkey lib jwk).map fun pk => (pk, encode lib pk)
  | none, none => .error (.invalidHeader "neither kid nor jwk present")

/-- An ECDSA signature is parsed after the key. -/
def verifyEcdsa (curve : Curve) (keyName alg : Str) (sec1 msg sig : Bytes) :
    Except DidKeyError Unit := do
  let vk ← orElse (fun e => .keyParse (keyName ++ " pubkey: " ++ e)) (curve.verifyingKey sec1)
  if sig.length ≠ 64 then
    .error (.badSignature (alg ++ " sig len " ++ decimal sig.length ++ " (expected 64)"))
  else
    let s ← orElse (fun e => .badSignature (alg ++ " sig parse: " ++ e)) (curve.signature sig)
    orElse (fun e => .badSignature (alg ++ ": " ++ e)) (curve.verify vk msg s)

def verifySignature (pubkey : DidKeyPubkey) (msg sig : Bytes) : Except DidKeyError Unit :=
  match pubkey with
  | .ed25519 bytes =>
    if sig.length ≠ 64 then
      .error (.badSignature ("ed25519 sig len " ++ decimal sig.length ++ " (expected 64)"))
    else do
      let vk ← orElse (fun e => .keyParse ("ed25519 pubkey: " ++ e))
        (lib.ed25519Key bytes.1)
      orElse (fun e => .badSignature ("ed25519: " ++ e)) (lib.ed25519Verify vk msg sig)
  | .p256 sec1 => verifyEcdsa lib.p256 "p256" "ES256" sec1 msg sig
  | .secp256k1 sec1 => verifyEcdsa lib.k256 "secp256k1" "ES256K" sec1 msg sig

/-- The three segments of a compact token. -/
def segments (jwt : Str) : Except DidKeyError (Str × Str × Str) :=
  match jwt.splitOn '.' with
  | [] => .error (.malformedJwt "missing header")
  | [_] => .error (.malformedJwt "missing payload")
  | [_, _] => .error (.malformedJwt "missing signature")
  | [header, payload, sig] => .ok (header, payload, sig)
  | _ => .error (.malformedJwt "compact JWS has exactly three segments")

/-- The signed part of a token: its key, its verification method and its claims. -/
def decodeJwt (jwt : Str) : Except DidKeyError (DidKeyPubkey × Str × JwtClaims) := do
  let (hdrB64, payloadB64, sigB64) ← segments jwt
  let headerBytes ← orElse (fun e => .malformedJwt ("header base64: " ++ e)) (lib.base64Url hdrB64)
  let payloadBytes ←
    orElse (fun e => .malformedJwt ("payload base64: " ++ e)) (lib.base64Url payloadB64)
  let sigBytes ←
    orElse (fun e => .malformedJwt ("signature base64: " ++ e)) (lib.base64Url sigB64)
  let header ←
    orElse (fun e => .invalidHeader ("header json: " ++ e)) (lib.headerFromSlice headerBytes)
  let claims ←
    orElse (fun e => .invalidClaims ("claims json: " ++ e)) (lib.claimsFromSlice payloadBytes)
  let (pubkey, verificationMethod) ← resolveKey lib header
  if header.alg ≠ pubkey.jwsAlg then
    .error (.invalidHeader ("alg `" ++ header.alg ++ "` does not match " ++ pubkey.codecName ++
      " did:key (expected `" ++ pubkey.jwsAlg ++ "`)"))
  else
    verifySignature lib pubkey (utf8 hdrB64 ++ utf8 ['.'] ++ utf8 payloadB64) sigBytes
    return (pubkey, verificationMethod, claims)

def htuEq (a b : Str) : Bool :=
  toAsciiLowercase (trimEndMatches '/' a) = toAsciiLowercase (trimEndMatches '/' b)

/-- The check of the expiry, `none` for a panic. -/
def checkExp (overflowChecks : Bool) (exp : Option UInt64) (now skew : UInt64) :
    Option (Except DidKeyError Unit) :=
  match exp with
  | none => some (.ok ())
  | some exp => (addU64 overflowChecks exp skew).map fun latest =>
      if latest < now then
        .error (.invalidClaims ("exp=" ++ decimal exp.toNat ++ " before now=" ++
          decimal now.toNat ++ " (skew=" ++ decimal skew.toNat ++ "s)"))
      else .ok ()

/-- The checks of the claims against the request. -/
def checkClaims (claims : JwtClaims) (expectedHtu expectedHtm : Str) (now skew : UInt64) :
    Except DidKeyError Unit :=
  if ¬ ActivityPub.eqIgnoreAsciiCase claims.htm expectedHtm then
    .error (.invalidClaims ("htm mismatch: got " ++ claims.htm ++ ", expected " ++ expectedHtm))
  else if !htuEq claims.htu expectedHtu then
    .error (.invalidClaims ("htu mismatch: got " ++ claims.htu ++ ", expected " ++ expectedHtu))
  else if now.toNat - claims.iat.toNat > skew.toNat ∨ claims.iat.toNat - now.toNat > skew.toNat then
    .error (.invalidClaims ("iat=" ++ decimal claims.iat.toNat ++ " outside skew=" ++
      decimal skew.toNat ++ "s from now=" ++ decimal now.toNat))
  else .ok ()

/-- The answer is `none` for a panic. -/
def verifySelfSignedJwt (overflowChecks : Bool) (jwt expectedHtu expectedHtm : Str)
    (now skew : UInt64) : Option (Except DidKeyError VerifiedJwt) :=
  match decodeJwt lib jwt with
  | .error e => some (.error e)
  | .ok (pubkey, verificationMethod, claims) =>
    match checkClaims claims expectedHtu expectedHtm now skew with
    | .error e => some (.error e)
    | .ok () => (checkExp overflowChecks claims.exp now skew).map fun checked =>
        checked.map fun _ => ⟨encode lib pubkey, verificationMethod, claims.htm, claims.htu,
          claims.iat, claims.exp, claims.sub⟩

end Library

theorem htuEq_iff {a b : Str} : htuEq a b = true ↔ toAsciiLowercase (trimEndMatches '/' a) =
    toAsciiLowercase (trimEndMatches '/' b) :=
  decide_eq_true_iff

theorem checkClaims_eq_ok_iff {claims : JwtClaims} {htu htm : Str} {now skew : UInt64} :
    checkClaims claims htu htm now skew = .ok () ↔
      ActivityPub.eqIgnoreAsciiCase claims.htm htm ∧
        toAsciiLowercase (trimEndMatches '/' claims.htu) =
          toAsciiLowercase (trimEndMatches '/' htu) ∧
        now.toNat - claims.iat.toNat ≤ skew.toNat ∧ claims.iat.toNat - now.toNat ≤ skew.toNat := by
  simp only [checkClaims, guard_eq_ok_iff, not_not, not_or, gt_iff_lt, not_lt, and_true,
    Bool.not_eq_true', Bool.not_eq_false, htuEq_iff]

/-- An accepted token is a signed one whose claims pass the checks. -/
theorem verifySelfSignedJwt_eq_ok_iff {lib : DidKeyLibrary} {overflowChecks : Bool}
    {jwt htu htm : Str} {now skew : UInt64} {w : VerifiedJwt} :
    verifySelfSignedJwt lib overflowChecks jwt htu htm now skew = some (.ok w) ↔
      ∃ pubkey, decodeJwt lib jwt =
          .ok (pubkey, w.verificationMethod, ⟨w.htm, w.htu, w.iat, w.exp, w.sub⟩) ∧
        w.did = encode lib pubkey ∧
          checkClaims ⟨w.htm, w.htu, w.iat, w.exp, w.sub⟩ htu htm now skew = .ok () ∧
            checkExp overflowChecks w.exp now skew = some (.ok ()) := by
  rw [verifySelfSignedJwt]
  cases hdecode : decodeJwt lib jwt with
  | error e => simp
  | ok decoded =>
      obtain ⟨pubkey, vm, claims⟩ := decoded
      constructor
      · intro h
        cases hclaims : checkClaims claims htu htm now skew with
        | error e =>
            simp only [hclaims] at h
            cases h
        | ok u =>
            simp only [hclaims] at h
            obtain ⟨checked, hexp, hmap⟩ := Option.map_eq_some_iff.mp h
            obtain ⟨u', rfl, rfl⟩ := map_eq_ok_iff.mp hmap
            exact ⟨pubkey, rfl, rfl, hclaims, hexp⟩
      · rintro ⟨pubkey', heq, hdid, hclaims, hexp⟩
        cases heq
        simp only [hclaims, hexp, ← hdid, Option.map_some, Except.map]

end DidKey

end SolidPod
