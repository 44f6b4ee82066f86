import SolidPod.Foundation.Encodings

/-!
# HTTP signatures

A `Signature` header names a key and the headers that it covers, and carries an
RSA signature of their lines. A request is verified by rebuilding these lines,
and a request to another server is signed over a fixed list of them. The URL and
the RSA library and SHA-256 are parameters.
-/

namespace SolidPod

open Foundation

open Str (utf8 toAsciiLowercase)

namespace ActivityPub

inductive SigError where
  | missingHeader (name : Str)
  | malformedSignature (msg : Str)
  | missingKeyId
  | unsupportedAlgorithm (algorithm : Str)
  | digestMismatch
  | actorFetch (url msg : Str)
  | noPublicKey
  | verifyFailed (msg : Str)
  | base64 (msg : Str)
  | rsa (msg : Str)
  | url (msg : Str)
  deriving DecidableEq

structure Url where
  host : Option Str
  path : Str
  query : Option Str

/-- What signing and verifying take from other libraries. -/
structure SigLibrary where
  sha256 : Bytes → Bytes
  parseUrl : Str → Except Str Url
  /-- What the decoder says about a text that is not base64. -/
  base64Error : Str → Str
  PrivateKey : Type
  PublicKey : Type
  RsaSignature : Type
  fromPkcs8Pem : Str → Except Str PrivateKey
  sign : PrivateKey → Bytes → Bytes
  fromPublicKeyPem : Str → Except Str PublicKey
  signatureFromBytes : Bytes → Except Str RsaSignature
  verify : PublicKey → Bytes → RsaSignature → Except Str Unit

/-- A request as it arrives, its headers by their names in lower case. -/
structure SignedRequest where
  method : Str
  path : Str
  headers : List (Str × Str)
  body : Bytes

def SignedRequest.get (req : SignedRequest) (name : Str) : Option Str := req.headers.lookup name

structure OutboundRequest where
  method : Str
  url : Str
  headers : List (Str × Str)
  body : Bytes

/-- The actor whose key a request was signed with. -/
structure VerifiedActor where
  keyId : Str
  actorUrl : Str
  publicKeyPem : Str

/-! ## The signature header -/

structure SignatureHeader where
  keyId : Str
  algorithm : Str
  headers : List Str
  signatureB64 : Str
  deriving DecidableEq

def isAsciiWhitespace (c : Char) : Bool :=
  c == ' ' || c == '\t' || c == '\n' || c == '\x0c' || c == '\r'

def splitAsciiWhitespace (s : Str) : List Str :=
  (s.splitOnP isAsciiWhitespace).filter fun w => !w.isEmpty

/-- Where the attribute parser is. -/
structure AttrState where
  attrs : List (Str × Str)
  curKey : Str
  curVal : Str
  inVal : Bool
  inQuote : Bool
  expectingEq : Bool

def AttrState.start : AttrState := ⟨[], [], [], false, false, false⟩

/-- The attribute that was read is complete. -/
def AttrState.push (s : AttrState) : AttrState :=
  { s with attrs := s.attrs ++ [(toAsciiLowercase s.curKey, s.curVal)], curKey := [], curVal := [] }

def AttrState.step (s : AttrState) (ch : Char) : AttrState :=
  if !s.inVal then
    if ch = '=' then { s with inVal := true, expectingEq := false }
    else if (ch = ',' ∨ ch = ' ' ∨ ch = '\t') ∧ s.curKey.isEmpty then s
    else if isAsciiWhitespace ch then { s with expectingEq := true }
    else { s with curKey := s.curKey ++ [ch], expectingEq := false }
  else if ch = '"' then
    if s.inQuote then { s.push with inQuote := false, inVal := false }
    else { s with inQuote := true }
  else if ch = ',' ∧ ¬ s.inQuote then
    if !s.curKey.isEmpty then { s.push with inVal := false } else { s with inVal := false }
  else if s.inQuote ∨ ¬ isAsciiWhitespace ch then { s with curVal := s.curVal ++ [ch] }
  else s

def AttrState.finish (s : AttrState) : List (Str × Str) :=
  if !s.curKey.isEmpty && (s.inVal || !s.curVal.isEmpty) then s.push.attrs else s.attrs

/-- A later attribute overwrites an earlier one. -/
def SignatureHeader.assign (out : SignatureHeader) (attr : Str × Str) : SignatureHeader :=
  if attr.1 = "keyid" then { out with keyId := attr.2 }
  else if attr.1 = "algorithm" then { out with algorithm := toAsciiLowercase attr.2 }
  else if attr.1 = "headers" then
    { out with headers := (splitAsciiWhitespace attr.2).map toAsciiLowercase }
  else if attr.1 = "signature" then { out with signatureB64 := attr.2 }
  else out

def parseSignatureHeader (raw : Str) : Except SigError SignatureHeader :=
  let out := (raw.foldl AttrState.step .start).finish.foldl SignatureHeader.assign ⟨[], [], [], []⟩
  if out.keyId.isEmpty then .error .missingKeyId
  else if out.signatureB64.isEmpty then .error (.malformedSignature "missing signature= value")
  else .ok { out with
    algorithm := if out.algorithm.isEmpty then "rsa-sha256" else out.algorithm
    headers := if out.headers.isEmpty then ["date"] else out.headers }

/-! ## Verifying a request -/

def coveredLine (req : SignedRequest) (h : Str) : Except SigError Str :=
  if h = "(request-target)" then
    .ok ("(request-target): " ++ toAsciiLowercase req.method ++ " " ++ req.path)
  else
    match req.get h with
    | none => .error (.verifyFailed ("missing covered header: " ++ h))
    | some v => .ok (h ++ ": " ++ v)

def buildSignatureBase (req : SignedRequest) (headerList : List Str) : Except SigError Str :=
  (headerList.mapM (coveredLine req)).map (Str.join ['\n'])

def digestHeader (lib : SigLibrary) (body : Bytes) : Str :=
  "SHA-256=" ++ Base64.encode (lib.sha256 body)

def rfc9530Digest (lib : SigLibrary) (body : Bytes) : Str :=
  "sha-256=:" ++ Base64.encode (lib.sha256 body) ++ ":"

def eqIgnoreAsciiCase (a b : Str) : Prop := toAsciiLowercase a = toAsciiLowercase b

instance (a b : Str) : Decidable (eqIgnoreAsciiCase a b) :=
  inferInstanceAs (Decidable (toAsciiLowercase a = toAsciiLowercase b))

/-- The digest of the body is checked if it is covered. -/
def checkDigest (lib : SigLibrary) (req : SignedRequest) (covered : List Str) :
    Except SigError Unit :=
  if "digest".toList ∈ covered then
    match req.get "digest" with
    | none => .error (.missingHeader "digest")
    | some received =>
      if received ≠ digestHeader lib req.body ∧
          ¬ eqIgnoreAsciiCase received (digestHeader lib req.body) ∧
          received ≠ rfc9530Digest lib req.body then
        .error .digestMismatch
      else .ok ()
  else .ok ()

def verifyRequestSignature (lib : SigLibrary) (resolve : Str → Except SigError VerifiedActor)
    (req : SignedRequest) : Except SigError VerifiedActor := do
  let some sigRaw := req.get "signature" | throw (.missingHeader "signature")
  let parsed ← parseSignatureHeader sigRaw
  if parsed.algorithm ≠ "rsa-sha256" ∧ parsed.algorithm ≠ "hs2019" then
    throw (.unsupportedAlgorithm parsed.algorithm)
  checkDigest lib req parsed.headers
  let actor ← resolve parsed.keyId
  let pubKey ← (lib.fromPublicKeyPem actor.publicKeyPem).mapError SigError.rsa
  let base ← buildSignatureBase req parsed.headers
  let some sigBytes := Base64.decode parsed.signatureB64
    | throw (.base64 (lib.base64Error parsed.signatureB64))
  let sig ← (lib.signatureFromBytes sigBytes).mapError SigError.malformedSignature
  (lib.verify pubKey (utf8 base) sig).mapError SigError.verifyFailed
  return actor

/-! ## Signing a request -/

def covered : List Str := ["(request-target)", "host", "date", "digest"]

def isSignedName (name : Str) : Bool :=
  toAsciiLowercase name ∈ (["host", "date", "digest", "signature"] : List Str)

/-- The date is the one that the clock shows, as HTTP writes it. -/
def signRequest (lib : SigLibrary) (date privateKeyPem keyId : Str) (req : OutboundRequest) :
    Except SigError OutboundRequest := do
  let url ← (lib.parseUrl req.url).mapError SigError.url
  let some host := url.host | throw (.url "url has no host")
  let path := match url.query with
    | some q => url.path ++ "?" ++ q
    | none => url.path
  let digest := digestHeader lib req.body
  let base := Str.join ['\n'] ["(request-target): " ++ toAsciiLowercase req.method ++ " " ++ path,
    "host: " ++ host, "date: " ++ date, "digest: " ++ digest]
  let sk ← (lib.fromPkcs8Pem privateKeyPem).mapError SigError.rsa
  let sigB64 := Base64.encode (lib.sign sk (utf8 base))
  let signatureHeader := "keyId=\"" ++ keyId ++ "\",algorithm=\"rsa-sha256\",headers=\"" ++
    Str.join " " covered ++ "\",signature=\"" ++ sigB64 ++ "\""
  return { req with headers := req.headers.filter (fun h => !isSignedName h.1) ++
    [("Host".toList, host), ("Date".toList, date), ("Digest".toList, digest),
      ("Signature".toList, signatureHeader)] }

/-- A request is signed exactly when its URL has a host and the key is one. -/
theorem signRequest_ok_iff (lib : SigLibrary) (date privateKeyPem keyId : Str)
    (req : OutboundRequest) :
    (∃ signed, signRequest lib date privateKeyPem keyId req = .ok signed) ↔
      (∃ url host, lib.parseUrl req.url = .ok url ∧ url.host = some host) ∧
        ∃ sk, lib.fromPkcs8Pem privateKeyPem = .ok sk := by
  rw [signRequest]
  cases hurl : lib.parseUrl req.url with
  | error e => simp [Except.mapError, bind, Except.bind]
  | ok url =>
      cases hhost : url.host with
      | none =>
          simp [hhost, Except.mapError, bind, Except.bind, throw, throwThe, MonadExceptOf.throw]
      | some host =>
          cases hkey : lib.fromPkcs8Pem privateKeyPem with
          | error e => simp [hhost, Except.mapError, bind, Except.bind]
          | ok sk => simp [hhost, Except.mapError, bind, Except.bind, pure, Except.pure]

end ActivityPub

end SolidPod
