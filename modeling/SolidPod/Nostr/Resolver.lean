import SolidPod.Foundation.Encodings
import SolidPod.Foundation.Search
import SolidPod.Json
import SolidPod.Security.Ssrf

/-!
# WebIDs and Nostr keys

The resolver reads a key out of a WebID's profile and a WebID out of a key's DID document. The
profile is read as a JSON tree, of itself or in an HTML page, and any member of any object in
it may hold the key; other texts are searched octet by octet. The host of a URL is checked
before it is fetched.
-/

namespace SolidPod

open Foundation Str Http Program Security

namespace Nostr

structure NostrPubkey where
  bytes : Bytes
  length_bytes : bytes.length = 32
  deriving DecidableEq

/-- The reason of a failure is dropped by all who read a key here. -/
def NostrPubkey.fromHex (s : Str) : Option NostrPubkey :=
  if byteLen s ≠ 64 then none
  else
    match Hex.decode s with
    | none => none
    | some bytes => if h : bytes.length = 32 then some ⟨bytes, h⟩ else none

def NostrPubkey.toHex (pk : NostrPubkey) : Str := Hex.encode pk.bytes

def didNostrUri (pk : NostrPubkey) : Str := "did:nostr:" ++ pk.toHex

def wellKnownPath (pk : NostrPubkey) : Str := "/.well-known/did/nostr/" ++ pk.toHex ++ ".json"

inductive ResolverError where
  | invalidUrl (msg : Str)
  | ssrf (msg : Str)
  | http (msg : Str)
  | malformed (msg : Str)
  deriving DecidableEq

def ResolverError.display : ResolverError → Str
  | .invalidUrl m => "invalid url: " ++ m
  | .ssrf m => "ssrf: " ++ m
  | .http m => "http: " ++ m
  | .malformed m => "malformed DID document: " ++ m

/-- The key of a DID. A character outside ASCII is no digit in either case. -/
def parseDidNostr (s : Str) : Option NostrPubkey :=
  (stripPrefix "did:nostr:" (trim s)).bind fun hex => NostrPubkey.fromHex (toAsciiLowercase hex)

mutual

def extractDidNostr : Json → Option NostrPubkey
  | .string s => parseDidNostr s
  | .object m =>
    match Json.member "@id" m with
    | some (.string s) => parseDidNostr s
    | _ => none
  | .array items => extractItems items
  | _ => none

def extractItems : List Json → Option NostrPubkey
  | [] => none
  | item :: rest => (extractDidNostr item).or (extractItems rest)

end

def linkKeys : List Str :=
  ["alsoKnownAs", "sameAs", "owl:sameAs", "schema:sameAs",
    "http://www.w3.org/2002/07/owl#sameAs", "https://schema.org/sameAs"]

/-- The first key that a link of this object leads to. -/
def linkedKey (members : List (Str × Json)) : Option NostrPubkey :=
  linkKeys.findSome? fun k => (Json.member k members).bind extractDidNostr

mutual

def scanJson : Json → Option NostrPubkey
  | .array items => scanItems items
  | .object members => (linkedKey members).or (scanMembers members)
  | _ => none

def scanItems : List Json → Option NostrPubkey
  | [] => none
  | item :: rest => (scanJson item).or (scanItems rest)

def scanMembers : List (Str × Json) → Option NostrPubkey
  | [] => none
  | (_, v) :: rest => (scanJson v).or (scanMembers rest)

end

def isAsciiHexdigit (b : UInt8) : Bool := (Hex.valueAt b.toNat).isSome

def needle : Bytes := utf8 "did:nostr:"

/-- The key whose digits `b` starts with. -/
def hexCandidate (b : Bytes) : Option NostrPubkey :=
  if (b.take 64).all isAsciiHexdigit then
    NostrPubkey.fromHex (toAsciiLowercase (bytesAsChars (b.take 64)))
  else none

/-- The search at an octet, after `skip` more octets. A DID without a key is left behind as a
whole. -/
def scanBytes : (skip : Nat) → Bytes → Option NostrPubkey
  | _, [] => none
  | skip + 1, _ :: rest => scanBytes skip rest
  | 0, b :: rest =>
    if (b :: rest).length < needle.length + 64 then none
    else if needle.isPrefixOf (b :: rest) then
      (hexCandidate ((b :: rest).drop needle.length)).or (scanBytes (needle.length - 1) rest)
    else scanBytes 0 rest

def scanText (body : Str) : Option NostrPubkey := scanBytes 0 (utf8 body)

/-- The text of the first data island. -/
def extractJsonLdIsland (html : Str) : Option Str := do
  let lower := toAsciiLowercase html
  let marker ← find "application/ld+json" lower
  let openEnd ← find ">" (html.drop marker)
  let bodyStart := marker + openEnd + 1
  let close ← find "</script>" (lower.drop bodyStart)
  return (html.drop bodyStart).take close

/-- The tree that a profile is read as. -/
def profileTree (json : Str → Option Json) (body contentType : Str) : Option Json :=
  let direct := if containsStr "json" contentType then json body else none
  direct.or
    (if containsStr "text/html" contentType then (extractJsonLdIsland body).bind json else none)

def extractNostrPubkeyFromProfile (json : Str → Option Json) (body contentType : Str) :
    Option NostrPubkey :=
  match profileTree json body contentType with
  | some v => scanJson v
  | none =>
    if containsStr "text/turtle" contentType || containsStr "ld+json" contentType ||
        contentType.isEmpty then
      scanText body
    else none

/-- The check that a consumer supplies. A host that passes has an address that is permitted,
and the check itself makes no request. -/
structure SsrfCheck where
  Permits : Host → IpAddr → Prop
  verifyHost : Net → Host → Fetch Str Unit
  verified : ∀ net host log, ((verifyHost net host).exec log).1 = .ok () →
    ∃ ip, Permits host ip ∧ ∃ turn, ip ∈ net.answers turn host
  silent : ∀ net host log, ((verifyHost net host).exec log).2.hops = log.hops

/-- The restrictive check, without lists or toggles. -/
def defaultVerifyHost (net : Net) (host : Host) : Fetch Str Unit := do
  let _ ← (resolveAndCheck net host).mapError SsrfError.display
  pure ()

theorem keeps_defaultVerifyHost {I : Log → Prop} (hI : Outbound.Log.TurnFree I) (net : Net)
    (host : Host) :
    Keeps I (defaultVerifyHost net host)
      (fun _ => ∃ ip, PermitsByDefault host ip ∧ ∃ turn, ip ∈ net.answers turn host) := by
  apply Keeps.bind (Keeps.mapError _ (keeps_resolveAndCheck hI host))
  intro ip hip
  exact Keeps.pure ⟨ip, hip⟩

def defaultSsrfCheck : SsrfCheck where
  Permits := PermitsByDefault
  verifyHost := defaultVerifyHost
  verified := by
    intro net host log h
    have hkeeps := keeps_defaultVerifyHost (I := fun _ => True) (fun _ _ h => h) net host
    exact (hkeeps log trivial).2 () h
  silent := by
    intro net host log
    have hkeeps := keeps_defaultVerifyHost (I := fun log' => log'.hops = log.hops)
      (fun _ _ h => h) net host
    exact (hkeeps log rfl).1

structure DidNostrDoc where
  id : Str
  alsoKnownAs : List Str

structure NostrWebIdResolver where
  http : Client
  ssrf : SsrfCheck

def NostrWebIdResolver.withSsrf (ssrf : SsrfCheck) : NostrWebIdResolver where
  http := { overrides := [], redirects := defaultRedirects }
  ssrf := ssrf

/-- The readers of a tree and of a DID document. -/
structure Serde where
  json : Str → Option Json
  didDoc : Bytes → Except Str DidNostrDoc

section Resolve

variable (web : Web) (serde : Serde) (net : Net) (resolver : NostrWebIdResolver)

/-- A URL is fetched after its host was checked; `what` names it in an error. -/
def checkedGet (url what : Str) : Fetch ResolverError Response := do
  let parsed ← ofResult ((web.parse url).mapError .invalidUrl)
  match parsed.host with
  | none => .fail (.invalidUrl "missing host")
  | some host =>
    (resolver.ssrf.verifyHost net host).mapError .ssrf
    let resp ← (send web net .webId host resolver.http parsed.text).mapError fun e =>
      .http (web.showError e)
    rejectIf (resp.isSuccess = false) (.http (what ++ " status " ++ web.showStatus resp.status))
    pure resp

/-- The profile and its content type. -/
def fetchProfile (webid : Str) : Fetch ResolverError (Str × Str) := do
  let resp ← checkedGet web net resolver webid "webid profile"
  let body ← ofResult ((resp.text web).mapError .http)
  pure (body, resp.contentType.getD [])

def resolveWebidToNostr (webid : Str) : Fetch ResolverError (Option NostrPubkey) := do
  let (body, contentType) ← fetchProfile web net resolver webid
  pure (extractNostrPubkeyFromProfile serde.json body contentType)

def resolveNostrToWebid (origin : Str) (pk : NostrPubkey) :
    Fetch ResolverError (Option Str) := do
  let resp ← checkedGet web net resolver (trimEndMatches '/' origin ++ wellKnownPath pk) "DID doc"
  let doc ← ofResult ((resp.json serde.didDoc).mapError .malformed)
  rejectIf (toAsciiLowercase doc.id ≠ toAsciiLowercase (didNostrUri pk))
    (.malformed ("id mismatch: got " ++ doc.id ++ ", expected " ++ didNostrUri pk))
  pure (doc.alsoKnownAs.find? fun u => startsWith "http://" u || startsWith "https://" u)

end Resolve

section Guarded

variable {web : Web} {serde : Serde} {net : Net} {resolver : NostrWebIdResolver}
  {permits : Fetcher → Host → IpAddr → Prop}
  (hclient : resolver.http.overrides = [])
  (hpermits : ∀ host ip, resolver.ssrf.Permits host ip → permits .webId host ip)

include hclient hpermits

theorem keeps_checkedGet (url what : Str) :
    Keeps (Outbound.Log.Guarded net permits) (checkedGet web net resolver url what)
      (fun _ => True) := by
  apply Keeps.bind (Keeps.ofMapped _)
  intro parsed _
  cases parsed.host with
  | none => exact Keeps.fail _
  | some host =>
      have hverify : Keeps (Outbound.Log.Guarded net permits) (resolver.ssrf.verifyHost net host)
          (fun _ => ∃ ip, resolver.ssrf.Permits host ip ∧ ∃ turn, ip ∈ net.answers turn host) := by
        intro log hlog
        constructor
        · intro hop hmem
          rw [resolver.ssrf.silent net host log] at hmem
          exact hlog hop hmem
        · intro _ hok
          exact resolver.ssrf.verified net host log hok
      apply Keeps.bind (Keeps.mapError _ hverify)
      rintro _ ⟨ip, hip, turn, hanswer⟩
      have hchecked := Outbound.permits_of_literal (hpermits host ip hip) hanswer
      apply Keeps.bind (Keeps.mapError _ (keeps_send hclient hchecked parsed.text))
      intro resp _
      apply Keeps.bind (Keeps.rejectIf _ _)
      intro _ _
      exact Keeps.pure trivial

theorem keeps_resolveWebidToNostr (webid : Str) :
    Keeps (Outbound.Log.Guarded net permits) (resolveWebidToNostr web serde net resolver webid)
      (fun _ => True) := by
  apply Keeps.bind (Q := fun _ => True)
  · apply Keeps.bind (keeps_checkedGet hclient hpermits webid _)
    intro resp _
    apply Keeps.bind (Keeps.ofMapped _)
    intro body _
    exact Keeps.pure trivial
  · intro profile _
    exact Keeps.pure trivial

theorem keeps_resolveNostrToWebid (origin : Str) (pk : NostrPubkey) :
    Keeps (Outbound.Log.Guarded net permits) (resolveNostrToWebid web serde net resolver origin pk)
      (fun _ => True) := by
  apply Keeps.bind (keeps_checkedGet hclient hpermits _ _)
  intro resp _
  apply Keeps.bind (Keeps.ofMapped _)
  intro doc _
  apply Keeps.bind (Keeps.rejectIf _ _)
  intro _ _
  exact Keeps.pure trivial

end Guarded

end Nostr

end SolidPod
