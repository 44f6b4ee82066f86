import SolidPod.Foundation.Encodings
import SolidPod.Foundation.Register
import SolidPod.Interop.DidNostr
import SolidPod.Json

/-!
# The documents under `/.well-known/`

The discovery documents of a pod follow from its base URL and a few numbers. A name that a pod
hosts is verified against the document that the pod publishes: it stands for the key that it was
given last, if that is one.
-/

namespace SolidPod

open Foundation Str

namespace Interop

/-! ## Solid and WebFinger -/

structure SolidWellKnown where
  context : Json
  solidOidcIssuer : Str
  notificationGateway : Str
  storage : Str
  webfinger : Option Str

def wellKnownSolid (podBase oidcIssuer : Str) : SolidWellKnown where
  context := .string "https://www.w3.org/ns/solid/terms"
  solidOidcIssuer := trimEndMatches '/' oidcIssuer
  notificationGateway := trimEndMatches '/' podBase ++ "/.notifications"
  storage := trimEndMatches '/' podBase ++ "/"
  webfinger := some (trimEndMatches '/' podBase ++ "/.well-known/webfinger")

def textMember (key value : Str) : Str × Json := (key, .string value)

/-- A member that is left out when there is no value. -/
def optionalMember (key : Str) (value : Option Str) : List (Str × Json) :=
  (value.map (textMember key)).toList

def SolidWellKnown.toJson (doc : SolidWellKnown) : Json :=
  .object ((("@context" : Str), doc.context) ::
    textMember "solid_oidc_issuer" doc.solidOidcIssuer ::
    textMember "notification_gateway" doc.notificationGateway ::
    textMember "storage" doc.storage :: optionalMember "webfinger" doc.webfinger)

structure WebFingerLink where
  rel : Str
  href : Option Str
  contentType : Option Str

structure WebFingerJrd where
  subject : Str
  aliases : List Str
  links : List WebFingerLink

def WebFingerLink.toJson (link : WebFingerLink) : Json :=
  .object (textMember "rel" link.rel :: optionalMember "href" link.href ++
    optionalMember "type" link.contentType)

/-- A member that is left out when the list is empty. -/
def listMember (key : Str) (items : List Json) : List (Str × Json) :=
  if items.isEmpty then [] else [(key, .array items)]

def WebFingerJrd.toJson (jrd : WebFingerJrd) : Json :=
  .object (textMember "subject" jrd.subject :: listMember "aliases" (jrd.aliases.map .string) ++
    listMember "links" (jrd.links.map WebFingerLink.toJson))

def webfingerResponse (resource podBase webid : Str) : Option WebFingerJrd :=
  if !startsWith "acct:" resource && !startsWith "https://" resource then none
  else
    let root := trimEndMatches '/' podBase ++ "/"
    some ⟨resource, [webid],
      [⟨"http://openid.net/specs/connect/1.0/issuer", some root, none⟩,
        ⟨"http://www.w3.org/ns/solid#webid", some webid, none⟩,
        ⟨"http://www.w3.org/ns/pim/space#storage", some root, none⟩]⟩

/-! ## NodeInfo -/

def nodeinfoDiscovery (baseUrl : Str) : Json :=
  Json.ofMembers [("links", .array [Json.ofMembers [
    ("rel", .string "http://nodeinfo.diaspora.software/ns/schema/2.1"),
    ("href", .string (trimEndMatches '/' baseUrl ++ "/.well-known/nodeinfo/2.1"))]])]

def nodeinfo21 (softwareName softwareVersion : Str) (openRegistrations : Bool)
    (totalUsers : UInt64) : Json :=
  let repository : Json := .string "https://github.com/dreamlab-ai/solid-pod-rs"
  Json.ofMembers [("version", .string "2.1"),
    ("software", Json.ofMembers [("name", .string softwareName),
      ("version", .string softwareVersion), ("repository", repository),
      ("homepage", repository)]),
    ("protocols", .array [.string "solid", .string "activitypub"]),
    ("services", Json.ofMembers [("inbound", .array []), ("outbound", .array [])]),
    ("openRegistrations", .bool openRegistrations),
    ("usage", Json.ofMembers [("users", Json.ofMembers [("total", .number (.posInt totalUsers))])]),
    ("metadata", Json.ofMembers [])]

/-! ## The document of a Nostr key -/

def didNostrDocument (pubkey : Str) (alsoKnownAs : List Str) : Json :=
  Json.ofMembers [("@context", .array [.string "https://www.w3.org/ns/did/v1"]),
    ("id", .string (didNostrIri pubkey)),
    ("alsoKnownAs", .array (alsoKnownAs.map .string)),
    ("verificationMethod", .array [Json.ofMembers [
      ("id", .string (didNostrIri pubkey ++ "#nostr-schnorr")),
      ("type", .string "NostrSchnorrKey2024"),
      ("controller", .string (didNostrIri pubkey)),
      ("publicKeyHex", .string pubkey)]])]

/-! ## Names -/

open Register

/-- The names that a pod hosts, with the keys they stand for. -/
structure Nip05Document where
  names : Str → Option Str

/-- A name that is given twice stands for the second key. -/
def nip05Document (names : List (Str × Str)) : Nip05Document where
  names := replay (fun _ => none) (names.map fun entry => (entry.1, some entry.2))

/-- The name that is looked up for the text before the at sign. -/
def hostedName (name : Str) : Str := if name.isEmpty then ['_'] else name

def verifyNip05 (identifier : Str) (document : Nip05Document) : Except PodError Str :=
  match splitOnce '@' identifier with
  | none => .error (.nip98 ("invalid NIP-05 identifier: " ++ identifier))
  | some (name, _) =>
    match document.names (hostedName name) with
    | none => .error (.notFound ("NIP-05 name not found: " ++ hostedName name))
    | some pubkey =>
      if byteLen pubkey ≠ 64 ∨ (Hex.decode pubkey).isNone = true then
        .error (.nip98 ("NIP-05 pubkey malformed for " ++ identifier))
      else .ok pubkey

/-- An identifier verifies against the document of a pod when the last key that its name was
given is the key, and is written in hex. -/
theorem verifyNip05_nip05Document (names : List (Str × Str)) {name : Str} (hname : '@' ∉ name)
    (domain pubkey : Str) :
    verifyNip05 (name ++ '@' :: domain) (nip05Document names) = .ok pubkey ↔
      lastWrite (hostedName name) (names.map fun entry => (entry.1, some entry.2)) =
          some (some pubkey) ∧ byteLen pubkey = 64 ∧ (Hex.decode pubkey).isNone = false := by
  rw [verifyNip05, splitOnce_append hname]
  simp only [nip05Document, replay_apply]
  cases lastWrite (hostedName name) (names.map fun entry => (entry.1, some entry.2)) with
  | none => simp
  | some entry =>
      cases entry with
      | none => simp
      | some key =>
          simp only [Option.getD_some, Option.some.injEq]
          split
          · rename_i hbad
            constructor
            · intro h
              cases h
            · rintro ⟨rfl, hlen, hhex⟩
              rcases hbad with hbad | hbad
              · exact absurd hlen hbad
              · rw [hhex] at hbad
                cases hbad
          · rename_i hgood
            rw [not_or, not_not, Bool.not_eq_true] at hgood
            constructor
            · intro h
              cases h
              exact ⟨rfl, hgood⟩
            · rintro ⟨rfl, -⟩
              rfl

end Interop

end SolidPod
