import Mathlib.Data.List.Destutter
import Mathlib.Data.List.Sort
import SolidPod.Foundation.Keeps
import SolidPod.Json
import SolidPod.Ldp.Links
import SolidPod.Storage.Basic
import SolidPod.Wac.Serializer

/-!
# Provisioning a pod

A plan says whose pod it is, where it is served and what it starts with.
`provisionPod` seeds a storage with the containers, the WebID profile, the root
ACL of the plan and the two type indexes, and last with an ACL next to the
public type index, written in Turtle for the absolute address of the index.
-/

namespace SolidPod

namespace Provision

open Foundation Str Wac Ldp

/-- An ACL document with the members that only its writer uses: the context, and
the id and the type of each rule. -/
structure LabelledAcl where
  context : Option Json
  labels : List (Option Str × Option Str)
  document : AclDocument

structure ProvisionPlan where
  pubkey : Str
  displayName : Option Str
  podBase : Str
  containers : List Str
  rootAcl : Option LabelledAcl
  quotaBytes : Option UInt64

structure ProvisionOutcome where
  webid : Str
  podRoot : Str
  containersCreated : List Str
  quotaBytes : Option UInt64
  publicTypeIndex : Str
  privateTypeIndex : Str
  publicTypeIndexAcl : Str
  deriving DecidableEq

/-- How the JSON library writes a value, with its usual indents, and a document. -/
structure JsonWriter where
  toStringPretty : Json → Str
  toVec : LabelledAcl → Except Str Bytes

def publicTypeIndexPath : Str := "/settings/publicTypeIndex.jsonld"

def privateTypeIndexPath : Str := "/settings/privateTypeIndex.jsonld"

def publicTypeIndexAclPath : Str := "/settings/publicTypeIndex.jsonld.acl"

section Bodies

variable (w : JsonWriter)

def renderTypeIndexBody (visibilityMarker : Str) : Str :=
  w.toStringPretty (.ofMembers
    [("@context", .ofMembers [("solid", .string "http://www.w3.org/ns/solid/terms#")]),
      ("@id", .string ""),
      ("@type", .array [.string "solid:TypeIndex", .string visibilityMarker])])

/-- The terms that the profile of a WebID uses. -/
def profileContext : Json :=
  .ofMembers
    [("foaf", .string "http://xmlns.com/foaf/0.1/"),
      ("solid", .string "http://www.w3.org/ns/solid/terms#"),
      ("schema", .string "http://schema.org/"),
      ("cid", .string "https://www.w3.org/ns/cid/v1#"),
      ("lws", .string "https://www.w3.org/ns/lws#"),
      ("isPrimaryTopicOf",
        .ofMembers [("@id", .string "foaf:isPrimaryTopicOf"), ("@type", .string "@id")]),
      ("mainEntityOfPage",
        .ofMembers [("@id", .string "schema:mainEntityOfPage"), ("@type", .string "@id")]),
      ("service", .ofMembers [("@id", .string "cid:service"), ("@container", .string "@set")]),
      ("serviceEndpoint",
        .ofMembers [("@id", .string "cid:serviceEndpoint"), ("@type", .string "@id")])]

def profileMembers (pubkey displayName podUrl webid : Str) : List (Str × Json) :=
  [("@context", profileContext), ("@id", .string webid), ("@type", .string "foaf:Person"),
    ("foaf:name", .string displayName), ("foaf:isPrimaryTopicOf", .string ""),
    ("schema:mainEntityOfPage", .string ""), ("solid:account", .string podUrl),
    ("solid:privateTypeIndex", .string (podUrl ++ "settings/privateTypeIndex")),
    ("solid:publicTypeIndex", .string (podUrl ++ "settings/publicTypeIndex")),
    ("schema:identifier", .string ("did:nostr:" ++ pubkey))]

/-- The members that a profile has with an issuer and lacks without one. -/
def issuerMembers (docUrl : Str) : Option Str → List (Str × Json)
  | none => []
  | some issuer =>
    [("solid:oidcIssuer", .ofMembers [("@id", .string issuer)]),
      ("service", .array [.ofMembers
        [("@id", .string (docUrl ++ "#oidc")), ("@type", .string "lws:OpenIdProvider"),
          ("serviceEndpoint", .string issuer)]])]

def generateWebidHtmlWithIssuer (pubkey : Str) (name : Option Str) (podBase : Str)
    (oidcIssuer : Option Str) : Str :=
  let displayName := name.getD "Solid Pod User"
  let podUrl := podBase ++ "/pods/" ++ pubkey ++ "/"
  let webid := podBase ++ "/pods/" ++ pubkey ++ "/profile/card#me"
  let docUrl := webid.takeWhile (· ≠ '#')
  let bodyJson := w.toStringPretty (.ofMembers
    (profileMembers pubkey displayName podUrl webid ++ issuerMembers docUrl oidcIssuer))
  "<!DOCTYPE html>\n<html>\n<head>\n  <meta charset=\"utf-8\">\n  <title>" ++ displayName ++
    "</title>\n  <script type=\"application/ld+json\">\n" ++ bodyJson ++
    "\n  </script>\n</head>\n<body>\n  <h1>" ++ displayName ++ "</h1>\n  <p>WebID: <a href=\"" ++
    webid ++ "\">" ++ webid ++ "</a></p>\n  <p>Pod: <a href=\"" ++ podUrl ++ "\">" ++ podUrl ++
    "</a></p>\n</body>\n</html>"

def generateWebidHtml (pubkey : Str) (name : Option Str) (podBase : Str) : Str :=
  generateWebidHtmlWithIssuer w pubkey name podBase none

end Bodies

def buildPublicTypeIndexAcl (webid resourcePath : Str) : AclDocument :=
  let owner : AclAuthorization :=
    { AclAuthorization.empty with
      agent := some (.single ⟨webid⟩)
      accessTo := some (.single ⟨resourcePath⟩)
      mode := some (.multiple [⟨"acl:Read"⟩, ⟨"acl:Write"⟩, ⟨"acl:Control"⟩]) }
  let pub : AclAuthorization :=
    { AclAuthorization.empty with
      agentClass := some (.single ⟨"foaf:Agent"⟩)
      accessTo := some (.single ⟨resourcePath⟩)
      mode := some (.single ⟨"acl:Read"⟩) }
  ⟨some [owner, pub]⟩

/-! ## What a plan names -/

namespace ProvisionPlan

variable (plan : ProvisionPlan)

def podRoot : Str := trimEndMatches '/' plan.podBase ++ "/pods/" ++ plan.pubkey ++ "/"

def webid : Str := plan.podRoot ++ "profile/card#me"

/-- The containers that every pod has. -/
def defaultContainers : List Str := ["/", "/profile/", "/settings/"]

def allContainers : List Str :=
  ((plan.containers ++ defaultContainers).insertionSort (· ≤ ·)).destutter (· ≠ ·)

def publicAclResourceIri : Str := trimEndMatches '/' plan.podRoot ++ publicTypeIndexPath

/-- The text of the ACL next to the public type index. -/
def publicAclTtl : Str :=
  serializeTurtleAcl (buildPublicTypeIndexAcl plan.webid plan.publicAclResourceIri)

def outcome (created : List Str) : ProvisionOutcome :=
  ⟨plan.webid, plan.podRoot, created, plan.quotaBytes, publicTypeIndexPath, privateTypeIndexPath,
    publicTypeIndexAclPath⟩

end ProvisionPlan

/-! ## The writes -/

section Writes

variable {σ : Type} [Storage σ]

def put (key : Str) (body : Bytes) (contentType : Str) : Program σ PodError Unit :=
  Program.step fun s =>
    let (r, s') := Storage.put s key body contentType
    (r.map fun _ => (), s')

def metaKey (container : Str) : Str := trimEndMatches '/' container ++ ".meta"

/-- Put the sidecar of a container; one that is there already is no error, and no
container is created. -/
def putContainer (container : Str) : Program σ PodError (List Str) :=
  Program.step fun s =>
    match Storage.put s (metaKey container) (utf8 "\x7b\x7d") "application/ld+json" with
    | (.ok _, s') => (.ok [container], s')
    | (.error (.alreadyExists _), s') => (.ok [], s')
    | (.error e, s') => (.error e, s')

def createContainers : List Str → Program σ PodError (List Str)
  | [] => pure []
  | container :: rest => do
    Program.rejectIf (isContainer container = false)
      (.invalidPath ("not a container: " ++ container))
    let created ← putContainer container
    let others ← createContainers rest
    return created ++ others

def putRootAcl (w : JsonWriter) : Option LabelledAcl → Program σ PodError Unit
  | none => pure ()
  | some acl => do
    let body ← Program.ofResult ((w.toVec acl).mapError .json)
    put "/.acl" body "application/ld+json"

/-- The writes that come before the ACL of the public type index. -/
def seedPod (w : JsonWriter) (plan : ProvisionPlan) : Program σ PodError (List Str) := do
  let created ← createContainers plan.allContainers
  put "/profile/card" (utf8 (generateWebidHtml w plan.pubkey plan.displayName plan.podBase))
    "text/html"
  putRootAcl w plan.rootAcl
  put publicTypeIndexPath (utf8 (renderTypeIndexBody w "solid:ListedDocument"))
    "application/ld+json"
  put privateTypeIndexPath (utf8 (renderTypeIndexBody w "solid:UnlistedDocument"))
    "application/ld+json"
  return created

def provisionPod (w : JsonWriter) (plan : ProvisionPlan) :
    Program σ PodError ProvisionOutcome := do
  let created ← seedPod w plan
  put publicTypeIndexAclPath (utf8 plan.publicAclTtl) "text/turtle"
  return plan.outcome created

end Writes

end Provision

end SolidPod
