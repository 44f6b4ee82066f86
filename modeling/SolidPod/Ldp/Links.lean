import SolidPod.Error
import SolidPod.Foundation.Utf8
import SolidPod.Json

/-!
# Resource headers and container representations

The paths of sidecars, the `Link` headers of a resource, the headers of a `404`,
the name a `POST` creates, and the JSON-LD form of a container.
-/

namespace SolidPod

namespace Ldp

open Foundation Str

def ldpResource : Str := "http://www.w3.org/ns/ldp#Resource"

def ldpContainer : Str := "http://www.w3.org/ns/ldp#Container"

def ldpBasicContainer : Str := "http://www.w3.org/ns/ldp#BasicContainer"

def ldpNs : Str := "http://www.w3.org/ns/ldp#"

def dctermsNs : Str := "http://purl.org/dc/terms/"

def pimStorageRel : Str := "http://www.w3.org/ns/pim/space#storage"

def acceptPost : Str := "text/turtle, application/ld+json, application/n-triples"

def acceptPatch : Str := "text/n3, application/sparql-update, application/json-patch+json"

def cacheControlRdf : Str := "private, no-cache, must-revalidate"

/-- Whether a path addresses an LDP container. -/
def isContainer (path : Str) : Bool := path == "/" || endsWith ['/'] path

/-- Whether a path addresses an ACL sidecar. -/
def isAclPath (path : Str) : Bool := endsWith ".acl" path

def isMetaPath (path : Str) : Bool := endsWith ".meta" path

/-- The `.meta` sidecar of a resource. -/
def metaSidecarFor (path : Str) : Str := if isMetaPath path then path else path ++ ".meta"

/-- The content type of a resource that is stored without one: that of the ACL
and metadata documents, by the end of the last segment. -/
def inferDotfileContentType (path : Str) : Option Str :=
  let trimmed := trimEndMatches '/' path
  let basename := trimmed.rtakeWhile (· != '/')
  if trimmed.isEmpty || basename.isEmpty then none
  else if endsWith ".acl" basename || endsWith ".meta" basename then some "application/ld+json"
  else none

/-- A link with its relation. -/
def link (target rel : Str) : Str := "<" ++ target ++ ">; rel=\"" ++ rel ++ "\""

def linkHeaders (path : Str) : List Str :=
  (if isContainer path then
      [link ldpBasicContainer "type", link ldpContainer "type", link ldpResource "type"]
    else [link ldpResource "type"]) ++
    (if !isAclPath path then [link (path ++ ".acl") "acl"] else []) ++
    (if !isMetaPath path && !isAclPath path then [link (metaSidecarFor path) "describedby"]
      else []) ++
    (if path == "/" then [link "/" pimStorageRel] else [])

def varyHeader (connegEnabled : Bool) : Str :=
  if connegEnabled then "Accept, Authorization, Origin" else "Authorization, Origin"

/-- The headers of a `404` for a path. -/
def notFoundHeaders (path : Str) (connegEnabled : Bool) : List (Str × Str) :=
  let always : List (Str × Str) := [("Allow", "GET, HEAD, OPTIONS, PUT, PATCH"),
    ("Accept-Put", "*/*"), ("Accept-Patch", acceptPatch),
    ("Link", link (trimEndMatches '/' path ++ ".acl") "acl"), ("Vary", varyHeader connegEnabled)]
  let cacheControl : Str × Str := ("Cache-Control", cacheControlRdf)
  let post : Str × Str := ("Accept-Post", acceptPost)
  always ++ (if connegEnabled then [cacheControl] else []) ++
    (if isContainer path then [post] else [])

/-- Maximum length of a `Slug` header in octets. -/
def maxSlugBytes : Nat := 255

def slugChar (c : Char) : Bool := c.isAlphanum || c == '.' || c == '_' || c == '-'

/-- A child of a container. -/
def joinChild (container name : Str) : Str :=
  if endsWith ['/'] container then container ++ name else container ++ '/' :: name

/-- The path that a `POST` to a container creates; `uuid` is the random name
drawn for a request without a slug. -/
def resolveSlug (printable : Char → Bool) (uuid container : Str) (slug : Option Str) :
    Except PodError Str :=
  match slug with
  | none => .ok (joinChild container uuid)
  | some s =>
    if s.isEmpty then .ok (joinChild container uuid)
    else if byteLen s > maxSlugBytes then
      .error (.badRequest ("slug exceeds " ++ decimal maxSlugBytes ++ " bytes"))
    else if s.contains '/' || containsStr ".." s || s.contains '\x00' then
      .error (.badRequest ("invalid slug: " ++ debug printable s))
    else if !s.all slugChar then
      .error (.badRequest ("slug contains disallowed character: " ++ debug printable s))
    else .ok (joinChild container s)

/-- What portions of a container representation the client wants. -/
inductive ContainerRepresentation where
  | full
  | minimalContainer
  | containedIrisOnly
  deriving DecidableEq

def jsonIri (iri : Str) : Json := Json.ofMembers [("@id", .string iri)]

def containerTypes : Json :=
  .array [.string "ldp:Container", .string "ldp:BasicContainer", .string "ldp:Resource"]

/-- One member of a container, with its types. -/
def containerMember (base name : Str) : Json :=
  let types :=
    if endsWith ['/'] name then [ldpBasicContainer, ldpContainer, ldpResource] else [ldpResource]
  Json.ofMembers [("@id", .string (base ++ name)), ("@type", .array (types.map .string))]

def renderContainerJsonld (containerPath : Str) (members : List Str)
    (representation : ContainerRepresentation) : Json :=
  let base := if endsWith ['/'] containerPath then containerPath else containerPath ++ ['/']
  match representation with
  | .containedIrisOnly =>
    Json.ofMembers [("@id", .string containerPath),
      ("ldp:contains", .array (members.map fun m => jsonIri (base ++ m)))]
  | .minimalContainer =>
    Json.ofMembers [
      ("@context", Json.ofMembers [("ldp", .string ldpNs), ("dcterms", .string dctermsNs)]),
      ("@id", .string containerPath), ("@type", containerTypes)]
  | .full =>
    Json.ofMembers [
      ("@context", Json.ofMembers [("ldp", .string ldpNs), ("dcterms", .string dctermsNs),
        ("contains", Json.ofMembers [("@id", .string "ldp:contains"), ("@type", .string "@id")])]),
      ("@id", .string containerPath), ("@type", containerTypes),
      ("ldp:contains", .array (members.map (containerMember base)))]

def renderContainer (containerPath : Str) (members : List Str) : Json :=
  renderContainerJsonld containerPath members .full

/-- A created path lies in its container. -/
theorem eq_append_of_resolveSlug {printable : Char → Bool} {uuid container target : Str}
    {slug : Option Str} (hc : endsWith ['/'] container = true)
    (h : resolveSlug printable uuid container slug = .ok target) :
    target = container ++ uuid ∨ ∃ s ∈ slug, target = container ++ s := by
  have hjoin (name : Str) : joinChild container name = container ++ name := by
    rw [joinChild, if_pos hc]
  cases slug with
  | none =>
      rw [resolveSlug, hjoin] at h
      exact Or.inl (Except.ok.inj h).symm
  | some s =>
      rw [resolveSlug, hjoin, hjoin] at h
      split_ifs at h
      · exact Or.inl (Except.ok.inj h).symm
      · exact Or.inr ⟨s, rfl, (Except.ok.inj h).symm⟩

end Ldp

end SolidPod
