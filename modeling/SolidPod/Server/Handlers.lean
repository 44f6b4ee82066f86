import SolidPod.Ldp.JsonPatch
import SolidPod.Ldp.Links
import SolidPod.Ldp.Patch
import SolidPod.Wac.Evaluator
import SolidPod.Wac.Resolver

/-!
# The HTTP handlers

Each handler is a function from the storage and a request to a response and the
storage it leaves. The handlers that write ask `enforceWrite` first, each for
the mode it has chosen. A request is what the middleware lets through to the
routes, with the agent that its credentials were verified for.
-/

namespace SolidPod

namespace Server

open Foundation Str Wac Ldp

inductive Method where
  | get
  | head
  | put
  | post
  | patch
  | delete
  deriving DecidableEq

/-- A request. Its path is merged by the middleware, `pubkey` is what the verification of
its credentials returned, a header that is not visible ASCII counts as absent, and `uuid`
is the random name drawn should one be needed. -/
structure HttpRequest where
  method : Method
  path : Str
  canonical : IsCanonical path
  pubkey : Option Str
  slug : Option Str
  contentType : Option Str
  body : Bytes
  uuid : Str

structure HttpResponse where
  status : Nat
  headers : List (Str × Str)
  body : Bytes
  deriving DecidableEq

/-- What the handlers take from outside: the reader of ACL documents, the access
feature, the JSON and the SPARQL library, the table of printable characters, the
values that an HTTP header may have, and the documents under `/.well-known`. -/
structure Services where
  reader : AclReader
  feature : OriginFeature
  jsonFromSlice : Bytes → Except Str Json
  jsonFromStr : Str → Except Str Json
  jsonToVec : Json → Bytes
  updateParser : UpdateParser
  printable : Char → Bool
  headerValue : Str → Bool
  wellKnown : Str → Option HttpResponse

variable {σ : Type*} [Storage σ] (sv : Services)

/-! ## Errors -/

def textResponse (status : Nat) (text : Str) : HttpResponse := ⟨status, [], utf8 text⟩

def emptyResponse (status : Nat) : HttpResponse := ⟨status, [], []⟩

def toActix (e : PodError) : HttpResponse :=
  let status :=
    match e with
    | .notFound _ => 404
    | .badRequest _ => 400
    | .unsupported _ => 415
    | .forbidden => 403
    | .unauthenticated => 401
    | .preconditionFailed _ => 412
    | _ => 500
  textResponse status e.display

/-- An error in a patch body is the client's. -/
def patchParseErr : PodError → HttpResponse
  | .unsupported msg | .badRequest msg => textResponse 400 msg
  | e => toActix e

/-! ## Access -/

def agentUri (pubkey : Option Str) : Option Str := pubkey.map fun pk => "did:nostr:" ++ pk

/-- A header is set when its value may be sent. -/
def setHeader (name value : Str) (rsp : HttpResponse) : HttpResponse :=
  if sv.headerValue value then { rsp with headers := rsp.headers ++ [(name, value)] } else rsp

def effectiveAcl (s : σ) (path : Str) : Except PodError (Option AclDocument) :=
  findEffectiveAclDyn sv.reader (Storage.get s) path

/-- The decision on a resolved document. -/
def granted (acl : Option AclDocument) (path : Str) (mode : AccessMode) (agent : Option Str) :
    Bool :=
  evaluateAccessCtxWithRegistry sv.feature acl ⟨agent, none, none⟩ path mode none
    (staticGroupMembership []) .defaultWithClientAndIssuer

/-- The response to a request that is not granted. -/
def denied (acl : Option AclDocument) (path : Str) (agent : Option Str) : HttpResponse :=
  let allow := wacAllowHeader sv.feature acl agent path
  ⟨if agent.isNone then 401 else 403, [("wac-allow", if sv.headerValue allow then allow else [])],
    []⟩

def enforceWrite (s : σ) (path : Str) (mode : AccessMode) (agent : Option Str) :
    Except HttpResponse Unit :=
  match effectiveAcl sv s path with
  | .error e => .error (toActix e)
  | .ok acl => if granted sv acl path mode agent then .ok () else .error (denied sv acl path agent)

def setLinkHeaders (path : Str) (rsp : HttpResponse) : HttpResponse :=
  setHeader sv "link" (join ", " (linkHeaders path)) rsp

def setWacAllow (value : Str) (rsp : HttpResponse) : HttpResponse :=
  setHeader sv "wac-allow" value rsp

def setEtag (metadata : ResourceMeta) (rsp : HttpResponse) : HttpResponse :=
  setHeader sv "etag" ("\"" ++ metadata.etag ++ "\"") rsp

/-! ## GET, PUT, POST and DELETE -/

/-- The content type that the response for a stored body shows. -/
def shownContentType (metadata : ResourceMeta) : Str :=
  if sv.headerValue metadata.contentType then metadata.contentType else "application/octet-stream"

/-- The response for a stored body. -/
def resourceResponse (path wacAllow : Str) (body : Bytes) (metadata : ResourceMeta) :
    HttpResponse :=
  setLinkHeaders sv path (setWacAllow sv wacAllow
    (setEtag sv metadata ⟨200, [("content-type", shownContentType sv metadata)], body⟩))

def handleGet (s : σ) (req : HttpRequest) : HttpResponse :=
  let agent := agentUri req.pubkey
  let wacAllow := wacAllowHeader sv.feature none agent req.path
  if isContainer req.path then
    match (Storage.list s req.path : Except PodError (List Str)) with
    | .error e => toActix e
    | .ok children =>
      let body := sv.jsonToVec (renderContainer req.path children)
      setLinkHeaders sv req.path (setWacAllow sv wacAllow
        ⟨200, [("content-type", "application/ld+json")], body⟩)
  else
    match Storage.get s req.path with
    | .ok (body, metadata) => resourceResponse sv req.path wacAllow body metadata
    | .error (.notFound _) => emptyResponse 404
    | .error e => toActix e

def handlePut (s : σ) (req : HttpRequest) : HttpResponse × σ :=
  if isContainer req.path then (textResponse 405 "cannot PUT to a container", s)
  else
    match enforceWrite sv s req.path .write (agentUri req.pubkey) with
    | .error rsp => (rsp, s)
    | .ok () =>
      let contentType := req.contentType.getD "application/octet-stream"
      match Storage.put s req.path req.body contentType with
      | (.error e, s) => (toActix e, s)
      | (.ok metadata, s) =>
        (setLinkHeaders sv req.path (setEtag sv metadata (emptyResponse 201)), s)

def handlePost (s : σ) (req : HttpRequest) : HttpResponse × σ :=
  match enforceWrite sv s req.path .append (agentUri req.pubkey) with
  | .error rsp => (rsp, s)
  | .ok () =>
    match resolveSlug sv.printable req.uuid req.path req.slug with
    | .error e => (toActix e, s)
    | .ok target =>
      let contentType := req.contentType.getD "application/octet-stream"
      match Storage.put s target req.body contentType with
      | (.error e, s) => (toActix e, s)
      | (.ok metadata, s) =>
        (setLinkHeaders sv target (setEtag sv metadata (setHeader sv "location" target
          (emptyResponse 201))), s)

def handleDelete (s : σ) (req : HttpRequest) : HttpResponse × σ :=
  match enforceWrite sv s req.path .write (agentUri req.pubkey) with
  | .error rsp => (rsp, s)
  | .ok () =>
    match Storage.delete s req.path with
    | (.ok (), s) => (emptyResponse 204, s)
    | (.error (.notFound _), s) => (emptyResponse 404, s)
    | (.error e, s) => (toActix e, s)

/-! ## PATCH -/

/-- What the handler does once it has read the resource: it answers, or it
writes and then answers with a status. -/
inductive PatchPlan where
  | answer (rsp : HttpResponse)
  | store (body : Bytes) (contentType : Str) (status : Nat)
  deriving DecidableEq

/-- The graph of a patched resource is stored as N-Triples. -/
def storeGraph (g : Graph) (status : Nat) : PatchPlan :=
  .store (utf8 (toNtriples g)) "text/turtle" status

/-- The stored document as JSON, or an empty object where it is none. -/
def currentJson (current : Bytes) : Json :=
  match sv.jsonFromSlice current with
  | .ok v => v
  | .error _ => .object []

/-- The patch of an existing resource. The RDF dialects are applied to a new
graph. -/
def patchExisting (dialect : PatchDialect) (patch : Str) (current : Bytes)
    (metadata : ResourceMeta) : PatchPlan :=
  match dialect with
  | .n3 =>
    match applyN3Patch sv.printable ∅ patch with
    | .error e => .answer (patchParseErr e)
    | .ok o => storeGraph o.graph 204
  | .sparqlUpdate =>
    match applySparqlPatch sv.updateParser ∅ patch with
    | .error e => .answer (patchParseErr e)
    | .ok o => storeGraph o.graph 204
  | .jsonPatch =>
    match sv.jsonFromStr patch with
    | .error e => .answer (toActix (.badRequest e))
    | .ok ops =>
      match applyJsonPatch (currentJson sv current) ops with
      | .error e => .answer (toActix e)
      | .ok v => .store (sv.jsonToVec v) metadata.contentType 204

def patchAbsent (dialect : PatchDialect) (patch : Str) : PatchPlan :=
  match applyPatchToAbsent sv.printable sv.updateParser dialect patch with
  | .error e => .answer (patchParseErr e)
  | .ok (.created _ g) => storeGraph g 201
  | .ok (.applied _ _ _) =>
    .answer (toActix (.unsupported "unexpected patch outcome on absent resource"))

/-- The plan for what the read found. -/
def planPatch (dialect : PatchDialect) (patch : Str)
    (existing : Except PodError (Bytes × ResourceMeta)) : PatchPlan :=
  match existing with
  | .ok (current, metadata) => patchExisting sv dialect patch current metadata
  | .error (.notFound _) => patchAbsent sv dialect patch
  | .error e => .answer (toActix e)

def runPlan (s : σ) (path : Str) : PatchPlan → HttpResponse × σ
  | .answer rsp => (rsp, s)
  | .store body contentType status =>
    match Storage.put s path body contentType with
    | (.error e, s) => (toActix e, s)
    | (.ok _, s) => (emptyResponse status, s)

/-- The checks before the resource is read: the dialect and the body as text,
or the response that refuses the request. -/
def admitPatch (s : σ) (req : HttpRequest) : Except HttpResponse (PatchDialect × Str) :=
  if isContainer req.path then .error (textResponse 405 "cannot PATCH a container")
  else
    match enforceWrite sv s req.path .append (agentUri req.pubkey) with
    | .error rsp => .error rsp
    | .ok () =>
      let contentType := req.contentType.getD []
      match patchDialectFromMime contentType with
      | none =>
        .error (textResponse 415
          ("unsupported patch dialect for content-type " ++ debug sv.printable contentType))
      | some dialect =>
        match fromUtf8 req.body with
        | none => .error (textResponse 400 "patch body is not valid UTF-8")
        | some patch => .ok (dialect, patch)

def handlePatch (s : σ) (req : HttpRequest) : HttpResponse × σ :=
  match admitPatch sv s req with
  | .error rsp => (rsp, s)
  | .ok (dialect, patch) => runPlan s req.path (planPatch sv dialect patch (Storage.get s req.path))

/-! ## Routes -/

/-- The paths that the route of `POST` matches. -/
def isPostRoute (path : Str) : Bool := decide (2 ≤ path.length) && endsWith ['/'] path

/-- The response of a request and the storage after it. The body of a response
to `HEAD` is not sent. -/
def serve (s : σ) (req : HttpRequest) : HttpResponse × σ :=
  match req.method with
  | .get =>
    match sv.wellKnown req.path with
    | some rsp => (rsp, s)
    | none => (handleGet sv s req, s)
  | .head => ({ handleGet sv s req with body := [] }, s)
  | .put => handlePut sv s req
  | .post => if isPostRoute req.path then handlePost sv s req else (emptyResponse 404, s)
  | .patch => handlePatch sv s req
  | .delete => handleDelete sv s req

/-- The storage after a sequence of requests. -/
def runRequests (s : σ) (reqs : List HttpRequest) : σ :=
  reqs.foldl (fun s req => (serve sv s req).2) s

end Server

end SolidPod
