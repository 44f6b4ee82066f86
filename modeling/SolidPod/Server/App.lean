import SolidPod.Interop.WellKnown
import SolidPod.Server.DotfileGuard
import SolidPod.Server.Ledger

/-!
# The whole application

A request passes the guards, its path is merged, a route is chosen and its handler
answers. A body above the cap is refused before its handler runs. Whatever requests
come, the storage is changed only at keys that the guards let through, or at children of
these.
-/

namespace SolidPod

open Foundation Str Security

namespace Ldp

structure OptionsResponse where
  allow : List Str
  acceptPost : Option Str
  acceptPatch : Str
  acceptRanges : Str
  cacheControl : Str

def optionsFor (path : Str) : OptionsResponse where
  allow := ([("GET" : Str), "HEAD", "OPTIONS"] ++
    if isContainer path then [("POST" : Str)] else [("PUT" : Str), "PATCH"]) ++ [("DELETE" : Str)]
  acceptPost := if isContainer path then some Ldp.acceptPost else none
  acceptPatch := Ldp.acceptPatch
  acceptRanges := if isContainer path then "none" else "bytes"
  cacheControl := cacheControlRdf

end Ldp

namespace Server

open Interop Wac Ldp

/-- A request as it comes in. `resource` is what its query says under that name, or why it
cannot be read, `pubkey` what the verification of its credentials returns, and `uuid` the name
drawn should one be needed. -/
structure RawRequest where
  method : HttpMethod
  path : Str
  resource : Except Str (Option Str)
  pubkey : Option Str
  slug : Option Str
  contentType : Option Str
  body : Bytes
  uuid : Str
  hyphenated : ∀ c ∈ uuid, c.isAlphanum = true ∨ c = '-'

structure NodeInfoMeta where
  softwareName : Str
  softwareVersion : Str
  openRegistrations : Bool
  totalUsers : UInt64
  baseUrl : Str

/-- The server with its services, its guards and its cap on bodies. `decode` is one pass of
percent-decoding. -/
structure App where
  services : Services
  nodeinfo : NodeInfoMeta
  decode : Str → Str
  didNostr : Bool
  allow : DotfileAllowlist
  bodyCap : Nat

/-- The methods that the handlers of the storage serve. -/
def HttpMethod.served : HttpMethod → Option Method
  | .get => some .get
  | .head => some .head
  | .put => some .put
  | .post => some .post
  | .patch => some .patch
  | .delete => some .delete
  | .options | .other => none

/-- The handlers that read the body of a request. -/
def Handler.takesBody : Handler → Bool
  | .put | .post | .patch => true
  | .wellKnown _ | .wellKnownDidNostr _ | .get | .delete | .options => false

def handleOptions (sv : Services) (path : Str) : HttpResponse :=
  let o := optionsFor path
  let rsp := setHeader sv "allow" (join ", " o.allow) (emptyResponse 204)
  let rsp :=
    match o.acceptPost with
    | some ap => setHeader sv "accept-post" ap rsp
    | none => rsp
  setHeader sv "accept-ranges" o.acceptRanges (setHeader sv "accept-patch" o.acceptPatch rsp)

def jsonResponse (sv : Services) (contentType : Str) (doc : Json) : HttpResponse :=
  ⟨200, [("content-type", contentType)], sv.jsonToVec doc⟩

/-- All copies of `p` at the start are dropped. -/
def trimStartMatchesStr (p s : Str) : Str :=
  (List.range s.length).foldl (fun rest _ => (stripPrefix p rest).getD rest) s

/-- The resource that a WebFinger query without one asks for. -/
def anonymousResource (baseUrl : Str) : Str :=
  "acct:anonymous@" ++
    trimStartMatchesStr "https://" (trimStartMatchesStr "http://" baseUrl)

def profileCard (info : NodeInfoMeta) : Str :=
  trimEndMatches '/' info.baseUrl ++ "/profile/card#me"

def handleWebfinger (sv : Services) (info : NodeInfoMeta) (resource : Option Str) :
    HttpResponse :=
  let resource := resource.getD (anonymousResource info.baseUrl)
  match webfingerResponse resource info.baseUrl (profileCard info) with
  | some jrd => jsonResponse sv "application/jrd+json" jrd.toJson
  | none => emptyResponse 404

/-- The discovery document of a route. -/
def handleWellKnown (sv : Services) (info : NodeInfoMeta) (route : Str)
    (resource : Except Str (Option Str)) : HttpResponse :=
  if route = "/.well-known/solid" then
    jsonResponse sv "application/ld+json" (wellKnownSolid info.baseUrl info.baseUrl).toJson
  else if route = "/.well-known/webfinger" then
    match resource with
    | .ok resource => handleWebfinger sv info resource
    | .error e => textResponse 400 e
  else if route = "/.well-known/nodeinfo" then
    jsonResponse sv "application/json" (nodeinfoDiscovery info.baseUrl)
  else
    jsonResponse sv "application/json" (nodeinfo21 info.softwareName info.softwareVersion
      info.openRegistrations info.totalUsers)

def handleWellKnownDidNostr (sv : Services) (info : NodeInfoMeta) (pubkey : Str) :
    HttpResponse :=
  jsonResponse sv "application/did+json" (didNostrDocument pubkey [profileCard info])

def RawRequest.toRequest (raw : RawRequest) (method : Method) (path : Str)
    (canonical : IsCanonical path) : HttpRequest where
  method := method
  path := path
  canonical := canonical
  pubkey := raw.pubkey
  slug := raw.slug
  contentType := raw.contentType
  body := raw.body
  uuid := raw.uuid

section Application

variable {σ : Type*} [Storage σ] (app : App)

/-- What the handlers of the storage take from outside. The documents under `/.well-known` have
routes of their own. -/
def App.handlers : Services := { app.services with wellKnown := fun _ => none }

/-- The request that a handler of the storage serves, if the route leads to one. -/
def App.request (raw : RawRequest) : Option HttpRequest :=
  match dispatch app.decode app.didNostr app.allow raw.method raw.path with
  | .handler h path =>
    match raw.method.served with
    | some method =>
      if !h.isStorage || h.takesBody && decide (app.bodyCap < raw.body.length) then none
      else if hpath : IsCanonical path then some (raw.toRequest method path hpath)
      else none
    | none => none
  | _ => none

/-- The answer of the guards and of the handlers that do not look at the storage. A handler of
the storage is left out when the body is too long. -/
def App.refusal (raw : RawRequest) : HttpResponse :=
  match dispatch app.decode app.didNostr app.allow raw.method raw.path with
  | .forbidden => textResponse 403 "dotfile path denied by allowlist"
  | .badRequest => textResponse 400 "invalid path: traversal rejected"
  | .notFound => emptyResponse 404
  | .handler .options path => handleOptions app.services path
  | .handler (.wellKnown route) _ =>
    handleWellKnown app.services app.nodeinfo route raw.resource
  | .handler (.wellKnownDidNostr pubkey) _ =>
    handleWellKnownDidNostr app.services app.nodeinfo (app.decode pubkey)
  | .handler _ _ => emptyResponse 413

def App.respond (s : σ) (raw : RawRequest) : HttpResponse × σ :=
  match app.request raw with
  | some req => serve app.handlers s req
  | none => (app.refusal raw, s)

/-- The storage after a sequence of requests. -/
def App.after (s : σ) (raws : List RawRequest) : σ :=
  raws.foldl (fun s raw => (app.respond s raw).2) s

variable {app} in
theorem after_singleton {raw : RawRequest} {req : HttpRequest} {s : σ}
    (h : app.request raw = some req) :
    app.after s [raw] = runRequests app.handlers s [req] := by
  change (app.respond s raw).2 = (serve app.handlers s req).2
  rw [App.respond, h]

/-! ## Where the storage may change -/

/-- How a segment of a key that a request has changed may look: it is no step upward, and it
is one that the allowlist admits, or lies below `/.well-known/`, or is the slug of a `POST`. -/
structure Confined (raw : RawRequest) (segment : Str) : Prop where
  notParent : segment ≠ ['.', '.']
  origin : Admissible app.allow.allowed segment ∨ startsWith "/.well-known/" raw.path = true ∨
    raw.method = .post ∧ raw.slug = some segment

variable {app} {raw : RawRequest} {req : HttpRequest} {s : σ} {key : Str}

/-- The request of a storage handler has passed the guards, and is the one that came. -/
structure LetThrough (app : App) (raw : RawRequest) (req : HttpRequest) : Prop where
  guard : startsWith "/.well-known/" raw.path = true ∨ app.allow.isAllowed raw.path = true
  traversal : pathIsTraversal app.decode raw.path = false
  path : req.path = mergeSlashes raw.path
  method : raw.method.served = some req.method
  slug : req.slug = raw.slug
  uuid : req.uuid = raw.uuid

theorem letThrough_of_request (h : app.request raw = some req) : LetThrough app raw req := by
  rw [App.request] at h
  cases hdispatch : dispatch app.decode app.didNostr app.allow raw.method raw.path with
  | handler handler p =>
      simp only [hdispatch] at h
      obtain ⟨hguard, htraversal, -, rfl⟩ := dispatch_eq_handler_iff.mp hdispatch
      cases hserved : raw.method.served with
      | none =>
          rw [hserved] at h
          cases h
      | some method =>
          simp only [hserved] at h
          split at h
          · cases h
          · split at h
            · cases h
              exact ⟨hguard, htraversal, rfl, hserved, rfl, rfl⟩
            · cases h
  | _ =>
      simp only [hdispatch] at h
      cases h

/-- The segments of a path that has passed the guards. -/
theorem confined_of_letThrough (hdecode : PercentDecoding app.decode) (h : LetThrough app raw req)
    {segment : Str} (hmem : segment ∈ req.path.splitOn '/') : Confined app raw segment := by
  have hraw : segment = [] ∨ segment ∈ raw.path.splitOn '/' := by
    by_cases hne : segment = []
    · exact Or.inl hne
    · rw [h.path, mem_splitOn_mergeSlashes hne] at hmem
      exact Or.inr hmem
  rcases hraw with rfl | hraw
  · exact ⟨by simp, Or.inl (admissible_nil _)⟩
  · refine ⟨(not_navigation hdecode h.traversal hraw).2, ?_⟩
    rcases h.guard with hbelow | hallowed
    · exact Or.inr (Or.inl hbelow)
    · have hall := (forall_admissible_iff hdecode h.traversal).mpr hallowed
      exact Or.inl (forall_admissible_mergeSlashes.mp hall segment hraw)

theorem admissible_uuid (allowed : List Str) (raw : RawRequest) :
    Admissible allowed raw.uuid := by
  have hdot : '.' ∉ raw.uuid := by
    intro h
    rcases raw.hyphenated _ h with h | h
    · revert h
      decide
    · revert h
      decide
  refine ⟨?_, ?_, ?_⟩
  · intro h
    rw [h] at hdot
    exact hdot (by simp)
  · intro h
    rw [h] at hdot
    exact hdot (by simp)
  · rintro ⟨t, ht⟩
    rw [← ht] at hdot
    exact absurd (List.mem_cons_self) hdot

/-- The name of a child: it is drawn, or it is the slug and then a single segment. -/
theorem name_of_resolveSlug {printable : Char → Bool} {uuid container target : Str}
    {slug : Option Str} (hc : endsWith ['/'] container = true)
    (h : resolveSlug printable uuid container slug = .ok target) :
    target = container ++ uuid ∨
      ∃ name, slug = some name ∧ '/' ∉ name ∧ name ≠ ['.', '.'] ∧ target = container ++ name := by
  have hjoin (name : Str) : joinChild container name = container ++ name := by
    rw [joinChild, if_pos hc]
  cases slug with
  | none =>
      rw [resolveSlug, hjoin] at h
      exact Or.inl (Except.ok.inj h).symm
  | some name =>
      rw [resolveSlug, hjoin, hjoin] at h
      split_ifs at h with hempty hlong hbad hchars
      · exact Or.inl (Except.ok.inj h).symm
      · simp only [Bool.or_eq_true, not_or, List.contains_iff_mem] at hbad
        refine Or.inr ⟨name, rfl, hbad.1.1, ?_, (Except.ok.inj h).symm⟩
        intro hname
        rw [hname] at hbad
        exact hbad.1.2 (by decide)

/-- The segments of a child are those of its container and its name. -/
theorem mem_splitOn_child {container name segment : Str} (hc : endsWith ['/'] container = true)
    (hname : '/' ∉ name) (h : segment ∈ (container ++ name).splitOn '/') :
    segment ∈ container.splitOn '/' ∨ segment = name := by
  obtain ⟨front, rfl⟩ := List.isSuffixOf_iff_suffix.mp hc
  rw [List.append_assoc, List.singleton_append, List.splitOn_append_cons_self,
    List.splitOn_eq_singleton hname, List.mem_append, List.mem_singleton] at h
  rw [← List.nil_append ['/'], ← List.append_assoc, List.append_nil,
    List.splitOn_append_cons_self, List.mem_append]
  exact h.imp_left Or.inl

theorem slash_notMem_uuid (raw : RawRequest) : '/' ∉ raw.uuid := by
  intro h
  rcases raw.hyphenated _ h with h | h
  · revert h
    decide
  · revert h
    decide

theorem method_post_of_served (h : raw.method.served = some .post) : raw.method = .post := by
  cases hmethod : raw.method with
  | post => rfl
  | _ => simp [HttpMethod.served, hmethod] at h

/-- Whatever a request of a storage handler writes lies at a confined key. -/
theorem confined_of_writes (hdecode : PercentDecoding app.decode) (h : LetThrough app raw req)
    {w : Write} (hw : Writes app.handlers s req w) {segment : Str}
    (hmem : segment ∈ w.target.splitOn '/') : Confined app raw segment := by
  cases hw with
  | put hmethod hcontainer hpermitted => exact confined_of_letThrough hdecode h hmem
  | @post target hmethod hroute hpermitted htarget =>
      have hslash : endsWith ['/'] req.path = true := by
        rw [isPostRoute, Bool.and_eq_true] at hroute
        exact hroute.2
      rcases name_of_resolveSlug hslash htarget with rfl | ⟨name, hslug, hname, hparent, rfl⟩
      · rw [h.uuid] at hmem
        rcases mem_splitOn_child hslash (slash_notMem_uuid raw) hmem with hmem | rfl
        · exact confined_of_letThrough hdecode h hmem
        · have hadm := admissible_uuid app.allow.allowed raw
          exact ⟨hadm.notParent, Or.inl hadm⟩
      · rcases mem_splitOn_child hslash hname hmem with hmem | rfl
        · exact confined_of_letThrough hdecode h hmem
        · have hpost := method_post_of_served (h.method.trans (congrArg some hmethod))
          exact ⟨hparent, Or.inr (Or.inr ⟨hpost, h.slug.symm.trans hslug⟩)⟩
  | patch hmethod hpermitted hpasses hplan => exact confined_of_letThrough hdecode h hmem
  | delete hmethod hpermitted => exact confined_of_letThrough hdecode h hmem

/-- A request that changes what is stored under a key was let through by the guards, was
permitted the write, and the key is confined. -/
structure Change (app : App) (s : σ) (raw : RawRequest) (key : Str) : Prop where
  confined : ∀ segment ∈ key.splitOn '/', Confined app raw segment
  written : ∃ req w, app.request raw = some req ∧ Writes app.handlers s req w ∧ w.target = key
  status : (app.respond s raw).1.status < 400

theorem change_of_respond [LawfulStorage σ] (hdecode : PercentDecoding app.decode)
    (hkey : IsAbsolute key) (h : Storage.get (app.respond s raw).2 key ≠ Storage.get s key) :
    Change app s raw key := by
  rw [App.respond] at h
  cases hreq : app.request raw with
  | none =>
      rw [hreq] at h
      exact absurd rfl h
  | some req =>
      rw [hreq] at h
      obtain ⟨w, hw, htarget, hstatus⟩ := writes_of_changed hkey h
      refine ⟨?_, ⟨req, w, hreq, hw, htarget⟩, ?_⟩
      · rw [← htarget]
        exact fun segment => confined_of_writes hdecode (letThrough_of_request hreq) hw
      · rw [App.respond, hreq]
        exact hstatus

end Application

/-! ## A note that comes in over the wire -/

/-- The server with the default allowlist. -/
def turtleApp : App where
  services := turtleServices
  nodeinfo := ⟨"solid-pod-rs-server", "0.4.0-alpha.1", false, 0, "http://localhost"⟩
  decode := id
  didNostr := false
  allow := .withDefaults
  bodyCap := 50 * 1024 * 1024

def rawNote : RawRequest where
  method := .post
  path := "/c//"
  resource := .ok none
  pubkey := some "mallory"
  slug := some "note"
  contentType := some "text/turtle"
  body := utf8 malloryAclText
  uuid := postNote.uuid
  hyphenated := by decide

theorem request_rawNote : turtleApp.request rawNote = some postNote := by
  have hdispatch : dispatch id false .withDefaults .post "/c//" = .handler .post "/c/" :=
    dispatch_eq_handler_iff.mpr ⟨.inr (by decide), by decide, by decide, by decide⟩
  have hpath : IsCanonical "/c/" := by decide
  simp only [App.request, turtleApp, rawNote, hdispatch, HttpMethod.served, hpath,
    dif_pos, RawRequest.toRequest]
  rfl

end Server

end SolidPod
