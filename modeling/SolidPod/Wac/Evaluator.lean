import SolidPod.Wac.Document
import SolidPod.Wac.Origin

/-!
# The access decision

An authorisation grants a mode to an agent on a path when it lists the mode, it
matches the agent, one of its targets covers the path, and all its conditions
are satisfied. A document grants when one of its authorisations does, and, with
the `acl-origin` feature on, the origin gate lets the request through.
-/

namespace SolidPod

namespace Wac

open Foundation Str

/-- The compile-time choice that the decision depends on: whether the
`acl-origin` feature is on, and the URL parser its gate uses. -/
structure OriginFeature where
  enabled : Bool
  urlParse : UrlParse

def mapMode (modeRef : Str) : List AccessMode :=
  if modeRef == "acl:Read" || modeRef == "http://www.w3.org/ns/auth/acl#Read" then [.read]
  else if modeRef == "acl:Write" || modeRef == "http://www.w3.org/ns/auth/acl#Write" then
    [.write, .append]
  else if modeRef == "acl:Append" || modeRef == "http://www.w3.org/ns/auth/acl#Append" then
    [.append]
  else if modeRef == "acl:Control" || modeRef == "http://www.w3.org/ns/auth/acl#Control" then
    [.control]
  else []

def allModes : List AccessMode := [.read, .write, .append, .control]

def modeName : AccessMode → Str
  | .read => "read"
  | .write => "write"
  | .append => "append"
  | .control => "control"

def methodToMode (method : Str) : AccessMode :=
  let m := method.map Char.toUpper
  if m == "GET" || m == "HEAD" then .read
  else if m == "PUT" || m == "DELETE" || m == "PATCH" then .write
  else if m == "POST" then .append
  else .read

def normalizePath (path : Str) : Str :=
  let stripped := (stripPrefix "./" path).or (stripPrefix "." path)
  let base :=
    match stripped with
    | some [] => "/"
    | some s => if startsWith "/" s then s else '/' :: s
    | none => path
  let trimmed := trimEndMatches '/' base
  if trimmed.isEmpty then "/" else trimmed

def pathMatches (rulePath resourcePath : Str) (isDefault : Bool) : Bool :=
  let rule := normalizePath rulePath
  let resource := normalizePath resourcePath
  if resource == rule then true
  else if !isDefault then
    -- `acl:accessTo` reaches the direct children of a container and no deeper
    let pre : Str := if rule == "/" then "/" else rule ++ ['/']
    match stripPrefix pre resource with
    | some rest => !rest.isEmpty && !rest.contains '/'
    | none => false
  else if rule == "/" then startsWith "/" resource
  else startsWith (rule ++ ['/']) resource

def getModes (auth : AclAuthorization) : List AccessMode := (getIds auth.mode).flatMap mapMode

/-- The class of the agents that carry a WebID, in either spelling. -/
def isAuthenticatedClass (cls : Str) : Bool :=
  cls == "acl:AuthenticatedAgent" || cls == "http://www.w3.org/ns/auth/acl#AuthenticatedAgent"

def agentMatchesWithGroups (auth : AclAuthorization) (agentUri : Option Str)
    (groups : GroupMembership) : Bool :=
  (agentUri.map fun uri => (getIds auth.agent).contains uri).getD false ||
    ((getIds auth.agentClass).any fun cls =>
      isPublicClass cls || (agentUri.isSome && isAuthenticatedClass cls)) ||
    (agentUri.map fun uri => (getIds auth.agentGroup).any fun g => groups g uri).getD false

def pathOk (auth : AclAuthorization) (resourcePath : Str) : Bool :=
  ((getIds auth.accessTo).any fun target => pathMatches target resourcePath false) ||
    (getIds auth.default).any fun target => pathMatches target resourcePath true

/-- One round of the evaluation loop: does this authorisation grant? -/
def authGrants (auth : AclAuthorization) (ctx : RequestContext) (resourcePath : Str)
    (requiredMode : AccessMode) (groups : GroupMembership) (dispatcher : ConditionDispatcher) :
    Bool :=
  (getModes auth).contains requiredMode && agentMatchesWithGroups auth ctx.webId groups &&
    pathOk auth resourcePath &&
    auth.conditions.all fun cond => dispatcher cond ctx groups == .satisfied

def evaluateAccessCtxInner (feature : OriginFeature) (aclDoc : Option AclDocument)
    (ctx : RequestContext) (resourcePath : Str) (requiredMode : AccessMode)
    (requestOrigin : Option Origin) (groups : GroupMembership)
    (dispatcher : ConditionDispatcher) : Bool :=
  match aclDoc with
  | none => false
  | some doc =>
    match doc.graph with
    | none => false
    | some graph =>
      if !(graph.any fun auth =>
          authGrants auth ctx resourcePath requiredMode groups dispatcher) then false
      else if requiredMode == .control then true
      else if !feature.enabled then true
      else
        match checkOrigin feature.urlParse doc requestOrigin with
        | .noPolicySet | .permitted => true
        | .rejectedMismatch | .rejectedNoOrigin => false

/-- The WAC 2.0 entry point. -/
def evaluateAccessCtx := evaluateAccessCtxInner

def evaluateAccessCtxWithRegistry (feature : OriginFeature) (aclDoc : Option AclDocument)
    (ctx : RequestContext) (resourcePath : Str) (requiredMode : AccessMode)
    (requestOrigin : Option Origin) (groups : GroupMembership) (registry : ConditionRegistry) :
    Bool :=
  evaluateAccessCtxInner feature aclDoc ctx resourcePath requiredMode requestOrigin groups
    registry.dispatch

/-- The WAC 1.x entry point with a group resolver: a rule that bears conditions
fails closed. -/
def evaluateAccessWithGroups (feature : OriginFeature) (aclDoc : Option AclDocument)
    (agentUri : Option Str) (resourcePath : Str) (requiredMode : AccessMode)
    (requestOrigin : Option Origin) (groups : GroupMembership) : Bool :=
  evaluateAccessCtxInner feature aclDoc ⟨agentUri, none, none⟩ resourcePath requiredMode
    requestOrigin groups emptyDispatcher

def evaluateAccess (feature : OriginFeature) (aclDoc : Option AclDocument)
    (agentUri : Option Str) (resourcePath : Str) (requiredMode : AccessMode)
    (requestOrigin : Option Origin) : Bool :=
  evaluateAccessWithGroups feature aclDoc agentUri resourcePath requiredMode requestOrigin
    noGroupMembership

/-- The modes the agent and the public have, as the header lists them. -/
def wacAllowHeader (feature : OriginFeature) (aclDoc : Option AclDocument)
    (agentUri : Option Str) (resourcePath : Str) : Str :=
  let modes (agent : Option Str) :=
    (allModes.filter fun m => evaluateAccess feature aclDoc agent resourcePath m none).map modeName
  "user=\"" ++ join " " (modes agentUri) ++ "\", public=\"" ++ join " " (modes none) ++ "\""

/-- An authorisation with a condition the dispatcher does not satisfy grants
nothing. -/
theorem authGrants_eq_false_of_mem {auth : AclAuthorization} {cond : Condition}
    {dispatcher : ConditionDispatcher} {ctx : RequestContext} {groups : GroupMembership}
    (hmem : cond ∈ auth.conditions) (h : dispatcher cond ctx groups ≠ .satisfied)
    (resourcePath : Str) (requiredMode : AccessMode) :
    authGrants auth ctx resourcePath requiredMode groups dispatcher = false := by
  have hall : (auth.conditions.all fun c => dispatcher c ctx groups == .satisfied) = false := by
    rw [List.all_eq_false]
    exact ⟨cond, hmem, by simpa using h⟩
  rw [authGrants, hall, Bool.and_false]

/-- A document grants only through one of its authorisations. -/
theorem exists_authGrants {feature : OriginFeature} {graph : List AclAuthorization}
    {ctx : RequestContext} {resourcePath : Str} {requiredMode : AccessMode}
    {requestOrigin : Option Origin} {groups : GroupMembership}
    {dispatcher : ConditionDispatcher}
    (h : evaluateAccessCtxInner feature (some ⟨some graph⟩) ctx resourcePath requiredMode
      requestOrigin groups dispatcher = true) :
    ∃ auth ∈ graph, authGrants auth ctx resourcePath requiredMode groups dispatcher = true := by
  by_contra hno
  have hany : (graph.any fun auth =>
      authGrants auth ctx resourcePath requiredMode groups dispatcher) = false := by
    rw [List.any_eq_false]
    intro auth hauth hg
    exact hno ⟨auth, hauth, hg⟩
  simp [evaluateAccessCtxInner, hany] at h

end Wac

end SolidPod
