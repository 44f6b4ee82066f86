import SolidPod.Foundation.Text

/-!
# ACL documents and their conditions

The shape that both wire formats are parsed into: a graph of authorisations,
each with its agents, its targets, its modes and the conditions attached to it.
Each condition evaluates to `satisfied`, to `denied`, or, when the registry has
no evaluator for its type, to `notApplicable`. A host authorisation grants only
when all its conditions are satisfied. The client and the issuer evaluator are
one test on two different fields of the request context.
-/

namespace SolidPod

namespace Wac

open Foundation

/-- Access modes defined by WAC. -/
inductive AccessMode where
  | read
  | write
  | append
  | control
  deriving DecidableEq

structure IdRef where
  id : Str
  deriving DecidableEq

inductive IdOrIds where
  | single (r : IdRef)
  | multiple (l : List IdRef)
  deriving DecidableEq

/-- Body of an `acl:ClientCondition`. -/
structure ClientConditionBody where
  client : Option IdOrIds
  clientGroup : Option IdOrIds
  clientClass : Option IdOrIds
  deriving DecidableEq

/-- Body of an `acl:IssuerCondition`. -/
structure IssuerConditionBody where
  issuer : Option IdOrIds
  issuerGroup : Option IdOrIds
  issuerClass : Option IdOrIds
  deriving DecidableEq

/-- A recognised condition, or one of a type the server does not know, with
that type preserved. -/
inductive Condition where
  | client (body : ClientConditionBody)
  | issuer (body : IssuerConditionBody)
  | unknown (typeIri : Str)
  deriving DecidableEq

def Condition.typeIri : Condition → Str
  | .client _ => "acl:ClientCondition"
  | .issuer _ => "acl:IssuerCondition"
  | .unknown iri => iri

structure AclAuthorization where
  agent : Option IdOrIds
  agentClass : Option IdOrIds
  agentGroup : Option IdOrIds
  origin : Option IdOrIds
  accessTo : Option IdOrIds
  default : Option IdOrIds
  mode : Option IdOrIds
  condition : Option (List Condition)
  deriving DecidableEq

/-- The authorisation that states nothing. -/
def AclAuthorization.empty : AclAuthorization :=
  ⟨none, none, none, none, none, none, none, none⟩

structure AclDocument where
  graph : Option (List AclAuthorization)
  deriving DecidableEq

def IdOrIds.ids : IdOrIds → List Str
  | .single r => [r.id]
  | .multiple l => l.map IdRef.id

def getIds : Option IdOrIds → List Str
  | none => []
  | some ids => ids.ids

def idsOf (items : List Str) : IdOrIds :=
  match items with
  | [id] => .single ⟨id⟩
  | items => .multiple (items.map IdRef.mk)

/-- The conditions of an authorisation, none when the field is absent. -/
def AclAuthorization.conditions (auth : AclAuthorization) : List Condition :=
  auth.condition.getD []

@[simp] theorem getIds_none : getIds none = [] := rfl

@[simp] theorem ids_idsOf (items : List Str) : (idsOf items).ids = items := by
  rcases items with _ | ⟨a, _ | ⟨b, l⟩⟩
  · rfl
  · rfl
  · change ((a :: b :: l).map IdRef.mk).map IdRef.id = a :: b :: l
    simp [Function.comp_def]

@[simp] theorem getIds_some_idsOf (items : List Str) : getIds (some (idsOf items)) = items :=
  ids_idsOf items

/-! ## Conditions -/

/-- The request context passed to every condition evaluator. -/
structure RequestContext where
  webId : Option Str
  clientId : Option Str
  issuer : Option Str
  deriving DecidableEq

/-- Group lookup: is the agent (second) a member of the group (first)? -/
abbrev GroupMembership := Str → Str → Bool

def noGroupMembership : GroupMembership := fun _ _ => false

/-- The members of the groups that were resolved eagerly. -/
def staticGroupMembership (groups : List (Str × List Str)) : GroupMembership :=
  fun group agent => ((groups.lookup group).map fun m => m.any (· == agent)).getD false

inductive ConditionOutcome where
  | satisfied
  | notApplicable
  | denied
  deriving DecidableEq

/-- The class that every agent belongs to, in either spelling. -/
def isPublicClass (cls : Str) : Bool :=
  cls == "foaf:Agent" || cls == "http://xmlns.com/foaf/0.1/Agent"

/-- A subject satisfies a condition that names a public class, the subject
itself, or a group the subject is a member of. -/
def evaluateSubject (classes ids groupIds : List Str) (subject : Option Str)
    (groups : GroupMembership) : ConditionOutcome :=
  if classes.any isPublicClass then .satisfied
  else
    match subject with
    | none => .denied
    | some x =>
      if ids.any (· == x) then .satisfied
      else if groupIds.any fun g => groups g x then .satisfied
      else .denied

structure ClientConditionEvaluator where
  deriving DecidableEq

structure IssuerConditionEvaluator where
  deriving DecidableEq

def ClientConditionEvaluator.evaluate (_ : ClientConditionEvaluator) (body : ClientConditionBody)
    (ctx : RequestContext) (groups : GroupMembership) : ConditionOutcome :=
  evaluateSubject (getIds body.clientClass) (getIds body.client) (getIds body.clientGroup)
    ctx.clientId groups

def IssuerConditionEvaluator.evaluate (_ : IssuerConditionEvaluator) (body : IssuerConditionBody)
    (ctx : RequestContext) (groups : GroupMembership) : ConditionOutcome :=
  evaluateSubject (getIds body.issuerClass) (getIds body.issuer) (getIds body.issuerGroup)
    ctx.issuer groups

abbrev ConditionDispatcher := Condition → RequestContext → GroupMembership → ConditionOutcome

/-- The evaluators that are registered. -/
structure ConditionRegistry where
  clientEval : Option ClientConditionEvaluator
  issuerEval : Option IssuerConditionEvaluator
  deriving DecidableEq

def ConditionRegistry.defaultWithClientAndIssuer : ConditionRegistry := ⟨some ⟨⟩, some ⟨⟩⟩

def ConditionRegistry.dispatch (r : ConditionRegistry) : ConditionDispatcher :=
  fun cond ctx groups =>
    match cond with
    | .client body =>
      match r.clientEval with
      | some e => e.evaluate body ctx groups
      | none => .notApplicable
    | .issuer body =>
      match r.issuerEval with
      | some e => e.evaluate body ctx groups
      | none => .notApplicable
    | .unknown _ => .notApplicable

/-- The dispatcher of the WAC 1.x entry points: it knows no condition. -/
def emptyDispatcher : ConditionDispatcher := fun _ _ _ => .notApplicable

theorem ConditionRegistry.dispatch_unknown (r : ConditionRegistry) (iri : Str)
    (ctx : RequestContext) (groups : GroupMembership) :
    r.dispatch (.unknown iri) ctx groups = .notApplicable := rfl

end Wac

end SolidPod
