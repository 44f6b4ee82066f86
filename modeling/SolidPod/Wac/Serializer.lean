import SolidPod.Error
import SolidPod.Wac.Document

/-!
# The Turtle serialiser

Every rule is written as one statement, with one predicate-object pair for each
field that holds an id and one `acl:condition` pair for each condition. An id is
written between `<` and `>` when it starts with `http`, and as it is otherwise.
-/

namespace SolidPod

namespace Wac

open Foundation Str

def renderId (r : Str) : Str := if startsWith "http" r then '<' :: r ++ ['>'] else r

/-- The pair of `pred` with its ids, after the separator of the pair before. -/
def emitPair (indent pred : Str) (vals : Option IdOrIds) : Str :=
  let refs := getIds vals
  if refs.isEmpty then []
  else (" ;\n" : Str) ++ indent ++ pred ++ " " ++ join ", " (refs.map renderId)

def emitPairs (pred : Str) (vals : Option IdOrIds) : Str := emitPair "    " pred vals

def emitBodyPair (pred : Str) (vals : Option IdOrIds) : Str := emitPair "        " pred vals

def emitCondition (cond : Condition) : Str :=
  (" ;\n    acl:condition [\n        a " : Str) ++ cond.typeIri ++
    (match cond with
      | .client body =>
        emitBodyPair "acl:client" body.client ++ emitBodyPair "acl:clientGroup" body.clientGroup ++
          emitBodyPair "acl:clientClass" body.clientClass
      | .issuer body =>
        emitBodyPair "acl:issuer" body.issuer ++ emitBodyPair "acl:issuerGroup" body.issuerGroup ++
          emitBodyPair "acl:issuerClass" body.issuerClass
      | .unknown _ => []) ++
    "\n    ]"

def emitConditions (conds : Option (List Condition)) : Str :=
  (conds.getD []).flatMap emitCondition

/-- The `i`th rule as a statement. -/
def emitRule (i : Nat) (auth : AclAuthorization) : Str :=
  ("<#rule-" : Str) ++ decimal i ++ ">" ++ " a acl:Authorization" ++
    emitPairs "acl:agent" auth.agent ++ emitPairs "acl:agentClass" auth.agentClass ++
    emitPairs "acl:agentGroup" auth.agentGroup ++ emitPairs "acl:origin" auth.origin ++
    emitPairs "acl:accessTo" auth.accessTo ++ emitPairs "acl:default" auth.default ++
    emitPairs "acl:mode" auth.mode ++ emitConditions auth.condition ++ " .\n\n"

def turtleHeader : Str :=
  "@prefix acl: <http://www.w3.org/ns/auth/acl#> .\n" ++
    "@prefix foaf: <http://xmlns.com/foaf/0.1/> .\n\n"

def serializeTurtleAcl (doc : AclDocument) : Str :=
  match doc.graph with
  | none => turtleHeader
  | some graph => turtleHeader ++ graph.zipIdx.flatMap fun (auth, i) => emitRule i auth

end Wac

end SolidPod
