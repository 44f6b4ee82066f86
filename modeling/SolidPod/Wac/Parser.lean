import SolidPod.Error
import SolidPod.Foundation.Loop
import SolidPod.Foundation.Splitter
import SolidPod.Wac.Document

/-!
# The Turtle ACL parser

The subset of Turtle that ACL documents use, read by four left-to-right passes:
comments are dropped line by line, statements are cut at `.`, the predicate list
of a statement is cut at `;` outside brackets, and an object list is taken apart
at its commas. What is not recognised is skipped.
-/

namespace SolidPod

namespace Wac

open Foundation Str

/-- The prefixes in scope, the latest binding of a name first. -/
abbrev Prefixes := List (Str × Str)

def defaultPrefixes : Prefixes :=
  [("vcard", "http://www.w3.org/2006/vcard/ns#"), ("foaf", "http://xmlns.com/foaf/0.1/"),
    ("acl", "http://www.w3.org/ns/auth/acl#")]

/-- One line up to the first `#` outside an IRI. -/
def stripLineComment (inIri : Bool) : Str → Str
  | [] => []
  | c :: cs =>
    if c = '<' then c :: stripLineComment true cs
    else if c = '>' then c :: stripLineComment false cs
    else if c = '#' && !inIri then []
    else c :: stripLineComment inIri cs

def stripTurtleComments (input : Str) : Str :=
  (lines input).flatMap fun line => stripLineComment false line ++ ['\n']

/-- State of the statement cutter: open IRIs, and whether a string is open. -/
def statementSplitter : Splitter (Nat × Bool) where
  step := fun (depthIri, inStr) c =>
    if c = '<' && !inStr then (depthIri + 1, inStr)
    else if c = '>' && !inStr then (depthIri - 1, inStr)
    else if c = '"' then (depthIri, !inStr)
    else (depthIri, inStr)
  cuts := fun (depthIri, inStr) c => c = '.' && depthIri == 0 && !inStr

/-- State of the predicate-list cutter: open brackets, and whether a string is
open. -/
def predicateSplitter : Splitter (Nat × Bool) where
  step := fun (depth, inStr) c =>
    if c = '"' then (depth, !inStr)
    else if c = '[' && !inStr then (depth + 1, inStr)
    else if c = ']' && !inStr then (depth - 1, inStr)
    else (depth, inStr)
  cuts := fun (depth, inStr) c => c = ';' && !inStr && depth == 0

/-- The pieces of a text; what follows the last cut counts only when it is not
blank. -/
def splitNonblankTail (m : Splitter (Nat × Bool)) (input : Str) : List Str :=
  let pieces := m.pieces (0, false) [] input
  if (trim (pieces.getLastD [])).isEmpty then pieces.dropLast else pieces

def splitTurtleStatements (input : Str) : List Str :=
  splitNonblankTail statementSplitter input

def splitPredicateList (input : Str) : List Str :=
  splitNonblankTail predicateSplitter input

/-- What ends a bare token. -/
def endsToken (c : Char) : Bool :=
  isWhitespace c || c = ',' || c = ';' || c = ']' || c = ')'

def turtlePopTerm (input : Str) : Option (Str × Str) :=
  let input := trimStart input
  match stripPrefix ['<'] input with
  | some rest => splitOnce '>' rest
  | none =>
    if startsWith ['"'] input then none
    else some (input.takeWhile (!endsToken ·), input.dropWhile (!endsToken ·))

def expandCurieOrIri (prefixes : Prefixes) (tok : Str) : Str :=
  let tok := trim tok
  if tok == "a" then "a"
  else
    match splitOnce ':' tok with
    | some (p, rest) =>
      if startsWith ['<'] p then tok
      else
        match prefixes.lookup p with
        | some base => base ++ rest
        | none => tok
    | none => tok

/-- What follows a comma, when a comma comes next. -/
def afterComma (rest : Str) : Option Str := stripPrefix [','] (trimStart rest)

/-- The next object of an object list, and the text after its comma. -/
def nextObject (prefixes : Prefixes) (remaining : Str) : Option (Str × Option Str) :=
  let r := trimStart remaining
  if r.isEmpty then none
  else (turtlePopTerm r).map fun (tok, rest) => (expandCurieOrIri prefixes tok, afterComma rest)

def parseObjectList (prefixes : Prefixes) (input : Str) : List Str :=
  consumeAll (nextObject prefixes) List.length (trim input)

/-- A predicate of the ACL vocabulary, by its IRI or by its usual short form. -/
def isAclTerm (name pred : Str) : Bool :=
  pred == ("http://www.w3.org/ns/auth/acl#" : Str) ++ name || pred == ("acl:" : Str) ++ name

def isTypePredicate (pred : Str) : Bool :=
  pred == "a" || pred == "http://www.w3.org/1999/02/22-rdf-syntax-ns#type" || pred == "rdf:type"

def normaliseConditionType (raw : Str) : Str :=
  if raw == "http://www.w3.org/ns/auth/acl#ClientCondition" ||
      raw == "https://www.w3.org/ns/auth/acl#ClientCondition" then "acl:ClientCondition"
  else if raw == "http://www.w3.org/ns/auth/acl#IssuerCondition" ||
      raw == "https://www.w3.org/ns/auth/acl#IssuerCondition" then "acl:IssuerCondition"
  else raw

def strsToIds (items : List Str) : Option IdOrIds :=
  if items.isEmpty then none else some (idsOf items)

/-- What the body of a condition states. -/
structure ConditionFields where
  typeIri : Option Str
  clients : List Str
  clientGroups : List Str
  clientClasses : List Str
  issuers : List Str
  issuerGroups : List Str
  issuerClasses : List Str

def ConditionFields.empty : ConditionFields := ⟨none, [], [], [], [], [], []⟩

/-- One predicate-object pair of a condition body. -/
def conditionPair (prefixes : Prefixes) (f : ConditionFields) (pair : Str) : ConditionFields :=
  let pair := trim pair
  if pair.isEmpty then f
  else
    match turtlePopTerm pair with
    | none => f
    | some (pred, rest) =>
      let pred := expandCurieOrIri prefixes pred
      let objects := parseObjectList prefixes (trim rest)
      if isTypePredicate pred then
        match objects.head? with
        | some first => { f with typeIri := some (normaliseConditionType first) }
        | none => f
      else if isAclTerm "client" pred then { f with clients := f.clients ++ objects }
      else if isAclTerm "clientGroup" pred then { f with clientGroups := f.clientGroups ++ objects }
      else if isAclTerm "clientClass" pred then
        { f with clientClasses := f.clientClasses ++ objects }
      else if isAclTerm "issuer" pred then { f with issuers := f.issuers ++ objects }
      else if isAclTerm "issuerGroup" pred then { f with issuerGroups := f.issuerGroups ++ objects }
      else if isAclTerm "issuerClass" pred then
        { f with issuerClasses := f.issuerClasses ++ objects }
      else f

/-- The condition that the fields of a typed body describe. -/
def ConditionFields.toCondition (f : ConditionFields) (t : Str) : Condition :=
  if t == "acl:ClientCondition" then
    .client ⟨strsToIds f.clients, strsToIds f.clientGroups, strsToIds f.clientClasses⟩
  else if t == "acl:IssuerCondition" then
    .issuer ⟨strsToIds f.issuers, strsToIds f.issuerGroups, strsToIds f.issuerClasses⟩
  else .unknown t

def conditionFields (prefixes : Prefixes) (body : Str) : ConditionFields :=
  (splitPredicateList body).foldl (conditionPair prefixes) .empty

/-- A body without a type is no condition. -/
def parseTurtleConditionBody (prefixes : Prefixes) (body : Str) : Option Condition :=
  let f := conditionFields prefixes body
  f.typeIri.map f.toCondition

/-- The text up to the `]` that closes `depth` open brackets, and the text after
it. -/
def closeBracket (depth : Nat) (inStr : Bool) : Str → Option (Str × Str)
  | [] => none
  | c :: cs =>
    let keep (r : Str × Str) : Str × Str := (c :: r.1, r.2)
    if c = '"' then (closeBracket depth (!inStr) cs).map keep
    else if c = '[' && !inStr then (closeBracket (depth + 1) inStr cs).map keep
    else if c = ']' && !inStr then
      if depth ≤ 1 then some ([], cs) else (closeBracket (depth - 1) inStr cs).map keep
    else (closeBracket depth inStr cs).map keep

/-- The next condition object, and the text after its comma. A bracketed body
without a type gives no condition; an unbalanced one, and anything that is not a
term, ends the list. -/
def nextConditionObject (prefixes : Prefixes) (remaining : Str) :
    Option (List Condition × Option Str) :=
  let r := trimStart remaining
  if r.isEmpty then none
  else
    match stripPrefix ['['] r with
    | some afterOpen =>
      (closeBracket 1 false afterOpen).map fun (body, rest) =>
        ((parseTurtleConditionBody prefixes body).toList, afterComma (trimStart rest))
    | none =>
      (turtlePopTerm r).map fun (tok, rest) =>
        ([.unknown (expandCurieOrIri prefixes tok)], afterComma rest)

def parseTurtleConditionObjects (prefixes : Prefixes) (input : Str) : List Condition :=
  (consumeAll (nextConditionObject prefixes) List.length (trim input)).flatten

/-- One predicate-object pair of a statement. A pair whose predicate cannot be
read drops the whole statement. -/
def authorizationPair (prefixes : Prefixes) (st : AclAuthorization × Bool) (pair : Str) :
    Option (AclAuthorization × Bool) :=
  let (auth, anyAuthz) := st
  let pair := trim pair
  if pair.isEmpty then some st
  else
    (turtlePopTerm pair).map fun (pred, rest) =>
      let pred := expandCurieOrIri prefixes pred
      let objects := parseObjectList prefixes (trim rest)
      if isTypePredicate pred then
        (auth, anyAuthz || objects.any fun o => isAclTerm "Authorization" o)
      else if isAclTerm "agent" pred then ({ auth with agent := some (idsOf objects) }, anyAuthz)
      else if isAclTerm "agentClass" pred then
        ({ auth with agentClass := some (idsOf objects) }, anyAuthz)
      else if isAclTerm "agentGroup" pred then
        ({ auth with agentGroup := some (idsOf objects) }, anyAuthz)
      else if isAclTerm "origin" pred then ({ auth with origin := some (idsOf objects) }, anyAuthz)
      else if isAclTerm "accessTo" pred then
        ({ auth with accessTo := some (idsOf objects) }, anyAuthz)
      else if isAclTerm "default" pred then
        ({ auth with default := some (idsOf objects) }, anyAuthz)
      else if isAclTerm "mode" pred then ({ auth with mode := some (idsOf objects) }, anyAuthz)
      else if isAclTerm "condition" pred then
        let parsed := parseTurtleConditionObjects prefixes (trim rest)
        ({ auth with condition := some (auth.conditions ++ parsed) }, anyAuthz)
      else (auth, anyAuthz)

def parseTurtleAuthorization (prefixes : Prefixes) (stmt : Str) : Option AclAuthorization :=
  let trimmed := trim stmt
  if trimmed.isEmpty then none
  else
    match turtlePopTerm trimmed with
    | none => none
    | some (_, body) =>
      match (splitPredicateList body).foldlM (authorizationPair prefixes) (.empty, false) with
      | none => none
      | some (auth, anyAuthz) => if anyAuthz then some auth else none

/-- One line of the document: a `@prefix` directive binds a name, every other
line belongs to the body. -/
def prefixLine (st : Prefixes × Str) (line : Str) : Prefixes × Str :=
  let (prefixes, body) := st
  match stripPrefix "@prefix" (trim line) with
  | none => (prefixes, body ++ line ++ ['\n'])
  | some rest =>
    match splitOnce ':' (trim rest) with
    | none => st
    | some (name, iriPart) =>
      let iriPart := trim (trimEndMatches '.' (trim iriPart))
      let iri := trim (trimEndMatches '>' (trimStartMatches '<' iriPart))
      ((trim name, iri) :: prefixes, body)

/-- The prefixes in scope and the body without its directives. -/
def readPrefixes (cleaned : Str) : Prefixes × Str :=
  (lines cleaned).foldl prefixLine (defaultPrefixes, [])

/-- The statements of a document, and the prefixes they are read with. -/
def turtleStatements (input : Str) : Prefixes × List Str :=
  let (prefixes, body) := readPrefixes (stripTurtleComments input)
  (prefixes, splitTurtleStatements body)

def parseTurtleAclWithLimit (input : Str) (maxBytes : Nat) : Except PodError AclDocument :=
  if byteLen input > maxBytes then
    .error (.payloadTooLarge ("ACL body exceeds " ++ decimal maxBytes ++ " bytes"))
  else
    let (prefixes, statements) := turtleStatements input
    let graph := statements.filterMap fun stmt =>
      if (trim stmt).isEmpty then none else parseTurtleAuthorization prefixes stmt
    .ok ⟨if graph.isEmpty then none else some graph⟩

end Wac

end SolidPod
