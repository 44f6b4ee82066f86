import SolidPod.Ldp.Graph

/-!
# PATCH of a graph

Two dialects patch a graph. An N3 patch names its triples in the `insert`,
`delete` and `where` blocks found anywhere in the body; a SPARQL Update is
parsed by the SPARQL library into operations over ground triples. Both come down
to the triples that have to be there and an edit script.
-/

namespace SolidPod

namespace Ldp

open Foundation Str

/-- Outcome of evaluating a PATCH request. -/
structure PatchOutcome where
  graph : Graph
  inserted : Nat
  deleted : Nat
  deriving DecidableEq

/-! ## N3 -/

/-- A keyword does not match inside a longer word. -/
def leftBoundary : Option Char → Bool
  | none => true
  | some c => !(c.isAlphanum || c == '_')

/-- The text up to the `}` that closes `depth` open braces. -/
def closeBrace : Nat → Str → Option Str
  | _, [] => none
  | depth, c :: cs =>
    if c = '{' then (closeBrace (depth + 1) cs).map (c :: ·)
    else if c = '}' then
      if depth = 1 then some [c] else (closeBrace (depth - 1) cs).map (c :: ·)
    else (closeBrace depth cs).map (c :: ·)

/-- The block that follows a keyword, with its braces. -/
def blockAfter (tail : Str) : Option Str :=
  let trimmed := trimStart tail
  if startsWith ['{'] trimmed then closeBrace 0 trimmed else none

/-- The search for the block of one keyword: `skip` characters are passed over
after an occurrence that has no block, `prev` is the character before. -/
def searchBlock (needle : Str) : Nat → Option Char → Str → Option Str
  | _, _, [] => none
  | skip + 1, _, c :: cs => searchBlock needle skip (some c) cs
  | 0, prev, c :: cs =>
    if startsWith needle (toAsciiLowercase (c :: cs)) then
      let block := if leftBoundary prev then blockAfter ((c :: cs).drop needle.length) else none
      block.or (searchBlock needle (needle.length - 1) (some c) cs)
    else searchBlock needle 0 (some c) cs

def extractBlock (source : Str) (keywords : List Str) : Option Str :=
  keywords.findSome? fun kw => searchBlock (toAsciiLowercase kw) 0 none source

def stripBraces (block : Str) : Str :=
  let t := trim block
  let t := (stripPrefix ['{'] t).getD t
  let t := (stripSuffix ['}'] t).getD t
  trim t

/-- The triples of a block; a block that is not there has none. -/
def blockGraph (block : Str) : Except PodError Graph :=
  if block.isEmpty then .ok ∅ else parseNtriples (stripBraces block)

def insertBlock (patch : Str) : Str :=
  (extractBlock patch ["insert", "inserts", "solid:inserts"]).getD []

def deleteBlock (patch : Str) : Str :=
  (extractBlock patch ["delete", "deletes", "solid:deletes"]).getD []

def whereBlock (patch : Str) : Option Str := extractBlock patch ["where", "solid:where"]

/-- The triples of the `where` block. -/
def whereGraph (patch : Str) : Except PodError Graph :=
  match whereBlock patch with
  | none => .ok ∅
  | some wc => if (trim wc).isEmpty then .ok ∅ else parseNtriples (stripBraces wc)

def subtract (g other : Graph) : Graph := other.items.foldl (fun g t => g.remove t) g

def extend (g other : Graph) : Graph := other.items.foldl (fun g t => g.insert t) g

theorem mem_foldl_remove {ts : List Triple} {g : Graph} {t : Triple} :
    t ∈ ts.foldl (fun g u => g.remove u) g ↔ t ∈ g ∧ t ∉ ts := by
  induction ts generalizing g with
  | nil => simp
  | cons u ts ih =>
      rw [List.foldl_cons, ih, SortedSet.mem_remove, List.mem_cons, not_or, and_assoc]

theorem mem_subtract {target deletes : Graph} {t : Triple} :
    t ∈ subtract target deletes ↔ t ∈ target ∧ t ∉ deletes :=
  mem_foldl_remove

theorem mem_extend_subtract {target deletes inserts : Graph} {t : Triple} :
    t ∈ extend (subtract target deletes) inserts ↔ (t ∈ target ∧ t ∉ deletes) ∨ t ∈ inserts := by
  rw [extend, SortedSet.mem_foldl_insert, mem_subtract, or_comm]
  rfl

/-- The `Debug` format of an optional string. -/
def debugOption (printable : Char → Bool) : Option Str → Str
  | none => "None"
  | some s => "Some(" ++ debug printable s ++ ")"

def Term.debug (printable : Char → Bool) : Term → Str
  | .iri i => "Iri(" ++ Str.debug printable i ++ ")"
  | .blankNode b => "BlankNode(" ++ Str.debug printable b ++ ")"
  | .literal v d l =>
    "Literal \x7b value: " ++ Str.debug printable v ++ ", datatype: " ++ debugOption printable d ++
      ", language: " ++ debugOption printable l ++ " \x7d"

def Triple.debug (printable : Char → Bool) (t : Triple) : Str :=
  "Triple \x7b subject: " ++ t.subject.debug printable ++ ", predicate: " ++
    t.predicate.debug printable ++ ", object: " ++ t.object.debug printable ++ " \x7d"

def whereMissing (printable : Char → Bool) (t : Triple) : PodError :=
  .preconditionFailed ("WHERE clause triple missing: " ++ t.debug printable)

/-- Every triple of the `where` block is in the target. -/
def checkWhere (printable : Char → Bool) (target whereGraph : Graph) : Except PodError Unit :=
  match whereGraph.items.find? (· ∉ target) with
  | some t => .error (whereMissing printable t)
  | none => .ok ()

def applyN3Patch (printable : Char → Bool) (target : Graph) (patch : Str) :
    Except PodError PatchOutcome := do
  let insertGraph ← blockGraph (insertBlock patch)
  let deleteGraph ← blockGraph (deleteBlock patch)
  let whereGraph ← whereGraph patch
  checkWhere printable target whereGraph
  return {
    graph := extend (subtract target deleteGraph) insertGraph
    inserted := insertGraph.items.length
    deleted := (deleteGraph.items.filter (· ∈ target)).length }

/-! ## SPARQL Update -/

/-- A literal of the SPARQL library, whose datatype is always there. -/
structure SpLiteral where
  value : Str
  datatype : Str
  language : Option Str

inductive Subject where
  | namedNode (n : Str)
  | blankNode (b : Str)

inductive SpTerm where
  | namedNode (n : Str)
  | blankNode (b : Str)
  | literal (l : SpLiteral)

inductive GroundSubject where
  | namedNode (n : Str)

inductive GroundTerm where
  | namedNode (n : Str)
  | literal (l : SpLiteral)

inductive GroundTermPattern where
  | namedNode (n : Str)
  | literal (l : SpLiteral)
  | variable (v : Str)

inductive TermPattern where
  | namedNode (n : Str)
  | blankNode (b : Str)
  | literal (l : SpLiteral)
  | variable (v : Str)

inductive NamedNodePattern where
  | namedNode (n : Str)
  | variable (v : Str)

inductive GraphName where
  | defaultGraph
  | namedNode (n : Str)

inductive GraphNamePattern where
  | defaultGraph
  | namedNode (n : Str)
  | variable (v : Str)

structure Quad where
  subject : Subject
  predicate : Str
  object : SpTerm
  graphName : GraphName

structure GroundQuad where
  subject : GroundSubject
  predicate : Str
  object : GroundTerm
  graphName : GraphName

structure GroundQuadPattern where
  subject : GroundTermPattern
  predicate : NamedNodePattern
  object : GroundTermPattern
  graphName : GraphNamePattern

structure QuadPattern where
  subject : TermPattern
  predicate : NamedNodePattern
  object : TermPattern
  graphName : GraphNamePattern

/-- An operation of an update; `other` carries its `Debug` format. -/
inductive GraphUpdateOperation where
  | insertData (data : List Quad)
  | deleteData (data : List GroundQuad)
  | deleteInsert (delete : List GroundQuadPattern) (insert : List QuadPattern)
  | other (debug : Str)

/-- The reader of the SPARQL library. -/
abbrev UpdateParser := Str → Except Str (List GraphUpdateOperation)

def xsdString : Str := "http://www.w3.org/2001/XMLSchema#string"

/-- A plain literal has no datatype here and `xsd:string` in the library. -/
def buildLiteral (value : Str) (datatype language : Option Str) : Term :=
  .literal value (datatype.filter (· ≠ xsdString)) language

def mapLiteral (lit : SpLiteral) : Term :=
  match lit.language with
  | some lang => buildLiteral lit.value none (some lang)
  | none => buildLiteral lit.value (some lit.datatype) none

def mapSubject : Subject → Option Term
  | .namedNode n => some (.iri n)
  | .blankNode b => some (.blankNode b)

def mapTerm : SpTerm → Option Term
  | .namedNode n => some (.iri n)
  | .blankNode b => some (.blankNode b)
  | .literal lit => some (mapLiteral lit)

def mapGroundSubject : GroundSubject → Option Term
  | .namedNode n => some (.iri n)

def mapGroundTerm : GroundTerm → Option Term
  | .namedNode n => some (.iri n)
  | .literal lit => some (mapLiteral lit)

def mapGroundTermPattern : GroundTermPattern → Option Term
  | .namedNode n => some (.iri n)
  | .literal lit => some (mapLiteral lit)
  | .variable _ => none

def quadToTriple (q : Quad) : Option Triple :=
  match q.graphName with
  | .defaultGraph => do
    let subject ← mapSubject q.subject
    let object ← mapTerm q.object
    return ⟨subject, .iri q.predicate, object⟩
  | _ => none

def groundQuadToTriple (q : GroundQuad) : Option Triple :=
  match q.graphName with
  | .defaultGraph => do
    let subject ← mapGroundSubject q.subject
    let object ← mapGroundTerm q.object
    return ⟨subject, .iri q.predicate, object⟩
  | _ => none

def groundQuadPatternToTriple (q : GroundQuadPattern) : Option Triple :=
  match q.graphName, q.predicate with
  | .defaultGraph, .namedNode n => do
    let subject ← mapGroundTermPattern q.subject
    let object ← mapGroundTermPattern q.object
    return ⟨subject, .iri n, object⟩
  | _, _ => none

def convertTermPattern : TermPattern → Option GroundTermPattern
  | .namedNode n => some (.namedNode n)
  | .literal l => some (.literal l)
  | _ => none

/-- A template without variables and blank nodes. -/
def convertQuadPatternToGround (q : QuadPattern) : Option GroundQuadPattern := do
  let subject ← convertTermPattern q.subject
  let predicate ←
    match q.predicate with
    | .namedNode n => some (NamedNodePattern.namedNode n)
    | .variable _ => none
  let object ← convertTermPattern q.object
  let graphName ←
    match q.graphName with
    | .defaultGraph => some GraphNamePattern.defaultGraph
    | .namedNode n => some (.namedNode n)
    | .variable _ => none
  return ⟨subject, predicate, object, graphName⟩

def insertTriple (o : PatchOutcome) (t : Triple) : PatchOutcome :=
  if t ∈ o.graph then o else { o with graph := o.graph.insert t, inserted := o.inserted + 1 }

def deleteTriple (o : PatchOutcome) (t : Triple) : PatchOutcome :=
  if t ∈ o.graph then { o with graph := o.graph.remove t, deleted := o.deleted + 1 } else o

def runOperation (o : PatchOutcome) : GraphUpdateOperation → Except PodError PatchOutcome
  | .insertData data => .ok ((data.filterMap quadToTriple).foldl insertTriple o)
  | .deleteData data => .ok ((data.filterMap groundQuadToTriple).foldl deleteTriple o)
  | .deleteInsert delete insert =>
    let o := (delete.filterMap groundQuadPatternToTriple).foldl deleteTriple o
    .ok ((insert.filterMap fun q =>
      (convertQuadPatternToGround q).bind groundQuadPatternToTriple).foldl insertTriple o)
  | .other debug => .error (.unsupported ("unsupported SPARQL operation: " ++ debug))

def applySparqlPatch (parse : UpdateParser) (target : Graph) (update : Str) :
    Except PodError PatchOutcome :=
  match parse update with
  | .error e => .error (.unsupported ("SPARQL parse error: " ++ e))
  | .ok ops => ops.foldlM runOperation ⟨target, 0, 0⟩

/-! ## Choice of the dialect -/

inductive PatchDialect where
  | n3
  | sparqlUpdate
  | jsonPatch
  deriving DecidableEq

def patchDialectFromMime (mime : Str) : Option PatchDialect :=
  let m := toAsciiLowercase (trim (((splitOnce ';' mime).map Prod.fst).getD mime))
  if m == "text/n3" || m == "application/n3" then some .n3
  else if m == "application/sparql-update" || m == "application/sparql-update+update" then
    some .sparqlUpdate
  else if m == "application/json-patch+json" then some .jsonPatch
  else none

/-- Outcome of applying a PATCH to a path that had no prior resource. -/
inductive PatchCreateOutcome where
  | created (inserted : Nat) (graph : Graph)
  | applied (inserted deleted : Nat) (graph : Graph)

def applyPatchToAbsent (printable : Char → Bool) (parse : UpdateParser) (dialect : PatchDialect)
    (body : Str) : Except PodError PatchCreateOutcome :=
  match dialect with
  | .n3 => (applyN3Patch printable ∅ body).map fun o => .created o.inserted o.graph
  | .sparqlUpdate => (applySparqlPatch parse ∅ body).map fun o => .created o.inserted o.graph
  | .jsonPatch => .error (.unsupported "JSON Patch on absent resource")

/-! ## Both dialects as edit scripts -/

/-- The edits of an N3 patch: its deletions, then its insertions. -/
def n3Edits (deleteGraph insertGraph : Graph) : List (Edit Triple) :=
  deleteGraph.items.map .delete ++ insertGraph.items.map .insert

def GraphUpdateOperation.edits : GraphUpdateOperation → List (Edit Triple)
  | .insertData data => (data.filterMap quadToTriple).map .insert
  | .deleteData data => (data.filterMap groundQuadToTriple).map .delete
  | .deleteInsert delete insert =>
    (delete.filterMap groundQuadPatternToTriple).map .delete ++
      (insert.filterMap fun q =>
        (convertQuadPatternToGround q).bind groundQuadPatternToTriple).map .insert
  | .other _ => []

theorem extend_subtract (target deleteGraph insertGraph : Graph) :
    extend (subtract target deleteGraph) insertGraph =
      Edit.apply (n3Edits deleteGraph insertGraph) target := by
  rw [n3Edits, Edit.apply_append, Edit.apply, Edit.apply, List.foldl_map, List.foldl_map]
  rfl

theorem graph_foldl_insertTriple (ts : List Triple) (o : PatchOutcome) :
    (ts.foldl insertTriple o).graph = Edit.apply (ts.map .insert) o.graph := by
  induction ts generalizing o with
  | nil => rfl
  | cons t ts ih =>
      have hstep : (insertTriple o t).graph = o.graph.insert t := by
        rw [insertTriple]
        split
        · rename_i hmem
          ext u
          rw [SortedSet.mem_insert]
          constructor
          · exact Or.inr
          · rintro (rfl | hu)
            · exact hmem
            · exact hu
        · rfl
      rw [List.foldl_cons, ih, hstep]
      rfl

theorem graph_foldl_deleteTriple (ts : List Triple) (o : PatchOutcome) :
    (ts.foldl deleteTriple o).graph = Edit.apply (ts.map .delete) o.graph := by
  induction ts generalizing o with
  | nil => rfl
  | cons t ts ih =>
      have hstep : (deleteTriple o t).graph = o.graph.remove t := by
        rw [deleteTriple]
        split
        · rfl
        · rename_i hmem
          ext u
          rw [SortedSet.mem_remove]
          constructor
          · intro hu
            exact ⟨hu, fun heq => hmem (heq ▸ hu)⟩
          · exact And.left
      rw [List.foldl_cons, ih, hstep]
      rfl

/-- The error of an operation that is not one of the three. -/
def GraphUpdateOperation.unsupported? : GraphUpdateOperation → Option PodError
  | .other debug => some (.unsupported ("unsupported SPARQL operation: " ++ debug))
  | _ => none

/-- A supported operation runs its edits. -/
theorem runOperation_spec (o : PatchOutcome) (op : GraphUpdateOperation) :
    (runOperation o op).map PatchOutcome.graph =
      match op.unsupported? with
      | some e => .error e
      | none => .ok (Edit.apply op.edits o.graph) := by
  cases op with
  | insertData data => exact congrArg Except.ok (graph_foldl_insertTriple _ o)
  | deleteData data => exact congrArg Except.ok (graph_foldl_deleteTriple _ o)
  | deleteInsert delete insert =>
      refine congrArg Except.ok ?_
      rw [graph_foldl_insertTriple, graph_foldl_deleteTriple, GraphUpdateOperation.edits,
        Edit.apply_append]
  | other debug => rfl

/-- An update runs the edits of its operations, up to one it does not support. -/
theorem foldlM_runOperation_spec (ops : List GraphUpdateOperation) (o : PatchOutcome) :
    (ops.foldlM runOperation o).map PatchOutcome.graph =
      match ops.findSome? GraphUpdateOperation.unsupported? with
      | some e => .error e
      | none => .ok (Edit.apply (ops.flatMap GraphUpdateOperation.edits) o.graph) := by
  induction ops generalizing o with
  | nil => rfl
  | cons op ops ih =>
      have hop := runOperation_spec o op
      rw [List.foldlM_cons, List.findSome?_cons, List.flatMap_cons, Edit.apply_append]
      cases hstep : runOperation o op with
      | error e =>
          rw [hstep] at hop
          cases hu : op.unsupported? with
          | none =>
              rw [hu] at hop
              cases hop
          | some e' =>
              rw [hu] at hop
              cases hop
              rfl
      | ok o₁ =>
          rw [hstep] at hop
          cases hu : op.unsupported? with
          | some e =>
              rw [hu] at hop
              cases hop
          | none =>
              rw [hu] at hop
              change (ops.foldlM runOperation o₁).map PatchOutcome.graph = _
              rw [ih, Except.ok.inj hop]

/-- What a body asks of a graph: the triples that have to be in it, and the
edits that are made to it. -/
structure GraphPatch where
  condition : Graph
  edits : List (Edit Triple)
  deriving DecidableEq

/-- The dialects that patch a graph. -/
inductive RdfDialect where
  | n3
  | sparqlUpdate

def RdfDialect.toDialect : RdfDialect → PatchDialect
  | .n3 => .n3
  | .sparqlUpdate => .sparqlUpdate

/-- The patcher of an RDF dialect. -/
def applyRdfPatch (printable : Char → Bool) (parse : UpdateParser) (dialect : RdfDialect)
    (target : Graph) (body : Str) : Except PodError PatchOutcome :=
  match dialect with
  | .n3 => applyN3Patch printable target body
  | .sparqlUpdate => applySparqlPatch parse target body

/-- The reading of a body, which no graph takes part in. -/
def readPatch (parse : UpdateParser) (dialect : RdfDialect) (body : Str) :
    Except PodError GraphPatch :=
  match dialect with
  | .n3 => do
    let insertGraph ← blockGraph (insertBlock body)
    let deleteGraph ← blockGraph (deleteBlock body)
    let whereGraph ← whereGraph body
    return ⟨whereGraph, n3Edits deleteGraph insertGraph⟩
  | .sparqlUpdate =>
    match parse body with
    | .error e => .error (.unsupported ("SPARQL parse error: " ++ e))
    | .ok ops =>
      match ops.findSome? GraphUpdateOperation.unsupported? with
      | some e => .error e
      | none => .ok ⟨∅, ops.flatMap GraphUpdateOperation.edits⟩

/-- Applying a patch is reading it, checking its condition and running its
edits. -/
theorem applyRdfPatch_spec (printable : Char → Bool) (parse : UpdateParser)
    (dialect : RdfDialect) (target : Graph) (body : Str) :
    (applyRdfPatch printable parse dialect target body).map PatchOutcome.graph = (do
      let p ← readPatch parse dialect body
      checkWhere printable target p.condition
      return Edit.apply p.edits target) := by
  cases dialect with
  | n3 =>
      rw [applyRdfPatch, applyN3Patch, readPatch]
      cases blockGraph (insertBlock body) with
      | error e => rfl
      | ok insertGraph =>
          cases blockGraph (deleteBlock body) with
          | error e => rfl
          | ok deleteGraph =>
              cases whereGraph body with
              | error e => rfl
              | ok whereGraph =>
                  cases hcheck : checkWhere printable target whereGraph with
                  | error e => simp [bind, Except.bind, Except.map, pure, Except.pure, hcheck]
                  | ok u =>
                      simp [bind, Except.bind, Except.map, pure, Except.pure, hcheck,
                        extend_subtract]
  | sparqlUpdate =>
      rw [applyRdfPatch, applySparqlPatch, readPatch]
      cases parse body with
      | error e => rfl
      | ok ops =>
          simp only []
          rw [foldlM_runOperation_spec]
          cases ops.findSome? GraphUpdateOperation.unsupported? with
          | some e => rfl
          | none => rfl

/-- The `where` block of a patch has nothing to say about the empty graph
exactly when it is empty. -/
theorem checkWhere_empty (printable : Char → Bool) (whereGraph : Graph) :
    checkWhere printable ∅ whereGraph =
      match whereGraph.items with
      | [] => .ok ()
      | t :: _ => .error (whereMissing printable t) := by
  rw [checkWhere]
  cases whereGraph.items with
  | nil => rfl
  | cons t ts => simp

end Ldp

end SolidPod
