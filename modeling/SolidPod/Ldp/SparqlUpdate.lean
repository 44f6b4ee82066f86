import SolidPod.Ldp.Patch

/-!
# What a SPARQL update means

An operation that the patcher can evaluate has a condition, deletions and
insertions over ground triples, and an update is the composition of its
operations from the left. The patcher does not look at the condition, and it
passes over what it cannot evaluate, so it follows an update exactly when every
operation before one that it rejects can be evaluated and, at its turn, has its
condition met or nothing to change.
-/

namespace SolidPod

namespace Ldp

open Foundation Str

/-! ## Parsed operations -/

structure TriplePattern where
  subject : TermPattern
  predicate : NamedNodePattern
  object : TermPattern

/-- The pattern of a `WHERE` clause: a basic graph pattern, or another operator
of the algebra. -/
inductive GraphPattern where
  | bgp (patterns : List TriplePattern)
  | other

/-- The graphs of a `USING` clause. -/
structure QueryDataset where
  default : List Str
  named : Option (List Str)

/-- An operation with all that the library parses of it. -/
inductive ParsedOperation where
  | insertData (data : List Quad)
  | deleteData (data : List GroundQuad)
  | deleteInsert (delete : List GroundQuadPattern) (insert : List QuadPattern)
      (dataset : Option QueryDataset) (pattern : GraphPattern)
  | other (debug : Str)

/-- What the patcher matches of an operation: the dataset and the pattern of a
`DELETE`/`INSERT` are left out. -/
def ParsedOperation.matched : ParsedOperation → GraphUpdateOperation
  | .insertData data => .insertData data
  | .deleteData data => .deleteData data
  | .deleteInsert delete insert _ _ => .deleteInsert delete insert
  | .other debug => .other debug

/-- The reader of the SPARQL library, with the patterns. -/
abbrev SparqlParser := Str → Except Str (List ParsedOperation)

def SparqlParser.updateParser (parse : SparqlParser) : UpdateParser := fun update =>
  (parse update).map (·.map ParsedOperation.matched)

/-! ## Meaning -/

/-- The term of a ground pattern. -/
def TermPattern.term? : TermPattern → Option Term
  | .namedNode n => some (.iri n)
  | .literal l => some (mapLiteral l)
  | .blankNode _ => none
  | .variable _ => none

def NamedNodePattern.term? : NamedNodePattern → Option Term
  | .namedNode n => some (.iri n)
  | .variable _ => none

def TriplePattern.triple? (p : TriplePattern) : Option Triple := do
  let subject ← p.subject.term?
  let predicate ← p.predicate.term?
  let object ← p.object.term?
  return ⟨subject, predicate, object⟩

/-- The triple of a ground template for the default graph. -/
def QuadPattern.triple? (q : QuadPattern) : Option Triple :=
  match q.graphName with
  | .defaultGraph => TriplePattern.triple? ⟨q.subject, q.predicate, q.object⟩
  | _ => none

/-- An operation over ground triples. -/
structure Meaning where
  condition : List Triple
  deletes : List Triple
  inserts : List Triple

/-- The meaning of an operation, if all of it can be evaluated on one graph. -/
def ParsedOperation.meaning? : ParsedOperation → Option Meaning
  | .insertData data => (data.mapM quadToTriple).map fun inserts => ⟨[], [], inserts⟩
  | .deleteData data => (data.mapM groundQuadToTriple).map fun deletes => ⟨[], deletes, []⟩
  | .deleteInsert delete insert none (.bgp patterns) => do
    let condition ← patterns.mapM TriplePattern.triple?
    let deletes ← delete.mapM groundQuadPatternToTriple
    let inserts ← insert.mapM QuadPattern.triple?
    return ⟨condition, deletes, inserts⟩
  | _ => none

def Meaning.Applies (m : Meaning) (g : Graph) : Prop := ∀ t ∈ m.condition, t ∈ g

/-- The graph without the deletions and with the insertions. -/
def Meaning.effect (m : Meaning) (g : Graph) : Graph :=
  extend (subtract g (SortedSet.ofList m.deletes)) (SortedSet.ofList m.inserts)

instance (m : Meaning) (g : Graph) : Decidable (m.Applies g) :=
  inferInstanceAs (Decidable (∀ t ∈ m.condition, t ∈ g))

/-- An operation is applied when its condition is contained in the graph. -/
def Meaning.run (m : Meaning) (g : Graph) : Graph := if m.Applies g then m.effect g else g

/-- The operation changes nothing in the graph: what it inserts is there, and
what it deletes is not, or is inserted again. -/
def Meaning.Idle (m : Meaning) (g : Graph) : Prop :=
  (∀ t ∈ m.inserts, t ∈ g) ∧ ∀ t ∈ m.deletes, t ∈ g → t ∈ m.inserts

/-- The patcher follows an update on a graph: an update that can be evaluated
ends in the composition of its operations, every other one in an error. -/
def Follows (target : Graph) (ops : List ParsedOperation) : Prop :=
  ∀ (parse : SparqlParser) (update : Str), parse update = .ok ops →
    match ops.mapM ParsedOperation.meaning? with
    | some ms => (applySparqlPatch parse.updateParser target update).map PatchOutcome.graph =
        .ok (ms.foldl (fun g m => m.run g) target)
    | none => ∃ e, applySparqlPatch parse.updateParser target update = .error e

/-- An operation of a kind that the patcher rejects. -/
def ParsedOperation.Rejected : ParsedOperation → Prop
  | .other _ => True
  | _ => False

/-- Every operation before one that is rejected can be evaluated, and at its turn
its condition is met or it has nothing to change. -/
def InStep : Graph → List ParsedOperation → Prop
  | _, [] => True
  | g, op :: ops => op.Rejected ∨
      ∃ m, op.meaning? = some m ∧ (m.Applies g ∨ m.Idle g) ∧ InStep (m.run g) ops

/-! ## One operation -/

theorem filterMap_of_mapM {α β : Type*} {f : α → Option β} {l : List α} {bs : List β}
    (h : l.mapM f = some bs) : l.filterMap f = bs := by
  induction l generalizing bs with
  | nil =>
      cases h
      rfl
  | cons a l ih =>
      rw [List.mapM_cons] at h
      cases hf : f a with
      | none =>
          rw [hf] at h
          cases h
      | some b =>
          rw [hf] at h
          cases hl : l.mapM f with
          | none =>
              rw [hl] at h
              cases h
          | some cs =>
              rw [hl] at h
              cases h
              rw [List.filterMap_cons_some hf, ih hl]

/-- The conversion of a template keeps it when it is ground. -/
theorem convert_bind_triple (q : QuadPattern) :
    ((convertQuadPatternToGround q).bind groundQuadPatternToTriple) = q.triple? := by
  obtain ⟨s, p, o, g⟩ := q
  cases g <;> cases s <;> cases p <;> cases o <;> rfl

theorem apply_deletes_inserts (deletes inserts : List Triple) (g : Graph) :
    Edit.apply (deletes.map .delete ++ inserts.map .insert) g =
      extend (subtract g (SortedSet.ofList deletes)) (SortedSet.ofList inserts) := by
  have hinsert (ts : List Triple) (g : Graph) {t : Triple} :
      t ∈ Edit.apply (ts.map .insert) g ↔ t ∈ ts ∨ t ∈ g := by
    rw [Edit.apply, List.foldl_map]
    exact SortedSet.mem_foldl_insert
  have hdelete (ts : List Triple) (g : Graph) {t : Triple} :
      t ∈ Edit.apply (ts.map .delete) g ↔ t ∈ g ∧ t ∉ ts := by
    rw [Edit.apply, List.foldl_map]
    exact mem_foldl_remove
  ext t
  rw [Edit.apply_append, hinsert, hdelete, mem_extend_subtract, SortedSet.mem_ofList,
    SortedSet.mem_ofList, or_comm]

/-- The edits that the patcher makes for an operation with a meaning are its
effect, whatever its condition. -/
theorem apply_edits_of_meaning {op : ParsedOperation} {m : Meaning} (h : op.meaning? = some m)
    (g : Graph) : Edit.apply op.matched.edits g = m.effect g := by
  cases op with
  | insertData data =>
      obtain ⟨inserts, hins, rfl⟩ := Option.map_eq_some_iff.mp h
      have heffect := apply_deletes_inserts [] inserts g
      rw [List.map_nil, List.nil_append] at heffect
      rw [ParsedOperation.matched, GraphUpdateOperation.edits, filterMap_of_mapM hins, heffect]
      rfl
  | deleteData data =>
      obtain ⟨deletes, hdel, rfl⟩ := Option.map_eq_some_iff.mp h
      have heffect := apply_deletes_inserts deletes [] g
      rw [List.map_nil, List.append_nil] at heffect
      rw [ParsedOperation.matched, GraphUpdateOperation.edits, filterMap_of_mapM hdel, heffect]
      rfl
  | deleteInsert delete insert dataset pattern =>
      cases dataset with
      | some ds => cases h
      | none =>
          cases pattern with
          | other => cases h
          | bgp patterns =>
              obtain ⟨condition, -, h⟩ := Option.bind_eq_some_iff.mp h
              obtain ⟨deletes, hdel, h⟩ := Option.bind_eq_some_iff.mp h
              obtain ⟨inserts, hins, h⟩ := Option.bind_eq_some_iff.mp h
              cases h
              rw [ParsedOperation.matched, GraphUpdateOperation.edits, filterMap_of_mapM hdel]
              simp only [convert_bind_triple]
              rw [filterMap_of_mapM hins, apply_deletes_inserts]
              rfl
  | other debug => cases h

theorem mem_effect {m : Meaning} {g : Graph} {t : Triple} :
    t ∈ m.effect g ↔ (t ∈ g ∧ t ∉ m.deletes) ∨ t ∈ m.inserts := by
  rw [Meaning.effect, mem_extend_subtract, SortedSet.mem_ofList, SortedSet.mem_ofList]

theorem effect_eq_self_iff (m : Meaning) (g : Graph) : m.effect g = g ↔ m.Idle g := by
  constructor
  · intro h
    constructor
    · intro t ht
      rw [← h, mem_effect]
      exact Or.inr ht
    · intro t ht htg
      rw [← h, mem_effect] at htg
      exact htg.resolve_left fun hkept => hkept.2 ht
  · rintro ⟨hinserts, hdeletes⟩
    ext t
    rw [mem_effect]
    constructor
    · rintro (hkept | ht)
      · exact hkept.1
      · exact hinserts t ht
    · intro ht
      by_cases hdel : t ∈ m.deletes
      · exact Or.inr (hdeletes t hdel ht)
      · exact Or.inl ⟨ht, hdel⟩

/-- What the patcher does for an operation is what it means exactly when its
condition is met or it is idle. -/
theorem run_eq_effect_iff (m : Meaning) (g : Graph) :
    m.effect g = m.run g ↔ m.Applies g ∨ m.Idle g := by
  rw [Meaning.run]
  by_cases happlies : m.Applies g
  · rw [if_pos happlies]
    exact ⟨fun _ => Or.inl happlies, fun _ => rfl⟩
  · rw [if_neg happlies, effect_eq_self_iff]
    exact ⟨Or.inr, fun h => h.resolve_left happlies⟩

/-! ## Updates -/

/-- The graph that the patcher ends with, if it rejects no operation. -/
def outcome : Graph → List ParsedOperation → Option Graph
  | g, [] => some g
  | g, op :: ops =>
    match op.matched.unsupported? with
    | some _ => none
    | none => outcome (Edit.apply op.matched.edits g) ops

theorem map_foldlM_runOperation (o : PatchOutcome) (ops : List ParsedOperation) :
    (∀ g, outcome o.graph ops = some g →
        ((ops.map ParsedOperation.matched).foldlM runOperation o).map PatchOutcome.graph = .ok g) ∧
      (outcome o.graph ops = none →
        ∃ e, (ops.map ParsedOperation.matched).foldlM runOperation o = .error e) := by
  induction ops generalizing o with
  | nil =>
      constructor
      · intro g hg
        cases hg
        rfl
      · intro h
        cases h
  | cons op ops ih =>
      have hspec := runOperation_spec o op.matched
      rw [List.map_cons, List.foldlM_cons, outcome]
      cases hu : op.matched.unsupported? with
      | some e =>
          rw [hu] at hspec
          cases hrun : runOperation o op.matched with
          | ok o' =>
              rw [hrun] at hspec
              cases hspec
          | error e' =>
              refine ⟨fun g hg => ?_, fun _ => ⟨e', rfl⟩⟩
              cases hg
      | none =>
          rw [hu] at hspec
          cases hrun : runOperation o op.matched with
          | error e' =>
              rw [hrun] at hspec
              cases hspec
          | ok o' =>
              rw [hrun] at hspec
              have hgraph : o'.graph = Edit.apply op.matched.edits o.graph := Except.ok.inj hspec
              have hrest := ih o'
              rw [hgraph] at hrest
              exact hrest

/-- Following an update, said of the graph that the patcher ends with. -/
theorem follows_iff_outcome (target : Graph) (ops : List ParsedOperation) :
    Follows target ops ↔ outcome target ops =
      (ops.mapM ParsedOperation.meaning?).map fun ms => ms.foldl (fun g m => m.run g) target := by
  have happly {parse : SparqlParser} {update : Str} (hparse : parse update = .ok ops) :
      applySparqlPatch parse.updateParser target update =
        (ops.map ParsedOperation.matched).foldlM runOperation ⟨target, 0, 0⟩ := by
    rw [applySparqlPatch, SparqlParser.updateParser, hparse]
    rfl
  obtain ⟨hsome, hnone⟩ := map_foldlM_runOperation ⟨target, 0, 0⟩ ops
  constructor
  · intro h
    have hfollows := h (fun _ => .ok ops) [] rfl
    rw [happly rfl] at hfollows
    cases hms : ops.mapM ParsedOperation.meaning? with
    | none =>
        rw [hms] at hfollows
        obtain ⟨e, he⟩ := hfollows
        cases hout : outcome target ops with
        | none => rfl
        | some g =>
            have hok := hsome g hout
            rw [he] at hok
            cases hok
    | some ms =>
        rw [hms] at hfollows
        cases hout : outcome target ops with
        | none =>
            obtain ⟨e, he⟩ := hnone hout
            rw [he] at hfollows
            cases hfollows
        | some g =>
            have hok := (hsome g hout).symm.trans hfollows
            exact congrArg some (Except.ok.inj hok)
  · intro h parse update hparse
    rw [happly hparse]
    cases hms : ops.mapM ParsedOperation.meaning? with
    | none =>
        rw [hms] at h
        exact hnone h
    | some ms =>
        rw [hms] at h
        exact hsome _ h

theorem unsupported_of_rejected {op : ParsedOperation} (h : op.Rejected) :
    op.meaning? = none ∧ ∃ e, op.matched.unsupported? = some e := by
  cases op with
  | other debug => exact ⟨rfl, _, rfl⟩
  | insertData data => exact h.elim
  | deleteData data => exact h.elim
  | deleteInsert delete insert dataset pattern => exact h.elim

theorem unsupported_of_not_rejected {op : ParsedOperation} (h : ¬op.Rejected) :
    op.matched.unsupported? = none := by
  cases op with
  | other debug => exact absurd trivial h
  | insertData data => rfl
  | deleteData data => rfl
  | deleteInsert delete insert dataset pattern => rfl

/-- An operation is followed exactly when it can be evaluated and has its
condition met or nothing to change; then what comes after it is followed from
the graph it leads to. -/
theorem follows_cons_iff {op : ParsedOperation} (hop : ¬op.Rejected) (target : Graph) :
    (Follows target [op] ↔ ∃ m, op.meaning? = some m ∧ (m.Applies target ∨ m.Idle target)) ∧
      ∀ m, op.meaning? = some m → m.Applies target ∨ m.Idle target → ∀ ops,
        (Follows target (op :: ops) ↔ Follows (m.run target) ops) := by
  have hout (ops : List ParsedOperation) : outcome target (op :: ops) =
      outcome (Edit.apply op.matched.edits target) ops := by
    rw [outcome, unsupported_of_not_rejected hop]
  constructor
  · rw [follows_iff_outcome, hout, List.mapM_cons]
    cases hm : op.meaning? with
    | none =>
        constructor
        · intro h
          cases h
        · rintro ⟨m, hm', -⟩
          cases hm'
    | some m =>
        rw [apply_edits_of_meaning hm]
        constructor
        · intro h
          exact ⟨m, rfl, (run_eq_effect_iff m target).mp (Option.some.inj h)⟩
        · rintro ⟨m', hm', hready⟩
          cases hm'
          exact congrArg some ((run_eq_effect_iff m target).mpr hready)
  · intro m hm hready ops
    rw [follows_iff_outcome, follows_iff_outcome, hout, apply_edits_of_meaning hm,
      (run_eq_effect_iff m target).mpr hready, List.mapM_cons, hm]
    cases ops.mapM ParsedOperation.meaning? with
    | none => exact Iff.rfl
    | some ms => exact Iff.rfl

theorem follows_nil (target : Graph) : Follows target [] := by
  rw [follows_iff_outcome]
  rfl

/-- An update that begins with a rejected operation ends in an error, as it
should. -/
theorem follows_of_rejected {op : ParsedOperation} (hop : op.Rejected) (target : Graph)
    (ops : List ParsedOperation) : Follows target (op :: ops) := by
  obtain ⟨hmeaning, e, he⟩ := unsupported_of_rejected hop
  rw [follows_iff_outcome, outcome, he, List.mapM_cons, hmeaning]
  rfl

/-- `INSERT { s p o } WHERE { s p needed }`. -/
def unmatchedInsert : ParsedOperation :=
  .deleteInsert [] [⟨.namedNode "s", .namedNode "p", .namedNode "o", .defaultGraph⟩] none
    (.bgp [⟨.namedNode "s", .namedNode "p", .namedNode "needed"⟩])

end Ldp

end SolidPod
