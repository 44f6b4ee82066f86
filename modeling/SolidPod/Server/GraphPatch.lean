import SolidPod.Ldp.NTriples
import SolidPod.Server.Steps

/-!
# PATCH of a stored graph

The handler of `PATCH` runs the library's patcher on a new graph, not on the one
that is stored, and stores what comes out. What it stores is the library's patch
of the stored graph only when the patch asks for no triple, settles every stored
triple itself, and adds triples that the N-Triples form keeps.
-/

namespace SolidPod

namespace Server

open Foundation Str Wac Ldp

/-- The terms that the SPARQL library inserts obey the grammar: an IRI holds no
`>` and no line break, a label no white space, a language tag neither white space
nor a dot. -/
def Grammatical (parse : UpdateParser) : Prop :=
  ∀ update ops, parse update = .ok ops → ∀ op ∈ ops, ∀ t,
    Edit.insert t ∈ op.edits → t.WellFormed

/-- A stored body is the text of a graph. -/
def ParsesTo (body : Bytes) (g : Graph) : Prop :=
  (fromUtf8 body).map parseNtriples = some (.ok g)

theorem parsesTo_utf8_iff {text : Str} {g : Graph} :
    ParsesTo (utf8 text) g ↔ parseNtriples text = .ok g := by
  simp [ParsesTo]

/-! ## The triples that a patch adds -/

theorem insert_mem_of_mem_added {es : List (Edit Triple)} {t : Triple} (h : t ∈ Edit.added es) :
    Edit.insert t ∈ es := by
  induction es with
  | nil => exact absurd h List.not_mem_nil
  | cons e es ih =>
      cases e with
      | insert u =>
          rw [Edit.added] at h
          split at h
          · exact List.mem_cons_of_mem _ (ih h)
          · rcases List.mem_cons.mp h with rfl | h
            · exact List.mem_cons_self
            · exact List.mem_cons_of_mem _ (ih h)
      | delete u => exact List.mem_cons_of_mem _ (ih h)

theorem wellFormed_of_blockGraph {block : Str} {g : Graph} (h : blockGraph block = .ok g) :
    ∀ t ∈ g, t.WellFormed := by
  rw [blockGraph] at h
  split at h
  · cases h
    intro t ht
    exact absurd ht (SortedSet.notMem_empty t)
  · exact wellFormed_of_parseNtriples h

/-- What a body inserts is well formed. -/
theorem wellFormed_of_readPatch {parse : UpdateParser} (hparse : Grammatical parse)
    {dialect : RdfDialect} {body : Str} {p : GraphPatch}
    (h : readPatch parse dialect body = .ok p) : ∀ t ∈ Edit.added p.edits, t.WellFormed := by
  intro t ht
  have hinsert := insert_mem_of_mem_added ht
  cases dialect with
  | n3 =>
      rw [readPatch] at h
      cases hi : blockGraph (insertBlock body) with
      | error e =>
          rw [hi] at h
          cases h
      | ok insertGraph =>
          cases hd : blockGraph (deleteBlock body) with
          | error e =>
              rw [hi, hd] at h
              cases h
          | ok deleteGraph =>
              cases hw : whereGraph body with
              | error e =>
                  rw [hi, hd, hw] at h
                  cases h
              | ok whereGraph =>
                  rw [hi, hd, hw] at h
                  cases h
                  have hmem : t ∈ insertGraph.items := by simpa [n3Edits] using hinsert
                  exact wellFormed_of_blockGraph hi t hmem
  | sparqlUpdate =>
      rw [readPatch] at h
      cases hops : parse body with
      | error e =>
          rw [hops] at h
          cases h
      | ok ops =>
          rw [hops] at h
          simp only [] at h
          split at h
          · cases h
          · cases h
            obtain ⟨op, hop, hedit⟩ := List.mem_flatMap.mp hinsert
            exact hparse body ops hops op hop t hedit

/-! ## The handler -/

section Handler

variable {σ : Type*} [Storage σ] (sv : Services)

/-- A successful `PATCH` leaves the text of `g`, and a `where` clause is never
reported as not met. -/
structure PatchRefines (s : σ) (req : HttpRequest) (g : Graph) : Prop where
  stored : (handlePatch sv s req).1.status = 204 → ∃ body metadata,
    Storage.get (handlePatch sv s req).2 req.path = .ok (body, metadata) ∧ ParsesTo body g
  whereHolds : ∀ t, (handlePatch sv s req).1 ≠ patchParseErr (whereMissing sv.printable t)

variable {sv}

theorem patchExisting_toDialect (dialect : RdfDialect) (patch : Str) (current : Bytes)
    (metadata : ResourceMeta) :
    patchExisting sv dialect.toDialect patch current metadata =
      match applyRdfPatch sv.printable sv.updateParser dialect ∅ patch with
      | .error e => .answer (patchParseErr e)
      | .ok o => storeGraph o.graph 204 := by
  cases dialect <;> rfl

/-- What the handler does with a patch that it could read: it rejects the patch
when the patch asks for a triple, and stores its effect on the empty graph
otherwise. -/
theorem handlePatch_toDialect {s : σ} {req : HttpRequest} {dialect : RdfDialect} {patch : Str}
    {current : Bytes} {metadata : ResourceMeta} {p : GraphPatch}
    (hpasses : admitPatch sv s req = .ok (dialect.toDialect, patch))
    (hstored : Storage.get s req.path = .ok (current, metadata))
    (hread : readPatch sv.updateParser dialect patch = .ok p) :
    handlePatch sv s req =
      match p.condition.items with
      | t :: _ => (patchParseErr (whereMissing sv.printable t), s)
      | [] => runPlan s req.path (storeGraph (Edit.apply p.edits ∅) 204) := by
  have hspec := applyRdfPatch_spec sv.printable sv.updateParser dialect ∅ patch
  rw [hread] at hspec
  simp only [bind, Except.bind, checkWhere_empty] at hspec
  rw [handlePatch, hpasses]
  simp only [hstored, planPatch, patchExisting_toDialect]
  cases happly : applyRdfPatch sv.printable sv.updateParser dialect ∅ patch with
  | error e =>
      rw [happly] at hspec
      cases hitems : p.condition.items with
      | nil =>
          rw [hitems] at hspec
          cases hspec
      | cons t ts =>
          rw [hitems] at hspec
          cases hspec
          rfl
  | ok o =>
      rw [happly] at hspec
      cases hitems : p.condition.items with
      | nil =>
          rw [hitems] at hspec
          have hgraph : o.graph = Edit.apply p.edits ∅ := Except.ok.inj hspec
          simp only [hgraph]
      | cons t ts =>
          rw [hitems] at hspec
          cases hspec

theorem runPlan_storeGraph [LawfulStorage σ] {s : σ} {path : Str} (hpath : IsAbsolute path)
    {g : Graph} (status : Nat) {m : ResourceMeta}
    (hput : (Storage.put s path (utf8 (toNtriples g)) "text/turtle").1 = .ok m) :
    (runPlan s path (storeGraph g status)).1 = emptyResponse status ∧
      Storage.get (runPlan s path (storeGraph g status)).2 path =
        .ok (utf8 (toNtriples g), m) := by
  cases hstep : Storage.put s path (utf8 (toNtriples g)) "text/turtle" with
  | mk answer s' =>
      rw [hstep] at hput
      have hanswer : answer = .ok m := hput
      subst hanswer
      constructor
      · simp only [storeGraph, runPlan, hstep]
      · simp only [storeGraph, runPlan, hstep]
        exact (LawfulStorage.get_put_self hpath hstep).1

/-- The library's patch of a graph, by what the body asks of it. -/
theorem readPatch_of_applyRdfPatch {dialect : RdfDialect} {patch : Str} {g : Graph}
    {outcome : PatchOutcome}
    (h : applyRdfPatch sv.printable sv.updateParser dialect g patch = .ok outcome) :
    ∃ p, readPatch sv.updateParser dialect patch = .ok p ∧
      outcome.graph = Edit.apply p.edits g := by
  have hspec := applyRdfPatch_spec sv.printable sv.updateParser dialect g patch
  rw [h] at hspec
  cases hread : readPatch sv.updateParser dialect patch with
  | error e =>
      rw [hread] at hspec
      cases hspec
  | ok p =>
      rw [hread] at hspec
      simp only [bind, Except.bind] at hspec
      cases hcheck : checkWhere sv.printable g p.condition with
      | error e =>
          rw [hcheck] at hspec
          cases hspec
      | ok u =>
          rw [hcheck] at hspec
          exact ⟨p, rfl, Except.ok.inj hspec⟩

/-- What the effect of a patch on the empty graph is read back as is its effect
on `g` exactly when it settles every triple of `g` and adds storable ones. -/
theorem parseNtriples_apply_empty_iff {es : List (Edit Triple)} {g : Graph}
    (hes : ∀ t ∈ Edit.added es, t.WellFormed) :
    parseNtriples (toNtriples (Edit.apply es ∅)) = .ok (Edit.apply es g) ↔
      (∀ t ∈ g, t ∈ Edit.removed es ∨ t ∈ Edit.added es) ∧
        ∀ t ∈ Edit.added es, t.Storable := by
  have hwf : ∀ t ∈ Edit.apply es ∅, t.WellFormed := by
    intro t ht
    exact hes t (Edit.mem_apply_empty.mp ht)
  have hsub : ∀ t ∈ Edit.apply es ∅, t ∈ Edit.apply es g := by
    intro t ht
    exact Edit.mem_apply.mpr (Or.inl (Edit.mem_apply_empty.mp ht))
  rw [parseNtriples_toNtriples_superset_iff hwf hsub, Edit.apply_empty_eq_apply_iff]
  constructor
  · rintro ⟨hsettled, hstorable⟩
    exact ⟨hsettled, fun t ht => hstorable t (Edit.mem_apply_empty.mpr ht)⟩
  · rintro ⟨hsettled, hstorable⟩
    exact ⟨hsettled, fun t ht => hstorable t (Edit.mem_apply_empty.mp ht)⟩

theorem emptyResponse_ne_patchParseErr (t : Triple) :
    emptyResponse 204 ≠ patchParseErr (whereMissing sv.printable t) := by
  intro h
  have hstatus : (204 : Nat) = 412 := congrArg HttpResponse.status h
  exact absurd hstatus (by decide)

/-- What the handler leaves for a patch that asks for no triple. -/
theorem patchRefines_iff_of_condition_eq_empty [LawfulStorage σ] {s : σ} {req : HttpRequest}
    {dialect : RdfDialect} {patch : Str} {current : Bytes} {metadata : ResourceMeta}
    {p : GraphPatch} {g : Graph}
    (hpasses : admitPatch sv s req = .ok (dialect.toDialect, patch))
    (hput : ∀ body contentType, ∃ m, (Storage.put s req.path body contentType).1 = .ok m)
    (hstored : Storage.get s req.path = .ok (current, metadata))
    (hread : readPatch sv.updateParser dialect patch = .ok p) (hcondition : p.condition = ∅) :
    PatchRefines sv s req g ↔ parseNtriples (toNtriples (Edit.apply p.edits ∅)) = .ok g := by
  have hpatch := handlePatch_toDialect hpasses hstored hread
  rw [hcondition] at hpatch
  simp only [SortedSet.items_empty] at hpatch
  obtain ⟨m, hm⟩ := hput (utf8 (toNtriples (Edit.apply p.edits ∅))) "text/turtle"
  obtain ⟨hanswer, hget⟩ := runPlan_storeGraph req.canonical.absolute 204 hm
  rw [← hpatch] at hanswer hget
  constructor
  · rintro ⟨hleft, -⟩
    obtain ⟨body, metadata', hbody, hparses⟩ := hleft (by rw [hanswer]; rfl)
    rw [hget] at hbody
    cases hbody
    exact parsesTo_utf8_iff.mp hparses
  · intro hparses
    refine ⟨fun _ => ⟨_, _, hget, parsesTo_utf8_iff.mpr hparses⟩, ?_⟩
    intro t
    rw [hanswer]
    exact emptyResponse_ne_patchParseErr t

/-- The handler refines the library's patch of the stored graph exactly when the
patch asks for no triple, removes or adds every stored triple itself, and adds
only triples that are storable. -/
theorem patchRefines_iff [LawfulStorage σ] (hparse : Grammatical sv.updateParser) {s : σ}
    {req : HttpRequest} {dialect : RdfDialect} {patch : Str} {g : Graph} {metadata : ResourceMeta}
    {outcome : PatchOutcome} (hpasses : admitPatch sv s req = .ok (dialect.toDialect, patch))
    (hput : ∀ body contentType, ∃ m, (Storage.put s req.path body contentType).1 = .ok m)
    (hstored : Storage.get s req.path = .ok (utf8 (toNtriples g), metadata))
    (hlib : applyRdfPatch sv.printable sv.updateParser dialect g patch = .ok outcome) :
    PatchRefines sv s req outcome.graph ↔
      ∃ p, readPatch sv.updateParser dialect patch = .ok p ∧ p.condition = ∅ ∧
        (∀ t ∈ g, t ∈ Edit.removed p.edits ∨ t ∈ Edit.added p.edits) ∧
        ∀ t ∈ Edit.added p.edits, t.Storable := by
  obtain ⟨p, hread, houtcome⟩ := readPatch_of_applyRdfPatch hlib
  have hiff := parseNtriples_apply_empty_iff (g := g) (wellFormed_of_readPatch hparse hread)
  constructor
  · intro hrefines
    have hcondition : p.condition = ∅ := by
      cases hitems : p.condition.items with
      | nil =>
          ext t
          rw [SortedSet.mem_def, hitems]
          simp
      | cons t ts =>
          have hpatch := handlePatch_toDialect hpasses hstored hread
          rw [hitems] at hpatch
          exact absurd (congrArg Prod.fst hpatch) (hrefines.whereHolds t)
    rw [patchRefines_iff_of_condition_eq_empty hpasses hput hstored hread hcondition, houtcome,
      hiff] at hrefines
    exact ⟨p, hread, hcondition, hrefines⟩
  · rintro ⟨p', hread', hcondition, hsettled⟩
    rw [hread] at hread'
    cases hread'
    rw [patchRefines_iff_of_condition_eq_empty hpasses hput hstored hread hcondition, houtcome,
      hiff]
    exact hsettled

end Handler

/-! ## Two patches of one document -/

def insertB : Str := "insert \x7b <b> <p> <y> . \x7d"

def replaceAByB : Str := "delete \x7b <a> <p> <x> . \x7d insert \x7b <b> <p> <y> . \x7d"

/-- A patch that also deletes the stored triple is refined. -/
theorem patchRefines_replaceAByB : PatchRefines turtleServices docPod (patchDoc replaceAByB)
    (SortedSet.ofList [tripleB]) := by
  have hlib : applyRdfPatch turtleServices.printable turtleServices.updateParser .n3 docGraph
      replaceAByB = .ok ⟨SortedSet.ofList [tripleB], 1, 1⟩ := by decide +kernel
  have hread : readPatch turtleServices.updateParser .n3 replaceAByB =
      .ok ⟨∅, [.delete tripleA, .insert tripleB]⟩ := by decide +kernel
  have hpasses : admitPatch turtleServices docPod (patchDoc replaceAByB) =
      .ok (RdfDialect.n3.toDialect, replaceAByB) := admitPatch_patchDoc replaceAByB
  refine (patchRefines_iff ?_ hpasses ?_ get_docPod_doc hlib).mpr ⟨_, hread, rfl, ?_, ?_⟩
  · intro update ops hops
    cases hops
  · intro body contentType
    exact ⟨_, MemoryBackend.put_fst _ _ _ _⟩
  · decide +kernel
  · intro t ht
    have ht : t = tripleB := by simpa [Edit.added, Edit.removed] using ht
    subst ht
    exact ⟨trivial, trivial, trivial⟩

/-- A patch that only inserts loses the stored triple. -/
theorem not_patchRefines_insertB : ∃ outcome, applyRdfPatch turtleServices.printable
    turtleServices.updateParser .n3 docGraph insertB = .ok outcome ∧
      ¬ PatchRefines turtleServices docPod (patchDoc insertB) outcome.graph := by
  have hlib : applyRdfPatch turtleServices.printable turtleServices.updateParser .n3 docGraph
      insertB = .ok ⟨SortedSet.ofList [tripleA, tripleB], 1, 0⟩ := by decide +kernel
  have hread : readPatch turtleServices.updateParser .n3 insertB =
      .ok ⟨∅, [.insert tripleB]⟩ := by decide +kernel
  refine ⟨_, hlib, ?_⟩
  have hpasses : admitPatch turtleServices docPod (patchDoc insertB) =
      .ok (RdfDialect.n3.toDialect, insertB) := admitPatch_patchDoc insertB
  rw [patchRefines_iff_of_condition_eq_empty hpasses
    (fun _ _ => ⟨_, MemoryBackend.put_fst _ _ _ _⟩) get_docPod_doc hread rfl]
  decide +kernel

end Server

end SolidPod
