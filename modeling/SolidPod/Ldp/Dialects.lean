import SolidPod.Foundation.Fallible
import SolidPod.Ldp.PatchReading
import SolidPod.Ldp.SparqlUpdate

/-!
# One patch in two dialects

Ground triples are written in an N3 patch and in a SPARQL update with the same
text. The N3 patch is read by the N-Triples reader, octet by octet, and keeps
every datatype; the update is read by the SPARQL library, which knows plain
literals as `xsd:string` and writes language tags in its own way. So the two
dialects do the same to every graph exactly when each of the triples is read
alike.
-/

namespace SolidPod

namespace Ldp

open Foundation Str

/-! ## Written triples -/

/-- The object of a ground triple as it is written; the datatype of a literal may
be left out. -/
inductive WrittenObject where
  | iri (i : Str)
  | literal (value : Str) (datatype language : Option Str)

structure WrittenTriple where
  subject : Str
  predicate : Str
  object : WrittenObject

def WrittenObject.term : WrittenObject → Term
  | .iri i => .iri i
  | .literal value datatype language => .literal value datatype language

def WrittenTriple.triple (t : WrittenTriple) : Triple :=
  ⟨.iri t.subject, .iri t.predicate, t.object.term⟩

abbrev GroundTriple := { t : WrittenTriple // t.triple.Ground }

def rdfLangString : Str := "http://www.w3.org/1999/02/22-rdf-syntax-ns#langString"

/-- A written literal in the terms of the SPARQL library. -/
def spLiteral (tag : Str → Str) (value : Str) (datatype language : Option Str) : SpLiteral :=
  ⟨value, if language.isSome then rdfLangString else datatype.getD xsdString, language.map tag⟩

def WrittenObject.spTerm (tag : Str → Str) : WrittenObject → SpTerm
  | .iri i => .namedNode i
  | .literal value datatype language => .literal (spLiteral tag value datatype language)

def WrittenObject.groundTerm (tag : Str → Str) : WrittenObject → GroundTerm
  | .iri i => .namedNode i
  | .literal value datatype language => .literal (spLiteral tag value datatype language)

def GroundTriple.quad (tag : Str → Str) (t : GroundTriple) : Quad :=
  ⟨.namedNode t.1.subject, t.1.predicate, t.1.object.spTerm tag, .defaultGraph⟩

def GroundTriple.groundQuad (tag : Str → Str) (t : GroundTriple) : GroundQuad :=
  ⟨.namedNode t.1.subject, t.1.predicate, t.1.object.groundTerm tag, .defaultGraph⟩

/-! ## The two documents -/

theorem isWhitespace_of_mem_space : ∀ c ∈ [' '], isWhitespace c = true := by decide

def oneSpace : Gap := ⟨[' '], isWhitespace_of_mem_space⟩

def oneLine : Gap := ⟨['\n'], by decide⟩

/-- The statement of a triple, on a line of its own. -/
def GroundTriple.statement (t : GroundTriple) : Statement where
  triple := t.1.triple
  ground := t.2
  before := oneLine
  afterSubject := oneSpace
  afterPredicate := oneSpace
  afterObject := oneSpace

def deletesClause (deletes : List GroundTriple) : Clause where
  kind := .deletes
  gap := oneSpace
  statements := deletes.map GroundTriple.statement
  closing := oneLine
  after := " ;\n  "
  after_plain := by decide

def insertsClause (inserts : List GroundTriple) : Clause where
  kind := .inserts
  gap := oneSpace
  statements := inserts.map GroundTriple.statement
  closing := oneLine
  after := " .\n"
  after_plain := by decide

/-- The N3 patch that deletes the triples of one list and inserts those of
another. -/
def patchDocument (deletes inserts : List GroundTriple) : PatchDocument where
  preamble := "_:rename a solid:InsertDeletePatch ;\n  "
  preamble_plain := by decide
  clauses := [deletesClause deletes, insertsClause inserts]
  nodup := (by decide : [ClauseKind.deletes, .inserts].Nodup)

def dataText (triples : List GroundTriple) : Str :=
  "\x7b\n" ++ triples.flatMap (fun t => t.1.triple.writeNtriples ++ ['\n']) ++ "\x7d"

/-- `DELETE DATA { .. } ; INSERT DATA { .. }`. -/
def updateText (deletes inserts : List GroundTriple) : Str :=
  "DELETE DATA " ++ dataText deletes ++ " ;\nINSERT DATA " ++ dataText inserts

/-- The library reads the update as what is written there. -/
def ReadsUpdate (parse : UpdateParser) (tag : Str → Str) (deletes inserts : List GroundTriple) :
    Prop :=
  parse (updateText deletes inserts) =
    .ok [.deleteData (deletes.map (GroundTriple.groundQuad tag)),
      .insertData (inserts.map (GroundTriple.quad tag))]

/-- On every graph that is read from N-Triples, both dialects succeed with the same
graph. -/
def DialectsAgree (printable : Char → Bool) (parse : UpdateParser)
    (deletes inserts : List GroundTriple) : Prop :=
  ∀ (input : Str) (target : Graph), parseNtriples input = .ok target →
    ∃ o o', applyN3Patch printable target (patchDocument deletes inserts).text = .ok o ∧
      applySparqlPatch parse target (updateText deletes inserts) = .ok o' ∧ o.graph = o'.graph

/-- Both readers read the triple alike: a literal is ASCII, its datatype is not the
one that the library leaves out, and its language tag is one that the library
keeps. -/
def WrittenObject.Shared (tag : Str → Str) : WrittenObject → Prop
  | .iri _ => True
  | .literal value datatype language => (∀ c ∈ value, isAscii c = true) ∧
      datatype ≠ some xsdString ∧ ∀ lang ∈ language, tag lang = lang

/-! ## What each dialect reads -/

/-- The triple that the SPARQL dialect makes of a written one. -/
def WrittenObject.mapped (tag : Str → Str) : WrittenObject → Term
  | .iri i => .iri i
  | .literal value datatype language =>
    .literal value (datatype.filter (· ≠ xsdString)) (language.map tag)

def GroundTriple.mapped (tag : Str → Str) (t : GroundTriple) : Triple :=
  ⟨.iri t.1.subject, .iri t.1.predicate, t.1.object.mapped tag⟩

theorem filter_xsdString (datatype : Option Str) :
    datatype.filter (· ≠ xsdString) = if datatype = some xsdString then none else datatype := by
  cases datatype with
  | none => rfl
  | some dt =>
      by_cases hdt : dt = xsdString
      · rw [Option.filter_some, if_neg (by simpa using hdt), if_pos (congrArg some hdt)]
      · rw [Option.filter_some, if_pos (by simpa using hdt), if_neg (by simpa using hdt)]

theorem mapLiteral_spLiteral (tag : Str → Str) {value : Str} {datatype language : Option Str}
    (h : datatype = none ∨ language = none) :
    mapLiteral (spLiteral tag value datatype language) =
      .literal value (datatype.filter (· ≠ xsdString)) (language.map tag) := by
  rcases h with rfl | rfl
  · cases language with
    | none => rfl
    | some lang => rfl
  · cases datatype with
    | none => rfl
    | some dt => rfl

theorem quadToTriple_quad (tag : Str → Str) (t : GroundTriple) :
    quadToTriple (t.quad tag) = some (t.mapped tag) ∧
      groundQuadToTriple (t.groundQuad tag) = some (t.mapped tag) := by
  obtain ⟨⟨s, p, o⟩, -, -, ho⟩ := t
  cases o with
  | iri i => exact ⟨rfl, rfl⟩
  | literal value datatype language =>
      have hlit := @mapLiteral_spLiteral tag value _ _ ho.1
      constructor
      · exact congrArg (fun o => some (⟨.iri s, .iri p, o⟩ : Triple)) hlit
      · exact congrArg (fun o => some (⟨.iri s, .iri p, o⟩ : Triple)) hlit

theorem statement_unbroken (t : GroundTriple) : '\n' ∉ t.statement.text := by
  obtain ⟨t, hs, hp, ho⟩ := t
  have hterm : ∀ {u : Term}, u.Ground → '\n' ∉ u.writeNtriples :=
    fun h => newline_notMem_writeNtriples (Term.wellFormed_of_ground h)
  have hsubject := hterm (u := t.triple.subject) hs
  have hpredicate := hterm (u := t.triple.predicate) hp
  have hobject := hterm ho
  simp [Statement.text, GroundTriple.statement, oneSpace, hsubject, hpredicate, hobject]

theorem firstOfLines_statement (triples : List GroundTriple) :
    firstOfLines (triples.map GroundTriple.statement) = triples.map GroundTriple.statement := by
  cases triples with
  | nil => rfl
  | cons t triples =>
      rw [List.map_cons, firstOfLines, lineStarts, List.filter_eq_self.mpr]
      intro s hs
      obtain ⟨u, -, rfl⟩ := List.mem_map.mp hs
      simp [GroundTriple.statement, oneLine]

section Patch

variable (deletes inserts : List GroundTriple)

theorem patchDocument_unbroken : (patchDocument deletes inserts).Unbroken := by
  have hstatements : ∀ triples : List GroundTriple,
      ∀ s ∈ triples.map GroundTriple.statement, '\n' ∉ s.text := by
    intro triples s hs
    obtain ⟨t, -, rfl⟩ := List.mem_map.mp hs
    exact statement_unbroken t
  have hclauses : ∀ c ∈ [deletesClause deletes, insertsClause inserts],
      ∀ s ∈ c.statements, '\n' ∉ s.text := by
    rw [List.forall_mem_cons, List.forall_mem_singleton]
    exact ⟨hstatements deletes, hstatements inserts⟩
  exact hclauses

theorem clause?_patchDocument :
    (patchDocument deletes inserts).clause? .deletes = some (deletesClause deletes) ∧
      (patchDocument deletes inserts).clause? .inserts = some (insertsClause inserts) ∧
      (patchDocument deletes inserts).clause? .wheres = none := by
  have hkinds : (deletesClause deletes).kind = .deletes ∧ (insertsClause inserts).kind = .inserts :=
    ⟨rfl, rfl⟩
  have hfind : ∀ k, (patchDocument deletes inserts).clause? k =
      [deletesClause deletes, insertsClause inserts].find? (·.kind = k) := fun _ => rfl
  simp [hfind, hkinds]

theorem taken_patchDocument :
    (patchDocument deletes inserts).taken .deletes = deletes.map (·.1.triple.reread) ∧
      (patchDocument deletes inserts).taken .inserts = inserts.map (·.1.triple.reread) ∧
      (patchDocument deletes inserts).taken .wheres = [] := by
  have hstatements : ∀ triples : List GroundTriple,
      (firstOfLines (triples.map GroundTriple.statement)).map (·.triple.reread) =
        triples.map (·.1.triple.reread) := by
    intro triples
    rw [firstOfLines_statement, List.map_map]
    rfl
  obtain ⟨hdeletes, hinserts, hwheres⟩ := clause?_patchDocument deletes inserts
  refine ⟨?_, ?_, PatchDocument.taken_of_none hwheres⟩
  · rw [PatchDocument.taken_of_some hdeletes]
    exact hstatements deletes
  · rw [PatchDocument.taken_of_some hinserts]
    exact hstatements inserts

/-- The N3 patch deletes and inserts what the N-Triples reader makes of the triples. -/
theorem applyN3Patch_patchDocument (hd : (patchDocument deletes inserts).Delimited)
    (printable : Char → Bool) (target : Graph) :
    (applyN3Patch printable target (patchDocument deletes inserts).text).map
        PatchOutcome.graph =
      .ok (extend (subtract target (SortedSet.ofList (deletes.map (·.1.triple.reread))))
        (SortedSet.ofList (inserts.map (·.1.triple.reread)))) := by
  obtain ⟨hdeletes, hinserts, hwheres⟩ := taken_patchDocument deletes inserts
  rw [PatchDocument.applyN3Patch_text hd (patchDocument_unbroken deletes inserts), hdeletes,
    hinserts, hwheres, (checkWhere_spec printable target []).1 nofun]
  rfl

/-- The update deletes and inserts what the library makes of them. -/
theorem applySparqlPatch_updateText {parse : UpdateParser} {tag : Str → Str}
    (hparse : ReadsUpdate parse tag deletes inserts) (target : Graph) :
    (applySparqlPatch parse target (updateText deletes inserts)).map PatchOutcome.graph =
      .ok (extend (subtract target (SortedSet.ofList (deletes.map (GroundTriple.mapped tag))))
        (SortedSet.ofList (inserts.map (GroundTriple.mapped tag)))) := by
  have hdeletes : (deletes.map (GroundTriple.groundQuad tag)).filterMap groundQuadToTriple =
      deletes.map (GroundTriple.mapped tag) := by
    rw [List.filterMap_map, ← List.filterMap_eq_map]
    exact List.filterMap_congr fun t _ => (quadToTriple_quad tag t).2
  have hinserts : (inserts.map (GroundTriple.quad tag)).filterMap quadToTriple =
      inserts.map (GroundTriple.mapped tag) := by
    rw [List.filterMap_map, ← List.filterMap_eq_map]
    exact List.filterMap_congr fun t _ => (quadToTriple_quad tag t).1
  rw [applySparqlPatch, hparse, ← apply_deletes_inserts, ← hdeletes, ← hinserts]
  refine (foldlM_runOperation_spec _ _).trans ?_
  simp only [List.findSome?_cons, List.findSome?_nil, GraphUpdateOperation.unsupported?,
    List.flatMap_cons, List.flatMap_nil, List.append_nil, GraphUpdateOperation.edits]

end Patch

/-! ## Triples that are read alike -/

section Shared

variable {tag : Str → Str}

theorem reread_eq_mapped_iff (t : GroundTriple) :
    t.1.triple.reread = t.mapped tag ↔ t.1.object.Shared tag := by
  have hobject : t.1.triple.reread = t.mapped tag ↔
      t.1.object.term.reread = t.1.object.mapped tag := by
    simp [WrittenTriple.triple, Triple.reread, GroundTriple.mapped, Term.reread]
  rw [hobject]
  cases t.1.object with
  | iri i => exact iff_of_true rfl trivial
  | literal value datatype language =>
      have hdatatype : datatype = datatype.filter (· ≠ xsdString) ↔
          datatype ≠ some xsdString := by
        rw [filter_xsdString]
        split_ifs with hxsd
        · simp [hxsd]
        · simp [hxsd]
      have hlanguage : language = language.map tag ↔ ∀ lang ∈ language, tag lang = lang := by
        cases language with
        | none => simp
        | some lang => simp [eq_comm]
      simp only [WrittenObject.term, WrittenObject.mapped, Term.reread, Term.literal.injEq,
        WrittenObject.Shared, mojibake_eq_self_iff, hdatatype, hlanguage]

theorem mapped_of_shared {t : GroundTriple} (h : t.1.object.Shared tag) :
    t.mapped tag = t.1.triple ∧ t.1.triple.reread = t.1.triple := by
  have heq := (reread_eq_mapped_iff t).mpr h
  have hreread : t.1.triple.reread = t.1.triple := by
    have hobject : t.1.object.term.reread = t.1.object.term := by
      cases ho : t.1.object with
      | iri i => rfl
      | literal value datatype language =>
          rw [ho] at h
          rw [WrittenObject.term, Term.reread, mojibake_of_isAscii h.1]
    rw [Triple.reread, WrittenTriple.triple, hobject]
    rfl
  exact ⟨heq.symm.trans hreread, hreread⟩

/-- A triple that is read as a shared one is shared. -/
theorem shared_of_reread_eq {t i : GroundTriple} (hi : i.1.object.Shared tag)
    (h : i.1.triple.reread = t.1.triple.reread) : t.1.object.Shared tag := by
  have hobject : i.1.object.term = t.1.object.term.reread :=
    congrArg Triple.object ((mapped_of_shared hi).2.symm.trans h)
  cases ht : t.1.object with
  | iri u => trivial
  | literal value datatype language =>
      cases hio : i.1.object with
      | iri u =>
          rw [ht, hio] at hobject
          cases hobject
      | literal v dt lang =>
          rw [ht, hio] at hobject
          rw [hio] at hi
          obtain ⟨hv, rfl, rfl⟩ := Term.literal.inj hobject
          obtain ⟨hascii, hshared⟩ := hi
          rw [hv] at hascii
          exact ⟨isAscii_of_mojibake hascii, hshared⟩

/-- The length of the value of a literal. -/
def WrittenObject.valueLength : WrittenObject → Nat
  | .iri _ => 0
  | .literal value _ _ => value.length

/-- Where the readings of some triples are among the mappings of the same ones, the
triples are read alike: the octets of a literal outside ASCII would be longer and
longer texts among them. -/
theorem shared_of_forall_exists (htag : ∀ lang, tag (tag lang) = tag lang)
    {ts : List GroundTriple} (h : ∀ t ∈ ts, ∃ t' ∈ ts, t.1.triple.reread = t'.mapped tag) :
    ∀ t ∈ ts, t.1.object.Shared tag := by
  have hobject : ∀ t ∈ ts, ∃ t' ∈ ts,
      t.1.object.term.reread = t'.1.object.mapped tag := by
    intro t ht
    obtain ⟨t', ht', heq⟩ := h t ht
    exact ⟨t', ht', congrArg Triple.object heq⟩
  have hlonger : ∀ n, ∀ t ∈ ts, ∀ value datatype language,
      t.1.object = .literal value datatype language → ¬ (∀ c ∈ value, isAscii c = true) →
        ∃ t' ∈ ts, n ≤ t'.1.object.valueLength ∧ ∃ value' datatype' language',
          t'.1.object = .literal value' datatype' language' ∧
            ¬ ∀ c ∈ value', isAscii c = true := by
    intro n
    induction n with
    | zero =>
        intro t ht value datatype language ho hna
        exact ⟨t, ht, Nat.zero_le _, value, datatype, language, ho, hna⟩
    | succ n ih =>
        intro t ht value datatype language ho hna
        obtain ⟨t₁, ht₁, hle, v₁, d₁, l₁, ho₁, hna₁⟩ := ih t ht value datatype language ho hna
        obtain ⟨t₂, ht₂, heq⟩ := hobject t₁ ht₁
        rw [ho₁] at heq hle
        cases ho₂ : t₂.1.object with
        | iri i =>
            rw [ho₂] at heq
            cases heq
        | literal v₂ d₂ l₂ =>
            rw [ho₂] at heq
            have hvalue : mojibake v₁ = v₂ := (Term.literal.inj heq).1
            refine ⟨t₂, ht₂, ?_, v₂, d₂, l₂, ho₂, ?_⟩
            · have hexists : ∃ c ∈ v₁, isAscii c = false := by
                simpa using hna₁
              obtain ⟨c, hc, hcna⟩ := hexists
              have hlt := length_lt_length_mojibake hc hcna
              rw [ho₂, WrittenObject.valueLength, ← hvalue]
              exact Nat.succ_le_of_lt (Nat.lt_of_le_of_lt hle hlt)
            · rw [← hvalue]
              exact fun hall => hna₁ (isAscii_of_mojibake hall)
  have hbound : ∀ t ∈ ts, t.1.object.valueLength ≤
      (ts.map fun t => t.1.object.valueLength).max?.getD 0 :=
    fun t ht => List.le_max?_getD_of_mem (List.mem_map_of_mem ht)
  intro t ht
  cases ho : t.1.object with
  | iri i => trivial
  | literal value datatype language =>
      refine ⟨?_, ?_⟩
      · by_contra hna
        obtain ⟨t', ht', hle, -⟩ := hlonger
          ((ts.map fun t => t.1.object.valueLength).max?.getD 0 + 1) t ht value datatype language
          ho hna
        have hle' := hbound t' ht'
        omega
      · obtain ⟨t', ht', heq⟩ := hobject t ht
        rw [ho] at heq
        cases ho' : t'.1.object with
        | iri i =>
            rw [ho'] at heq
            cases heq
        | literal value' datatype' language' =>
            rw [ho'] at heq
            obtain ⟨-, hdatatype, hlanguage⟩ := Term.literal.inj heq
            constructor
            · rintro rfl
              rw [filter_xsdString] at hdatatype
              split_ifs at hdatatype with hxsd
              exact hxsd hdatatype.symm
            · intro lang hlang
              rw [hlanguage] at hlang
              obtain ⟨lang', -, rfl⟩ := Option.map_eq_some_iff.mp hlang
              exact htag lang'

end Shared

/-! ## Every target -/

/-- A written triple is stored as the reader reads it. -/
theorem parseNtriples_toNtriples_triple (t : GroundTriple) :
    parseNtriples (toNtriples (SortedSet.ofList [t.1.triple])) =
      .ok (SortedSet.ofList [t.1.triple.reread]) := by
  have hmem : ∀ u ∈ SortedSet.ofList [t.1.triple], u = t.1.triple := by
    intro u hu
    rwa [SortedSet.mem_ofList, List.mem_singleton] at hu
  refine (parseNtriples_toNtriples_iff ?_).mpr ⟨?_, ?_⟩
  · intro u hu
    obtain ⟨hs, hp, ho⟩ := t.2
    rw [hmem u hu]
    exact ⟨Term.wellFormed_of_ground (t := t.1.triple.subject) hs,
      Term.wellFormed_of_ground (t := t.1.triple.predicate) hp, Term.wellFormed_of_ground ho⟩
  · intro u hu
    rw [hmem u hu]
    exact ⟨rfl, rfl⟩
  · ext u
    simp [SortedSet.mem_ofList, ← SortedSet.mem_def, eq_comm]

section Agree

variable {deletes inserts : List GroundTriple} {tag : Str → Str}

theorem dialectsAgree_iff_graphs (hd : (patchDocument deletes inserts).Delimited)
    {parse : UpdateParser} (hparse : ReadsUpdate parse tag deletes inserts)
    (printable : Char → Bool) :
    DialectsAgree printable parse deletes inserts ↔
      ∀ (input : Str) (target : Graph), parseNtriples input = .ok target → ∀ u,
        (u ∈ target ∧ u ∉ deletes.map (·.1.triple.reread) ∨
            u ∈ inserts.map (·.1.triple.reread)) ↔
          (u ∈ target ∧ u ∉ deletes.map (GroundTriple.mapped tag) ∨
            u ∈ inserts.map (GroundTriple.mapped tag)) := by
  refine forall_congr' fun input => forall_congr' fun target => imp_congr_right fun _ => ?_
  have hn3 := applyN3Patch_patchDocument deletes inserts hd printable target
  have hsparql := applySparqlPatch_updateText deletes inserts hparse target
  obtain ⟨o, ho, hgraph⟩ := Fallible.map_eq_ok_iff.mp hn3
  obtain ⟨o', ho', hgraph'⟩ := Fallible.map_eq_ok_iff.mp hsparql
  constructor
  · rintro ⟨p, p', hp, hp', hsame⟩ u
    cases ho.symm.trans hp
    cases ho'.symm.trans hp'
    rw [hgraph, hgraph'] at hsame
    have hu := congrArg (u ∈ ·) hsame
    simpa only [eq_iff_iff, mem_extend_subtract, SortedSet.mem_ofList] using hu
  · intro hall
    refine ⟨o, o', ho, ho', ?_⟩
    rw [hgraph, hgraph']
    ext u
    simpa only [mem_extend_subtract, SortedSet.mem_ofList] using hall u

end Agree

/-! ## The name of Alice -/

def xsdInteger : Str := "http://www.w3.org/2001/XMLSchema#integer"

/-- A property of Alice. -/
def alice (value : Str) (datatype : Option Str)
    (h : ∀ dt ∈ datatype, ∀ c ∈ dt, iriChar c = true) : GroundTriple :=
  ⟨⟨"a", "p", .literal value datatype none⟩, (by decide : ∀ c ∈ ("a" : Str), iriChar c = true),
    (by decide : ∀ c ∈ ("p" : Str), iriChar c = true), .inr rfl, h, nofun⟩

/-- A library that reads just this update. -/
def readsOnly (tag : Str → Str) (deletes inserts : List GroundTriple) : UpdateParser :=
  fun _ => .ok [.deleteData (deletes.map (GroundTriple.groundQuad tag)),
    .insertData (inserts.map (GroundTriple.quad tag))]

end Ldp

end SolidPod
