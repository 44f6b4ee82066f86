import SolidPod.Foundation.Turtle
import SolidPod.Ldp.Graph
import SolidPod.Ldp.Links

/-!
# Three renderings of a container

The members of a container are stated in Turtle, in JSON-LD and among the triples that the
server manages. The Turtle form is put together from texts; without members its form of bare
IRIs ends in a verb that has no object.
-/

namespace SolidPod

namespace Ldp

open Foundation Str

def ldpContains : Str := "http://www.w3.org/ns/ldp#contains"

def dctermsModified : Str := "http://purl.org/dc/terms/modified"

def statSize : Str := "http://www.w3.org/ns/posix/stat#size"

def statMtime : Str := "http://www.w3.org/ns/posix/stat#mtime"

def xsdDateTime : Str := "http://www.w3.org/2001/XMLSchema#dateTime"

def xsdIntegerIri : Str := "http://www.w3.org/2001/XMLSchema#integer"

/-- A point in time, as the calendar library writes it. -/
structure DateTime where
  toRfc3339 : Str
  timestamp : Int

/-- The container with a slash at its end. -/
def containerBase (container : Str) : Str :=
  if endsWith ['/'] container then container else container ++ ['/']

def Term.typedLiteral (value datatype : Str) : Term := .literal value (some datatype) none

/-- A signed number in decimal. -/
def decimalInt (n : Int) : Str :=
  if n < 0 then '-' :: decimal n.natAbs else decimal n.natAbs

/-- The triples that the server states of a resource. -/
def serverManagedTriples (resourceIri : Str) (modified : DateTime) (size : UInt64)
    (isContainerFlag : Bool) (contained : List Str) : Graph :=
  let subject : Term := .iri resourceIri
  let g : Graph := SortedSet.ofList
    [⟨subject, .iri dctermsModified, .typedLiteral modified.toRfc3339 xsdDateTime⟩,
      ⟨subject, .iri statSize, .typedLiteral (decimal size.toNat) xsdIntegerIri⟩,
      ⟨subject, .iri statMtime, .typedLiteral (decimalInt modified.timestamp) xsdIntegerIri⟩]
  if isContainerFlag then
    contained.foldl (fun g child =>
      g.insert ⟨subject, .iri ldpContains, .iri (containerBase resourceIri ++ child)⟩) g
  else g

def turtleHeader : Str :=
  "@prefix ldp: <" ++ ldpNs ++ "> .\n" ++ "@prefix dcterms: <" ++ dctermsNs ++ "> .\n" ++ "\n"

/-- An IRI in its brackets. -/
def bracketed (iri : Str) : Str := '<' :: (iri ++ ['>'])

/-- The types of a container, after its name. -/
def turtleTypes : Str := " a ldp:BasicContainer, ldp:Container, ldp:Resource "

/-- A container in Turtle. -/
def renderContainerTurtle (containerPath : Str) (members : List Str)
    (representation : ContainerRepresentation) : Str :=
  let base := containerBase containerPath
  let out := turtleHeader ++ bracketed containerPath
  match representation with
  | .containedIrisOnly =>
    out ++ " ldp:contains\n" ++ join ",\n" (members.map fun m => "    " ++ bracketed (base ++ m)) ++
      " .\n"
  | .minimalContainer => out ++ turtleTypes ++ ".\n"
  | .full =>
    let out := out ++ turtleTypes ++ ";\n"
    -- without members the semicolon is taken back
    if members.isEmpty then trimEndMatches ';' (trimEnd out) ++ " .\n"
    else
      out ++ join " ;\n" (members.map fun m => "    ldp:contains " ++ bracketed (base ++ m)) ++
        " .\n"

open Turtle

/-- The namespaces of the header. -/
def turtleNamespaces : List (Str × Str) := [("dcterms", dctermsNs), ("ldp", ldpNs)]

theorem run_turtleHeader : State.run ⟨.gap, .statement, [], []⟩ turtleHeader =
    some ⟨.gap, .statement, turtleNamespaces, []⟩ := by
  rfl

theorem run_containsVerb (s : Str) (ts : List IriTriple) :
    State.run ⟨.gap, .verb s, turtleNamespaces, ts⟩ " ldp:contains\n" =
      some ⟨.gap, .object s ldpContains, turtleNamespaces, ts⟩ := by
  rfl

theorem run_containsItem (s : Str) (ts : List IriTriple) :
    State.run ⟨.gap, .verbOrEnd s, turtleNamespaces, ts⟩ "    ldp:contains " =
      some ⟨.gap, .object s ldpContains, turtleNamespaces, ts⟩ := by
  rfl

/-- The types that a container states of itself. -/
def typeTriples (s : Str) : List IriTriple :=
  [⟨s, rdfType, ldpBasicContainer⟩, ⟨s, rdfType, ldpContainer⟩, ⟨s, rdfType, ldpResource⟩]

theorem run_types (s : Str) :
    State.run ⟨.gap, .verb s, turtleNamespaces, []⟩ turtleTypes =
      some ⟨.gap, .objectEnd s rdfType, turtleNamespaces, typeTriples s⟩ := by
  rfl

/-! ## The members that a rendering states -/

/-- The id of a node object. -/
def nodeId : Json → Option Str
  | .object m =>
    match Json.member "@id" m with
    | some (.string s) => some s
    | _ => none
  | _ => none

/-- The ids that a JSON-LD document has under `ldp:contains`. -/
def memberIds : Json → List Str
  | .object m =>
    match Json.member "ldp:contains" m with
    | some (.array a) => a.filterMap nodeId
    | _ => []
  | _ => []

/-- The objects of `ldp:contains` among the triples of a document. -/
def containsObjects (triples : List IriTriple) : List Str :=
  (triples.filter fun t => t.predicate = ldpContains).map IriTriple.object

/-- The objects of `ldp:contains` in a graph. -/
def ContainsTerm (g : Graph) (object : Term) : Prop :=
  ∃ t ∈ g, t.predicate = .iri ldpContains ∧ t.object = object

variable {containerPath : Str} {members : List Str} {representation : ContainerRepresentation}

/-- The IRIs of the members that a representation has. -/
def memberIris (containerPath : Str) (members : List Str) :
    ContainerRepresentation → List Str
  | .containedIrisOnly => members.map fun m => containerBase containerPath ++ m
  | .minimalContainer => []
  | .full => members.map fun m => containerBase containerPath ++ m

theorem memberIds_renderContainerJsonld :
    memberIds (renderContainerJsonld containerPath members representation) =
      memberIris containerPath members representation := by
  have hids : ∀ render : Str → Json,
      (∀ m, nodeId (render m) = some (containerBase containerPath ++ m)) →
        (members.map render).filterMap nodeId =
          members.map fun m => containerBase containerPath ++ m := by
    intro render hrender
    have hcomp : nodeId ∘ render = some ∘ fun m => containerBase containerPath ++ m := by
      funext m
      exact hrender m
    rw [List.filterMap_map, hcomp, List.filterMap_eq_map]
  cases representation with
  | minimalContainer => rfl
  | containedIrisOnly =>
      exact hids (fun m => jsonIri (containerBase containerPath ++ m)) fun _ => rfl
  | full => exact hids (containerMember (containerBase containerPath)) fun _ => rfl

theorem containsTerm_serverManagedTriples {modified : DateTime} {size : UInt64} {object : Term} :
    ContainsTerm (serverManagedTriples containerPath modified size true members) object ↔
      ∃ iri ∈ memberIris containerPath members .full, object = .iri iri := by
  have hmem : ∀ t, t ∈ serverManagedTriples containerPath modified size true members ↔
      (∃ m ∈ members, t = ⟨.iri containerPath, .iri ldpContains,
        .iri (containerBase containerPath ++ m)⟩) ∨
      t ∈ [(⟨.iri containerPath, .iri dctermsModified,
          .typedLiteral modified.toRfc3339 xsdDateTime⟩ : Triple),
        ⟨.iri containerPath, .iri statSize, .typedLiteral (decimal size.toNat) xsdIntegerIri⟩,
        ⟨.iri containerPath, .iri statMtime,
          .typedLiteral (decimalInt modified.timestamp) xsdIntegerIri⟩] := by
    intro t
    have hfold := @SortedSet.mem_foldl_insert _ _
      (members.map fun m => (⟨.iri containerPath, .iri ldpContains,
        .iri (containerBase containerPath ++ m)⟩ : Triple))
      (SortedSet.ofList [⟨.iri containerPath, .iri dctermsModified,
          .typedLiteral modified.toRfc3339 xsdDateTime⟩,
        ⟨.iri containerPath, .iri statSize, .typedLiteral (decimal size.toNat) xsdIntegerIri⟩,
        ⟨.iri containerPath, .iri statMtime,
          .typedLiteral (decimalInt modified.timestamp) xsdIntegerIri⟩]) t
    rw [List.foldl_map, SortedSet.mem_ofList, List.mem_map] at hfold
    rw [serverManagedTriples, if_pos rfl, hfold]
    simp only [eq_comm]
  have hne : dctermsModified ≠ ldpContains ∧ statSize ≠ ldpContains ∧ statMtime ≠ ldpContains := by
    decide
  constructor
  · rintro ⟨t, ht, hpredicate, rfl⟩
    rcases (hmem t).mp ht with ⟨m, hm, rfl⟩ | hown
    · exact ⟨_, List.mem_map_of_mem hm, rfl⟩
    · simp only [List.mem_cons, List.not_mem_nil, or_false] at hown
      rcases hown with rfl | rfl | rfl
      · exact absurd (Term.iri.inj hpredicate) hne.1
      · exact absurd (Term.iri.inj hpredicate) hne.2.1
      · exact absurd (Term.iri.inj hpredicate) hne.2.2
  · rintro ⟨iri, hiri, rfl⟩
    obtain ⟨m, hm, rfl⟩ := List.mem_map.mp hiri
    exact ⟨_, (hmem _).mpr (Or.inl ⟨m, hm, rfl⟩), rfl, rfl⟩

/-! ## The Turtle form, read back -/

/-- All characters may stand in an IRI. -/
def IriText (iri : Str) : Prop := ∀ c ∈ iri, iriChar c = true

/-- The line feed and the semicolon are taken back, and no more. -/
theorem trimEnd_types (out : Str) :
    trimEndMatches ';' (trimEnd (out ++ turtleTypes ++ ";\n")) = out ++ turtleTypes := by
  have hend : (";\n" : Str) = [';'] ++ ['\n'] := rfl
  have htypes : turtleTypes = turtleTypes.dropLast ++ [' '] := rfl
  rw [hend, ← List.append_assoc, trimEnd, List.rdropWhile_concat_pos _ _ _ (by decide),
    List.rdropWhile_concat_neg _ _ _ (by decide), trimEndMatches,
    List.rdropWhile_concat_pos _ _ _ rfl, htypes, ← List.append_assoc,
    List.rdropWhile_concat_neg _ _ _ (by decide)]

variable {s : Str}

/-- The state after the front part of every rendering. -/
theorem run_front (h : IriText containerPath) (tail : Str) :
    State.run ⟨.gap, .statement, [], []⟩ (turtleHeader ++ bracketed containerPath ++ tail) =
      State.run ⟨.gap, .verb containerPath, turtleNamespaces, []⟩ tail := by
  rw [List.append_assoc, State.run_append_of_run run_turtleHeader]
  exact State.run_append_of_run (State.run_iriref h) tail

theorem run_front_eq_none (hgt : '>' ∉ containerPath) (h : ¬ IriText containerPath) (tail : Str) :
    State.run ⟨.gap, .statement, [], []⟩ (turtleHeader ++ bracketed containerPath ++ tail) =
      none := by
  have hbad : ∃ c ∈ containerPath, iriChar c = false := by
    simpa [IriText] using h
  rw [List.append_assoc, State.run_append_of_run run_turtleHeader]
  exact State.run_append_eq_none (State.run_iriref_eq_none hgt hbad) tail

theorem run_types_stop :
    State.run ⟨.gap, .verb s, turtleNamespaces, []⟩ (turtleTypes ++ ".\n") =
      some ⟨.gap, .statement, turtleNamespaces, typeTriples s⟩ :=
  State.run_append_of_run (run_types s) ".\n"

theorem run_types_semicolon :
    State.run ⟨.gap, .verb s, turtleNamespaces, []⟩ (turtleTypes ++ ";\n") =
      some ⟨.gap, .verbOrEnd s, turtleNamespaces, typeTriples s⟩ :=
  State.run_append_of_run (run_types s) ";\n"

/-- A member in brackets is an object, or it is refused. -/
theorem run_member {iri : Str} (h : IriText iri) (ts : List IriTriple) :
    State.run ⟨.gap, .object s ldpContains, turtleNamespaces, ts⟩ (bracketed iri) =
      some ⟨.gap, .objectEnd s ldpContains, turtleNamespaces, ts ++ [⟨s, ldpContains, iri⟩]⟩ :=
  State.run_iriref h

theorem run_member_eq_none {iri : Str} (hgt : '>' ∉ iri) (h : ¬ IriText iri) (ts : List IriTriple) :
    State.run ⟨.gap, .object s ldpContains, turtleNamespaces, ts⟩ (bracketed iri) = none := by
  refine State.run_iriref_eq_none hgt ?_
  simpa [IriText] using h

/-- The lead of an object, and of a verb with its object. -/
theorem run_lead (ts : List IriTriple) (text : Str) :
    State.run ⟨.gap, .object s ldpContains, turtleNamespaces, ts⟩ ("    " ++ text) =
        State.run ⟨.gap, .object s ldpContains, turtleNamespaces, ts⟩ text ∧
      State.run ⟨.gap, .verbOrEnd s, turtleNamespaces, ts⟩ ("    ldp:contains " ++ text) =
        State.run ⟨.gap, .object s ldpContains, turtleNamespaces, ts⟩ text :=
  ⟨State.run_append_of_run rfl text, State.run_append_of_run (run_containsItem s ts) text⟩

/-- The triple that a container states of a member. -/
def memberTriple (s iri : Str) : IriTriple := ⟨s, ldpContains, iri⟩

section Members

variable {iris : List Str}

/-- The states before and after an object, by the triples so far. -/
def atObject (s : Str) (ts : List IriTriple) : State :=
  ⟨.gap, .object s ldpContains, turtleNamespaces, ts⟩

def pastObject (s : Str) (ts : List IriTriple) : State :=
  ⟨.gap, .objectEnd s ldpContains, turtleNamespaces, ts⟩

/-- The state in which another verb may follow. -/
def atVerb (s : Str) (ts : List IriTriple) : State :=
  ⟨.gap, .verbOrEnd s, turtleNamespaces, ts⟩

/-- The list of the members, after one verb. -/
theorem run_objects (hne : iris ≠ []) (h : ∀ iri ∈ iris, IriText iri) :
    State.run ⟨.gap, .verb s, turtleNamespaces, []⟩ (" ldp:contains\n" ++
        join ",\n" (iris.map fun iri => "    " ++ bracketed iri) ++ " .\n") =
      some ⟨.gap, .statement, turtleNamespaces, iris.map (memberTriple s)⟩ := by
  have hlist : (atObject s []).run (join ",\n" (iris.map fun iri => "    " ++ bracketed iri)) =
      some (pastObject s ([] ++ iris.map (memberTriple s))) :=
    State.run_join (atObject s) (pastObject s) _ (memberTriple s) (fun _ => rfl) hne
      (fun iri hiri ts => (run_lead ts _).1.trans (run_member (h iri hiri) ts)) []
  rw [List.append_assoc, State.run_append_of_run (run_containsVerb s [])]
  exact State.run_append_of_run hlist _

/-- The list of the members, each after a verb of its own. -/
theorem run_verbs (hne : iris ≠ []) (h : ∀ iri ∈ iris, IriText iri) :
    State.run ⟨.gap, .verb s, turtleNamespaces, []⟩
        (turtleTypes ++ ";\n" ++
          join " ;\n" (iris.map fun iri => "    ldp:contains " ++ bracketed iri) ++ " .\n") =
      some ⟨.gap, .statement, turtleNamespaces, typeTriples s ++ iris.map (memberTriple s)⟩ := by
  have hlist : (atVerb s (typeTriples s)).run
      (join " ;\n" (iris.map fun iri => "    ldp:contains " ++ bracketed iri)) =
      some (pastObject s (typeTriples s ++ iris.map (memberTriple s))) :=
    State.run_join (atVerb s) (pastObject s) _ (memberTriple s) (fun _ => rfl) hne
      (fun iri hiri ts => (run_lead ts _).2.trans (run_member (h iri hiri) ts)) _
  rw [List.append_assoc (turtleTypes ++ _), State.run_append_of_run run_types_semicolon]
  exact State.run_append_of_run hlist _

/-- One member that is no IRI spoils either list. -/
theorem run_objects_eq_none (hgt : ∀ iri ∈ iris, '>' ∉ iri) (h : ∃ iri ∈ iris, ¬ IriText iri) :
    State.run ⟨.gap, .verb s, turtleNamespaces, []⟩ (" ldp:contains\n" ++
        join ",\n" (iris.map fun iri => "    " ++ bracketed iri) ++ " .\n") = none := by
  have hlist : (atObject s []).run (join ",\n" (iris.map fun iri => "    " ++ bracketed iri)) =
      none :=
    State.run_join_eq_none (atObject s) (pastObject s) _ (memberTriple s) (fun _ => rfl)
      (fun iri _ hiri ts => (run_lead ts _).1.trans (run_member hiri ts))
      (fun iri hmem hiri ts => (run_lead ts _).1.trans (run_member_eq_none (hgt iri hmem) hiri ts))
      h []
  rw [List.append_assoc, State.run_append_of_run (run_containsVerb s [])]
  exact State.run_append_eq_none hlist _

theorem run_verbs_eq_none (hgt : ∀ iri ∈ iris, '>' ∉ iri) (h : ∃ iri ∈ iris, ¬ IriText iri) :
    State.run ⟨.gap, .verb s, turtleNamespaces, []⟩
        (turtleTypes ++ ";\n" ++
          join " ;\n" (iris.map fun iri => "    ldp:contains " ++ bracketed iri) ++ " .\n") =
      none := by
  have hlist : (atVerb s (typeTriples s)).run
      (join " ;\n" (iris.map fun iri => "    ldp:contains " ++ bracketed iri)) = none :=
    State.run_join_eq_none (atVerb s) (pastObject s) _ (memberTriple s) (fun _ => rfl)
      (fun iri _ hiri ts => (run_lead ts _).2.trans (run_member hiri ts))
      (fun iri hmem hiri ts => (run_lead ts _).2.trans (run_member_eq_none (hgt iri hmem) hiri ts))
      h _
  rw [List.append_assoc (turtleTypes ++ _), State.run_append_of_run run_types_semicolon]
  exact State.run_append_eq_none hlist _

/-- A verb that the statement ends after is refused. -/
theorem run_objects_nil :
    State.run ⟨.gap, .verb s, turtleNamespaces, []⟩
      (" ldp:contains\n" ++ join ",\n" ([] : List Str) ++ " .\n") = none := by
  rfl

end Members

/-! ## Agreement -/

/-- Free of white space and of the characters that no IRI has. -/
def IsClean (s : Str) : Prop := ∀ c ∈ s, isWhitespace c = false ∧ c ∉ ("<>\"\x7b\x7d|^`\\" : Str)

def ControlFree (s : Str) : Prop := ∀ c ∈ s, 0x1F < c.toNat

instance (s : Str) : Decidable (IsClean s) := inferInstanceAs (Decidable (∀ c ∈ s, _))

instance (s : Str) : Decidable (ControlFree s) := inferInstanceAs (Decidable (∀ c ∈ s, _))

/-- The three renderings agree: the Turtle form is a document, and what it states under
`ldp:contains` is what the JSON-LD form states and, for the full form, what the server does. -/
structure RenderingsAgree (containerPath : Str) (members : List Str)
    (representation : ContainerRepresentation) : Prop where
  wellFormed : ∃ triples, read (renderContainerTurtle containerPath members representation) =
    some triples
  jsonld : ∀ triples, read (renderContainerTurtle containerPath members representation) =
    some triples → ∀ iri, iri ∈ containsObjects triples ↔
      iri ∈ memberIds (renderContainerJsonld containerPath members representation)
  server : representation = .full →
    ∀ triples, read (renderContainerTurtle containerPath members representation) = some triples →
      ∀ modified size object,
        (∃ iri ∈ containsObjects triples, object = .iri iri) ↔
          ContainsTerm (serverManagedTriples containerPath modified size true members) object

/-- What can be rendered: no control characters where they are written, and a member wherever
the members alone are asked for. -/
structure Renderable (containerPath : Str) (members : List Str)
    (representation : ContainerRepresentation) : Prop where
  path : ControlFree containerPath
  names : representation ≠ .minimalContainer → ∀ m ∈ members, ControlFree m
  nonempty : representation = .containedIrisOnly → members ≠ []

theorem iriText_iff (h : IsClean s) : IriText s ↔ ControlFree s := by
  refine forall₂_congr fun c hc => ?_
  obtain ⟨hwhite, hmem⟩ := h c hc
  have hspace : c.toNat ≠ 0x20 := by
    intro heq
    rw [isWhitespace, heq] at hwhite
    exact absurd hwhite (by decide)
  have hmem' : ("<>\"\x7b\x7d|^`\\" : Str).contains c = false := by
    rw [List.contains_eq_mem, decide_eq_false_iff_not]
    exact hmem
  rw [iriChar, hmem', Bool.not_false, Bool.and_true, decide_eq_true_eq]
  omega

theorem gt_notMem (h : IsClean s) : '>' ∉ s := fun hmem => (h _ hmem).2 (by decide)

theorem IsClean.append {t : Str} (hs : IsClean s) (ht : IsClean t) : IsClean (s ++ t) := by
  intro c hc
  rcases List.mem_append.mp hc with hc | hc
  · exact hs c hc
  · exact ht c hc

theorem isClean_containerBase (h : IsClean s) : IsClean (containerBase s) := by
  rw [containerBase]
  split_ifs
  · exact h
  · exact h.append (by decide)

theorem controlFree_append {t : Str} : ControlFree (s ++ t) ↔ ControlFree s ∧ ControlFree t :=
  List.forall_mem_append

theorem controlFree_containerBase : ControlFree (containerBase s) ↔ ControlFree s := by
  rw [containerBase]
  split_ifs
  · rfl
  · rw [controlFree_append]
    exact and_iff_left (by decide)

theorem containsObjects_members (s : Str) (iris : List Str) :
    containsObjects (iris.map (memberTriple s)) = iris := by
  have hall : ∀ t ∈ iris.map (memberTriple s), decide (t.predicate = ldpContains) = true := by
    intro t ht
    obtain ⟨iri, -, rfl⟩ := List.mem_map.mp ht
    exact decide_eq_true rfl
  rw [containsObjects, List.filter_eq_self.mpr hall, List.map_map]
  exact List.map_id iris

theorem containsObjects_types (s : Str) (ts : List IriTriple) :
    containsObjects (typeTriples s ++ ts) = containsObjects ts := by
  have hnone : (typeTriples s).filter (fun t => t.predicate = ldpContains) = [] := by
    rw [List.filter_eq_nil_iff]
    intro t ht
    have hpredicate : t.predicate = rdfType := by
      simp only [typeTriples, List.mem_cons, List.not_mem_nil, or_false] at ht
      rcases ht with rfl | rfl | rfl <;> rfl
    rw [hpredicate]
    decide
  rw [containsObjects, containsObjects, List.filter_append, hnone, List.nil_append]

/-- The Turtle form after the container in its brackets. -/
def turtleBody (iris : List Str) : ContainerRepresentation → Str
  | .containedIrisOnly =>
    " ldp:contains\n" ++ join ",\n" (iris.map fun iri => "    " ++ bracketed iri) ++ " .\n"
  | .minimalContainer => turtleTypes ++ ".\n"
  | .full =>
    if iris = [] then turtleTypes ++ " .\n"
    else
      turtleTypes ++ ";\n" ++
        join " ;\n" (iris.map fun iri => "    ldp:contains " ++ bracketed iri) ++ " .\n"

theorem turtleBody_full (iris : List Str) : turtleBody iris .full =
    if iris = [] then turtleTypes ++ " .\n"
    else
      turtleTypes ++ ";\n" ++
        join " ;\n" (iris.map fun iri => "    ldp:contains " ++ bracketed iri) ++ " .\n" := rfl

theorem renderContainerTurtle_eq :
    renderContainerTurtle containerPath members representation =
      turtleHeader ++ bracketed containerPath ++
        turtleBody (memberIris containerPath members .full) representation := by
  have hmap : ∀ lead : Str, (members.map fun m =>
      lead ++ bracketed (containerBase containerPath ++ m)) =
      (memberIris containerPath members .full).map fun iri => lead ++ bracketed iri := by
    intro lead
    rw [memberIris, List.map_map]
    rfl
  cases representation with
  | minimalContainer => exact List.append_assoc _ _ _
  | containedIrisOnly =>
      have hleft : renderContainerTurtle containerPath members .containedIrisOnly =
          turtleHeader ++ bracketed containerPath ++ " ldp:contains\n" ++
            join ",\n" (members.map fun m =>
              "    " ++ bracketed (containerBase containerPath ++ m)) ++ " .\n" := rfl
      have hright : turtleBody (memberIris containerPath members .full) .containedIrisOnly =
          " ldp:contains\n" ++ join ",\n" ((memberIris containerPath members .full).map fun iri =>
            "    " ++ bracketed iri) ++ " .\n" := rfl
      rw [hleft, hright, hmap]
      simp only [List.append_assoc]
  | full =>
      have hleft : renderContainerTurtle containerPath members .full =
          if members.isEmpty then
            trimEndMatches ';' (trimEnd (turtleHeader ++ bracketed containerPath ++
              turtleTypes ++ ";\n")) ++ " .\n"
          else
            turtleHeader ++ bracketed containerPath ++
              turtleTypes ++ ";\n" ++
              join " ;\n" (members.map fun m =>
                "    ldp:contains " ++ bracketed (containerBase containerPath ++ m)) ++
                  " .\n" := rfl
      have hnil : members.isEmpty = true ↔ memberIris containerPath members .full = [] := by
        rw [memberIris, List.map_eq_nil_iff, List.isEmpty_iff]
      rw [hleft, turtleBody_full, hmap, trimEnd_types]
      by_cases h : memberIris containerPath members .full = []
      · rw [if_pos (hnil.mpr h), if_pos h, List.append_assoc]
      · rw [if_neg (mt hnil.mp h), if_neg h]
        simp only [List.append_assoc]

section Domain

variable (hpath : IsClean containerPath) (hmembers : ∀ m ∈ members, IsClean m)

include hpath hmembers

theorem isClean_memberIris : ∀ iri ∈ memberIris containerPath members .full, IsClean iri := by
  intro iri hiri
  obtain ⟨m, hm, rfl⟩ := List.mem_map.mp hiri
  exact (isClean_containerBase hpath).append (hmembers m hm)

/-- A renderable container is read back with its members. -/
theorem exists_read (h : Renderable containerPath members representation) :
    ∃ triples, read (renderContainerTurtle containerPath members representation) = some triples ∧
      containsObjects triples = memberIris containerPath members representation := by
  have hfront := run_front ((iriText_iff hpath).mpr h.path)
  have hiris : representation ≠ .minimalContainer →
      ∀ iri ∈ memberIris containerPath members .full, IriText iri := by
    intro hne iri hiri
    rw [iriText_iff (isClean_memberIris hpath hmembers iri hiri)]
    obtain ⟨m, hm, rfl⟩ := List.mem_map.mp hiri
    exact controlFree_append.mpr ⟨controlFree_containerBase.mpr h.path, h.names hne m hm⟩
  have htypes := containsObjects_types containerPath
  have hobjects := containsObjects_members containerPath (memberIris containerPath members .full)
  rw [renderContainerTurtle_eq]
  cases representation with
  | minimalContainer =>
      refine ⟨typeTriples containerPath, read_of_run ((hfront _).trans run_types_stop), ?_⟩
      rw [← List.append_nil (typeTriples containerPath), htypes]
      rfl
  | containedIrisOnly =>
      have hne : memberIris containerPath members .full ≠ [] := by
        rw [memberIris, Ne, List.map_eq_nil_iff]
        exact h.nonempty rfl
      exact ⟨_, read_of_run ((hfront _).trans (run_objects hne (hiris (by simp)))), hobjects⟩
  | full =>
      have hrun : State.run ⟨.gap, .verb containerPath, turtleNamespaces, []⟩
          (turtleBody (memberIris containerPath members .full) .full) =
          some ⟨.gap, .statement, turtleNamespaces, typeTriples containerPath ++
            (memberIris containerPath members .full).map (memberTriple containerPath)⟩ := by
        rw [turtleBody_full]
        split_ifs with hnil
        · rw [hnil, List.map_nil, List.append_nil]
          exact State.run_append_of_run (run_types containerPath) " .\n"
        · exact run_verbs hnil (hiris (by simp))
      exact ⟨_, read_of_run ((hfront _).trans hrun), (htypes _).trans hobjects⟩

/-- Every other container is refused. -/
theorem read_eq_none_of_not_renderable (h : ¬ Renderable containerPath members representation) :
    read (renderContainerTurtle containerPath members representation) = none := by
  rw [renderContainerTurtle_eq]
  by_cases hcontrol : ControlFree containerPath
  · have hfront := run_front ((iriText_iff hpath).mpr hcontrol)
    have hclean := isClean_memberIris hpath hmembers
    have hgt : ∀ iri ∈ memberIris containerPath members .full, '>' ∉ iri :=
      fun iri hiri => gt_notMem (hclean iri hiri)
    have hbad : ∀ m ∈ members, ¬ ControlFree m →
        ∃ iri ∈ memberIris containerPath members .full, ¬ IriText iri := by
      intro m hm hmbad
      refine ⟨_, List.mem_map_of_mem hm, fun htext => hmbad ?_⟩
      rw [iriText_iff (hclean _ (List.mem_map_of_mem hm))] at htext
      exact (controlFree_append.mp htext).2
    refine read_eq_none ((hfront _).trans ?_)
    by_cases hnames : ∀ m ∈ members, ControlFree m
    · cases representation with
      | minimalContainer => exact absurd ⟨hcontrol, fun _ => hnames, by simp⟩ h
      | full => exact absurd ⟨hcontrol, fun _ => hnames, by simp⟩ h
      | containedIrisOnly =>
          have hnil : members = [] := by
            by_contra hne
            exact h ⟨hcontrol, fun _ => hnames, fun _ => hne⟩
          rw [hnil]
          exact run_objects_nil
    · push Not at hnames
      obtain ⟨m, hm, hmbad⟩ := hnames
      cases representation with
      | minimalContainer =>
          exact absurd ⟨hcontrol, fun hne => absurd rfl hne, by simp⟩ h
      | containedIrisOnly => exact run_objects_eq_none hgt (hbad m hm hmbad)
      | full =>
          obtain ⟨iri, hiri, hiribad⟩ := hbad m hm hmbad
          rw [turtleBody_full, if_neg (List.ne_nil_of_mem hiri)]
          exact run_verbs_eq_none hgt ⟨iri, hiri, hiribad⟩
  · refine read_eq_none (run_front_eq_none (gt_notMem hpath) ?_ _)
    rwa [iriText_iff hpath]

/-- The renderings of a container agree exactly when it can be rendered. -/
theorem renderingsAgree_iff :
    RenderingsAgree containerPath members representation ↔
      Renderable containerPath members representation := by
  constructor
  · intro h
    by_contra hnot
    obtain ⟨triples, hread⟩ := h.wellFormed
    rw [read_eq_none_of_not_renderable hpath hmembers hnot] at hread
    cases hread
  · intro h
    obtain ⟨triples, hread, hobjects⟩ := exists_read hpath hmembers h
    refine ⟨⟨triples, hread⟩, ?_, ?_⟩
    · intro triples' hread' iri
      obtain rfl := Option.some.inj (hread.symm.trans hread')
      rw [hobjects, memberIds_renderContainerJsonld]
    · rintro rfl triples' hread' modified size object
      obtain rfl := Option.some.inj (hread.symm.trans hread')
      rw [hobjects, containsTerm_serverManagedTriples]

end Domain

theorem renderingsAgree_twoMembers : RenderingsAgree "/c/" ["a.ttl", "b/"] .full :=
  (renderingsAgree_iff (by decide) (by decide)).mpr
    ⟨by decide, fun _ => by decide, fun h => absurd h (by decide)⟩

/-- The bare members of an empty container are no Turtle document. -/
theorem not_renderingsAgree_empty : ¬ RenderingsAgree "/c/" [] .containedIrisOnly := by
  intro h
  obtain ⟨triples, hread⟩ := h.wellFormed
  have hnone : read (renderContainerTurtle "/c/" [] .containedIrisOnly) = none := by rfl
  rw [hnone] at hread
  cases hread

end Ldp

end SolidPod
