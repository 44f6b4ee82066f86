import Mathlib.Data.List.Forall2
import SolidPod.Wac.ConditionObjects
import SolidPod.Wac.Evaluator

/-!
# Conditions as they are written

A lexer that knows the IRIs, the strings and the brackets of Turtle says which
condition objects a text writes. Where the parser's four cutters cut a text as
this lexer does, an authorisation keeps one condition for each written object,
and fails closed, exactly when all its condition objects are readable. An object
that is a literal, that is not balanced or that has no type is dropped, and what
comes after it may be.
-/

namespace SolidPod

namespace Wac

open Foundation Str

/-! ## The lexer -/

inductive LexMode where
  | plain
  | iri
  | quoted (quote : Char)
  | escaped (quote : Char)
  deriving DecidableEq

/-- What a text is in the middle of, and how many brackets are open. -/
structure Lex where
  mode : LexMode
  depth : Nat
  deriving DecidableEq

def Lex.start : Lex := ⟨.plain, 0⟩

def Lex.step (s : Lex) (c : Char) : Lex :=
  match s.mode with
  | .plain =>
    if c = '<' then { s with mode := .iri }
    else if c = '"' || c = Char.ofNat 0x27 then { s with mode := .quoted c }
    else if c = '[' then { s with depth := s.depth + 1 }
    else if c = ']' then { s with depth := s.depth - 1 }
    else s
  | .iri => if c = '>' then { s with mode := .plain } else s
  | .quoted quote =>
    if c = '\\' then { s with mode := .escaped quote }
    else if c = quote then { s with mode := .plain }
    else s
  | .escaped quote => { s with mode := .quoted quote }

/-- Outside all IRIs, strings and brackets. -/
def Lex.top (s : Lex) : Bool := s.mode = .plain && s.depth == 0

/-- One line up to the first `#` outside an IRI and a string. -/
def stripWrittenComment (s : Lex) : Str → Str
  | [] => []
  | c :: cs =>
    if c = '#' && s.mode = .plain then [] else c :: stripWrittenComment (s.step c) cs

def isNameChar (c : Char) : Bool := c.isAlphanum || c = '_' || c = '-' || 0x80 ≤ c.toNat

/-- The statements of a text. A dot between two characters of a name or a number
is part of it. -/
def cutStatements (s : Lex) (cur : Str) : Str → List Str
  | [] => [cur]
  | c :: cs =>
    if c = '.' && s.top && !(cur.getLast?.any isNameChar && cs.head?.any isNameChar) then
      cur :: cutStatements s [] cs
    else cutStatements (s.step c) (cur ++ [c]) cs

/-- The cutter at the top-level occurrences of a separator. -/
def turtleCutter (separator : Char) : Splitter Lex where
  step := Lex.step
  cuts := fun s c => c = separator && s.top

/-- The statements that a document writes, without its directives. -/
def writtenStatements (input : Str) : List Str :=
  let text := (lines input).flatMap fun line => stripWrittenComment .start line ++ ['\n']
  ((cutStatements .start [] text).map trim).filter fun st => !st.isEmpty && !startsWith "@prefix" st

/-- The statements that the parser reads. -/
def parserStatements (input : Str) : List Str :=
  ((turtleStatements input).2.map trim).filter fun st => !st.isEmpty

/-- A statement without its subject. -/
def statementBody (st : Str) : Str := ((turtlePopTerm st).map Prod.snd).getD []

/-- The object list of a pair whose predicate is `acl:condition`. -/
def conditionList (prefixes : Prefixes) (pair : Str) : Option Str :=
  match turtlePopTerm (trim pair) with
  | none => none
  | some (pred, rest) =>
    if isAclTerm "condition" (expandCurieOrIri prefixes pred) then some (trim rest) else none

/-- The object lists that a statement writes after `acl:condition`. -/
def writtenLists (prefixes : Prefixes) (st : Str) : List Str :=
  ((turtleCutter ';').pieces .start [] (statementBody st)).filterMap (conditionList prefixes)

def parserLists (prefixes : Prefixes) (st : Str) : List Str :=
  (splitPredicateList (statementBody st)).filterMap (conditionList prefixes)

def writtenObjects (list : Str) : List Str :=
  withoutBlankTail ((turtleCutter ',').pieces .start [] list)

/-! ## What the parser reads -/

/-- The predicates of an authorisation other than its type and its conditions. -/
def aclNames : List Str :=
  ["agent", "agentClass", "agentGroup", "origin", "accessTo", "default", "mode"]

theorem eq_of_isAclTerm {name pred : Str} (h : isAclTerm name pred = true) :
    pred = ("http://www.w3.org/ns/auth/acl#" : Str) ++ name ∨ pred = ("acl:" : Str) ++ name := by
  simpa [isAclTerm] using h

/-- A pair adds the conditions of its object list, when it has one. -/
theorem conditions_authorizationPair {prefixes : Prefixes} {auth auth' : AclAuthorization}
    {anyAuthz anyAuthz' : Bool} {pair : Str}
    (h : authorizationPair prefixes (auth, anyAuthz) pair = some (auth', anyAuthz')) :
    auth'.conditions = auth.conditions ++
      (conditionList prefixes pair).toList.flatMap (conditionObjects prefixes) := by
  rw [authorizationPair] at h
  simp only [] at h
  rw [conditionList]
  by_cases hblank : (trim pair).isEmpty = true
  · rw [if_pos hblank] at h
    cases h
    rw [List.isEmpty_iff.mp hblank]
    exact (List.append_nil _).symm
  · rw [if_neg hblank, Option.map_eq_some_iff] at h
    obtain ⟨⟨pred, rest⟩, hpop, heq⟩ := h
    rw [hpop]
    simp only [] at heq ⊢
    cases hcond : isAclTerm "condition" (expandCurieOrIri prefixes pred) with
    | true =>
        have hnames : isTypePredicate (expandCurieOrIri prefixes pred) = false ∧
            ∀ name ∈ aclNames, isAclTerm name (expandCurieOrIri prefixes pred) = false := by
          rcases eq_of_isAclTerm hcond with hp | hp
          · rw [hp]
            decide
          · rw [hp]
            decide
        simp only [aclNames, List.forall_mem_cons] at hnames
        obtain ⟨htype, h₁, h₂, h₃, h₄, h₅, h₆, h₇, -⟩ := hnames
        simp only [htype, h₁, h₂, h₃, h₄, h₅, h₆, h₇, hcond, Bool.false_eq_true, if_false, if_true,
          Prod.mk.injEq] at heq ⊢
        rw [← heq.1]
        simp [AclAuthorization.conditions, parseTurtleConditionObjects, conditionObjects, trim_trim]
    | false =>
        simp only [hcond, Bool.false_eq_true, if_false] at heq ⊢
        have hsame : auth'.condition = auth.condition := by
          have hfield := congrArg (fun r : AclAuthorization × Bool => r.1.condition) heq
          simpa only [apply_ite (fun r : AclAuthorization × Bool => r.1.condition), ite_self]
            using hfield.symm
        simp [AclAuthorization.conditions, hsame]

theorem conditions_foldlM {prefixes : Prefixes} {pairs : List Str}
    {st st' : AclAuthorization × Bool}
    (h : pairs.foldlM (authorizationPair prefixes) st = some st') :
    st'.1.conditions = st.1.conditions ++
      (pairs.filterMap (conditionList prefixes)).flatMap (conditionObjects prefixes) := by
  induction pairs generalizing st with
  | nil =>
      cases h
      simp
  | cons pair pairs ih =>
      rw [List.foldlM_cons] at h
      cases hpair : authorizationPair prefixes st pair with
      | none =>
          rw [hpair] at h
          cases h
      | some st₁ =>
          rw [hpair] at h
          have hst₁ := conditions_authorizationPair hpair
          rw [ih h, hst₁, List.append_assoc, List.filterMap_cons]
          cases conditionList prefixes pair with
          | none => rfl
          | some list => simp

/-- The conditions of an authorisation are those of the object lists that the
parser reads in its statement. -/
theorem conditions_parseTurtleAuthorization {prefixes : Prefixes} {st : Str}
    {auth : AclAuthorization} (hst : trim st = st)
    (h : parseTurtleAuthorization prefixes st = some auth) :
    auth.conditions = (parserLists prefixes st).flatMap (conditionObjects prefixes) := by
  rw [parseTurtleAuthorization, hst] at h
  split at h
  · cases h
  · split at h
    · cases h
    · rename_i subject body hpop
      split at h
      · cases h
      · rename_i auth' anyAuthz hfold
        split at h
        · cases h
          rw [conditions_foldlM hfold, parserLists, statementBody, hpop]
          rfl
        · cases h

/-- The authorisations of a parsed document are those that its statements
become. -/
theorem mem_graph_iff {input : Str} {maxBytes : Nat} {doc : AclDocument}
    (h : parseTurtleAclWithLimit input maxBytes = .ok doc) (auth : AclAuthorization) :
    auth ∈ doc.graph.getD [] ↔ ∃ st ∈ parserStatements input,
      parseTurtleAuthorization (turtleStatements input).1 st = some auth := by
  have htrim : ∀ st, parseTurtleAuthorization (turtleStatements input).1 (trim st) =
      parseTurtleAuthorization (turtleStatements input).1 st := by
    intro st
    rw [parseTurtleAuthorization, parseTurtleAuthorization, trim_trim]
  rw [parseTurtleAclWithLimit] at h
  split at h
  · cases h
  · cases h
    have hgraph : ∀ l : List AclAuthorization,
        (if l.isEmpty then none else some l).getD [] = l := by
      intro l
      cases l with
      | nil => rfl
      | cons a l => rfl
    rw [hgraph, List.mem_filterMap]
    constructor
    · rintro ⟨st, hst, hauth⟩
      split at hauth
      · cases hauth
      · rename_i hblank
        refine ⟨trim st, List.mem_filter.mpr ⟨List.mem_map_of_mem hst, by simpa using hblank⟩, ?_⟩
        exact (htrim st).trans hauth
    · rintro ⟨st, hst, hauth⟩
      obtain ⟨hmem, hblank⟩ := List.mem_filter.mp hst
      obtain ⟨st', hst', rfl⟩ := List.mem_map.mp hmem
      refine ⟨st', hst', ?_⟩
      rw [if_neg (by simpa using hblank)]
      exact (htrim st').symm.trans hauth

/-- Lengths that are bounded one by one have equal sums only if they are equal
one by one. -/
theorem length_flatMap_eq_iff {α β γ : Type*} {f : α → List β} {g : α → List γ} {l : List α}
    (h : ∀ a ∈ l, (f a).length ≤ (g a).length) :
    (l.flatMap f).length ≤ (l.flatMap g).length ∧
      ((l.flatMap f).length = (l.flatMap g).length ↔ ∀ a ∈ l, (f a).length = (g a).length) := by
  induction l with
  | nil => simp
  | cons a l ih =>
      rw [List.forall_mem_cons] at h
      obtain ⟨hle, hiff⟩ := ih h.2
      rw [List.flatMap_cons, List.flatMap_cons, List.length_append, List.length_append,
        List.forall_mem_cons, ← hiff]
      have ha := h.1
      constructor
      · omega
      · constructor <;> intro heq <;> omega

/-! ## Failing closed -/

/-- An authorisation keeps the conditions that a statement writes. -/
structure KeepsConditions (prefixes : Prefixes) (st : Str) (auth : AclAuthorization) : Prop where
  kept : auth.conditions.length = ((writtenLists prefixes st).flatMap writtenObjects).length
  gated : auth.conditions ≠ []
  closed : ∀ ctx resourcePath requiredMode groups,
    authGrants auth ctx resourcePath requiredMode groups emptyDispatcher = false

/-- If a text writes conditions, its statements are read one by one, and each one
that becomes an authorisation and carries conditions keeps them. -/
def ConditionsKept (input : Str) : Prop :=
  let prefixes := (turtleStatements input).1
  (∃ st ∈ writtenStatements input, writtenLists prefixes st ≠ []) →
    List.Forall₂ (fun st st' => ∀ auth, parseTurtleAuthorization prefixes st' = some auth →
        writtenLists prefixes st ≠ [] → KeepsConditions prefixes st auth)
      (writtenStatements input) (parserStatements input)

/-- The parser's cutters cut the text as it is written: its comments and
statements, and the predicates and objects of what becomes an authorisation. -/
structure CutAsWritten (input : Str) : Prop where
  statements : parserStatements input = writtenStatements input
  lists : ∀ st ∈ writtenStatements input,
    (parseTurtleAuthorization (turtleStatements input).1 st).isSome →
      parserLists (turtleStatements input).1 st = writtenLists (turtleStatements input).1 st
  objects : ∀ st ∈ writtenStatements input,
    (parseTurtleAuthorization (turtleStatements input).1 st).isSome →
      ∀ list ∈ writtenLists (turtleStatements input).1 st, parserObjects list = writtenObjects list

instance (input : Str) : Decidable (CutAsWritten input) :=
  decidable_of_iff
    (parserStatements input = writtenStatements input ∧ ∀ st ∈ writtenStatements input,
      (parseTurtleAuthorization (turtleStatements input).1 st).isSome →
        parserLists (turtleStatements input).1 st = writtenLists (turtleStatements input).1 st ∧
          ∀ list ∈ writtenLists (turtleStatements input).1 st,
            parserObjects list = writtenObjects list)
    ⟨fun h => ⟨h.1, fun st hst hsome => (h.2 st hst hsome).1,
        fun st hst hsome => (h.2 st hst hsome).2⟩,
      fun h => ⟨h.statements, fun st hst hsome => ⟨h.lists st hst hsome, h.objects st hst hsome⟩⟩⟩

/-- Each `acl:condition` has an object, and all its objects are readable. -/
def ConditionsReadable (input : Str) : Prop :=
  let prefixes := (turtleStatements input).1
  ∀ st ∈ writtenStatements input, (parseTurtleAuthorization prefixes st).isSome →
    writtenLists prefixes st ≠ [] →
      (∃ list ∈ writtenLists prefixes st, writtenObjects list ≠ []) ∧
        ∀ list ∈ writtenLists prefixes st, ObjectsReadable prefixes (writtenObjects list)

instance (input : Str) : Decidable (ConditionsReadable input) :=
  inferInstanceAs (Decidable (∀ st ∈ writtenStatements input, _ → _ → _ ∧ _))

/-- Where the cutters cut as written, a statement keeps its conditions exactly
when they are readable. -/
theorem keepsConditions_iff {prefixes : Prefixes} {st : Str} {auth : AclAuthorization}
    (hst : trim st = st) (hauth : parseTurtleAuthorization prefixes st = some auth)
    (hlists : parserLists prefixes st = writtenLists prefixes st)
    (hobjects : ∀ list ∈ writtenLists prefixes st, parserObjects list = writtenObjects list) :
    KeepsConditions prefixes st auth ↔
      (∃ list ∈ writtenLists prefixes st, writtenObjects list ≠ []) ∧
        ∀ list ∈ writtenLists prefixes st, ObjectsReadable prefixes (writtenObjects list) := by
  have hconditions := conditions_parseTurtleAuthorization hst hauth
  rw [hlists] at hconditions
  have hlength : ∀ list ∈ writtenLists prefixes st,
      (conditionObjects prefixes list).length ≤ (writtenObjects list).length := by
    intro list hlist
    rw [← hobjects list hlist]
    exact (length_conditionObjects prefixes list).1
  obtain ⟨-, hsum⟩ := length_flatMap_eq_iff hlength
  have hkept : auth.conditions.length =
        ((writtenLists prefixes st).flatMap writtenObjects).length ↔
      ∀ list ∈ writtenLists prefixes st, ObjectsReadable prefixes (writtenObjects list) := by
    rw [hconditions, hsum]
    refine forall₂_congr fun list hlist => ?_
    rw [← hobjects list hlist]
    exact (length_conditionObjects prefixes list).2
  have hsome : (writtenLists prefixes st).flatMap writtenObjects ≠ [] ↔
      ∃ list ∈ writtenLists prefixes st, writtenObjects list ≠ [] := by
    simp [List.flatMap_eq_nil_iff]
  constructor
  · rintro ⟨hk, hgated, -⟩
    refine ⟨hsome.mp ?_, hkept.mp hk⟩
    rw [← List.length_pos_iff, ← hk, List.length_pos_iff]
    exact hgated
  · rintro ⟨hex, hreadable⟩
    have hk := hkept.mpr hreadable
    have hgated : auth.conditions ≠ [] := by
      rw [← List.length_pos_iff, hk, List.length_pos_iff]
      exact hsome.mpr hex
    refine ⟨hk, hgated, ?_⟩
    intro ctx resourcePath requiredMode groups
    obtain ⟨cond, hcond⟩ := List.exists_mem_of_ne_nil _ hgated
    exact authGrants_eq_false_of_mem hcond (by simp [emptyDispatcher]) resourcePath requiredMode

def clientConditionText : Str :=
  "<#r> a acl:Authorization; acl:agentClass foaf:Agent; acl:accessTo </x>; acl:mode acl:Read; " ++
    "acl:condition [ a acl:ClientCondition; acl:client <https://app.example> ], ex:Quota ."

def literalStatement : Str :=
  "<#r> a acl:Authorization; acl:agentClass foaf:Agent; acl:accessTo </x>; acl:mode acl:Read; " ++
    "acl:condition \"quota\""

def literalAuthorization : AclAuthorization :=
  { AclAuthorization.empty with
    agentClass := some (.single ⟨"http://xmlns.com/foaf/0.1/Agent"⟩)
    accessTo := some (.single ⟨"/x"⟩)
    mode := some (.single ⟨"http://www.w3.org/ns/auth/acl#Read"⟩)
    condition := some [] }

end Wac

end SolidPod
