import SolidPod.Foundation.TripleSets
import SolidPod.Wac.RoundTrip
import SolidPod.Wac.Rule

/-!
# The triples of an ACL text

The parser reads a text as statements, and a statement as pairs of a predicate
and its objects. From the pairs it then makes the authorisation of the statement:
the last pair of a predicate sets its field, only conditions are collected. The
two steps are told apart here, so that texts which write the same triples another
way can be compared.
-/

namespace SolidPod

namespace Wac

open Foundation Str TripleSets

/-! ## Reading -/

/-- An object is a term or, of a condition, a body with pairs of its own. -/
inductive TurtleObject where
  | term (iri : Str)
  | body (pairs : List (Pair Str Str))
  deriving DecidableEq

abbrev TurtlePair := Pair Str TurtleObject

abbrev TurtleStatement := Statement Str Str TurtleObject

/-- A pair of a condition body; one whose predicate cannot be read is skipped. -/
def readBodyPair (prefixes : Prefixes) (pair : Str) : Option (Pair Str Str) :=
  let pair := trim pair
  if pair.isEmpty then none
  else (turtlePopTerm pair).map fun (pred, rest) =>
    ⟨expandCurieOrIri prefixes pred, parseObjectList prefixes (trim rest)⟩

def readBody (prefixes : Prefixes) (body : Str) : List (Pair Str Str) :=
  (splitPredicateList body).filterMap (readBodyPair prefixes)

def readConditionObject (prefixes : Prefixes) (remaining : Str) :
    Option (TurtleObject × Option Str) :=
  let r := trimStart remaining
  if r.isEmpty then none
  else
    match stripPrefix ['['] r with
    | some afterOpen =>
      (closeBracket 1 false afterOpen).map fun (body, rest) =>
        (.body (readBody prefixes body), afterComma (trimStart rest))
    | none =>
      (turtlePopTerm r).map fun (tok, rest) =>
        (.term (expandCurieOrIri prefixes tok), afterComma rest)

def readObjects (prefixes : Prefixes) (pred input : Str) : List TurtleObject :=
  if isAclTerm "condition" pred then
    consumeAll (readConditionObject prefixes) List.length (trim input)
  else (parseObjectList prefixes input).map .term

def readPair (prefixes : Prefixes) (pair : Str) : Option TurtlePair :=
  (turtlePopTerm (trim pair)).map fun (pred, rest) =>
    let pred := expandCurieOrIri prefixes pred
    ⟨pred, readObjects prefixes pred (trim rest)⟩

def isBlankText (t : Str) : Bool := (trim t).isEmpty

/-- A statement with a pair whose predicate cannot be read is not read. -/
def readStatement (prefixes : Prefixes) (stmt : Str) : Option TurtleStatement :=
  if isBlankText stmt then none
  else (turtlePopTerm (trim stmt)).bind fun (subject, body) =>
    (((splitPredicateList body).filter (!isBlankText ·)).mapM (readPair prefixes)).map fun pairs =>
      ⟨expandCurieOrIri prefixes subject, pairs⟩

/-- The statements that a text is read as. -/
def reading (input : Str) : List TurtleStatement :=
  (turtleStatements input).2.filterMap (readStatement (turtleStatements input).1)

/-! ## From statements to authorisations -/

/-- The pair of a condition body is collected in its field. -/
def ConditionFields.state (f : ConditionFields) (pair : Pair Str Str) : ConditionFields :=
  if isTypePredicate pair.predicate then
    match pair.objects.head? with
    | some first => { f with typeIri := some (normaliseConditionType first) }
    | none => f
  else if isAclTerm "client" pair.predicate then { f with clients := f.clients ++ pair.objects }
  else if isAclTerm "clientGroup" pair.predicate then
    { f with clientGroups := f.clientGroups ++ pair.objects }
  else if isAclTerm "clientClass" pair.predicate then
    { f with clientClasses := f.clientClasses ++ pair.objects }
  else if isAclTerm "issuer" pair.predicate then { f with issuers := f.issuers ++ pair.objects }
  else if isAclTerm "issuerGroup" pair.predicate then
    { f with issuerGroups := f.issuerGroups ++ pair.objects }
  else if isAclTerm "issuerClass" pair.predicate then
    { f with issuerClasses := f.issuerClasses ++ pair.objects }
  else f

def TurtleObject.iri? : TurtleObject → Option Str
  | .term iri => some iri
  | .body _ => none

/-- The condition that an object describes, if it has a type. -/
def TurtleObject.condition? : TurtleObject → Option Condition
  | .term iri => some (.unknown iri)
  | .body pairs =>
    let f := pairs.foldl ConditionFields.state .empty
    f.typeIri.map f.toCondition

/-- The pair of a statement sets its field, in place of what the field held. -/
def AclAuthorization.state (st : AclAuthorization × Bool) (pair : TurtlePair) :
    AclAuthorization × Bool :=
  let (auth, anyAuthz) := st
  let objects := pair.objects.filterMap TurtleObject.iri?
  if isTypePredicate pair.predicate then
    (auth, anyAuthz || objects.any fun o => isAclTerm "Authorization" o)
  else if isAclTerm "agent" pair.predicate then
    ({ auth with agent := some (idsOf objects) }, anyAuthz)
  else if isAclTerm "agentClass" pair.predicate then
    ({ auth with agentClass := some (idsOf objects) }, anyAuthz)
  else if isAclTerm "agentGroup" pair.predicate then
    ({ auth with agentGroup := some (idsOf objects) }, anyAuthz)
  else if isAclTerm "origin" pair.predicate then
    ({ auth with origin := some (idsOf objects) }, anyAuthz)
  else if isAclTerm "accessTo" pair.predicate then
    ({ auth with accessTo := some (idsOf objects) }, anyAuthz)
  else if isAclTerm "default" pair.predicate then
    ({ auth with default := some (idsOf objects) }, anyAuthz)
  else if isAclTerm "mode" pair.predicate then
    ({ auth with mode := some (idsOf objects) }, anyAuthz)
  else if isAclTerm "condition" pair.predicate then
    ({ auth with
      condition := some (auth.conditions ++ pair.objects.filterMap TurtleObject.condition?) },
      anyAuthz)
  else (auth, anyAuthz)

def authorization (st : TurtleStatement) : Option AclAuthorization :=
  let (auth, anyAuthz) := st.pairs.foldl AclAuthorization.state (.empty, false)
  if anyAuthz then some auth else none

/-- The document of the statements. -/
def document (S : List TurtleStatement) : AclDocument :=
  ⟨if (S.filterMap authorization).isEmpty then none else some (S.filterMap authorization)⟩

/-! ## The parser reads, then collects -/

theorem conditionPair_eq (prefixes : Prefixes) (f : ConditionFields) (pair : Str) :
    conditionPair prefixes f pair = ((readBodyPair prefixes pair).map f.state).getD f := by
  rw [conditionPair, readBodyPair]
  cases (trim pair).isEmpty with
  | true => rfl
  | false =>
      cases turtlePopTerm (trim pair) with
      | none => rfl
      | some popped => rfl

theorem parseTurtleConditionBody_eq (prefixes : Prefixes) (body : Str) :
    parseTurtleConditionBody prefixes body =
      (TurtleObject.body (readBody prefixes body)).condition? := by
  have hfold : ∀ (l : List Str) (f : ConditionFields), l.foldl (conditionPair prefixes) f =
      (l.filterMap (readBodyPair prefixes)).foldl ConditionFields.state f := by
    intro l
    induction l with
    | nil => exact fun f => rfl
    | cons pair l ih =>
        intro f
        rw [List.foldl_cons, conditionPair_eq, ih, List.filterMap_cons]
        cases readBodyPair prefixes pair with
        | none => rfl
        | some q => rfl
  rw [parseTurtleConditionBody, conditionFields, hfold]
  rfl

theorem nextConditionObject_eq_map (prefixes : Prefixes) :
    nextConditionObject prefixes = fun remaining =>
      (readConditionObject prefixes remaining).map fun r => (r.1.condition?.toList, r.2) := by
  funext remaining
  rw [nextConditionObject, readConditionObject]
  simp only []
  split
  · rfl
  · cases stripPrefix ['['] (trimStart remaining) with
    | none =>
        simp only [Option.map_map]
        rfl
    | some afterOpen =>
        simp only [Option.map_map, parseTurtleConditionBody_eq]
        rfl

theorem parseTurtleConditionObjects_eq (prefixes : Prefixes) (input : Str) :
    parseTurtleConditionObjects prefixes input =
      (consumeAll (readConditionObject prefixes) List.length (trim input)).filterMap
        TurtleObject.condition? := by
  rw [parseTurtleConditionObjects, nextConditionObject_eq_map,
    consumeAll_map (readConditionObject prefixes) fun o => o.condition?.toList,
    ← List.flatMap_def, List.filterMap_eq_flatMap_toList]

/-- The predicates that an authorisation reads. -/
def authorizationNames : List Str :=
  ["agent", "agentClass", "agentGroup", "origin", "accessTo", "default", "mode", "condition"]

/-- A predicate is at most one of them. -/
theorem map_isAclTerm {name pred : Str} (hname : name ∈ authorizationNames)
    (h : isAclTerm name pred = true) : isTypePredicate pred = false ∧
      authorizationNames.map (fun n => isAclTerm n pred) = authorizationNames.map (· == name) := by
  have hclosed : ∀ name ∈ authorizationNames,
      ∀ p ∈ [("http://www.w3.org/ns/auth/acl#" : Str) ++ name, ("acl:" : Str) ++ name],
        isTypePredicate p = false ∧
          authorizationNames.map (fun n => isAclTerm n p) = authorizationNames.map (· == name) := by
    decide
  refine hclosed name hname pred ?_
  rw [isAclTerm, Bool.or_eq_true, beq_iff_eq, beq_iff_eq] at h
  simpa using h

theorem authorizationPair_eq (prefixes : Prefixes) (st : AclAuthorization × Bool) (pair : Str) :
    authorizationPair prefixes st pair =
      if isBlankText pair then some st
      else (readPair prefixes pair).map (AclAuthorization.state st) := by
  rw [authorizationPair, readPair, isBlankText]
  cases (trim pair).isEmpty with
  | true => rfl
  | false =>
      cases turtlePopTerm (trim pair) with
      | none => rfl
      | some popped =>
          obtain ⟨tok, rest⟩ := popped
          simp only [Option.map_some, Bool.false_eq_true, if_false, Option.some.injEq]
          generalize expandCurieOrIri prefixes tok = pred
          rw [AclAuthorization.state, readObjects]
          by_cases hcond : isAclTerm "condition" pred = true
          · obtain ⟨htype, htable⟩ := map_isAclTerm (by simp [authorizationNames]) hcond
            have hrow : authorizationNames.map (· == "condition".toList) =
                [false, false, false, false, false, false, false, true] := by
              decide
            rw [hrow] at htable
            simp only [authorizationNames, List.map_cons, List.map_nil, List.cons.injEq] at htable
            simp only [htype, htable, parseTurtleConditionObjects_eq, trim_trim,
              Bool.false_eq_true, if_false, if_true]
          · have hterms : ((parseObjectList prefixes (trim rest)).map TurtleObject.term).filterMap
                TurtleObject.iri? = parseObjectList prefixes (trim rest) := by
              rw [List.filterMap_map]
              exact List.filterMap_some
            simp only [hcond, Bool.false_eq_true, if_false, hterms]

/-- The pairs of a statement are read and then collected. -/
theorem foldlM_authorizationPair (prefixes : Prefixes) (l : List Str)
    (st : AclAuthorization × Bool) :
    l.foldlM (authorizationPair prefixes) st =
      ((l.filter (!isBlankText ·)).mapM (readPair prefixes)).map fun pairs =>
        pairs.foldl AclAuthorization.state st := by
  induction l generalizing st with
  | nil => rfl
  | cons pair l ih =>
      rw [List.foldlM_cons, authorizationPair_eq, List.filter_cons]
      cases isBlankText pair with
      | true => exact ih st
      | false =>
          simp only [Bool.false_eq_true, if_false, Bool.not_false, if_true, List.mapM_cons]
          cases readPair prefixes pair with
          | none => rfl
          | some q =>
              change l.foldlM (authorizationPair prefixes) (AclAuthorization.state st q) = _
              rw [ih]
              cases (l.filter (!isBlankText ·)).mapM (readPair prefixes) with
              | none => rfl
              | some pairs => rfl

theorem parseTurtleAuthorization_eq (prefixes : Prefixes) (stmt : Str) :
    parseTurtleAuthorization prefixes stmt =
      (readStatement prefixes stmt).bind authorization := by
  rw [parseTurtleAuthorization, readStatement, isBlankText]
  simp only []
  cases (trim stmt).isEmpty with
  | true => rfl
  | false =>
      cases turtlePopTerm (trim stmt) with
      | none => rfl
      | some popped =>
          obtain ⟨subject, body⟩ := popped
          simp only [foldlM_authorizationPair, Bool.false_eq_true, if_false, Option.bind_some]
          cases ((splitPredicateList body).filter (!isBlankText ·)).mapM (readPair prefixes) with
          | none => rfl
          | some pairs => rfl

/-- Every text is parsed as the document of the statements that are read from it. -/
theorem parseTurtleAclWithLimit_eq (input : Str) (maxBytes : Nat) :
    parseTurtleAclWithLimit input maxBytes =
      if byteLen input > maxBytes then
        .error (.payloadTooLarge ("ACL body exceeds " ++ decimal maxBytes ++ " bytes"))
      else .ok (document (reading input)) := by
  have hgraph : ((turtleStatements input).2.filterMap fun stmt =>
      if (trim stmt).isEmpty then none
      else parseTurtleAuthorization (turtleStatements input).1 stmt) =
        (reading input).filterMap authorization := by
    rw [reading, List.filterMap_filterMap]
    refine List.filterMap_congr ?_
    intro stmt _
    rw [← parseTurtleAuthorization_eq, parseTurtleAuthorization]
    split
    · rfl
    · rfl
  rw [parseTurtleAclWithLimit, document, ← hgraph]

/-! ## What a pair sets -/

/-- What one pair does to the authorisation of its statement. -/
inductive States (pair : TurtlePair) (st : AclAuthorization × Bool) :
    AclAuthorization × Bool → Prop
  | typed (h : isTypePredicate pair.predicate = true) :
      States pair st (st.1, st.2 || (pair.objects.filterMap TurtleObject.iri?).any
        fun o => isAclTerm "Authorization" o)
  | field {name : Str} {set : AclAuthorization → Option IdOrIds → AclAuthorization}
      (hset : (name, set) ∈ aclFields) (h : isAclTerm name pair.predicate = true) :
      States pair st
        (set st.1 (some (idsOf (pair.objects.filterMap TurtleObject.iri?))), st.2)
  | condition (h : isAclTerm "condition" pair.predicate = true) (conds : List Condition) :
      States pair st ({ st.1 with condition := some conds }, st.2)
  | other : States pair st st

theorem states_state (pair : TurtlePair) (st : AclAuthorization × Bool) :
    States pair st (AclAuthorization.state st pair) := by
  refine iteInduction (motive := States pair st) .typed fun _ => ?_
  refine iteInduction (motive := States pair st) (.field (.head _)) fun _ => ?_
  refine iteInduction (motive := States pair st) (.field (.tail _ (.head _))) fun _ => ?_
  refine iteInduction (motive := States pair st) (.field (.tail _ (.tail _ (.head _)))) fun _ => ?_
  refine iteInduction (motive := States pair st)
    (.field (.tail _ (.tail _ (.tail _ (.head _))))) fun _ => ?_
  refine iteInduction (motive := States pair st)
    (.field (.tail _ (.tail _ (.tail _ (.tail _ (.head _)))))) fun _ => ?_
  refine iteInduction (motive := States pair st)
    (.field (.tail _ (.tail _ (.tail _ (.tail _ (.tail _ (.head _))))))) fun _ => ?_
  refine iteInduction (motive := States pair st)
    (.field (.tail _ (.tail _ (.tail _ (.tail _ (.tail _ (.tail _ (.head _)))))))) fun _ => ?_
  exact iteInduction (motive := States pair st) (fun h => .condition h _) fun _ => .other

/-- The pair of a field sets that field. -/
theorem state_field {name : Str} {set : AclAuthorization → Option IdOrIds → AclAuthorization}
    (hset : (name, set) ∈ aclFields) {pair : TurtlePair}
    (h : isAclTerm name pair.predicate = true) (st : AclAuthorization × Bool) :
    AclAuthorization.state st pair =
      (set st.1 (some (idsOf (pair.objects.filterMap TurtleObject.iri?))), st.2) := by
  have hname : name ∈ authorizationNames := by
    simp only [aclFields, List.mem_cons, List.not_mem_nil, or_false, Prod.mk.injEq] at hset
    rcases hset with h | h | h | h | h | h | h <;> simp [h.1, authorizationNames]
  obtain ⟨htype, htable⟩ := map_isAclTerm hname h
  have hrows : aclFields.map (fun field => authorizationNames.map (· == field.1)) =
      [[true, false, false, false, false, false, false, false],
        [false, true, false, false, false, false, false, false],
        [false, false, true, false, false, false, false, false],
        [false, false, false, true, false, false, false, false],
        [false, false, false, false, true, false, false, false],
        [false, false, false, false, false, true, false, false],
        [false, false, false, false, false, false, true, false]] := by
    decide
  simp only [aclFields, List.map_cons, List.map_nil, List.cons.injEq, and_true] at hrows
  rw [AclAuthorization.state]
  simp only [aclFields, List.mem_cons, List.not_mem_nil, or_false, Prod.mk.injEq] at hset
  rcases hset with ⟨rfl, rfl⟩ | ⟨rfl, rfl⟩ | ⟨rfl, rfl⟩ | ⟨rfl, rfl⟩ | ⟨rfl, rfl⟩ | ⟨rfl, rfl⟩ |
    ⟨rfl, rfl⟩
  all_goals
    simp only [hrows] at htable
    simp only [authorizationNames, List.map_cons, List.map_nil, List.cons.injEq] at htable
    simp only [htype, htable, Bool.false_eq_true, if_false, if_true]
/-! ## What a statement can grant -/

/-- The triples about a subject that an authorisation cannot do without: its type,
a mode, an agent and a target. -/
structure Suffices (say : Str → Str → Prop) : Prop where
  typed : ∃ p o, say p o ∧ isTypePredicate p = true ∧ isAclTerm "Authorization" o = true
  mode : ∃ p o, say p o ∧ isAclTerm "mode" p = true ∧ mapMode o ≠ []
  agent : ∃ p o, say p o ∧ (isAclTerm "agent" p = true ∨ isAclTerm "agentGroup" p = true ∨
    isAclTerm "agentClass" p = true ∧ (isPublicClass o = true ∨ isAuthenticatedClass o = true))
  target : ∃ p o, say p o ∧ (isAclTerm "accessTo" p = true ∨ isAclTerm "default" p = true)

/-- The triples about one of the subjects suffice. -/
def CouldGrant (S : List TurtleStatement) : Prop :=
  ∃ s, Suffices fun p iri => Says S s p (.term iri)

theorem Suffices.mono {say say' : Str → Str → Prop} (h : Suffices say)
    (hsay : ∀ p o, say p o → say' p o) : Suffices say' where
  typed := h.typed.imp fun _ ⟨o, ho, hp⟩ => ⟨o, hsay _ _ ho, hp⟩
  mode := h.mode.imp fun _ ⟨o, ho, hp⟩ => ⟨o, hsay _ _ ho, hp⟩
  agent := h.agent.imp fun _ ⟨o, ho, hp⟩ => ⟨o, hsay _ _ ho, hp⟩
  target := h.target.imp fun _ ⟨o, ho, hp⟩ => ⟨o, hsay _ _ ho, hp⟩

/-- What the fields of an authorisation hold is written in the pairs. -/
structure Written (pairs : List TurtlePair) (st : AclAuthorization × Bool) : Prop where
  typed : st.2 = true → ∃ p o, PairsSay pairs p (.term o) ∧ isTypePredicate p = true ∧
    isAclTerm "Authorization" o = true
  field : ∀ field ∈ fields st.1, ∀ o ∈ getIds field.2,
    ∃ p, PairsSay pairs p (.term o) ∧ isAclTerm field.1 p = true

theorem mem_filterMap_iri {objects : List TurtleObject} {o : Str} :
    o ∈ objects.filterMap TurtleObject.iri? ↔ .term o ∈ objects := by
  rw [List.mem_filterMap]
  constructor
  · rintro ⟨object, hmem, hiri⟩
    cases object with
    | term iri =>
        cases hiri
        exact hmem
    | body pairs => cases hiri
  · exact fun h => ⟨.term o, h, rfl⟩

/-- A field is set in its own place. -/
theorem exists_fields_eq_set {name : Str}
    {set : AclAuthorization → Option IdOrIds → AclAuthorization} (hset : (name, set) ∈ aclFields)
    (auth : AclAuthorization) (ids : Option IdOrIds) :
    ∃ i, fields (set auth ids) = (fields auth).set i (name, ids) := by
  simp only [aclFields, List.mem_cons, List.not_mem_nil, or_false, Prod.mk.injEq] at hset
  rcases hset with ⟨rfl, rfl⟩ | ⟨rfl, rfl⟩ | ⟨rfl, rfl⟩ | ⟨rfl, rfl⟩ | ⟨rfl, rfl⟩ | ⟨rfl, rfl⟩ |
    ⟨rfl, rfl⟩
  · exact ⟨0, rfl⟩
  · exact ⟨1, rfl⟩
  · exact ⟨2, rfl⟩
  · exact ⟨3, rfl⟩
  · exact ⟨4, rfl⟩
  · exact ⟨5, rfl⟩
  · exact ⟨6, rfl⟩

theorem written_state {pairs : List TurtlePair} {st : AclAuthorization × Bool}
    (h : Written pairs st) (pair : TurtlePair) :
    Written (pairs ++ [pair]) (AclAuthorization.state st pair) := by
  have hold : ∀ p o, PairsSay pairs p o → PairsSay (pairs ++ [pair]) p o :=
    fun p o hsay => pairsSay_append.mpr (Or.inl hsay)
  have hnew : ∀ o ∈ pair.objects.filterMap TurtleObject.iri?,
      PairsSay (pairs ++ [pair]) pair.predicate (.term o) := fun o ho =>
    pairsSay_append.mpr (Or.inr ⟨pair, by simp, rfl, mem_filterMap_iri.mp ho⟩)
  have htyped : st.2 = true → ∃ p o, PairsSay (pairs ++ [pair]) p (.term o) ∧
      isTypePredicate p = true ∧ isAclTerm "Authorization" o = true := by
    intro hst
    obtain ⟨p, o, hsay, hp⟩ := h.typed hst
    exact ⟨p, o, hold p _ hsay, hp⟩
  have hfield : ∀ field ∈ fields st.1, ∀ o ∈ getIds field.2,
      ∃ p, PairsSay (pairs ++ [pair]) p (.term o) ∧ isAclTerm field.1 p = true := by
    intro field hmem o ho
    obtain ⟨p, hsay, hp⟩ := h.field field hmem o ho
    exact ⟨p, hold p _ hsay, hp⟩
  have hstates := states_state pair st
  generalize AclAuthorization.state st pair = st' at hstates ⊢
  cases hstates with
  | typed htype =>
      refine ⟨fun hst => ?_, hfield⟩
      rcases Bool.or_eq_true_iff.mp hst with hst | hany
      · exact htyped hst
      · obtain ⟨o, ho, hauth⟩ := List.any_eq_true.mp hany
        exact ⟨pair.predicate, o, hnew o ho, htype, hauth⟩
  | @field name set hset hname =>
      refine ⟨htyped, fun field hmem o ho => ?_⟩
      have hcases : field ∈ fields st.1 ∨
          field = (name, some (idsOf (pair.objects.filterMap TurtleObject.iri?))) := by
        obtain ⟨i, hi⟩ := exists_fields_eq_set hset st.1
          (some (idsOf (pair.objects.filterMap TurtleObject.iri?)))
        rw [hi] at hmem
        exact List.mem_or_eq_of_mem_set hmem
      rcases hcases with hmem | rfl
      · exact hfield field hmem o ho
      · rw [getIds_some_idsOf] at ho
        exact ⟨pair.predicate, hnew o ho, hname⟩
  | condition _ conds => exact ⟨htyped, hfield⟩
  | other => exact ⟨htyped, hfield⟩

theorem written_foldl (pairs : List TurtlePair) :
    Written pairs (pairs.foldl AclAuthorization.state (.empty, false)) := by
  induction pairs using List.reverseRecOn with
  | nil =>
      refine ⟨nofun, ?_⟩
      intro field hmem o ho
      simp only [fields, AclAuthorization.empty, List.mem_cons, List.not_mem_nil, or_false] at hmem
      rcases hmem with rfl | rfl | rfl | rfl | rfl | rfl | rfl
      all_goals exact absurd ho List.not_mem_nil
  | append_singleton pairs pair ih =>
      rw [List.foldl_append]
      exact written_state ih pair

/-- A statement becomes an authorisation that grants only if its triples suffice. -/
theorem suffices_of_authorises {st : TurtleStatement} {auth : AclAuthorization}
    (hauth : authorization st = some auth) {ctx : RequestContext} {path : Str} {mode : AccessMode}
    {groups : GroupMembership} {dispatcher : ConditionDispatcher}
    (h : Authorises auth ctx path mode groups dispatcher) :
    Suffices fun p iri => PairsSay st.pairs p (.term iri) := by
  have hwritten := written_foldl st.pairs
  rw [authorization] at hauth
  simp only [Option.ite_none_right_eq_some, Option.some.injEq] at hauth
  obtain ⟨hany, rfl⟩ := hauth
  have hfield := hwritten.field
  simp only [fields, List.forall_mem_cons] at hfield
  obtain ⟨hagent, hclass, hgroup, -, haccess, hdefault, hmode, -⟩ := hfield
  refine ⟨hwritten.typed hany, ?_, ?_, ?_⟩
  · obtain ⟨modeRef, hmem, hlists⟩ := h.lists
    obtain ⟨p, hsay, hp⟩ := hmode modeRef hmem
    exact ⟨p, modeRef, hsay, hp, List.ne_nil_of_mem ((mem_mapMode_iff modeRef mode).mpr hlists)⟩
  · rcases h.names with ⟨cls, hmem, hpublic⟩ | ⟨uri, -, hmem | ⟨cls, hmem, hauthn⟩ | ⟨g, hmem, -⟩⟩
    · obtain ⟨p, hsay, hp⟩ := hclass cls hmem
      exact ⟨p, cls, hsay, Or.inr (Or.inr ⟨hp, Or.inl hpublic⟩)⟩
    · obtain ⟨p, hsay, hp⟩ := hagent uri hmem
      exact ⟨p, uri, hsay, Or.inl hp⟩
    · obtain ⟨p, hsay, hp⟩ := hclass cls hmem
      exact ⟨p, cls, hsay, Or.inr (Or.inr ⟨hp, Or.inr hauthn⟩)⟩
    · obtain ⟨p, hsay, hp⟩ := hgroup g hmem
      exact ⟨p, g, hsay, Or.inr (Or.inl hp)⟩
  · rcases h.covers with ⟨target, hmem, -⟩ | ⟨target, hmem, -⟩
    · obtain ⟨p, hsay, hp⟩ := haccess target hmem
      exact ⟨p, target, hsay, Or.inl hp⟩
    · obtain ⟨p, hsay, hp⟩ := hdefault target hmem
      exact ⟨p, target, hsay, Or.inr hp⟩

theorem state_typed {p o : Str} (hp : isTypePredicate p = true)
    (ho : isAclTerm "Authorization" o = true) (st : AclAuthorization × Bool) :
    AclAuthorization.state st ⟨p, [.term o]⟩ = (st.1, true) := by
  have hany : ([o].any fun o => isAclTerm "Authorization" o) = true := by
    rw [List.any_cons, ho, Bool.true_or]
  change (if isTypePredicate p = true then
    (st.1, st.2 || [o].any fun o => isAclTerm "Authorization" o) else _) = _
  rw [if_pos hp, hany, Bool.or_true]

/-- The pair of the agent names the agent, and leaves the modes as they are. -/
theorem exists_state_agent {p o : Str}
    (h : isAclTerm "agent" p = true ∨ isAclTerm "agentGroup" p = true ∨
      isAclTerm "agentClass" p = true ∧ (isPublicClass o = true ∨ isAuthenticatedClass o = true))
    (auth : AclAuthorization) :
    ∃ auth', AclAuthorization.state (auth, true) ⟨p, [.term o]⟩ = (auth', true) ∧
      auth'.mode = auth.mode ∧ auth'.conditions = auth.conditions ∧
      Names auth' (some o) fun _ _ => true := by
  rcases h with hp | hp | ⟨hp, hcls⟩
  · refine ⟨{ auth with agent := some (idsOf [o]) }, state_field (.head _) hp (auth, true),
      rfl, rfl, ?_⟩
    exact Or.inr ⟨o, rfl, Or.inl (by simp)⟩
  · refine ⟨{ auth with agentGroup := some (idsOf [o]) },
      state_field (.tail _ (.tail _ (.head _))) hp (auth, true), rfl, rfl, ?_⟩
    exact Or.inr ⟨o, rfl, Or.inr (Or.inr ⟨o, by simp, rfl⟩)⟩
  · refine ⟨{ auth with agentClass := some (idsOf [o]) },
      state_field (.tail _ (.head _)) hp (auth, true), rfl, rfl, ?_⟩
    rcases hcls with hpublic | hauthn
    · exact Or.inl ⟨o, by simp, hpublic⟩
    · exact Or.inr ⟨o, rfl, Or.inr (Or.inl ⟨o, by simp, hauthn⟩)⟩

/-- The pair of the target covers it, and leaves the modes and the agents as they
are. -/
theorem exists_state_target {p o : Str}
    (h : isAclTerm "accessTo" p = true ∨ isAclTerm "default" p = true)
    (auth : AclAuthorization) :
    ∃ auth', AclAuthorization.state (auth, true) ⟨p, [.term o]⟩ = (auth', true) ∧
      auth'.mode = auth.mode ∧ auth'.conditions = auth.conditions ∧
      (∀ webId groups, Names auth webId groups → Names auth' webId groups) ∧
      Covers auth' o := by
  rcases h with hp | hp
  · refine ⟨{ auth with accessTo := some (idsOf [o]) },
      state_field (.tail _ (.tail _ (.tail _ (.tail _ (.head _))))) hp (auth, true),
      rfl, rfl, fun _ _ h => h, ?_⟩
    exact Or.inl ⟨o, by simp, Or.inl rfl⟩
  · refine ⟨{ auth with default := some (idsOf [o]) },
      state_field (.tail _ (.tail _ (.tail _ (.tail _ (.tail _ (.head _)))))) hp (auth, true),
      rfl, rfl, fun _ _ h => h, ?_⟩
    exact Or.inr ⟨o, by simp, List.prefix_rfl⟩

/-- Triples that suffice make an authorisation, when they are written together and
alone. -/
theorem Suffices.exists_authorises {say : Str → Str → Prop} (h : Suffices say) :
    ∃ triples : List (Str × TurtleObject), triples ≠ [] ∧
      (∀ t ∈ triples, ∃ iri, t.2 = .term iri ∧ say t.1 iri) ∧
      ∀ s, ∃ auth, authorization ⟨s, triples.map fun t => ⟨t.1, [t.2]⟩⟩ = some auth ∧
        ∃ ctx path mode groups, Authorises auth ctx path mode groups emptyDispatcher := by
  obtain ⟨pType, oType, hType, hTypePred, hAuthorization⟩ := h.typed
  obtain ⟨pMode, oMode, hMode, hModePred, hne⟩ := h.mode
  obtain ⟨pAgent, oAgent, hAgent, hAgentPred⟩ := h.agent
  obtain ⟨pTarget, oTarget, hTarget, hTargetPred⟩ := h.target
  obtain ⟨mode, hmode⟩ := List.exists_mem_of_ne_nil _ hne
  have hmodeEq : AclAuthorization.state (.empty, true) ⟨pMode, [.term oMode]⟩ =
      ({ AclAuthorization.empty with mode := some (idsOf [oMode]) }, true) :=
    state_field (.tail _ (.tail _ (.tail _ (.tail _ (.tail _ (.tail _ (.head _))))))) hModePred
      (.empty, true)
  obtain ⟨auth, hagentEq, hagentMode, hagentCond, hnames⟩ := exists_state_agent hAgentPred
    { AclAuthorization.empty with mode := some (idsOf [oMode]) }
  obtain ⟨auth', htargetEq, htargetMode, htargetCond, hkeeps, hcovers⟩ :=
    exists_state_target (o := oTarget) hTargetPred auth
  refine ⟨[(pType, .term oType), (pMode, .term oMode), (pAgent, .term oAgent),
    (pTarget, .term oTarget)], List.cons_ne_nil _ _, ?_, fun s => ⟨auth', ?_, ?_⟩⟩
  · simp only [List.forall_mem_cons]
    exact ⟨⟨oType, rfl, hType⟩, ⟨oMode, rfl, hMode⟩, ⟨oAgent, rfl, hAgent⟩,
      ⟨oTarget, rfl, hTarget⟩, nofun⟩
  · rw [authorization]
    simp only [List.map_cons, List.map_nil, List.foldl_cons, List.foldl_nil,
      state_typed hTypePred hAuthorization, hmodeEq, hagentEq, htargetEq, if_true]
  · refine ⟨⟨some oAgent, none, none⟩, oTarget, mode, fun _ _ => true, ?_, hkeeps _ _ hnames,
      hcovers, ?_⟩
    · rw [Lists, htargetMode, hagentMode]
      exact ⟨oMode, by simp, (mem_mapMode_iff oMode mode).mp hmode⟩
    · rw [htargetCond, hagentCond]
      exact nofun

/-! ## Rewriting -/

/-- A condition body can be written another way. -/
inductive BodyRewrite : TurtleObject → TurtleObject → Prop
  | body {pairs pairs' : List (Pair Str Str)} (h : PairsRewrite pairs pairs') :
      BodyRewrite (.body pairs) (.body pairs')

section Decisions

variable {S S' : List TurtleStatement} {ctx : RequestContext} {path : Str} {mode : AccessMode}
  {groups : GroupMembership} {dispatcher : ConditionDispatcher}

theorem couldGrant_of_rewrites (h : Rewrites BodyRewrite S S') (hgrant : CouldGrant S') :
    CouldGrant S := by
  obtain ⟨s, hs⟩ := hgrant
  exact ⟨s, hs.mono fun p o hsay => says_of_rewrites (fun o' h => nomatch h) h hsay⟩

theorem permits_document : Permits (document S) ctx path mode groups dispatcher ↔
    ∃ st ∈ S, ∃ auth, authorization st = some auth ∧
      Authorises auth ctx path mode groups dispatcher := by
  have hmem : (∃ auth ∈ S.filterMap authorization,
      Authorises auth ctx path mode groups dispatcher) ↔
        ∃ st ∈ S, ∃ auth, authorization st = some auth ∧
          Authorises auth ctx path mode groups dispatcher := by
    simp only [List.mem_filterMap]
    constructor
    · rintro ⟨auth, ⟨st, hst, hauth⟩, h⟩
      exact ⟨st, hst, auth, hauth, h⟩
    · rintro ⟨st, hst, auth, hauth, h⟩
      exact ⟨auth, ⟨st, hst, hauth⟩, h⟩
  rw [← hmem, Permits, document]
  cases S.filterMap authorization with
  | nil => simp
  | cons auth graph => simp

theorem evaluateAccessCtx_eq_false {doc : AclDocument}
    (h : ¬ Permits doc ctx path mode groups dispatcher) (feature : OriginFeature)
    (requestOrigin : Option Origin) :
    evaluateAccessCtx feature (some doc) ctx path mode requestOrigin groups dispatcher = false := by
  have hany : ((doc.graph.getD []).any fun auth =>
      authGrants auth ctx path mode groups dispatcher) = false := by
    rw [List.any_eq_false]
    intro auth hauth hgrants
    cases hgraph : doc.graph with
    | none =>
        rw [hgraph] at hauth
        exact List.not_mem_nil hauth
    | some graph =>
        rw [hgraph] at hauth
        exact h ⟨graph, hgraph, auth, hauth, authGrants_iff.mp hgrants⟩
  rw [evaluateAccessCtx_eq, hany, Bool.false_and]

theorem not_permits_document (h : ¬ CouldGrant S) :
    ¬ Permits (document S) ctx path mode groups dispatcher := by
  intro hpermits
  obtain ⟨st, hst, auth, hauth, hauthorises⟩ := permits_document.mp hpermits
  refine h ⟨st.subject, (suffices_of_authorises hauth hauthorises).mono ?_⟩
  exact fun p o hsay => ⟨st, hst, rfl, hsay⟩

/-- One pair alone grants nothing. -/
theorem not_permits_document_apart :
    ¬ Permits (document (S.flatMap apart)) ctx path mode groups dispatcher := by
  intro hpermits
  obtain ⟨st, hst, auth, hauth, hauthorises⟩ := permits_document.mp hpermits
  have hsuffices := suffices_of_authorises hauth hauthorises
  obtain ⟨p, o, ⟨pair, hpair, rfl, ho⟩, htype, -⟩ := hsuffices.typed
  obtain ⟨p', o', ⟨pair', hpair', rfl, ho'⟩, hmode, -⟩ := hsuffices.mode
  have hsame : pair' = pair := by
    obtain ⟨st', hst', hmem⟩ := List.mem_flatMap.mp hst
    rw [apart] at hmem
    split at hmem
    · rename_i hempty
      cases List.mem_singleton.mp hmem
      rw [List.isEmpty_iff.mp hempty] at hpair
      exact absurd hpair List.not_mem_nil
    · obtain ⟨q, -, rfl⟩ := List.mem_map.mp hmem
      rw [List.mem_singleton.mp hpair, List.mem_singleton.mp hpair']
  rw [hsame] at hmode
  rw [(map_isAclTerm (by simp [authorizationNames]) hmode).1] at htype
  cases htype

end Decisions

theorem sameDecisions_of_not_couldGrant {S S' : List TurtleStatement} (h : ¬ CouldGrant S)
    (hrewrites : Rewrites BodyRewrite S S') : SameDecisions (document S) (document S') := by
  intro feature ctx path mode requestOrigin groups dispatcher _
  have h' : ¬ CouldGrant S' := fun hgrant => h (couldGrant_of_rewrites hrewrites hgrant)
  rw [evaluateAccessCtx_eq_false (not_permits_document h),
    evaluateAccessCtx_eq_false (not_permits_document h')]

/-- What could grant does grant when its triples are written together, and does not
when each pair is written alone. -/
theorem exists_not_sameDecisions {S : List TurtleStatement} (h : CouldGrant S) :
    ∃ (s : Str) (triples : List (Str × TurtleObject)), triples ≠ [] ∧
      (∀ t ∈ triples, Says S s t.1 t.2) ∧
      Rewrites BodyRewrite S (⟨s, triples.map fun t => ⟨t.1, [t.2]⟩⟩ :: S) ∧
      ¬ SameDecisions (document (⟨s, triples.map fun t => ⟨t.1, [t.2]⟩⟩ :: S))
        (document (S.flatMap apart)) := by
  obtain ⟨s, hs⟩ := h
  obtain ⟨triples, hne, hsaid, hauthorises⟩ := hs.exists_authorises
  have hmem : ∀ t ∈ triples, Says S s t.1 t.2 := by
    intro t ht
    obtain ⟨iri, hiri, hsay⟩ := hsaid t ht
    rw [hiri]
    exact hsay
  obtain ⟨auth, hauth, ctx, path, mode, groups, hgrants⟩ := hauthorises s
  refine ⟨s, triples, hne, hmem, rewrites_gather hmem hne, fun hsame => ?_⟩
  have heq := hsame ⟨false, fun _ => none⟩ ctx path mode none groups emptyDispatcher (Or.inl rfl)
  rw [evaluateAccessCtx_eq_false not_permits_document_apart] at heq
  refine Bool.false_ne_true (heq.trans ((evaluateAccessCtx_iff rfl _ none).mpr ?_))
  exact permits_document.mpr ⟨_, .head _, auth, hauth, hgrants⟩

end Wac

end SolidPod
