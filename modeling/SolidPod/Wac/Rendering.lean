import SolidPod.Wac.ConditionObjects
import SolidPod.Wac.Serializer

/-!
# What the serialiser writes, as the parser cuts it

The serialiser writes the rules of a document one after the other, each ended by
a dot, the pairs of a rule each after a semicolon, and the ids of a pair with
commas between them. An id is readable when none of the parser's cutters cuts
it; a document of readable ids is cut into the rules, the pairs and the ids that
it was written from.
-/

namespace SolidPod

namespace Wac

open Foundation Str

/-! ## The ids that come back as they were -/

/-- A character of an id that is written as it is. -/
def isBareChar (c : Char) : Bool :=
  !(endsToken c || c = '.' || c = '#' || c = '<' || c = '>' || c = '"')

/-- A character of an id that is written between `<` and `>`. -/
def isIriChar (c : Char) : Bool := !(isWhitespace c || c = '<' || c = '>' || c = '"')

def IdReadable (r : Str) : Prop :=
  if startsWith "http" r then ∀ c ∈ r, isIriChar c = true else ∀ c ∈ r, isBareChar c = true

instance (r : Str) : Decidable (IdReadable r) := by
  unfold IdReadable
  infer_instance

/-- The object list that the serialiser writes. -/
def objectText (ids : Option IdOrIds) : Str := join ", " ((getIds ids).map renderId)

structure ListReadable (ids : Option IdOrIds) : Prop where
  each : ∀ r ∈ getIds ids, IdReadable r
  last : ∀ r ∈ (getIds ids).getLast?, r ≠ []
  whole : predicateSplitter.Neutral (0, false) (objectText ids)

instance (ids : Option IdOrIds) : Decidable (ListReadable ids) :=
  decidable_of_iff ((∀ r ∈ getIds ids, IdReadable r) ∧ (∀ r ∈ (getIds ids).getLast?, r ≠ []) ∧
      predicateSplitter.Neutral (0, false) (objectText ids))
    ⟨fun ⟨he, hl, hw⟩ => ⟨he, hl, hw⟩, fun ⟨he, hl, hw⟩ => ⟨he, hl, hw⟩⟩

/-! ## Text without a separator -/

def commentSplitter : Splitter Bool where
  step := fun inIri c =>
    if c = '\n' then false else if c = '<' then true else if c = '>' then false else inIri
  cuts := fun inIri c => c = '#' && !inIri

def directiveSplitter : Splitter Bool where
  step := fun atStart c => if c = '\n' then true else atStart && isWhitespace c
  cuts := fun atStart c => c = '@' && atStart

structure Quiet (t : Str) : Prop where
  comment : commentSplitter.Neutral false t
  directive : directiveSplitter.Neutral false t
  statement : statementSplitter.Neutral (0, false) t
  carriage : '\r' ∉ t

instance (t : Str) : Decidable (Quiet t) :=
  decidable_of_iff (commentSplitter.Neutral false t ∧ directiveSplitter.Neutral false t ∧
      statementSplitter.Neutral (0, false) t ∧ '\r' ∉ t)
    ⟨fun ⟨hc, hd, hs, hr⟩ => ⟨hc, hd, hs, hr⟩, fun ⟨hc, hd, hs, hr⟩ => ⟨hc, hd, hs, hr⟩⟩

theorem Quiet.append {s t : Str} (hs : Quiet s) (ht : Quiet t) : Quiet (s ++ t) where
  comment := hs.comment.append ht.comment
  directive := hs.directive.append ht.directive
  statement := hs.statement.append ht.statement
  carriage := by simp [hs.carriage, ht.carriage]

theorem Quiet.flatMap {ι : Type*} {l : List ι} {f : ι → Str} (h : ∀ i ∈ l, Quiet (f i)) :
    Quiet (l.flatMap f) where
  comment := Splitter.Neutral.flatMap fun i hi => (h i hi).comment
  directive := Splitter.Neutral.flatMap fun i hi => (h i hi).directive
  statement := Splitter.Neutral.flatMap fun i hi => (h i hi).statement
  carriage := by
    rw [List.mem_flatMap]
    exact fun ⟨i, hi, hmem⟩ => (h i hi).carriage hmem

theorem isIriChar_spec {c : Char} (h : isIriChar c = true) :
    isWhitespace c = false ∧ c ≠ '<' ∧ c ≠ '>' ∧ c ≠ '"' := by
  simpa [isIriChar, and_assoc] using h

theorem isBareChar_spec {c : Char} (h : isBareChar c = true) :
    isWhitespace c = false ∧ endsToken c = false ∧ c ≠ '.' ∧ c ≠ '#' ∧ c ≠ '<' ∧ c ≠ '>' ∧
      c ≠ '"' := by
  have hall : endsToken c = false ∧ c ≠ '.' ∧ c ≠ '#' ∧ c ≠ '<' ∧ c ≠ '>' ∧ c ≠ '"' := by
    simpa [isBareChar, and_assoc] using h
  refine ⟨?_, hall⟩
  have hend := hall.1
  simp only [endsToken, Bool.or_eq_false_iff] at hend
  exact hend.1.1.1.1

theorem ne_newline_of_isWhitespace {c : Char} (h : isWhitespace c = false) :
    c ≠ '\n' ∧ c ≠ '\r' := by
  constructor
  · rintro rfl
    exact absurd h (by decide)
  · rintro rfl
    exact absurd h (by decide)

/-- An IRI after an opening `<`. -/
theorem Quiet.insert {a r b : Str} (h : Quiet (a ++ b)) (hr : ∀ c ∈ r, isIriChar c = true)
    (hcomment : commentSplitter.run false a = true)
    (hdirective : directiveSplitter.run false a = false)
    (hstatement : statementSplitter.run (0, false) a = (1, false)) : Quiet (a ++ r ++ b) := by
  have hspec := fun c hc => isIriChar_spec (hr c hc)
  constructor
  · refine h.comment.insert (Splitter.neutral_of_forall ?_)
    intro c hc
    obtain ⟨hspace, hopen, hclose, -⟩ := hspec c hc
    have hnewline := (ne_newline_of_isWhitespace hspace).1
    rw [hcomment]
    simp [commentSplitter, hopen, hclose, hnewline]
  · refine h.directive.insert (Splitter.neutral_of_forall ?_)
    intro c hc
    have hnewline := (ne_newline_of_isWhitespace (hspec c hc).1).1
    rw [hdirective]
    simp [directiveSplitter, hnewline]
  · refine h.statement.insert (Splitter.neutral_of_forall ?_)
    intro c hc
    obtain ⟨-, hopen, hclose, hquote⟩ := hspec c hc
    rw [hstatement]
    simp [statementSplitter, hopen, hclose, hquote]
  · have hnot : '\r' ∉ r := fun hmem => (ne_newline_of_isWhitespace (hspec _ hmem).1).2 rfl
    have hcarriage := h.carriage
    simp only [List.mem_append, not_or] at hcarriage ⊢
    exact ⟨⟨hcarriage.1, hnot⟩, hcarriage.2⟩

theorem quiet_bare {r : Str} (h : ∀ c ∈ r, isBareChar c = true) : Quiet r := by
  have hspec := fun c hc => isBareChar_spec (h c hc)
  constructor
  · refine Splitter.neutral_of_forall ?_
    intro c hc
    obtain ⟨hspace, -, -, hhash, hopen, hclose, -⟩ := hspec c hc
    have hnewline := (ne_newline_of_isWhitespace hspace).1
    simp [commentSplitter, hhash, hopen, hclose, hnewline]
  · refine Splitter.neutral_of_forall ?_
    intro c hc
    have hnewline := (ne_newline_of_isWhitespace (hspec c hc).1).1
    simp [directiveSplitter, hnewline]
  · refine Splitter.neutral_of_forall ?_
    intro c hc
    obtain ⟨-, -, hdot, -, hopen, hclose, hquote⟩ := hspec c hc
    simp [statementSplitter, hdot, hopen, hclose, hquote]
  · exact fun hmem => (ne_newline_of_isWhitespace (hspec _ hmem).1).2 rfl

theorem quiet_renderId {r : Str} (h : IdReadable r) : Quiet (renderId r) := by
  rw [IdReadable] at h
  rw [renderId]
  by_cases hhttp : startsWith "http" r = true
  · rw [if_pos hhttp] at h ⊢
    exact Quiet.insert (a := ['<']) (b := ['>']) (by decide) h rfl rfl rfl
  · rw [if_neg hhttp] at h ⊢
    exact quiet_bare h

theorem quiet_objectText {ids : Option IdOrIds} (h : ListReadable ids) :
    Quiet (objectText ids) := by
  rw [objectText]
  cases hids : getIds ids with
  | nil => decide
  | cons r l =>
      have heach := h.each
      rw [hids, List.forall_mem_cons] at heach
      rw [List.map_cons, join_cons]
      refine (quiet_renderId heach.1).append (Quiet.flatMap ?_)
      intro t ht
      obtain ⟨r', hr', rfl⟩ := List.mem_map.mp ht
      exact Quiet.append (by decide) (quiet_renderId (heach.2 r' hr'))

/-! ## The pairs of a rule -/

/-- The text of a pair after the separator before it. -/
def pairText (indent : Str) (field : Str × Option IdOrIds) : Option Str :=
  if (getIds field.2).isEmpty then none
  else some ("\n" ++ indent ++ "acl:" ++ field.1 ++ " " ++ objectText field.2)

def fields (auth : AclAuthorization) : List (Str × Option IdOrIds) :=
  [("agent", auth.agent), ("agentClass", auth.agentClass), ("agentGroup", auth.agentGroup),
    ("origin", auth.origin), ("accessTo", auth.accessTo), ("default", auth.default),
    ("mode", auth.mode)]

def bodyFields : Condition → List (Str × Option IdOrIds)
  | .client body =>
    [("client", body.client), ("clientGroup", body.clientGroup), ("clientClass", body.clientClass)]
  | .issuer body =>
    [("issuer", body.issuer), ("issuerGroup", body.issuerGroup), ("issuerClass", body.issuerClass)]
  | .unknown _ => []

/-- Pairs, each after its separator. -/
def separated (pairs : List Str) : Str := pairs.flatMap fun p => " " ++ ';' :: p

def conditionBody (cond : Condition) : Str :=
  "\n        a " ++ cond.typeIri ++
    separated ((bodyFields cond).filterMap (pairText "        ")) ++ "\n    "

def conditionText (cond : Condition) : Str := "\n    acl:condition [" ++ conditionBody cond ++ "]"

def rulePairs (auth : AclAuthorization) : List Str :=
  (fields auth).filterMap (pairText "    ") ++ auth.conditions.map conditionText

def ruleSubject (i : Nat) : Str := "<#rule-" ++ decimal i ++ ">"

theorem separated_append (p q : List Str) : separated (p ++ q) = separated p ++ separated q :=
  List.flatMap_append

theorem emitPair_eq (indent name : Str) (ids : Option IdOrIds) :
    emitPair indent ("acl:" ++ name) ids = separated ((pairText indent (name, ids)).toList) := by
  rw [emitPair, pairText]
  by_cases hids : (getIds ids).isEmpty = true
  · simp only [hids, if_true]
    rfl
  · simp only [hids]
    simp [separated, objectText]

/-- The pairs of a list of fields are written one by one. -/
theorem flatMap_emitPair (indent : Str) (l : List (Str × Option IdOrIds)) :
    (l.flatMap fun field => emitPair indent ("acl:" ++ field.1) field.2) =
      separated (l.filterMap (pairText indent)) := by
  induction l with
  | nil => rfl
  | cons field l ih =>
      rw [List.flatMap_cons, emitPair_eq, ih, ← separated_append, List.filterMap_cons]
      cases pairText indent field with
      | none => rfl
      | some p => rfl

theorem emitCondition_eq (cond : Condition) :
    emitCondition cond = separated [conditionText cond] := by
  have hopen : (" ;\n    acl:condition [\n        a " : Str) =
      " " ++ ';' :: ("\n    acl:condition [" ++ "\n        a ") := by decide
  have hclose : ("\n    ]" : Str) = "\n    " ++ "]" := by decide
  have hclient : ("acl:client" : Str) = "acl:" ++ "client" ∧
      ("acl:clientGroup" : Str) = "acl:" ++ "clientGroup" ∧
      ("acl:clientClass" : Str) = "acl:" ++ "clientClass" := by decide
  have hissuer : ("acl:issuer" : Str) = "acl:" ++ "issuer" ∧
      ("acl:issuerGroup" : Str) = "acl:" ++ "issuerGroup" ∧
      ("acl:issuerClass" : Str) = "acl:" ++ "issuerClass" := by decide
  delta emitCondition conditionText conditionBody
  simp only [← flatMap_emitPair, hopen, hclose]
  simp only [separated, List.flatMap_singleton]
  cases cond with
  | client body =>
      simp only [bodyFields, emitBodyPair, hclient, List.flatMap_cons, List.flatMap_nil,
        List.append_assoc, List.append_nil, List.cons_append]
  | issuer body =>
      simp only [bodyFields, emitBodyPair, hissuer, List.flatMap_cons, List.flatMap_nil,
        List.append_assoc, List.append_nil, List.cons_append]
  | unknown iri =>
      simp only [bodyFields, List.flatMap_nil, List.append_assoc, List.append_nil,
        List.cons_append]

theorem emitConditions_eq (auth : AclAuthorization) :
    emitConditions auth.condition = separated (auth.conditions.map conditionText) := by
  rw [emitConditions, separated, List.flatMap_map]
  refine List.flatMap_congr ?_
  intro cond _
  rw [emitCondition_eq]
  exact List.flatMap_singleton _ _

theorem emitRule_eq (i : Nat) (auth : AclAuthorization) :
    emitRule i auth =
      ruleSubject i ++ (" a acl:Authorization" ++ separated (rulePairs auth)) ++ " " ++
        '.' :: "\n\n" := by
  have hend : (" .\n\n" : Str) = " " ++ '.' :: "\n\n" := by decide
  have hnames : ("acl:agent" : Str) = "acl:" ++ "agent" ∧
      ("acl:agentClass" : Str) = "acl:" ++ "agentClass" ∧
      ("acl:agentGroup" : Str) = "acl:" ++ "agentGroup" ∧
      ("acl:origin" : Str) = "acl:" ++ "origin" ∧
      ("acl:accessTo" : Str) = "acl:" ++ "accessTo" ∧
      ("acl:default" : Str) = "acl:" ++ "default" ∧ ("acl:mode" : Str) = "acl:" ++ "mode" := by
    decide
  delta emitRule ruleSubject
  simp only [rulePairs, separated_append, ← flatMap_emitPair, ← emitConditions_eq]
  simp [fields, emitPairs, hend, hnames]

/-! ## Brackets -/

/-- The brackets left open when `depth` are open before the text; none when a
bracket is closed that was not opened, or a string is opened. -/
def nesting (depth : Nat) : Str → Option Nat
  | [] => some depth
  | c :: cs =>
    if c = '"' then none
    else if c = '[' then nesting (depth + 1) cs
    else if c = ']' then if depth = 0 then none else nesting (depth - 1) cs
    else nesting depth cs

theorem nesting_append (depth : Nat) (a b : Str) :
    nesting depth (a ++ b) = (nesting depth a).bind fun d => nesting d b := by
  induction a generalizing depth with
  | nil => rfl
  | cons c a ih =>
      rw [List.cons_append, nesting, nesting]
      by_cases hquote : c = '"'
      · rw [if_pos hquote, if_pos hquote]
        rfl
      · rw [if_neg hquote, if_neg hquote]
        by_cases hopen : c = '['
        · rw [if_pos hopen, if_pos hopen, ih]
        · rw [if_neg hopen, if_neg hopen]
          by_cases hclose : c = ']'
          · rw [if_pos hclose, if_pos hclose]
            by_cases hdepth : depth = 0
            · rw [if_pos hdepth, if_pos hdepth]
              rfl
            · rw [if_neg hdepth, if_neg hdepth, ih]
          · rw [if_neg hclose, if_neg hclose, ih]

/-- A text whose brackets are balanced. -/
def Balanced (t : Str) : Prop := nesting 0 t = some 0

instance (t : Str) : Decidable (Balanced t) := inferInstanceAs (Decidable (_ = _))

theorem Balanced.append {a b : Str} (ha : Balanced a) (hb : Balanced b) : Balanced (a ++ b) := by
  rw [Balanced, nesting_append, ha]
  exact hb

theorem Balanced.flatMap {ι : Type*} {l : List ι} {f : ι → Str} (h : ∀ i ∈ l, Balanced (f i)) :
    Balanced (l.flatMap f) := by
  induction l with
  | nil => rfl
  | cons i l ih =>
      rw [List.flatMap_cons]
      exact (h i (by simp)).append (ih fun j hj => h j (by simp [hj]))

/-- Inside a bracket the predicate cutter passes through. -/
theorem neutral_of_nesting {t : Str} {depth depth' : Nat} (h : nesting depth t = some depth') :
    predicateSplitter.Passes (depth + 1, false) t ∧
      predicateSplitter.run (depth + 1, false) t = (depth' + 1, false) := by
  induction t generalizing depth with
  | nil =>
      cases h
      exact ⟨trivial, rfl⟩
  | cons c t ih =>
      rw [nesting] at h
      rw [Splitter.passes_cons, Splitter.run_cons]
      have hcut : predicateSplitter.cuts (depth + 1, false) c = false := by
        simp [predicateSplitter]
      split at h
      · cases h
      · rename_i hquote
        split at h
        · rename_i hopen
          have hstep : predicateSplitter.step (depth + 1, false) c = (depth + 1 + 1, false) := by
            simp [predicateSplitter, hopen]
          rw [hstep]
          exact ⟨⟨hcut, (ih h).1⟩, (ih h).2⟩
        · rename_i hopen
          split at h
          · rename_i hclose
            split at h
            · cases h
            · rename_i hdepth
              have hstep : predicateSplitter.step (depth + 1, false) c =
                  (depth - 1 + 1, false) := by
                simp [predicateSplitter, hclose]
                omega
              rw [hstep]
              exact ⟨⟨hcut, (ih h).1⟩, (ih h).2⟩
          · rename_i hclose
            have hstep : predicateSplitter.step (depth + 1, false) c = (depth + 1, false) := by
              simp [predicateSplitter, hquote, hopen, hclose]
            rw [hstep]
            exact ⟨⟨hcut, (ih h).1⟩, (ih h).2⟩

/-- The bracket matcher stays inside a balanced text. -/
theorem closeBracket_of_nesting {t : Str} {depth depth' : Nat} (h : nesting depth t = some depth')
    (u : Str) :
    closeBracket (depth + 1) false (t ++ u) =
      (closeBracket (depth' + 1) false u).map fun r => (t ++ r.1, r.2) := by
  induction t generalizing depth with
  | nil =>
      cases h
      simp
  | cons c t ih =>
      rw [nesting] at h
      rw [List.cons_append, closeBracket]
      split at h
      · cases h
      · rename_i hquote
        rw [if_neg hquote]
        split at h
        · rename_i hopen
          rw [if_pos (by simpa using hopen), ih h, Option.map_map]
          rfl
        · rename_i hopen
          rw [if_neg (by simpa using hopen)]
          split at h
          · rename_i hclose
            split at h
            · cases h
            · rename_i hdepth
              obtain ⟨d, rfl⟩ := Nat.exists_eq_succ_of_ne_zero hdepth
              rw [if_pos (by simpa using hclose), if_neg (by simp)]
              have hinner : nesting d t = some depth' := h
              change (closeBracket (d + 1) false (t ++ u)).map _ = _
              rw [ih hinner, Option.map_map]
              rfl
          · rename_i hclose
            rw [if_neg (by simpa using hclose), ih h, Option.map_map]
            rfl

/-! ## Readable documents -/

/-- The prefixes in scope after the serialiser's header. -/
def headerPrefixes : Prefixes :=
  ("foaf", "http://xmlns.com/foaf/0.1/") :: ("acl", "http://www.w3.org/ns/auth/acl#") ::
    defaultPrefixes

/-- Ids that the parser does not take for CURIEs. -/
def Unabbreviated (ids : Option IdOrIds) : Prop :=
  ∀ r ∈ getIds ids, expandCurieOrIri headerPrefixes r = r

/-- The fields of a condition whose ids are compared with those of a request; the
classes are known in both spellings. -/
def bodyNames : Condition → List (Option IdOrIds)
  | .client body => [body.client, body.clientGroup]
  | .issuer body => [body.issuer, body.issuerGroup]
  | .unknown _ => []

structure ConditionReadable (cond : Condition) : Prop where
  typed : cond.typeIri ≠ []
  bare : ∀ c ∈ cond.typeIri, isBareChar c = true ∧ c ≠ '['
  lists : ∀ field ∈ bodyFields cond, ListReadable field.2 ∧ Balanced (objectText field.2)
  names : ∀ ids ∈ bodyNames cond, Unabbreviated ids

instance (ids : Option IdOrIds) : Decidable (Unabbreviated ids) :=
  inferInstanceAs (Decidable (∀ r ∈ getIds ids, _ = r))

instance (cond : Condition) : Decidable (ConditionReadable cond) :=
  decidable_of_iff (cond.typeIri ≠ [] ∧ (∀ c ∈ cond.typeIri, isBareChar c = true ∧ c ≠ '[') ∧
      (∀ field ∈ bodyFields cond, ListReadable field.2 ∧ Balanced (objectText field.2)) ∧
      ∀ ids ∈ bodyNames cond, Unabbreviated ids)
    ⟨fun ⟨ht, hb, hl, hn⟩ => ⟨ht, hb, hl, hn⟩, fun ⟨ht, hb, hl, hn⟩ => ⟨ht, hb, hl, hn⟩⟩

structure AuthorizationReadable (auth : AclAuthorization) : Prop where
  lists : ∀ field ∈ fields auth, ListReadable field.2
  names : ∀ ids ∈ [auth.agent, auth.agentGroup, auth.origin, auth.accessTo, auth.default],
    Unabbreviated ids
  conditions : ∀ cond ∈ auth.conditions, ConditionReadable cond

instance (auth : AclAuthorization) : Decidable (AuthorizationReadable auth) :=
  decidable_of_iff ((∀ field ∈ fields auth, ListReadable field.2) ∧
      (∀ ids ∈ [auth.agent, auth.agentGroup, auth.origin, auth.accessTo, auth.default],
        Unabbreviated ids) ∧ ∀ cond ∈ auth.conditions, ConditionReadable cond)
    ⟨fun ⟨hl, hn, hc⟩ => ⟨hl, hn, hc⟩, fun ⟨hl, hn, hc⟩ => ⟨hl, hn, hc⟩⟩

def DocReadable (doc : AclDocument) : Prop :=
  ∀ auth ∈ doc.graph.getD [], AuthorizationReadable auth

instance (doc : AclDocument) : Decidable (DocReadable doc) :=
  inferInstanceAs (Decidable (∀ auth ∈ doc.graph.getD [], AuthorizationReadable auth))

/-! ## No cut inside a pair -/

def fieldNames : List Str :=
  ["agent", "agentClass", "agentGroup", "origin", "accessTo", "default", "mode", "client",
    "clientGroup", "clientClass", "issuer", "issuerGroup", "issuerClass"]

/-- Text that only the bracket cutters may act on, and that the predicate cutter
passes through. -/
structure Whole (t : Str) : Prop where
  quiet : Quiet t
  predicate : predicateSplitter.Neutral (0, false) t

instance (t : Str) : Decidable (Whole t) :=
  decidable_of_iff (Quiet t ∧ predicateSplitter.Neutral (0, false) t)
    ⟨fun ⟨hq, hp⟩ => ⟨hq, hp⟩, fun ⟨hq, hp⟩ => ⟨hq, hp⟩⟩

theorem Whole.append {a b : Str} (ha : Whole a) (hb : Whole b) : Whole (a ++ b) where
  quiet := ha.quiet.append hb.quiet
  predicate := ha.predicate.append hb.predicate

theorem whole_objectText {ids : Option IdOrIds} (h : ListReadable ids) : Whole (objectText ids) :=
  ⟨quiet_objectText h, h.whole⟩

theorem whole_fieldNames : ∀ name ∈ fieldNames, Whole (name ++ " ") ∧ Balanced (name ++ " ") := by
  decide

theorem fst_mem_fieldNames {auth : AclAuthorization} {field : Str × Option IdOrIds}
    (h : field ∈ fields auth) : field.1 ∈ fieldNames := by
  simp only [fields, List.mem_cons, List.not_mem_nil, or_false] at h
  rcases h with rfl | rfl | rfl | rfl | rfl | rfl | rfl <;> simp [fieldNames]

theorem fst_mem_fieldNames_of_bodyFields {cond : Condition} {field : Str × Option IdOrIds}
    (h : field ∈ bodyFields cond) : field.1 ∈ fieldNames := by
  cases cond with
  | client body =>
      simp only [bodyFields, List.mem_cons, List.not_mem_nil, or_false] at h
      rcases h with rfl | rfl | rfl <;> simp [fieldNames]
  | issuer body =>
      simp only [bodyFields, List.mem_cons, List.not_mem_nil, or_false] at h
      rcases h with rfl | rfl | rfl <;> simp [fieldNames]
  | unknown iri => cases h

/-- The text of a pair, when there is one. -/
theorem eq_of_pairText {indent p : Str} {field : Str × Option IdOrIds}
    (h : pairText indent field = some p) :
    getIds field.2 ≠ [] ∧
      p = ("\n" ++ indent ++ "acl:") ++ (field.1 ++ " ") ++ objectText field.2 := by
  rw [pairText] at h
  split at h
  · cases h
  · rename_i hids
    cases h
    exact ⟨by simpa using hids, by simp⟩

theorem whole_pairText {indent p : Str} {field : Str × Option IdOrIds}
    (h : pairText indent field = some p) (hindent : Whole ("\n" ++ indent ++ "acl:"))
    (hname : field.1 ∈ fieldNames) (hlist : ListReadable field.2) : Whole p := by
  rw [(eq_of_pairText h).2]
  exact (hindent.append (whole_fieldNames _ hname).1).append (whole_objectText hlist)

theorem balanced_pairText {indent p : Str} {field : Str × Option IdOrIds}
    (h : pairText indent field = some p) (hindent : Balanced ("\n" ++ indent ++ "acl:"))
    (hname : field.1 ∈ fieldNames) (hlist : Balanced (objectText field.2)) : Balanced p := by
  rw [(eq_of_pairText h).2]
  exact (hindent.append (whole_fieldNames _ hname).2).append hlist

theorem quiet_separated {pairs : List Str} (h : ∀ p ∈ pairs, Quiet p) :
    Quiet (separated pairs) := by
  refine Quiet.flatMap ?_
  intro p hp
  exact Quiet.append (s := " ;") (by decide) (h p hp)

theorem balanced_separated {pairs : List Str} (h : ∀ p ∈ pairs, Balanced p) :
    Balanced (separated pairs) := by
  refine Balanced.flatMap ?_
  intro p hp
  exact Balanced.append (a := " ;") (by decide) (h p hp)

/-! ## Conditions and rules -/

section Condition

variable {cond : Condition} (h : ConditionReadable cond)
include h

theorem whole_bodyPairs : ∀ p ∈ (bodyFields cond).filterMap (pairText "        "), Whole p := by
  intro p hp
  obtain ⟨field, hfield, hpair⟩ := List.mem_filterMap.mp hp
  exact whole_pairText hpair (by decide) (fst_mem_fieldNames_of_bodyFields hfield)
    (h.lists field hfield).1

theorem whole_typeIri : Whole ("\n        a " ++ cond.typeIri) := by
  refine Whole.append (by decide) ⟨quiet_bare fun c hc => (h.bare c hc).1, ?_⟩
  refine Splitter.neutral_of_forall ?_
  intro c hc
  obtain ⟨hbare, hopen⟩ := h.bare c hc
  obtain ⟨-, hend, -, -, -, -, hquote⟩ := isBareChar_spec hbare
  simp only [endsToken, Bool.or_eq_false_iff, decide_eq_false_iff_not] at hend
  simp [predicateSplitter, hquote, hopen, hend]

theorem balanced_typeIri : Balanced cond.typeIri := by
  have hbare := h.bare
  generalize cond.typeIri = t at hbare
  induction t with
  | nil => rfl
  | cons c t ih =>
      rw [List.forall_mem_cons] at hbare
      obtain ⟨⟨hc, hopen⟩, ht⟩ := hbare
      obtain ⟨-, hend, -, -, -, -, hquote⟩ := isBareChar_spec hc
      simp only [endsToken, Bool.or_eq_false_iff, decide_eq_false_iff_not] at hend
      rw [Balanced, nesting, if_neg hquote, if_neg hopen, if_neg hend.1.2]
      exact ih ht

theorem quiet_conditionText : Quiet (conditionText cond) := by
  have hbody := (whole_typeIri h).quiet.append
    (quiet_separated fun p hp => (whole_bodyPairs h p hp).quiet)
  have hquiet := (Quiet.append (s := "\n    acl:condition [") (by decide) hbody).append
    (t := "\n    " ++ "]") (by decide)
  delta conditionText conditionBody
  simpa only [List.append_assoc] using hquiet

theorem balanced_conditionBody : Balanced (conditionBody cond) := by
  delta conditionBody
  refine ((Balanced.append (by decide) (balanced_typeIri h)).append
    (balanced_separated ?_)).append (by decide)
  intro p hp
  obtain ⟨field, hfield, hpair⟩ := List.mem_filterMap.mp hp
  exact balanced_pairText hpair (by decide) (fst_mem_fieldNames_of_bodyFields hfield)
    (h.lists field hfield).2

/-- The predicate cutter passes through a condition, brackets and all. -/
theorem whole_conditionText : Whole (conditionText cond) := by
  refine ⟨quiet_conditionText h, ?_⟩
  delta conditionText
  refine Splitter.Neutral.insert (by decide) ?_
  exact neutral_of_nesting (balanced_conditionBody h)

end Condition

theorem whole_rulePairs {auth : AclAuthorization} (h : AuthorizationReadable auth) :
    ∀ p ∈ rulePairs auth, Whole p := by
  intro p hp
  rcases List.mem_append.mp hp with hp | hp
  · obtain ⟨field, hfield, hpair⟩ := List.mem_filterMap.mp hp
    exact whole_pairText hpair (by decide) (fst_mem_fieldNames hfield) (h.lists field hfield)
  · obtain ⟨cond, hcond, rfl⟩ := List.mem_map.mp hp
    exact whole_conditionText (h.conditions cond hcond)

end Wac

end SolidPod
