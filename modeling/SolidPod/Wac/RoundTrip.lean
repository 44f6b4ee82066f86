import SolidPod.Wac.Evaluator
import SolidPod.Wac.Rendering

/-!
# Writing an ACL and reading it back

The pairs of a rule are read back into the fields that they were written from,
with their ids in long form; the rules of a document are read back one by one.
The modes and the classes are known in both spellings, so a readable document
decides every request as it did before. An id that the parser's cutters cut is
lost, together with what comes after it in its rule.
-/

namespace SolidPod

namespace Wac

open Foundation Str

/-! ## Object lists -/

/-- A token that only its own end stops. -/
theorem turtlePopTerm_append (tok t : Str)
    (htok : ∀ c ∈ tok, endsToken c = false ∧ c ≠ '<' ∧ c ≠ '"')
    (ht : ∀ c ∈ t.head?, endsToken c = true) (hstart : trimStart (tok ++ t) = tok ++ t) :
    turtlePopTerm (tok ++ t) = some (tok, t) := by
  have hends : ∀ c, endsToken c = true → c ≠ '<' ∧ c ≠ '"' := by
    intro c hc
    constructor
    · rintro rfl
      exact absurd hc (by decide)
    · rintro rfl
      exact absurd hc (by decide)
  have hcut : (tok ++ t).takeWhile (!endsToken ·) = tok ∧
      (tok ++ t).dropWhile (!endsToken ·) = t := by
    have hall : ∀ c ∈ tok, (!endsToken c) = true := fun c hc => by simp [(htok c hc).1]
    rw [List.takeWhile_append_of_pos hall, List.dropWhile_append_of_pos hall]
    cases t with
    | nil => simp
    | cons d t =>
        have hd := ht d rfl
        simp [hd]
  cases hcons : tok ++ t with
  | nil =>
      rw [List.append_eq_nil_iff] at hcons
      rw [hcons.1, hcons.2]
      rfl
  | cons c rest =>
      have hc : c ≠ '<' ∧ c ≠ '"' := by
        cases tok with
        | nil =>
            rw [List.nil_append] at hcons
            exact hends c (ht c (by rw [hcons]; rfl))
        | cons d tok =>
            cases hcons
            exact (htok c (by simp)).2
      have hspace : isWhitespace c = false := by
        rw [hcons] at hstart
        by_contra hwhite
        rw [trimStart_cons_of ((Bool.not_eq_false _).mp hwhite)] at hstart
        have hlen := length_trimStart_le rest
        rw [hstart, List.length_cons] at hlen
        omega
      rw [turtlePopTerm_token hc.1 hc.2 hspace, ← hcons, hcut.1, hcut.2]

theorem length_lt_of_nextObject {prefixes : Prefixes} {list object more : Str}
    (h : nextObject prefixes list = some (object, some more)) : more.length < list.length := by
  rw [nextObject] at h
  simp only [] at h
  split at h
  · cases h
  · rw [Option.map_eq_some_iff] at h
    obtain ⟨⟨tok, rest⟩, hpop, heq⟩ := h
    obtain ⟨-, hmore⟩ := Prod.mk.inj heq
    have hcomma := congrArg List.length (stripPrefix_eq_some.mp hmore)
    have hrest := (suffix_of_turtlePopTerm hpop).length_le
    have htrim := length_trimStart_le rest
    have hlist := length_trimStart_le list
    simp only [List.length_append, List.length_singleton] at hcomma
    omega

theorem trimStart_renderId {r tail : Str} (h : IdReadable r) (htail : ∀ c ∈ tail.head?, c = ',') :
    trimStart (renderId r ++ tail) = renderId r ++ tail := by
  rw [IdReadable] at h
  rw [renderId]
  by_cases hhttp : startsWith "http" r = true
  · rw [if_pos hhttp]
    exact trimStart_cons_of_not (by decide) _
  · rw [if_neg hhttp] at h ⊢
    cases r with
    | cons c r => exact trimStart_cons_of_not (isBareChar_spec (h c (by simp))).1 _
    | nil =>
        cases tail with
        | nil => rfl
        | cons c tail =>
            rw [htail c rfl]
            exact trimStart_cons_of_not (by decide) _

/-- The first of several ids is read back. -/
theorem nextObject_renderId (prefixes : Prefixes) {r w tail : Str} (h : IdReadable r)
    (hw : ∀ c ∈ w, isWhitespace c = true) (htail : ∀ c ∈ tail.head?, c = ',')
    (hne : r ≠ [] ∨ tail ≠ []) :
    nextObject prefixes (w ++ (renderId r ++ tail)) =
      some (expandCurieOrIri prefixes r, afterComma tail) := by
  have hcomma : ∀ c ∈ tail.head?, endsToken c = true := by
    intro c hc
    rw [htail c hc]
    decide
  have hstart := trimStart_renderId h htail
  rw [IdReadable] at h
  rw [nextObject, trimStart_blank_append hw, hstart]
  rw [renderId] at hstart ⊢
  by_cases hhttp : startsWith "http" r = true
  · rw [if_pos hhttp] at h ⊢
    have hclose : '>' ∉ r := fun hmem => (isIriChar_spec (h _ hmem)).2.2.1 rfl
    have hpop : turtlePopTerm ('<' :: (r ++ '>' :: tail)) = some (r, tail) := by
      rw [turtlePopTerm_iri, splitOnce_append hclose]
    have htext : '<' :: r ++ ['>'] ++ tail = '<' :: (r ++ '>' :: tail) := by simp
    rw [htext]
    simp [hpop]
  · rw [if_neg hhttp] at h hstart ⊢
    have hpop := turtlePopTerm_append r tail (fun c hc => by
      obtain ⟨-, hend, -, -, hopen, -, hquote⟩ := isBareChar_spec (h c hc)
      exact ⟨hend, hopen, hquote⟩) hcomma hstart
    have hnil : (r ++ tail).isEmpty = false := by
      rw [List.isEmpty_eq_false_iff, Ne, List.append_eq_nil_iff, not_and_or]
      exact hne
    simp only [hnil, hpop]
    rfl

theorem afterComma_separator (t : Str) : afterComma (", " ++ t) = some (" " ++ t) := by
  change stripPrefix [','] (trimStart (',' :: (" " ++ t))) = _
  rw [trimStart_cons_of_not (by decide), stripPrefix_singleton_cons, if_pos rfl]

/-- Items with commas between them are read back one by one. The last item has no comma behind it,
which may matter to how it is read. -/
theorem consumeAll_join_cons {ι β : Type*} {next : Str → Option (β × Option Str)} {f : ι → Str}
    {g : ι → β} (hlt : ∀ a b a', next a = some (b, some a') → a'.length < a.length) {i : ι}
    {l : List ι} {w : Str}
    (hone : ∀ j ∈ (i :: l).getLast?, ∀ w, (∀ c ∈ w, isWhitespace c = true) →
      next (w ++ (f j ++ [])) = some (g j, none))
    (hmany : ∀ j ∈ i :: l, ∀ w tail, (∀ c ∈ w, isWhitespace c = true) → tail.head? = some ',' →
      next (w ++ (f j ++ tail)) = some (g j, afterComma tail))
    (hw : ∀ c ∈ w, isWhitespace c = true) :
    consumeAll next List.length (w ++ join ", " ((i :: l).map f)) = (i :: l).map g := by
  induction l generalizing i w with
  | nil =>
      rw [consumeAll_eq hlt, List.map_cons, List.map_nil, join_cons, List.flatMap_nil,
        hone i rfl w hw]
      rfl
  | cons j l ih =>
      have hrest := ih (i := j) (w := " ") (fun k hk => hone k (by simpa using hk))
        (fun k hk => hmany k (List.mem_cons_of_mem i hk)) (by decide)
      have hcomma : afterComma ((j :: l).map f |>.flatMap fun b => ", " ++ b) =
          some (" " ++ join ", " ((j :: l).map f)) := by
        rw [List.map_cons, List.flatMap_cons, join_cons, List.append_assoc, afterComma_separator]
      rw [consumeAll_eq hlt, List.map_cons, join_cons,
        hmany i (List.mem_cons_self ..) w _ hw (by simp), hcomma]
      simp only []
      rw [hrest]
      rfl

theorem consumeAll_nextObject (prefixes : Prefixes) {r w : Str} {l : List Str}
    (h : ∀ q ∈ r :: l, IdReadable q) (hlast : ∀ q ∈ (r :: l).getLast?, q ≠ [])
    (hw : ∀ c ∈ w, isWhitespace c = true) :
    consumeAll (nextObject prefixes) List.length (w ++ join ", " ((r :: l).map renderId)) =
      (r :: l).map (expandCurieOrIri prefixes) := by
  refine consumeAll_join_cons (fun _ _ _ h => length_lt_of_nextObject h) ?_ ?_ hw
  · intro q hq w hw
    exact nextObject_renderId prefixes (h q (List.mem_of_getLast? hq)) hw nofun
      (Or.inl (hlast q hq))
  · intro q hq w tail hw htail
    refine nextObject_renderId prefixes (h q hq) hw ?_ (Or.inr ?_)
    · rw [htail]
      intro c hc
      exact (Option.mem_some_iff.mp hc).symm
    · rintro rfl
      cases htail

/-- An object list ends with a character that is not white. -/
theorem objectText_eq_append {ids : Option IdOrIds} (h : ListReadable ids)
    (hne : getIds ids ≠ []) :
    ∃ p c, objectText ids = p ++ [c] ∧ isWhitespace c = false := by
  obtain ⟨heach, hlast, -⟩ := h
  rw [objectText]
  cases hids : getIds ids with
  | nil => exact absurd hids hne
  | cons r l =>
      rw [hids] at heach hlast
      clear hids hne
      induction l generalizing r with
      | cons q l ih =>
          obtain ⟨p, c, hp, hc⟩ := ih q (fun s hs => hlast s (by simpa using hs))
            (fun s hs => heach s (List.mem_cons_of_mem r hs))
          refine ⟨renderId r ++ (", " ++ p), c, ?_, hc⟩
          rw [List.map_cons, join_cons, List.map_cons, List.flatMap_cons]
          rw [List.map_cons, join_cons] at hp
          simp only [List.append_assoc, hp]
      | nil =>
          have hr := heach r (by simp)
          rw [IdReadable] at hr
          rw [List.map_cons, List.map_nil, join_cons, List.flatMap_nil, List.append_nil, renderId]
          by_cases hhttp : startsWith "http" r = true
          · rw [if_pos hhttp]
            exact ⟨'<' :: r, '>', rfl, by decide⟩
          · rw [if_neg hhttp] at hr ⊢
            rcases List.eq_nil_or_concat' r with rfl | ⟨p, c, rfl⟩
            · exact absurd rfl (hlast [] (by simp))
            · exact ⟨p, c, rfl, (isBareChar_spec (hr c (by simp))).1⟩

/-- An object list is read back as the ids it was written from, in long form. -/
theorem parseObjectList_objectText (prefixes : Prefixes) {ids : Option IdOrIds}
    (h : ListReadable ids) (hne : getIds ids ≠ []) {w : Str}
    (hw : ∀ c ∈ w, isWhitespace c = true) :
    parseObjectList prefixes (w ++ objectText ids) =
      (getIds ids).map (expandCurieOrIri prefixes) := by
  obtain ⟨p, c, hp, hc⟩ := objectText_eq_append h hne
  obtain ⟨heach, hlast, -⟩ := h
  rw [parseObjectList, trim_blank_append hw]
  cases hids : getIds ids with
  | nil => exact absurd hids hne
  | cons r l =>
      rw [hids] at heach hlast
      have htext : objectText ids = join ", " ((r :: l).map renderId) := by
        rw [objectText, hids]
      have hstart : trimStart (objectText ids) = objectText ids := by
        rw [htext, List.map_cons, join_cons]
        refine trimStart_renderId (heach r (by simp)) ?_
        cases l with
        | nil => simp
        | cons q l => simp
      have htrim : trim (objectText ids) = objectText ids := by
        rw [trim, hstart, hp, trimEnd_append_singleton_of_not hc]
      rw [htrim, htext]
      exact consumeAll_nextObject prefixes (w := []) heach hlast (by simp)

/-! ## Pairs -/

/-- The predicate of a pair is read, and what comes after it. -/
theorem turtlePopTerm_pair {w : Str} (word object : Str) (hw : ∀ c ∈ w, isWhitespace c = true)
    (hne : word ≠ []) (hword : ∀ c ∈ word, isBareChar c = true)
    (hobject : ∃ p c, object = p ++ [c] ∧ isWhitespace c = false) :
    (trim (w ++ (word ++ (" " ++ object)))).isEmpty = false ∧
      turtlePopTerm (trim (w ++ (word ++ (" " ++ object)))) = some (word, " " ++ object) := by
  obtain ⟨p, c, rfl, hc⟩ := hobject
  have hspec := fun c hc => isBareChar_spec (hword c hc)
  have htrim : trim (w ++ (word ++ (" " ++ (p ++ [c])))) = word ++ (" " ++ (p ++ [c])) := by
    rw [trim_blank_append hw, trim_word_append hne fun c hc => (hspec c hc).1,
      ← List.append_assoc _ p, trimEnd_append_singleton_of_not hc]
  rw [htrim]
  constructor
  · rw [List.isEmpty_eq_false_iff]
    simp [hne]
  · refine turtlePopTerm_append _ _ ?_ ?_ ?_
    · intro d hd
      obtain ⟨-, hend, -, -, hopen, -, hquote⟩ := hspec d hd
      exact ⟨hend, hopen, hquote⟩
    · intro d hd
      cases hd
      decide
    · cases word with
      | nil => exact absurd rfl hne
      | cons d word => exact trimStart_cons_of_not (hspec d (by simp)).1 _

/-- The fields of an authorisation, by the names of their predicates. -/
def aclFields : List (Str × (AclAuthorization → Option IdOrIds → AclAuthorization)) :=
  [("agent", fun auth ids => { auth with agent := ids }),
    ("agentClass", fun auth ids => { auth with agentClass := ids }),
    ("agentGroup", fun auth ids => { auth with agentGroup := ids }),
    ("origin", fun auth ids => { auth with origin := ids }),
    ("accessTo", fun auth ids => { auth with accessTo := ids }),
    ("default", fun auth ids => { auth with default := ids }),
    ("mode", fun auth ids => { auth with mode := ids })]

/-- A field as it is read back: its ids in long form, in the same order. -/
def rereadIds (ids : Option IdOrIds) : Option IdOrIds :=
  strsToIds ((getIds ids).map (expandCurieOrIri headerPrefixes))

theorem getIds_strsToIds (l : List Str) : getIds (strsToIds l) = l := by
  cases l with
  | nil => rfl
  | cons a l => exact getIds_some_idsOf (a :: l)

theorem isAclTerm_vocabulary (name name' : Str) :
    isAclTerm name ("http://www.w3.org/ns/auth/acl#" ++ name') = (name' == name) := by
  have hshort : (("http://www.w3.org/ns/auth/acl#" : Str) ++ name' == ("acl:" : Str) ++ name) =
      false := by
    rw [beq_eq_false_iff_ne]
    intro h
    have hhead := congrArg (fun t => t.take 1) h
    rw [List.take_append_of_le_length (by decide), List.take_append_of_le_length (by decide)]
      at hhead
    exact absurd hhead (by decide)
  rw [isAclTerm, hshort, Bool.or_false, Bool.eq_iff_iff, beq_iff_eq, beq_iff_eq]
  exact List.append_right_inj _

theorem expandCurieOrIri_acl : ∀ name ∈ "condition".toList :: fieldNames,
    expandCurieOrIri headerPrefixes ("acl:" ++ name) = "http://www.w3.org/ns/auth/acl#" ++ name ∧
      isTypePredicate ("http://www.w3.org/ns/auth/acl#" ++ name) = false ∧
      ∀ c ∈ ("acl:" : Str) ++ name, isBareChar c = true := by
  decide

/-- A pair is taken apart into its predicate and the ids it was written from. -/
theorem turtlePopTerm_pairText {indent name p : Str} {ids : Option IdOrIds}
    (hpair : pairText indent (name, ids) = some p) (hindent : ∀ c ∈ indent, isWhitespace c = true)
    (hname : name ∈ fieldNames) (h : ListReadable ids) :
    (trim p).isEmpty = false ∧
      turtlePopTerm (trim p) = some ("acl:" ++ name, " " ++ objectText ids) ∧
      parseObjectList headerPrefixes (trim (" " ++ objectText ids)) =
        (getIds ids).map (expandCurieOrIri headerPrefixes) := by
  obtain ⟨hids, rfl⟩ := eq_of_pairText hpair
  obtain ⟨-, -, hbare⟩ := expandCurieOrIri_acl name (List.mem_cons_of_mem _ hname)
  have htext : ("\n" : Str) ++ indent ++ "acl:" ++ (name ++ " ") ++ objectText ids =
      ("\n" ++ indent) ++ (("acl:" ++ name) ++ (" " ++ objectText ids)) := by
    simp only [List.append_assoc]
  have hblank : ∀ c ∈ ("\n" : Str) ++ indent, isWhitespace c = true :=
    List.forall_mem_append.mpr ⟨by decide, hindent⟩
  obtain ⟨hne, hpop⟩ := turtlePopTerm_pair _ _ hblank
    (List.append_ne_nil_of_left_ne_nil (by decide) name) hbare (objectText_eq_append h hids)
  have hlist := parseObjectList_objectText headerPrefixes h hids (w := " ") (by decide)
  rw [parseObjectList] at hlist
  simp only [htext]
  refine ⟨hne, hpop, ?_⟩
  rw [parseObjectList, trim_trim]
  exact hlist

/-- A pair of a field is read back into that field. -/
theorem authorizationPair_field {name p : Str}
    {set : AclAuthorization → Option IdOrIds → AclAuthorization}
    (hset : (name, set) ∈ aclFields) {ids : Option IdOrIds}
    (hpair : pairText "    " (name, ids) = some p) (h : ListReadable ids)
    (auth : AclAuthorization) (anyAuthz : Bool) :
    authorizationPair headerPrefixes (auth, anyAuthz) p =
      some (set auth (rereadIds ids), anyAuthz) := by
  have hname : name ∈ fieldNames := by
    simp only [aclFields, List.mem_cons, List.not_mem_nil, or_false, Prod.mk.injEq] at hset
    rcases hset with h | h | h | h | h | h | h <;> simp [h.1, fieldNames]
  obtain ⟨hexpand, htype, -⟩ := expandCurieOrIri_acl name (List.mem_cons_of_mem _ hname)
  obtain ⟨hblank, hpop, hobjects⟩ := turtlePopTerm_pairText hpair (by decide) hname h
  have hreread : rereadIds ids =
      some (idsOf ((getIds ids).map (expandCurieOrIri headerPrefixes))) := by
    rw [rereadIds, strsToIds, if_neg (by simpa using (eq_of_pairText hpair).1)]
  rw [authorizationPair]
  simp only [hblank, hpop, Option.map_some, hexpand, htype, hobjects, isAclTerm_vocabulary,
    ← hreread]
  simp only [aclFields, List.mem_cons, List.not_mem_nil, or_false, Prod.mk.injEq] at hset
  rcases hset with ⟨rfl, rfl⟩ | ⟨rfl, rfl⟩ | ⟨rfl, rfl⟩ | ⟨rfl, rfl⟩ | ⟨rfl, rfl⟩ | ⟨rfl, rfl⟩ |
    ⟨rfl, rfl⟩
  · rfl
  · rfl
  · rfl
  · rfl
  · rfl
  · rfl
  · rfl

/-- The fields of a condition body, by the names of their predicates. -/
def bodyAdders : List (Str × (ConditionFields → List Str → ConditionFields)) :=
  [("client", fun f ids => { f with clients := f.clients ++ ids }),
    ("clientGroup", fun f ids => { f with clientGroups := f.clientGroups ++ ids }),
    ("clientClass", fun f ids => { f with clientClasses := f.clientClasses ++ ids }),
    ("issuer", fun f ids => { f with issuers := f.issuers ++ ids }),
    ("issuerGroup", fun f ids => { f with issuerGroups := f.issuerGroups ++ ids }),
    ("issuerClass", fun f ids => { f with issuerClasses := f.issuerClasses ++ ids })]

/-- The pair of a condition field, if there is one, adds its ids. -/
theorem foldl_conditionPair {name : Str} {add : ConditionFields → List Str → ConditionFields}
    (hadd : (name, add) ∈ bodyAdders) {ids : Option IdOrIds} (h : ListReadable ids)
    (f : ConditionFields) :
    (pairText "        " (name, ids)).toList.foldl (conditionPair headerPrefixes) f =
      add f ((getIds ids).map (expandCurieOrIri headerPrefixes)) := by
  simp only [bodyAdders, List.mem_cons, List.not_mem_nil, or_false, Prod.mk.injEq] at hadd
  cases hpair : pairText "        " (name, ids) with
  | none =>
      have hids : getIds ids = [] := by
        rw [pairText] at hpair
        split at hpair
        · rename_i hids
          exact List.isEmpty_iff.mp hids
        · cases hpair
      rcases hadd with ⟨-, rfl⟩ | ⟨-, rfl⟩ | ⟨-, rfl⟩ | ⟨-, rfl⟩ | ⟨-, rfl⟩ | ⟨-, rfl⟩
        <;> simp [hids]
  | some p =>
      have hname : name ∈ fieldNames := by
        rcases hadd with h | h | h | h | h | h <;> simp [h.1, fieldNames]
      obtain ⟨hexpand, htype, -⟩ := expandCurieOrIri_acl name (List.mem_cons_of_mem _ hname)
      obtain ⟨hblank, hpop, hobjects⟩ := turtlePopTerm_pairText hpair (by decide) hname h
      rw [Option.toList_some, List.foldl_cons, List.foldl_nil, conditionPair]
      simp only [hblank, hpop, hexpand, htype, hobjects, isAclTerm_vocabulary]
      rcases hadd with ⟨rfl, rfl⟩ | ⟨rfl, rfl⟩ | ⟨rfl, rfl⟩ | ⟨rfl, rfl⟩ | ⟨rfl, rfl⟩ | ⟨rfl, rfl⟩
      · rfl
      · rfl
      · rfl
      · rfl
      · rfl
      · rfl

/-! ## Condition bodies -/

/-- A blank tail, or none, is what separates the pieces from those that are read. -/
theorem pieces_eq_splitNonblankTail (m : Splitter (Nat × Bool)) (t : Str) :
    m.pieces (0, false) [] t = splitNonblankTail m t ∨
      ∃ b, trim b = [] ∧ m.pieces (0, false) [] t = splitNonblankTail m t ++ [b] := by
  rw [splitNonblankTail]
  have hne := m.pieces_ne_nil (0, false) [] t
  split
  · rename_i hblank
    refine Or.inr ⟨_, List.isEmpty_iff.mp hblank, ?_⟩
    rw [List.getLastD_eq_getLast?, List.getLast?_eq_some_getLast hne, Option.getD_some,
      List.dropLast_append_getLast]
  · exact Or.inl rfl

theorem foldl_splitPredicateList {α : Type} {f : α → Str → α} (htrim : ∀ a p, f a (trim p) = f a p)
    (hblank : ∀ a, f a [] = a) (a : α) (t : Str) :
    (splitPredicateList t).foldl f a =
      ((predicateSplitter.pieces (0, false) [] t).map trim).foldl f a := by
  rw [List.foldl_map, splitPredicateList]
  simp only [htrim]
  rcases pieces_eq_splitNonblankTail predicateSplitter t with heq | ⟨b, hb, heq⟩
  · rw [heq]
  · rw [heq, List.foldl_append, List.foldl_cons, List.foldl_nil, ← htrim _ b, hb, hblank]

theorem passes_blank {w : Str} (hw : ∀ c ∈ w, isWhitespace c = true) (s : Nat × Bool) :
    predicateSplitter.Passes s w := by
  refine (Splitter.neutral_of_forall ?_).1
  intro c hc
  have hne : ∀ d, isWhitespace d = false → c ≠ d := by
    rintro d hd rfl
    rw [hw c hc] at hd
    cases hd
  simp [predicateSplitter, hne '"' (by decide), hne '[' (by decide), hne ']' (by decide),
    hne ';' (by decide)]

/-- The pairs that stand after a first one, each after its separator. -/
theorem map_trim_pieces_pairs (first : Str) {w : Str} {pairs : List Str}
    (hfirst : predicateSplitter.Neutral (0, false) first)
    (hpairs : ∀ p ∈ pairs, predicateSplitter.Neutral (0, false) p)
    (hw : ∀ c ∈ w, isWhitespace c = true) :
    (predicateSplitter.pieces (0, false) [] (first ++ separated pairs ++ w)).map trim =
      trim first :: pairs.map trim := by
  rw [Splitter.map_trim_pieces_append_blank hw (passes_blank hw),
    Splitter.pieces_append_of_passes _ hfirst.1,
    hfirst.2, List.nil_append]
  exact Splitter.map_trim_pieces_separated (by decide) (by decide) (by decide) (by decide) hpairs
    first

/-- A condition as it is read back. A type that the server does not know may be
one that it knows in short form. -/
def rereadCondition : Condition → Condition
  | .client body =>
    .client ⟨rereadIds body.client, rereadIds body.clientGroup, rereadIds body.clientClass⟩
  | .issuer body =>
    .issuer ⟨rereadIds body.issuer, rereadIds body.issuerGroup, rereadIds body.issuerClass⟩
  | .unknown iri =>
    ConditionFields.empty.toCondition
      (normaliseConditionType (expandCurieOrIri headerPrefixes iri))

theorem conditionPair_trim (prefixes : Prefixes) (f : ConditionFields) (p : Str) :
    conditionPair prefixes f (trim p) = conditionPair prefixes f p := by
  rw [conditionPair, conditionPair, trim_trim]

/-- A bare word is one object. -/
theorem parseObjectList_bare (prefixes : Prefixes) {word : Str} (hne : word ≠ [])
    (hword : ∀ c ∈ word, isBareChar c = true) :
    parseObjectList prefixes (trim (" " ++ word)) = [expandCurieOrIri prefixes word] := by
  have hspec := fun c hc => isBareChar_spec (hword c hc)
  have htrim : trim word = word := by
    have happend := trim_word_append hne (fun c hc => (hspec c hc).1) []
    rwa [List.append_nil, trimEnd_nil, List.append_nil] at happend
  have hstart : trimStart word = word := by
    cases word with
    | nil => rfl
    | cons c word => exact trimStart_cons_of_not (hspec c (by simp)).1 _
  have hpop := turtlePopTerm_append word [] (fun c hc => by
    obtain ⟨-, hend, -, -, hopen, -, hquote⟩ := hspec c hc
    exact ⟨hend, hopen, hquote⟩) (by simp) (by rw [List.append_nil, hstart])
  rw [List.append_nil] at hpop
  rw [parseObjectList, trim_trim, trim_blank_append (by decide), htrim,
    consumeAll_eq fun _ _ _ h => length_lt_of_nextObject h, nextObject, hstart]
  simp only [List.isEmpty_eq_false_iff.mpr hne, hpop]
  rfl

theorem conditionPair_type {f : ConditionFields} {iri : Str} (hne : iri ≠ [])
    (hiri : ∀ c ∈ iri, isBareChar c = true) :
    conditionPair headerPrefixes f ("\n        a " ++ iri) =
      { f with
        typeIri := some (normaliseConditionType (expandCurieOrIri headerPrefixes iri)) } := by
  have hlast : ∃ p c, iri = p ++ [c] ∧ isWhitespace c = false := by
    rcases List.eq_nil_or_concat' iri with rfl | ⟨p, c, rfl⟩
    · exact absurd rfl hne
    · exact ⟨p, c, rfl, (isBareChar_spec (hiri c (by simp))).1⟩
  have htext : ("\n        a " : Str) ++ iri = "\n        " ++ ("a" ++ (" " ++ iri)) := by
    rw [← List.append_assoc, ← List.append_assoc]
    exact congrArg (· ++ iri) (by decide)
  obtain ⟨hblank, hpop⟩ := turtlePopTerm_pair (w := "\n        ") "a" iri (by decide)
    (by decide) (by decide) hlast
  have htype : isTypePredicate (expandCurieOrIri headerPrefixes "a") = true := by decide
  rw [htext, conditionPair]
  simp only [hblank, hpop, htype, parseObjectList_bare headerPrefixes hne hiri]
  rfl

/-- The body of a readable condition is read back. -/
theorem parseTurtleConditionBody_conditionBody {cond : Condition} (h : ConditionReadable cond) :
    parseTurtleConditionBody headerPrefixes (conditionBody cond) = some (rereadCondition cond) := by
  have hfields : conditionFields headerPrefixes (conditionBody cond) =
      ((bodyFields cond).filterMap (pairText "        ")).foldl (conditionPair headerPrefixes)
        { ConditionFields.empty with
          typeIri := some
            (normaliseConditionType (expandCurieOrIri headerPrefixes cond.typeIri)) } := by
    have hpieces := map_trim_pieces_pairs _ (w := "\n    ") (whole_typeIri h).predicate
      (fun p hp => (whole_bodyPairs h p hp).predicate) (by decide)
    rw [conditionFields, foldl_splitPredicateList (conditionPair_trim headerPrefixes)
      (fun f => rfl)]
    delta conditionBody
    rw [hpieces, List.foldl_cons, conditionPair_trim,
      conditionPair_type h.typed fun c hc => (h.bare c hc).1, List.foldl_map]
    simp only [conditionPair_trim]
  have hlist := fun field hfield => (h.lists field hfield).1
  rw [parseTurtleConditionBody, hfields, List.filterMap_eq_flatMap_toList]
  cases cond with
  | client body =>
      simp only [bodyFields, List.forall_mem_cons] at hlist
      obtain ⟨hclient, hgroup, hclass, -⟩ := hlist
      have htype : normaliseConditionType (expandCurieOrIri headerPrefixes
          (Condition.client body).typeIri) = "acl:ClientCondition" := by
        change normaliseConditionType (expandCurieOrIri headerPrefixes "acl:ClientCondition") = _
        decide
      simp only [bodyFields, List.flatMap_cons, List.flatMap_nil, List.append_nil,
        List.foldl_append, htype]
      rw [foldl_conditionPair (.head _) hclient, foldl_conditionPair (.tail _ (.head _)) hgroup,
        foldl_conditionPair (.tail _ (.tail _ (.head _))) hclass]
      rfl
  | issuer body =>
      simp only [bodyFields, List.forall_mem_cons] at hlist
      obtain ⟨hissuer, hgroup, hclass, -⟩ := hlist
      have htype : normaliseConditionType (expandCurieOrIri headerPrefixes
          (Condition.issuer body).typeIri) = "acl:IssuerCondition" := by
        change normaliseConditionType (expandCurieOrIri headerPrefixes "acl:IssuerCondition") = _
        decide
      simp only [bodyFields, List.flatMap_cons, List.flatMap_nil, List.append_nil,
        List.foldl_append, htype]
      rw [foldl_conditionPair (.tail _ (.tail _ (.tail _ (.head _)))) hissuer,
        foldl_conditionPair (.tail _ (.tail _ (.tail _ (.tail _ (.head _))))) hgroup,
        foldl_conditionPair (.tail _ (.tail _ (.tail _ (.tail _ (.tail _ (.head _)))))) hclass]
      rfl
  | unknown iri => rfl

/-! ## Rules -/

def reread (auth : AclAuthorization) : AclAuthorization where
  agent := rereadIds auth.agent
  agentClass := rereadIds auth.agentClass
  agentGroup := rereadIds auth.agentGroup
  origin := rereadIds auth.origin
  accessTo := rereadIds auth.accessTo
  default := rereadIds auth.default
  mode := rereadIds auth.mode
  condition :=
    if auth.conditions.isEmpty then none else some (auth.conditions.map rereadCondition)

theorem authorizationPair_condition {cond : Condition} (h : ConditionReadable cond)
    (auth : AclAuthorization) (anyAuthz : Bool) :
    authorizationPair headerPrefixes (auth, anyAuthz) (conditionText cond) =
      some ({ auth with condition := some (auth.conditions ++ [rereadCondition cond]) },
        anyAuthz) := by
  obtain ⟨hexpand, htype, hbare⟩ := expandCurieOrIri_acl "condition" (by simp)
  have htext : conditionText cond =
      "\n    " ++ (("acl:" ++ "condition") ++ (" " ++ ("[" ++ conditionBody cond ++ "]"))) := by
    delta conditionText
    simp only [← List.append_assoc]
    exact congrArg (fun t => t ++ conditionBody cond ++ "]".toList) (by decide)
  obtain ⟨hblank, hpop⟩ := turtlePopTerm_pair (w := "\n    ") ("acl:" ++ "condition")
    ("[" ++ conditionBody cond ++ "]") (by decide) (by decide) hbare
    ⟨"[" ++ conditionBody cond, ']', rfl, by decide⟩
  have hclose : closeBracket 1 false (conditionBody cond ++ "]") =
      some (conditionBody cond, []) := by
    have hnesting := closeBracket_of_nesting (balanced_conditionBody h) ("]" : Str)
    rw [hnesting]
    simp [closeBracket]
  have hobject : trim (" " ++ ("[" ++ conditionBody cond ++ "]")) =
      '[' :: (conditionBody cond ++ "]") := by
    rw [trim_blank_append (by decide)]
    refine trim_eq_self ?_ ?_
    · intro c hc
      cases hc
      decide
    · intro c hc
      rw [List.getLast?_append] at hc
      cases hc
      decide
  have hconditions : parseTurtleConditionObjects headerPrefixes
      (trim (" " ++ ("[" ++ conditionBody cond ++ "]"))) = [rereadCondition cond] := by
    have htrim := trim_trim (" " ++ ("[" ++ conditionBody cond ++ "]"))
    rw [hobject] at htrim
    rw [hobject, parseTurtleConditionObjects, htrim]
    change conditionObjects headerPrefixes ('[' :: (conditionBody cond ++ "]")) = _
    rw [conditionObjects_eq, nextConditionObject_eq, isBlank,
      openObject_of_trimStart (trimStart_cons_of_not (by decide) _), if_pos rfl, hclose,
      trimStart_cons_of_not (by decide)]
    simp [parseTurtleConditionBody_conditionBody h, afterComma, stripPrefix]
  rw [htext, authorizationPair]
  simp only [hblank, hpop, Option.map_some, hexpand, htype, isAclTerm_vocabulary, hconditions]
  rfl

theorem foldlM_conditionText {conds : List Condition} (h : ∀ cond ∈ conds, ConditionReadable cond)
    (auth : AclAuthorization) (anyAuthz : Bool) :
    (conds.map conditionText).foldlM (authorizationPair headerPrefixes) (auth, anyAuthz) =
      some ({ auth with
        condition := if conds.isEmpty then auth.condition
          else some (auth.conditions ++ conds.map rereadCondition) }, anyAuthz) := by
  induction conds generalizing auth with
  | nil => rfl
  | cons cond conds ih =>
      rw [List.map_cons, List.foldlM_cons, authorizationPair_condition (h cond (by simp))]
      change (conds.map conditionText).foldlM _ _ = _
      rw [ih fun c hc => h c (by simp [hc])]
      cases conds with
      | nil => rfl
      | cons c conds => simp [AclAuthorization.conditions]

/-- The pair of a field, if there is one, sets it. -/
theorem foldlM_fieldPair {name : Str} {set : AclAuthorization → Option IdOrIds → AclAuthorization}
    (hset : (name, set) ∈ aclFields) {ids : Option IdOrIds} (h : ListReadable ids)
    {auth : AclAuthorization} (hnone : set auth none = auth) (anyAuthz : Bool) :
    (pairText "    " (name, ids)).toList.foldlM (authorizationPair headerPrefixes)
        (auth, anyAuthz) = some (set auth (rereadIds ids), anyAuthz) := by
  cases hpair : pairText "    " (name, ids) with
  | none =>
      have hids : rereadIds ids = none := by
        rw [pairText] at hpair
        split at hpair
        · rename_i hids
          rw [rereadIds, List.isEmpty_iff.mp hids]
          rfl
        · cases hpair
      rw [hids, hnone]
      rfl
  | some p =>
      change (authorizationPair headerPrefixes (auth, anyAuthz) p >>= pure) = _
      rw [authorizationPair_field hset hpair h]
      rfl

/-- The pairs of a readable rule are read back one after the other. -/
theorem foldlM_rulePairs {auth : AclAuthorization} (h : AuthorizationReadable auth) :
    (rulePairs auth).foldlM (authorizationPair headerPrefixes) (.empty, true) =
      some (reread auth, true) := by
  have hlists := h.lists
  simp only [fields, List.forall_mem_cons] at hlists
  obtain ⟨hagent, hclass, hgroup, horigin, haccess, hdefault, hmode, -⟩ := hlists
  rw [rulePairs, List.filterMap_eq_flatMap_toList]
  simp only [fields, List.flatMap_cons, List.flatMap_nil, List.append_nil, List.foldlM_append]
  have hbind : ∀ {st st' : AclAuthorization × Bool} {l : List Str}
      {f : AclAuthorization × Bool → Option (AclAuthorization × Bool)},
      l.foldlM (authorizationPair headerPrefixes) st = some st' →
        (l.foldlM (authorizationPair headerPrefixes) st >>= f) = f st' := by
    intro st st' l f hl
    rw [hl]
    rfl
  rw [hbind (foldlM_fieldPair (.head _) hagent rfl true),
    hbind (foldlM_fieldPair (.tail _ (.head _)) hclass rfl true),
    hbind (foldlM_fieldPair (.tail _ (.tail _ (.head _))) hgroup rfl true),
    hbind (foldlM_fieldPair (.tail _ (.tail _ (.tail _ (.head _)))) horigin rfl true),
    hbind (foldlM_fieldPair (.tail _ (.tail _ (.tail _ (.tail _ (.head _))))) haccess rfl true),
    hbind (foldlM_fieldPair (.tail _ (.tail _ (.tail _ (.tail _ (.tail _ (.head _)))))) hdefault
      rfl true),
    hbind (foldlM_fieldPair
      (.tail _ (.tail _ (.tail _ (.tail _ (.tail _ (.tail _ (.head _))))))) hmode rfl true),
    foldlM_conditionText h.conditions]
  rfl

theorem authorizationPair_trim (prefixes : Prefixes) (st : AclAuthorization × Bool) (p : Str) :
    authorizationPair prefixes st (trim p) = authorizationPair prefixes st p := by
  rw [authorizationPair, authorizationPair, trim_trim]

theorem foldlM_map_trim (prefixes : Prefixes) (st : AclAuthorization × Bool) (l : List Str) :
    (l.map trim).foldlM (authorizationPair prefixes) st =
      l.foldlM (authorizationPair prefixes) st := by
  rw [List.foldlM_map]
  simp only [authorizationPair_trim]

theorem foldlM_splitPredicateList (prefixes : Prefixes) (st : AclAuthorization × Bool) (t : Str) :
    (splitPredicateList t).foldlM (authorizationPair prefixes) st =
      ((predicateSplitter.pieces (0, false) [] t).map trim).foldlM
        (authorizationPair prefixes) st := by
  rw [foldlM_map_trim, splitPredicateList]
  rcases pieces_eq_splitNonblankTail predicateSplitter t with heq | ⟨b, hb, heq⟩
  · rw [heq]
  · have hblank : ∀ st', authorizationPair prefixes st' b = some st' := by
      intro st'
      rw [← authorizationPair_trim, hb]
      rfl
    rw [heq, List.foldlM_append]
    simp [hblank]

theorem isIriChar_decimal (i : Nat) : ∀ c ∈ decimal i, isIriChar c = true := by
  intro c hc
  have hdigit : c.isDigit = true := Nat.isDigit_of_mem_toDigits (by decide) (by decide) hc
  simp only [Char.isDigit, Bool.and_eq_true, decide_eq_true_eq] at hdigit
  have hrange : 48 ≤ c.toNat ∧ c.toNat ≤ 57 := hdigit
  have hne : ∀ d : Char, 57 < d.toNat ∨ d.toNat < 48 → c ≠ d := by
    rintro d hd rfl
    omega
  have hspace : isWhitespace c = false := by
    simp only [isWhitespace, Bool.or_eq_false_iff, Bool.and_eq_false_iff, beq_eq_false_iff_ne,
      decide_eq_false_iff_not]
    omega
  simp [isIriChar, hspace, hne '<' (by decide), hne '>' (by decide), hne '"' (by decide)]

theorem exists_trimEnd_append (t : Str) :
    ∃ w, (∀ c ∈ w, isWhitespace c = true) ∧ t = trimEnd t ++ w := by
  refine ⟨(t.reverse.takeWhile isWhitespace).reverse, ?_, ?_⟩
  · intro c hc
    exact List.mem_takeWhile_imp (List.mem_reverse.mp hc)
  · change t = (t.reverse.dropWhile isWhitespace).reverse ++ _
    rw [← List.reverse_append, List.takeWhile_append_dropWhile, List.reverse_reverse]

/-- The text of a rule up to its dot. -/
def ruleText (rule : AclAuthorization × Nat) : Str :=
  ruleSubject rule.2 ++ (" a acl:Authorization" ++ separated (rulePairs rule.1)) ++ " "

theorem quiet_ruleText {rule : AclAuthorization × Nat} (h : AuthorizationReadable rule.1) :
    Quiet (ruleText rule) := by
  have hsubject : Quiet (ruleSubject rule.2) := by
    delta ruleSubject
    exact Quiet.insert (by decide) (isIriChar_decimal rule.2) (by decide) (by decide) (by decide)
  exact (hsubject.append (Quiet.append (by decide)
    (quiet_separated fun p hp => (whole_rulePairs h p hp).quiet))).append (by decide)

/-- A readable rule is read back. -/
theorem parseTurtleAuthorization_ruleText {rule : AclAuthorization × Nat}
    (h : AuthorizationReadable rule.1) :
    parseTurtleAuthorization headerPrefixes (trim (ruleText rule)) = some (reread rule.1) := by
  have hsubject : ∀ c ∈ ruleSubject rule.2, isWhitespace c = false := by
    intro c hc
    delta ruleSubject at hc
    rcases List.mem_append.mp hc with hc | hc
    · rcases List.mem_append.mp hc with hc | hc
      · have hopen : ∀ d ∈ ("<#rule-" : Str), isWhitespace d = false := by decide
        exact hopen c hc
      · exact (isIriChar_spec (isIriChar_decimal rule.2 c hc)).1
    · cases List.mem_singleton.mp hc
      decide
  have htrim : trim (ruleText rule) = ruleSubject rule.2 ++
      trimEnd (" a acl:Authorization" ++ separated (rulePairs rule.1) ++ " ") := by
    rw [ruleText, List.append_assoc]
    refine trim_word_append ?_ hsubject _
    delta ruleSubject
    simp
  have hpop (t : Str) : turtlePopTerm (ruleSubject rule.2 ++ t) =
      some ("#rule-" ++ decimal rule.2, t) := by
    have hclose : '>' ∉ ("#rule-" : Str) ++ decimal rule.2 := by
      rw [List.mem_append, not_or]
      exact ⟨by decide, fun hmem => (isIriChar_spec (isIriChar_decimal rule.2 _ hmem)).2.2.1 rfl⟩
    have htext : ruleSubject rule.2 ++ t = '<' :: (("#rule-" ++ decimal rule.2) ++ '>' :: t) := by
      delta ruleSubject
      simp
    rw [htext, turtlePopTerm_iri, splitOnce_append hclose]
  obtain ⟨w, hw, hbody⟩ := exists_trimEnd_append
    (" a acl:Authorization" ++ separated (rulePairs rule.1) ++ " ")
  have hpieces := map_trim_pieces_pairs " a acl:Authorization" (w := " ") (by decide)
    (fun p hp => (whole_rulePairs h p hp).predicate) (by decide)
  have hfirst : authorizationPair headerPrefixes (.empty, false) (trim " a acl:Authorization") =
      some (.empty, true) := by decide
  have hfold : (trim " a acl:Authorization" :: (rulePairs rule.1).map trim).foldlM
      (authorizationPair headerPrefixes) (.empty, false) = some (reread rule.1, true) := by
    rw [List.foldlM_cons, hfirst]
    change ((rulePairs rule.1).map trim).foldlM _ _ = _
    rw [foldlM_map_trim, foldlM_rulePairs h]
  have hne : (trim (ruleText rule)).isEmpty = false := by
    rw [htrim]
    delta ruleSubject
    simp
  rw [parseTurtleAuthorization, trim_trim]
  simp only [hne]
  rw [htrim, hpop]
  simp only []
  rw [foldlM_splitPredicateList, ← Splitter.map_trim_pieces_append_blank hw (passes_blank hw),
    ← hbody, hpieces, hfold]
  rfl

/-! ## Documents -/

theorem stripLineComment_of_passes {inIri : Bool} {l : Str} (hn : '\n' ∉ l)
    (h : commentSplitter.Passes inIri l) : stripLineComment inIri l = l := by
  induction l generalizing inIri with
  | nil => rfl
  | cons c l ih =>
      rw [List.mem_cons, not_or] at hn
      obtain ⟨hcut, hrest⟩ := h
      have hhash : (c = '#' && !inIri) = false := hcut
      rw [stripLineComment]
      by_cases hopen : c = '<'
      · have hstep : commentSplitter.step inIri c = true := by
          simp [commentSplitter, hopen]
        rw [hstep] at hrest
        rw [if_pos hopen, ih hn.2 hrest]
      · by_cases hclose : c = '>'
        · have hstep : commentSplitter.step inIri c = false := by
            simp [commentSplitter, hclose]
          rw [hstep] at hrest
          rw [if_neg hopen, if_pos hclose, ih hn.2 hrest]
        · have hstep : commentSplitter.step inIri c = inIri := by
            simp [commentSplitter, hopen, hclose, Ne.symm hn.1]
          rw [hstep] at hrest
          rw [if_neg hopen, if_neg hclose, hhash, if_neg (by simp), ih hn.2 hrest]

/-- A text without comments keeps all its lines. -/
theorem stripTurtleComments_eq_self {t : Str} (hr : '\r' ∉ t) (hn : ∀ c ∈ t.getLast?, c = '\n')
    (h : commentSplitter.Passes false t) : stripTurtleComments t = t := by
  have hlines := flatMap_lines hr hn
  have hpass : ∀ l ∈ lines t, commentSplitter.Passes false l :=
    Splitter.passes_of_mem_lines (fun _ => rfl) (by rwa [hlines])
  rw [stripTurtleComments]
  calc (lines t).flatMap (fun line => stripLineComment false line ++ ['\n'])
      = (lines t).flatMap (fun line => line ++ ['\n']) := by
        refine List.flatMap_congr ?_
        intro l hl
        rw [stripLineComment_of_passes (not_newline_of_mem_lines hl) (hpass l hl)]
    _ = t := hlines

theorem head_trimStart_ne {l : Str} (h : directiveSplitter.Passes true l) :
    ∀ c ∈ (trimStart l).head?, c ≠ '@' := by
  induction l with
  | nil => simp
  | cons c l ih =>
      obtain ⟨hcut, hrest⟩ := h
      cases hc : isWhitespace c with
      | true =>
          have hstep : directiveSplitter.step true c = true := by
            simp [directiveSplitter, hc]
          rw [hstep] at hrest
          rw [trimStart_cons_of hc]
          exact ih hrest
      | false =>
          have hne : c ≠ '@' := by simpa [directiveSplitter] using hcut
          rw [trimStart_cons_of_not hc]
          simpa using hne

/-- A line that is no directive belongs to the body. -/
theorem prefixLine_of_passes (st : Prefixes × Str) {l : Str}
    (h : directiveSplitter.Passes true l) : prefixLine st l = (st.1, st.2 ++ l ++ ['\n']) := by
  have hnone : stripPrefix "@prefix" (trim l) = none := by
    rw [stripPrefix_eq_none]
    intro hprefix
    have htrim : trim l <+: trimStart l := List.rdropWhile_prefix _ _
    obtain ⟨t, ht⟩ := hprefix.trans htrim
    have hhead := head_trimStart_ne h
    rw [← ht] at hhead
    exact hhead '@' rfl rfl
  rw [prefixLine]
  simp only [hnone]

theorem foldl_prefixLine {ls : List Str} (h : ∀ l ∈ ls, directiveSplitter.Passes true l)
    (st : Prefixes × Str) :
    ls.foldl prefixLine st = (st.1, st.2 ++ ls.flatMap fun l => l ++ ['\n']) := by
  induction ls generalizing st with
  | nil => simp
  | cons l ls ih =>
      rw [List.forall_mem_cons] at h
      rw [List.foldl_cons, prefixLine_of_passes st h.1, ih h.2, List.flatMap_cons]
      simp

/-- The header binds its two prefixes and leaves an empty line. -/
theorem readPrefixes_header {t : Str} (hr : '\r' ∉ t) (hn : ∀ c ∈ t.getLast?, c = '\n')
    (h : directiveSplitter.Passes true t) :
    readPrefixes (turtleHeader ++ t) = (headerPrefixes, "\n" ++ t) := by
  have htext : turtleHeader ++ t = "@prefix acl: <http://www.w3.org/ns/auth/acl#> ." ++
      '\n' :: ("@prefix foaf: <http://xmlns.com/foaf/0.1/> ." ++ '\n' :: ([] ++ '\n' :: t)) := by
    have hheader : turtleHeader = ("@prefix acl: <http://www.w3.org/ns/auth/acl#> ." : Str) ++
        '\n' :: ("@prefix foaf: <http://xmlns.com/foaf/0.1/> ." ++ ['\n', '\n']) := by
      decide
    rw [hheader]
    simp
  have hlines := flatMap_lines hr hn
  have hpass : ∀ l ∈ lines t, directiveSplitter.Passes true l :=
    Splitter.passes_of_mem_lines (fun _ => rfl) (by rwa [hlines])
  have hheader : prefixLine (prefixLine (prefixLine (defaultPrefixes, [])
      "@prefix acl: <http://www.w3.org/ns/auth/acl#> .")
      "@prefix foaf: <http://xmlns.com/foaf/0.1/> .") [] = (headerPrefixes, ['\n']) := by
    decide
  rw [readPrefixes, htext, lines_append_newline (by decide) (by decide),
    lines_append_newline (by decide) (by decide), lines_append_newline (by decide) (by decide),
    List.foldl_cons, List.foldl_cons, List.foldl_cons, hheader, foldl_prefixLine hpass, hlines]
  rfl

def rulesText (rules : List (AclAuthorization × Nat)) : Str :=
  rules.flatMap fun rule => ruleText rule ++ '.' :: "\n\n"

theorem serializeTurtleAcl_eq (doc : AclDocument) :
    serializeTurtleAcl doc = turtleHeader ++ rulesText (doc.graph.getD []).zipIdx := by
  rw [serializeTurtleAcl, rulesText]
  cases doc.graph with
  | none => simp
  | some graph =>
      simp only [Option.getD_some]
      refine congrArg (turtleHeader ++ ·) (List.flatMap_congr ?_)
      intro rule _
      rw [emitRule_eq, ruleText]

section Rules

variable {rules : List (AclAuthorization × Nat)}
  (h : ∀ rule ∈ rules, AuthorizationReadable rule.1)
include h

theorem not_mem_rulesText : '\r' ∉ rulesText rules := by
  rw [rulesText, List.mem_flatMap]
  rintro ⟨rule, hrule, hmem⟩
  rcases List.mem_append.mp hmem with hmem | hmem
  · exact (quiet_ruleText (h rule hrule)).carriage hmem
  · exact absurd hmem (by decide)

theorem passes_comment_rulesText : commentSplitter.Passes false (rulesText rules) := by
  have hneutral : commentSplitter.Neutral false (rulesText rules) := by
    refine Splitter.Neutral.flatMap ?_
    intro rule hrule
    exact (quiet_ruleText (h rule hrule)).comment.append (by decide)
  exact hneutral.1

/-- Each rule begins on a line of its own, with its subject. -/
theorem passes_directive_rulesText : directiveSplitter.Passes true (rulesText rules) := by
  have hneutral : directiveSplitter.Neutral true (rulesText rules) := by
    refine Splitter.Neutral.flatMap ?_
    intro rule hrule
    obtain ⟨hpass, hrun⟩ := (quiet_ruleText (h rule hrule)).directive
    have hopen : ∃ t, ruleText rule = '<' :: t := by
      delta ruleText ruleSubject
      exact ⟨_, rfl⟩
    obtain ⟨t, ht⟩ := hopen
    rw [ht] at hpass hrun ⊢
    have hend : directiveSplitter.Passes false ('.' :: "\n\n") ∧
        directiveSplitter.run false ('.' :: "\n\n") = true := by
      decide
    constructor
    · rw [List.cons_append, Splitter.passes_cons, Splitter.passes_append]
      refine ⟨by decide, hpass.2, ?_⟩
      change directiveSplitter.Passes (directiveSplitter.run false ('<' :: t)) _
      rw [hrun]
      exact hend.1
    · rw [Splitter.run_append]
      change directiveSplitter.run (directiveSplitter.run false ('<' :: t)) _ = _
      rw [hrun]
      exact hend.2
  exact hneutral.1

omit h in
theorem getLast?_rulesText : ∀ c ∈ (rulesText rules).getLast?, c = '\n' := by
  rcases List.eq_nil_or_concat' rules with rfl | ⟨p, rule, rfl⟩
  · simp [rulesText]
  · simp [rulesText, List.getLast?_append]

/-- The statements of the rules. -/
theorem map_trim_pieces_rulesText :
    (statementSplitter.pieces (0, false) [] ("\n" ++ rulesText rules)).map trim =
      rules.map (fun rule => trim (ruleText rule)) ++ [[]] := by
  have hblank : statementSplitter.Neutral (0, false) "\n" := by decide
  rw [Splitter.pieces_append_of_passes _ hblank.1, hblank.2, List.nil_append]
  exact Splitter.map_trim_pieces_ended (by decide) (by decide) (by decide) (by decide)
    (fun rule hrule => (quiet_ruleText (h rule hrule)).statement) (by decide)

end Rules

/-- The statements that are read are the trimmed pieces. -/
theorem filterMap_splitTurtleStatements (prefixes : Prefixes) (t : Str) :
    ((splitTurtleStatements t).filterMap fun stmt =>
      if (trim stmt).isEmpty then none else parseTurtleAuthorization prefixes stmt) =
      ((statementSplitter.pieces (0, false) [] t).map trim).filterMap
        (parseTurtleAuthorization prefixes) := by
  have hparse : ∀ stmt, (if (trim stmt).isEmpty then none
      else parseTurtleAuthorization prefixes stmt) =
        parseTurtleAuthorization prefixes (trim stmt) := by
    intro stmt
    rw [parseTurtleAuthorization, parseTurtleAuthorization, trim_trim]
    split <;> rfl
  simp only [hparse]
  rw [List.filterMap_map, splitTurtleStatements]
  rcases pieces_eq_splitNonblankTail statementSplitter t with heq | ⟨b, hb, heq⟩
  · rw [heq]
    rfl
  · rw [heq, List.filterMap_append]
    have hnone : parseTurtleAuthorization prefixes (trim b) = none := by
      rw [hb]
      rfl
    simp [hnone]

section Document

variable {doc : AclDocument} (h : DocReadable doc)
include h

theorem readable_of_mem_zipIdx :
    ∀ rule ∈ (doc.graph.getD []).zipIdx, AuthorizationReadable rule.1 := by
  intro rule hrule
  exact h _ (List.fst_mem_of_mem_zipIdx hrule)

theorem turtleStatements_serializeTurtleAcl :
    turtleStatements (serializeTurtleAcl doc) =
      (headerPrefixes, splitTurtleStatements ("\n" ++ rulesText (doc.graph.getD []).zipIdx)) := by
  have hrules := readable_of_mem_zipIdx h
  have hheader : '\r' ∉ turtleHeader ∧ turtleHeader.getLast? = some '\n' ∧
      commentSplitter.Neutral false turtleHeader := by
    have htext : turtleHeader = _ := congrArg₂ (· ++ ·) String.toList_ofList String.toList_ofList
    rw [htext]
    decide +kernel
  obtain ⟨hcarriage, hlast, hcomment⟩ := hheader
  have hends : ∀ c ∈ (turtleHeader ++ rulesText (doc.graph.getD []).zipIdx).getLast?, c = '\n' := by
    intro c hc
    rw [List.getLast?_append, Option.mem_def, Option.or_eq_some_iff] at hc
    rcases hc with hc | ⟨-, hc⟩
    · exact getLast?_rulesText c hc
    · rw [hlast] at hc
      exact (Option.some.inj hc).symm
  have hstrip : stripTurtleComments (turtleHeader ++ rulesText (doc.graph.getD []).zipIdx) =
      turtleHeader ++ rulesText (doc.graph.getD []).zipIdx := by
    refine stripTurtleComments_eq_self ?_ hends ?_
    · rw [List.mem_append, not_or]
      exact ⟨hcarriage, not_mem_rulesText hrules⟩
    · rw [Splitter.passes_append, hcomment.2]
      exact ⟨hcomment.1, passes_comment_rulesText hrules⟩
  rw [turtleStatements, serializeTurtleAcl_eq, hstrip, readPrefixes_header
    (not_mem_rulesText hrules) getLast?_rulesText (passes_directive_rulesText hrules)]

/-- The statements of a readable document become its rules. -/
theorem filterMap_statements :
    ((splitTurtleStatements ("\n" ++ rulesText (doc.graph.getD []).zipIdx)).filterMap fun stmt =>
        if (trim stmt).isEmpty then none else parseTurtleAuthorization headerPrefixes stmt) =
      (doc.graph.getD []).map reread := by
  have hrules := readable_of_mem_zipIdx h
  have hnil : [([] : Str)].filterMap (parseTurtleAuthorization headerPrefixes) = [] := rfl
  rw [filterMap_splitTurtleStatements, map_trim_pieces_rulesText hrules, List.filterMap_append,
    hnil, List.append_nil, List.filterMap_map]
  calc (doc.graph.getD []).zipIdx.filterMap (parseTurtleAuthorization headerPrefixes ∘
          fun rule => trim (ruleText rule))
      = (doc.graph.getD []).zipIdx.filterMap fun rule => some (reread rule.1) := by
        refine List.filterMap_congr ?_
        intro rule hrule
        rw [Function.comp_apply, parseTurtleAuthorization_ruleText (hrules rule hrule)]
    _ = ((doc.graph.getD []).zipIdx.map Prod.fst).map reread := by
        rw [List.map_map, ← List.filterMap_eq_map]
        rfl
    _ = (doc.graph.getD []).map reread := by rw [List.zipIdx_map_fst]

/-- A readable document is parsed as the rules it was written from, each with its
ids in long form. -/
theorem parseTurtleAclWithLimit_serializeTurtleAcl {maxBytes : Nat}
    (hsize : byteLen (serializeTurtleAcl doc) ≤ maxBytes) :
    ∃ doc', parseTurtleAclWithLimit (serializeTurtleAcl doc) maxBytes = .ok doc' ∧
      doc'.graph.getD [] = (doc.graph.getD []).map reread := by
  rw [parseTurtleAclWithLimit, if_neg (by omega), turtleStatements_serializeTurtleAcl h]
  refine ⟨_, rfl, ?_⟩
  rw [filterMap_statements h]
  cases (doc.graph.getD []).map reread with
  | nil => rfl
  | cons auth graph => rfl

end Document

/-! ## Decisions -/

/-- The dispatchers of the server. -/
def IsDispatcher (dispatcher : ConditionDispatcher) : Prop :=
  dispatcher = emptyDispatcher ∨ ∃ registry : ConditionRegistry, dispatcher = registry.dispatch

def SameDecisions (doc doc' : AclDocument) : Prop :=
  ∀ (feature : OriginFeature) (ctx : RequestContext) (resourcePath : Str)
    (requiredMode : AccessMode) (requestOrigin : Option Origin) (groups : GroupMembership)
    (dispatcher : ConditionDispatcher), IsDispatcher dispatcher →
      evaluateAccessCtx feature (some doc') ctx resourcePath requiredMode requestOrigin groups
          dispatcher =
        evaluateAccessCtx feature (some doc) ctx resourcePath requiredMode requestOrigin groups
          dispatcher

/-- Where the byte limit admits its text, a document is decided as it was before
it was written and read back. -/
def RoundTrips (doc : AclDocument) : Prop :=
  ∀ maxBytes, byteLen (serializeTurtleAcl doc) ≤ maxBytes →
    ∃ doc', parseTurtleAclWithLimit (serializeTurtleAcl doc) maxBytes = .ok doc' ∧
      SameDecisions doc doc'

theorem getIds_rereadIds (ids : Option IdOrIds) :
    getIds (rereadIds ids) = (getIds ids).map (expandCurieOrIri headerPrefixes) :=
  getIds_strsToIds _

theorem getIds_rereadIds_of_unabbreviated {ids : Option IdOrIds} (h : Unabbreviated ids) :
    getIds (rereadIds ids) = getIds ids := by
  rw [getIds_rereadIds]
  exact (List.map_congr_left h).trans (List.map_id _)

/-! ## CURIEs -/

/-- Two texts that differ among their first `n` characters. -/
def Differ (n : Nat) (p q : Str) : Prop := n ≤ p.length ∧ n ≤ q.length ∧ p.take n ≠ q.take n

instance (n : Nat) (p q : Str) : Decidable (Differ n p q) :=
  inferInstanceAs (Decidable (_ ∧ _ ∧ _ ≠ _))

theorem beq_append_eq_false {n : Nat} {p q : Str} (h : Differ n p q) (a b : Str) :
    (p ++ a == q ++ b) = false := by
  obtain ⟨hp, hq, hne⟩ := h
  rw [beq_eq_false_iff_ne]
  intro heq
  have htake := congrArg (List.take n) heq
  rw [List.take_append_of_le_length hp, List.take_append_of_le_length hq] at htake
  exact hne htake

theorem beq_append_left (p a b : Str) : (p ++ a == p ++ b) = (a == b) := by
  rw [Bool.eq_iff_iff, beq_iff_eq, beq_iff_eq]
  exact List.append_right_inj p

/-- An id is expanded only when it begins with one of the three prefixes. -/
theorem expandCurieOrIri_cases {r : Str} (h : ∀ c ∈ r, isWhitespace c = false) :
    expandCurieOrIri headerPrefixes r = r ∨
      ∃ rest, (r = "acl:" ++ rest ∧ expandCurieOrIri headerPrefixes r =
          "http://www.w3.org/ns/auth/acl#" ++ rest) ∨
        (r = "foaf:" ++ rest ∧ expandCurieOrIri headerPrefixes r =
          "http://xmlns.com/foaf/0.1/" ++ rest) ∨
        (r = "vcard:" ++ rest ∧ expandCurieOrIri headerPrefixes r =
          "http://www.w3.org/2006/vcard/ns#" ++ rest) := by
  have htrim : trim r = r := by
    refine trim_eq_self ?_ ?_
    · exact fun c hc => h c (List.mem_of_mem_head? hc)
    · exact fun c hc => h c (List.mem_of_getLast? hc)
  rw [expandCurieOrIri, htrim]
  split
  · rename_i ha
    exact Or.inl (beq_iff_eq.mp ha).symm
  · split
    · rename_i p rest hsplit
      obtain ⟨rfl, -⟩ := eq_append_of_splitOnce hsplit
      split
      · exact Or.inl rfl
      · split
        · rename_i base hlookup
          refine Or.inr ⟨rest, ?_⟩
          obtain ⟨l, l', hmem, -⟩ := List.lookup_eq_some_iff.mp hlookup
          have hpair : (p, base) ∈ headerPrefixes := by
            rw [hmem]
            simp
          simp only [headerPrefixes, defaultPrefixes, List.mem_cons, List.not_mem_nil, or_false,
            Prod.mk.injEq] at hpair
          rcases hpair with ⟨rfl, rfl⟩ | ⟨rfl, rfl⟩ | ⟨rfl, rfl⟩ | ⟨rfl, rfl⟩ | ⟨rfl, rfl⟩
          · exact Or.inr (Or.inl ⟨rfl, rfl⟩)
          · exact Or.inl ⟨rfl, rfl⟩
          · exact Or.inr (Or.inr ⟨rfl, rfl⟩)
          · exact Or.inr (Or.inl ⟨rfl, rfl⟩)
          · exact Or.inl ⟨rfl, rfl⟩
        · exact Or.inl rfl
    · exact Or.inl rfl

theorem isAclTerm_short (name name' : Str) :
    isAclTerm name ("acl:" ++ name') = (name' == name) := by
  rw [isAclTerm, beq_append_eq_false (n := 1) (by decide), Bool.false_or, beq_append_left]

/-- A term of another vocabulary is no ACL term. -/
theorem isAclTerm_eq_false {p : Str} {n : Nat} (hlong : Differ n p "http://www.w3.org/ns/auth/acl#")
    (hshort : Differ 1 p "acl:") (name rest : Str) : isAclTerm name (p ++ rest) = false := by
  rw [isAclTerm, beq_append_eq_false hlong, beq_append_eq_false hshort, Bool.or_false]

/-- The ACL terms are the same in both spellings. -/
theorem isAclTerm_expand {r : Str} (h : ∀ c ∈ r, isWhitespace c = false) (name : Str) :
    isAclTerm name (expandCurieOrIri headerPrefixes r) = isAclTerm name r := by
  rcases expandCurieOrIri_cases h with heq | ⟨rest, ⟨rfl, heq⟩ | ⟨rfl, heq⟩ | ⟨rfl, heq⟩⟩
  · rw [heq]
  · rw [heq, isAclTerm_vocabulary, isAclTerm_short]
  · rw [heq, isAclTerm_eq_false (n := 8) (by decide) (by decide),
      isAclTerm_eq_false (n := 1) (by decide) (by decide)]
  · rw [heq, isAclTerm_eq_false (n := 20) (by decide) (by decide),
      isAclTerm_eq_false (n := 1) (by decide) (by decide)]

theorem mapMode_eq (r : Str) :
    mapMode r =
      if isAclTerm "Read" r then [.read]
      else if isAclTerm "Write" r then [.write, .append]
      else if isAclTerm "Append" r then [.append]
      else if isAclTerm "Control" r then [.control]
      else [] := by
  have hshort : ("acl:Read" : Str) = "acl:" ++ "Read" ∧ ("acl:Write" : Str) = "acl:" ++ "Write" ∧
      ("acl:Append" : Str) = "acl:" ++ "Append" ∧ ("acl:Control" : Str) = "acl:" ++ "Control" := by
    decide
  have hlong : ("http://www.w3.org/ns/auth/acl#Read" : Str) =
        "http://www.w3.org/ns/auth/acl#" ++ "Read" ∧
      ("http://www.w3.org/ns/auth/acl#Write" : Str) =
        "http://www.w3.org/ns/auth/acl#" ++ "Write" ∧
      ("http://www.w3.org/ns/auth/acl#Append" : Str) =
        "http://www.w3.org/ns/auth/acl#" ++ "Append" ∧
      ("http://www.w3.org/ns/auth/acl#Control" : Str) =
        "http://www.w3.org/ns/auth/acl#" ++ "Control" := by
    decide
  simp only [mapMode, isAclTerm, hshort, hlong, Bool.or_comm]

theorem isAuthenticatedClass_eq (r : Str) :
    isAuthenticatedClass r = isAclTerm "AuthenticatedAgent" r := by
  have hshort : ("acl:AuthenticatedAgent" : Str) = "acl:" ++ "AuthenticatedAgent" := by decide
  have hlong : ("http://www.w3.org/ns/auth/acl#AuthenticatedAgent" : Str) =
      "http://www.w3.org/ns/auth/acl#" ++ "AuthenticatedAgent" := by decide
  simp only [isAuthenticatedClass, isAclTerm, hshort, hlong, Bool.or_comm]

/-- The public class is the same in both spellings. -/
theorem isPublicClass_expand {r : Str} (h : ∀ c ∈ r, isWhitespace c = false) :
    isPublicClass (expandCurieOrIri headerPrefixes r) = isPublicClass r := by
  have hshort : ("foaf:Agent" : Str) = "foaf:" ++ "Agent" := by decide
  have hlong : ("http://xmlns.com/foaf/0.1/Agent" : Str) =
      "http://xmlns.com/foaf/0.1/" ++ "Agent" := by decide
  simp only [isPublicClass, hshort, hlong]
  rcases expandCurieOrIri_cases h with heq | ⟨rest, ⟨rfl, heq⟩ | ⟨rfl, heq⟩ | ⟨rfl, heq⟩⟩
  · rw [heq]
  · rw [heq, beq_append_eq_false (n := 1) (by decide), beq_append_eq_false (n := 8) (by decide),
      beq_append_eq_false (n := 1) (by decide), beq_append_eq_false (n := 1) (by decide)]
  · rw [heq, beq_append_eq_false (n := 1) (by decide), beq_append_left, beq_append_left,
      beq_append_eq_false (n := 1) (by decide), Bool.false_or, Bool.or_false]
  · rw [heq, beq_append_eq_false (n := 1) (by decide), beq_append_eq_false (n := 8) (by decide),
      beq_append_eq_false (n := 1) (by decide), beq_append_eq_false (n := 1) (by decide)]

/-! ## The same decisions -/

theorem isWhitespace_of_idReadable {r : Str} (h : IdReadable r) :
    ∀ c ∈ r, isWhitespace c = false := by
  rw [IdReadable] at h
  by_cases hhttp : startsWith "http" r = true
  · rw [if_pos hhttp] at h
    exact fun c hc => (isIriChar_spec (h c hc)).1
  · rw [if_neg hhttp] at h
    exact fun c hc => (isBareChar_spec (h c hc)).1

/-- What does not tell the two spellings of an id apart does not tell a field from
the field that is read back. -/
theorem any_rereadIds {ids : Option IdOrIds} (h : ListReadable ids) {f : Str → Bool}
    (hf : ∀ r, (∀ c ∈ r, isWhitespace c = false) →
      f (expandCurieOrIri headerPrefixes r) = f r) :
    (getIds (rereadIds ids)).any f = (getIds ids).any f := by
  rw [getIds_rereadIds, List.any_map, Bool.eq_iff_iff, List.any_eq_true, List.any_eq_true]
  refine exists_congr fun r => and_congr_right fun hr => ?_
  rw [Function.comp_apply, hf r (isWhitespace_of_idReadable (h.each r hr))]

theorem evaluateSubject_nil (subject : Option Str) (groups : GroupMembership) :
    evaluateSubject [] [] [] subject groups = .denied := by
  cases subject with
  | none => rfl
  | some x => rfl

theorem evaluateSubject_rereadIds {classes ids groupIds : Option IdOrIds}
    (hclass : ListReadable classes) (hids : Unabbreviated ids) (hgroup : Unabbreviated groupIds)
    (subject : Option Str) (groups : GroupMembership) :
    evaluateSubject (getIds (rereadIds classes)) (getIds (rereadIds ids))
        (getIds (rereadIds groupIds)) subject groups =
      evaluateSubject (getIds classes) (getIds ids) (getIds groupIds) subject groups := by
  have hpublic := any_rereadIds hclass fun r hr => isPublicClass_expand hr
  rw [getIds_rereadIds_of_unabbreviated hids, getIds_rereadIds_of_unabbreviated hgroup]
  simp only [evaluateSubject, hpublic]

/-- A condition without ids is satisfied by no request, whatever its type. -/
theorem dispatch_toCondition_empty (registry : ConditionRegistry) (t : Str) (ctx : RequestContext)
    (groups : GroupMembership) :
    (registry.dispatch (ConditionFields.empty.toCondition t) ctx groups == .satisfied) = false := by
  rw [ConditionFields.toCondition]
  split
  · cases hclient : registry.clientEval with
    | none => simp [ConditionRegistry.dispatch, hclient]
    | some e =>
        simp only [ConditionRegistry.dispatch, hclient]
        exact congrArg (· == ConditionOutcome.satisfied) (evaluateSubject_nil ctx.clientId groups)
  · split
    · cases hissuer : registry.issuerEval with
      | none => simp [ConditionRegistry.dispatch, hissuer]
      | some e =>
          simp only [ConditionRegistry.dispatch, hissuer]
          exact congrArg (· == ConditionOutcome.satisfied) (evaluateSubject_nil ctx.issuer groups)
    · rfl

/-- A condition that is read back is satisfied where it was. -/
theorem dispatch_rereadCondition {cond : Condition} (h : ConditionReadable cond)
    {dispatcher : ConditionDispatcher} (hdispatcher : IsDispatcher dispatcher)
    (ctx : RequestContext) (groups : GroupMembership) :
    (dispatcher (rereadCondition cond) ctx groups == .satisfied) =
      (dispatcher cond ctx groups == .satisfied) := by
  rcases hdispatcher with rfl | ⟨registry, rfl⟩
  · rfl
  · cases cond with
    | client body =>
        obtain ⟨-, -, hlists, hnames⟩ := h
        simp only [bodyFields, bodyNames, List.forall_mem_cons] at hlists hnames
        have heval : ∀ e : ClientConditionEvaluator,
            e.evaluate ⟨rereadIds body.client, rereadIds body.clientGroup,
              rereadIds body.clientClass⟩ ctx groups = e.evaluate body ctx groups := by
          intro e
          exact evaluateSubject_rereadIds hlists.2.2.1.1 hnames.1 hnames.2.1 _ _
        simp only [rereadCondition, ConditionRegistry.dispatch, heval]
    | issuer body =>
        obtain ⟨-, -, hlists, hnames⟩ := h
        simp only [bodyFields, bodyNames, List.forall_mem_cons] at hlists hnames
        have heval : ∀ e : IssuerConditionEvaluator,
            e.evaluate ⟨rereadIds body.issuer, rereadIds body.issuerGroup,
              rereadIds body.issuerClass⟩ ctx groups = e.evaluate body ctx groups := by
          intro e
          exact evaluateSubject_rereadIds hlists.2.2.1.1 hnames.1 hnames.2.1 _ _
        simp only [rereadCondition, ConditionRegistry.dispatch, heval]
    | unknown iri => exact dispatch_toCondition_empty registry _ ctx groups

theorem authGrants_reread {auth : AclAuthorization} (h : AuthorizationReadable auth)
    {dispatcher : ConditionDispatcher} (hdispatcher : IsDispatcher dispatcher)
    (ctx : RequestContext) (resourcePath : Str) (requiredMode : AccessMode)
    (groups : GroupMembership) :
    authGrants (reread auth) ctx resourcePath requiredMode groups dispatcher =
      authGrants auth ctx resourcePath requiredMode groups dispatcher := by
  have hlists := h.lists
  have hnames := h.names
  simp only [fields, List.forall_mem_cons] at hlists hnames
  obtain ⟨-, hclass, -, -, -, -, hmode, -⟩ := hlists
  obtain ⟨hagent, hgroup, -, haccess, hdefault, -⟩ := hnames
  have hmodes : getModes (reread auth) = getModes auth := by
    change (getIds (rereadIds auth.mode)).flatMap mapMode = (getIds auth.mode).flatMap mapMode
    rw [getIds_rereadIds, List.flatMap_map]
    refine List.flatMap_congr ?_
    intro r hr
    have hwhite := isWhitespace_of_idReadable (hmode.each r hr)
    simp only [mapMode_eq, isAclTerm_expand hwhite]
  have hmatches : agentMatchesWithGroups (reread auth) ctx.webId groups =
      agentMatchesWithGroups auth ctx.webId groups := by
    have hclasses : ((getIds (rereadIds auth.agentClass)).any fun cls =>
        isPublicClass cls || (ctx.webId.isSome && isAuthenticatedClass cls)) =
          (getIds auth.agentClass).any fun cls =>
            isPublicClass cls || (ctx.webId.isSome && isAuthenticatedClass cls) := by
      refine any_rereadIds hclass ?_
      intro r hr
      rw [isPublicClass_expand hr, isAuthenticatedClass_eq, isAuthenticatedClass_eq,
        isAclTerm_expand hr]
    simp only [agentMatchesWithGroups, reread, getIds_rereadIds_of_unabbreviated hagent,
      getIds_rereadIds_of_unabbreviated hgroup, hclasses]
  have hpath : pathOk (reread auth) resourcePath = pathOk auth resourcePath := by
    rw [pathOk, pathOk]
    change ((getIds (rereadIds auth.accessTo)).any _ || (getIds (rereadIds auth.default)).any _) = _
    rw [getIds_rereadIds_of_unabbreviated haccess, getIds_rereadIds_of_unabbreviated hdefault]
  have hconditions : ((reread auth).conditions.all fun cond =>
      dispatcher cond ctx groups == .satisfied) =
        auth.conditions.all fun cond => dispatcher cond ctx groups == .satisfied := by
    have hreread : (reread auth).conditions = auth.conditions.map rereadCondition := by
      rw [AclAuthorization.conditions, reread]
      cases auth.conditions with
      | nil => rfl
      | cons cond conds => rfl
    rw [hreread, List.all_map, Bool.eq_iff_iff, List.all_eq_true, List.all_eq_true]
    refine forall₂_congr fun cond hcond => ?_
    rw [Function.comp_apply, dispatch_rereadCondition (h.conditions cond hcond) hdispatcher]
  rw [authGrants, authGrants, hmodes, hmatches, hpath, hconditions]

/-- The decision of a document is that of its rules and of their origin patterns. -/
theorem evaluateAccessCtx_eq (feature : OriginFeature) (doc : AclDocument) (ctx : RequestContext)
    (resourcePath : Str) (requiredMode : AccessMode) (requestOrigin : Option Origin)
    (groups : GroupMembership) (dispatcher : ConditionDispatcher) :
    evaluateAccessCtx feature (some doc) ctx resourcePath requiredMode requestOrigin groups
        dispatcher =
      (((doc.graph.getD []).any fun auth =>
          authGrants auth ctx resourcePath requiredMode groups dispatcher) &&
        (requiredMode == .control || !feature.enabled ||
          decide (checkOrigin feature.urlParse doc requestOrigin = .noPolicySet ∨
            checkOrigin feature.urlParse doc requestOrigin = .permitted))) := by
  rw [evaluateAccessCtx, evaluateAccessCtxInner]
  cases hgraph : doc.graph with
  | none => rfl
  | some graph =>
      simp only [Option.getD_some]
      cases graph.any fun auth =>
        authGrants auth ctx resourcePath requiredMode groups dispatcher with
      | false => rfl
      | true =>
          cases requiredMode == .control with
          | true => rfl
          | false =>
              cases feature.enabled with
              | false => rfl
              | true => cases checkOrigin feature.urlParse doc requestOrigin <;> rfl

theorem checkOrigin_eq (urlParse : UrlParse) (doc : AclDocument) (requestOrigin : Option Origin) :
    checkOrigin urlParse doc requestOrigin =
      checkOrigin urlParse ⟨some (doc.graph.getD [])⟩ requestOrigin := by
  rw [checkOrigin]
  cases doc.graph with
  | none => rfl
  | some graph => rfl

theorem checkOrigin_map_reread {graph : List AclAuthorization}
    (h : ∀ auth ∈ graph, AuthorizationReadable auth) (urlParse : UrlParse)
    (requestOrigin : Option Origin) :
    checkOrigin urlParse ⟨some (graph.map reread)⟩ requestOrigin =
      checkOrigin urlParse ⟨some graph⟩ requestOrigin := by
  have hpatterns : (graph.map reread).flatMap (extractOriginPatterns urlParse) =
      graph.flatMap (extractOriginPatterns urlParse) := by
    rw [List.flatMap_map]
    refine List.flatMap_congr ?_
    intro auth hauth
    have hnames := (h auth hauth).names
    simp only [List.forall_mem_cons] at hnames
    rw [extractOriginPatterns, extractOriginPatterns, ← getIds_rereadIds_of_unabbreviated
      hnames.2.2.1]
    rfl
  simp only [checkOrigin, hpatterns]

theorem roundTrips_of_docReadable {doc : AclDocument} (h : DocReadable doc) : RoundTrips doc := by
  intro maxBytes hsize
  obtain ⟨doc', hparse, hgraph⟩ := parseTurtleAclWithLimit_serializeTurtleAcl h hsize
  refine ⟨doc', hparse, ?_⟩
  intro feature ctx resourcePath requiredMode requestOrigin groups dispatcher hdispatcher
  have hgrants : ((doc.graph.getD []).map reread).any (fun auth =>
      authGrants auth ctx resourcePath requiredMode groups dispatcher) =
        (doc.graph.getD []).any fun auth =>
          authGrants auth ctx resourcePath requiredMode groups dispatcher := by
    rw [List.any_map, Bool.eq_iff_iff, List.any_eq_true, List.any_eq_true]
    refine exists_congr fun auth => and_congr_right fun hauth => ?_
    rw [Function.comp_apply, authGrants_reread (h auth hauth) hdispatcher]
  rw [evaluateAccessCtx_eq, evaluateAccessCtx_eq, checkOrigin_eq _ doc', checkOrigin_eq _ doc,
    hgraph, hgrants, checkOrigin_map_reread h]

/-! ## A document that is kept, and one that is not -/

/-- Two rules whose ids are a WebID, a `did:` URI, a container with a fragment in
an IRI, a client and an unknown condition. -/
def keptDocument : AclDocument :=
  ⟨some [
    { AclAuthorization.empty with
      agent := some (.multiple [⟨"https://alice.example/card#me"⟩, ⟨"did:nostr:alice"⟩])
      accessTo := some (.single ⟨"/notes/"⟩)
      default := some (.single ⟨"/notes/"⟩)
      mode := some (.multiple [⟨"acl:Read"⟩, ⟨"http://www.w3.org/ns/auth/acl#Write"⟩]) },
    { AclAuthorization.empty with
      agentClass := some (.single ⟨"foaf:Agent"⟩)
      accessTo := some (.single ⟨"/public"⟩)
      mode := some (.single ⟨"acl:Read"⟩)
      condition := some [
        .client ⟨some (.single ⟨"https://app.example"⟩), none, none⟩, .unknown "ex:Quota"] }]⟩

theorem roundTrips_keptDocument : RoundTrips keptDocument :=
  roundTrips_of_docReadable (by decide +kernel)

def publicRead (path : Str) : AclDocument :=
  ⟨some [{ AclAuthorization.empty with
    agentClass := some (.single ⟨"foaf:Agent"⟩)
    accessTo := some (.single ⟨path⟩)
    mode := some (.single ⟨"acl:Read"⟩) }]⟩

/-- The dot of a file name cuts the rule before its mode. -/
theorem not_roundTrips_publicRead : ¬ RoundTrips (publicRead "/file.txt") := by
  intro h
  obtain ⟨doc', hparse, hsame⟩ := h _ le_rfl
  have hdoc : parseTurtleAclWithLimit (serializeTurtleAcl (publicRead "/file.txt"))
      (byteLen (serializeTurtleAcl (publicRead "/file.txt"))) =
        .ok ⟨some [{ AclAuthorization.empty with
          agentClass := some (.single ⟨"http://xmlns.com/foaf/0.1/Agent"⟩)
          accessTo := some (.single ⟨"/file"⟩) }]⟩ := by
    decide +kernel
  rw [hdoc] at hparse
  cases hparse
  have heq := hsame ⟨false, fun _ => none⟩ ⟨none, none, none⟩ "/file.txt" .read none
    noGroupMembership emptyDispatcher (Or.inl rfl)
  exact absurd heq (by decide +kernel)

end Wac

end SolidPod
