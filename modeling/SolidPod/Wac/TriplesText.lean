import SolidPod.Wac.Triples

/-!
# Statements written as text

Statements of plain terms are written with every term between `<` and `>`, every
pair ended by a semicolon and every statement by a dot. The parser reads such a
text as the statements that it was written from, so what can be written of a text
another way can be written as a text.
-/

namespace SolidPod

namespace Wac

open Foundation Str TripleSets

/-! ## Plain statements -/

/-- A character of a term that none of the parser's cutters acts on. -/
def isPlainChar (c : Char) : Bool := isIriChar c && !(c = ';' || c = '[' || c = ']')

/-- A term that is read as it is written, without directives. -/
structure PlainTerm (t : Str) : Prop where
  chars : ∀ c ∈ t, isPlainChar c = true
  expanded : expandCurieOrIri defaultPrefixes t = t

structure PlainBodyPair (pair : Pair Str Str) : Prop where
  predicate : PlainTerm pair.predicate
  objects : ∀ o ∈ pair.objects, PlainTerm o

def PlainObject : TurtleObject → Prop
  | .term iri => PlainTerm iri
  | .body pairs => ∀ pair ∈ pairs, PlainBodyPair pair

/-- Only a condition is described by a body. -/
structure PlainPair (pair : TurtlePair) : Prop where
  predicate : PlainTerm pair.predicate
  objects : ∀ o ∈ pair.objects, PlainObject o
  terms : isAclTerm "condition" pair.predicate = false →
    ∀ o ∈ pair.objects, ∃ iri, o = .term iri

structure PlainStatement (st : TurtleStatement) : Prop where
  subject : PlainTerm st.subject
  pairs : ∀ pair ∈ st.pairs, PlainPair pair

instance (t : Str) : Decidable (PlainTerm t) :=
  decidable_of_iff ((∀ c ∈ t, isPlainChar c = true) ∧ expandCurieOrIri defaultPrefixes t = t)
    ⟨fun ⟨hc, he⟩ => ⟨hc, he⟩, fun ⟨hc, he⟩ => ⟨hc, he⟩⟩

theorem plainPair_of_terms {p : Str} {l : List Str} (hp : PlainTerm p)
    (h : ∀ t ∈ l, PlainTerm t) : PlainPair ⟨p, l.map .term⟩ := by
  refine ⟨hp, fun o ho => ?_, fun _ o ho => ?_⟩
  · obtain ⟨t, ht, rfl⟩ := List.mem_map.mp ho
    exact h t ht
  · obtain ⟨t, -, rfl⟩ := List.mem_map.mp ho
    exact ⟨t, rfl⟩

/-! ## Writing -/

def termText (t : Str) : Str := '<' :: t ++ ['>']

/-- A predicate and its objects, each already written. -/
def pairTextOf (predicate : Str) (objects : List Str) : Str :=
  " " ++ termText predicate ++ " " ++ join ", " objects

def turtleBodyText (pairs : List (Pair Str Str)) : Str :=
  pairs.flatMap fun pair => pairTextOf pair.predicate (pair.objects.map termText) ++ ';' :: " "

def turtleObjectText : TurtleObject → Str
  | .term iri => termText iri
  | .body pairs => '[' :: turtleBodyText pairs ++ "]"

def turtlePairText (pair : TurtlePair) : Str :=
  pairTextOf pair.predicate (pair.objects.map turtleObjectText)

def statementText (st : TurtleStatement) : Str :=
  termText st.subject ++ st.pairs.flatMap fun pair => turtlePairText pair ++ ';' :: " "

def turtleText (S : List TurtleStatement) : Str :=
  S.flatMap fun st => statementText st ++ '.' :: "\n"

/-! ## No cut inside a term -/

theorem isPlainChar_spec {c : Char} (h : isPlainChar c = true) :
    isIriChar c = true ∧ c ≠ ';' ∧ c ≠ '[' ∧ c ≠ ']' := by
  simpa [isPlainChar, and_assoc] using h

theorem quiet_termText {t : Str} (h : PlainTerm t) : Quiet (termText t) :=
  Quiet.insert (a := ['<']) (b := ['>']) (by decide)
    (fun c hc => (isPlainChar_spec (h.chars c hc)).1) rfl rfl rfl

theorem whole_termText {t : Str} (h : PlainTerm t) : Whole (termText t) := by
  refine ⟨quiet_termText h, Splitter.Neutral.insert (a := ['<']) (b := ['>']) (by decide) ?_⟩
  refine Splitter.neutral_of_forall ?_
  intro c hc
  obtain ⟨hiri, hsemi, hopen, hclose⟩ := isPlainChar_spec (h.chars c hc)
  obtain ⟨-, -, -, hquote⟩ := isIriChar_spec hiri
  change predicateSplitter.cuts (0, false) c = false ∧
    predicateSplitter.step (0, false) c = (0, false)
  simp [predicateSplitter, hsemi, hopen, hclose, hquote]

theorem balanced_termText {t : Str} (h : PlainTerm t) : Balanced (termText t) := by
  have hnesting : ∀ s : Str, (∀ c ∈ s, isPlainChar c = true) → Balanced s := by
    intro s hs
    induction s with
    | nil => rfl
    | cons c s ih =>
        rw [List.forall_mem_cons] at hs
        obtain ⟨hiri, -, hopen, hclose⟩ := isPlainChar_spec hs.1
        obtain ⟨-, -, -, hquote⟩ := isIriChar_spec hiri
        rw [Balanced, nesting, if_neg hquote, if_neg hopen, if_neg hclose]
        exact ih hs.2
  exact (Balanced.append (a := ['<']) (by decide) (hnesting t h.chars)).append (by decide)

theorem whole_join {sep : Str} {l : List Str} (hsep : Whole sep) (h : ∀ a ∈ l, Whole a) :
    Whole (join sep l) := by
  cases l with
  | nil => exact (by decide : Whole [])
  | cons a l =>
      rw [List.forall_mem_cons] at h
      rw [join_cons]
      refine h.1.append ⟨Quiet.flatMap ?_, Splitter.Neutral.flatMap ?_⟩
      · exact fun b hb => hsep.quiet.append (h.2 b hb).quiet
      · exact fun b hb => hsep.predicate.append (h.2 b hb).predicate

theorem balanced_join {sep : Str} {l : List Str} (hsep : Balanced sep) (h : ∀ a ∈ l, Balanced a) :
    Balanced (join sep l) := by
  cases l with
  | nil => rfl
  | cons a l =>
      rw [List.forall_mem_cons] at h
      rw [join_cons]
      exact h.1.append (Balanced.flatMap fun b hb => hsep.append (h.2 b hb))

theorem whole_pairTextOf {p : Str} {objects : List Str} (hp : PlainTerm p)
    (h : ∀ o ∈ objects, Whole o) : Whole (pairTextOf p objects) :=
  (((Whole.append (a := " ") (by decide) (whole_termText hp)).append (b := " ") (by decide)).append
    (whole_join (by decide) h))

theorem balanced_pairTextOf {p : Str} {objects : List Str} (hp : PlainTerm p)
    (h : ∀ o ∈ objects, Balanced o) : Balanced (pairTextOf p objects) :=
  (((Balanced.append (a := " ") (by decide) (balanced_termText hp)).append (b := " ")
    (by decide)).append (balanced_join (by decide) h))

theorem balanced_turtleBodyText {pairs : List (Pair Str Str)}
    (h : ∀ pair ∈ pairs, PlainBodyPair pair) :
    Balanced (turtleBodyText pairs) := by
  refine Balanced.flatMap fun pair hpair => Balanced.append ?_ (by decide)
  refine balanced_pairTextOf (h pair hpair).predicate fun o ho => ?_
  obtain ⟨t, ht, rfl⟩ := List.mem_map.mp ho
  exact balanced_termText ((h pair hpair).objects t ht)

theorem whole_bodyPairText {pair : Pair Str Str} (h : PlainBodyPair pair) :
    Whole (pairTextOf pair.predicate (pair.objects.map termText)) := by
  refine whole_pairTextOf h.predicate fun o ho => ?_
  obtain ⟨t, ht, rfl⟩ := List.mem_map.mp ho
  exact whole_termText (h.objects t ht)

theorem whole_turtleObjectText {o : TurtleObject} (h : PlainObject o) :
    Whole (turtleObjectText o) := by
  cases o with
  | term iri => exact whole_termText h
  | body pairs =>
      constructor
      · refine (Quiet.append (s := ['[']) (by decide) (Quiet.flatMap fun pair hpair => ?_)).append
          (t := "]") (by decide)
        exact (whole_bodyPairText (h pair hpair)).quiet.append (by decide)
      · exact Splitter.Neutral.insert (a := ['[']) (b := [']']) (by decide)
          (neutral_of_nesting (balanced_turtleBodyText h))

theorem whole_turtlePairText {pair : TurtlePair} (h : PlainPair pair) :
    Whole (turtlePairText pair) := by
  refine whole_pairTextOf h.predicate fun o ho => ?_
  obtain ⟨object, hobject, rfl⟩ := List.mem_map.mp ho
  exact whole_turtleObjectText (h.objects object hobject)

/-! ## Reading back -/

theorem isWhitespace_termText {t : Str} (h : PlainTerm t) :
    ∀ c ∈ termText t, isWhitespace c = false := by
  intro c hc
  rw [termText, List.mem_append, List.mem_cons, List.mem_singleton] at hc
  rcases hc with (rfl | hc) | rfl
  · decide
  · exact (isIriChar_spec (isPlainChar_spec (h.chars c hc)).1).1
  · decide

theorem turtlePopTerm_termText {t : Str} (h : PlainTerm t) (rest : Str) :
    turtlePopTerm (termText t ++ rest) = some (t, rest) := by
  have hclose : '>' ∉ t := fun hmem =>
    (isIriChar_spec (isPlainChar_spec (h.chars _ hmem)).1).2.2.1 rfl
  have htext : termText t ++ rest = '<' :: (t ++ '>' :: rest) := by simp [termText]
  rw [htext, turtlePopTerm_iri, splitOnce_append hclose]

theorem consumeAll_join {ι β : Type*} {next : Str → Option (β × Option Str)} {f : ι → Str}
    {g : ι → β} (hlt : ∀ a b a', next a = some (b, some a') → a'.length < a.length)
    (hnil : next [] = none) {l : List ι}
    (h : ∀ i ∈ l, ∀ w tail, (∀ c ∈ w, isWhitespace c = true) → (∀ c ∈ tail.head?, c = ',') →
      next (w ++ (f i ++ tail)) = some (g i, afterComma tail)) :
    consumeAll next List.length (join ", " (l.map f)) = l.map g := by
  cases l with
  | nil =>
      rw [consumeAll_eq hlt, List.map_nil, join_nil, hnil]
      rfl
  | cons i l =>
      have hone : ∀ j ∈ (i :: l).getLast?, ∀ w, (∀ c ∈ w, isWhitespace c = true) →
          next (w ++ (f j ++ [])) = some (g j, none) := by
        intro j hj w hw
        exact h j (List.mem_of_getLast? hj) w [] hw nofun
      exact consumeAll_join_cons (w := []) hlt hone
        (fun j hj w tail hw htail => h j hj w tail hw (by simp [htail])) nofun

theorem nextObject_termText {t w tail : Str} (h : PlainTerm t)
    (hw : ∀ c ∈ w, isWhitespace c = true) :
    nextObject defaultPrefixes (w ++ (termText t ++ tail)) = some (t, afterComma tail) := by
  have hstart : trimStart (w ++ (termText t ++ tail)) = termText t ++ tail := by
    rw [trimStart_blank_append hw]
    exact trimStart_cons_of_not (by decide) _
  rw [nextObject, hstart]
  simp only [turtlePopTerm_termText h, Option.map_some, h.expanded]
  rfl

theorem readConditionObject_termText {t w tail : Str} (h : PlainTerm t)
    (hw : ∀ c ∈ w, isWhitespace c = true) :
    readConditionObject defaultPrefixes (w ++ (termText t ++ tail)) =
      some (.term t, afterComma tail) := by
  have hstart : trimStart (w ++ (termText t ++ tail)) = termText t ++ tail := by
    rw [trimStart_blank_append hw]
    exact trimStart_cons_of_not (by decide) _
  have hopen : stripPrefix ['['] (termText t ++ tail) = none := by
    exact stripPrefix_singleton_cons '[' '<' (t ++ ['>'] ++ tail)
  rw [readConditionObject, hstart]
  simp only [hopen, turtlePopTerm_termText h, Option.map_some, h.expanded]
  rfl

/-- A text without white space at its ends. -/
structure Solid (a : Str) : Prop where
  head : ∃ c r, a = c :: r ∧ isWhitespace c = false
  last : ∃ r c, a = r ++ [c] ∧ isWhitespace c = false

theorem solid_turtleObjectText (o : TurtleObject) : Solid (turtleObjectText o) := by
  cases o with
  | term iri => exact ⟨⟨'<', _, rfl, by decide⟩, ⟨_, '>', rfl, by decide⟩⟩
  | body pairs => exact ⟨⟨'[', _, rfl, by decide⟩, ⟨_, ']', rfl, by decide⟩⟩

theorem trim_join {l : List Str} (h : ∀ a ∈ l, Solid a) : trim (join ", " l) = join ", " l := by
  cases l with
  | nil => rfl
  | cons a l =>
      have hlast : ∃ r c, join ", " (a :: l) = r ++ [c] ∧ isWhitespace c = false := by
        induction l generalizing a with
        | nil =>
            obtain ⟨r, c, ha, hc⟩ := (h a (by simp)).last
            exact ⟨r, c, by simpa [join_cons] using ha, hc⟩
        | cons b l ih =>
            obtain ⟨r, c, hr, hc⟩ := ih b fun x hx => h x (List.mem_cons_of_mem a hx)
            rw [join_cons] at hr
            refine ⟨a ++ ", " ++ r, c, ?_, hc⟩
            rw [join_cons, List.flatMap_cons, List.append_assoc, hr]
            simp
      obtain ⟨c, r, ha, hc⟩ := (h a (by simp)).head
      obtain ⟨r', c', hr', hc'⟩ := hlast
      refine trim_eq_self ?_ ?_
      · rw [join_cons, ha]
        intro d hd
        cases hd
        exact hc
      · rw [hr', List.getLast?_append]
        intro d hd
        cases hd
        exact hc'

theorem trim_trimEnd (t : Str) : trim (trimEnd t) = trim t := by
  obtain ⟨w, hw, ht⟩ := exists_trimEnd_append t
  conv_rhs => rw [ht]
  rw [trim_append_blank hw]

/-- The predicate of a pair is read, and its objects are left. -/
theorem turtlePopTerm_pairTextOf {p : Str} {objects : List Str} (hp : PlainTerm p)
    (h : ∀ a ∈ objects, Solid a) :
    (trim (pairTextOf p objects)).isEmpty = false ∧
      ∃ rest, turtlePopTerm (trim (pairTextOf p objects)) = some (p, rest) ∧
        trim rest = join ", " objects := by
  have htrim : trim (pairTextOf p objects) = termText p ++ trimEnd (" " ++ join ", " objects) := by
    have htext : pairTextOf p objects = " " ++ (termText p ++ (" " ++ join ", " objects)) := by
      simp only [pairTextOf, List.append_assoc]
    rw [htext, trim_blank_append (by decide), trim_word_append (by simp [termText])
      (isWhitespace_termText hp)]
  rw [htrim, turtlePopTerm_termText hp]
  refine ⟨rfl, _, rfl, ?_⟩
  rw [trim_trimEnd, trim_blank_append (by decide), trim_join h]

theorem solid_map_termText (l : List Str) : ∀ a ∈ l.map termText, Solid a := by
  intro a ha
  obtain ⟨t, -, rfl⟩ := List.mem_map.mp ha
  exact solid_turtleObjectText (.term t)

theorem parseObjectList_join {l : List Str} (h : ∀ t ∈ l, PlainTerm t) :
    parseObjectList defaultPrefixes (join ", " (l.map termText)) = l := by
  rw [parseObjectList, trim_join (solid_map_termText l),
    consumeAll_join (f := termText) (g := id) (fun _ _ _ h => length_lt_of_nextObject h) rfl
      fun t ht w tail hw _ => nextObject_termText (h t ht) hw, List.map_id]

theorem readBodyPair_pairTextOf {pair : Pair Str Str} (h : PlainBodyPair pair) :
    readBodyPair defaultPrefixes (pairTextOf pair.predicate (pair.objects.map termText)) =
      some pair := by
  obtain ⟨hblank, rest, hpop, hrest⟩ :=
    turtlePopTerm_pairTextOf h.predicate (solid_map_termText pair.objects)
  rw [readBodyPair]
  simp only [hblank, hpop, hrest, parseObjectList_join h.objects, h.predicate.expanded,
    Option.map_some, Bool.false_eq_true, if_false]

theorem trim_of_isBlankText {t : Str} (h : isBlankText t = true) : trim t = [] :=
  List.isEmpty_iff.mp h

theorem isBlankText_trim (t : Str) : isBlankText (trim t) = isBlankText t := by
  rw [isBlankText, isBlankText, trim_trim]

/-- A text of pairs is cut into them, whatever white space comes after. -/
theorem filter_splitPredicateList {ι : Type*} {l : List ι} {f : ι → Str}
    (h : ∀ i ∈ l, Whole (f i)) (hne : ∀ i ∈ l, isBlankText (f i) = false) {t w : Str}
    (hw : ∀ c ∈ w, isWhitespace c = true)
    (ht : t ++ w = l.flatMap fun i => f i ++ ';' :: " ") :
    ((splitPredicateList t).filter (!isBlankText ·)).map trim = l.map fun i => trim (f i) := by
  have hpieces : (predicateSplitter.pieces (0, false) [] t).map trim =
      (l.map fun i => trim (f i)) ++ [[]] := by
    rw [← Splitter.map_trim_pieces_append_blank hw (passes_blank hw), ht]
    exact Splitter.map_trim_pieces_ended (by decide) (by decide) (by decide) (by decide)
      (fun i hi => (h i hi).predicate) (by simp)
  have hsplit : (splitPredicateList t).filter (!isBlankText ·) =
      (predicateSplitter.pieces (0, false) [] t).filter (!isBlankText ·) := by
    rw [splitPredicateList]
    rcases pieces_eq_splitNonblankTail predicateSplitter t with heq | ⟨b, hb, heq⟩
    · rw [heq]
    · have hblank : isBlankText b = true := by
        rw [isBlankText, hb]
        rfl
      rw [heq, List.filter_append, List.filter_cons, hblank]
      simp
  have hcomp : (fun t => !isBlankText t) ∘ trim = fun t => !isBlankText t := by
    funext t
    rw [Function.comp_apply, isBlankText_trim]
  have hfilter := congrArg (List.filter (!isBlankText ·)) hpieces
  rw [List.filter_map, hcomp] at hfilter
  rw [hsplit, hfilter, List.filter_append, List.filter_eq_self.mpr]
  · simp [isBlankText, trim_of_blank]
  · intro a ha
    obtain ⟨i, hi, rfl⟩ := List.mem_map.mp ha
    rw [isBlankText_trim, hne i hi]
    rfl

theorem readBodyPair_trim (prefixes : Prefixes) (pair : Str) :
    readBodyPair prefixes (trim pair) = readBodyPair prefixes pair := by
  rw [readBodyPair, readBodyPair, trim_trim]

theorem readPair_trim (prefixes : Prefixes) (pair : Str) :
    readPair prefixes (trim pair) = readPair prefixes pair := by
  rw [readPair, readPair, trim_trim]

theorem readBody_turtleBodyText {pairs : List (Pair Str Str)}
    (h : ∀ pair ∈ pairs, PlainBodyPair pair) :
    readBody defaultPrefixes (turtleBodyText pairs) = pairs := by
  have hskip : readBody defaultPrefixes (turtleBodyText pairs) =
      (((splitPredicateList (turtleBodyText pairs)).filter (!isBlankText ·)).map trim).filterMap
        (readBodyPair defaultPrefixes) := by
    rw [List.filterMap_map, List.filterMap_filter, readBody]
    refine List.filterMap_congr ?_
    intro pair _
    rw [Function.comp_apply, readBodyPair_trim]
    cases hblank : isBlankText pair with
    | true =>
        rw [readBodyPair, trim_of_isBlankText hblank]
        rfl
    | false => rfl
  have hcut := filter_splitPredicateList (w := [])
    (f := fun pair : Pair Str Str => pairTextOf pair.predicate (pair.objects.map termText))
    (fun pair hpair => whole_bodyPairText (h pair hpair))
    (fun pair hpair => (turtlePopTerm_pairTextOf (h pair hpair).predicate
      (solid_map_termText pair.objects)).1) (by simp) (List.append_nil _)
  rw [hskip]
  delta turtleBodyText
  rw [hcut, List.filterMap_map]
  calc pairs.filterMap _ = pairs.filterMap some := by
        refine List.filterMap_congr ?_
        intro pair hpair
        rw [Function.comp_apply, readBodyPair_trim, readBodyPair_pairTextOf (h pair hpair)]
    _ = pairs := List.filterMap_some

theorem length_lt_of_readConditionObject {prefixes : Prefixes} {list more : Str}
    {object : TurtleObject}
    (h : readConditionObject prefixes list = some (object, some more)) :
    more.length < list.length := by
  refine @length_lt_of_nextConditionObject prefixes list more object.condition?.toList ?_
  rw [nextConditionObject_eq_map]
  simp only [h, Option.map_some]

theorem readConditionObject_turtleObjectText {o : TurtleObject} (h : PlainObject o) {w tail : Str}
    (hw : ∀ c ∈ w, isWhitespace c = true) (htail : ∀ c ∈ tail.head?, c = ',') :
    readConditionObject defaultPrefixes (w ++ (turtleObjectText o ++ tail)) =
      some (o, afterComma tail) := by
  cases o with
  | term iri => exact readConditionObject_termText h hw
  | body pairs =>
      have hstart : trimStart (w ++ (turtleObjectText (.body pairs) ++ tail)) =
          '[' :: (turtleBodyText pairs ++ (']' :: tail)) := by
        rw [trimStart_blank_append hw]
        refine (trimStart_cons_of_not (by decide) _).trans ?_
        simp
      have hclose : closeBracket 1 false (turtleBodyText pairs ++ (']' :: tail)) =
          some (turtleBodyText pairs, tail) := by
        rw [closeBracket_of_nesting (balanced_turtleBodyText h)]
        simp [closeBracket]
      have htrim : trimStart tail = tail := by
        cases tail with
        | nil => rfl
        | cons c tail =>
            rw [htail c rfl]
            exact trimStart_cons_of_not (by decide) tail
      rw [readConditionObject, hstart]
      simp only [stripPrefix_singleton_cons, if_true, hclose, Option.map_some,
        readBody_turtleBodyText h, htrim]
      rfl

theorem solid_map_turtleObjectText (l : List TurtleObject) :
    ∀ a ∈ l.map turtleObjectText, Solid a := by
  intro a ha
  obtain ⟨o, -, rfl⟩ := List.mem_map.mp ha
  exact solid_turtleObjectText o

theorem readObjects_join {pair : TurtlePair} (h : PlainPair pair) :
    readObjects defaultPrefixes pair.predicate
      (join ", " (pair.objects.map turtleObjectText)) = pair.objects := by
  rw [readObjects]
  split
  · rw [trim_join (solid_map_turtleObjectText pair.objects),
      consumeAll_join (f := turtleObjectText) (g := id)
        (fun _ _ _ h => length_lt_of_readConditionObject h) rfl
        fun o ho w tail hw htail =>
          readConditionObject_turtleObjectText (h.objects o ho) hw htail, List.map_id]
  · rename_i hcond
    have hterms := h.terms (Bool.not_eq_true _ ▸ hcond)
    have hplain : ∃ l : List Str, pair.objects = l.map .term ∧ ∀ t ∈ l, PlainTerm t := by
      refine ⟨pair.objects.filterMap TurtleObject.iri?, ?_, ?_⟩
      · rw [List.map_filterMap]
        refine (List.filterMap_some.symm.trans (List.filterMap_congr ?_))
        intro o ho
        obtain ⟨iri, rfl⟩ := hterms o ho
        rfl
      · exact fun t ht => h.objects _ (mem_filterMap_iri.mp ht)
    obtain ⟨l, hl, hplain⟩ := hplain
    have htexts : (l.map TurtleObject.term).map turtleObjectText = l.map termText := by
      rw [List.map_map]
      rfl
    rw [hl, htexts, parseObjectList_join hplain]

theorem readPair_turtlePairText {pair : TurtlePair} (h : PlainPair pair) :
    readPair defaultPrefixes (turtlePairText pair) = some pair := by
  obtain ⟨-, rest, hpop, hrest⟩ :=
    turtlePopTerm_pairTextOf h.predicate (solid_map_turtleObjectText pair.objects)
  have hpop' : turtlePopTerm (trim (turtlePairText pair)) = some (pair.predicate, rest) := hpop
  rw [readPair]
  simp only [hpop', hrest, h.predicate.expanded, readObjects_join h, Option.map_some]

theorem mapM_readPair_turtlePairText {l : List TurtlePair} (h : ∀ pair ∈ l, PlainPair pair) :
    (l.map fun pair => trim (turtlePairText pair)).mapM (readPair defaultPrefixes) = some l := by
  induction l with
  | nil => rfl
  | cons pair l ih =>
      rw [List.forall_mem_cons] at h
      rw [List.map_cons, List.mapM_cons, readPair_trim, readPair_turtlePairText h.1, ih h.2]
      rfl

/-- A plain statement is read back. -/
theorem readStatement_statementText {st : TurtleStatement} (h : PlainStatement st) :
    readStatement defaultPrefixes (trim (statementText st)) = some st := by
  have htrim : trim (statementText st) = termText st.subject ++
      trimEnd (st.pairs.flatMap fun pair => turtlePairText pair ++ ';' :: " ") :=
    trim_word_append (by simp [termText]) (isWhitespace_termText h.subject) _
  have hblank : isBlankText (trim (statementText st)) = false := by
    rw [isBlankText_trim, isBlankText, htrim]
    rfl
  obtain ⟨w, hw, hbody⟩ := exists_trimEnd_append
    (st.pairs.flatMap fun pair => turtlePairText pair ++ ';' :: " ")
  have hcut := filter_splitPredicateList
    (fun pair hpair => whole_turtlePairText (h.pairs pair hpair))
    (fun pair hpair => (turtlePopTerm_pairTextOf (h.pairs pair hpair).predicate
      (solid_map_turtleObjectText pair.objects)).1) hw hbody.symm
  have hpairs : ((splitPredicateList (trimEnd (st.pairs.flatMap fun pair =>
      turtlePairText pair ++ ';' :: " "))).filter (!isBlankText ·)).mapM
        (readPair defaultPrefixes) = some st.pairs := by
    have hmap : ∀ l : List Str, l.mapM (readPair defaultPrefixes) =
        (l.map trim).mapM (readPair defaultPrefixes) := by
      intro l
      rw [List.mapM_map]
      exact congrArg (l.mapM ·) (funext fun pair => (readPair_trim defaultPrefixes pair).symm)
    rw [hmap, hcut]
    exact mapM_readPair_turtlePairText h.pairs
  rw [readStatement, hblank, trim_trim, htrim, turtlePopTerm_termText h.subject]
  simp only [Option.bind_some, hpairs, h.subject.expanded]
  rfl

section Document

variable {S : List TurtleStatement} (h : ∀ st ∈ S, PlainStatement st)
include h

theorem quiet_statementText : ∀ st ∈ S, Quiet (statementText st) := by
  intro st hst
  refine (quiet_termText (h st hst).subject).append (Quiet.flatMap fun pair hpair => ?_)
  exact (whole_turtlePairText ((h st hst).pairs pair hpair)).quiet.append (by decide)

theorem not_mem_turtleText : '\r' ∉ turtleText S := by
  rw [turtleText, List.mem_flatMap]
  rintro ⟨st, hst, hmem⟩
  rcases List.mem_append.mp hmem with hmem | hmem
  · exact (quiet_statementText h st hst).carriage hmem
  · exact absurd hmem (by decide)

theorem passes_comment_turtleText : commentSplitter.Passes false (turtleText S) := by
  have hneutral : commentSplitter.Neutral false (turtleText S) := by
    refine Splitter.Neutral.flatMap fun st hst => ?_
    exact (quiet_statementText h st hst).comment.append (by decide)
  exact hneutral.1

/-- No line begins with an `@`, because each begins with the subject of a statement. -/
theorem passes_directive_turtleText : directiveSplitter.Passes true (turtleText S) := by
  have hneutral : directiveSplitter.Neutral true (turtleText S) := by
    refine Splitter.Neutral.flatMap fun st hst => ?_
    obtain ⟨hpass, hrun⟩ := (quiet_statementText h st hst).directive
    have hend : directiveSplitter.Passes false ('.' :: "\n") ∧
        directiveSplitter.run false ('.' :: "\n") = true := by
      decide
    have hopen : ∃ t, statementText st = '<' :: t := ⟨_, rfl⟩
    obtain ⟨t, ht⟩ := hopen
    rw [ht] at hpass hrun ⊢
    constructor
    · rw [List.cons_append, Splitter.passes_cons, Splitter.passes_append]
      refine ⟨by decide, hpass.2, ?_⟩
      change directiveSplitter.Passes (directiveSplitter.run false ('<' :: t)) _
      rw [hrun]
      exact hend.1
    · rw [Splitter.run_append]
      change directiveSplitter.run (directiveSplitter.run false ('<' :: t)) _ = _
      rw [hrun]
      exact hend.2
  exact hneutral.1

/-- Plain statements are read back from their text. -/
theorem reading_turtleText : reading (turtleText S) = S := by
  have hlast : ∀ c ∈ (turtleText S).getLast?, c = '\n' := by
    rcases List.eq_nil_or_concat' S with rfl | ⟨p, st, rfl⟩
    · simp [turtleText]
    · simp [turtleText, List.getLast?_append]
  have hstrip := stripTurtleComments_eq_self (not_mem_turtleText h) hlast
    (passes_comment_turtleText h)
  have hlines := flatMap_lines (not_mem_turtleText h) hlast
  have hprefixes : readPrefixes (turtleText S) = (defaultPrefixes, turtleText S) := by
    have hpass : ∀ l ∈ lines (turtleText S), directiveSplitter.Passes true l :=
      Splitter.passes_of_mem_lines (fun _ => rfl)
        (by rw [hlines]; exact passes_directive_turtleText h)
    rw [readPrefixes, foldl_prefixLine hpass, hlines, List.nil_append]
  have hpieces : (statementSplitter.pieces (0, false) [] (turtleText S)).map trim =
      S.map (fun st => trim (statementText st)) ++ [[]] :=
    Splitter.map_trim_pieces_ended (by decide) (by decide) (by decide) (by decide)
      (fun st hst => (quiet_statementText h st hst).statement) (by simp)
  have hread : (splitTurtleStatements (turtleText S)).filterMap (readStatement defaultPrefixes) =
      ((statementSplitter.pieces (0, false) [] (turtleText S)).map trim).filterMap
        (readStatement defaultPrefixes) := by
    have htrim : ∀ t, readStatement defaultPrefixes (trim t) = readStatement defaultPrefixes t := by
      intro t
      rw [readStatement, readStatement, isBlankText_trim, trim_trim]
    rw [List.filterMap_map, splitTurtleStatements]
    have hcomp : readStatement defaultPrefixes ∘ trim = readStatement defaultPrefixes :=
      funext htrim
    rw [hcomp]
    rcases pieces_eq_splitNonblankTail statementSplitter (turtleText S) with heq | ⟨b, hb, heq⟩
    · rw [heq]
    · have hnone : readStatement defaultPrefixes b = none := by
        rw [← htrim, hb]
        rfl
      rw [heq, List.filterMap_append, List.filterMap_cons, hnone, List.filterMap_nil,
        List.append_nil]
  rw [reading, turtleStatements, hstrip, hprefixes]
  simp only []
  rw [hread, hpieces, List.filterMap_append, List.filterMap_map]
  have hall : S.filterMap (readStatement defaultPrefixes ∘ fun st => trim (statementText st)) =
      S.filterMap some := by
    refine List.filterMap_congr ?_
    intro st hst
    rw [Function.comp_apply, readStatement_statementText (h st hst)]
  rw [hall, List.filterMap_some]
  exact List.append_nil S

end Document

/-! ## Decisions and rewriting -/

/-- No rewriting of the text that the parser accepts changes a decision. -/
def KeepsDecisions (input : Str) : Prop :=
  ∀ (input' : Str) (maxBytes maxBytes' : Nat) (doc doc' : AclDocument),
    Rewrites BodyRewrite (reading input) (reading input') →
      parseTurtleAclWithLimit input maxBytes = .ok doc →
        parseTurtleAclWithLimit input' maxBytes' = .ok doc' → SameDecisions doc doc'

theorem eq_document {input : Str} {maxBytes : Nat} {doc : AclDocument}
    (h : parseTurtleAclWithLimit input maxBytes = .ok doc) : doc = document (reading input) := by
  rw [parseTurtleAclWithLimit_eq] at h
  split at h
  · cases h
  · exact (Except.ok.inj h).symm

theorem parse_byteLen (input : Str) :
    parseTurtleAclWithLimit input (byteLen input) = .ok (document (reading input)) := by
  rw [parseTurtleAclWithLimit_eq, if_neg (Nat.lt_irrefl _)]

theorem plain_apart {S : List TurtleStatement} (h : ∀ st ∈ S, PlainStatement st) :
    ∀ st ∈ S.flatMap apart, PlainStatement st := by
  intro st hst
  obtain ⟨st', hst', hmem⟩ := List.mem_flatMap.mp hst
  rw [apart] at hmem
  split at hmem
  · rw [List.mem_singleton.mp hmem]
    exact h st' hst'
  · obtain ⟨pair, hpair, rfl⟩ := List.mem_map.mp hmem
    refine ⟨(h st' hst').subject, fun q hq => ?_⟩
    rw [List.mem_singleton.mp hq]
    exact (h st' hst').pairs pair hpair

theorem plain_gather {S : List TurtleStatement} (h : ∀ st ∈ S, PlainStatement st) {s : Str}
    {triples : List (Str × TurtleObject)} (hsaid : ∀ t ∈ triples, Says S s t.1 t.2)
    (hne : triples ≠ []) :
    PlainStatement ⟨s, triples.map fun t => ⟨t.1, [t.2]⟩⟩ := by
  constructor
  · obtain ⟨t, ht⟩ := List.exists_mem_of_ne_nil triples hne
    obtain ⟨st, hst, rfl, -⟩ := hsaid t ht
    exact (h st hst).subject
  · intro pair hpair
    obtain ⟨⟨p, o⟩, ht, rfl⟩ := List.mem_map.mp hpair
    obtain ⟨st, hst, rfl, q, hq, rfl, ho⟩ := hsaid _ ht
    have hplain := (h st hst).pairs q hq
    refine ⟨hplain.predicate, fun o' ho' => ?_, fun hcond o' ho' => ?_⟩
    · rw [List.mem_singleton.mp ho']
      exact hplain.objects o ho
    · rw [List.mem_singleton.mp ho']
      exact hplain.terms hcond o ho

/-- A text whose triples cannot grant keeps its decisions, and where the triples
about a subject could grant, the text and its rewritings decide differently. -/
theorem keepsDecisions_iff_not_couldGrant (input : Str) :
    (¬ CouldGrant (reading input) → KeepsDecisions input) ∧
    ((∀ st ∈ reading input, PlainStatement st) →
      (KeepsDecisions input ↔ ¬ CouldGrant (reading input))) := by
  have hkeeps : ¬ CouldGrant (reading input) → KeepsDecisions input := by
    intro h input' maxBytes maxBytes' doc doc' hrewrites hdoc hdoc'
    rw [eq_document hdoc, eq_document hdoc']
    exact sameDecisions_of_not_couldGrant h hrewrites
  refine ⟨hkeeps, fun hplain => ⟨fun hkeep hgrant => ?_, hkeeps⟩⟩
  obtain ⟨s, triples, hne, hsaid, hgather, hdiffer⟩ := exists_not_sameDecisions hgrant
  have hgathered : ∀ st ∈ ⟨s, triples.map fun t => ⟨t.1, [t.2]⟩⟩ :: reading input,
      PlainStatement st := List.forall_mem_cons.mpr ⟨plain_gather hplain hsaid hne, hplain⟩
  have hsame : ∀ S, (∀ st ∈ S, PlainStatement st) → Rewrites BodyRewrite (reading input) S →
      SameDecisions (document (reading input)) (document S) := by
    intro S hS hrewrites
    have hread := reading_turtleText hS
    have h := hkeep (turtleText S) _ _ _ _ (by rwa [hread]) (parse_byteLen input)
      (parse_byteLen (turtleText S))
    rwa [hread] at h
  have htogether := hsame _ hgathered hgather
  have hapart := hsame _ (plain_apart hplain) (rewrites_flatMap_apart _)
  refine hdiffer fun feature ctx path mode requestOrigin groups dispatcher hdispatcher => ?_
  exact (hapart feature ctx path mode requestOrigin groups dispatcher hdispatcher).trans
    (htogether feature ctx path mode requestOrigin groups dispatcher hdispatcher).symm

/-- Two agents may read, and are written as one pair. -/
def agentsTogether : Str :=
  "<#r> a acl:Authorization ; acl:agent <did:a>, <did:b> ; acl:accessTo </x> ; acl:mode acl:Read ."

def agentsApart : Str :=
  "<#r> a acl:Authorization ; acl:agent <did:a> ; acl:agent <did:b> ;" ++
    " acl:accessTo </x> ; acl:mode acl:Read ."

/-- The statement of the two agents, around the pairs that name them. -/
def agentsStatement (agents : List TurtlePair) : TurtleStatement :=
  ⟨"#r", ⟨"a", [.term "http://www.w3.org/ns/auth/acl#Authorization"]⟩ :: agents ++
    [⟨"http://www.w3.org/ns/auth/acl#accessTo", [.term "/x"]⟩,
      ⟨"http://www.w3.org/ns/auth/acl#mode", [.term "http://www.w3.org/ns/auth/acl#Read"]⟩]⟩

def togetherStatement : TurtleStatement :=
  agentsStatement [⟨"http://www.w3.org/ns/auth/acl#agent", [.term "did:a", .term "did:b"]⟩]

def apartStatement : TurtleStatement :=
  agentsStatement [⟨"http://www.w3.org/ns/auth/acl#agent", [.term "did:a"]⟩,
    ⟨"http://www.w3.org/ns/auth/acl#agent", [.term "did:b"]⟩]

/-- The terms of both texts. -/
def agentsTerms : List Str :=
  ["#r", "a", "http://www.w3.org/ns/auth/acl#Authorization",
    "http://www.w3.org/ns/auth/acl#agent", "did:a", "did:b",
    "http://www.w3.org/ns/auth/acl#accessTo", "/x", "http://www.w3.org/ns/auth/acl#mode",
    "http://www.w3.org/ns/auth/acl#Read"]

/-- Whether the first of the two agents may read. -/
def firstMayRead (S : List TurtleStatement) : Bool :=
  evaluateAccessCtx ⟨false, fun _ => none⟩ (some (document S)) ⟨some "did:a", none, none⟩ "/x" .read
    none noGroupMembership emptyDispatcher

theorem reading_agents :
    reading agentsTogether = [togetherStatement] ∧ reading agentsApart = [apartStatement] ∧
      (∀ t ∈ agentsTerms, PlainTerm t) ∧
        firstMayRead [apartStatement] ≠ firstMayRead [togetherStatement] := by
  have htogether : agentsTogether = _ := String.toList_ofList
  have hapart : agentsApart = _ := congrArg₂ (· ++ ·) String.toList_ofList String.toList_ofList
  rw [htogether, hapart]
  decide +kernel

theorem keepsDecisions_iff_agentsTogether :
    (KeepsDecisions agentsTogether ↔ ¬ CouldGrant (reading agentsTogether)) ∧
      KeepsDecisions [] := by
  refine ⟨(keepsDecisions_iff_not_couldGrant agentsTogether).2 ?_,
    (keepsDecisions_iff_not_couldGrant []).1 ?_⟩
  · rw [reading_agents.1]
    simp only [List.forall_mem_singleton]
    have hterms := reading_agents.2.2.1
    simp only [agentsTerms, List.forall_mem_cons] at hterms
    obtain ⟨hs, ha, hauthz, hagent, hone, htwo, haccess, hx, hmode, hread, -⟩ := hterms
    refine ⟨hs, ?_⟩
    simp only [togetherStatement, agentsStatement, List.cons_append, List.nil_append,
      List.forall_mem_cons]
    exact ⟨plainPair_of_terms (l := [_]) ha (by simpa using hauthz),
      plainPair_of_terms (l := [_, _]) hagent (by simpa using ⟨hone, htwo⟩),
      plainPair_of_terms (l := [_]) haccess (by simpa using hx),
      plainPair_of_terms (l := [_]) hmode (by simpa using hread), nofun⟩
  · rintro ⟨s, hs⟩
    obtain ⟨p, o, ⟨st, hst, -⟩, -⟩ := hs.typed
    exact absurd hst List.not_mem_nil

/-- The second pair replaces the first one, and its agent is refused. -/
theorem not_keepsDecisions_agentsTogether : ¬ KeepsDecisions agentsTogether := by
  intro h
  have hrewrites : Rewrites BodyRewrite (reading agentsTogether) (reading agentsApart) := by
    rw [reading_agents.1, reading_agents.2.1]
    refine .tail (.tail (.single (.pairs _ (.reorder (List.Perm.swap _ _ _)) []))
      (.pairs _ (.cut _ (List.cons_ne_nil (TurtleObject.term "did:a") [])
        (List.cons_ne_nil (.term "did:b") []) _) [])) (.pairs _ (.reorder ?_) [])
    exact @List.perm_middle _ _ [_, _] _
  have hsame := h agentsApart _ _ _ _ hrewrites (parse_byteLen _) (parse_byteLen _)
  rw [reading_agents.1, reading_agents.2.1] at hsame
  have heq : firstMayRead [apartStatement] = firstMayRead [togetherStatement] :=
    hsame ⟨false, fun _ => none⟩ ⟨some "did:a", none, none⟩ "/x" .read none noGroupMembership
      emptyDispatcher (Or.inl rfl)
  exact reading_agents.2.2.2 heq

end Wac

end SolidPod
