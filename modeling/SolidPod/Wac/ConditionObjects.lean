import SolidPod.Wac.Parser

/-!
# The objects of a condition predicate

An object list is cut at the commas outside the IRI, the literal or the bracketed
body that opens an object. The parser gives at most one condition for each object
so cut, and one for each of them exactly when every object opens with a typed
body or a term, and nothing follows that before the next comma.
-/

namespace SolidPod

namespace Wac

open Foundation Str

/-- Where a text stands in an object list. -/
inductive ObjectState where
  | start
  | iri
  | literal
  | body (depth : Nat) (inStr : Bool)
  | tail
  deriving DecidableEq

def objectSplitter : Splitter ObjectState where
  step := fun s c =>
    match s with
    | .start =>
      if isWhitespace c || c = ',' then .start
      else if c = '<' then .iri
      else if c = '"' then .literal
      else if c = '[' then .body 1 false
      else .tail
    | .iri => if c = '>' then .tail else .iri
    | .literal => if c = '"' then .tail else .literal
    | .body depth inStr =>
      if c = '"' then .body depth (!inStr)
      else if c = '[' && !inStr then .body (depth + 1) inStr
      else if c = ']' && !inStr then if depth ≤ 1 then .tail else .body (depth - 1) inStr
      else .body depth inStr
    | .tail => if c = ',' then .start else .tail
  cuts := fun s c => c = ',' && (s == .start || s == .tail)

def isBlank (t : Str) : Bool := (trimStart t).isEmpty

/-- A blank piece at the end of a list is no object. -/
def withoutBlankTail : List Str → List Str
  | [] => []
  | [p] => if isBlank p then [] else [p]
  | p :: q :: ps => p :: withoutBlankTail (q :: ps)

/-- The objects that the parser cuts a list into. -/
def parserObjects (list : Str) : List Str :=
  withoutBlankTail (objectSplitter.pieces .start [] list)

/-- What an object opens with, and the text after it. A body without a type is
no condition. -/
def openObject (prefixes : Prefixes) (object : Str) : Option (Option Condition × Str) :=
  match stripPrefix ['['] (trimStart object) with
  | some afterOpen =>
    (closeBracket 1 false afterOpen).map fun (body, rest) =>
      (parseTurtleConditionBody prefixes body, rest)
  | none =>
    (turtlePopTerm (trimStart object)).map fun (tok, rest) =>
      (some (.unknown (expandCurieOrIri prefixes tok)), rest)

/-- Every object opens with a typed body or a term, and only blanks come between
that and the next comma. -/
def ObjectsReadable (prefixes : Prefixes) : List Str → Prop
  | [] => True
  | object :: objects =>
    (∃ cond rest, openObject prefixes object = some (some cond, rest) ∧
      (objects ≠ [] → isBlank rest = true)) ∧ ObjectsReadable prefixes objects

instance decidableObjectsReadable (prefixes : Prefixes) :
    (objects : List Str) → Decidable (ObjectsReadable prefixes objects)
  | [] => isTrue trivial
  | object :: objects =>
    have := decidableObjectsReadable prefixes objects
    match h : openObject prefixes object with
    | none => isFalse fun ⟨⟨_, _, hopen, _⟩, _⟩ => by simp [h] at hopen
    | some (none, _) => isFalse fun ⟨⟨_, _, hopen, _⟩, _⟩ => by simp [h] at hopen
    | some (some _, rest) =>
      decidable_of_iff ((objects ≠ [] → isBlank rest = true) ∧ ObjectsReadable prefixes objects)
        (by simp [ObjectsReadable, h])

/-! ## White space and commas -/

theorem not_comma_of_passes_tail {t : Str} (h : objectSplitter.Passes .tail t) : ',' ∉ t := by
  induction t with
  | nil => exact List.not_mem_nil
  | cons c t ih =>
      obtain ⟨hcut, hrest⟩ := h
      have hc : c ≠ ',' := by
        rintro rfl
        exact absurd hcut (by decide)
      have hstep : objectSplitter.step .tail c = .tail := if_neg hc
      rw [hstep] at hrest
      exact List.not_mem_cons_of_ne_of_not_mem (Ne.symm hc) (ih hrest)

/-- White space before an object changes nothing. -/
theorem passes_trimStart {t : Str} (h : objectSplitter.Passes .start t) :
    objectSplitter.Passes .start (trimStart t) ∧
      objectSplitter.run .start (trimStart t) = objectSplitter.run .start t := by
  induction t with
  | nil => exact ⟨trivial, rfl⟩
  | cons c t ih =>
      cases hc : isWhitespace c with
      | true =>
          have hstep : objectSplitter.step .start c = .start := by
            simp [objectSplitter, hc]
          obtain ⟨-, hrest⟩ := h
          rw [hstep] at hrest
          rw [trimStart_cons_of hc, Splitter.run_cons, hstep]
          exact ih hrest
      | false =>
          rw [trimStart_cons_of_not hc]
          exact ⟨h, rfl⟩

/-! ## What opens an object -/

theorem step_body (depth : Nat) (inStr : Bool) (c : Char) :
    objectSplitter.step (.body depth inStr) c = .tail ∨
      ∃ depth' inStr', objectSplitter.step (.body depth inStr) c = .body depth' inStr' := by
  simp only [objectSplitter]
  split
  · exact Or.inr ⟨_, _, rfl⟩
  · split
    · exact Or.inr ⟨_, _, rfl⟩
    · split
      · split
        · exact Or.inl rfl
        · exact Or.inr ⟨_, _, rfl⟩
      · exact Or.inr ⟨_, _, rfl⟩

/-- The bracket matcher goes through a body as the splitter does. -/
theorem closeBracket_cons_of_tail {depth : Nat} {inStr : Bool} {c : Char}
    (h : objectSplitter.step (.body depth inStr) c = .tail) (t : Str) :
    closeBracket depth inStr (c :: t) = some ([], t) := by
  simp only [objectSplitter] at h
  split at h
  · cases h
  · rename_i hquote
    split at h
    · cases h
    · rename_i hopen
      split at h
      · rename_i hclose
        split at h
        · rename_i hdepth
          rw [closeBracket, if_neg hquote, if_neg hopen, if_pos hclose, if_pos hdepth]
        · cases h
      · cases h

theorem closeBracket_cons_of_body {depth depth' : Nat} {inStr inStr' : Bool} {c : Char}
    (h : objectSplitter.step (.body depth inStr) c = .body depth' inStr') (t : Str) :
    closeBracket depth inStr (c :: t) =
      (closeBracket depth' inStr' t).map fun r => (c :: r.1, r.2) := by
  simp only [objectSplitter] at h
  split at h
  · rename_i hquote
    cases h
    rw [closeBracket, if_pos hquote]
  · rename_i hquote
    split at h
    · rename_i hopen
      cases h
      rw [closeBracket, if_neg hquote, if_pos hopen]
    · rename_i hopen
      split at h
      · rename_i hclose
        split at h
        · cases h
        · rename_i hdepth
          cases h
          rw [closeBracket, if_neg hquote, if_neg hopen, if_pos hclose, if_neg hdepth]
      · rename_i hclose
        cases h
        rw [closeBracket, if_neg hquote, if_neg hopen, if_neg hclose]

theorem closeBracket_append {depth : Nat} {inStr : Bool} {t body rest : Str}
    (h : closeBracket depth inStr t = some (body, rest)) (more : Str) :
    closeBracket depth inStr (t ++ more) = some (body, rest ++ more) := by
  induction t generalizing depth inStr body with
  | nil => cases h
  | cons c t ih =>
      rw [List.cons_append]
      rcases step_body depth inStr c with hstep | ⟨depth', inStr', hstep⟩
      · rw [closeBracket_cons_of_tail hstep] at h ⊢
        cases h
        rfl
      · rw [closeBracket_cons_of_body hstep, Option.map_eq_some_iff] at h
        obtain ⟨⟨body', rest'⟩, hclose, heq⟩ := h
        cases heq
        rw [closeBracket_cons_of_body hstep, ih hclose]
        rfl

/-- Either a body stays open, or what follows its closing bracket is read as the
tail of the object. -/
theorem closeBracket_spec (depth : Nat) (inStr : Bool) (t : Str) :
    (closeBracket depth inStr t = none ∧
      ∃ depth' inStr', objectSplitter.run (.body depth inStr) t = .body depth' inStr') ∨
    ∃ body rest, closeBracket depth inStr t = some (body, rest) ∧ rest <:+ t ∧
      (objectSplitter.Passes (.body depth inStr) t → objectSplitter.Passes .tail rest) := by
  induction t generalizing depth inStr with
  | nil => exact Or.inl ⟨rfl, depth, inStr, rfl⟩
  | cons c t ih =>
      rw [Splitter.run_cons, Splitter.passes_cons]
      rcases step_body depth inStr c with hstep | ⟨depth', inStr', hstep⟩
      · rw [closeBracket_cons_of_tail hstep, hstep]
        exact Or.inr ⟨[], t, rfl, List.suffix_cons c t, And.right⟩
      · rw [closeBracket_cons_of_body hstep, hstep]
        rcases ih depth' inStr' with ⟨hnone, hrun⟩ | ⟨body, rest, hclose, hsuffix, hpass⟩
        · exact Or.inl ⟨by rw [hnone]; rfl, hrun⟩
        · refine Or.inr ⟨c :: body, rest, by rw [hclose]; rfl, hsuffix.trans ?_, ?_⟩
          · exact List.suffix_cons c t
          · exact fun h => hpass h.2

/-- Either an IRI stays open, or what follows its `>` is read as the tail of the
object. -/
theorem splitOnce_spec (t : Str) :
    (splitOnce '>' t = none ∧ objectSplitter.run .iri t = .iri) ∨
    ∃ tok rest, splitOnce '>' t = some (tok, rest) ∧
      (objectSplitter.Passes .iri t → objectSplitter.Passes .tail rest) := by
  induction t with
  | nil => exact Or.inl ⟨rfl, rfl⟩
  | cons c t ih =>
      rw [Splitter.run_cons, Splitter.passes_cons, splitOnce]
      by_cases hc : c = '>'
      · have hstep : objectSplitter.step .iri c = .tail := if_pos hc
        rw [hstep, if_pos hc]
        exact Or.inr ⟨[], t, rfl, And.right⟩
      · have hstep : objectSplitter.step .iri c = .iri := if_neg hc
        rw [hstep, if_neg hc]
        rcases ih with ⟨hnone, hrun⟩ | ⟨tok, rest, hsplit, hpass⟩
        · exact Or.inl ⟨by rw [hnone]; rfl, hrun⟩
        · exact Or.inr ⟨c :: tok, rest, by rw [hsplit]; rfl, fun h => hpass h.2⟩

/-- A token ends at a comma. -/
theorem turtlePopTerm_token {c : Char} (hiri : c ≠ '<') (hquote : c ≠ '"')
    (hspace : isWhitespace c = false) (t : Str) :
    turtlePopTerm (c :: t) =
      some ((c :: t).takeWhile (!endsToken ·), (c :: t).dropWhile (!endsToken ·)) := by
  rw [turtlePopTerm, trimStart_cons_of_not hspace, stripPrefix_singleton_cons, if_neg hiri]
  simp only []
  rw [startsWith]
  simp [List.isPrefixOf, Ne.symm hquote]

theorem turtlePopTerm_iri (t : Str) : turtlePopTerm ('<' :: t) = splitOnce '>' t := by
  rw [turtlePopTerm, trimStart_cons_of_not (by decide), stripPrefix_singleton_cons, if_pos rfl]

theorem turtlePopTerm_literal (t : Str) : turtlePopTerm ('"' :: t) = none := by
  rw [turtlePopTerm, trimStart_cons_of_not (by decide), stripPrefix_singleton_cons,
    if_neg (by decide)]
  rfl

theorem suffix_of_turtlePopTerm {t tok rest : Str} (h : turtlePopTerm t = some (tok, rest)) :
    rest <:+ t := by
  have htrim : trimStart t <:+ t := List.dropWhile_suffix _
  rw [turtlePopTerm] at h
  split at h
  · rename_i afterOpen hopen
    obtain ⟨rfl, -⟩ := eq_append_of_splitOnce h
    exact ((List.suffix_append_of_suffix (List.suffix_cons _ _)).trans
      (suffix_of_stripPrefix hopen)).trans htrim
  · split at h
    · cases h
    · cases h
      exact (List.dropWhile_suffix _).trans htrim

theorem suffix_of_openObject {prefixes : Prefixes} {object rest : Str} {cond : Option Condition}
    (h : openObject prefixes object = some (cond, rest)) : rest <:+ object := by
  have htrim : trimStart object <:+ object := List.dropWhile_suffix _
  rw [openObject] at h
  split at h
  · rename_i afterOpen hopen
    rcases closeBracket_spec 1 false afterOpen with ⟨hnone, -⟩ | ⟨body, rest', hclose, hsuffix, -⟩
    · rw [hnone] at h
      cases h
    · rw [hclose] at h
      cases h
      exact (hsuffix.trans (suffix_of_stripPrefix hopen)).trans htrim
  · rw [Option.map_eq_some_iff] at h
    obtain ⟨⟨tok, rest'⟩, hpop, heq⟩ := h
    cases heq
    exact (suffix_of_turtlePopTerm hpop).trans htrim

/-- What opens an object, by its first character. -/
theorem openObject_of_trimStart {prefixes : Prefixes} {object t : Str} {c : Char}
    (h : trimStart object = c :: t) :
    openObject prefixes object =
      if c = '[' then
        (closeBracket 1 false t).map fun r => (parseTurtleConditionBody prefixes r.1, r.2)
      else
        (turtlePopTerm (c :: t)).map fun r =>
          (some (.unknown (expandCurieOrIri prefixes r.1)), r.2) := by
  rw [openObject, h, stripPrefix_singleton_cons]
  by_cases hc : c = '['
  · rw [if_pos hc, if_pos hc]
  · rw [if_neg hc, if_neg hc]

/-- No comma comes after what an object opens with, and the objects after the
next comma do not matter to it. -/
theorem openObject_spec (prefixes : Prefixes) {object : Str}
    (hpass : objectSplitter.Passes .start object) :
    (∀ cond rest, openObject prefixes object = some (cond, rest) →
      ',' ∉ rest) ∧
    (objectSplitter.cuts (objectSplitter.run .start object) ',' = true → ∀ more,
      openObject prefixes (object ++ ',' :: more) =
        (openObject prefixes object).map fun r => (r.1, r.2 ++ ',' :: more)) := by
  obtain ⟨hpass, hrun⟩ := passes_trimStart hpass
  rw [← hrun]
  have htrim (more : Str) : trimStart (object ++ ',' :: more) = trimStart object ++ ',' :: more :=
    trimStart_append_cons (by decide) object more
  rcases trimStart_cases object with hobject | ⟨c, t, hobject, hspace⟩
  · have hnil : openObject prefixes object =
        some (some (.unknown (expandCurieOrIri prefixes [])), []) := by
      rw [openObject, hobject]
      rfl
    rw [hnil]
    refine ⟨?_, ?_⟩
    · intro cond rest h
      cases h
      exact List.not_mem_nil
    · intro _ more
      rw [openObject_of_trimStart (by rw [htrim, hobject]; rfl), if_neg (by decide),
        turtlePopTerm_token (by decide) (by decide) (by decide),
        List.takeWhile_cons_of_neg (by decide), List.dropWhile_cons_of_neg (by decide)]
      rfl
  · have hmore (more : Str) : trimStart (object ++ ',' :: more) = c :: (t ++ ',' :: more) := by
      rw [htrim, hobject, List.cons_append]
    rw [hobject] at hpass ⊢
    rw [openObject_of_trimStart hobject]
    simp only [fun more => @openObject_of_trimStart prefixes _ _ _ (hmore more)]
    have hcomma : c ≠ ',' := by
      rintro rfl
      exact absurd hpass.1 (by decide)
    rw [Splitter.run_cons]
    by_cases hopen : c = '['
    · subst hopen
      have hstep : objectSplitter.step .start '[' = .body 1 false := by decide
      obtain ⟨-, hpass⟩ := hpass
      rw [hstep] at hpass ⊢
      simp only [if_true]
      rcases closeBracket_spec 1 false t with ⟨hnone, depth, inStr, hrun⟩ |
        ⟨body, rest, hclose, -, htail⟩
      · rw [hnone, hrun]
        refine ⟨fun _ _ h => (nomatch h), ?_⟩
        intro hcut
        exact absurd hcut (by simp [objectSplitter])
      · rw [hclose]
        refine ⟨?_, ?_⟩
        · intro cond rest' h
          cases h
          exact not_comma_of_passes_tail (htail hpass)
        · intro _ more
          rw [closeBracket_append hclose]
          rfl
    · simp only [if_neg hopen]
      by_cases hiri : c = '<'
      · subst hiri
        have hstep : objectSplitter.step .start '<' = .iri := by decide
        obtain ⟨-, hpass⟩ := hpass
        rw [hstep] at hpass ⊢
        simp only [turtlePopTerm_iri]
        rcases splitOnce_spec t with ⟨hnone, hrun⟩ | ⟨tok, rest, hsplit, htail⟩
        · rw [hnone, hrun]
          refine ⟨fun _ _ h => (nomatch h), ?_⟩
          intro hcut
          exact absurd hcut (by decide)
        · rw [hsplit]
          obtain ⟨rfl, hnot⟩ := eq_append_of_splitOnce hsplit
          refine ⟨?_, ?_⟩
          · intro cond rest' h
            cases h
            exact not_comma_of_passes_tail (htail hpass)
          · intro _ more
            rw [List.append_assoc, List.cons_append, splitOnce_append hnot]
            rfl
      · by_cases hquote : c = '"'
        · subst hquote
          simp only [turtlePopTerm_literal]
          exact ⟨fun _ _ h => (nomatch h), fun _ _ => rfl⟩
        · have hstep : objectSplitter.step .start c = .tail := by
            simp [objectSplitter, hspace, hcomma, hiri, hquote, hopen]
          obtain ⟨-, hpass⟩ := hpass
          rw [hstep] at hpass
          have hnot : ',' ∉ c :: t :=
            List.not_mem_cons_of_ne_of_not_mem (Ne.symm hcomma) (not_comma_of_passes_tail hpass)
          simp only [fun t => turtlePopTerm_token hiri hquote hspace t]
          refine ⟨?_, ?_⟩
          · intro cond rest h
            cases h
            exact fun hmem => hnot ((List.dropWhile_suffix _).mem hmem)
          · intro _ more
            have htoken := takeWhile_append_cons (f := (!endsToken ·)) (c := ',') (by decide)
              (c :: t) more
            rw [← List.cons_append, htoken.1, htoken.2]
            rfl

/-! ## The whole list -/

/-- The conditions of an object list, without the trimming of the whole. -/
def conditionObjects (prefixes : Prefixes) (list : Str) : List Condition :=
  (consumeAll (nextConditionObject prefixes) List.length list).flatten

theorem nextConditionObject_eq (prefixes : Prefixes) (list : Str) :
    nextConditionObject prefixes list =
      if isBlank list then none
      else (openObject prefixes list).map fun r => (r.1.toList, afterComma r.2) := by
  rw [nextConditionObject, openObject, isBlank]
  split
  · rfl
  · cases stripPrefix ['['] (trimStart list) with
    | none => simp [Option.map_map, Function.comp_def]
    | some afterOpen => simp [Option.map_map, Function.comp_def, afterComma, trimStart_trimStart]

theorem length_lt_of_nextConditionObject {prefixes : Prefixes} {list more : Str}
    {conds : List Condition}
    (h : nextConditionObject prefixes list = some (conds, some more)) :
    more.length < list.length := by
  rw [nextConditionObject_eq] at h
  split at h
  · cases h
  · rw [Option.map_eq_some_iff] at h
    obtain ⟨⟨cond, rest⟩, hopen, heq⟩ := h
    obtain ⟨-, hmore⟩ := Prod.mk.inj heq
    have hcomma := congrArg List.length (stripPrefix_eq_some.mp hmore)
    have hrest := (suffix_of_openObject hopen).length_le
    have htrim := length_trimStart_le rest
    simp only [List.length_append, List.length_singleton] at hcomma
    omega

theorem conditionObjects_eq (prefixes : Prefixes) (list : Str) :
    conditionObjects prefixes list =
      match nextConditionObject prefixes list with
      | none => []
      | some (conds, none) => conds
      | some (conds, some more) => conds ++ conditionObjects prefixes more := by
  rw [conditionObjects, consumeAll_eq fun _ _ _ h => length_lt_of_nextConditionObject h]
  rcases nextConditionObject prefixes list with _ | ⟨conds, _ | more⟩
  · rfl
  · simp
  · rfl

theorem afterComma_eq_none {rest : Str} (h : ',' ∉ rest) : afterComma rest = none := by
  rw [afterComma, stripPrefix_eq_none]
  rintro ⟨more, hmore⟩
  refine h ((List.dropWhile_suffix isWhitespace).mem ?_)
  change ',' ∈ trimStart rest
  rw [← hmore]
  exact List.mem_cons_self

theorem afterComma_append {rest : Str} (h : ',' ∉ rest) (more : Str) :
    afterComma (rest ++ ',' :: more) = if isBlank rest then some more else none := by
  rw [afterComma, trimStart_append_cons (by decide), isBlank]
  rcases hrest : trimStart rest with _ | ⟨c, t⟩
  · rfl
  · have hmem : c ∈ rest := by
      refine (List.dropWhile_suffix isWhitespace).mem ?_
      change c ∈ trimStart rest
      rw [hrest]
      exact List.mem_cons_self
    have hne : c ≠ ',' := by
      rintro rfl
      exact h hmem
    rw [List.cons_append, stripPrefix_singleton_cons, if_neg hne]
    rfl

theorem withoutBlankTail_cons {p : Str} {ps : List Str} (h : ps ≠ []) :
    withoutBlankTail (p :: ps) = p :: withoutBlankTail ps := by
  cases ps with
  | nil => exact absurd rfl h
  | cons q ps => rfl

/-- A list without a comma is one object, and the others are the first object and
those after its comma. -/
theorem parserObjects_cases (list : Str) :
    (objectSplitter.Passes .start list ∧
      parserObjects list = if isBlank list then [] else [list]) ∨
    ∃ object more, list = object ++ ',' :: more ∧ objectSplitter.Passes .start object ∧
      objectSplitter.cuts (objectSplitter.run .start object) ',' = true ∧
      parserObjects list = object :: parserObjects more := by
  rcases objectSplitter.pieces_cases .start [] list with
    ⟨hpass, hpieces⟩ | ⟨object, c, more, rfl, hpass, hcut, hpieces⟩
  · refine Or.inl ⟨hpass, ?_⟩
    rw [parserObjects, hpieces]
    rfl
  · have hc : c = ',' := by
      simp only [objectSplitter, Bool.and_eq_true, decide_eq_true_eq] at hcut
      exact hcut.1
    subst hc
    have hstep : objectSplitter.step (objectSplitter.run .start object) ',' = .start := by
      simp only [objectSplitter, Bool.and_eq_true, Bool.or_eq_true, beq_iff_eq] at hcut ⊢
      rcases hcut.2 with hrun | hrun
      · rw [hrun]
        rfl
      · rw [hrun]
        rfl
    refine Or.inr ⟨object, more, rfl, hpass, hcut, ?_⟩
    rw [parserObjects, hpieces, hstep, withoutBlankTail_cons (objectSplitter.pieces_ne_nil _ _ _)]
    rfl

/-- The parser gives at most one condition for each object, and one for each
exactly when all objects are readable. -/
theorem length_conditionObjects (prefixes : Prefixes) (list : Str) :
    (conditionObjects prefixes list).length ≤ (parserObjects list).length ∧
      ((conditionObjects prefixes list).length = (parserObjects list).length ↔
        ObjectsReadable prefixes (parserObjects list)) := by
  induction hn : list.length using Nat.strong_induction_on generalizing list with
  | h n ih =>
      rw [conditionObjects_eq, nextConditionObject_eq]
      cases hblank : isBlank list with
      | true =>
          rcases parserObjects_cases list with ⟨-, hobjects⟩ | ⟨object, more, rfl, -, -, -⟩
          · rw [hobjects, hblank]
            simp [ObjectsReadable]
          · rw [isBlank, trimStart_append_cons (by decide)] at hblank
            simp at hblank
      | false =>
          simp only [Bool.false_eq_true, if_false]
          rcases parserObjects_cases list with
            ⟨hpass, hobjects⟩ | ⟨object, more, rfl, hpass, hcut, hobjects⟩
          · obtain ⟨hcomma, -⟩ := openObject_spec prefixes hpass
            rw [hobjects, hblank]
            rcases hopen : openObject prefixes list with _ | ⟨cond, rest⟩
            · simp [ObjectsReadable, hopen]
            · simp only [Option.map_some, afterComma_eq_none (hcomma cond rest hopen)]
              cases cond with
              | none => simp [ObjectsReadable, hopen]
              | some cond => simp [ObjectsReadable, hopen]
          · obtain ⟨hcomma, happend⟩ := openObject_spec prefixes hpass
            rw [happend hcut more, hobjects]
            rcases hopen : openObject prefixes object with _ | ⟨cond, rest⟩
            · simp [ObjectsReadable, hopen]
            · simp only [Option.map_some, afterComma_append (hcomma cond rest hopen)]
              cases hrest : isBlank rest with
              | true =>
                  obtain ⟨hle, hiff⟩ := ih more.length (by
                    rw [← hn, List.length_append, List.length_cons]
                    omega) more rfl
                  simp only [if_true]
                  cases cond with
                  | none =>
                      simp only [Option.toList_none, List.nil_append, ObjectsReadable, hopen,
                        List.length_cons]
                      exact ⟨by omega, by simp; omega⟩
                  | some cond =>
                      simp only [Option.toList_some, List.singleton_append, ObjectsReadable, hopen,
                        List.length_cons, ← hiff]
                      exact ⟨by omega, by simp [hrest]⟩
              | false =>
                  simp only [Bool.false_eq_true, if_false]
                  cases hmore : parserObjects more with
                  | nil =>
                      cases cond with
                      | none => simp [ObjectsReadable, hopen]
                      | some cond => simp [ObjectsReadable, hopen]
                  | cons next objects =>
                      cases cond with
                      | none => simp [ObjectsReadable, hopen]
                      | some cond => simp [ObjectsReadable, hopen, hrest]

end Wac

end SolidPod
