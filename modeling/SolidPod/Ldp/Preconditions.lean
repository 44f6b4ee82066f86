import SolidPod.Foundation.CommaList

/-!
# Preconditions

Conditional requests by the entity-tag of a resource. A list of tags is cut at its commas, and
each piece loses the mark of a weak tag and its quotes. What that makes of a list is a list of
texts again: the tags themselves where none holds a comma, and fragments of the others.
-/

namespace SolidPod

open Foundation Str

namespace Ldp

inductive ConditionalOutcome where
  | proceed
  | preconditionFailed
  | notModified
  deriving DecidableEq

/-- Without the mark of a weak tag. -/
def unweak (s : Str) : Str := (stripPrefix "W/" s).getD s

/-- Without the quotes at both ends, as many as there are. -/
def unquote (s : Str) : Str := trimEndMatches '"' (trimStartMatches '"' s)

def parseEtagList (input : Str) : List Str := (commaPieces input).map fun s => unquote (unweak s)

def ifMatchFails (currentEtag : Option Str) (im : Str) : Bool :=
  let raw := trim im
  if raw = "*".toList then currentEtag.isNone
  else
    match currentEtag with
    | none => true
    | some cur => !(parseEtagList raw).any fun w => w == cur || w == "*".toList

def ifNoneMatchFails (currentEtag : Option Str) (inm : Str) : Bool :=
  let raw := trim inm
  if raw = "*".toList then currentEtag.isSome
  else
    match currentEtag with
    | none => false
    | some cur => (parseEtagList raw).any fun w => w == cur

def evaluatePreconditions (method : Str) (currentEtag ifMatch ifNoneMatch : Option Str) :
    ConditionalOutcome :=
  let methodUpper := method.map Char.toUpper
  let safe := methodUpper == "GET".toList || methodUpper == "HEAD".toList
  if ifMatch.any (ifMatchFails currentEtag) then .preconditionFailed
  else if ifNoneMatch.any (ifNoneMatchFails currentEtag) then
    if safe then .notModified else .preconditionFailed
  else .proceed

/-! ## Entity-tags and headers -/

/-- Visible characters but the quote, and what lies beyond ASCII. -/
def IsEtagChar (c : Char) : Prop := 0x21 ≤ c.toNat ∧ c ≠ '"' ∧ c.toNat ≠ 0x7F

instance (c : Char) : Decidable (IsEtagChar c) := inferInstanceAs (Decidable (_ ∧ _))

structure EntityTag where
  weak : Bool
  opaqueTag : Str
  valid : ∀ c ∈ opaqueTag, IsEtagChar c

/-- What stands before the text of a weak tag. -/
def EntityTag.mark (tag : EntityTag) : Str := if tag.weak then "W/" else []

def EntityTag.text (tag : EntityTag) : Str := tag.mark ++ '"' :: tag.opaqueTag ++ ['"']

/-- A member of a list of tags, with the blanks and tabs around it. -/
structure ListedTag where
  before : Str
  tag : EntityTag
  after : Str
  blank : ∀ c ∈ before ++ after, c = ' ' ∨ c = '\t'

def ListedTag.text (item : ListedTag) : Str := item.before ++ item.tag.text ++ item.after

/-- What an `If-Match` or `If-None-Match` header says. -/
inductive MatchHeader where
  | star
  | tags (items : List ListedTag)

def MatchHeader.text : MatchHeader → Str
  | .star => "*"
  | .tags items => join "," (items.map ListedTag.text)

/-! ## What is read of a tag -/

/-- What is read of the segments behind the first comma of a tag. -/
def laterFragments : List Str → List Str
  | [] => []
  | [last] => [unweak (trimStart last)]
  | middle :: next :: rest =>
    (if trim middle = [] then [] else [unweak (trim middle)]) ++ laterFragments (next :: rest)

/-- What is read of a tag, by the segments between its commas. -/
def fragmentsOf : List Str → List Str
  | [] => []
  | [whole] => [whole]
  | first :: next :: rest => trimEnd first :: laterFragments (next :: rest)

def EntityTag.fragments (tag : EntityTag) : List Str := fragmentsOf (tag.opaqueTag.splitOn ',')

section Reading

variable {o s : Str}

theorem dropWhile_quotes {quotes rest : Str} (hquotes : ∀ c ∈ quotes, c = '"')
    (hrest : ∀ c ∈ rest.head?, c ≠ '"') : (quotes ++ rest).dropWhile (· == '"') = rest := by
  rw [List.dropWhile_append_of_pos fun c hc => beq_iff_eq.mpr (hquotes c hc)]
  cases rest with
  | nil => rfl
  | cons c rest =>
      apply List.dropWhile_cons_of_neg
      rw [beq_iff_eq]
      exact hrest c rfl

/-- Quotes before and after a text without quotes go away. -/
theorem unquote_append {front back : Str} (hfront : ∀ c ∈ front, c = '"')
    (hback : ∀ c ∈ back, c = '"') (ho : '"' ∉ o) : unquote (front ++ o ++ back) = o := by
  rw [unquote, trimStartMatches, trimEndMatches]
  cases o with
  | nil =>
      have hboth : ∀ c ∈ front ++ back, c = '"' := List.forall_mem_append.mpr ⟨hfront, hback⟩
      have hnil : (front ++ back ++ []).dropWhile (· == '"') = [] :=
        dropWhile_quotes hboth (by simp)
      rw [List.append_nil] at hnil ⊢
      rw [hnil]
      rfl
  | cons c t =>
      have hc : c ≠ '"' := fun h => ho (h ▸ List.mem_cons_self)
      rw [List.append_assoc, dropWhile_quotes hfront (by simpa using hc), List.rdropWhile,
        List.reverse_append, dropWhile_quotes, List.reverse_reverse]
      · intro d hd
        exact hback d (List.mem_reverse.mp hd)
      · intro d hd hquote
        rw [List.head?_reverse] at hd
        exact ho (hquote ▸ List.mem_of_getLast? hd)

theorem unweak_append_quote (s : Str) : unweak (s ++ ['"']) = unweak s ++ ['"'] := by
  have hmark : ("W/" : Str) = ['W', '/'] := rfl
  rw [unweak, unweak, hmark]
  rcases s with _ | ⟨c, _ | ⟨d, t⟩⟩
  · simp [stripPrefix, List.isPrefixOf]
  · simp [stripPrefix, List.isPrefixOf]
  · by_cases h : ['W', '/'].isPrefixOf (c :: d :: t) = true
    · have h' : ['W', '/'].isPrefixOf (c :: d :: t ++ ['"']) = true := h
      rw [stripPrefix, stripPrefix, if_pos h, if_pos h']
      rfl
    · have h' : ¬ ['W', '/'].isPrefixOf (c :: d :: t ++ ['"']) = true := h
      rw [stripPrefix, stripPrefix, if_neg h, if_neg h']
      rfl

theorem unquote_of_notMem (ho : '"' ∉ o) : unquote o = o := by
  have hnone : ∀ c ∈ ([] : Str), c = '"' := by simp
  simpa using unquote_append hnone hnone ho

theorem notMem_unweak (hs : '"' ∉ s) : '"' ∉ unweak s := by
  rw [unweak]
  cases hstrip : stripPrefix ("W/" : Str) s with
  | none => exact hs
  | some rest => exact fun hmem => hs ((suffix_of_stripPrefix hstrip).subset hmem)

theorem notMem_trimStart (hs : '"' ∉ s) : '"' ∉ trimStart s :=
  fun hmem => hs ((List.dropWhile_suffix _).subset hmem)

theorem notMem_trimEnd (hs : '"' ∉ s) : '"' ∉ trimEnd s :=
  fun hmem => hs ((List.rdropWhile_prefix _ _).subset hmem)

theorem parseEtagList_append_comma (a b : Str) :
    parseEtagList (a ++ ',' :: b) = parseEtagList a ++ parseEtagList b := by
  rw [parseEtagList, commaPieces_append_comma, List.map_append]
  rfl

/-- What is read of a text behind the first comma of a tag, up to the quote that ends it. -/
theorem parseEtagList_append_quote (hs : '"' ∉ s) :
    parseEtagList (s ++ ['"']) = laterFragments (s.splitOn ',') := by
  induction hlength : s.length using Nat.strong_induction_on generalizing s with
  | _ n ih =>
      by_cases hcomma : ',' ∈ s
      · obtain ⟨a, b, rfl, ha⟩ := List.eq_append_cons_of_mem hcomma
        have hqa : '"' ∉ a := fun hmem => hs (List.mem_append_left _ hmem)
        have hqb : '"' ∉ b :=
          fun hmem => hs (List.mem_append_right _ (List.mem_cons_of_mem _ hmem))
        have hrest : parseEtagList (b ++ ['"']) = laterFragments (b.splitOn ',') := by
          apply ih b.length _ hqb rfl
          simp only [List.length_append, List.length_cons] at hlength
          omega
        have hfront : parseEtagList a = if trim a = [] then [] else [unweak (trim a)] := by
          have htrim : '"' ∉ trim a := notMem_trimEnd (notMem_trimStart hqa)
          rw [parseEtagList, commaPieces_of_notMem ha]
          split_ifs
          · rfl
          · rw [List.map_singleton, unquote_of_notMem (notMem_unweak htrim)]
        rw [List.append_assoc, List.cons_append, parseEtagList_append_comma, hrest, hfront,
          List.splitOn_append_cons_self_of_not_mem ha]
        cases hsegments : b.splitOn ',' with
        | nil => exact absurd hsegments (List.splitOn_ne_nil ',' b)
        | cons next rest => rfl
      · have htext : ',' ∉ s ++ ['"'] := by simp [hcomma]
        have htrim : trim (s ++ ['"']) = trimStart s ++ ['"'] := by
          rw [trim, trimStart_append_cons (by decide), trimEnd_append_singleton_of_not (by decide)]
        have hfront : ∀ c ∈ ([] : Str), c = '"' := by simp
        have hback : ∀ c ∈ ['"'], c = '"' := by simp
        have hunquote := unquote_append hfront hback (notMem_unweak (notMem_trimStart hs))
        rw [List.nil_append] at hunquote
        rw [parseEtagList, commaPieces_of_notMem htext, htrim, if_neg (by simp),
          List.map_singleton, unweak_append_quote, hunquote, List.splitOn_eq_singleton hcomma]
        rfl

theorem EntityTag.quote_notMem (tag : EntityTag) : '"' ∉ tag.opaqueTag :=
  fun hmem => (tag.valid _ hmem).2.1 rfl

theorem EntityTag.mark_cases (tag : EntityTag) : tag.mark = ['W', '/'] ∨ tag.mark = [] := by
  unfold mark
  cases tag.weak with
  | true => exact .inl rfl
  | false => exact .inr rfl

theorem unweak_mark (tag : EntityTag) (t : Str) : unweak (tag.mark ++ '"' :: t) = '"' :: t := by
  rcases tag.mark_cases with hmark | hmark
  · rw [hmark]
    rfl
  · rw [hmark]
    rfl

/-- The front of a tag begins with its mark or its quote, so only its end is trimmed. -/
theorem trim_mark (tag : EntityTag) (t : Str) :
    trim (tag.mark ++ '"' :: t) = tag.mark ++ '"' :: trimEnd t := by
  rcases tag.mark_cases with hmark | hmark
  · rw [hmark, trim]
    exact trimEnd_append_cons (by decide) ['W', '/'] t
  · rw [hmark, trim]
    exact trimEnd_append_cons (by decide) [] t

/-- A tag is read as its fragments. -/
theorem parseEtagList_text (tag : EntityTag) : parseEtagList tag.text = tag.fragments := by
  have hquote := tag.quote_notMem
  have hone : ∀ c ∈ ['"'], c = '"' := by simp
  have hnone : ∀ c ∈ ([] : Str), c = '"' := by simp
  have hmark : ',' ∉ tag.mark := by
    rcases tag.mark_cases with h | h
    · rw [h]
      decide
    · rw [h]
      exact List.not_mem_nil
  have htext : tag.text = tag.mark ++ '"' :: (tag.opaqueTag ++ ['"']) := by
    rw [EntityTag.text]
    simp
  rw [htext, EntityTag.fragments]
  by_cases hcomma : ',' ∈ tag.opaqueTag
  · obtain ⟨a, b, hsplit, ha⟩ := List.eq_append_cons_of_mem hcomma
    rw [hsplit] at hquote ⊢
    have hqa : '"' ∉ a := fun hmem => hquote (List.mem_append_left _ hmem)
    have hqb : '"' ∉ b :=
      fun hmem => hquote (List.mem_append_right _ (List.mem_cons_of_mem _ hmem))
    have hfront : parseEtagList (tag.mark ++ '"' :: a) = [trimEnd a] := by
      have hcut : ',' ∉ tag.mark ++ '"' :: a := by simp [hmark, ha]
      have hunquote := unquote_append hone hnone (notMem_trimEnd hqa)
      rw [List.append_nil, List.singleton_append] at hunquote
      rw [parseEtagList, commaPieces_of_notMem hcut, trim_mark, if_neg (by simp),
        List.map_singleton, unweak_mark, hunquote]
    have hshape : tag.mark ++ '"' :: (a ++ ',' :: b ++ ['"']) =
        (tag.mark ++ '"' :: a) ++ ',' :: (b ++ ['"']) := by simp
    rw [hshape, parseEtagList_append_comma, hfront, parseEtagList_append_quote hqb,
      List.splitOn_append_cons_self_of_not_mem ha]
    cases hsegments : b.splitOn ',' with
    | nil => exact absurd hsegments (List.splitOn_ne_nil ',' b)
    | cons next rest => rfl
  · have hcut : ',' ∉ tag.mark ++ '"' :: (tag.opaqueTag ++ ['"']) := by simp [hmark, hcomma]
    have hunquote := unquote_append hone hone hquote
    rw [List.append_assoc, List.singleton_append] at hunquote
    rw [parseEtagList, commaPieces_of_notMem hcut, trim_mark,
      trimEnd_append_singleton_of_not (by decide), if_neg (by simp), List.map_singleton,
      unweak_mark, hunquote, List.splitOn_eq_singleton hcomma]
    rfl

end Reading

/-! ## What is read of a header -/

theorem ListedTag.commaPieces_text (item : ListedTag) :
    commaPieces item.text = commaPieces item.tag.text := by
  have hblank : ∀ c ∈ item.before ++ item.after, isWhitespace c = true := by
    intro c hc
    rcases item.blank c hc with rfl | rfl
    · decide
    · decide
  rw [ListedTag.text, commaPieces_append_blank fun c hc => hblank c (List.mem_append_right _ hc),
    commaPieces_blank_append fun c hc => hblank c (List.mem_append_left _ hc)]

/-- A list of tags is read as the fragments of its tags. -/
theorem parseEtagList_trim_text (items : List ListedTag) :
    parseEtagList (trim (MatchHeader.tags items).text) =
      items.flatMap fun item => item.tag.fragments := by
  rw [parseEtagList, commaPieces_trim, MatchHeader.text, commaPieces_join, List.map_flatMap,
    List.flatMap_map]
  apply List.flatMap_congr
  intro item _
  rw [item.commaPieces_text]
  exact parseEtagList_text item.tag

/-- A list of tags is not the star. -/
theorem trim_text_ne_star (items : List ListedTag) :
    trim (MatchHeader.tags items).text ≠ "*".toList := by
  intro hstar
  obtain ⟨w, w', htext, hw, hw'⟩ := exists_trim_eq (MatchHeader.tags items).text
  have hnoQuote : '"' ∉ (MatchHeader.tags items).text := by
    rw [htext, hstar]
    intro hmem
    rcases List.mem_append.mp hmem with hmem | hmem
    · rcases List.mem_append.mp hmem with hmem | hmem
      · exact absurd (hw _ hmem) (by decide)
      · exact absurd hmem (by decide)
    · exact absurd (hw' _ hmem) (by decide)
  cases items with
  | nil => cases hstar
  | cons item rest =>
      have hquote : '"' ∈ item.text := by simp [ListedTag.text, EntityTag.text]
      have hwhole : item.text <+: (MatchHeader.tags (item :: rest)).text := by
        cases rest with
        | nil => exact ⟨[], by simp [MatchHeader.text, join]⟩
        | cons next rest => exact ⟨_, by simp [MatchHeader.text, join, List.intercalate]; rfl⟩
      exact hnoQuote (hwhole.subset hquote)

/-! ## The answers to a request -/

/-- Whether each header lets the request pass, and whether the request is for reading. -/
structure Answers where
  ifMatch : Bool
  ifNoneMatch : Bool
  safe : Bool
  deriving DecidableEq

def Answers.outcome (answers : Answers) : ConditionalOutcome :=
  if answers.ifMatch = false then .preconditionFailed
  else if answers.ifNoneMatch = false then
    if answers.safe then .notModified else .preconditionFailed
  else .proceed

def isGetOrHead (method : Str) : Bool := method == "GET".toList || method == "HEAD".toList

section Required

variable (current : Option Str)

/-- A strong tag that is the current one, or the star and something current. -/
def ifMatchHolds : MatchHeader → Bool
  | .star => current.isSome
  | .tags items =>
    current.any fun c => items.any fun item => !item.tag.weak && item.tag.opaqueTag == c

/-- No tag, weak or strong, is the current one; the star is any. -/
def ifNoneMatchHolds : MatchHeader → Bool
  | .star => current.isNone
  | .tags items => !(current.any fun c => items.any fun item => item.tag.opaqueTag == c)

def requiredAnswers (method : Str) (ifMatch ifNoneMatch : Option MatchHeader) : Answers :=
  ⟨ifMatch.all (ifMatchHolds current), ifNoneMatch.all (ifNoneMatchHolds current),
    isGetOrHead method⟩

/-- As `ifMatchHolds`, by the fragments of the tags. A fragment may also be the star. -/
def ifMatchSeen : MatchHeader → Bool
  | .star => current.isSome
  | .tags items =>
    current.any fun c => items.any fun item => item.tag.fragments.any fun w =>
      w == c || w == "*".toList

def ifNoneMatchSeen : MatchHeader → Bool
  | .star => current.isNone
  | .tags items => !(current.any fun c => items.any fun item =>
      item.tag.fragments.any fun w => w == c)

def seenAnswers (method : Str) (ifMatch ifNoneMatch : Option MatchHeader) : Answers :=
  ⟨ifMatch.all (ifMatchSeen current), ifNoneMatch.all (ifNoneMatchSeen current),
    isGetOrHead (method.map Char.toUpper)⟩

end Required

/-- Two answers lead to one outcome: they agree as far as it depends on them, or each that lets
the request pass at first refuses it in the end. -/
def Answers.Agree (a b : Answers) : Prop :=
  (a.ifMatch = b.ifMatch ∧ (a.ifMatch = true → a.ifNoneMatch = b.ifNoneMatch ∧
    (a.ifNoneMatch = false → a.safe = b.safe))) ∨
  (a.ifMatch ≠ b.ifMatch ∧ (a.ifMatch = true → a.ifNoneMatch = false ∧ a.safe = false) ∧
    (b.ifMatch = true → b.ifNoneMatch = false ∧ b.safe = false))

theorem Answers.outcome_eq_iff_agree (a b : Answers) : a.outcome = b.outcome ↔ a.Agree b := by
  obtain ⟨a₁, a₂, a₃⟩ := a
  obtain ⟨b₁, b₂, b₃⟩ := b
  unfold outcome Agree
  revert a₁ a₂ a₃ b₁ b₂ b₃
  decide

section Request

variable {current : Option Str}

theorem ifMatchFails_text (header : MatchHeader) :
    ifMatchFails current header.text = !ifMatchSeen current header := by
  cases header with
  | star =>
      cases current with
      | none => rfl
      | some c => rfl
  | tags items =>
      unfold ifMatchFails
      simp only [if_neg (trim_text_ne_star items), parseEtagList_trim_text, ifMatchSeen]
      cases current with
      | none => rfl
      | some c => simp only [List.any_flatMap, Option.any_some]

theorem ifNoneMatchFails_text (header : MatchHeader) :
    ifNoneMatchFails current header.text = !ifNoneMatchSeen current header := by
  cases header with
  | star =>
      cases current with
      | none => rfl
      | some c => rfl
  | tags items =>
      unfold ifNoneMatchFails
      simp only [if_neg (trim_text_ne_star items), parseEtagList_trim_text, ifNoneMatchSeen]
      cases current with
      | none => rfl
      | some c => simp only [List.any_flatMap, Option.any_some, Bool.not_not]

/-- A header that is there is the one that is asked. -/
theorem any_map_text {fails : Str → Bool} {holds : MatchHeader → Bool}
    (h : ∀ header : MatchHeader, fails header.text = !holds header) (header : Option MatchHeader) :
    (header.map MatchHeader.text).any fails = !header.all holds := by
  cases header with
  | none => rfl
  | some header => exact h header

/-- The outcome is that of the answers by fragments. -/
theorem evaluatePreconditions_eq_seen (method : Str) (current : Option Str)
    (ifMatch ifNoneMatch : Option MatchHeader) :
    evaluatePreconditions method current (ifMatch.map MatchHeader.text)
      (ifNoneMatch.map MatchHeader.text) =
        (seenAnswers current method ifMatch ifNoneMatch).outcome := by
  unfold evaluatePreconditions
  simp only [any_map_text ifMatchFails_text, any_map_text ifNoneMatchFails_text, Answers.outcome,
    seenAnswers, Bool.not_eq_true', isGetOrHead]
  rfl

/-- The outcome is the required one exactly when the fragments of the tags answer as the tags
do. -/
theorem evaluatePreconditions_eq_required_iff (method : Str) (current : Option Str)
    (ifMatch ifNoneMatch : Option MatchHeader) :
    evaluatePreconditions method current (ifMatch.map MatchHeader.text)
      (ifNoneMatch.map MatchHeader.text) =
        (requiredAnswers current method ifMatch ifNoneMatch).outcome ↔
      (requiredAnswers current method ifMatch ifNoneMatch).Agree
        (seenAnswers current method ifMatch ifNoneMatch) := by
  rw [evaluatePreconditions_eq_seen, eq_comm, Answers.outcome_eq_iff_agree]

theorem any_congr_mem {α : Type} {l : List α} {p q : α → Bool} (h : ∀ a ∈ l, p a = q a) :
    l.any p = l.any q := by
  rw [Bool.eq_iff_iff, List.any_eq_true, List.any_eq_true]
  apply exists_congr
  intro a
  apply and_congr_right
  intro ha
  rw [h a ha]

/-- A tag without a comma is read as it is. -/
theorem EntityTag.fragments_of_notMem {tag : EntityTag} (h : ',' ∉ tag.opaqueTag) :
    tag.fragments = [tag.opaqueTag] := by
  rw [fragments, List.splitOn_eq_singleton h]
  rfl

/-- Headers of strong tags without commas and stars answer as they should. -/
theorem agree_of_plain {method : Str} {ifMatch ifNoneMatch : Option MatchHeader}
    (hmethod : method.map Char.toUpper = method)
    (hmatch : ∀ items, ifMatch = some (.tags items) → ∀ item ∈ items,
      ',' ∉ item.tag.opaqueTag ∧ item.tag.opaqueTag ≠ "*" ∧ item.tag.weak = false)
    (hnone : ∀ items, ifNoneMatch = some (.tags items) → ∀ item ∈ items,
      ',' ∉ item.tag.opaqueTag) :
    (requiredAnswers current method ifMatch ifNoneMatch).Agree
      (seenAnswers current method ifMatch ifNoneMatch) := by
  have hfirst : ifMatch.all (ifMatchHolds current) = ifMatch.all (ifMatchSeen current) := by
    cases ifMatch with
    | none => rfl
    | some header =>
        cases header with
        | star => rfl
        | tags items =>
            change Option.any _ current = Option.any _ current
            congr 1
            funext c
            apply any_congr_mem
            intro item hitem
            obtain ⟨hcomma, hstar, hstrong⟩ := hmatch items rfl item hitem
            have hother : (item.tag.opaqueTag == "*".toList) = false :=
              beq_eq_false_iff_ne.mpr hstar
            simp only [EntityTag.fragments_of_notMem hcomma, hstrong, List.any_cons, List.any_nil,
              hother, Bool.or_false, Bool.not_false, Bool.true_and]
  have hsecond : ifNoneMatch.all (ifNoneMatchHolds current) =
      ifNoneMatch.all (ifNoneMatchSeen current) := by
    cases ifNoneMatch with
    | none => rfl
    | some header =>
        cases header with
        | star => rfl
        | tags items =>
            change (!Option.any _ current) = !Option.any _ current
            congr 2
            funext c
            apply any_congr_mem
            intro item hitem
            simp only [EntityTag.fragments_of_notMem (hnone items rfl item hitem), List.any_cons,
              List.any_nil, Bool.or_false]
  exact .inl ⟨hfirst, fun _ => ⟨hsecond, fun _ => congrArg isGetOrHead hmethod.symm⟩⟩

/-- The header with the one tag `"a,b"`. -/
def commaHeader : MatchHeader :=
  .tags [⟨[], ⟨false, "a,b", by decide⟩, [], by simp⟩]

/-- The tag `"a,b"` lets an update of `a` pass. -/
theorem not_required_commaHeader :
    evaluatePreconditions "PUT" (some ("a" : Str)) (some ("\"a,b\"" : Str)) none ≠
        (requiredAnswers (some ("a" : Str)) "PUT" (some commaHeader) none).outcome ∧
      commaHeader.text = "\"a,b\"" := by
  decide

end Request

end Ldp

end SolidPod
