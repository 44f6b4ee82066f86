import SolidPod.Wac.Tokens

/-!
# Reading a text that is cut short

A statement and a pair may end anywhere in the text they are cut from. What the parser reads
from a front part of a known text is what it reads from the whole, or less.
-/

namespace SolidPod

namespace Wac

open Foundation Str

/-- A text that is popped as it stands, when something behind it stops it. -/
structure IsWord (word : Str) : Prop where
  ne_nil : word ≠ []
  chars : ∀ c ∈ word, endsToken c = false
  head : ∀ c ∈ word.head?, c ≠ '<' ∧ c ≠ '"'

instance (word : Str) : Decidable (IsWord word) :=
  decidable_of_iff (word ≠ [] ∧ (∀ c ∈ word, endsToken c = false) ∧
      ∀ c ∈ word.head?, c ≠ '<' ∧ c ≠ '"')
    ⟨fun h => ⟨h.1, h.2.1, h.2.2⟩, fun h => ⟨h.ne_nil, h.chars, h.head⟩⟩

theorem IsWord.not_blank {word : Str} (h : IsWord word) : ∀ c ∈ word, isWhitespace c = false :=
  fun c hc => isWhitespace_of_not_endsToken (h.chars c hc)

/-- Only the white space before a text and what is left behind it go with trimming. -/
theorem trim_isPrefix {w t q : Str} (hw : ∀ c ∈ w, isWhitespace c = true)
    (ht : ∀ c ∈ t.head?, isWhitespace c = false) (hq : q <+: w ++ t) : trim q <+: t := by
  rcases isPrefix_append_iff.mp hq with hblank | ⟨q', rfl, hq'⟩
  · rw [trim_of_blank fun c hc => hw c (hblank.mem hc)]
    exact List.nil_prefix
  · rw [trim_blank_append hw]
    have hstart : trimStart q' = q' := by
      cases q' with
      | nil => rfl
      | cons c q' =>
          refine trimStart_cons_of_not (ht c ?_) q'
          obtain ⟨s, rfl⟩ := hq'
          rfl
    rw [trim, hstart]
    exact (List.rdropWhile_prefix _ _).trans hq'

/-! ## The two cutters -/

/-- Whether a string is open behind a text. -/
def inString (q : Bool) (t : Str) : Bool := t.foldl (fun q c => if c = '"' then !q else q) q

theorem inString_append (q : Bool) (a b : Str) :
    inString q (a ++ b) = inString (inString q a) b := by
  simp [inString]

theorem inString_not (q : Bool) (t : Str) : inString (!q) t = !(inString q t) := by
  induction t generalizing q with
  | nil => rfl
  | cons c t ih =>
      simp only [inString, List.foldl_cons] at ih ⊢
      split
      · exact ih (!q)
      · exact ih q

theorem run_statementSplitter_snd (s : Nat × Bool) (t : Str) :
    (statementSplitter.run s t).2 = inString s.2 t := by
  induction t generalizing s with
  | nil => rfl
  | cons c t ih =>
      obtain ⟨d, q⟩ := s
      have hstep : (statementSplitter.step (d, q) c).2 = if c = '"' then !q else q := by
        simp only [statementSplitter]
        by_cases hopen : c = '<'
        · cases q <;> simp [hopen]
        · by_cases hclose : c = '>'
          · cases q <;> simp [hclose]
          · simp only [hopen, hclose, decide_false, Bool.false_and, Bool.false_eq_true, if_false]
            split <;> rfl
      rw [Splitter.run_cons, ih, hstep]
      rfl

theorem run_predicateSplitter_snd (s : Nat × Bool) (t : Str) :
    (predicateSplitter.run s t).2 = inString s.2 t := by
  induction t generalizing s with
  | nil => rfl
  | cons c t ih =>
      obtain ⟨d, q⟩ := s
      have hstep : (predicateSplitter.step (d, q) c).2 = if c = '"' then !q else q := by
        simp only [predicateSplitter]
        split
        · rfl
        · split
          · rfl
          · split <;> rfl
      rw [Splitter.run_cons, ih, hstep]
      rfl

theorem monotone_statementSplitter : Splitter.Monotone statementSplitter where
  step := by
    intro d d' q c h
    simp only [statementSplitter]
    split
    · exact ⟨by simpa using h, rfl⟩
    · split
      · exact ⟨Nat.sub_le_sub_right h 1, rfl⟩
      · split
        · exact ⟨h, rfl⟩
        · exact ⟨h, rfl⟩
  cuts := by
    intro d d' q c h hcut
    cases d' with
    | zero =>
        rw [Nat.le_zero.mp h] at hcut
        exact hcut
    | succ d' => simp [statementSplitter]

theorem monotone_predicateSplitter : Splitter.Monotone predicateSplitter where
  step := by
    intro d d' q c h
    simp only [predicateSplitter]
    split
    · exact ⟨h, rfl⟩
    · split
      · exact ⟨by simpa using h, rfl⟩
      · split
        · exact ⟨Nat.sub_le_sub_right h 1, rfl⟩
        · exact ⟨h, rfl⟩
  cuts := by
    intro d d' q c h hcut
    cases d' with
    | zero =>
        rw [Nat.le_zero.mp h] at hcut
        exact hcut
    | succ d' => simp [predicateSplitter]

theorem eq_dot_of_cuts {s : Nat × Bool} {c : Char} (h : statementSplitter.cuts s c = true) :
    c = '.' := by
  simp only [statementSplitter, Bool.and_eq_true, decide_eq_true_eq] at h
  exact h.1.1

theorem predicateSplitter_cuts_iff {s : Nat × Bool} {c : Char} :
    predicateSplitter.cuts s c = true ↔ c = ';' ∧ s = (0, false) := by
  obtain ⟨d, q⟩ := s
  simp only [predicateSplitter, Bool.and_eq_true, decide_eq_true_eq, beq_iff_eq, Prod.mk.injEq,
    Bool.not_eq_true']
  tauto

/-- Characters that the cutter of a predicate list does not look at. -/
def IsOrdinary (t : Str) : Prop := ∀ c ∈ t, c ≠ '"' ∧ c ≠ '[' ∧ c ≠ ']' ∧ c ≠ ';'

instance (t : Str) : Decidable (IsOrdinary t) :=
  inferInstanceAs (Decidable (∀ c ∈ t, c ≠ '"' ∧ c ≠ '[' ∧ c ≠ ']' ∧ c ≠ ';'))

theorem IsOrdinary.append {a b : Str} (ha : IsOrdinary a) (hb : IsOrdinary b) :
    IsOrdinary (a ++ b) :=
  List.forall_mem_append.mpr ⟨ha, hb⟩

theorem IsOrdinary.neutral {t : Str} (h : IsOrdinary t) (s : Nat × Bool) :
    predicateSplitter.Neutral s t := by
  refine Splitter.neutral_of_forall fun c hc => ?_
  obtain ⟨hquote, hopen, hclose, hsemi⟩ := h c hc
  constructor
  · rw [← Bool.not_eq_true, predicateSplitter_cuts_iff]
    exact fun hcut => hsemi hcut.1
  · obtain ⟨d, q⟩ := s
    simp [predicateSplitter, hquote, hopen, hclose]

/-- Characters that the cutter of statements does not look at. -/
theorem neutral_statementSplitter {t : Str}
    (h : ∀ c ∈ t, c ≠ '"' ∧ c ≠ '<' ∧ c ≠ '>' ∧ c ≠ '.') (s : Nat × Bool) :
    statementSplitter.Neutral s t := by
  refine Splitter.neutral_of_forall fun c hc => ?_
  obtain ⟨hquote, hopen, hclose, hdot⟩ := h c hc
  obtain ⟨d, q⟩ := s
  simp [statementSplitter, hquote, hopen, hclose, hdot]

/-- In a string nothing but its end is looked at. -/
theorem neutral_of_inString {t : Str} (h : '"' ∉ t) (d : ℕ) :
    statementSplitter.Neutral (d, true) t ∧ predicateSplitter.Neutral (d, true) t := by
  have hne : ∀ c ∈ t, c ≠ '"' := by
    rintro c hc rfl
    exact h hc
  constructor
  · refine Splitter.neutral_of_forall fun c hc => ?_
    simp [statementSplitter, hne c hc]
  · refine Splitter.neutral_of_forall fun c hc => ?_
    simp [predicateSplitter, hne c hc]

/-- Inside an IRI that is not closed no statement ends. -/
theorem passes_statementSplitter_of_open {t : Str} (h : '>' ∉ t) {s : Nat × Bool}
    (hs : 1 ≤ s.1) :
    statementSplitter.Passes s t ∧ 1 ≤ (statementSplitter.run s t).1 := by
  induction t generalizing s with
  | nil => exact ⟨trivial, hs⟩
  | cons c t ih =>
      obtain ⟨d, q⟩ := s
      rw [List.mem_cons, not_or] at h
      have hd : d ≠ 0 := Nat.one_le_iff_ne_zero.mp hs
      have hstep : 1 ≤ (statementSplitter.step (d, q) c).1 := by
        simp only [statementSplitter, Ne.symm h.1, decide_false, Bool.false_and, if_false,
          Bool.false_eq_true]
        split
        · exact Nat.le_add_left 1 d
        · split <;> exact hs
      obtain ⟨hpass, hrun⟩ := ih h.2 hstep
      exact ⟨⟨by simp [statementSplitter, hd], hpass⟩, hrun⟩

/-! ## One term -/

/-- The term between two brackets, when both are there. -/
theorem turtlePopTerm_iri_isPrefix {q v r tok rest : Str} (hv : '>' ∉ v)
    (hq : q <+: '<' :: v ++ '>' :: r) (hne : q ≠ []) (h : turtlePopTerm q = some (tok, rest)) :
    tok = v ∧ rest <+: r ∧ q = '<' :: v ++ '>' :: rest := by
  cases q with
  | nil => exact absurd rfl hne
  | cons c q =>
      obtain ⟨rfl, s, hs⟩ := List.cons_prefix_cons.mp hq
      rw [turtlePopTerm_iri] at h
      obtain ⟨rfl, htok⟩ := eq_append_of_splitOnce h
      have hsides : tok ++ '>' :: (rest ++ s) = v ++ '>' :: r := by
        simpa using hs
      rcases append_cons_eq_append_cons (a := []) htok hv hsides with ⟨rfl, hr⟩ | ⟨a', ha', -⟩
      · exact ⟨rfl, ⟨s, hr⟩, rfl⟩
      · exact absurd ha' (by simp)

/-- A word that is cut short is popped as far as it goes. -/
theorem turtlePopTerm_word_isPrefix {q word r tok rest : Str} {c : Char} (hword : IsWord word)
    (hc : endsToken c = true) (hq : q <+: word ++ c :: r) (hne : q ≠ [])
    (h : turtlePopTerm q = some (tok, rest)) :
    (tok = q ∧ rest = [] ∧ q <+: word) ∨ (tok = word ∧ rest <+: c :: r ∧ q = word ++ rest) := by
  have hpop : ∀ t t' : Str, t ≠ [] → (∀ d ∈ t, endsToken d = false) →
      (∀ d ∈ t.head?, d ≠ '<' ∧ d ≠ '"') → (∀ d ∈ t'.head?, endsToken d = true) →
      turtlePopTerm (t ++ t') = some (t, t') := by
    intro t t' htne hchars hhead ht'
    cases t with
    | nil => exact absurd rfl htne
    | cons d t =>
        have hall : ∀ e ∈ d :: t, (!endsToken e) = true := fun e he => by simp [hchars e he]
        rw [List.cons_append, turtlePopTerm_token (hhead d rfl).1 (hhead d rfl).2
          (isWhitespace_of_not_endsToken (hchars d (by simp))), ← List.cons_append,
          List.takeWhile_append_of_pos hall, List.dropWhile_append_of_pos hall]
        cases t' with
        | nil => simp
        | cons e t' => simp [ht' e rfl]
  rcases isPrefix_append_iff.mp hq with hshort | ⟨q', rfl, hq'⟩
  · have hshortWord := hpop q [] hne (fun d hd => hword.chars d (hshort.mem hd)) (by
      intro d hd
      refine hword.head d ?_
      obtain ⟨s, hs⟩ := hshort
      rw [← hs]
      exact List.mem_head?_append_of_mem_head? hd) (by simp)
    rw [List.append_nil, h] at hshortWord
    obtain ⟨rfl, rfl⟩ := Prod.mk.inj (Option.some.inj hshortWord)
    exact Or.inl ⟨rfl, rfl, hshort⟩
  · have hlong := hpop word q' hword.ne_nil hword.chars hword.head (by
      intro d hd
      obtain ⟨s, hs⟩ := hq'
      have hhead : d ∈ (c :: r).head? := by
        rw [← hs]
        exact List.mem_head?_append_of_mem_head? hd
      obtain rfl := Option.some.inj hhead
      exact hc)
    rw [h] at hlong
    obtain ⟨rfl, rfl⟩ := Prod.mk.inj (Option.some.inj hlong)
    exact Or.inr ⟨rfl, hq', rfl⟩

/-- The subject of a statement is popped, and what is behind it is read. -/
theorem exists_body {w v t stmt subject body : Str} (hw : ∀ c ∈ w, isWhitespace c = true)
    (hv : '>' ∉ v) (hstmt : stmt = w ++ ('<' :: v ++ '>' :: t))
    (hpop : turtlePopTerm (trim stmt) = some (subject, body)) :
    ∃ w', t = body ++ w' ∧ ∀ c ∈ w', isWhitespace c = true := by
  have htrim : trim stmt = trimEnd ('<' :: v ++ '>' :: t) := by
    rw [hstmt, trim_blank_append hw, trim]
    exact congrArg trimEnd (trimStart_cons_of_not (by decide) _)
  obtain ⟨w', hw', hblank⟩ := exists_trimEnd_append ('<' :: v ++ '>' :: t)
  rw [← htrim] at hblank
  have hne : trim stmt ≠ [] := by
    intro hnil
    rw [hnil, List.nil_append] at hblank
    exact absurd ( hw' '<' (hblank ▸ List.mem_cons_self)) (by decide)
  obtain ⟨-, -, hq⟩ := turtlePopTerm_iri_isPrefix hv ⟨w', hblank.symm⟩ hne hpop
  refine ⟨w', ?_, hw'⟩
  rw [hq] at hblank
  have hcancel : ('<' :: v ++ ['>']) ++ t = ('<' :: v ++ ['>']) ++ (body ++ w') := by
    simpa using hblank
  exact List.append_cancel_left hcancel

/-! ## Object lists of one object -/

theorem afterComma_isPrefix_eq_none {w t rest : Str} (hw : ∀ c ∈ w, isWhitespace c = true)
    (ht : ∀ c ∈ t.head?, isWhitespace c = false ∧ c ≠ ',') (hrest : rest <+: w ++ t) :
    afterComma rest = none := by
  have hhead : ∀ c ∈ (trimStart rest).head?, c ≠ ',' := by
    intro c hc
    rcases isPrefix_append_iff.mp hrest with hblank | ⟨t', rfl, ht'⟩
    · have hnil := trimStart_blank_append (fun c hc => hw c (hblank.mem hc)) []
      rw [List.append_nil] at hnil
      rw [hnil] at hc
      cases hc
    · rw [trimStart_blank_append hw] at hc
      cases t' with
      | nil => cases hc
      | cons d t' =>
          obtain ⟨s, rfl⟩ := ht'
          obtain ⟨hd, hne⟩ := ht d rfl
          rw [trimStart_cons_of_not hd] at hc
          obtain rfl := Option.some.inj hc
          exact hne
  rw [afterComma]
  cases hs : stripPrefix [','] (trimStart rest) with
  | none => rfl
  | some u =>
      rw [stripPrefix_eq_some.mp hs] at hhead
      exact absurd rfl (hhead ',' rfl)

/-- A list has one object when no comma is behind the first. -/
theorem eq_of_mem_parseObjectList {prefixes : Prefixes} {input o : Str}
    (h : o ∈ parseObjectList prefixes input)
    (hcomma : ∀ tok rest, trim input ≠ [] → turtlePopTerm (trim input) = some (tok, rest) →
      afterComma rest = none) :
    trim input ≠ [] ∧ ∃ tok rest, turtlePopTerm (trim input) = some (tok, rest) ∧
      o = expandCurieOrIri prefixes tok := by
  have hstart : trimStart (trim input) = trim input := by
    rcases trimStart_cases input with hnil | ⟨c, t, ht, hc⟩
    · rw [trim, hnil]
      rfl
    · have hprefix : trim input <+: c :: t := by
        rw [trim, ht]
        exact List.rdropWhile_prefix _ _
      cases htrim : trim input with
      | nil => rfl
      | cons d u =>
          rw [htrim] at hprefix
          rw [(List.cons_prefix_cons.mp hprefix).1]
          exact trimStart_cons_of_not hc u
  rw [parseObjectList, consumeAll_eq fun _ _ _ => length_lt_of_nextObject, nextObject, hstart] at h
  simp only [] at h
  by_cases hne : trim input = []
  · rw [hne] at h
    cases h
  · rw [List.isEmpty_eq_false_iff.mpr hne, if_neg (by simp)] at h
    cases hpop : turtlePopTerm (trim input) with
    | none =>
        rw [hpop] at h
        cases h
    | some r =>
        obtain ⟨tok, rest⟩ := r
        rw [hpop, Option.map_some] at h
        simp only [hcomma tok rest hne hpop] at h
        exact ⟨hne, tok, rest, rfl, List.mem_singleton.mp h⟩

/-- The object of a list that begins with an IRI. -/
theorem object_of_iri {prefixes : Prefixes} {rest v r o : Str} (hv : '>' ∉ v)
    (hrest : rest <+: ' ' :: ('<' :: v ++ '>' :: (' ' :: ';' :: r)))
    (ho : o ∈ parseObjectList prefixes (trim rest)) : o = expandCurieOrIri prefixes v := by
  have hfront : trim (trim rest) <+: '<' :: v ++ '>' :: (' ' :: ';' :: r) := by
    rw [trim_trim]
    refine trim_isPrefix (w := [' ']) (by decide) ?_ hrest
    intro c hc
    obtain rfl := Option.some.inj hc
    decide
  obtain ⟨hne, tok, more, hpop, rfl⟩ := eq_of_mem_parseObjectList ho fun tok more hne hpop => by
    refine afterComma_isPrefix_eq_none (w := [' ']) (t := ';' :: r) (by decide) ?_
      (turtlePopTerm_iri_isPrefix hv hfront hne hpop).2.1
    intro c hc
    obtain rfl := Option.some.inj hc
    decide
  rw [(turtlePopTerm_iri_isPrefix hv hfront hne hpop).1]

/-- The object of a list that begins with a word, of which `x` at least is there. -/
theorem object_of_word {prefixes : Prefixes} {rest v x r o : Str} (hv : IsWord v)
    (hrest : rest <+: ' ' :: (v ++ ' ' :: ';' :: r)) (hx : x ≠ []) (hxv : x <+: v)
    (hxrest : ' ' :: x <+: rest) (ho : o ∈ parseObjectList prefixes (trim rest)) :
    ∃ u, x <+: u ∧ u <+: v ∧ o = expandCurieOrIri prefixes u := by
  have hfront : trim (trim rest) <+: v ++ ' ' :: (';' :: r) := by
    rw [trim_trim]
    refine trim_isPrefix (w := [' ']) (by decide) ?_ hrest
    intro c hc
    refine hv.not_blank c ?_
    cases v with
    | nil => exact absurd rfl hv.ne_nil
    | cons d v =>
        obtain rfl := Option.some.inj hc
        exact List.mem_cons_self
  obtain ⟨hne, tok, more, hpop, rfl⟩ := eq_of_mem_parseObjectList ho fun tok more hne hpop => by
    rcases turtlePopTerm_word_isPrefix hv (by decide) hfront hne hpop with
      ⟨-, rfl, -⟩ | ⟨-, hmore, -⟩
    · rfl
    · refine afterComma_isPrefix_eq_none (w := [' ']) (t := ';' :: r) (by decide) ?_ hmore
      intro c hc
      obtain rfl := Option.some.inj hc
      decide
  rcases turtlePopTerm_word_isPrefix hv (by decide) hfront hne hpop with
    ⟨rfl, -, hshort⟩ | ⟨rfl, -⟩
  · refine ⟨_, ?_, hshort, rfl⟩
    obtain ⟨s, rfl⟩ := hxrest
    rw [trim_trim, List.cons_append, ← List.singleton_append, trim_blank_append (by decide),
      trim_word_append hx fun c hc => hv.not_blank c (hxv.mem hc)]
    exact List.prefix_append x _
  · exact ⟨_, hxv, List.prefix_rfl, rfl⟩

/-! ## Pairs -/

/-- A pair that is cut from a known text has the predicate of the text, when it states
anything. -/
theorem Asserts.of_isPrefix {prefixes : Prefixes} {pair name o w word r : Str}
    (h : Asserts prefixes pair name o) (hw : ∀ c ∈ w, isWhitespace c = true)
    (hword : IsWord word) (hpair : pair <+: w ++ (word ++ ' ' :: r)) :
    isAclTerm name (expandCurieOrIri prefixes word) = true ∧ ∃ rest, rest <+: ' ' :: r ∧
      trim pair = word ++ rest ∧ o ∈ parseObjectList prefixes (trim rest) := by
  obtain ⟨pred, rest, hpop, hname, ho⟩ := h
  have hhead : ∀ c ∈ (word ++ ' ' :: r).head?, isWhitespace c = false := by
    intro c hc
    cases word with
    | nil => exact absurd rfl hword.ne_nil
    | cons d word =>
        obtain rfl := Option.some.inj hc
        exact hword.not_blank d List.mem_cons_self
  have hrest : rest ≠ [] := by
    rintro rfl
    cases ho
  have hne : trim pair ≠ [] := by
    intro hnil
    rw [hnil] at hpop
    cases hpop
    exact hrest rfl
  rcases turtlePopTerm_word_isPrefix hword (by decide) (trim_isPrefix hw hhead hpair) hne hpop with
    ⟨-, hnil, -⟩ | ⟨rfl, hmore, htrim⟩
  · exact absurd hnil hrest
  · exact ⟨hname, rest, hmore, htrim, ho⟩

end Wac

end SolidPod
