import SolidPod.Ldp.PatchDocument

/-!
# How a clause is read

The reader takes the first statement of each line of a clause and drops what
follows it on that line. A statement that is broken over two lines is an error.
-/

namespace SolidPod

namespace Ldp

open Foundation Str

/-! ## Ends of lines -/

theorem rdropWhile_append {p : Char → Bool} {a : Str} (h : ∀ z ∈ a.getLast?, p z = false)
    (b : Str) : (a ++ b).rdropWhile p = a ++ b.rdropWhile p := by
  induction b using List.reverseRecOn with
  | nil =>
      rw [List.append_nil, List.rdropWhile_nil, List.append_nil]
      rcases List.eq_nil_or_concat' a with rfl | ⟨q, z, rfl⟩
      · rfl
      · rw [List.rdropWhile_concat_neg _ _ _ (by simp [h z (by simp)])]
  | append_singleton b c ih =>
      rw [← List.append_assoc]
      by_cases hc : p c = true
      · rw [List.rdropWhile_concat_pos _ _ _ hc, List.rdropWhile_concat_pos _ _ _ hc, ih]
      · rw [List.rdropWhile_concat_neg _ _ _ hc, List.rdropWhile_concat_neg _ _ _ hc,
          List.append_assoc]

/-- The text of terms at the start of a line: it does not end in what is trimmed
from the end of a line. -/
def EndsInTerm (p : Str) : Prop := ∀ z ∈ p.getLast?, endsLabel z = false

/-- Trimming a line keeps the terms that it begins with, and a part of what
follows them. -/
theorem trim_line {p r : Str} (hp : EndsInTerm p)
    (hhead : ∀ c ∈ (p ++ r).head?, isWhitespace c = false) :
    ∃ r', r' <+: r ∧ trim (trimEndMatches '.' (p ++ r)) = p ++ r' := by
  have hwhite : ∀ z ∈ p.getLast?, isWhitespace z = false := by
    intro z hz
    have hends := hp z hz
    rw [endsLabel, Bool.or_eq_false_iff] at hends
    exact hends.1
  have hdot : ∀ z ∈ p.getLast?, (z == '.') = false := by
    intro z hz
    have hends := hp z hz
    rw [endsLabel, Bool.or_eq_false_iff] at hends
    exact hends.2
  have hcut : trimEndMatches '.' (p ++ r) = p ++ trimEndMatches '.' r := rdropWhile_append hdot r
  have hprefix : trimEndMatches '.' r <+: r := List.rdropWhile_prefix _ _
  have hstart : trimStart (p ++ trimEndMatches '.' r) = p ++ trimEndMatches '.' r := by
    cases htext : p ++ trimEndMatches '.' r with
    | nil => rfl
    | cons c cs =>
        obtain ⟨u, hu⟩ := (List.prefix_append_right_inj p).mpr hprefix
        rw [htext] at hu
        exact trimStart_cons_of_not (hhead c (by rw [← hu]; rfl)) cs
  refine ⟨trimEnd (trimEndMatches '.' r), (List.rdropWhile_prefix _ _).trans hprefix, ?_⟩
  rw [hcut, trim, hstart]
  exact rdropWhile_append hwhite _

/-- What is left of a statement after its last term holds no term. -/
theorem readTerm_rest {gap rest r : Str} (hgap : ∀ c ∈ gap, isWhitespace c = true)
    (hr : r <+: gap ++ '.' :: rest) : ∃ e, readTerm (trimStart r) = .error e := by
  rcases List.prefix_or_prefix_of_prefix hr (List.prefix_append gap _) with hle | ⟨t, ht⟩
  · have hnil : trimStart r = [] := by
      have hblank := trimStart_blank_append (fun c hc => hgap c (hle.subset hc)) []
      rwa [List.append_nil] at hblank
    rw [hnil]
    exact ⟨_, rfl⟩
  · cases t with
    | nil =>
        have hblank := trimStart_blank_append hgap []
        rw [List.append_nil] at hblank
        rw [← ht, List.append_nil, hblank]
        exact ⟨_, rfl⟩
    | cons x t =>
        rw [← ht, List.prefix_append_right_inj, List.cons_prefix_cons] at hr
        rw [← ht, trimStart_blank_append hgap, hr.1]
        have hdot : trimStart ('.' :: t) = '.' :: t := trimStart_cons_of_not (by decide) t
        have herr := readTerm_trimStart_dot t
        exact ⟨_, herr⟩

/-! ## Statements -/

theorem notMem_of_iriChar {i : Str} (hi : ∀ c ∈ i, iriChar c = true) : '>' ∉ i ∧ '\n' ∉ i := by
  have hbad : iriChar '>' = false ∧ iriChar '\n' = false := by decide
  constructor
  · intro hmem
    have h := hi _ hmem
    rw [hbad.1] at h
    cases h
  · intro hmem
    have h := hi _ hmem
    rw [hbad.2] at h
    cases h

theorem endsLabel_of_tagChar {c : Char} (h : tagChar c = true) : endsLabel c = false := by
  have hdot : c ≠ '.' := by
    rintro rfl
    exact absurd h (by decide)
  have hbound : 45 ≤ c.toNat ∧ c.toNat ≤ 122 := by
    unfold tagChar Char.isAlphanum Char.isAlpha Char.isUpper Char.isLower Char.isDigit at h
    simp only [Bool.or_eq_true, Bool.and_eq_true, decide_eq_true_eq, beq_iff_eq, ge_iff_le,
      UInt32.le_iff_toNat_le] at h
    rcases h with ((⟨hlow, hhigh⟩ | ⟨hlow, hhigh⟩) | ⟨hlow, hhigh⟩) | rfl
    · exact ⟨le_trans (by decide) hlow, le_trans hhigh (by decide)⟩
    · exact ⟨le_trans (by decide) hlow, le_trans hhigh (by decide)⟩
    · exact ⟨le_trans (by decide) hlow, le_trans hhigh (by decide)⟩
    · decide
  have hwhite : isWhitespace c = false := by
    rw [Bool.eq_false_iff]
    intro hw
    simp only [isWhitespace, Bool.or_eq_true, Bool.and_eq_true, decide_eq_true_eq,
      beq_iff_eq] at hw
    omega
  simp [endsLabel, hwhite, hdot]

theorem Term.wellFormed_of_ground {t : Term} (h : t.Ground) : t.WellFormed := by
  cases t with
  | iri i => exact notMem_of_iriChar h
  | blankNode b => exact h.elim
  | literal v d l =>
      obtain ⟨hone, hd, hl⟩ := h
      exact ⟨hone, fun dt hdt => notMem_of_iriChar (hd dt hdt),
        fun lang hlang c hc => endsLabel_of_tagChar ((hl lang hlang).2 c hc)⟩

theorem Term.exists_of_isIri {t : Term} (h : t.IsIri) :
    ∃ i, t = .iri i ∧ '>' ∉ i ∧ '\n' ∉ i := by
  cases t with
  | iri i => exact ⟨i, rfl, notMem_of_iriChar h⟩
  | blankNode b => exact h.elim
  | literal v d l => exact h.elim

/-- An IRI is read, whatever follows. -/
theorem readTerm_of_isIri {t : Term} (h : t.IsIri) (rest : Str) :
    readTerm (t.writeNtriples ++ rest) = .ok (t, rest) := by
  obtain ⟨i, rfl, hi, -⟩ := t.exists_of_isIri h
  exact readTerm_iri hi rest

theorem Term.reread_of_isIri {t : Term} (h : t.IsIri) : t.reread = t := by
  obtain ⟨i, rfl, -⟩ := t.exists_of_isIri h
  rfl

/-- A ground term is read up to what ends a label. -/
theorem readTerm_of_ground {t : Term} (h : t.Ground) (rest : Str)
    (hrest : ∀ c ∈ rest.head?, endsLabel c = true) :
    readTerm (t.writeNtriples ++ rest) = .ok (t.reread, rest) := by
  cases t with
  | iri i => exact readTerm_iri (notMem_of_iriChar h).1 rest
  | blankNode b => exact h.elim
  | literal v d l => exact readTerm_literal (Term.wellFormed_of_ground h) rest hrest

theorem endsInTerm_concat {z : Char} (h : endsLabel z = false) (p : Str) :
    EndsInTerm (p ++ [z]) := by
  intro c hc
  rw [List.getLast?_concat, Option.mem_some] at hc
  rwa [← hc]

/-- A ground term ends in a bracket, a quote or its language tag. -/
theorem endsInTerm_writeNtriples {t : Term} (h : t.Ground) (p : Str) :
    EndsInTerm (p ++ t.writeNtriples) := by
  cases t with
  | iri i =>
      rw [Term.writeNtriples, ← List.append_assoc]
      exact endsInTerm_concat (by decide) _
  | blankNode b => exact h.elim
  | literal v d l =>
      cases l with
      | some lang =>
          obtain ⟨hne, htag⟩ := h.2.2 lang rfl
          obtain ⟨q, z, rfl⟩ := (List.eq_nil_or_concat' lang).resolve_left hne
          have htext : p ++ (Term.literal v d (some (q ++ [z]))).writeNtriples =
              p ++ ('"' :: v.flatMap escapeChar ++ '"' :: '@' :: q) ++ [z] := by
            simp [Term.writeNtriples, literalSuffix]
          rw [htext]
          exact endsInTerm_concat (endsLabel_of_tagChar (htag z (by simp))) _
      | none =>
          cases d with
          | some dt =>
              have htext : p ++ (Term.literal v (some dt) none).writeNtriples =
                  p ++ ('"' :: v.flatMap escapeChar ++ '"' :: "^^<" ++ dt) ++ ['>'] := by
                simp [Term.writeNtriples, literalSuffix]
              rw [htext]
              exact endsInTerm_concat (by decide) _
          | none =>
              have htext : p ++ (Term.literal v none none).writeNtriples =
                  p ++ ('"' :: v.flatMap escapeChar) ++ ['"'] := by
                simp [Term.writeNtriples, literalSuffix]
              rw [htext]
              exact endsInTerm_concat (by decide) _

/-- Text that begins with a term begins with no white space. -/
theorem head?_term_append {t : Term} (rest : Str) :
    ∀ c ∈ (t.writeNtriples ++ rest).head?, isWhitespace c = false := by
  intro c hc
  obtain ⟨x, hx, cs, hcs⟩ := head?_writeNtriples t
  rw [hcs, List.cons_append, List.head?_cons, Option.mem_some] at hc
  rw [← hc]
  exact isWhitespace_of_mem hx

/-- White space in front of a line, and at its end, does not change how it is
read. -/
theorem readLine_trim (line : Str) : readLine (trim line) = readLine line := by
  rw [readLine, readLine, trim_trim]

/-- The three terms at the start of a line. -/
def readTerms (line : Str) : Except Str Triple := do
  let (subject, rest) ← readTerm line
  let (predicate, rest) ← readTerm (trimStart rest)
  let (object, _) ← readTerm (trimStart rest)
  return ⟨subject, predicate, object⟩

/-- A line that begins with terms is read from these terms and a part of what
follows them. -/
theorem readLine_terms {w p r : Str} (hw : ∀ c ∈ w, isWhitespace c = true) (hp : EndsInTerm p)
    (hhead : ∃ x xs, p ++ r = x :: xs ∧ isWhitespace x = false ∧ x ≠ '#') :
    ∃ r', r' <+: r ∧ readLine (w ++ (p ++ r)) = (readTerms (p ++ r')).map some := by
  obtain ⟨x, xs, hx, hwhite, hhash⟩ := hhead
  have hends : ∀ z ∈ p.getLast?, isWhitespace z = false := by
    intro z hz
    have hz := hp z hz
    rw [endsLabel, Bool.or_eq_false_iff] at hz
    exact hz.1
  have htrim : trim (w ++ (p ++ r)) = p ++ trimEnd r := by
    rw [trim_blank_append hw, trim, hx, trimStart_cons_of_not hwhite, ← hx]
    exact rdropWhile_append hends r
  have hcons : p ++ trimEnd r = x :: trimEnd xs := by
    have h := trimEnd_append_cons hwhite [] xs
    rw [List.nil_append, List.nil_append, ← hx] at h
    rw [← h]
    exact (rdropWhile_append hends r).symm
  have hskip : ((p ++ trimEnd r).isEmpty || startsWith ['#'] (p ++ trimEnd r)) = false := by
    rw [hcons]
    simp [startsWith, List.isPrefixOf, Ne.symm hhash]
  have hline : ∀ c ∈ (p ++ trimEnd r).head?, isWhitespace c = false := by
    intro c hc
    rw [hcons, List.head?_cons, Option.mem_some] at hc
    rwa [← hc]
  obtain ⟨r', hr', hcut⟩ := trim_line hp hline
  refine ⟨r', hr'.trans (List.rdropWhile_prefix _ _), ?_⟩
  rw [readLine, htrim, hskip, if_neg (by simp)]
  change (readTerms (trim (trimEndMatches '.' (p ++ trimEnd r)))).map some = _
  rw [hcut]

theorem head?_term {t : Term} (rest : Str) :
    ∃ x xs, t.writeNtriples ++ rest = x :: xs ∧ isWhitespace x = false ∧ x ≠ '#' := by
  obtain ⟨x, hx, xs, hxs⟩ := head?_writeNtriples t
  refine ⟨x, xs ++ rest, by rw [hxs, List.cons_append], isWhitespace_of_mem hx, ?_⟩
  rintro rfl
  exact absurd hx (by decide)

theorem trimStart_gap_term {gap : Str} (hgap : ∀ c ∈ gap, isWhitespace c = true) (t : Term)
    (rest : Str) : trimStart (gap ++ (t.writeNtriples ++ rest)) = t.writeNtriples ++ rest := by
  obtain ⟨x, xs, hx, hwhite, -⟩ := head?_term (t := t) rest
  rw [trimStart_blank_append hgap, hx, trimStart_cons_of_not hwhite]

/-- What follows an object ends a label. -/
theorem endsLabel_after_object {gap rest r : Str} (hgap : ∀ c ∈ gap, isWhitespace c = true)
    (hr : r <+: gap ++ '.' :: rest) : ∀ c ∈ r.head?, endsLabel c = true := by
  intro c hc
  cases r with
  | nil => cases hc
  | cons x xs =>
      rw [List.head?_cons, Option.mem_some] at hc
      subst hc
      cases gap with
      | nil =>
          rw [List.nil_append, List.cons_prefix_cons] at hr
          rw [hr.1]
          decide
      | cons y ys =>
          rw [List.cons_append, List.cons_prefix_cons] at hr
          rw [hr.1, endsLabel, hgap y (by simp), Bool.true_or]

/-- A line that begins with a statement is read as that statement. -/
theorem readLine_statement (s : Statement) {w : Str} (hw : ∀ c ∈ w, isWhitespace c = true)
    (junk : Str) : readLine (w ++ (s.text ++ junk)) = .ok (some s.triple.reread) := by
  obtain ⟨hsubject, hpredicate, hobject⟩ := s.ground
  have hp := endsInTerm_writeNtriples hobject (s.triple.subject.writeNtriples ++
    (s.afterSubject.1 ++ (s.triple.predicate.writeNtriples ++ s.afterPredicate.1)))
  obtain ⟨r, hr, hread⟩ := readLine_terms (r := s.afterObject.1 ++ '.' :: junk) hw hp (by
    simp only [List.append_assoc]
    exact head?_term _)
  have hobj := readTerm_of_ground hobject r (endsLabel_after_object s.afterObject.2 hr)
  have htext : s.text ++ junk = s.triple.subject.writeNtriples ++
      (s.afterSubject.1 ++ (s.triple.predicate.writeNtriples ++ s.afterPredicate.1)) ++
        s.triple.object.writeNtriples ++ (s.afterObject.1 ++ '.' :: junk) := by
    simp [Statement.text]
  rw [htext, hread]
  simp only [List.append_assoc]
  rw [readTerms, readTerm_of_isIri hsubject]
  simp only [bind, Except.bind]
  rw [trimStart_gap_term s.afterSubject.2, readTerm_of_isIri hpredicate]
  simp only []
  rw [trimStart_gap_term s.afterPredicate.2, hobj]
  rw [Triple.reread, Term.reread_of_isIri hsubject, Term.reread_of_isIri hpredicate]
  rfl

/-- Terms that are fewer than three are not read as a triple. -/
theorem readLine_error {w p : Str} (hw : ∀ c ∈ w, isWhitespace c = true) (hp : EndsInTerm p)
    (gap : Gap) (junk : Str)
    (hhead : ∃ x xs, p ++ (gap.1 ++ '.' :: junk) = x :: xs ∧ isWhitespace x = false ∧ x ≠ '#')
    (hfew : ∀ r, r <+: gap.1 ++ '.' :: junk → ∃ e, readTerms (p ++ r) = .error e) :
    ∃ e, readLine (w ++ (p ++ (gap.1 ++ '.' :: junk))) = .error e := by
  obtain ⟨r, hr, hread⟩ := readLine_terms hw hp hhead
  obtain ⟨e, he⟩ := hfew r hr
  exact ⟨e, by rw [hread, he]; rfl⟩

theorem readTerm_trimStart (s : Str) : readTerm (trimStart s) = readTerm s := by
  rw [readTerm, trimStart_trimStart, readTerm]

theorem newline_notMem_of_isIri {t : Term} (h : t.IsIri) : '\n' ∉ t.writeNtriples := by
  obtain ⟨i, rfl, hi⟩ := t.exists_of_isIri h
  exact newline_notMem_writeNtriples hi

/-- The last line of a statement that is broken is not read. -/
theorem Statement.exists_of_broken (s : Statement) (h : '\n' ∈ s.text) :
    ∃ a b, s.text = a ++ '\n' :: b ∧ '\n' ∉ b ∧ b ≠ [] ∧
      ∀ junk, ∃ e, readLine (b ++ junk) = .error e := by
  obtain ⟨hsubject, hpredicate, hobject⟩ := s.ground
  have hS := newline_notMem_of_isIri hsubject
  have hP := newline_notMem_of_isIri hpredicate
  have hO : '\n' ∉ s.triple.object.writeNtriples :=
    newline_notMem_writeNtriples (Term.wellFormed_of_ground hobject)
  -- the last line begins after the last gap that holds a line feed
  by_cases h3 : '\n' ∈ s.afterObject.1
  · obtain ⟨x, y, hxy, hy⟩ := exists_last_mem h3
    have hblank : ∀ c ∈ y, isWhitespace c = true :=
      fun c hc => s.afterObject.2 c (by rw [hxy]; simp [hc])
    refine ⟨s.triple.subject.writeNtriples ++ (s.afterSubject.1 ++
      (s.triple.predicate.writeNtriples ++ (s.afterPredicate.1 ++
        (s.triple.object.writeNtriples ++ x)))), y ++ ['.'], ?_, by simp [hy], by simp, ?_⟩
    · simp [Statement.text, hxy]
    · intro junk
      have herr := readLine_error (p := []) hblank (by simp [EndsInTerm]) ⟨[], by simp⟩ junk
        ⟨'.', junk, rfl, by decide, by decide⟩ (by
          intro r hr
          obtain ⟨e, he⟩ := readTerm_rest (by simp) hr
          rw [readTerm_trimStart] at he
          exact ⟨e, by rw [List.nil_append, readTerms, he]; rfl⟩)
      rw [List.append_assoc]
      exact herr
  · by_cases h2 : '\n' ∈ s.afterPredicate.1
    · obtain ⟨x, y, hxy, hy⟩ := exists_last_mem h2
      have hblank : ∀ c ∈ y, isWhitespace c = true :=
        fun c hc => s.afterPredicate.2 c (by rw [hxy]; simp [hc])
      refine ⟨s.triple.subject.writeNtriples ++ (s.afterSubject.1 ++
        (s.triple.predicate.writeNtriples ++ x)),
        y ++ (s.triple.object.writeNtriples ++ (s.afterObject.1 ++ ['.'])), ?_,
        by simp [hy, hO, h3], by simp, ?_⟩
      · simp [Statement.text, hxy]
      · intro junk
        have herr := readLine_error hblank (endsInTerm_writeNtriples hobject []) s.afterObject junk
          (head?_term _) (by
            intro r hr
            obtain ⟨e, he⟩ := readTerm_rest s.afterObject.2 hr
            have hobj := readTerm_of_ground hobject r (endsLabel_after_object s.afterObject.2 hr)
            refine ⟨e, ?_⟩
            rw [List.nil_append, readTerms, hobj]
            simp only [bind, Except.bind]
            rw [he])
        simpa using herr
    · have h1 : '\n' ∈ s.afterSubject.1 := by
        simpa [Statement.text, hS, hP, hO, h2, h3] using h
      obtain ⟨x, y, hxy, hy⟩ := exists_last_mem h1
      have hblank : ∀ c ∈ y, isWhitespace c = true :=
        fun c hc => s.afterSubject.2 c (by rw [hxy]; simp [hc])
      refine ⟨s.triple.subject.writeNtriples ++ x,
        y ++ (s.triple.predicate.writeNtriples ++ (s.afterPredicate.1 ++
          (s.triple.object.writeNtriples ++ (s.afterObject.1 ++ ['.'])))), ?_,
        by simp [hy, hP, hO, h2, h3], by simp, ?_⟩
      · simp [Statement.text, hxy]
      · intro junk
        have herr := readLine_error hblank (endsInTerm_writeNtriples hobject
          (s.triple.predicate.writeNtriples ++ s.afterPredicate.1)) s.afterObject junk
          (by
            simp only [List.append_assoc]
            exact head?_term _) (by
            intro r hr
            obtain ⟨e, he⟩ := readTerm_rest s.afterObject.2 hr
            have hobj := readTerm_of_ground hobject r (endsLabel_after_object s.afterObject.2 hr)
            refine ⟨e, ?_⟩
            simp only [List.append_assoc]
            rw [readTerms, readTerm_of_isIri hpredicate]
            simp only [bind, Except.bind]
            rw [trimStart_gap_term s.afterPredicate.2, hobj]
            simp only []
            rw [he])
        simpa using herr

/-! ## Lines -/

theorem readLine_dropCr (l : Str) : readLine (dropCr l) = readLine l := by
  rw [dropCr]
  cases hcr : stripSuffix ['\r'] l with
  | none => rfl
  | some r =>
      rw [stripSuffix, Option.map_eq_some_iff] at hcr
      obtain ⟨q, hq, rfl⟩ := hcr
      have hl : l = q.reverse ++ ['\r'] := by
        have hrev := congrArg List.reverse (stripPrefix_eq_some.mp hq)
        simpa using hrev
      have hblank : ∀ c ∈ ['\r'], isWhitespace c = true := by decide
      rw [Option.getD_some, ← readLine_trim l, hl, trim_append_blank hblank, readLine_trim]

theorem linesFrom_newline (cur a b : Str) :
    linesFrom cur (a ++ '\n' :: b) = linesFrom cur (a ++ ['\n']) ++ linesFrom [] b := by
  induction a generalizing cur with
  | nil => simp [linesFrom]
  | cons c a ih =>
      rw [List.cons_append, List.cons_append, linesFrom, linesFrom]
      split
      · rw [ih]
        rfl
      · exact ih _

theorem exists_linesFrom_append (cur a b : Str) :
    ∃ ls cur', linesFrom cur (a ++ b) = ls ++ linesFrom cur' b := by
  induction a generalizing cur with
  | nil => exact ⟨[], cur, rfl⟩
  | cons c a ih =>
      rw [List.cons_append, linesFrom]
      split
      · obtain ⟨ls, cur', h⟩ := ih []
        exact ⟨dropCr cur :: ls, cur', by rw [h]; rfl⟩
      · exact ih _

/-- The first line begins with what was read of it. -/
theorem exists_head_linesFrom {cur : Str} (hcur : cur ≠ []) (rest : Str) :
    ∃ junk l ls, linesFrom cur rest = l :: ls ∧ readLine l = readLine (cur ++ junk) := by
  induction rest generalizing cur with
  | nil =>
      refine ⟨[], cur, [], ?_, by rw [List.append_nil]⟩
      rw [linesFrom, if_neg (by simpa using hcur)]
  | cons c rest ih =>
      rw [linesFrom]
      split
      · exact ⟨[], dropCr cur, _, rfl, by rw [readLine_dropCr, List.append_nil]⟩
      · obtain ⟨junk, l, ls, hlines, hread⟩ :=
          ih (List.append_ne_nil_of_right_ne_nil cur (List.cons_ne_nil c []))
        exact ⟨c :: junk, l, ls, hlines, by rw [hread, List.append_assoc]; rfl⟩

/-- White space after a line and its line end hold no other triple. -/
theorem map_readLine_blank {cur x : Str} {o : Option Triple}
    (hx : ∀ c ∈ x, isWhitespace c = true)
    (h : ∀ w : Str, (∀ c ∈ w, isWhitespace c = true) → readLine (cur ++ w) = .ok o) :
    ∃ os : List (Option Triple), (linesFrom cur (x ++ ['\n'])).map readLine = os.map .ok ∧
      os.filterMap id = o.toList := by
  induction x generalizing cur o with
  | nil =>
      refine ⟨[o], ?_, by cases o <;> rfl⟩
      have hcur := h [] (by simp)
      rw [List.append_nil] at hcur
      simp [linesFrom, readLine_dropCr, hcur]
  | cons c x ih =>
      have hx' : ∀ d ∈ x, isWhitespace d = true := fun d hd => hx d (by simp [hd])
      rw [List.cons_append, linesFrom]
      split
      · have hblank (w : Str) (hw : ∀ c ∈ w, isWhitespace c = true) :
            readLine ([] ++ w) = .ok none := by
          rw [List.nil_append, ← readLine_trim, trim_of_blank hw]
          rfl
        obtain ⟨os, hos, hnone⟩ := ih hx' hblank
        have hcur := h [] (by simp)
        rw [List.append_nil] at hcur
        refine ⟨o :: os, ?_, ?_⟩
        · rw [List.map_cons, List.map_cons, hos, readLine_dropCr, hcur]
        · cases o with
          | none => exact hnone
          | some t => simpa using hnone
      · refine ih hx' ?_
        intro w hw
        rw [List.append_assoc]
        refine h _ ?_
        intro d hd
        rcases List.mem_append.mp hd with hd | hd
        · rw [List.mem_singleton.mp hd]
          exact hx c (by simp)
        · exact hw d hd

/-- Statements after one another, with the white space in front of each. -/
def statementsText (ss : List Statement) : Str := ss.flatMap fun s => s.before.1 ++ s.text

/-- The statements that begin a line of their own. -/
def lineStarts (ss : List Statement) : List Statement := ss.filter ('\n' ∈ ·.before.1)

/-- From a line that begins with a statement on, the statements are read that
begin a line. -/
theorem map_readLine_statements (s : Statement) {w : Str} (hw : ∀ c ∈ w, isWhitespace c = true)
    (junk : Str) {ss : List Statement} (hss : ∀ t ∈ ss, '\n' ∉ t.text) :
    ∃ os : List (Option Triple),
      (linesFrom (w ++ (s.text ++ junk)) (statementsText ss)).map readLine = os.map .ok ∧
        os.filterMap id = (s :: lineStarts ss).map (·.triple.reread) := by
  induction ss generalizing s w junk with
  | nil =>
      refine ⟨[some s.triple.reread], ?_, rfl⟩
      have hne : (w ++ (s.text ++ junk)).isEmpty = false := by
        simp [Statement.text]
      rw [statementsText, List.flatMap_nil, linesFrom, hne]
      simp [readLine_statement s hw]
  | cons t ss ih =>
      have hss' : ∀ u ∈ ss, '\n' ∉ u.text := fun u hu => hss u (by simp [hu])
      have htext : statementsText (t :: ss) = t.before.1 ++ (t.text ++ statementsText ss) := by
        simp [statementsText]
      rw [htext]
      by_cases hline : '\n' ∈ t.before.1
      · obtain ⟨x, y, hxy, hy⟩ := exists_last_mem hline
        have hx : ∀ c ∈ x, isWhitespace c = true :=
          fun c hc => t.before.2 c (by rw [hxy]; simp [hc])
        have hyblank : ∀ c ∈ y, isWhitespace c = true :=
          fun c hc => t.before.2 c (by rw [hxy]; simp [hc])
        have hcur (v : Str) (_ : ∀ c ∈ v, isWhitespace c = true) :
            readLine (w ++ (s.text ++ junk) ++ v) = .ok (some s.triple.reread) := by
          rw [List.append_assoc, List.append_assoc]
          exact readLine_statement s hw _
        obtain ⟨os, hos, hkept⟩ := map_readLine_blank hx hcur
        obtain ⟨os', hos', hkept'⟩ := ih t hyblank [] hss'
        have hstarts : lineStarts (t :: ss) = t :: lineStarts ss :=
          List.filter_cons_of_pos (by simpa using hline)
        refine ⟨os ++ os', ?_, ?_⟩
        · rw [hxy, List.append_assoc, List.cons_append, linesFrom_newline, List.map_append, hos,
            linesFrom_append [] hy, List.nil_append, linesFrom_append y (hss t (by simp)),
            List.map_append, ← hos', List.append_nil]
        · rw [List.filterMap_append, hkept, hkept', hstarts]
          rfl
      · have hstarts : lineStarts (t :: ss) = lineStarts ss :=
          List.filter_cons_of_neg (by simpa using hline)
        rw [linesFrom_append _ hline, linesFrom_append _ (hss t (by simp)), List.append_assoc,
          List.append_assoc, List.append_assoc, hstarts]
        exact ih s hw _ hss'

/-- A broken statement leaves a line that is not read. -/
theorem exists_error_of_broken {ss : List Statement} (h : ∃ t ∈ ss, '\n' ∈ t.text) (cur : Str) :
    ∃ e, Except.error e ∈ (linesFrom cur (statementsText ss)).map readLine := by
  induction ss generalizing cur with
  | nil =>
      obtain ⟨t, ht, -⟩ := h
      exact absurd ht List.not_mem_nil
  | cons s ss ih =>
      have htext : statementsText (s :: ss) = s.before.1 ++ s.text ++ statementsText ss := by
        simp [statementsText]
      by_cases hs : '\n' ∈ s.text
      · obtain ⟨a, b, hab, hb, hne, herr⟩ := s.exists_of_broken hs
        obtain ⟨junk, l, ls, hlines, hread⟩ := exists_head_linesFrom hne (statementsText ss)
        obtain ⟨e, he⟩ := herr junk
        have hsplit : statementsText (s :: ss) =
            s.before.1 ++ a ++ '\n' :: (b ++ statementsText ss) := by
          rw [htext, hab]
          simp
        refine ⟨e, ?_⟩
        rw [hsplit, linesFrom_newline, linesFrom_append [] hb, List.nil_append, hlines,
          List.map_append, List.map_cons, hread, he]
        simp
      · obtain ⟨t, ht, hbroken⟩ := h
        have hmem : t ∈ ss := by
          rcases List.mem_cons.mp ht with rfl | hmem
          · exact absurd hbroken hs
          · exact hmem
        obtain ⟨ls, cur', hlines⟩ :=
          exists_linesFrom_append cur (s.before.1 ++ s.text) (statementsText ss)
        obtain ⟨e, he⟩ := ih ⟨t, hmem, hbroken⟩ cur'
        refine ⟨e, ?_⟩
        rw [htext, hlines, List.map_append]
        exact List.mem_append_right _ he

/-! ## Clauses -/

/-- The statements that the reader of a clause takes. -/
def firstOfLines : List Statement → List Statement
  | [] => []
  | s :: ss => s :: lineStarts ss

theorem trim_body {c : Clause} {s : Statement} {ss : List Statement}
    (h : c.statements = s :: ss) : trim c.body = s.text ++ statementsText ss := by
  have hlast : ∀ d ∈ (s.text ++ statementsText ss).getLast?, isWhitespace d = false := by
    have hdot (t : Statement) (front : Str) : ∀ d ∈ (front ++ t.text).getLast?,
        isWhitespace d = false := by
      intro d hd
      have htext : ∃ p, front ++ t.text = p ++ ['.'] := ⟨_, by
        rw [Statement.text]
        simp only [← List.append_assoc]
        rfl⟩
      obtain ⟨p, hp⟩ := htext
      rw [hp, List.getLast?_concat, Option.mem_some] at hd
      rw [← hd]
      decide
    rcases List.eq_nil_or_concat' ss with rfl | ⟨front, t, rfl⟩
    · simpa [statementsText] using hdot s []
    · have htext : s.text ++ statementsText (front ++ [t]) =
          s.text ++ statementsText front ++ t.before.1 ++ t.text := by
        simp [statementsText]
      rw [htext]
      exact hdot t _
  have hhead : ∀ d ∈ (s.text ++ statementsText ss).head?, isWhitespace d = false := by
    rw [Statement.text, List.append_assoc]
    exact head?_term_append _
  have hbody : c.body = s.before.1 ++ (s.text ++ statementsText ss ++ c.closing.1) := by
    simp [Clause.body, h, statementsText]
  rw [hbody, trim_blank_append s.before.2, trim_append_blank c.closing.2,
    trim_eq_self hhead hlast]

/-- A clause without broken statements is read as the statements that come first
on their lines. -/
theorem parseNtriples_body {c : Clause} (h : ∀ s ∈ c.statements, '\n' ∉ s.text) :
    parseNtriples (trim c.body) =
      .ok (SortedSet.ofList ((firstOfLines c.statements).map (·.triple.reread))) := by
  cases hc : c.statements with
  | nil =>
      have hbody : c.body = c.closing.1 := by simp [Clause.body, hc]
      rw [hbody, trim_of_blank c.closing.2]
      rfl
  | cons s ss =>
      rw [hc] at h
      obtain ⟨os, hos, hkept⟩ := map_readLine_statements s (w := []) (by simp) []
        fun t ht => h t (List.mem_cons_of_mem s ht)
      rw [List.append_nil, List.nil_append] at hos
      rw [trim_body hc, parseNtriples, lines, linesFrom_append [] (h s (by simp)),
        List.nil_append, foldlM_insertLine_eq_ok_iff]
      exact ⟨os, hos, by rw [hkept, SortedSet.ofList]; rfl⟩

/-- A reading that fails is an unsupported body. -/
theorem foldlM_insertLine_eq_error {ls : List (Str × ℕ)} {g : Graph} {e : PodError}
    (h : ls.foldlM insertLine g = .error e) : ∃ m, e = .unsupported m := by
  induction ls generalizing g with
  | nil => cases h
  | cons l ls ih =>
      rw [List.foldlM_cons, insertLine] at h
      cases hread : readLine l.1 with
      | ok o =>
          rw [hread] at h
          exact ih h
      | error m =>
          rw [hread] at h
          cases h
          exact ⟨_, rfl⟩

/-- A clause with a broken statement is not read. -/
theorem parseNtriples_body_of_broken {c : Clause} (h : ∃ s ∈ c.statements, '\n' ∈ s.text) :
    ∃ m, parseNtriples (trim c.body) = .error (.unsupported m) := by
  cases hparse : parseNtriples (trim c.body) with
  | error e =>
      obtain ⟨m, rfl⟩ := foldlM_insertLine_eq_error hparse
      exact ⟨m, rfl⟩
  | ok g =>
      obtain ⟨os, hos, -⟩ := foldlM_insertLine_eq_ok_iff.mp hparse
      cases hc : c.statements with
      | nil =>
          rw [hc] at h
          obtain ⟨s, hs, -⟩ := h
          exact absurd hs List.not_mem_nil
      | cons s ss =>
          rw [hc] at h
          have htext : s.text ++ statementsText ss =
              statementsText ({ s with before := ⟨[], by simp⟩ } :: ss) := by
            simp [statementsText, Statement.text]
          have hbroken : ∃ t ∈ { s with before := ⟨[], by simp⟩ } :: ss, '\n' ∈ t.text := by
            obtain ⟨t, ht, hnl⟩ := h
            rcases List.mem_cons.mp ht with rfl | ht
            · exact ⟨_, List.mem_cons_self, hnl⟩
            · exact ⟨t, List.mem_cons_of_mem _ ht, hnl⟩
          obtain ⟨e, he⟩ := exists_error_of_broken hbroken []
          rw [← htext, ← trim_body hc] at he
          change Except.error e ∈ (lines (trim c.body)).map readLine at he
          rw [hos] at he
          simp at he

/-! ## Documents -/

/-- No statement goes over the end of its line. -/
def PatchDocument.Unbroken (d : PatchDocument) : Prop :=
  ∀ c ∈ d.clauses, ∀ s ∈ c.statements, '\n' ∉ s.text

/-- The triples that are taken from a clause: those of the statements that come
first on their lines, with the octets of a literal as its characters. -/
def PatchDocument.taken (d : PatchDocument) (k : ClauseKind) : List Triple :=
  (firstOfLines (d.statements k)).map (·.triple.reread)

theorem PatchDocument.taken_of_none {d : PatchDocument} {k : ClauseKind}
    (h : d.clause? k = none) : d.taken k = [] := by
  simp [PatchDocument.taken, PatchDocument.statements, h, firstOfLines]

theorem PatchDocument.taken_of_some {d : PatchDocument} {k : ClauseKind} {c : Clause}
    (h : d.clause? k = some c) :
    d.taken k = (firstOfLines c.statements).map (·.triple.reread) := by
  simp [PatchDocument.taken, PatchDocument.statements, h]

theorem blockGraph_block (c : Clause) : blockGraph c.block = parseNtriples (trim c.body) := by
  rw [blockGraph, Clause.block, stripBraces_block]
  rfl

/-- The graph that is read from the clause of a kind. -/
theorem PatchDocument.blockGraph_clause {d : PatchDocument} (h : d.Unbroken) (k : ClauseKind) :
    blockGraph (((d.clause? k).map Clause.block).getD []) = .ok (SortedSet.ofList (d.taken k)) := by
  cases hc : d.clause? k with
  | none =>
      rw [d.taken_of_none hc]
      rfl
  | some c =>
      have hmem : c ∈ d.clauses := List.mem_of_find?_eq_some hc
      rw [Option.map_some, Option.getD_some, blockGraph_block, parseNtriples_body (h c hmem),
        d.taken_of_some hc]

theorem PatchDocument.whereGraph_text {d : PatchDocument} (hd : d.Delimited) :
    whereGraph d.text = blockGraph (((d.clause? .wheres).map Clause.block).getD []) := by
  rw [whereGraph, d.whereBlock_text hd]
  cases hc : d.clause? .wheres with
  | none => rfl
  | some c =>
      have hne : (trim c.block).isEmpty = false := by
        rw [Clause.block, trim_block]
        rfl
      rw [Option.map_some, Option.getD_some]
      simp only [hne]
      rfl

/-- An unbroken document patches a graph by what is taken from its clauses. -/
theorem PatchDocument.applyN3Patch_text {d : PatchDocument} (hd : d.Delimited) (hu : d.Unbroken)
    (printable : Char → Bool) (target : Graph) :
    (applyN3Patch printable target d.text).map PatchOutcome.graph = (do
      checkWhere printable target (SortedSet.ofList (d.taken .wheres))
      return extend (subtract target (SortedSet.ofList (d.taken .deletes)))
        (SortedSet.ofList (d.taken .inserts))) := by
  rw [applyN3Patch, d.insertBlock_text hd, d.deleteBlock_text hd, d.whereGraph_text hd,
    d.blockGraph_clause hu, d.blockGraph_clause hu, d.blockGraph_clause hu]
  cases hcheck : checkWhere printable target (SortedSet.ofList (d.taken .wheres)) with
  | error e => simp [bind, Except.bind, Except.map, hcheck]
  | ok u => simp [bind, Except.bind, Except.map, pure, Except.pure, hcheck]

theorem find?_kind_of_mem {cs : List Clause} (h : (cs.map Clause.kind).Nodup) {c : Clause}
    (hc : c ∈ cs) : cs.find? (·.kind = c.kind) = some c := by
  induction cs with
  | nil => exact absurd hc List.not_mem_nil
  | cons b cs ih =>
      rw [List.map_cons, List.nodup_cons] at h
      rcases List.mem_cons.mp hc with rfl | hmem
      · exact List.find?_cons_of_pos (by simp)
      · have hne : b.kind ≠ c.kind := by
          intro heq
          exact h.1 (heq ▸ List.mem_map_of_mem hmem)
        rw [List.find?_cons_of_neg (by simpa using hne)]
        exact ih h.2 hmem

/-- A broken document is not supported. -/
theorem PatchDocument.applyN3Patch_text_of_broken {d : PatchDocument} (hd : d.Delimited)
    (hu : ¬d.Unbroken) (printable : Char → Bool) (target : Graph) :
    ∃ m, applyN3Patch printable target d.text = .error (.unsupported m) := by
  have hclause (k : ClauseKind) : (∃ g, blockGraph (((d.clause? k).map Clause.block).getD []) =
      .ok g) ∨ ∃ m, blockGraph (((d.clause? k).map Clause.block).getD []) =
        .error (.unsupported m) := by
    cases hread : blockGraph (((d.clause? k).map Clause.block).getD []) with
    | ok g => exact Or.inl ⟨g, rfl⟩
    | error e =>
        cases hc : d.clause? k with
        | none =>
            rw [hc] at hread
            cases hread
        | some c =>
            rw [hc, Option.map_some, Option.getD_some, blockGraph_block] at hread
            obtain ⟨m, rfl⟩ := foldlM_insertLine_eq_error hread
            exact Or.inr ⟨m, rfl⟩
  have hbroken : ∃ k m, blockGraph (((d.clause? k).map Clause.block).getD []) =
      .error (.unsupported m) := by
    obtain ⟨c, hc, hs⟩ : ∃ c ∈ d.clauses, ∃ s ∈ c.statements, '\n' ∈ s.text := by
      simpa [PatchDocument.Unbroken] using hu
    obtain ⟨m, hm⟩ := parseNtriples_body_of_broken hs
    have hfind := find?_kind_of_mem d.nodup hc
    refine ⟨c.kind, m, ?_⟩
    rw [PatchDocument.clause?, hfind, Option.map_some, Option.getD_some, blockGraph_block, hm]
  rw [applyN3Patch, d.insertBlock_text hd, d.deleteBlock_text hd, d.whereGraph_text hd]
  rcases hclause .inserts with ⟨gi, hi⟩ | ⟨m, hi⟩
  · rw [hi]
    rcases hclause .deletes with ⟨gd, hdel⟩ | ⟨m, hdel⟩
    · rw [hdel]
      rcases hclause .wheres with ⟨gw, hw⟩ | ⟨m, hw⟩
      · obtain ⟨k, m, hm⟩ := hbroken
        cases k with
        | inserts => exact absurd (hi.symm.trans hm) (by simp)
        | deletes => exact absurd (hdel.symm.trans hm) (by simp)
        | wheres => exact absurd (hw.symm.trans hm) (by simp)
      · exact ⟨m, by rw [hw]; rfl⟩
    · exact ⟨m, by rw [hdel]; rfl⟩
  · exact ⟨m, by rw [hi]; rfl⟩

/-- What the document asks for: `PreconditionFailed` when a triple of the `where`
clause is missing, otherwise the graph without the deletions and with the
insertions. -/
def PatchDocument.Meets (printable : Char → Bool) (d : PatchDocument) (target : Graph) : Prop :=
  if ∀ t ∈ d.triples .wheres, t ∈ target then
    ∃ o, applyN3Patch printable target d.text = .ok o ∧
      ∀ t, t ∈ o.graph ↔ (t ∈ target ∧ t ∉ d.triples .deletes) ∨ t ∈ d.triples .inserts
  else ∃ m, applyN3Patch printable target d.text = .error (.preconditionFailed m)

/-- What is taken from the clauses does the same as all that is in them: the same
condition and, on the graphs that meet it, the same deletions and insertions.
The triples of the condition are there anyway, so for them only matters whether
they stay. -/
structure PatchDocument.TakesItsMeaning (d : PatchDocument) : Prop where
  wheres : ∀ t, t ∈ d.taken .wheres ↔ t ∈ d.triples .wheres
  inserts : ∀ t ∉ d.triples .wheres, t ∈ d.taken .inserts ↔ t ∈ d.triples .inserts
  deletes : ∀ t ∉ d.triples .wheres, t ∉ d.triples .inserts →
    (t ∈ d.taken .deletes ↔ t ∈ d.triples .deletes)
  stays : ∀ t ∈ d.triples .wheres, (t ∈ d.taken .deletes → t ∈ d.taken .inserts) ↔
    (t ∈ d.triples .deletes → t ∈ d.triples .inserts)

theorem checkWhere_spec (printable : Char → Bool) (target : Graph) (ts : List Triple) :
    ((∀ t ∈ ts, t ∈ target) → checkWhere printable target (SortedSet.ofList ts) = .ok ()) ∧
      ((¬∀ t ∈ ts, t ∈ target) →
        ∃ m, checkWhere printable target (SortedSet.ofList ts) =
            .error (.preconditionFailed m)) := by
  rw [checkWhere]
  constructor
  · intro hall
    have hnone : (SortedSet.ofList ts).items.find? (fun t => decide (t ∉ target)) = none := by
      rw [List.find?_eq_none]
      intro t ht
      simpa using hall t (SortedSet.mem_ofList.mp ht)
    rw [hnone]
  · intro hmissing
    cases hfind : (SortedSet.ofList ts).items.find? (fun t => decide (t ∉ target)) with
    | some t => exact ⟨_, rfl⟩
    | none =>
        rw [List.find?_eq_none] at hfind
        refine absurd ?_ hmissing
        intro t ht
        simpa using hfind t (SortedSet.mem_ofList.mpr ht)

/-- On one graph: an unbroken document does what it asks for exactly when what is
taken from it has the same effect there. -/
theorem PatchDocument.meets_iff {d : PatchDocument} (hd : d.Delimited) (hu : d.Unbroken)
    (printable : Char → Bool) (target : Graph) :
    d.Meets printable target ↔
      ((∀ t ∈ d.taken .wheres, t ∈ target) ↔ ∀ t ∈ d.triples .wheres, t ∈ target) ∧
      ((∀ t ∈ d.triples .wheres, t ∈ target) → ∀ t,
        ((t ∈ target ∧ t ∉ d.taken .deletes) ∨ t ∈ d.taken .inserts) ↔
          ((t ∈ target ∧ t ∉ d.triples .deletes) ∨ t ∈ d.triples .inserts)) := by
  have happly := d.applyN3Patch_text hd hu printable target
  obtain ⟨hpass, hfail⟩ := checkWhere_spec printable target (d.taken .wheres)
  by_cases htaken : ∀ t ∈ d.taken .wheres, t ∈ target
  · rw [hpass htaken] at happly
    cases hresult : applyN3Patch printable target d.text with
    | error e =>
        rw [hresult] at happly
        cases happly
    | ok o =>
        rw [hresult] at happly
        have hgraph : o.graph = extend (subtract target (SortedSet.ofList (d.taken .deletes)))
            (SortedSet.ofList (d.taken .inserts)) := Except.ok.inj happly
        have hmem (t : Triple) : t ∈ o.graph ↔
            (t ∈ target ∧ t ∉ d.taken .deletes) ∨ t ∈ d.taken .inserts := by
          rw [hgraph, mem_extend_subtract, SortedSet.mem_ofList, SortedSet.mem_ofList]
        rw [PatchDocument.Meets, hresult]
        by_cases hwhere : ∀ t ∈ d.triples .wheres, t ∈ target
        · rw [if_pos hwhere]
          constructor
          · rintro ⟨o', ho, hall⟩
            cases ho
            exact ⟨⟨fun _ => hwhere, fun _ => htaken⟩, fun _ t => (hmem t).symm.trans (hall t)⟩
          · rintro ⟨-, hall⟩
            exact ⟨o, rfl, fun t => (hmem t).trans (hall hwhere t)⟩
        · rw [if_neg hwhere]
          constructor
          · rintro ⟨m, hm⟩
            cases hm
          · rintro ⟨hsame, -⟩
            exact absurd (hsame.mp htaken) hwhere
  · obtain ⟨m, hm⟩ := hfail htaken
    rw [hm] at happly
    cases hresult : applyN3Patch printable target d.text with
    | ok o =>
        rw [hresult] at happly
        cases happly
    | error e =>
        rw [hresult] at happly
        have he : e = .preconditionFailed m := Except.error.inj happly
        rw [PatchDocument.Meets, hresult, he]
        by_cases hwhere : ∀ t ∈ d.triples .wheres, t ∈ target
        · rw [if_pos hwhere]
          constructor
          · rintro ⟨o, ho, -⟩
            cases ho
          · rintro ⟨hsame, -⟩
            exact absurd (hsame.mpr hwhere) htaken
        · rw [if_neg hwhere]
          constructor
          · intro _
            exact ⟨⟨fun h => absurd h htaken, fun h => absurd h hwhere⟩, fun h => absurd h hwhere⟩
          · intro _
            exact ⟨m, rfl⟩

/-- A broken document does on no graph what it asks for. -/
theorem PatchDocument.not_meets_of_broken {d : PatchDocument} (hd : d.Delimited)
    (hu : ¬d.Unbroken) (printable : Char → Bool) (target : Graph) :
    ¬d.Meets printable target := by
  obtain ⟨m, hm⟩ := d.applyN3Patch_text_of_broken hd hu printable target
  rw [PatchDocument.Meets, hm]
  split
  · rintro ⟨o, ho, -⟩
    cases ho
  · rintro ⟨m', hm'⟩
    cases hm'

/-- When every statement is on a line of its own and every literal is ASCII, all
of a document is taken. -/
theorem PatchDocument.takesItsMeaning_of_lines {d : PatchDocument}
    (hlines : ∀ c ∈ d.clauses, ∀ s ∈ c.statements.tail, '\n' ∈ s.before.1)
    (hascii : ∀ c ∈ d.clauses, ∀ s ∈ c.statements, s.triple.AsciiValues) :
    d.TakesItsMeaning := by
  have htaken (k : ClauseKind) : d.taken k = d.triples k := by
    rw [PatchDocument.triples, PatchDocument.statements]
    cases hc : d.clause? k with
    | none => exact d.taken_of_none hc
    | some c =>
        have hmem : c ∈ d.clauses := List.mem_of_find?_eq_some hc
        have hfirst : firstOfLines c.statements = c.statements := by
          cases hs : c.statements with
          | nil => rfl
          | cons s ss =>
              have hstarts := hlines c hmem
              rw [hs, List.tail_cons] at hstarts
              rw [firstOfLines, lineStarts, List.filter_eq_self.mpr]
              intro t ht
              simpa using hstarts t ht
        rw [d.taken_of_some hc, hfirst, Option.map_some, Option.getD_some]
        refine List.map_congr_left ?_
        intro s hs
        obtain ⟨hsubject, hpredicate, hobject⟩ := s.ground
        have hliteral := (hascii c hmem s hs).2.2
        have hkept : s.triple.object.reread = s.triple.object := by
          cases ho : s.triple.object with
          | iri i => rfl
          | blankNode b =>
              rw [ho] at hobject
              exact hobject.elim
          | literal v dt l =>
              rw [ho] at hliteral
              rw [Term.reread, mojibake_of_isAscii hliteral]
        rw [Triple.reread, Term.reread_of_isIri hsubject, Term.reread_of_isIri hpredicate, hkept]
  refine ⟨?_, ?_, ?_, ?_⟩ <;> simp [htaken]

/-- A delimited document means what it says on every graph exactly when no
statement is broken and what is taken from its clauses is what they mean. -/
theorem PatchDocument.forall_meets_iff {d : PatchDocument} (hd : d.Delimited)
    (printable : Char → Bool) :
    (∀ target : Graph, d.Meets printable target) ↔ d.Unbroken ∧ d.TakesItsMeaning := by
  constructor
  · intro hall
    have hu : d.Unbroken := by
      by_contra hbroken
      exact d.not_meets_of_broken hd hbroken printable ∅ (hall ∅)
    have hiff (target : Graph) := (d.meets_iff hd hu printable target).mp (hall target)
    refine ⟨hu, ?_⟩
    have hown : ∀ t ∈ d.triples .wheres, t ∈ SortedSet.ofList (d.triples .wheres) :=
      fun t ht => SortedSet.mem_ofList.mpr ht
    have hmore (u : Triple) : ∀ t ∈ d.triples .wheres,
        t ∈ SortedSet.ofList (u :: d.triples .wheres) :=
      fun t ht => SortedSet.mem_ofList.mpr (List.mem_cons_of_mem u ht)
    have hwithout (t : Triple) := (hiff _).2 hown t
    have hwith (u t : Triple) := (hiff _).2 (hmore u) t
    simp only [SortedSet.mem_ofList] at hwithout hwith
    refine ⟨?_, ?_, ?_, ?_⟩
    · intro t
      constructor
      · intro ht
        exact SortedSet.mem_ofList.mp ((hiff _).1.mpr hown t ht)
      · intro ht
        have htaken : ∀ u ∈ d.taken .wheres, u ∈ SortedSet.ofList (d.taken .wheres) :=
          fun u hu => SortedSet.mem_ofList.mpr hu
        exact SortedSet.mem_ofList.mp ((hiff _).1.mp htaken t ht)
    · intro t ht
      simpa [ht] using hwithout t
    · intro t ht hti
      have hins : t ∉ d.taken .inserts := by
        intro hmem
        exact hti (by simpa [ht, hmem] using hwithout t)
      have hkeep := hwith t t
      simp only [List.mem_cons_self, true_and, hins, hti, or_false] at hkeep
      exact not_iff_not.mp hkeep
    · intro t ht
      have hkeep := hwithout t
      simp only [ht, true_and] at hkeep
      tauto
  · rintro ⟨hu, hw, hi, hdel, hstay⟩ target
    rw [d.meets_iff hd hu]
    constructor
    · simp only [hw]
    · intro hwhere t
      by_cases ht : t ∈ d.triples .wheres
      · have htarget := hwhere t ht
        have h := hstay t ht
        tauto
      · have h1 := hi t ht
        have h2 := hdel t ht
        tauto

/-- A statement about `<#s> <#p>`. -/
def exampleStatement (object : Str) (hobject : ∀ c ∈ object, iriChar c = true) (before : Gap) :
    Statement where
  triple := ⟨.iri "#s", .iri "#p", .iri object⟩
  ground := ⟨(by decide : ∀ c ∈ ("#s" : Str), iriChar c = true),
    (by decide : ∀ c ∈ ("#p" : Str), iriChar c = true), hobject⟩
  before := before
  afterSubject := ⟨[' '], by decide⟩
  afterPredicate := ⟨[' '], by decide⟩
  afterObject := ⟨[' '], by decide⟩

/-- A patch that inserts two triples, with `between` between their statements. -/
def twoInserts (between : Gap) : PatchDocument where
  preamble := "_:rename a solid:InsertDeletePatch ; "
  preamble_plain := by decide
  clauses := [{
    kind := .inserts
    gap := ⟨[' '], by decide⟩
    statements := [exampleStatement "#o" (by decide) ⟨[' '], by decide⟩,
      exampleStatement "#n" (by decide) between]
    closing := ⟨[' '], by decide⟩
    after := " ."
    after_plain := by decide }]
  nodup := by simp

theorem forall_meets_iff_twoInserts :
    (twoInserts ⟨['\n'], by decide⟩).Delimited ∧
      ((∀ target : Graph, (twoInserts ⟨['\n'], by decide⟩).Meets (fun _ => true) target) ↔
        (twoInserts ⟨['\n'], by decide⟩).Unbroken ∧
          (twoInserts ⟨['\n'], by decide⟩).TakesItsMeaning) :=
  ⟨⟨by decide, by decide⟩, PatchDocument.forall_meets_iff ⟨by decide, by decide⟩ _⟩

/-- The second of two statements on one line is not inserted. -/
theorem twoInserts_not_meets : ¬∀ (printable : Char → Bool) (d : PatchDocument) (target : Graph),
    d.Meets printable target := by
  intro hall
  have hd : (twoInserts ⟨[' '], by decide⟩).Delimited := ⟨by decide, by decide⟩
  have hu : (twoInserts ⟨[' '], by decide⟩).Unbroken := by
    simp only [PatchDocument.Unbroken]
    decide
  have heffect := ((PatchDocument.meets_iff hd hu (fun _ => true) ∅).mp (hall _ _ _)).2
  have hwheres : ∀ t ∈ (twoInserts ⟨[' '], by decide⟩).triples .wheres, t ∈ (∅ : Graph) := by
    intro t ht
    exact absurd ht List.not_mem_nil
  have hinserts : ⟨.iri "#s", .iri "#p", .iri "#n"⟩ ∈
      (twoInserts ⟨[' '], by decide⟩).triples .inserts :=
    List.mem_cons_of_mem _ List.mem_cons_self
  have htaken := (heffect hwheres _).mpr (Or.inr hinserts)
  rcases htaken with ⟨hempty, -⟩ | htaken
  · exact absurd hempty (SortedSet.notMem_empty _)
  · have hone := List.mem_singleton.mp htaken
    have hobject := congrArg Triple.object hone
    exact absurd (Term.iri.inj hobject) (by decide)

end Ldp

end SolidPod
