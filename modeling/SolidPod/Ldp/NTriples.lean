import SolidPod.Ldp.Graph

/-!
# What comes back from N-Triples

The text of a term is read back as `Term.reread`: a literal comes back with its
octets as its characters, and a blank label up to its first dot. What follows
that dot is left in front of the rest of the line, where no term can be read. So
a graph is read back as a graph exactly when no subject and no predicate is a
dotted label, and it is read back as itself exactly when it is storable.
-/

namespace SolidPod

namespace Ldp

open Foundation Str

/-- The texts of a term do not close it early: an IRI holds no `>`, a label no
white space, and none of them holds a line feed. -/
def Term.WellFormed : Term → Prop
  | .iri i => '>' ∉ i ∧ '\n' ∉ i
  | .blankNode b => ∀ c ∈ b, isWhitespace c = false
  | .literal _ d l => (d = none ∨ l = none) ∧ (∀ dt ∈ d, '>' ∉ dt ∧ '\n' ∉ dt) ∧
      ∀ lang ∈ l, ∀ c ∈ lang, endsLabel c = false

def Triple.WellFormed (t : Triple) : Prop :=
  t.subject.WellFormed ∧ t.predicate.WellFormed ∧ t.object.WellFormed

/-- The terms that the N-Triples form keeps: ASCII literals and blank labels
without a dot. -/
def Term.Storable : Term → Prop
  | .iri _ => True
  | .blankNode b => '.' ∉ b
  | .literal v _ _ => ∀ c ∈ v, isAscii c = true

def Triple.Storable (t : Triple) : Prop :=
  t.subject.Storable ∧ t.predicate.Storable ∧ t.object.Storable

/-- The term that is read where `t` was written. -/
def Term.reread : Term → Term
  | .iri i => .iri i
  | .blankNode b => .blankNode (b.takeWhile (· ≠ '.'))
  | .literal v d l => .literal (mojibake v) d l

/-- What the reader leaves of the text of a term. -/
def Term.leftover : Term → Str
  | .iri _ => []
  | .blankNode b => b.dropWhile (· ≠ '.')
  | .literal _ _ _ => []

def Triple.reread (t : Triple) : Triple :=
  ⟨t.subject.reread, t.predicate.reread, t.object.reread⟩

/-- The reader gets past the subject and the predicate of the line. -/
def Triple.Readable (t : Triple) : Prop :=
  t.subject.leftover = [] ∧ t.predicate.leftover = []

/-! ## One term -/

theorem readValue_cons_of_ne {c : Char} (hbackslash : c ≠ '\\') (hquote : c ≠ '"') (cs : Str) :
    readValue (c :: cs) =
      (bytesAsChars (String.utf8EncodeChar c) ++ (readValue cs).1, (readValue cs).2) := by
  simp [readValue, hbackslash]

theorem readValue_escapeChar (c : Char) (cs : Str) :
    readValue (escapeChar c ++ cs) =
      (bytesAsChars (String.utf8EncodeChar c) ++ (readValue cs).1, (readValue cs).2) := by
  rw [escapeChar]
  split
  · rename_i h
    subst h
    rfl
  · split
    · rename_i h
      subst h
      rfl
    · split
      · rename_i h
        subst h
        rfl
      · split
        · rename_i h
          subst h
          rfl
        · split
          · rename_i h
            subst h
            rfl
          · rename_i hbackslash hquote _ _ _
            exact readValue_cons_of_ne hbackslash hquote cs

/-- A literal comes back octet by octet. -/
theorem readValue_flatMap_escapeChar (v rest : Str) :
    readValue (v.flatMap escapeChar ++ '"' :: rest) = (mojibake v, rest) := by
  induction v with
  | nil => rfl
  | cons c v ih =>
      rw [List.flatMap_cons, List.append_assoc, readValue_escapeChar, ih, mojibake_cons]

theorem takeWhile_append_of_boundary {p : Char → Bool} {l rest : Str}
    (hl : ∀ c ∈ l, p c = true) (hrest : ∀ c ∈ rest.head?, p c = false) :
    (l ++ rest).takeWhile p = l ∧ (l ++ rest).dropWhile p = rest := by
  have hnil : rest.takeWhile p = [] ∧ rest.dropWhile p = rest := by
    cases rest with
    | nil => exact ⟨rfl, rfl⟩
    | cons c rest =>
        have hc := hrest c (by simp)
        simp [hc]
  constructor
  · rw [List.takeWhile_append_of_pos hl, hnil.1, List.append_nil]
  · rw [List.dropWhile_append_of_pos hl, hnil.2]

/-- A label without white space is read up to its first dot. -/
theorem takeWhile_label {b rest : Str} (hb : ∀ c ∈ b, isWhitespace c = false)
    (hrest : ∀ c ∈ rest.head?, isWhitespace c = true) :
    (b ++ rest).takeWhile (!endsLabel ·) = b.takeWhile (· ≠ '.') ∧
      (b ++ rest).dropWhile (!endsLabel ·) = b.dropWhile (· ≠ '.') ++ rest := by
  have hends {c : Char} (hc : c ∈ b) : (!endsLabel c) = decide (c ≠ '.') := by
    by_cases hdot : c = '.'
    · simp [endsLabel, hdot]
    · simp [endsLabel, hb c hc, hdot]
  have hsplit := List.takeWhile_append_dropWhile (p := (· ≠ '.')) (l := b)
  have hfront : ∀ c ∈ b.takeWhile (· ≠ '.'), (!endsLabel c) = true := by
    intro c hc
    rw [hends (List.takeWhile_subset _ hc)]
    exact List.mem_takeWhile_imp (p := fun c => decide (c ≠ '.')) hc
  have hback : ∀ c ∈ (b.dropWhile (· ≠ '.') ++ rest).head?, (!endsLabel c) = false := by
    intro c hc
    cases hdrop : b.dropWhile (· ≠ '.') with
    | nil =>
        rw [hdrop, List.nil_append] at hc
        simp [endsLabel, hrest c hc]
    | cons d ds =>
        rw [hdrop, List.cons_append, List.head?_cons, Option.mem_some] at hc
        have hd := List.head?_dropWhile_not (· ≠ '.') b
        rw [hdrop] at hd
        have hdot : d = '.' := by simpa using hd
        simp [endsLabel, ← hc, hdot]
  have h := takeWhile_append_of_boundary hfront hback
  rwa [← List.append_assoc, hsplit] at h

/-- An IRI is read up to its `>`, whatever follows. -/
theorem readTerm_iri {i : Str} (hi : '>' ∉ i) (rest : Str) :
    readTerm ((Term.iri i).writeNtriples ++ rest) = .ok (.iri i, rest) := by
  have htrim : trimStart ('<' :: (i ++ '>' :: rest)) = '<' :: (i ++ '>' :: rest) :=
    trimStart_cons_of_not (by decide) _
  have htext : (Term.iri i).writeNtriples ++ rest = '<' :: (i ++ '>' :: rest) := by
    simp [Term.writeNtriples]
  rw [htext, readTerm, htrim, stripPrefix_singleton_cons, if_pos rfl]
  simp only [splitOnce_append hi]

/-- A literal is read, in its octets, up to what ends a label. -/
theorem readTerm_literal {v : Str} {d l : Option Str} (ht : (Term.literal v d l).WellFormed)
    (rest : Str) (hrest : ∀ c ∈ rest.head?, endsLabel c = true) :
    readTerm ((Term.literal v d l).writeNtriples ++ rest) =
      .ok (.literal (mojibake v) d l, rest) := by
  obtain ⟨hone, hd, hl⟩ := ht
  have htext : (Term.literal v d l).writeNtriples ++ rest =
      '"' :: (v.flatMap escapeChar ++ '"' :: (literalSuffix d l ++ rest)) := by
    simp [Term.writeNtriples]
  have htrim (s : Str) : trimStart ('"' :: s) = '"' :: s :=
    trimStart_cons_of_not (by decide) s
  have hlabel (s : Str) : stripPrefix ("_:" : Str) ('"' :: s) = none := by
    simp [stripPrefix, List.isPrefixOf]
  have hquote (s : Str) : startsWith ['"'] ('"' :: s) = true := by
    simp [startsWith, List.isPrefixOf]
  rw [htext, readTerm, htrim, stripPrefix_singleton_cons, if_neg (by decide)]
  simp only [hlabel, hquote, if_true]
  rw [readLiteral, stripPrefix_singleton_cons, if_pos rfl]
  simp only [readValue_flatMap_escapeChar]
  cases l with
  | some lang =>
      obtain rfl : d = none := by simpa using hone
      have hends : ∀ c ∈ lang, (!endsLabel c) = true := by
        intro c hc
        rw [hl lang rfl c hc]
        rfl
      have hstop : ∀ c ∈ rest.head?, (!endsLabel c) = false := by
        intro c hc
        simp [hrest c hc]
      obtain ⟨htake, hdrop⟩ := takeWhile_append_of_boundary hends hstop
      have hdt : stripPrefix ("^^<" : Str) ('@' :: (lang ++ rest)) = none := by
        simp [stripPrefix, List.isPrefixOf]
      simp only [literalSuffix, List.cons_append, hdt, stripPrefix_singleton_cons, if_true,
        htake, hdrop]
  | none =>
      cases d with
      | some dt =>
          have hdt : literalSuffix (some dt) none ++ rest =
              ("^^<" : Str) ++ (dt ++ '>' :: rest) := by
            simp [literalSuffix]
          simp only [hdt, stripPrefix_append, splitOnce_append (hd dt rfl).1]
      | none =>
          have hdt : stripPrefix ("^^<" : Str) rest = none := by
            rw [stripPrefix_eq_none]
            rintro ⟨r, rfl⟩
            exact absurd (hrest '^' rfl) (by decide)
          have hlang : stripPrefix ['@'] rest = none := by
            rw [stripPrefix_eq_none]
            rintro ⟨r, rfl⟩
            exact absurd (hrest '@' rfl) (by decide)
          simp only [literalSuffix, List.nil_append, hdt, hlang]

/-- The text of a well-formed term is read as `reread`, and what it leaves is put
in front of the rest. -/
theorem readTerm_writeNtriples {t : Term} (ht : t.WellFormed) (rest : Str)
    (hrest : ∀ c ∈ rest.head?, isWhitespace c = true) :
    readTerm (t.writeNtriples ++ rest) = .ok (t.reread, t.leftover ++ rest) := by
  cases t with
  | iri i => exact readTerm_iri ht.1 rest
  | blankNode b =>
      have htrim : trimStart ('_' :: ':' :: (b ++ rest)) = '_' :: ':' :: (b ++ rest) :=
        trimStart_cons_of_not (by decide) _
      have hpre : stripPrefix ("_:" : Str) ('_' :: ':' :: (b ++ rest)) = some (b ++ rest) :=
        stripPrefix_append _ _
      have htext : (Term.blankNode b).writeNtriples ++ rest = '_' :: ':' :: (b ++ rest) := by
        simp [Term.writeNtriples]
      obtain ⟨htake, hdrop⟩ := takeWhile_label ht hrest
      rw [htext, readTerm, htrim, stripPrefix_singleton_cons, if_neg (by decide)]
      simp only [hpre, htake, hdrop]
      rfl
  | literal v d l =>
      refine readTerm_literal ht rest ?_
      intro c hc
      rw [endsLabel, hrest c hc, Bool.true_or]

theorem newline_notMem_writeNtriples {t : Term} (ht : t.WellFormed) :
    '\n' ∉ t.writeNtriples := by
  cases t with
  | iri i => simp [Term.writeNtriples, ht.2]
  | blankNode b =>
      have hb : '\n' ∉ b := fun h => absurd (ht _ h) (by decide)
      simp [Term.writeNtriples, hb]
  | literal v d l =>
      obtain ⟨-, hd, hl⟩ := ht
      have hv : '\n' ∉ v.flatMap escapeChar := by
        intro h
        obtain ⟨c, -, hc⟩ := List.mem_flatMap.mp h
        by_cases hline : c = '\n'
        · subst hline
          exact absurd hc (by decide)
        · rw [escapeChar] at hc
          split_ifs at hc <;> simp_all [Ne.symm hline]
      have hsuffix : '\n' ∉ literalSuffix d l := by
        cases l with
        | some lang =>
            have hlang : '\n' ∉ lang := fun h => absurd (hl lang rfl _ h) (by decide)
            simp [literalSuffix, hlang]
        | none =>
            cases d with
            | some dt => simp [literalSuffix, (hd dt rfl).2]
            | none => simp [literalSuffix]
      simp [Term.writeNtriples, hv, hsuffix]

theorem head?_writeNtriples (t : Term) :
    ∃ c ∈ ['<', '_', '"'], ∃ cs, t.writeNtriples = c :: cs := by
  cases t with
  | iri i => exact ⟨'<', by simp, _, rfl⟩
  | blankNode b => exact ⟨'_', by simp, ':' :: b, rfl⟩
  | literal v d l => exact ⟨'"', by simp, _, rfl⟩

/-- The text of a well-formed term does not end in white space. -/
theorem getLast?_writeNtriples {t : Term} (ht : t.WellFormed) :
    ∀ c ∈ t.writeNtriples.getLast?, isWhitespace c = false := by
  have htail {text : Str} (front : Str) (a : Char) (l : Str) (htext : text = front ++ a :: l)
      (ha : isWhitespace a = false) (hl : ∀ c ∈ l, isWhitespace c = false) :
      ∀ c ∈ text.getLast?, isWhitespace c = false := by
    intro c hc
    rw [htext, List.getLast?_append_of_ne_nil _ (by simp)] at hc
    rcases List.mem_cons.mp (List.mem_of_getLast? hc) with rfl | hmem
    · exact ha
    · exact hl c hmem
  cases t with
  | iri i => exact htail ('<' :: i) '>' [] rfl (by decide) (by simp)
  | blankNode b => exact htail ['_'] ':' b rfl (by decide) ht
  | literal v d l =>
      cases l with
      | some lang =>
          refine htail ('"' :: v.flatMap escapeChar ++ ['"']) '@' lang ?_ (by decide) ?_
          · simp [Term.writeNtriples, literalSuffix]
          · intro c hc
            have hends := ht.2.2 lang rfl c hc
            rw [endsLabel, Bool.or_eq_false_iff] at hends
            exact hends.1
      | none =>
          cases d with
          | some dt =>
              refine htail ('"' :: v.flatMap escapeChar ++ '"' :: "^^<" ++ dt) '>' [] ?_
                (by decide) (by simp)
              simp [Term.writeNtriples, literalSuffix]
          | none => exact htail ('"' :: v.flatMap escapeChar) '"' [] rfl (by decide) (by simp)

/-! ## One line -/

/-- The three terms of a line, with a space between them. -/
def Triple.terms (t : Triple) : Str :=
  t.subject.writeNtriples ++ (' ' :: (t.predicate.writeNtriples ++ (' ' :: t.object.writeNtriples)))

theorem Triple.writeNtriples_eq (t : Triple) : t.writeNtriples = t.terms ++ [' '] ++ ['.'] := by
  simp [Triple.writeNtriples, Triple.terms]

theorem head?_terms (t : Triple) : ∃ c ∈ ['<', '_', '"'], ∃ cs, t.terms = c :: cs := by
  obtain ⟨c, hc, cs, hcs⟩ := head?_writeNtriples t.subject
  exact ⟨c, hc, cs ++ (' ' :: (t.predicate.writeNtriples ++ (' ' :: t.object.writeNtriples))),
    by rw [Triple.terms, hcs, List.cons_append]⟩

theorem isWhitespace_of_mem {c : Char} (hc : c ∈ ['<', '_', '"']) : isWhitespace c = false := by
  simp only [List.mem_cons, List.not_mem_nil, or_false] at hc
  rcases hc with rfl | rfl | rfl <;> decide

theorem trim_terms {t : Triple} (ht : t.WellFormed) (s : Str)
    (hs : s = t.terms ∨ s = t.terms ++ [' ']) : trim s = t.terms := by
  obtain ⟨c, hc, cs, hcs⟩ := head?_terms t
  have hstart : trimStart s = s := by
    rcases hs with rfl | rfl
    · rw [hcs]
      exact trimStart_cons_of_not (isWhitespace_of_mem hc) cs
    · rw [hcs]
      exact trimStart_cons_of_not (isWhitespace_of_mem hc) _
  have hend : trimEnd t.terms = t.terms := by
    have hself : trim t.terms = t.terms := by
      refine trim_eq_self ?_ ?_
      · intro d hd
        rw [hcs, List.head?_cons, Option.mem_some] at hd
        rw [← hd]
        exact isWhitespace_of_mem hc
      · intro d hd
        obtain ⟨e, -, es, hes⟩ := head?_writeNtriples t.object
        rw [Triple.terms, ← List.cons_append, ← List.append_assoc, List.append_cons,
          List.getLast?_append_of_ne_nil _ (by simp [hes])] at hd
        exact getLast?_writeNtriples ht.2.2 d hd
    rwa [trim, hcs, trimStart_cons_of_not (isWhitespace_of_mem hc), ← hcs] at hself
  rw [trim, hstart]
  rcases hs with rfl | rfl
  · exact hend
  · rw [trimEnd_append_singleton_of (by decide), hend]

theorem leftover_eq_nil_or (t : Term) : t.leftover = [] ∨ ∃ s, t.leftover = '.' :: s := by
  cases t with
  | iri i => exact Or.inl rfl
  | literal v d l => exact Or.inl rfl
  | blankNode b =>
      cases hdrop : b.dropWhile (· ≠ '.') with
      | nil => exact Or.inl hdrop
      | cons c s =>
          have hc := List.head?_dropWhile_not (· ≠ '.') b
          rw [hdrop] at hc
          have hdot : c = '.' := by simpa using hc
          subst hdot
          exact Or.inr ⟨s, hdrop⟩

/-- No term starts with a dot. -/
theorem readTerm_trimStart_dot (s : Str) :
    readTerm (trimStart ('.' :: s)) = .error ("unexpected char: " ++ ['.']) := by
  have htrim : trimStart ('.' :: s) = '.' :: s := trimStart_cons_of_not (by decide) s
  have hlabel : stripPrefix ("_:" : Str) ('.' :: s) = none := by
    simp [stripPrefix, List.isPrefixOf]
  rw [htrim, readTerm, htrim, stripPrefix_singleton_cons, if_neg (by decide)]
  simp only [hlabel]
  rfl

/-- After a term, a space and the text of another one, the other one is read
unless the first left a dot behind. -/
theorem readTerm_trimStart_leftover (s : Term) {t : Term} (ht : t.WellFormed) (rest : Str)
    (hrest : ∀ c ∈ rest.head?, isWhitespace c = true) :
    (s.leftover = [] → readTerm (trimStart (s.leftover ++ (' ' :: (t.writeNtriples ++ rest)))) =
      .ok (t.reread, t.leftover ++ rest)) ∧
    (s.leftover ≠ [] → readTerm (trimStart (s.leftover ++ (' ' :: (t.writeNtriples ++ rest)))) =
      .error ("unexpected char: " ++ ['.'])) := by
  constructor
  · intro hs
    obtain ⟨c, hc, cs, hcs⟩ := head?_writeNtriples t
    have htrim : trimStart (' ' :: (t.writeNtriples ++ rest)) = t.writeNtriples ++ rest := by
      rw [trimStart_cons_of (by decide), hcs]
      exact trimStart_cons_of_not (isWhitespace_of_mem hc) _
    rw [hs, List.nil_append, htrim]
    exact readTerm_writeNtriples ht rest hrest
  · intro hs
    obtain ⟨u, hu⟩ := (leftover_eq_nil_or s).resolve_left hs
    rw [hu, List.cons_append]
    exact readTerm_trimStart_dot _

/-- The line of a readable triple is read as `reread`, every other one is not
read. -/
theorem parseNtLine_writeNtriples {t : Triple} (ht : t.WellFormed) :
    (t.Readable → parseNtLine t.writeNtriples = .ok t.reread) ∧
      (¬ t.Readable → ∃ e, parseNtLine t.writeNtriples = .error e) := by
  have hdots : trimEndMatches '.' t.writeNtriples = t.terms ++ [' '] := by
    rw [t.writeNtriples_eq, trimEndMatches, List.rdropWhile_concat_pos _ _ _ (by decide),
      List.rdropWhile_concat_neg _ _ _ (by decide)]
  have hline : trim (trimEndMatches '.' t.writeNtriples) = t.terms := by
    rw [hdots]
    exact trim_terms ht _ (Or.inr rfl)
  have hspace {s : Str} : ∀ c ∈ (' ' :: s).head?, isWhitespace c = true := by
    intro c hc
    rw [← Option.mem_some.mp hc]
    decide
  have hsubject := readTerm_writeNtriples ht.1 (' ' :: (t.predicate.writeNtriples ++
    (' ' :: t.object.writeNtriples))) hspace
  have hpredicate := readTerm_trimStart_leftover t.subject ht.2.1
    (' ' :: t.object.writeNtriples) hspace
  have hobject := readTerm_trimStart_leftover t.predicate ht.2.2 [] (by simp)
  rw [List.append_nil] at hobject
  constructor
  · rintro ⟨hs, hp⟩
    rw [parseNtLine, hline, Triple.terms, hsubject]
    simp only [bind, Except.bind]
    rw [hpredicate.1 hs]
    simp only []
    rw [hobject.1 hp]
    rfl
  · intro hreadable
    rw [parseNtLine, hline, Triple.terms, hsubject]
    simp only [bind, Except.bind]
    by_cases hs : t.subject.leftover = []
    · rw [hpredicate.1 hs]
      simp only []
      rw [hobject.2 fun hp => hreadable ⟨hs, hp⟩]
      exact ⟨_, rfl⟩
    · rw [hpredicate.2 hs]
      exact ⟨_, rfl⟩

theorem readLine_writeNtriples {t : Triple} (ht : t.WellFormed) :
    (t.Readable → readLine t.writeNtriples = .ok (some t.reread)) ∧
      (¬ t.Readable → ∃ e, readLine t.writeNtriples = .error e) := by
  obtain ⟨c, hc, cs, hcs⟩ := head?_terms t
  have htext : t.writeNtriples = c :: (cs ++ [' '] ++ ['.']) := by
    rw [t.writeNtriples_eq, hcs]
    rfl
  have htrim : trim t.writeNtriples = t.writeNtriples := by
    refine trim_eq_self ?_ ?_
    · intro d hd
      rw [htext, List.head?_cons, Option.mem_some] at hd
      rw [← hd]
      exact isWhitespace_of_mem hc
    · intro d hd
      rw [t.writeNtriples_eq, List.getLast?_concat, Option.mem_some] at hd
      rw [← hd]
      decide
  have hskip : (t.writeNtriples.isEmpty || startsWith ['#'] t.writeNtriples) = false := by
    rw [htext]
    simp only [List.mem_cons, List.not_mem_nil, or_false] at hc
    rcases hc with rfl | rfl | rfl <;> simp [startsWith, List.isPrefixOf]
  rw [readLine, htrim, hskip, if_neg (by simp)]
  obtain ⟨hok, herr⟩ := parseNtLine_writeNtriples ht
  constructor
  · intro h
    rw [hok h]
    rfl
  · intro h
    obtain ⟨e, he⟩ := herr h
    exact ⟨e, by rw [he]; rfl⟩

/-! ## The whole text -/

theorem foldlM_insertLine_eq_ok_iff {ls : List Str} {k : Nat} {g h : Graph} :
    (ls.zipIdx k).foldlM insertLine g = .ok h ↔
      ∃ os : List (Option Triple), ls.map readLine = os.map .ok ∧
        h = (os.filterMap id).foldl (fun g t => g.insert t) g := by
  induction ls generalizing k g with
  | nil =>
      constructor
      · intro heq
        exact ⟨[], rfl, (Except.ok.inj heq).symm⟩
      · rintro ⟨os, hos, rfl⟩
        rw [List.map_eq_nil_iff.mp hos.symm]
        rfl
  | cons l ls ih =>
      rw [List.zipIdx_cons, List.foldlM_cons]
      cases hline : readLine l with
      | error e =>
          have hstep : insertLine g (l, k) = .error (lineError k e) := by rw [insertLine, hline]
          rw [hstep]
          constructor
          · intro heq
            cases heq
          · rintro ⟨os, hos, -⟩
            cases os with
            | nil => simp at hos
            | cons o os => simp [hline] at hos
      | ok o =>
          have hstep : insertLine g (l, k) = .ok (o.elim g fun t => g.insert t) := by
            rw [insertLine, hline]
          have hfold (os : List (Option Triple)) :
              ((o :: os).filterMap id).foldl (fun g t => g.insert t) g =
                (os.filterMap id).foldl (fun g t => g.insert t) (o.elim g fun t => g.insert t) := by
            cases o <;> rfl
          rw [hstep]
          change (ls.zipIdx (k + 1)).foldlM insertLine _ = _ ↔ _
          rw [ih]
          constructor
          · rintro ⟨os, hos, rfl⟩
            exact ⟨o :: os, by simp [hline, hos], (hfold os).symm⟩
          · rintro ⟨os, hos, rfl⟩
            cases os with
            | nil => simp at hos
            | cons o' os =>
                simp only [List.map_cons, hline, List.cons.injEq, Except.ok.injEq] at hos
                obtain ⟨rfl, hos⟩ := hos
                exact ⟨os, hos, hfold os⟩

theorem lines_toNtriples {g : Graph} (hg : ∀ t ∈ g, t.WellFormed) :
    lines (toNtriples g) = g.items.map Triple.writeNtriples := by
  have htext : toNtriples g = (g.items.map Triple.writeNtriples).flatMap fun l => l ++ ['\n'] := by
    rw [toNtriples, List.flatMap_map]
  rw [htext]
  refine lines_flatMap ?_ ?_
  · intro l hl
    obtain ⟨t, ht, rfl⟩ := List.mem_map.mp hl
    obtain ⟨hs, hp, ho⟩ := hg t ht
    simp [Triple.writeNtriples, newline_notMem_writeNtriples hs, newline_notMem_writeNtriples hp,
      newline_notMem_writeNtriples ho]
  · intro l hl
    obtain ⟨t, -, rfl⟩ := List.mem_map.mp hl
    rw [t.writeNtriples_eq]
    exact dropCr_append_singleton (by decide) _

/-- A graph is read back exactly when its triples are readable, and then as the
set of what they are read as. -/
theorem parseNtriples_toNtriples_iff {g h : Graph} (hg : ∀ t ∈ g, t.WellFormed) :
    parseNtriples (toNtriples g) = .ok h ↔
      (∀ t ∈ g, t.Readable) ∧ h = SortedSet.ofList (g.items.map Triple.reread) := by
  rw [parseNtriples, lines_toNtriples hg, foldlM_insertLine_eq_ok_iff, List.map_map]
  have hread (hr : ∀ t ∈ g, t.Readable) : g.items.map (readLine ∘ Triple.writeNtriples) =
      ((g.items.map Triple.reread).map some).map .ok := by
    rw [List.map_map, List.map_map]
    refine List.map_congr_left ?_
    intro t ht
    exact (readLine_writeNtriples (hg t ht)).1 (hr t ht)
  constructor
  · rintro ⟨os, hos, rfl⟩
    have hr : ∀ t ∈ g, t.Readable := by
      intro t ht
      by_contra hnot
      obtain ⟨e, he⟩ := (readLine_writeNtriples (hg t ht)).2 hnot
      have hmem : Except.error e ∈ os.map Except.ok := by
        rw [← hos, ← he]
        exact List.mem_map.mpr ⟨t, ht, rfl⟩
      simp at hmem
    refine ⟨hr, ?_⟩
    rw [hread hr] at hos
    have hos : os = (g.items.map Triple.reread).map some :=
      (List.map_injective_iff.mpr (fun _ _ h => Except.ok.inj h) hos).symm
    rw [hos, SortedSet.ofList]
    simp
  · rintro ⟨hr, rfl⟩
    refine ⟨(g.items.map Triple.reread).map some, hread hr, ?_⟩
    simp [SortedSet.ofList]

/-! ## The graphs that come back as they were -/

/-- A weight that the round trip never lowers: literals grow, labels shrink. -/
def Term.weight : Term → Int
  | .iri _ => 0
  | .blankNode b => -(b.length : Int)
  | .literal v _ _ => v.length

def Triple.weight (t : Triple) : Int :=
  t.subject.weight + t.predicate.weight + t.object.weight

theorem Term.weight_le_reread (t : Term) : t.weight ≤ t.reread.weight := by
  cases t with
  | iri i => exact le_rfl
  | blankNode b =>
      have hle : (b.takeWhile (· ≠ '.')).length ≤ b.length :=
        (List.takeWhile_prefix _).length_le
      simp only [Term.weight, Term.reread]
      omega
  | literal v d l =>
      have hle := length_le_length_mojibake v
      simp only [Term.weight, Term.reread]
      omega

/-- Only a storable term keeps its weight. -/
theorem Term.storable_of_weight_eq {t : Term} (h : t.reread.weight = t.weight) : t.Storable := by
  cases t with
  | iri i => trivial
  | blankNode b =>
      intro hdot
      have hlen : (b.takeWhile (· ≠ '.')).length = b.length := by
        simp only [Term.weight, Term.reread] at h
        omega
      have heq : b.takeWhile (· ≠ '.') = b :=
        (List.takeWhile_prefix _).eq_of_length hlen
      rw [← heq] at hdot
      have hne := List.mem_takeWhile_imp (p := fun c => decide (c ≠ '.')) hdot
      simp at hne
  | literal v d l =>
      intro c hc
      by_contra hna
      have hlt := length_lt_length_mojibake hc (by simpa using hna)
      simp only [Term.weight, Term.reread] at h
      omega

theorem Term.reread_of_storable {t : Term} (h : t.Storable) : t.reread = t ∧ t.leftover = [] := by
  cases t with
  | iri i => exact ⟨rfl, rfl⟩
  | blankNode b =>
      have hall : ∀ c ∈ b, decide (c ≠ '.') = true := by
        intro c hc
        rw [decide_eq_true_iff]
        rintro rfl
        exact h hc
      constructor
      · exact congrArg Term.blankNode (List.takeWhile_eq_self_iff.mpr hall)
      · exact List.dropWhile_eq_nil_iff.mpr hall
  | literal v d l => exact ⟨by rw [Term.reread, mojibake_of_isAscii h], rfl⟩

theorem Triple.reread_of_storable {t : Triple} (h : t.Storable) : t.reread = t ∧ t.Readable := by
  obtain ⟨hs, hp, ho⟩ := h
  refine ⟨?_, (Term.reread_of_storable hs).2, (Term.reread_of_storable hp).2⟩
  rw [Triple.reread, (Term.reread_of_storable hs).1, (Term.reread_of_storable hp).1,
    (Term.reread_of_storable ho).1]

theorem Triple.storable_of_weight_eq {t : Triple} (h : t.reread.weight = t.weight) :
    t.Storable := by
  have hs := t.subject.weight_le_reread
  have hp := t.predicate.weight_le_reread
  have ho := t.object.weight_le_reread
  simp only [Triple.weight, Triple.reread] at h
  exact ⟨Term.storable_of_weight_eq (by omega), Term.storable_of_weight_eq (by omega),
    Term.storable_of_weight_eq (by omega)⟩

/-- The text of a storable graph is read back as that graph. -/
theorem parseNtriples_toNtriples {g : Graph} (hg : ∀ t ∈ g, t.WellFormed)
    (hs : ∀ t ∈ g, t.Storable) : parseNtriples (toNtriples g) = .ok g := by
  have hmap : g.items.map Triple.reread = g.items := by
    refine (List.map_congr_left ?_).trans (List.map_id g.items)
    intro t ht
    exact (Triple.reread_of_storable (hs t ht)).1
  rw [parseNtriples_toNtriples_iff hg, hmap, SortedSet.ofList_items]
  exact ⟨fun t ht => (Triple.reread_of_storable (hs t ht)).2, rfl⟩

/-- What the text of a graph is read back as holds that graph only when it is
that graph, which is then storable. -/
theorem parseNtriples_toNtriples_superset_iff {g h : Graph} (hg : ∀ t ∈ g, t.WellFormed)
    (hsub : ∀ t ∈ g, t ∈ h) :
    parseNtriples (toNtriples g) = .ok h ↔ g = h ∧ ∀ t ∈ g, t.Storable := by
  constructor
  · intro hparse
    obtain ⟨-, rfl⟩ := (parseNtriples_toNtriples_iff hg).mp hparse
    have hlen : (SortedSet.ofList (g.items.map Triple.reread)).items.length ≤ g.items.length := by
      simpa using SortedSet.length_ofList_le (g.items.map Triple.reread)
    have heq := SortedSet.eq_of_subset_of_length_le hsub hlen
    refine ⟨heq, ?_⟩
    intro t ht
    refine Triple.storable_of_weight_eq ?_
    refine SortedSet.weight_eq_of_ofList_map_eq heq.symm ?_ ht
    intro u _
    have hs := u.subject.weight_le_reread
    have hp := u.predicate.weight_le_reread
    have ho := u.object.weight_le_reread
    simp only [Triple.weight, Triple.reread]
    omega
  · rintro ⟨rfl, hs⟩
    exact parseNtriples_toNtriples hg hs

/-- The terms that N-Triples has a text for: well-formed ones, with a label that
is not empty and holds no dot. Any text is the value of a literal. -/
def Term.Expressible : Term → Prop
  | .iri i => (Term.iri i).WellFormed
  | .blankNode b => b ≠ [] ∧ ∀ c ∈ b, isWhitespace c = false ∧ c ≠ '.'
  | .literal v d l => (Term.literal v d l).WellFormed

/-- The value is ASCII, if the term is a literal. -/
def Term.AsciiValue : Term → Prop
  | .literal v _ _ => ∀ c ∈ v, isAscii c = true
  | _ => True

def Triple.Expressible (t : Triple) : Prop :=
  t.subject.Expressible ∧ t.predicate.Expressible ∧ t.object.Expressible

def Triple.AsciiValues (t : Triple) : Prop :=
  t.subject.AsciiValue ∧ t.predicate.AsciiValue ∧ t.object.AsciiValue

theorem Term.wellFormed_of_expressible {t : Term} (h : t.Expressible) : t.WellFormed := by
  cases t with
  | iri i => exact h
  | blankNode b => exact fun c hc => (h.2 c hc).1
  | literal v d l => exact h

theorem Term.storable_iff_of_expressible {t : Term} (h : t.Expressible) :
    t.Storable ↔ t.AsciiValue := by
  cases t with
  | iri i => exact Iff.rfl
  | blankNode b => exact ⟨fun _ => trivial, fun _ hdot => (h.2 '.' hdot).2 rfl⟩
  | literal v d l => exact Iff.rfl

theorem Triple.wellFormed_of_expressible {t : Triple} (h : t.Expressible) : t.WellFormed :=
  ⟨Term.wellFormed_of_expressible h.1, Term.wellFormed_of_expressible h.2.1,
    Term.wellFormed_of_expressible h.2.2⟩

/-- A graph comes back as it was exactly when all its literals are ASCII. -/
theorem parseNtriples_toNtriples_eq_iff {g : Graph} (hg : ∀ t ∈ g, t.Expressible) :
    parseNtriples (toNtriples g) = .ok g ↔ ∀ t ∈ g, t.AsciiValues := by
  have hwf : ∀ t ∈ g, t.WellFormed := fun t ht => Triple.wellFormed_of_expressible (hg t ht)
  have hstorable : ∀ t ∈ g, (t.Storable ↔ t.AsciiValues) := by
    intro t ht
    obtain ⟨hs, hp, ho⟩ := hg t ht
    rw [Triple.Storable, Triple.AsciiValues, Term.storable_iff_of_expressible hs,
      Term.storable_iff_of_expressible hp, Term.storable_iff_of_expressible ho]
  rw [parseNtriples_toNtriples_superset_iff hwf fun t ht => ht]
  constructor
  · rintro ⟨-, hall⟩ t ht
    exact (hstorable t ht).1 (hall t ht)
  · intro hall
    exact ⟨rfl, fun t ht => (hstorable t ht).2 (hall t ht)⟩

/-- The graph of one triple whose object is a literal. -/
def literalGraph (value : Str) : Graph :=
  SortedSet.ofList [⟨.iri "http://example/s", .iri "http://example/p", .literal value none none⟩]

theorem expressible_literalGraph (value : Str) : ∀ t ∈ literalGraph value, t.Expressible := by
  intro t ht
  rw [literalGraph, SortedSet.mem_ofList, List.mem_singleton] at ht
  subst ht
  refine ⟨?_, ?_, Or.inl rfl, by simp, by simp⟩
  · exact ⟨by decide, by decide⟩
  · exact ⟨by decide, by decide⟩

theorem parseNtriples_toNtriples_eq_iff_literalGraph :
    parseNtriples (toNtriples (literalGraph "plain")) = .ok (literalGraph "plain") ↔
      ∀ t ∈ literalGraph "plain", t.AsciiValues :=
  parseNtriples_toNtriples_eq_iff (expressible_literalGraph "plain")

/-- A letter that is not ASCII comes back as its octets. -/
theorem literalGraph_not_read_back :
    ¬∀ g : Graph, (∀ t ∈ g, t.Expressible) → parseNtriples (toNtriples g) = .ok g := by
  intro h
  have hback := h (literalGraph "é") (expressible_literalGraph "é")
  rw [parseNtriples_toNtriples_superset_iff ?_ fun t ht => ht] at hback
  · have hmem : ⟨.iri "http://example/s", .iri "http://example/p", .literal "é" none none⟩ ∈
        literalGraph "é" := by
      rw [literalGraph, SortedSet.mem_ofList, List.mem_singleton]
    exact absurd (hback.2 _ hmem).2.2 (by simp only [Term.Storable]; decide)
  · exact fun t ht => Triple.wellFormed_of_expressible (expressible_literalGraph "é" t ht)

/-! ## What the reader returns is well formed -/

theorem readValue_snd_suffix (s : Str) : (readValue s).2 <:+ s := by
  induction s using readValue.induct with
  | case1 => exact List.suffix_refl _
  | case2 cs => exact List.suffix_cons _ _
  | case3 d cs ih => exact ih.trans ((List.suffix_cons d cs).trans (List.suffix_cons _ _))
  | case4 c cs hquote hbackslash ih =>
      rw [readValue]
      · exact ih.trans (List.suffix_cons c cs)
      · exact hquote
      · exact hbackslash

/-- What is read as a literal is well formed, and the rest is a part of the text. -/
theorem wellFormed_of_readLiteral {input rest : Str} {t : Term} (hline : '\n' ∉ input)
    (h : readLiteral input = .ok (t, rest)) : t.WellFormed ∧ rest <:+ input := by
  rw [readLiteral] at h
  split at h
  · cases h
  · rename_i inside hinside
    have hin : inside <:+ input := suffix_of_stripPrefix hinside
    have hafter := (readValue_snd_suffix inside).trans hin
    split at h
    rename_i value after hvalue
    rw [hvalue] at hafter
    split at h
    · rename_i r hr
      have hrsuffix : r <:+ input := (suffix_of_stripPrefix hr).trans hafter
      split at h
      · cases h
      · rename_i dt rest' hsplit
        obtain ⟨rfl, rfl⟩ := Prod.mk.inj (Except.ok.inj h)
        obtain ⟨hcat, hclose⟩ := eq_append_of_splitOnce hsplit
        have hrest : rest' <:+ r := ⟨dt ++ ['>'], by simp [hcat]⟩
        refine ⟨⟨Or.inr rfl, ?_, by simp⟩, hrest.trans hrsuffix⟩
        intro dt' hdt'
        rw [← Option.mem_some.mp hdt']
        refine ⟨hclose, fun hmem => hline (hrsuffix.subset ?_)⟩
        rw [hcat]
        exact List.mem_append_left _ hmem
    · split at h
      · rename_i r hr
        have hrsuffix : r <:+ input := (suffix_of_stripPrefix hr).trans hafter
        obtain ⟨rfl, rfl⟩ := Prod.mk.inj (Except.ok.inj h)
        refine ⟨⟨Or.inl rfl, by simp, ?_⟩, (List.dropWhile_suffix _).trans hrsuffix⟩
        intro lang hlang c hc
        rw [← Option.mem_some.mp hlang] at hc
        simpa using List.mem_takeWhile_imp (p := fun c => !endsLabel c) hc
      · obtain ⟨rfl, rfl⟩ := Prod.mk.inj (Except.ok.inj h)
        exact ⟨⟨Or.inl rfl, by simp, by simp⟩, hafter⟩

theorem wellFormed_of_readTerm {input rest : Str} {t : Term} (hline : '\n' ∉ input)
    (h : readTerm input = .ok (t, rest)) : t.WellFormed ∧ rest <:+ input := by
  have htrim : trimStart input <:+ input := List.dropWhile_suffix _
  rw [readTerm] at h
  split at h
  · rename_i r hr
    have hrsuffix : r <:+ input := (suffix_of_stripPrefix hr).trans htrim
    split at h
    · cases h
    · rename_i iri rest' hsplit
      obtain ⟨rfl, rfl⟩ := Prod.mk.inj (Except.ok.inj h)
      obtain ⟨hcat, hclose⟩ := eq_append_of_splitOnce hsplit
      have hrest : rest' <:+ r := ⟨iri ++ ['>'], by simp [hcat]⟩
      refine ⟨⟨hclose, fun hmem => hline (hrsuffix.subset ?_)⟩, hrest.trans hrsuffix⟩
      rw [hcat]
      exact List.mem_append_left _ hmem
  · split at h
    · rename_i r hr
      have hrsuffix : r <:+ input := (suffix_of_stripPrefix hr).trans htrim
      obtain ⟨rfl, rfl⟩ := Prod.mk.inj (Except.ok.inj h)
      refine ⟨?_, (List.dropWhile_suffix _).trans hrsuffix⟩
      intro c hc
      have hends := List.mem_takeWhile_imp (p := fun c => !endsLabel c) hc
      simp only [endsLabel, Bool.not_eq_true', Bool.or_eq_false_iff] at hends
      exact hends.1
    · split at h
      · have hquoted : '\n' ∉ trimStart input := fun hmem => hline (htrim.subset hmem)
        obtain ⟨hwf, hsuffix⟩ := wellFormed_of_readLiteral hquoted h
        exact ⟨hwf, hsuffix.trans htrim⟩
      · cases h

theorem wellFormed_of_parseNtLine {line : Str} {t : Triple} (hline : '\n' ∉ line)
    (h : parseNtLine line = .ok t) : t.WellFormed := by
  have hdots : '\n' ∉ trim (trimEndMatches '.' line) := by
    intro hmem
    have hstart := (List.rdropWhile_prefix _ _).subset hmem
    have htrim := (List.dropWhile_suffix _).subset hstart
    exact hline ((List.rdropWhile_prefix _ _).subset htrim)
  rw [parseNtLine] at h
  simp only [bind, Except.bind] at h
  split at h
  · cases h
  · rename_i s hs
    obtain ⟨hsubject, hsuffix⟩ := wellFormed_of_readTerm hdots hs
    have hrest : '\n' ∉ trimStart s.2 := fun hmem =>
      hdots (hsuffix.subset ((List.dropWhile_suffix _).subset hmem))
    split at h
    · cases h
    · rename_i p hp
      obtain ⟨hpredicate, hsuffix'⟩ := wellFormed_of_readTerm hrest hp
      have hrest' : '\n' ∉ trimStart p.2 := fun hmem =>
        hrest (hsuffix'.subset ((List.dropWhile_suffix _).subset hmem))
      split at h
      · cases h
      · rename_i o ho
        obtain ⟨hobject, -⟩ := wellFormed_of_readTerm hrest' ho
        cases h
        exact ⟨hsubject, hpredicate, hobject⟩

/-- Every triple of a graph that was read is well formed. -/
theorem wellFormed_of_parseNtriples {input : Str} {g : Graph}
    (h : parseNtriples input = .ok g) : ∀ t ∈ g, t.WellFormed := by
  obtain ⟨os, hos, rfl⟩ := foldlM_insertLine_eq_ok_iff.mp h
  intro t ht
  have hmem : t ∈ os.filterMap id := by simpa [SortedSet.mem_foldl_insert] using ht
  have hsome : Except.ok (some t) ∈ (lines input).map readLine := by
    rw [hos]
    simpa using hmem
  obtain ⟨l, hl, hread⟩ := List.mem_map.mp hsome
  have hnl := not_newline_of_mem_lines hl
  rw [readLine] at hread
  split at hread
  · cases hread
  · have htrim : '\n' ∉ trim l := fun hmem =>
      hnl ((List.dropWhile_suffix _).subset ((List.rdropWhile_prefix _ _).subset hmem))
    cases hparse : parseNtLine (trim l) with
    | error e =>
        rw [hparse] at hread
        cases hread
    | ok u =>
        rw [hparse] at hread
        cases hread
        exact wellFormed_of_parseNtLine htrim hparse

end Ldp

end SolidPod
