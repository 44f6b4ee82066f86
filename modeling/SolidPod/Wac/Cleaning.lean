import SolidPod.Foundation.Occurrence
import SolidPod.Wac.RoundTrip

/-!
# What is left of a text before it is cut into statements

The parser drops carriage returns at line ends, comments and directives, and
cuts what is left. Here this is said of any text that ends in a line feed: the
body holds no directive, and when the text behind the serialiser's header holds
none, the prefixes are those of the header and the body is the text without its
carriage returns and comments.
-/

namespace SolidPod

namespace Wac

open Foundation Str

/-- The lines of a text with a line feed behind each. -/
def ended (ls : List Str) : Str := ls.flatMap fun l => l ++ ['\n']

/-- Every text with a line feed behind it is made of lines. -/
theorem exists_ended (t : Str) : ∃ ls, (∀ l ∈ ls, '\n' ∉ l) ∧ t ++ ['\n'] = ended ls := by
  induction t with
  | nil => exact ⟨[[]], by simp, rfl⟩
  | cons c t ih =>
      obtain ⟨ls, hls, ht⟩ := ih
      by_cases hc : c = '\n'
      · refine ⟨[] :: ls, by simpa using hls, ?_⟩
        rw [List.cons_append, ht, hc]
        rfl
      · cases ls with
        | nil => simp [ended] at ht
        | cons l ls =>
            rw [List.forall_mem_cons] at hls
            refine ⟨(c :: l) :: ls, ?_, ?_⟩
            · rw [List.forall_mem_cons]
              exact ⟨by simp [hls.1, Ne.symm hc], hls.2⟩
            · rw [List.cons_append, ht]
              rfl

/-! ## Carriage returns -/

/-- The text without the carriage returns at its line ends. -/
def dropCrs : Str → Str
  | [] => []
  | c :: cs => if c = '\r' ∧ cs.head? = some '\n' then dropCrs cs else c :: dropCrs cs

theorem dropCrs_cons_of_ne {c : Char} (h : c ≠ '\r') (cs : Str) :
    dropCrs (c :: cs) = c :: dropCrs cs := by
  rw [dropCrs, if_neg fun hc => h hc.1]

theorem dropCrs_append_of_notMem {a : Str} (h : '\r' ∉ a) (b : Str) :
    dropCrs (a ++ b) = a ++ dropCrs b := by
  induction a with
  | nil => rfl
  | cons c a ih =>
      rw [List.mem_cons, not_or] at h
      rw [List.cons_append, dropCrs_cons_of_ne (Ne.symm h.1), ih h.2, List.cons_append]

/-- What does not begin with a line feed has no influence on what is before it. -/
theorem dropCrs_append_cons {c : Char} (h : c ≠ '\n') (a b : Str) :
    dropCrs (a ++ c :: b) = dropCrs a ++ dropCrs (c :: b) := by
  induction a with
  | nil => rfl
  | cons d a ih =>
      have hhead : (a ++ c :: b).head? = some '\n' ↔ a.head? = some '\n' := by
        cases a with
        | nil => simp [h]
        | cons e a => simp
      rw [List.cons_append, dropCrs, dropCrs, ih]
      simp only [hhead]
      split <;> rfl

theorem dropCrs_sublist (t : Str) : (dropCrs t).Sublist t := by
  induction t with
  | nil => exact List.Sublist.slnil
  | cons c t ih =>
      rw [dropCrs]
      split
      · exact ih.cons c
      · exact ih.cons_cons c

theorem dropCrs_line {l : Str} (hl : '\n' ∉ l) (rest : Str) :
    dropCrs (l ++ '\n' :: rest) = dropCr l ++ '\n' :: dropCrs rest := by
  rcases List.eq_nil_or_concat' l with rfl | ⟨p, c, rfl⟩
  · exact dropCrs_cons_of_ne (by decide) rest
  · have hp : ∀ q : Str, '\n' ∉ q → ∀ d u, d ≠ '\n' →
        dropCrs (q ++ d :: u) = q ++ dropCrs (d :: u) := by
      intro q hq d u hd
      rw [dropCrs_append_cons hd]
      refine congrArg (· ++ dropCrs (d :: u)) ?_
      induction q with
      | nil => rfl
      | cons e q ih =>
          rw [List.mem_cons, not_or] at hq
          have hhead : q.head? ≠ some '\n' := fun h => hq.2 (List.mem_of_mem_head? h)
          rw [dropCrs, if_neg fun h => hhead h.2, ih hq.2]
    rw [List.mem_append, not_or, List.mem_singleton] at hl
    rw [List.append_assoc, List.singleton_append, hp p hl.1 c _ (Ne.symm hl.2), dropCrs]
    by_cases hc : c = '\r'
    · rw [hc, if_pos ⟨rfl, rfl⟩, dropCrs_cons_of_ne (by decide), dropCr, stripSuffix_append]
      rfl
    · rw [if_neg fun h => hc h.1, dropCrs_cons_of_ne (by decide), dropCr_append_singleton hc]
      simp

theorem dropCrs_ended {ls : List Str} (h : ∀ l ∈ ls, '\n' ∉ l) :
    dropCrs (ended ls) = ended (ls.map dropCr) := by
  induction ls with
  | nil => rfl
  | cons l ls ih =>
      rw [List.forall_mem_cons] at h
      rw [List.map_cons, ended, ended, List.flatMap_cons, List.flatMap_cons, List.append_assoc,
        List.singleton_append, dropCrs_line h.1, ← ended, ih h.2, ← ended]
      simp

theorem dropCr_isPrefix_self (l : Str) : dropCr l <+: l := by
  rw [dropCr]
  cases hs : stripSuffix ['\r'] l with
  | none => exact List.prefix_rfl
  | some r =>
      obtain ⟨t, ht, rfl⟩ := Option.map_eq_some_iff.mp hs
      refine ⟨['\r'], ?_⟩
      rw [← List.reverse_reverse l, stripPrefix_eq_some.mp ht]
      simp

theorem lines_ended {ls : List Str} (h : ∀ l ∈ ls, '\n' ∉ l) :
    lines (ended ls) = ls.map dropCr := by
  induction ls with
  | nil => rfl
  | cons l ls ih =>
      rw [List.forall_mem_cons] at h
      rw [List.map_cons, ← ih h.2, ended, List.flatMap_cons, List.append_assoc, lines,
        linesFrom_append [] h.1]
      rfl

/-! ## Comments -/

/-- Where the comment stripper is: inside a comment, or with an IRI open or not. -/
def commentScan (s : Option Bool) (c : Char) : Option Bool :=
  if c = '\n' then some false
  else s.bind fun inIri =>
    if c = '<' then some true
    else if c = '>' then some false
    else if c = '#' && !inIri then none
    else some inIri

/-- Where it is behind a text. -/
def scanTo (s : Option Bool) (t : Str) : Option Bool := t.foldl commentScan s

/-- The text without its comments. -/
def uncomment : Option Bool → Str → Str
  | _, [] => []
  | s, c :: cs =>
    if (commentScan s c).isSome then c :: uncomment (commentScan s c) cs
    else uncomment (commentScan s c) cs

theorem scanTo_cons (s : Option Bool) (c : Char) (t : Str) :
    scanTo s (c :: t) = scanTo (commentScan s c) t := rfl

theorem uncomment_append (s : Option Bool) (a b : Str) :
    uncomment s (a ++ b) = uncomment s a ++ uncomment (scanTo s a) b := by
  induction a generalizing s with
  | nil => rfl
  | cons c a ih =>
      rw [List.cons_append, uncomment, uncomment, ih, scanTo_cons]
      split <;> rfl

theorem uncomment_sublist (s : Option Bool) (t : Str) : (uncomment s t).Sublist t := by
  induction t generalizing s with
  | nil => exact List.Sublist.slnil
  | cons c t ih =>
      rw [uncomment]
      split
      · exact (ih _).cons_cons c
      · exact (ih _).cons c

/-- Up to the end of the line a comment is dropped. -/
theorem uncomment_none {l : Str} (h : '\n' ∉ l) :
    uncomment none l = [] ∧ scanTo none l = none := by
  induction l with
  | nil => exact ⟨rfl, rfl⟩
  | cons c l ih =>
      rw [List.mem_cons, not_or] at h
      have hstep : commentScan none c = none := by
        rw [commentScan, if_neg (Ne.symm h.1)]
        rfl
      rw [uncomment, scanTo_cons, hstep]
      exact ih h.2

theorem uncomment_line {l : Str} (h : '\n' ∉ l) (inIri : Bool) :
    uncomment (some inIri) l = stripLineComment inIri l := by
  induction l generalizing inIri with
  | nil => rfl
  | cons c l ih =>
      rw [List.mem_cons, not_or] at h
      rw [uncomment, commentScan, if_neg (Ne.symm h.1), Option.bind_some, stripLineComment]
      by_cases hopen : c = '<'
      · simp [hopen, ih h.2]
      · by_cases hclose : c = '>'
        · simp [hclose, ih h.2]
        · by_cases hhash : (c = '#' && !inIri) = true
          · simp only [hopen, hclose, hhash, if_false, if_true, Option.isSome_none,
              Bool.false_eq_true]
            exact (uncomment_none h.2).1
          · simp only [hopen, hclose, hhash, if_false, Option.isSome_some, if_true,
              Bool.false_eq_true]
            rw [ih h.2]

theorem uncomment_ended {ls : List Str} (h : ∀ l ∈ ls, '\n' ∉ l) :
    uncomment (some false) (ended ls) = ended (ls.map (stripLineComment false)) := by
  induction ls with
  | nil => rfl
  | cons l ls ih =>
      rw [List.forall_mem_cons] at h
      have hnewline : ∀ s u, uncomment s ('\n' :: u) = '\n' :: uncomment (some false) u :=
        fun _ _ => rfl
      rw [List.map_cons, ended, ended, List.flatMap_cons, List.flatMap_cons, List.append_assoc,
        List.singleton_append, uncomment_append, hnewline, uncomment_line h.1, ← ended, ih h.2,
        ← ended]
      simp

theorem stripLineComment_isPrefix_self (inIri : Bool) (l : Str) :
    stripLineComment inIri l <+: l := by
  induction l generalizing inIri with
  | nil => exact List.prefix_rfl
  | cons c l ih =>
      rw [stripLineComment]
      split
      · exact (List.prefix_cons_inj c).mpr (ih _)
      · split
        · exact (List.prefix_cons_inj c).mpr (ih _)
        · split
          · exact List.nil_prefix
          · exact (List.prefix_cons_inj c).mpr (ih _)

theorem stripTurtleComments_ended {ls : List Str} (h : ∀ l ∈ ls, '\n' ∉ l) :
    stripTurtleComments (ended ls) =
      ended ((ls.map dropCr).map (stripLineComment false)) := by
  rw [stripTurtleComments, lines_ended h, ended, List.flatMap_map, List.flatMap_map,
    List.flatMap_map]

/-! ## Directives -/

/-- A line that binds a prefix, or is at least taken for one. -/
def IsDirective (l : Str) : Prop := ("@prefix" : Str) <+: trimStart l

/-- No line of the text is a directive; `atStart` says whether only white space
is before it on its line. -/
def DirectiveFree : Bool → Str → Prop
  | _, [] => True
  | atStart, c :: cs =>
    (atStart = true → ¬ ("@prefix" : Str) <+: c :: cs) ∧
      DirectiveFree (directiveSplitter.step atStart c) cs

/-- A text without an `@` holds no directive. -/
theorem directiveFree_append_of_notMem {a : Str} (h : '@' ∉ a) (atStart : Bool) (b : Str) :
    DirectiveFree atStart (a ++ b) ↔ DirectiveFree (directiveSplitter.run atStart a) b := by
  induction a generalizing atStart with
  | nil => rfl
  | cons c a ih =>
      rw [List.mem_cons, not_or] at h
      have hno : ¬ ("@prefix" : Str) <+: c :: (a ++ b) := by
        intro hp
        exact h.1 (List.cons_prefix_cons.mp hp).1
      rw [List.cons_append, DirectiveFree, ih h.2, Splitter.run_cons]
      exact and_iff_right fun _ => hno

/-- Less is looked at when the line has begun. -/
theorem DirectiveFree.begun {atStart : Bool} {t : Str} (h : DirectiveFree atStart t) :
    DirectiveFree false t := by
  induction t generalizing atStart with
  | nil => trivial
  | cons c t ih =>
      refine ⟨by simp, ?_⟩
      by_cases hc : c = '\n'
      · have hstep : ∀ b, directiveSplitter.step b c = true := by
          intro b
          simp [directiveSplitter, hc]
        rw [hstep]
        rw [← hstep atStart]
        exact h.2
      · have hstep : directiveSplitter.step false c = false := by
          simp [directiveSplitter, hc]
        rw [hstep]
        exact ih h.2

theorem DirectiveFree.of_append_right {atStart : Bool} {a b : Str}
    (h : DirectiveFree atStart (a ++ b)) : DirectiveFree false b := by
  induction a generalizing atStart with
  | nil => exact h.begun
  | cons c a ih => exact ih h.2

theorem DirectiveFree.of_append_left {atStart : Bool} {a b : Str}
    (h : DirectiveFree atStart (a ++ b)) : DirectiveFree atStart a := by
  induction a generalizing atStart with
  | nil => trivial
  | cons c a ih =>
      refine ⟨?_, ih h.2⟩
      intro hstart hp
      exact h.1 hstart (hp.trans (by simp))

/-- Text that begins with a character of no directive, and of no white space,
ends what may become one. -/
theorem directiveFree_append_cons {c : Char} (hc : c ∉ ("@prefix" : Str))
    (hspace : isWhitespace c = false) (atStart : Bool) (a b : Str) :
    DirectiveFree atStart (a ++ c :: b) ↔ DirectiveFree atStart a ∧ DirectiveFree false b := by
  induction a generalizing atStart with
  | nil =>
      have hno : ¬ ("@prefix" : Str) <+: c :: b := by
        intro hp
        exact hc (by rw [← (List.cons_prefix_cons.mp hp).1]; decide)
      have hstep : directiveSplitter.step atStart c = false := by
        have hne : c ≠ '\n' := (ne_newline_of_isWhitespace hspace).1
        simp [directiveSplitter, hne, hspace]
      change ((atStart = true → ¬ ("@prefix" : Str) <+: c :: b) ∧
        DirectiveFree (directiveSplitter.step atStart c) b) ↔ True ∧ DirectiveFree false b
      rw [hstep, true_and]
      exact and_iff_right fun _ => hno
  | cons d a ih =>
      rw [List.cons_append, DirectiveFree, ih, DirectiveFree, and_assoc, ← List.cons_append,
        prefix_append_cons_iff hc]

/-- A text on one line whose line has begun holds no directive. -/
theorem directiveFree_append_of_line {a : Str} (h : '\n' ∉ a) (b : Str) :
    DirectiveFree false (a ++ b) ↔ DirectiveFree false b := by
  induction a with
  | nil => rfl
  | cons c a ih =>
      rw [List.mem_cons, not_or] at h
      have hstep : directiveSplitter.step false c = false := by
        simp [directiveSplitter, Ne.symm h.1]
      rw [List.cons_append, DirectiveFree, hstep, ih h.2]
      simp

theorem directiveFree_line {l : Str} (h : '\n' ∉ l) (rest : Str) :
    DirectiveFree true (l ++ '\n' :: rest) ↔ ¬ IsDirective l ∧ DirectiveFree true rest := by
  induction l with
  | nil =>
      have hno : ¬ ("@prefix" : Str) <+: '\n' :: rest := by
        intro hp
        exact absurd (List.cons_prefix_cons.mp hp).1 (by decide)
      have hnil : ¬ IsDirective [] := by
        intro hp
        exact absurd (List.prefix_nil.mp hp) (by decide)
      rw [List.nil_append, DirectiveFree]
      simp only [hno, hnil, not_false_eq_true, implies_true, true_and]
      rfl
  | cons c l ih =>
      have hfirst := h
      rw [List.mem_cons, not_or] at h
      rw [List.cons_append, DirectiveFree]
      cases hc : isWhitespace c with
      | true =>
          have hno : ¬ ("@prefix" : Str) <+: c :: (l ++ '\n' :: rest) := by
            intro hp
            rw [← (List.cons_prefix_cons.mp hp).1] at hc
            exact absurd hc (by decide)
          have hstep : directiveSplitter.step true c = true := by
            simp [directiveSplitter, hc]
          rw [hstep, ih h.2, IsDirective, IsDirective, trimStart_cons_of hc]
          exact and_iff_right fun _ => hno
      | false =>
          have hstep : directiveSplitter.step true c = false := by
            simp [directiveSplitter, hc, Ne.symm h.1]
          have hnewline : DirectiveFree false ('\n' :: rest) ↔ DirectiveFree true rest := by
            rw [DirectiveFree]
            simp only [Bool.false_eq_true, false_implies, true_and]
            rfl
          rw [hstep, directiveFree_append_of_line h.2, hnewline, IsDirective,
            trimStart_cons_of_not hc, ← List.cons_append,
            prefix_append_cons_iff (by decide)]
          exact and_congr_left fun _ => ⟨fun hp => hp rfl, fun hp _ => hp⟩

theorem directiveFree_ended {ls : List Str} (h : ∀ l ∈ ls, '\n' ∉ l) :
    DirectiveFree true (ended ls) ↔ ∀ l ∈ ls, ¬ IsDirective l := by
  induction ls with
  | nil => simp [ended, DirectiveFree]
  | cons l ls ih =>
      rw [List.forall_mem_cons] at h
      rw [ended, List.flatMap_cons, List.append_assoc, List.singleton_append,
        directiveFree_line h.1, ← ended, ih h.2, List.forall_mem_cons]

/-- A line that is a directive in part is one. -/
theorem IsDirective.of_prefix {k l : Str} (h : IsDirective k) (hk : k <+: l) : IsDirective l := by
  obtain ⟨t, rfl⟩ := hk
  rw [IsDirective] at h ⊢
  obtain ⟨r, hr⟩ := h
  rcases trimStart_cases k with hnil | ⟨c, rest, hcons, hc⟩
  · rw [hnil] at hr
    exact absurd hr (by simp)
  · have hsplit : k = k.takeWhile isWhitespace ++ c :: rest := by
      rw [← hcons]
      exact (List.takeWhile_append_dropWhile).symm
    have hblank : ∀ d ∈ k.takeWhile isWhitespace, isWhitespace d = true :=
      fun d hd => List.mem_takeWhile_imp hd
    rw [hsplit, List.append_assoc, trimStart_blank_append hblank, List.cons_append,
      trimStart_cons_of_not hc, ← List.cons_append, ← hcons, ← hr]
    simp

theorem stripPrefix_directive_iff {l : Str} :
    stripPrefix "@prefix" (trim l) = none ↔ ¬ IsDirective l := by
  rw [stripPrefix_eq_none, IsDirective, not_iff_not]
  constructor
  · intro h
    exact h.trans (List.rdropWhile_prefix _ _)
  · rintro ⟨r, hr⟩
    have hword := trim_word_append (a := "@prefix") (by decide) (by decide) r
    rw [← trim_trimStart, ← hr, hword]
    exact List.prefix_append _ _

theorem prefixLine_of_not_directive (st : Prefixes × Str) {l : Str} (h : ¬ IsDirective l) :
    prefixLine st l = (st.1, st.2 ++ l ++ ['\n']) := by
  rw [prefixLine]
  simp only [stripPrefix_directive_iff.mpr h]

theorem foldl_prefixLine_of_not_directive {ls : List Str} (h : ∀ l ∈ ls, ¬ IsDirective l)
    (st : Prefixes × Str) : ls.foldl prefixLine st = (st.1, st.2 ++ ended ls) := by
  induction ls generalizing st with
  | nil => simp [ended]
  | cons l ls ih =>
      rw [List.forall_mem_cons] at h
      rw [List.foldl_cons, prefixLine_of_not_directive st h.1, ih h.2, ended, ended,
        List.flatMap_cons]
      simp

/-- The prefixes and the body of a text whose lines are read: no IRI that a prefix
is bound to goes over a line end, and no line of the body is a directive. -/
structure ReadLines (st : Prefixes × Str) : Prop where
  bases : ∀ binding ∈ st.1, '\n' ∉ binding.2
  body : ∃ ls, (∀ l ∈ ls, '\n' ∉ l ∧ ¬ IsDirective l) ∧ st.2 = ended ls

theorem notMem_trim {c : Char} {t : Str} (h : c ∉ t) : c ∉ trim t := by
  intro hc
  have hstart : trimStart t <:+ t := List.dropWhile_suffix _
  have hend : trim t <+: trimStart t := List.rdropWhile_prefix _ _
  exact h (hstart.mem (hend.mem hc))

/-- The IRI that a directive binds its name to is on the line of the directive. -/
theorem notMem_iri {c : Char} {iriPart : Str} (h : c ∉ iriPart) :
    c ∉ trim (trimEndMatches '>' (trimStartMatches '<'
      (trim (trimEndMatches '.' (trim iriPart))))) := by
  have hdot : c ∉ trimEndMatches '.' (trim iriPart) :=
    fun hc => notMem_trim h ((List.rdropWhile_prefix _ _).mem hc)
  have hopen : c ∉ trimStartMatches '<' (trim (trimEndMatches '.' (trim iriPart))) :=
    fun hc => notMem_trim hdot ((List.dropWhile_suffix _).mem hc)
  exact notMem_trim fun hc => hopen ((List.rdropWhile_prefix _ _).mem hc)

theorem ReadLines.prefixLine {st : Prefixes × Str} (h : ReadLines st) {l : Str} (hl : '\n' ∉ l) :
    ReadLines (prefixLine st l) := by
  cases hdir : stripPrefix "@prefix" (trim l) with
  | none =>
      have hno := stripPrefix_directive_iff.mp hdir
      rw [prefixLine_of_not_directive st hno]
      obtain ⟨ls, hls, hbody⟩ := h.body
      refine ⟨h.bases, ls ++ [l], ?_, ?_⟩
      · intro k hk
        rcases List.mem_append.mp hk with hk | hk
        · exact hls k hk
        · rw [List.mem_singleton.mp hk]
          exact ⟨hl, hno⟩
      · rw [hbody, ended, ended, List.flatMap_append]
        simp
  | some rest =>
      have hrest : '\n' ∉ trim rest :=
        notMem_trim fun hc => notMem_trim hl ((suffix_of_stripPrefix hdir).mem hc)
      rw [Wac.prefixLine]
      simp only [hdir]
      cases hsplit : splitOnce ':' (trim rest) with
      | none => exact h
      | some r =>
          obtain ⟨name, iriPart⟩ := r
          have hiri : '\n' ∉ iriPart := by
            intro hc
            rw [(eq_append_of_splitOnce hsplit).1] at hrest
            exact hrest (List.mem_append_right _ (List.mem_cons_of_mem _ hc))
          have hbase := notMem_iri hiri
          dsimp only
          constructor
          · intro binding hbinding
            rcases List.mem_cons.mp hbinding with rfl | hbinding
            · dsimp only
              exact hbase
            · exact h.bases binding hbinding
          · exact h.body

theorem readLines_readPrefixes (t : Str) : ReadLines (readPrefixes t) := by
  have hfold : ∀ ls : List Str, (∀ l ∈ ls, '\n' ∉ l) → ∀ st, ReadLines st →
      ReadLines (ls.foldl prefixLine st) := by
    intro ls
    induction ls with
    | nil => exact fun _ _ h => h
    | cons l ls ih =>
        intro hls st h
        rw [List.forall_mem_cons] at hls
        exact ih hls.2 _ (h.prefixLine hls.1)
  refine hfold _ (fun l hl => not_newline_of_mem_lines hl) _ ⟨?_, [], by simp, rfl⟩
  decide

theorem ReadLines.directiveFree {st : Prefixes × Str} (h : ReadLines st) :
    DirectiveFree true st.2 := by
  obtain ⟨ls, hls, hbody⟩ := h.body
  rw [hbody, directiveFree_ended fun l hl => (hls l hl).1]
  exact fun l hl => (hls l hl).2

/-! ## The text behind the header -/

/-- What the body of a text without directives is. -/
def cleaned (t : Str) : Str := dropCrs (uncomment (some false) (dropCrs t))

/-- The two directives that the serialiser writes. -/
def headerLines : List Str :=
  ["@prefix acl: <http://www.w3.org/ns/auth/acl#> .",
    "@prefix foaf: <http://xmlns.com/foaf/0.1/> ."]

theorem turtleHeader_eq : turtleHeader = ended headerLines ++ ['\n'] := by
  decide

theorem readPrefixes_of_directiveFree {ls : List Str} (hls : ∀ l ∈ ls, '\n' ∉ l)
    (h : DirectiveFree true (ended ls)) :
    readPrefixes (stripTurtleComments (ended (headerLines ++ ls))) =
      (headerPrefixes, cleaned (ended ls)) := by
  have hheader : ∀ l ∈ headerLines, '\n' ∉ l := by decide
  have hall : ∀ l ∈ headerLines ++ ls, '\n' ∉ l := by
    intro l hl
    exact (List.mem_append.mp hl).elim (hheader l) (hls l)
  have hclean : ∀ l : Str, '\n' ∉ l → '\n' ∉ stripLineComment false (dropCr l) := by
    intro l hl hc
    exact hl ((dropCr_isPrefix_self l).mem ((stripLineComment_isPrefix_self false _).mem hc))
  have hmap : ∀ ks : List Str, (∀ l ∈ ks, '\n' ∉ l) →
      ∀ l ∈ (ks.map dropCr).map (stripLineComment false), '\n' ∉ l := by
    intro ks hks l hl
    rw [List.map_map] at hl
    obtain ⟨k, hk, rfl⟩ := List.mem_map.mp hl
    exact hclean k (hks k hk)
  have hdrop : ∀ l ∈ ls.map dropCr, '\n' ∉ l := by
    intro l hl
    obtain ⟨k, hk, rfl⟩ := List.mem_map.mp hl
    exact fun hc => hls k hk ((dropCr_isPrefix_self k).mem hc)
  have hcleaned : cleaned (ended ls) =
      ended (((ls.map dropCr).map (stripLineComment false)).map dropCr) := by
    rw [cleaned, dropCrs_ended hls, uncomment_ended hdrop, dropCrs_ended (hmap ls hls)]
  have hfirst : (((headerLines.map dropCr).map (stripLineComment false)).map dropCr).foldl
      prefixLine (defaultPrefixes, []) = (headerPrefixes, []) := by
    decide
  have hdir : ∀ l ∈ ((ls.map dropCr).map (stripLineComment false)).map dropCr,
      ¬ IsDirective l := by
    intro l hl
    rw [List.map_map, List.map_map] at hl
    obtain ⟨k, hk, rfl⟩ := List.mem_map.mp hl
    intro hd
    exact (directiveFree_ended hls).mp h k hk (hd.of_prefix
      (((dropCr_isPrefix_self _).trans (stripLineComment_isPrefix_self false _)).trans
        (dropCr_isPrefix_self k)))
  rw [readPrefixes, stripTurtleComments_ended hall, lines_ended (hmap _ hall), List.map_append,
    List.map_append, List.map_append, List.foldl_append, hfirst,
    foldl_prefixLine_of_not_directive hdir, hcleaned]
  rfl

end Wac

end SolidPod
