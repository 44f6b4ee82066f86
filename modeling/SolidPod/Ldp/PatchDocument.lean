import SolidPod.Ldp.BlockSearch
import SolidPod.Ldp.NTriples

/-!
# Rendered N3 patches

A patch document is a preamble and clauses, each with its statements and the
white space between them. The block search finds the clauses of a document that
is delimited. It reads the first statement of each line, and the octets of a
literal as characters, so a document means what it says exactly when these
statements patch a graph as all of them do.
-/

namespace SolidPod

namespace Ldp

open Foundation Str

/-! ## Documents -/

/-- White space. -/
abbrev Gap := { w : Str // ∀ c ∈ w, isWhitespace c = true }

/-- The characters of an IRI as N-Triples and N3 write it. -/
def iriChar (c : Char) : Bool := decide (0x20 < c.toNat) && "<>\"\x7b\x7d|^`\\".toList.all (· != c)

def tagChar (c : Char) : Bool := c.isAlphanum || c == '-'

def Term.IsIri : Term → Prop
  | .iri i => ∀ c ∈ i, iriChar c = true
  | _ => False

/-- The objects of ground triples: IRIs and literals. -/
def Term.Ground : Term → Prop
  | .iri i => ∀ c ∈ i, iriChar c = true
  | .blankNode _ => False
  | .literal _ d l => (d = none ∨ l = none) ∧ (∀ dt ∈ d, ∀ c ∈ dt, iriChar c = true) ∧
      ∀ lang ∈ l, lang ≠ [] ∧ ∀ c ∈ lang, tagChar c = true

/-- A triple without blank nodes and variables. -/
def Triple.Ground (t : Triple) : Prop := t.subject.IsIri ∧ t.predicate.IsIri ∧ t.object.Ground

/-- A ground triple, and the white space in front of it and after its terms. -/
structure Statement where
  triple : Triple
  ground : triple.Ground
  before : Gap
  afterSubject : Gap
  afterPredicate : Gap
  afterObject : Gap

def Statement.text (s : Statement) : Str :=
  s.triple.subject.writeNtriples ++ (s.afterSubject.1 ++ (s.triple.predicate.writeNtriples ++
    (s.afterPredicate.1 ++ (s.triple.object.writeNtriples ++ (s.afterObject.1 ++ ['.'])))))

inductive ClauseKind where
  | inserts
  | deletes
  | wheres
  deriving DecidableEq

def ClauseKind.word : ClauseKind → Str
  | .inserts => "inserts"
  | .deletes => "deletes"
  | .wheres => "where"

/-- A clause, and the text up to the next one, which is the `;` or the `.` that
ends it with white space around. -/
structure Clause where
  kind : ClauseKind
  gap : Gap
  statements : List Statement
  closing : Gap
  after : Str
  after_plain : '{' ∉ after

/-- The text between the braces. -/
def Clause.body (c : Clause) : Str :=
  c.statements.flatMap (fun s => s.before.1 ++ s.text) ++ c.closing.1

def Clause.block (c : Clause) : Str := '{' :: (c.body ++ ['}'])

def Clause.text (c : Clause) : Str :=
  "solid" ++ ':' :: (c.kind.word ++ (c.gap.1 ++ '{' :: (c.body ++ '}' :: c.after)))

/-- A patch document: what stands before the clauses, with the subject and its
type, and at most one clause of each kind, in any order. -/
structure PatchDocument where
  preamble : Str
  preamble_plain : '{' ∉ preamble
  clauses : List Clause
  nodup : (clauses.map Clause.kind).Nodup

def PatchDocument.text (d : PatchDocument) : Str := d.preamble ++ d.clauses.flatMap Clause.text

def PatchDocument.clause? (d : PatchDocument) (k : ClauseKind) : Option Clause :=
  d.clauses.find? (·.kind = k)

/-- The statements of the clause of a kind. -/
def PatchDocument.statements (d : PatchDocument) (k : ClauseKind) : List Statement :=
  ((d.clause? k).map Clause.statements).getD []

/-- The triples that a clause names. -/
def PatchDocument.triples (d : PatchDocument) (k : ClauseKind) : List Triple :=
  (d.statements k).map Statement.triple

/-! ## The clauses are found -/

/-- The words that the search looks for. -/
def blockKeywords : List Str := ["insert", "inserts", "delete", "deletes", "where"]

/-- The search finds the clauses: the braces within each clause pair up, and no
keyword opens a block inside the clauses before the one it names. Only a literal
can break this. -/
structure PatchDocument.Delimited (d : PatchDocument) : Prop where
  pairsUp : ∀ c ∈ d.clauses, pairsUp 0 c.body = true
  quiet : ∀ kw ∈ blockKeywords, ∀ c ∈ d.clauses.takeWhile (·.kind.word ≠ kw),
    opensBlock kw (some '{') c.body = false

theorem fence_of_mem {kw : Str} (hkw : kw ∈ blockKeywords) {x : Char} (hx : x ∈ [':', '{', '}']) :
    Fence kw x := by
  have hall : ∀ kw ∈ blockKeywords, ∀ x ∈ [':', '{', '}'],
      x.toLower ∉ kw ∧ isWhitespace x = false := by decide
  obtain ⟨hmem, hwhite⟩ := hall kw hkw x hx
  exact ⟨hmem, hwhite⟩

/-- A keyword opens no block in a text without its first letter. -/
theorem opensBlock_eq_false_of_toLower_ne {k : Char} {ks : Str} {s : Str}
    (h : ∀ c ∈ s, c.toLower ≠ k) (prev : Option Char) : opensBlock (k :: ks) prev s = false := by
  induction s generalizing prev with
  | nil => rfl
  | cons c s ih =>
      have hstart : startsWith (k :: ks) (toAsciiLowercase (c :: s)) = false := by
        simp [startsWith, toAsciiLowercase, List.isPrefixOf, Ne.symm (h c (by simp))]
      rw [opensBlock, opensHere, hstart, ih fun d hd => h d (by simp [hd])]
      rfl

theorem blockKeywords_eq : blockKeywords =
    [['i', 'n', 's', 'e', 'r', 't'], ['i', 'n', 's', 'e', 'r', 't', 's'],
      ['d', 'e', 'l', 'e', 't', 'e'], ['d', 'e', 'l', 'e', 't', 'e', 's'],
      ['w', 'h', 'e', 'r', 'e']] := rfl

theorem ClauseKind.word_eq (k : ClauseKind) : k.word =
    match k with
    | .inserts => ['i', 'n', 's', 'e', 'r', 't', 's']
    | .deletes => ['d', 'e', 'l', 'e', 't', 'e', 's']
    | .wheres => ['w', 'h', 'e', 'r', 'e'] := by
  cases k <;> rfl

theorem ClauseKind.word_mem (k : ClauseKind) : k.word ∈ blockKeywords := by
  rw [blockKeywords_eq, ClauseKind.word_eq]
  cases k <;> decide

/-- No block is opened right at the word of another clause. -/
theorem opensHere_word {kw : Str} (hkw : kw ∈ blockKeywords) (k : ClauseKind)
    (hne : k.word ≠ kw) (t : Str) : opensHere kw (some ':') (k.word ++ t) = false := by
  rw [blockKeywords_eq] at hkw
  rw [ClauseKind.word_eq] at hne ⊢
  simp only [List.mem_cons, List.not_mem_nil, or_false] at hkw
  cases k with
  | inserts =>
      rcases hkw with rfl | rfl | rfl | rfl | rfl
      · rfl
      · exact absurd rfl hne
      · rfl
      · rfl
      · rfl
  | deletes =>
      rcases hkw with rfl | rfl | rfl | rfl | rfl
      · rfl
      · rfl
      · rfl
      · exact absurd rfl hne
      · rfl
  | wheres =>
      rcases hkw with rfl | rfl | rfl | rfl | rfl
      · rfl
      · rfl
      · rfl
      · rfl
      · exact absurd rfl hne

/-- The word of a clause opens a block for that word only. -/
theorem opensBlock_word {kw : Str} (hkw : kw ∈ blockKeywords) (k : ClauseKind)
    (hne : k.word ≠ kw) {gap : Str} (hgap : ∀ c ∈ gap, isWhitespace c = true) :
    opensBlock kw (some ':') (k.word ++ gap ++ ['{']) = false := by
  have hhead : ∀ kw ∈ blockKeywords, ∃ y ∈ ['i', 'd', 'w'], ∃ ys, kw = y :: ys := by
    rw [blockKeywords_eq]
    simp
  have htail : ∃ x w, k.word = x :: w ∧ ∀ c ∈ w, c.toLower ∉ ['i', 'd', 'w'] := by
    rw [ClauseKind.word_eq]
    cases k <;> exact ⟨_, _, rfl, by decide⟩
  have hgap' : ∀ c ∈ gap ++ ['{'], c.toLower ∉ ['i', 'd', 'w'] := by
    intro c hc
    rcases List.mem_append.mp hc with hc | hc
    · have hwhite := hgap c hc
      rw [toLower_of_isWhitespace hwhite]
      intro hmem
      have hall : ∀ c ∈ ['i', 'd', 'w'], isWhitespace c = false := by decide
      rw [hall c hmem] at hwhite
      cases hwhite
    · rw [List.mem_singleton.mp hc]
      decide
  obtain ⟨x, w, hw, htail⟩ := htail
  obtain ⟨y, hy, ys, rfl⟩ := hhead kw hkw
  have hrest : opensBlock (y :: ys) (some x) (w ++ (gap ++ ['{'])) = false := by
    refine opensBlock_eq_false_of_toLower_ne ?_ _
    intro c hc heq
    rw [← heq] at hy
    rcases List.mem_append.mp hc with hc | hc
    · exact htail c hc hy
    · exact hgap' c hc hy
  have hhere := opensHere_word hkw k hne (gap ++ ['{'])
  rw [hw, List.cons_append] at hhere
  rw [List.append_assoc, hw, List.cons_append, opensBlock, hhere, hrest]
  rfl

theorem ne_nil_of_mem_blockKeywords {kw : Str} (hkw : kw ∈ blockKeywords) : kw ≠ [] := by
  rintro rfl
  exact absurd hkw (by decide)

theorem Clause.text_append (c : Clause) (rest : Str) :
    c.text ++ rest = "solid" ++
      ':' :: (c.kind.word ++ (c.gap.1 ++ '{' :: (c.body ++ '}' :: (c.after ++ rest)))) := by
  simp [Clause.text]

/-- No block opens up to the colon of a clause. -/
theorem opensBlock_solid (kw : Str) {lead : Str} (hlead : '{' ∉ lead) (prev : Option Char) :
    opensBlock kw prev (lead ++ "solid" ++ [':']) = false := by
  refine opensBlock_eq_false_of_notMem kw ?_ prev
  simp only [List.mem_append, not_or]
  exact ⟨⟨hlead, by decide⟩, by decide⟩

theorem searchBlock_clause {kw : Str} (hkw : kw ∈ blockKeywords) (c : Clause)
    (hpairs : pairsUp 0 c.body = true) {lead : Str} (hlead : '{' ∉ lead) (prev : Option Char)
    (rest : Str) :
    (c.kind.word = kw → searchBlock kw 0 prev (lead ++ (c.text ++ rest)) = some c.block) ∧
    (c.kind.word ≠ kw → opensBlock kw (some '{') c.body = false →
      searchBlock kw 0 prev (lead ++ (c.text ++ rest)) =
        searchBlock kw 0 (some '}') (c.after ++ rest)) := by
  have hcolon : Fence kw ':' := fence_of_mem hkw (by simp)
  have hopen : Fence kw '{' := fence_of_mem hkw (by simp)
  have hclose : Fence kw '}' := fence_of_mem hkw (by simp)
  rw [c.text_append, ← List.append_assoc,
    searchBlock_append_fence hcolon (opensBlock_solid kw hlead prev) _ (Nat.zero_le _)]
  constructor
  · intro hword
    subst hword
    have hlower : ∀ kw ∈ blockKeywords, kw ≠ [] ∧ toAsciiLowercase kw = kw := by
      rw [blockKeywords_eq]
      decide
    obtain ⟨hne, hneedle⟩ := hlower _ hkw
    exact searchBlock_block hne hneedle (by decide) c.gap.2 hpairs _
  · intro hword hbody
    rw [← List.append_assoc, searchBlock_append_fence hopen
      (opensBlock_word hkw c.kind hword c.gap.2) _ (Nat.zero_le _)]
    refine searchBlock_append_fence hclose ?_ _ (Nat.zero_le _)
    rw [opensBlock_append_singleton hclose (ne_nil_of_mem_blockKeywords hkw) (by decide), hbody]

/-- The search for a keyword returns the block of the clause that it names. -/
theorem searchBlock_clauses {kw : Str} (hkw : kw ∈ blockKeywords) {cs : List Clause}
    (hpairs : ∀ c ∈ cs, pairsUp 0 c.body = true)
    (hquiet : ∀ c ∈ cs.takeWhile (·.kind.word ≠ kw), opensBlock kw (some '{') c.body = false)
    {lead : Str} (hlead : '{' ∉ lead) (prev : Option Char) :
    searchBlock kw 0 prev (lead ++ cs.flatMap Clause.text) =
      (cs.find? (·.kind.word = kw)).map Clause.block := by
  induction cs generalizing lead prev with
  | nil =>
      rw [List.flatMap_nil, List.append_nil]
      exact searchBlock_eq_none 0 (opensBlock_eq_false_of_notMem kw hlead prev)
  | cons c cs ih =>
      obtain ⟨hfound, hpassed⟩ := searchBlock_clause hkw c (hpairs c (by simp)) hlead prev
        (cs.flatMap Clause.text)
      rw [List.flatMap_cons]
      by_cases hword : c.kind.word = kw
      · rw [hfound hword, List.find?_cons_of_pos (by simpa using hword)]
        rfl
      · rw [List.takeWhile_cons_of_pos (by simpa using hword)] at hquiet
        rw [hpassed hword (hquiet c (by simp)), List.find?_cons_of_neg (by simpa using hword),
          ih (fun d hd => hpairs d (by simp [hd]))
            (fun d hd => hquiet d (List.mem_cons_of_mem c hd)) c.after_plain]

/-- A document without a clause for a keyword opens no block of that keyword. -/
theorem opensBlock_clauses {kw : Str} (hkw : kw ∈ blockKeywords) {cs : List Clause}
    (hword : ∀ c ∈ cs, c.kind.word ≠ kw)
    (hquiet : ∀ c ∈ cs, opensBlock kw (some '{') c.body = false) {lead : Str}
    (hlead : '{' ∉ lead) (prev : Option Char) :
    opensBlock kw prev (lead ++ cs.flatMap Clause.text) = false := by
  induction cs generalizing lead prev with
  | nil =>
      rw [List.flatMap_nil, List.append_nil]
      exact opensBlock_eq_false_of_notMem kw hlead prev
  | cons c cs ih =>
      have hcolon : Fence kw ':' := fence_of_mem hkw (by simp)
      have hopen : Fence kw '{' := fence_of_mem hkw (by simp)
      have hclose : Fence kw '}' := fence_of_mem hkw (by simp)
      rw [List.flatMap_cons, c.text_append, ← List.append_assoc, opensBlock_append_fence hcolon,
        opensBlock_solid kw hlead prev, ← List.append_assoc, opensBlock_append_fence hopen,
        opensBlock_word hkw c.kind (hword c (by simp)) c.gap.2, opensBlock_append_fence hclose,
        opensBlock_append_singleton hclose (ne_nil_of_mem_blockKeywords hkw) (by decide),
        hquiet c (by simp),
        ih (fun d hd => hword d (by simp [hd])) (fun d hd => hquiet d (by simp [hd]))
          c.after_plain]
      rfl

theorem word_injective {k k' : ClauseKind} (h : k.word = k'.word) : k = k' := by
  rw [ClauseKind.word_eq, ClauseKind.word_eq] at h
  cases k <;> cases k' <;> first | rfl | exact absurd h (by decide)

theorem PatchDocument.searchBlock_text {d : PatchDocument} (h : d.Delimited) {kw : Str}
    (hkw : kw ∈ blockKeywords) :
    searchBlock kw 0 none d.text = (d.clauses.find? (·.kind.word = kw)).map Clause.block :=
  searchBlock_clauses hkw h.pairsUp (h.quiet kw hkw) d.preamble_plain none

/-- The two spellings of a clause that come after its word find nothing else. -/
theorem PatchDocument.searchBlock_text_solid {d : PatchDocument} (h : d.Delimited)
    {k : ClauseKind} (hnone : d.clause? k = none) :
    searchBlock ("solid" ++ ':' :: k.word) 0 none d.text = none := by
  have hk := k.word_mem
  have hword : ∀ c ∈ d.clauses, c.kind.word ≠ k.word := by
    intro c hc heq
    have hkind := List.find?_eq_none.mp hnone c hc
    exact hkind (by simpa using word_injective heq)
  have hquiet : ∀ c ∈ d.clauses, opensBlock k.word (some '{') c.body = false := by
    intro c hc
    refine h.quiet _ hk c ?_
    rw [List.takeWhile_eq_self_iff.mpr]
    · exact hc
    · intro c hc
      simpa using hword c hc
  exact searchBlock_eq_none 0 (opensBlock_of_suffix "solid"
    (opensBlock_clauses hk hword hquiet d.preamble_plain none))

theorem PatchDocument.find?_word (d : PatchDocument) (k : ClauseKind) :
    d.clauses.find? (·.kind.word = k.word) = d.clause? k := by
  rw [PatchDocument.clause?]
  congr 1
  funext c
  exact decide_eq_decide.mpr ⟨word_injective, fun h => h ▸ rfl⟩

/-- The keywords are in lower case, and no short form is the word of a clause. -/
theorem toAsciiLowercase_keywords :
    (∀ kw ∈ blockKeywords, toAsciiLowercase kw = kw) ∧
      ∀ k : ClauseKind, toAsciiLowercase ("solid" ++ ':' :: k.word) = "solid" ++ ':' :: k.word := by
  constructor
  · rw [blockKeywords_eq]
    decide
  · intro k
    rw [ClauseKind.word_eq]
    cases k <;> decide

/-- What is extracted for a clause under its own keywords, after a shorter one
that names no clause, is its block. -/
theorem PatchDocument.extractBlock_text {d : PatchDocument} (h : d.Delimited) (k : ClauseKind)
    {shorter : List Str}
    (hshorter : ∀ kw ∈ shorter, kw ∈ blockKeywords ∧ ∀ k' : ClauseKind, k'.word ≠ kw) :
    extractBlock d.text (shorter ++ [k.word, "solid" ++ ':' :: k.word]) =
      (d.clause? k).map Clause.block := by
  have hk := k.word_mem
  have hnone : shorter.findSome? (fun kw => searchBlock (toAsciiLowercase kw) 0 none d.text) =
      none := by
    rw [List.findSome?_eq_none_iff]
    intro kw hkw
    obtain ⟨hmem, hne⟩ := hshorter kw hkw
    rw [toAsciiLowercase_keywords.1 kw hmem, d.searchBlock_text h hmem, Option.map_eq_none_iff,
      List.find?_eq_none]
    intro c _
    simpa using hne c.kind
  rw [extractBlock, List.findSome?_append, hnone, Option.none_or, List.findSome?_cons,
    toAsciiLowercase_keywords.1 _ hk, d.searchBlock_text h hk, d.find?_word k]
  cases hclause : d.clause? k with
  | some c => rfl
  | none =>
      rw [Option.map_none, List.findSome?_cons, toAsciiLowercase_keywords.2 k,
        d.searchBlock_text_solid h hclause]
      rfl

/-- The short forms of the keywords, which name no clause. -/
theorem shortKeyword {kw : Str}
    (h : kw ∈ [['i', 'n', 's', 'e', 'r', 't'], ['d', 'e', 'l', 'e', 't', 'e']]) :
    kw ∈ blockKeywords ∧ ∀ k : ClauseKind, k.word ≠ kw := by
  rw [blockKeywords_eq]
  simp only [ClauseKind.word_eq]
  simp only [List.mem_cons, List.not_mem_nil, or_false] at h
  rcases h with rfl | rfl
  · exact ⟨by decide, fun k => by cases k <;> decide⟩
  · exact ⟨by decide, fun k => by cases k <;> decide⟩

theorem PatchDocument.insertBlock_text {d : PatchDocument} (h : d.Delimited) :
    insertBlock d.text = ((d.clause? .inserts).map Clause.block).getD [] := by
  have hshorter : ∀ kw ∈ [['i', 'n', 's', 'e', 'r', 't']],
      kw ∈ blockKeywords ∧ ∀ k : ClauseKind, k.word ≠ kw :=
    fun kw hkw =>
      shortKeyword (List.mem_of_mem_head? (by simpa using (List.mem_singleton.mp hkw).symm))
  exact congrArg (Option.getD · []) (d.extractBlock_text h .inserts hshorter)

theorem PatchDocument.deleteBlock_text {d : PatchDocument} (h : d.Delimited) :
    deleteBlock d.text = ((d.clause? .deletes).map Clause.block).getD [] := by
  have hshorter : ∀ kw ∈ [['d', 'e', 'l', 'e', 't', 'e']],
      kw ∈ blockKeywords ∧ ∀ k : ClauseKind, k.word ≠ kw :=
    fun kw hkw => shortKeyword (List.mem_cons_of_mem _ hkw)
  exact congrArg (Option.getD · []) (d.extractBlock_text h .deletes hshorter)

theorem PatchDocument.whereBlock_text {d : PatchDocument} (h : d.Delimited) :
    whereBlock d.text = (d.clause? .wheres).map Clause.block := by
  have hshorter : ∀ kw ∈ ([] : List Str), kw ∈ blockKeywords ∧ ∀ k : ClauseKind, k.word ≠ kw :=
    fun kw hkw => absurd hkw List.not_mem_nil
  exact d.extractBlock_text h .wheres hshorter

end Ldp

end SolidPod
