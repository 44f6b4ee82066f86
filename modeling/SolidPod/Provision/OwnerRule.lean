import SolidPod.Provision.OwnerToken
import SolidPod.Wac.Evaluator
import SolidPod.Wac.FrontParts

/-!
# The rule that names the owner

A rule that names the owner is read from the first statement of the text, and that holds
the address of the pod whole. What else the rule says is then found at known places.
-/

namespace SolidPod

namespace Provision

open Foundation Str Wac

def subjectText : Str := "\n<#rule-0>"

/-- The text between the subject and the WebID. -/
def agentIntro : Str := " a acl:Authorization ;\n    acl:agent "

theorem exists_subject : ∃ v : Str, subjectText = ['\n'] ++ ('<' :: v ++ ['>']) ∧ '>' ∉ v :=
  ⟨"#rule-0", by decide⟩

theorem ownerIntro_eq : ownerIntro = subjectText ++ agentIntro := by
  decide

/-- The statement that a rule of the owner is read from. -/
structure OwnerStatement (http : Bool) (x : Str) (n : ℕ) (auth : AclAuthorization)
    (stmt : Str) : Prop where
  parsed : parseTurtleAuthorization headerPrefixes stmt = some auth
  passes : statementSplitter.Passes (0, false) stmt
  first : ∃ b, indexText http n x = stmt ++ b ∧
    (b = [] ∨ ∃ c b', b = c :: b' ∧
      statementSplitter.cuts (statementSplitter.run (0, false) stmt) c = true)
  intro : ownerIntro ++ (opening http ++ x) <+: stmt
  quotable : Quotable http x
  pair : predicateSplitter.Passes (0, false) x

/-- What a term holds at least of the pair it stands in. -/
theorem length_le_of_tokenAt {t a tok : Str} (h : TokenAt t a tok) :
    a.length + tok.length ≤ t.length := by
  cases h with
  | @iri b htext _ =>
      rw [htext]
      simp only [List.length_append, List.length_cons]
      omega
  | @bare b htext _ _ _ =>
      rw [htext]
      simp only [List.length_append]
      omega

/-- Where the pair that names the owner stands, the address of the pod goes on in it. -/
theorem owner_of_pair {x : Str} (hx : IsPodAddress x) {http : Bool} {n : ℕ}
    {st : Prefixes × Str}
    (hst : st = readPrefixes (stripTurtleComments (ended headerLines ++ indexText http n x)))
    {front pair back : Str} (hplace : st.2 = front ++ pair ++ back) {a tok : Str}
    (htok : TokenAt pair a tok) (hexpand : x ++ ownerTail n = expandCurieOrIri st.1 tok) :
    st = (headerPrefixes, indexText http n x) ∧ Quotable http x ∧ front ++ a = ownerIntro ∧
      a ++ (opening http ++ x) <+: pair := by
  have hat : TokenAt st.2 (front ++ a) tok := by
    rw [hplace]
    exact htok.extend front back
  obtain ⟨hread, hintro, rfl, hquotable⟩ := owner_of_tokenAt hx hst hat hexpand.symm
  refine ⟨hread, hquotable, hintro, ?_⟩
  rw [hread] at hplace
  have hlong : (opening http ++ x).length ≤ (x ++ ownerTail n).length := by
    cases http <;> simp [opening, ownerTail]
  refine (List.prefix_append_right_inj front).mp ?_
  have hown : front ++ (a ++ (opening http ++ x)) <+: indexText http n x := by
    refine ⟨ownerRest http n ++ '\n' :: accessLines (opening http) x (indexRest http), ?_⟩
    rw [indexText, indexLines_eq, ← hintro]
    simp
  refine List.prefix_of_prefix_length_le hown ⟨back, hplace.symm⟩ ?_
  have hle := length_le_of_tokenAt htok
  simp only [List.length_append] at hle hlong ⊢
  omega

theorem mem_pieces_of_splitPredicateList {body pair : Str} (h : pair ∈ splitPredicateList body) :
    pair ∈ predicateSplitter.pieces (0, false) [] body := by
  simp only [splitPredicateList, splitNonblankTail] at h
  split at h
  · exact List.dropLast_subset _ h
  · exact h

theorem exists_ownerStatement {x : Str} (hx : IsPodAddress x) {http : Bool} {n : ℕ}
    {st : Prefixes × Str}
    (hst : st = readPrefixes (stripTurtleComments (ended headerLines ++ indexText http n x)))
    {stmt : Str} (hstmt : stmt ∈ statementSplitter.pieces (0, false) [] st.2)
    {auth : AclAuthorization} (hparse : parseTurtleAuthorization st.1 stmt = some auth)
    (howner : x ++ ownerTail n ∈ getIds auth.agent) :
    st = (headerPrefixes, indexText http n x) ∧ OwnerStatement http x n auth stmt := by
  obtain ⟨subject, body, hpop, hstates⟩ := states_of_parseTurtleAuthorization hparse
  obtain ⟨pair, hpair, hasserts⟩ :=
    hstates ("agent", auth.agent) (by simp [fields]) _ howner
  obtain ⟨a, tok, htok, hexpand⟩ := hasserts.exists_tokenAt
  obtain ⟨sa, sb, hbody, hpasses, hbefore, hafter⟩ := statementSplitter.mem_pieces hstmt
  obtain ⟨pa, pb, hpairs, hpairPasses, -, -⟩ :=
    predicateSplitter.mem_pieces (mem_pieces_of_splitPredicateList hpair)
  obtain ⟨w, w', htrim, -, -⟩ := exists_trim_eq stmt
  obtain ⟨front, hfront⟩ := suffix_of_turtlePopTerm hpop
  have hplace : st.2 = (sa ++ w ++ front ++ pa) ++ pair ++ (pb ++ w' ++ sb) := by
    rw [hbody, htrim, ← hfront, hpairs]
    simp
  obtain ⟨hread, hquotable, hintro, haddress⟩ := owner_of_pair hx hst hplace htok hexpand
  refine ⟨hread, ?_⟩
  -- no statement ends before the WebID
  have hsa : sa = [] := by
    rcases hbefore with hnil | ⟨sa', c, hsa, hcut⟩
    · exact hnil
    · have hdot : '.' ∈ ownerIntro := by
        rw [← hintro, hsa, eq_dot_of_cuts hcut]
        simp
      exact absurd hdot (by decide)
  subst hsa
  rw [List.nil_append] at hbody hintro hafter
  obtain ⟨s, hs⟩ := haddress
  have hstart : stmt = ownerIntro ++ (opening http ++ x) ++ (s ++ pb ++ w') := by
    rw [← hintro, htrim, ← hfront, hpairs, ← hs]
    simp
  -- the subject is the one that was written
  obtain ⟨subject₀, hsubject, hclose⟩ := exists_subject
  obtain ⟨v, hv, -⟩ := exists_body (w := ['\n']) (v := subject₀) (by decide) hclose
    (t := agentIntro ++ (opening http ++ x) ++ (s ++ pb ++ w'))
    (by rw [hstart, ownerIntro_eq, hsubject]; simp) hpop
  have hplace' : st.2 = (subjectText ++ pa) ++ pair ++ (pb ++ v ++ sb) := by
    have hrest : stmt = subjectText ++ (body ++ v) := by
      rw [← hv, hstart, ownerIntro_eq]
      simp
    rw [hbody, hrest, hpairs]
    simp
  obtain ⟨-, -, hintro', -⟩ := owner_of_pair hx hst hplace' htok hexpand
  have hpa : pa ++ a = agentIntro := by
    rw [ownerIntro_eq, List.append_assoc] at hintro'
    exact List.append_cancel_left hintro'
  have hprefixes : st.1 = headerPrefixes := by rw [hread]
  rw [hprefixes] at hparse
  refine ⟨hparse, hpasses, ⟨sb, ?_, hafter⟩, ⟨_, hstart.symm⟩, hquotable, ?_⟩
  · rw [← hbody, hread]
  · have hrun : predicateSplitter.run (0, false) (agentIntro ++ opening http) = (0, false) := by
      cases http <;> decide
    rw [← hs, predicateSplitter.passes_append, predicateSplitter.passes_append,
      predicateSplitter.passes_append, ← predicateSplitter.run_append, hpa,
      ← predicateSplitter.run_append, hrun] at hpairPasses
    exact hpairPasses.1.2.2

/-! ## The pairs of the text -/

/-- A pair as the text has it, behind the separator. -/
def pairPart (word rest : Str) : Str := "\n    " ++ (word ++ ' ' :: rest)

def firstPart : Str := " a acl:Authorization "

def agentPart (http : Bool) (x : Str) (n : ℕ) : Str :=
  pairPart "acl:agent" (opening http ++ (x ++ (ownerTail n ++ (closing http ++ " "))))

def targetPart (http : Bool) (x : Str) : Str :=
  pairPart "acl:accessTo" (opening http ++ (x ++ (publicTypeIndexPath ++ (closing http ++ " "))))

/-- The modes of the owner, and the subject of the rule behind. -/
def modePart : Str :=
  pairPart "acl:mode" "acl:Read, acl:Write, acl:Control .\n\n<#rule-1> a acl:Authorization "

def classPart : Str := pairPart "acl:agentClass" "foaf:Agent "

def lastPart : Str := pairPart "acl:mode" "acl:Read .\n\n"

def laterParts (http : Bool) (x : Str) (n : ℕ) : List Str :=
  [agentPart http x n, targetPart http x, modePart, classPart, targetPart http x, lastPart]

set_option maxRecDepth 2048 in
theorem indexText_eq_parts (http : Bool) (n : ℕ) (x : Str) :
    indexText http n x =
      subjectText ++ (firstPart ++ (laterParts http x n).flatMap (';' :: ·)) := by
  have howner : ownerIntro = subjectText ++
      (firstPart ++ ';' :: ("\n    " ++ ("acl:agent" ++ [' ']))) := by
    decide
  have haccess : '\n' :: accessIntro = "\n    " ++ ("acl:accessTo" ++ [' ']) := by decide
  have hpublic : '\n' :: publicIntro =
      modePart ++ ';' :: (classPart ++ ';' :: ("\n    " ++ ("acl:accessTo" ++ [' ']))) := by
    decide
  have hmodes : '\n' :: publicModes = lastPart := by decide
  have hsemi : (" ;" : Str) = " " ++ [';'] := by decide
  have hindex : indexText http n x = ownerIntro ++ (opening http ++ (x ++ (ownerTail n ++
      (closing http ++ " ;")) ++ ('\n' :: accessIntro) ++ (opening http ++ (x ++
      (publicTypeIndexPath ++ (closing http ++ " ;")) ++ ('\n' :: publicIntro) ++ (opening http ++
      (x ++ (publicTypeIndexPath ++ (closing http ++ " ;")) ++ ('\n' :: publicModes))))))) := by
    rw [indexText, indexLines, ownerRest, indexRest]
    simp
  rw [hindex, howner, haccess, hpublic, hmodes, hsemi, laterParts, agentPart, targetPart, pairPart,
    pairPart]
  generalize ("acl:agent" : Str) = agent, ("acl:accessTo" : Str) = target,
    ("\n    " : Str) = w, (" " : Str) = blank
  simp

theorem isOrdinary_tails (http : Bool) (n : ℕ) :
    IsOrdinary (ownerTail n ++ (closing http ++ " ")) ∧
      IsOrdinary (publicTypeIndexPath ++ (closing http ++ " ")) ∧
      IsOrdinary ("\n    " ++ ("acl:agent" ++ ' ' :: opening http)) ∧
      IsOrdinary ("\n    " ++ ("acl:accessTo" ++ ' ' :: opening http)) := by
  refine ⟨IsOrdinary.append ?_ (by cases http <;> decide), ?_, ?_, ?_⟩
  · rw [ownerTail_eq]
    refine IsOrdinary.append ?_ (by decide)
    intro c hc
    have hplain := isPlain_documentTail n c hc
    refine ⟨?_, ?_, ?_, ?_⟩ <;> rintro rfl <;> exact absurd hplain (by decide)
  all_goals cases http <;> decide

/-- In the parts of the text nothing but the address of the pod is looked at. -/
theorem part_cases (http : Bool) (x : Str) (n : ℕ) :
    ∀ u ∈ firstPart :: laterParts http x n,
      IsOrdinary u ∨ ∃ p q, IsOrdinary p ∧ IsOrdinary q ∧ u = p ++ (x ++ q) := by
  obtain ⟨howner, hindex, hagent, htarget⟩ := isOrdinary_tails http n
  intro u hu
  simp only [laterParts, List.mem_cons, List.not_mem_nil, or_false] at hu
  rcases hu with rfl | rfl | rfl | rfl | rfl | rfl | rfl
  · exact Or.inl (by decide)
  · exact Or.inr ⟨_, _, hagent, howner, by simp [agentPart, pairPart]⟩
  · exact Or.inr ⟨_, _, htarget, hindex, by simp [targetPart, pairPart]⟩
  · exact Or.inl (by decide)
  · exact Or.inl (by decide)
  · exact Or.inr ⟨_, _, htarget, hindex, by simp [targetPart, pairPart]⟩
  · exact Or.inl (by decide)

/-- No pair is cut inside, unless the address of the pod leaves a string open and is
written as an IRI. -/
theorem OwnerStatement.passesParts {http : Bool} {x : Str} {n : ℕ} {auth : AclAuthorization}
    {stmt : Str} (h : OwnerStatement http x n auth stmt)
    (hquotes : http = false ∨ inString false x = false) :
    predicateSplitter.PassesParts ';' (0, false) firstPart (laterParts http x n) := by
  rcases hquotes with rfl | hquotes
  · refine Splitter.PassesParts.of_invariant (P := fun _ => True) trivial ?_
    intro u hu s _
    refine ⟨?_, trivial⟩
    have hsemi : ∀ t : Str, IsOrdinary t → ';' ∉ t := fun t ht hc => (ht _ hc).2.2.2 rfl
    have hx : ';' ∉ x := fun hc => absurd ((h.quotable.word rfl).1 _ hc) (by decide)
    have hmem : ';' ∉ u := by
      rcases part_cases false x n u hu with hu | ⟨p, q, hp, hq, rfl⟩
      · exact hsemi u hu
      · simp [hsemi p hp, hsemi q hq, hx]
    exact Splitter.passes_of_notMem (fun s d hd => (predicateSplitter_cuts_iff.mp hd).1) hmem s
  · refine Splitter.PassesParts.of_invariant (P := fun s => s.2 = false) rfl ?_
    rintro u hu ⟨d, q⟩ rfl
    have hsemi : ∀ s : Nat × Bool, s.2 = false → (predicateSplitter.step s ';').2 = false := by
      rintro ⟨d, q⟩ rfl
      rfl
    rcases part_cases http x n u hu with hu | ⟨p, q, hp, hq, rfl⟩
    · obtain ⟨hpass, hrun⟩ := hu.neutral (d, false)
      exact ⟨hpass, hsemi _ (by rw [hrun])⟩
    · have hx := (monotone_predicateSplitter.passes (Nat.zero_le d) h.pair).1
      obtain ⟨hpass, hrun⟩ := hp.neutral (d, false)
      refine ⟨?_, hsemi _ ?_⟩
      · rw [predicateSplitter.passes_append, predicateSplitter.passes_append, hrun]
        exact ⟨hpass, hx, (hq.neutral _).1⟩
      · rw [predicateSplitter.run_append, predicateSplitter.run_append, hrun, (hq.neutral _).2,
          run_predicateSplitter_snd]
        exact hquotes

/-! ## The targets of the rule -/

/-- What holds the directory of the pods when it is expanded. -/
theorem pods_infix_expand {u : Str} (htrim : trim u = u) (hpods : ("/pods" : Str) <:+: u) :
    ("/pods" : Str) <:+: expandCurieOrIri headerPrefixes u := by
  rw [expandCurieOrIri, htrim]
  split
  · rename_i ha
    rw [eq_of_beq ha] at hpods
    exact absurd hpods (by decide)
  · split
    · rename_i p rest hsplit
      obtain ⟨rfl, -⟩ := eq_append_of_splitOnce hsplit
      split
      · exact hpods
      · split
        · rename_i base hlookup
          have hnames : ∀ binding ∈ headerPrefixes, ¬ ("/pods" : Str) <:+: binding.1 := by decide
          have hp := hnames _ (mem_of_lookup hlookup)
          rw [infix_append_cons_iff (by decide) (by decide)] at hpods
          exact (hpods.resolve_left hp).trans (List.suffix_append base rest).isInfix
        · exact hpods
    · exact hpods

/-- Where a pair of the first statement lies. Behind it the statement may go on with a
separator, and end with white space before the dot. -/
structure PairIn (http : Bool) (x : Str) (n : ℕ) (front pair more w back : Str) : Prop where
  text : firstPart ++ (laterParts http x n).flatMap (';' :: ·) =
    front ++ (pair ++ (more ++ (w ++ back)))
  blank : ∀ c ∈ w, isWhitespace c = true
  before : front = [] ∨ ∃ front', front = front' ++ [';'] ∧
    predicateSplitter.run (0, false) front' = (0, false)
  after : more = [] ∨ ∃ more', more = ';' :: more'
  last : back = [] ∨ ∃ c back', back = c :: back' ∧ statementSplitter.cuts
    (statementSplitter.run (0, false) (subjectText ++ (front ++ (pair ++ (more ++ w))))) c = true

theorem OwnerStatement.exists_pairIn {http : Bool} {x : Str} {n : ℕ} {auth : AclAuthorization}
    {stmt : Str} (h : OwnerStatement http x n auth stmt) {name : Str} {ids : Option IdOrIds}
    (hfield : (name, ids) ∈ fields auth) {o : Str} (ho : o ∈ getIds ids) :
    ∃ front pair more w back, PairIn http x n front pair more w back ∧
      Asserts headerPrefixes pair name o := by
  obtain ⟨subject, body, hpop, hstates⟩ := states_of_parseTurtleAuthorization h.parsed
  obtain ⟨pair, hpair, hasserts⟩ := hstates (name, ids) hfield o ho
  obtain ⟨pa, pb, hpairs, -, hbefore, hafter⟩ :=
    predicateSplitter.mem_pieces (mem_pieces_of_splitPredicateList hpair)
  obtain ⟨b, htext, hlast⟩ := h.first
  obtain ⟨s, hs⟩ := h.intro
  obtain ⟨subject₀, hsubject, hclose⟩ := exists_subject
  obtain ⟨w, hw, hblank⟩ := exists_body (w := ['\n']) (v := subject₀) (by decide) hclose
    (t := agentIntro ++ (opening http ++ x) ++ s)
    (by rw [← hs, ownerIntro_eq, hsubject]; simp) hpop
  have hstmt : stmt = subjectText ++ (body ++ w) := by
    rw [← hs, ← hw, ownerIntro_eq]
    simp
  refine ⟨pa, pair, pb, w, b, ⟨?_, hblank, ?_, ?_, ?_⟩, hasserts⟩
  · rw [indexText_eq_parts, hstmt, List.append_assoc, List.append_right_inj] at htext
    rw [htext, hpairs]
    simp
  · refine hbefore.imp_right ?_
    rintro ⟨pa', c, rfl, hcut⟩
    obtain ⟨rfl, hstate⟩ := predicateSplitter_cuts_iff.mp hcut
    exact ⟨pa', rfl, hstate⟩
  · refine hafter.imp_right ?_
    rintro ⟨c, pb', rfl, hcut⟩
    obtain ⟨rfl, -⟩ := predicateSplitter_cuts_iff.mp hcut
    exact ⟨pb', rfl⟩
  · refine hlast.imp_right ?_
    rintro ⟨c, b', rfl, hcut⟩
    refine ⟨c, b', rfl, ?_⟩
    rw [hstmt, hpairs] at hcut
    simpa using hcut

/-- A pair begins where a part begins. -/
theorem PairIn.exists_part {http : Bool} {x : Str} {n : ℕ} {front pair more w back : Str}
    (h : PairIn http x n front pair more w back)
    (hparts : predicateSplitter.PassesParts ';' (0, false) firstPart (laterParts http x n)) :
    front = [] ∨ ∃ u us, u :: us <:+ laterParts http x n ∧
      pair ++ (more ++ (w ++ back)) = u ++ us.flatMap (';' :: ·) := by
  rcases h.before with hnil | ⟨front', hfront, hstate⟩
  · exact Or.inl hnil
  · right
    have htext := h.text
    rw [hfront, List.append_assoc, List.singleton_append] at htext
    obtain ⟨parts, u, us, hlater, hright⟩ :=
      hparts.of_cuts htext (predicateSplitter_cuts_iff.mpr ⟨rfl, hstate⟩)
    exact ⟨u, us, ⟨parts, hlater.symm⟩, hright⟩

/-- A pair that states a target is the one that the text has for the index. -/
theorem PairIn.target {http : Bool} {x : Str} {n : ℕ} {front pair more w back : Str}
    (h : PairIn http x n front pair more w back)
    (hparts : predicateSplitter.PassesParts ';' (0, false) firstPart (laterParts http x n))
    {name o : Str} (hname : name = "accessTo" ∨ name = "default")
    (ho : Asserts headerPrefixes pair name o) :
    ∃ r, pair ++ (more ++ (w ++ back)) = targetPart http x ++ ';' :: r := by
  have hno : ∀ word : Str, word ∈ (["a", "acl:agent", "acl:mode", "acl:agentClass"] : List Str) →
      IsWord word ∧ isAclTerm name (expandCurieOrIri headerPrefixes word) = false := by
    rcases hname with rfl | rfl <;> decide
  have hpart : ∀ word rest t : Str,
      word ∈ (["a", "acl:agent", "acl:mode", "acl:agentClass"] : List Str) →
      pair ++ (more ++ (w ++ back)) = pairPart word rest ++ t → False := by
    intro word rest t hword heq
    have hasserts := ho.of_isPrefix (w := "\n    ") (r := rest ++ t) (by decide) (hno word hword).1
      ⟨more ++ (w ++ back), by rw [heq, pairPart]; simp⟩
    rw [(hno word hword).2] at hasserts
    cases hasserts.1
  rcases h.exists_part hparts with rfl | ⟨u, us, hsuffix, hpair⟩
  · have htext := h.text
    have hfirst : firstPart = " " ++ ("a" ++ ' ' :: "acl:Authorization ") := by decide
    have hasserts := ho.of_isPrefix (w := " ")
      (r := "acl:Authorization " ++ (laterParts http x n).flatMap (';' :: ·)) (by decide)
      (hno "a" (by decide)).1 ⟨more ++ (w ++ back), by
        rw [List.nil_append, hfirst] at htext
        rw [← htext]
        simp⟩
    rw [(hno "a" (by decide)).2] at hasserts
    cases hasserts.1
  · rw [← List.mem_tails] at hsuffix
    simp only [laterParts, List.tails_cons, List.tails, List.mem_cons, List.cons.injEq,
      List.not_mem_nil, or_false, reduceCtorEq] at hsuffix
    rcases hsuffix with ⟨rfl, -⟩ | ⟨rfl, rfl⟩ | ⟨rfl, -⟩ | ⟨rfl, -⟩ | ⟨rfl, rfl⟩ | ⟨rfl, -⟩
    · exact absurd hpair (hpart "acl:agent" _ _ (by decide))
    · exact ⟨_, hpair⟩
    · exact absurd hpair (hpart "acl:mode" _ _ (by decide))
    · exact absurd hpair (hpart "acl:agentClass" _ _ (by decide))
    · exact ⟨_, hpair⟩
    · exact absurd hpair (hpart "acl:mode" _ _ (by decide))

/-- No string is open where a pair begins. -/
theorem PairIn.exists_state {http : Bool} {x : Str} {n : ℕ} {front pair more w back : Str}
    (h : PairIn http x n front pair more w back) :
    ∃ depth, statementSplitter.run (0, false) (subjectText ++ front) = (depth, false) := by
  have hquote : (predicateSplitter.run (0, false) front).2 = false := by
    rcases h.before with rfl | ⟨front', rfl, hfront⟩
    · rfl
    · rw [predicateSplitter.run_append, hfront]
      rfl
  rw [run_predicateSplitter_snd] at hquote
  refine ⟨_, Prod.ext rfl ?_⟩
  rw [run_statementSplitter_snd, inString_append]
  exact hquote

/-- An address that is a word ends no statement where no string is open. -/
theorem OwnerStatement.passes_address {x : Str} {n : ℕ} {auth : AclAuthorization} {stmt : Str}
    (h : OwnerStatement false x n auth stmt) (depth : ℕ) :
    statementSplitter.Passes (depth, false) x := by
  have hpass := h.passes
  obtain ⟨t, ht⟩ := h.intro
  have hrun : statementSplitter.run (0, false) ownerIntro = (0, false) := by decide
  rw [← ht, statementSplitter.passes_append, statementSplitter.passes_append, hrun] at hpass
  exact (monotone_statementSplitter.passes (Nat.zero_le depth) hpass.1.2).1

/-- The address of the pod that a word names is not cut short: where a pair begins no string
is open, and the statement has been past the address before. -/
theorem PairIn.address {x : Str} {n : ℕ} {auth : AclAuthorization} {stmt : Str}
    (hstmt : OwnerStatement false x n auth stmt) {front pair more w back : Str}
    (h : PairIn false x n front pair more w back) {r : Str}
    (htarget : pair ++ (more ++ (w ++ back)) = targetPart false x ++ ';' :: r)
    {name o : Str} (ho : Asserts headerPrefixes pair name o) :
    ("\n    acl:accessTo " : Str) ++ x <+: pair := by
  have hliteral : ("\n    acl:accessTo " : Str) = "\n    " ++ ("acl:accessTo" ++ ' ' :: []) := by
    decide
  have hword : IsWord "acl:accessTo" := by decide
  have htext : pair ++ (more ++ (w ++ back)) = "\n    acl:accessTo " ++ (x ++
      (publicTypeIndexPath ++ " " ++ ';' :: r)) := by
    rw [htarget, hliteral, targetPart, pairPart]
    simp [opening, closing]
  rcases isPrefix_append_iff.mp ⟨more ++ (w ++ back), htext⟩ with hshort | ⟨p, rfl, hp⟩
  · -- the object would be missing
    rw [hliteral] at hshort
    obtain ⟨-, rest, hrest, -, hobject⟩ := ho.of_isPrefix (by decide) hword hshort
    have hnil : trim rest = [] := trim_of_blank fun c hc => by
      obtain rfl := List.mem_singleton.mp (hrest.mem hc)
      decide
    rw [hnil] at hobject
    cases hobject
  · rcases isPrefix_append_iff.mp hp with ⟨s, rfl⟩ | ⟨p', rfl, -⟩
    · cases s with
      | nil => rw [List.append_nil]
      | cons c s =>
          exfalso
          have hc : endsToken c = false := (hstmt.quotable.word rfl).1 c (by simp)
          have hrest : more ++ (w ++ back) =
              c :: (s ++ (publicTypeIndexPath ++ " " ++ ';' :: r)) := by
            rw [List.append_assoc, List.append_right_inj, List.append_assoc] at htext
            exact List.append_cancel_left htext
          -- the pair ends where the statement ends
          have hmore : more = [] := by
            rcases h.after with hnil | ⟨more', rfl⟩
            · exact hnil
            · obtain ⟨rfl, -⟩ := List.cons.inj hrest
              exact absurd hc (by decide)
          have hw : w = [] := by
            rw [hmore, List.nil_append] at hrest
            cases w with
            | nil => rfl
            | cons d w =>
                obtain ⟨rfl, -⟩ := List.cons.inj hrest
                rw [endsToken_of_isWhitespace (h.blank d (by simp))] at hc
                cases hc
          rw [hmore, hw, List.nil_append, List.nil_append] at hrest
          obtain ⟨d, back', hback, hcut⟩ := h.last.resolve_left (by rw [hrest]; simp)
          rw [hrest] at hback
          obtain ⟨rfl, -⟩ := List.cons.inj hback
          obtain ⟨depth, hstate⟩ := h.exists_state
          have hx := hstmt.passes_address depth
          rw [← hstate] at hx
          have hno := ((statementSplitter.passes_append _ p (c :: s)).mp hx).2.1
          have hneutral := (neutral_statementSplitter (t := "\n    acl:accessTo ") (by decide)
            (statementSplitter.run (0, false) (subjectText ++ front))).2
          rw [hmore, hw, List.append_nil, List.append_nil, ← List.append_assoc,
            ← List.append_assoc, statementSplitter.run_append,
            statementSplitter.run_append _ (subjectText ++ front), hneutral, hno] at hcut
          cases hcut
    · exact ⟨p', by simp⟩

/-- What the rule of the owner is about is the index under the address of the pod, and the
address has the directory of the pods in it. -/
theorem OwnerStatement.pods_infix {http : Bool} {x : Str} (hx : IsPodAddress x)
    (hhttp : startsWith "http" x = http) {n : ℕ} {auth : AclAuthorization} {stmt : Str}
    (h : OwnerStatement http x n auth stmt) (hquotes : http = false ∨ inString false x = false)
    {name : Str} {ids : Option IdOrIds} (hfield : (name, ids) ∈ fields auth)
    (hname : name = "accessTo" ∨ name = "default") {o : Str} (ho : o ∈ getIds ids) :
    ("/pods" : Str) <:+: o := by
  obtain ⟨front, pair, more, w, back, hpair, hasserts⟩ := h.exists_pairIn hfield ho
  obtain ⟨r, htarget⟩ := hpair.target (h.passesParts hquotes) hname hasserts
  have hword : IsWord "acl:accessTo" := by decide
  obtain ⟨-, rest, hrest, htrim, hobject⟩ := hasserts.of_isPrefix (w := "\n    ")
    (r := opening http ++ (x ++ (publicTypeIndexPath ++ (closing http ++ " "))) ++ ';' :: r)
    (by decide) hword
    ⟨more ++ (w ++ back), by rw [htarget, targetPart, pairPart]; simp⟩
  have hinfix : ("/pods" : Str) <:+: x ++ publicTypeIndexPath :=
    hx.pods.trans (List.prefix_append x _).isInfix
  cases http with
  | true =>
      have hclose : '>' ∉ x ++ publicTypeIndexPath := by
        rw [List.mem_append, not_or]
        exact ⟨h.quotable.closed rfl, by decide⟩
      rw [object_of_iri (r := r) hclose (by simpa [opening, closing] using hrest) hobject]
      refine pods_infix_expand (trim_eq_self ?_ ?_) hinfix
      · intro c hc
        rw [startsWith, List.isPrefixOf_iff_prefix] at hhttp
        obtain ⟨t, rfl⟩ := hhttp
        obtain rfl := Option.some.inj hc
        decide
      · intro c hc
        obtain ⟨-, -, -, -, -, hlast⟩ := exists_intros
        rw [getLast?_append_of_eq hlast] at hc
        obtain rfl := Option.some.inj hc
        decide
  | false =>
      obtain ⟨hchars, hhead⟩ := h.quotable.word rfl
      have hne : x ≠ [] := by
        rintro rfl
        exact absurd hx.pods (by decide)
      have hindex : ∀ c ∈ publicTypeIndexPath, endsToken c = false := by decide
      have hwhole : IsWord (x ++ publicTypeIndexPath) := by
        refine ⟨List.append_ne_nil_of_left_ne_nil hne _,
          List.forall_mem_append.mpr ⟨hchars, hindex⟩, ?_⟩
        intro c hc
        cases x with
        | nil => exact absurd rfl hne
        | cons d x => exact hhead c hc
      have haddress : ' ' :: x <+: rest := by
        obtain ⟨s, hs⟩ := hpair.address h htarget hasserts
        have hsplit : pair = "\n    " ++ ("acl:accessTo" ++ (' ' :: (x ++ s))) := by
          have hliteral : ("\n    acl:accessTo " : Str) =
              "\n    " ++ ("acl:accessTo" ++ [' ']) := by
            decide
          rw [← hs, hliteral]
          simp
        rw [hsplit, trim_blank_append (by decide), trim_word_append hword.ne_nil hword.not_blank,
          List.append_right_inj] at htrim
        rw [← htrim]
        rcases List.eq_nil_or_concat' x with rfl | ⟨p, c, rfl⟩
        · exact absurd rfl hne
        · have hc := isWhitespace_of_not_endsToken (hchars c (by simp))
          have hend := trimEnd_append_cons hc (' ' :: p) s
          rw [List.cons_append] at hend
          rw [List.append_assoc p, List.singleton_append, hend]
          exact ⟨trimEnd s, by simp⟩
      obtain ⟨u, hxu, huv, rfl⟩ := object_of_word (r := r) hwhole
        (by simpa [opening, closing] using hrest) hne (List.prefix_append x _) haddress hobject
      refine pods_infix_expand (trim_eq_self ?_ ?_) (hx.pods.trans hxu.isInfix)
      · exact fun c hc => hwhole.not_blank c (huv.mem (List.mem_of_mem_head? hc))
      · exact fun c hc => hwhole.not_blank c (huv.mem (List.mem_of_mem_getLast? hc))

/-! ## An address that leaves a string open -/

/-- What stands between the first address and the second. -/
def targetLead : Str := "> ;\n    acl:accessTo <"

/-- What stands between the second address and the dot. -/
def ownerModes : Str := "> ;\n    acl:mode acl:Read, acl:Write, acl:Control "

def publicSubject : Str := "\n\n<#rule-1>"

/-- What stands behind the third address. -/
def publicEnd : Str := "> ;\n    acl:mode acl:Read .\n\n"

/-- The first statement, up to its dot. -/
def ownerText (x : Str) (n : ℕ) : Str :=
  ownerIntro ++ ('<' :: (x ++ (ownerTail n ++ (targetLead ++ (x ++
    (publicTypeIndexPath ++ ownerModes))))))

/-- The pair of the third address, when the address leaves a string open. -/
def openPart (x : Str) : Str :=
  pairPart "acl:accessTo" ('<' :: (x ++ (publicTypeIndexPath ++ publicEnd)))

def publicText (x : Str) : Str :=
  publicSubject ++ (firstPart ++ [classPart, openPart x].flatMap (';' :: ·))

set_option maxRecDepth 2048 in
theorem indexText_eq_statements (n : ℕ) (x : Str) :
    indexText true n x = ownerText x n ++ [publicText x].flatMap ('.' :: ·) := by
  have haccess : closing true ++ (" ;" ++ '\n' :: accessIntro) ++ opening true = targetLead := by
    decide
  have hpublic : closing true ++ (" ;" ++ '\n' :: publicIntro) = ownerModes ++ '.' ::
      (publicSubject ++ (firstPart ++ ';' :: (classPart ++ ';' :: ("\n    " ++
        ("acl:accessTo" ++ [' ']))))) := by
    decide
  have hmodes : closing true ++ (" ;" ++ '\n' :: publicModes) = publicEnd := by
    decide
  have hopen : opening true = ['<'] := rfl
  have hindex : indexText true n x = ownerIntro ++ (opening true ++ (x ++ (ownerTail n ++
      ((closing true ++ (" ;" ++ '\n' :: accessIntro) ++ opening true) ++ (x ++
      (publicTypeIndexPath ++ ((closing true ++ (" ;" ++ '\n' :: publicIntro)) ++ (opening true ++
      (x ++ (publicTypeIndexPath ++ (closing true ++ (" ;" ++ '\n' :: publicModes)))))))))))) := by
    rw [indexText, indexLines, ownerRest, indexRest]
    simp
  rw [hindex, haccess, hpublic, hmodes, hopen, ownerText, publicText, openPart, pairPart]
  simp

/-- An address that is open passes, and the string that it leaves open is closed by the
next time it stands there. -/
theorem passes_open {x : Str} (hclose : '>' ∉ x) (hquotes : inString false x = true) {depth : ℕ}
    (hdepth : 1 ≤ depth) (q : Bool) :
    statementSplitter.Passes (depth, q) x ∧ ∃ depth', 1 ≤ depth' ∧
      statementSplitter.run (depth, q) x = (depth', !q) := by
  obtain ⟨hpass, hrun⟩ := passes_statementSplitter_of_open hclose (s := (depth, q)) hdepth
  refine ⟨hpass, _, hrun, Prod.ext rfl ?_⟩
  rw [run_statementSplitter_snd]
  cases q with
  | false => exact hquotes
  | true =>
      have hflip := inString_not false x
      rw [hquotes] at hflip
      exact hflip

/-- The dot behind the modes of the owner is the first that a statement may end at. -/
theorem passes_ownerText {x : Str} (hclose : '>' ∉ x) (hquotes : inString false x = true) (n : ℕ) :
    statementSplitter.Passes (0, false) (ownerText x n) ∧
      (statementSplitter.run (0, false) (ownerText x n)).2 = false := by
  have hintro : statementSplitter.Passes (0, false) (ownerIntro ++ ['<']) ∧
      statementSplitter.run (0, false) (ownerIntro ++ ['<']) = (1, false) := by decide
  have hbetween : '"' ∉ ownerTail n ++ targetLead := by
    rw [ownerTail_eq, List.mem_append, List.mem_append]
    rintro ((hc | hc) | hc)
    · exact absurd (isPlain_documentTail n _ hc) (by decide)
    · exact absurd hc (by decide)
    · exact absurd hc (by decide)
  have hmodes : ∀ s, statementSplitter.Passes s ownerModes :=
    Splitter.passes_of_notMem (fun _ _ hd => eq_dot_of_cuts hd) (by decide)
  obtain ⟨hfirst, d₁, hd₁, hrun₁⟩ := passes_open hclose hquotes (le_refl 1) false
  obtain ⟨hstring, hrun₂⟩ := (neutral_of_inString hbetween d₁).1
  obtain ⟨hsecond, d₂, hd₂, hrun₃⟩ := passes_open hclose hquotes hd₁ true
  obtain ⟨hindex, -⟩ := passes_statementSplitter_of_open (t := publicTypeIndexPath) (by decide)
    (s := (d₂, !true)) hd₂
  have hsplit : ownerText x n = (ownerIntro ++ ['<']) ++ (x ++ ((ownerTail n ++ targetLead) ++
      (x ++ (publicTypeIndexPath ++ ownerModes)))) := by
    rw [ownerText]
    simp
  rw [hsplit]
  constructor
  · refine (statementSplitter.passes_append _ _ _).mpr ⟨hintro.1, ?_⟩
    rw [hintro.2]
    refine (statementSplitter.passes_append _ _ _).mpr ⟨hfirst, ?_⟩
    rw [hrun₁, Bool.not_false]
    refine (statementSplitter.passes_append _ _ _).mpr ⟨hstring, ?_⟩
    rw [hrun₂]
    refine (statementSplitter.passes_append _ _ _).mpr ⟨hsecond, ?_⟩
    rw [hrun₃]
    exact (statementSplitter.passes_append _ _ _).mpr ⟨hindex, hmodes _⟩
  · rw [statementSplitter.run_append, hintro.2, statementSplitter.run_append, hrun₁,
      statementSplitter.run_append, Bool.not_false, hrun₂, statementSplitter.run_append, hrun₃,
      run_statementSplitter_snd]
    change inString false (publicTypeIndexPath ++ ownerModes) = false
    decide

/-- Behind the third address the string stays open. -/
theorem passes_publicText {x : Str} (hclose : '>' ∉ x) (hquotes : inString false x = true)
    {s : Nat × Bool} (hs : s.2 = false) : statementSplitter.Passes s (publicText x) := by
  obtain ⟨depth, q⟩ := s
  obtain rfl : q = false := hs
  have hsplit : publicText x = (publicSubject ++ (firstPart ++ ';' :: (classPart ++
      ';' :: ("\n    " ++ ("acl:accessTo" ++ [' ', '<']))))) ++
      (x ++ (publicTypeIndexPath ++ publicEnd)) := by
    rw [publicText, openPart, pairPart]
    simp
  have hintro :
      statementSplitter.Passes (0, false) (publicSubject ++ (firstPart ++ ';' :: (classPart ++
      ';' :: ("\n    " ++ ("acl:accessTo" ++ [' ', '<']))))) ∧
      statementSplitter.run (0, false) (publicSubject ++ (firstPart ++ ';' :: (classPart ++
        ';' :: ("\n    " ++ ("acl:accessTo" ++ [' ', '<']))))) = (1, false) := by
    decide
  rw [hsplit]
  generalize publicSubject ++ (firstPart ++ ';' :: (classPart ++
    ';' :: ("\n    " ++ ("acl:accessTo" ++ [' ', '<'])))) = intro at hintro ⊢
  obtain ⟨hpass, hdepth, hquote⟩ := monotone_statementSplitter.passes (Nat.zero_le depth) hintro.1
  rw [hintro.2] at hdepth hquote
  have hstate : statementSplitter.run (depth, false) intro =
      ((statementSplitter.run (depth, false) intro).1, false) := Prod.ext rfl hquote.symm
  obtain ⟨hx, d, -, hrun⟩ := passes_open hclose hquotes hdepth false
  rw [statementSplitter.passes_append, hstate, statementSplitter.passes_append, hrun]
  exact ⟨hpass, hx, (neutral_of_inString (by decide) d).1.1⟩

/-- Nor is a pair cut there. -/
theorem passesParts_public {x : Str} (hpair : predicateSplitter.Passes (0, false) x)
    (hquotes : inString false x = true) :
    predicateSplitter.PassesParts ';' (0, false) firstPart [classPart, openPart x] := by
  have hneutral : ∀ t : Str, IsOrdinary t → ∀ s, predicateSplitter.Neutral s t :=
    fun t ht => ht.neutral
  have hstep : predicateSplitter.step (0, false) ';' = (0, false) := rfl
  obtain ⟨hfirst, hrun⟩ := hneutral firstPart (by decide) (0, false)
  obtain ⟨hclass, hrun'⟩ := hneutral classPart (by decide) (0, false)
  refine ⟨hfirst, ?_⟩
  rw [hrun, hstep]
  refine ⟨hclass, ?_⟩
  rw [hrun', hstep]
  have hsplit : openPart x = ("\n    " ++ ("acl:accessTo" ++ [' ', '<'])) ++
      (x ++ (publicTypeIndexPath ++ publicEnd)) := by
    rw [openPart, pairPart]
    simp
  obtain ⟨hlead, hlead'⟩ :=
    hneutral ("\n    " ++ ("acl:accessTo" ++ [' ', '<'])) (by decide) (0, false)
  have hopen : predicateSplitter.run (0, false) x =
      ((predicateSplitter.run (0, false) x).1, true) := by
    refine Prod.ext rfl ?_
    rw [run_predicateSplitter_snd]
    exact hquotes
  change predicateSplitter.Passes (0, false) (openPart x)
  rw [hsplit]
  refine (predicateSplitter.passes_append _ _ _).mpr ⟨hlead, ?_⟩
  rw [hlead']
  refine (predicateSplitter.passes_append _ _ _).mpr ⟨hpair, ?_⟩
  rw [hopen]
  exact (neutral_of_inString (by decide) _).2.1

/-- A rule that is read from the text behind the first dot states no mode. -/
theorem getIds_mode_of_publicText {x : Str} (hpair : predicateSplitter.Passes (0, false) x)
    (hquotes : inString false x = true) {stmt : Str} (hfront : stmt <+: publicText x)
    {auth : AclAuthorization} (hparse : parseTurtleAuthorization headerPrefixes stmt = some auth) :
    getIds auth.mode = [] := by
  obtain ⟨subject, body, hpop, hstates⟩ := states_of_parseTurtleAuthorization hparse
  have hne : trim stmt ≠ [] := by
    intro hnil
    rw [parseTurtleAuthorization, hnil] at hparse
    cases hparse
  have hsubject : ∃ v : Str, publicSubject = "\n\n" ++ ('<' :: v ++ ['>']) ∧ '>' ∉ v :=
    ⟨"#rule-1", by decide⟩
  obtain ⟨v, hv, hclose⟩ := hsubject
  have htrim : trim stmt <+: '<' :: v ++ '>' :: (firstPart ++
      [classPart, openPart x].flatMap (';' :: ·)) := by
    refine trim_isPrefix (w := "\n\n") (by decide) ?_ ?_
    · intro c hc
      obtain rfl := Option.some.inj hc
      decide
    · rw [publicText, hv] at hfront
      simpa using hfront
  obtain ⟨-, hbody, -⟩ := turtlePopTerm_iri_isPrefix hclose htrim hne hpop
  rw [List.eq_nil_iff_forall_not_mem]
  intro o ho
  obtain ⟨pair, hmem, hasserts⟩ := hstates ("mode", auth.mode) (by simp [fields]) o ho
  obtain ⟨pa, pb, hpairs, -, hbefore, -⟩ :=
    predicateSplitter.mem_pieces (mem_pieces_of_splitPredicateList hmem)
  obtain ⟨t, ht⟩ := hbody
  rw [hpairs] at ht
  have hno : ∀ word : Str, word ∈ (["a", "acl:agentClass", "acl:accessTo"] : List Str) →
      IsWord word ∧ isAclTerm "mode" (expandCurieOrIri headerPrefixes word) = false := by
    decide
  have hpart : ∀ w word r : Str, (∀ c ∈ w, isWhitespace c = true) →
      word ∈ (["a", "acl:agentClass", "acl:accessTo"] : List Str) →
      pair <+: w ++ (word ++ ' ' :: r) → False := by
    intro w word r hw hword hpre
    have hname := (hasserts.of_isPrefix hw (hno word hword).1 hpre).1
    rw [(hno word hword).2] at hname
    cases hname
  rcases hbefore with rfl | ⟨pa', c, rfl, hcut⟩
  · have hfirst : firstPart = " " ++ ("a" ++ ' ' :: "acl:Authorization ") := by decide
    rw [List.nil_append, List.append_assoc, hfirst, List.append_assoc, List.append_assoc,
      List.cons_append] at ht
    exact hpart " " "a" _ (by decide) (by decide) ⟨pb ++ t, ht⟩
  · obtain ⟨rfl, hstate⟩ := predicateSplitter_cuts_iff.mp hcut
    obtain ⟨parts, u, us, hparts, hright⟩ := (passesParts_public hpair hquotes).of_cuts
      (a := pa') (d := ';') (b := pair ++ (pb ++ t)) (by rw [← ht]; simp) hcut
    have hsuffix : u :: us <:+ [classPart, openPart x] := ⟨parts, hparts.symm⟩
    rw [← List.mem_tails] at hsuffix
    simp only [List.tails, List.mem_cons, List.cons.injEq, List.not_mem_nil,
      or_false, reduceCtorEq] at hsuffix
    rcases hsuffix with ⟨rfl, rfl⟩ | ⟨rfl, rfl⟩
    · rw [classPart, pairPart, List.append_assoc, List.append_assoc, List.cons_append] at hright
      exact hpart "\n    " "acl:agentClass" _ (by decide) (by decide) ⟨pb ++ t, hright⟩
    · rw [openPart, pairPart, List.append_assoc, List.append_assoc, List.cons_append] at hright
      exact hpart "\n    " "acl:accessTo" _ (by decide) (by decide) ⟨pb ++ t, hright⟩

/-- With a string open no rule but the rule of the owner states a mode. -/
theorem OwnerStatement.eq_or_getIds_mode {x : Str} {n : ℕ} {auth : AclAuthorization} {stmt : Str}
    (h : OwnerStatement true x n auth stmt) (hquotes : inString false x = true) {stmt' : Str}
    (hstmt' : stmt' ∈ statementSplitter.pieces (0, false) [] (indexText true n x))
    {auth' : AclAuthorization}
    (hparse : parseTurtleAuthorization headerPrefixes stmt' = some auth') :
    auth' = auth ∨ getIds auth'.mode = [] := by
  have hclose := h.quotable.closed rfl
  obtain ⟨b, htext, hlast⟩ := h.first
  obtain ⟨sa, sb, htext', hpasses', hbefore, hafter⟩ := statementSplitter.mem_pieces hstmt'
  rcases hbefore with rfl | ⟨sa', c, rfl, hcut⟩
  · left
    rw [List.nil_append] at htext' hafter
    have hsame : stmt = stmt' :=
      Splitter.eq_of_first_piece (htext.symm.trans htext') h.passes hpasses' hlast hafter
    have hparsed := h.parsed
    rw [hsame, hparse] at hparsed
    exact Option.some.inj hparsed
  · right
    obtain rfl := eq_dot_of_cuts hcut
    obtain ⟨hpass, hquote⟩ := passes_ownerText hclose hquotes n
    have hparts : statementSplitter.PassesParts '.' (0, false) (ownerText x n) [publicText x] := by
      refine ⟨hpass, passes_publicText hclose hquotes ?_⟩
      have hstep : ∀ s : Nat × Bool, (statementSplitter.step s '.').2 = s.2 := fun _ => rfl
      rw [hstep, hquote]
    obtain ⟨parts, u, us, hlater, hright⟩ := hparts.of_cuts (a := sa') (d := '.')
      (b := stmt' ++ sb) (by rw [← indexText_eq_statements, htext']; simp) hcut
    have hsuffix : u :: us <:+ [publicText x] := ⟨parts, hlater.symm⟩
    rw [← List.mem_tails] at hsuffix
    simp only [List.tails, List.mem_cons, List.cons.injEq, List.not_mem_nil,
      or_false, reduceCtorEq] at hsuffix
    obtain ⟨rfl, rfl⟩ := hsuffix
    refine getIds_mode_of_publicText h.pair hquotes ⟨sb, ?_⟩ hparse
    rw [hright, List.flatMap_nil, List.append_nil]

/-! ## What the rules give access to -/

/-- Neither the dot before a path nor the slashes behind it are a part of its names. -/
theorem pods_infix_normalizePath {path : Str} (h : ("pods" : Str) <:+: path) :
    ("pods" : Str) <:+: normalizePath path := by
  have hbase : ∀ base : Str, ("pods" : Str) <:+: base →
      ("pods" : Str) <:+:
          (if (trimEndMatches '/' base).isEmpty then "/" else trimEndMatches '/' base) := by
    intro base hbase
    have hsplit : base = trimEndMatches '/' base ++
        (base.reverse.takeWhile (· == '/')).reverse := by
      change base = (base.reverse.dropWhile (· == '/')).reverse ++ _
      rw [← List.reverse_append, List.takeWhile_append_dropWhile, List.reverse_reverse]
    have hslashes : ∀ c ∈ (base.reverse.takeWhile (· == '/')).reverse, c ∉ ("pods" : Str) := by
      intro c hc
      have hslash := List.mem_takeWhile_imp (List.mem_reverse.mp hc)
      rw [eq_of_beq hslash]
      decide
    rw [hsplit] at hbase
    have htrim := infix_of_infix_append_right (by decide) hslashes hbase
    split
    · rename_i hempty
      rw [List.isEmpty_iff.mp hempty] at htrim
      exact absurd htrim (by decide)
    · exact htrim
  have hstripped : ∀ s : Str, (stripPrefix "./" path).or (stripPrefix "." path) = some s →
      ("pods" : Str) <:+: s := by
    intro s hs
    rcases Option.or_eq_some_iff.mp hs with hs | ⟨-, hs⟩
    · rw [stripPrefix_eq_some.mp hs] at h
      exact infix_of_infix_append_left (by decide) (by decide) h
    · rw [stripPrefix_eq_some.mp hs] at h
      exact infix_of_infix_append_left (by decide) (by decide) h
  rw [normalizePath]
  refine hbase _ ?_
  split
  · rename_i hs
    exact absurd (hstripped _ hs) (by decide)
  · rename_i s _ hs
    split
    · exact hstripped s hs
    · exact (hstripped s hs).trans (List.suffix_cons '/' s).isInfix
  · exact h

/-- A target in the directory of the pods is not the path of the index, nor does it reach it. -/
theorem pathMatches_index_eq_false {target : Str} (h : ("/pods" : Str) <:+: target)
    (isDefault : Bool) : pathMatches target publicTypeIndexPath isDefault = false := by
  have hname : ("pods" : Str) <:+: ("/pods" : Str) := by decide
  have hrule := pods_infix_normalizePath (hname.trans h)
  have hindex : normalizePath publicTypeIndexPath = publicTypeIndexPath ∧
      ¬ ("pods" : Str) <:+: publicTypeIndexPath := by decide
  have hno : ¬ normalizePath target <+: publicTypeIndexPath :=
    fun hpre => hindex.2 (hrule.trans hpre.isInfix)
  have hroot : (normalizePath target == "/") = false := by
    rw [beq_eq_false_iff_ne]
    intro hroot
    rw [hroot] at hrule
    exact absurd hrule (by decide)
  have hdirect : ∀ rest, stripPrefix (normalizePath target ++ ['/']) publicTypeIndexPath ≠
      some rest := by
    intro rest hrest
    refine hno ?_
    rw [stripPrefix_eq_some.mp hrest, List.append_assoc]
    exact List.prefix_append _ _
  rw [pathMatches, hindex.1]
  simp only []
  split
  · rename_i hsame
    rw [← eq_of_beq hsame] at hno
    exact absurd List.prefix_rfl hno
  · split
    · rw [hroot, if_neg (by simp)]
      cases hs : stripPrefix (normalizePath target ++ ['/']) publicTypeIndexPath with
      | none => rfl
      | some rest => exact absurd hs (hdirect rest)
    · rw [hroot, if_neg (by simp)]
      rw [← Bool.not_eq_true, startsWith, List.isPrefixOf_iff_prefix]
      exact fun hpre => hno ((List.prefix_append _ _).trans hpre)

/-- Where the rule of the owner covers the index, no other rule states a mode. -/
theorem OwnerStatement.eq_of_pathOk {http : Bool} {x : Str} (hx : IsPodAddress x)
    (hhttp : startsWith "http" x = http) {n : ℕ} {auth : AclAuthorization} {stmt : Str}
    (h : OwnerStatement http x n auth stmt) (hpath : pathOk auth publicTypeIndexPath = true)
    {stmt' : Str} (hstmt' : stmt' ∈ statementSplitter.pieces (0, false) [] (indexText http n x))
    {auth' : AclAuthorization}
    (hparse : parseTurtleAuthorization headerPrefixes stmt' = some auth')
    (hmodes : getModes auth' ≠ []) : auth' = auth := by
  by_cases hquotes : http = false ∨ inString false x = false
  · rw [pathOk, Bool.or_eq_true, List.any_eq_true, List.any_eq_true] at hpath
    rcases hpath with ⟨target, htarget, hmatch⟩ | ⟨target, htarget, hmatch⟩
    · have hpods := h.pods_infix hx hhttp hquotes
        (show (("accessTo" : Str), auth.accessTo) ∈ fields auth by simp [fields]) (Or.inl rfl)
          htarget
      rw [pathMatches_index_eq_false hpods] at hmatch
      cases hmatch
    · have hpods := h.pods_infix hx hhttp hquotes
        (show (("default" : Str), auth.default) ∈ fields auth by simp [fields]) (Or.inr rfl) htarget
      rw [pathMatches_index_eq_false hpods] at hmatch
      cases hmatch
  · rw [not_or, Bool.not_eq_false, Bool.not_eq_false] at hquotes
    obtain ⟨rfl, hquotes⟩ := hquotes
    refine (h.eq_or_getIds_mode hquotes hstmt' hparse).resolve_right fun hnone => hmodes ?_
    rw [getModes, hnone]
    rfl

end Provision

end SolidPod
