import SolidPod.Provision.Basic
import SolidPod.Wac.Cleaning
import SolidPod.Wac.Tokens

/-!
# The text of the ACL next to the public type index

The WebID of the owner and the address of the index begin with the same text,
the address of the pod, and go on with tails that no plan chooses. The ACL is
written around these; its body, as the parser cleans it, is the same text around
what is left of the address, with its lines cut at comments.
-/

namespace SolidPod

namespace Provision

open Foundation Str Wac

/-- How the WebID goes on behind the address of the pod, whose last slashes are
counted here. -/
def ownerTail (n : ℕ) : Str := '/' :: (List.replicate n '/' ++ "profile/card#me")

/-- The tail of the WebID up to its fragment. -/
def documentTail (n : ℕ) : Str := '/' :: (List.replicate n '/' ++ "profile/card")

theorem ownerTail_eq (n : ℕ) : ownerTail n = documentTail n ++ '#' :: "me" := by
  have hsplit : ("profile/card#me" : Str) = "profile/card" ++ '#' :: "me" := by decide
  rw [ownerTail, documentTail, hsplit, List.cons_append, List.append_assoc]

/-- What an id that is written as an IRI stands between. -/
def opening (http : Bool) : Str := if http then ['<'] else []

def closing (http : Bool) : Str := if http then ['>'] else []

def ownerIntro : Str := "\n<#rule-0> a acl:Authorization ;\n    acl:agent "

def accessIntro : Str := "    acl:accessTo "

def publicIntro : Str :=
  "    acl:mode acl:Read, acl:Write, acl:Control .\n\n" ++
    "<#rule-1> a acl:Authorization ;\n    acl:agentClass foaf:Agent ;\n    acl:accessTo "

def publicModes : Str := "    acl:mode acl:Read .\n\n"

/-- The rules around what stands for the address of the pod, with the rest of the
line behind the WebID, and behind the address of the index. -/
def indexLines (o z k l : Str) : Str :=
  ownerIntro ++ (o ++ (z ++ (k ++ '\n' :: (accessIntro ++ (o ++ (z ++ (l ++
    '\n' :: (publicIntro ++ (o ++ (z ++ (l ++ '\n' :: publicModes)))))))))))

/-- The rest of a line behind the WebID. -/
def ownerRest (http : Bool) (n : ℕ) : Str := ownerTail n ++ (closing http ++ " ;")

def indexRest (http : Bool) : Str := publicTypeIndexPath ++ (closing http ++ " ;")

/-- The rules of the ACL. -/
def indexText (http : Bool) (n : ℕ) (x : Str) : Str :=
  indexLines (opening http) x (ownerRest http n) (indexRest http)

/-! ## What the serialiser writes -/

/-- The address of a pod: it goes beyond the base, so both ids are written as IRIs
when it looks like one. -/
structure IsPodAddress (x : Str) : Prop where
  pods : ("/pods" : Str) <:+: x

theorem renderId_append {x y : Str} {http : Bool} (h : startsWith "http" x = http)
    (hfive : 5 ≤ x.length) :
    renderId (x ++ y) = opening http ++ (x ++ (y ++ closing http)) := by
  have hstart : startsWith "http" (x ++ y) = http := by
    rw [← h, Bool.eq_iff_iff, startsWith, startsWith, List.isPrefixOf_iff_prefix,
      List.isPrefixOf_iff_prefix]
    constructor
    · intro hp
      refine List.prefix_of_prefix_length_le hp (List.prefix_append x y) ?_
      exact le_trans (by decide) hfive
    · exact fun hp => hp.trans (List.prefix_append x y)
  rw [renderId, hstart, opening, closing]
  cases http with
  | true => simp
  | false => simp

theorem serializeTurtleAcl_index {x : Str} (hx : IsPodAddress x) {http : Bool}
    (h : startsWith "http" x = http) (n : ℕ) :
    serializeTurtleAcl (buildPublicTypeIndexAcl (x ++ ownerTail n) (x ++ publicTypeIndexPath)) =
      ended headerLines ++ indexText http n x := by
  have hfive : 5 ≤ x.length := hx.pods.length_le
  have hgraph : (buildPublicTypeIndexAcl (x ++ ownerTail n) (x ++ publicTypeIndexPath)).graph =
      some [{ AclAuthorization.empty with
          agent := some (.single ⟨x ++ ownerTail n⟩)
          accessTo := some (.single ⟨x ++ publicTypeIndexPath⟩)
          mode := some (.multiple [⟨"acl:Read"⟩, ⟨"acl:Write"⟩, ⟨"acl:Control"⟩]) },
        { AclAuthorization.empty with
          agentClass := some (.single ⟨"foaf:Agent"⟩)
          accessTo := some (.single ⟨x ++ publicTypeIndexPath⟩)
          mode := some (.single ⟨"acl:Read"⟩) }] := rfl
  rw [serializeTurtleAcl, hgraph]
  simp only [List.zipIdx_cons, List.zipIdx_nil, List.flatMap_cons, List.flatMap_nil,
    List.append_nil]
  rw [turtleHeader_eq, List.append_assoc]
  refine congrArg (ended headerLines ++ ·) ?_
  have hid := renderId_append (y := ownerTail n) h hfive
  have hindex := renderId_append (y := publicTypeIndexPath) h hfive
  have hnone : ∀ pred : Str, emitPairs pred none = [] := fun _ => rfl
  have hsingle : ∀ pred r : Str, emitPairs pred (some (.single ⟨r⟩)) =
      " ;\n" ++ "    " ++ pred ++ " " ++ renderId r := by
    intro pred r
    simp [emitPairs, emitPair, getIds, IdOrIds.ids, join]
  have hmodes : emitPairs "acl:mode" (some (.multiple [⟨"acl:Read"⟩, ⟨"acl:Write"⟩,
      ⟨"acl:Control"⟩])) = " ;\n    acl:mode acl:Read, acl:Write, acl:Control" := by
    decide
  have hclass : emitPairs "acl:agentClass" (some (.single ⟨"foaf:Agent"⟩)) =
      " ;\n    acl:agentClass foaf:Agent" := by
    decide
  have hread : emitPairs "acl:mode" (some (.single ⟨"acl:Read"⟩)) =
      " ;\n    acl:mode acl:Read" := by
    decide
  have hdigits : decimal 0 = "0" ∧ decimal (0 + 1) = "1" := by decide
  unfold emitRule
  simp only [AclAuthorization.empty, hnone, hmodes, hclass, hread, hdigits, emitConditions]
  rw [hsingle "acl:agent", hsingle "acl:accessTo", hid, hindex]
  unfold indexText indexLines ownerRest indexRest ownerIntro accessIntro publicIntro publicModes
  generalize ownerTail n = v
  generalize publicTypeIndexPath = u
  simp

/-! ## What the cleaning leaves -/

/-- Characters that neither the comment stripper nor the statement cutter, nor
any of the other passes, looks at. -/
def isPlain (c : Char) : Bool :=
  !(endsToken c || c = '.' || c = '#' || c = '<' || c = '>' || c = '"' || c = '[' || c = '@')

theorem isPlain_spec {c : Char} (h : isPlain c = true) :
    endsToken c = false ∧ c ≠ '.' ∧ c ≠ '#' ∧ c ≠ '<' ∧ c ≠ '>' ∧ c ≠ '"' ∧ c ≠ '[' ∧ c ≠ '@' := by
  simpa [isPlain, and_assoc] using h

theorem isPlain_documentTail (n : ℕ) : ∀ c ∈ documentTail n, isPlain c = true := by
  intro c hc
  rw [documentTail, List.mem_cons, List.mem_append] at hc
  rcases hc with rfl | hc | hc
  · decide
  · rw [List.eq_of_mem_replicate hc]
    decide
  · revert c
    decide

/-- The tails hold no character that a line or a directive is told by. -/
theorem notMem_rests (http : Bool) (n : ℕ) {c : Char} (hc : c = '\r' ∨ c = '\n' ∨ c = '@') :
    c ∉ ownerRest http n ∧ c ∉ indexRest http ∧ c ∉ documentTail n := by
  have hdoc : c ∉ documentTail n := by
    intro hmem
    have hplain := isPlain_documentTail n c hmem
    rcases hc with rfl | rfl | rfl <;> exact absurd hplain (by decide)
  refine ⟨?_, ?_, hdoc⟩
  · rw [ownerRest, ownerTail_eq, List.mem_append, List.mem_append]
    rintro ((hmem | hmem) | hmem)
    · exact hdoc hmem
    · rcases hc with rfl | rfl | rfl <;> exact absurd hmem (by decide)
    · revert hmem
      cases http <;> rcases hc with rfl | rfl | rfl <;> decide
  · rw [indexRest]
    cases http <;> rcases hc with rfl | rfl | rfl <;> decide

section Lines

variable (http : Bool) (n : ℕ)

theorem exists_rests : (∃ k, ownerRest http n = '/' :: k) ∧ (∃ k, indexRest http = '/' :: k) ∧
    ∃ k, documentTail n = '/' :: k :=
  ⟨⟨_, rfl⟩, ⟨_, rfl⟩, ⟨_, rfl⟩⟩

/-- Behind a line feed and an introduction a line has begun. -/
theorem directiveFree_intro {f : Str} (hf : '@' ∉ f) (hrun : directiveSplitter.run true f = false)
    {k : Str} (hk : '@' ∉ k) (b : Str) :
    DirectiveFree false (k ++ '\n' :: (f ++ (opening http ++ b))) ↔ DirectiveFree false b := by
  have hopen : '@' ∉ opening http ∧ directiveSplitter.run false (opening http) = false := by
    cases http <;> decide
  have hline : ∀ s t, DirectiveFree s ('\n' :: t) ↔ DirectiveFree true t := by
    intro s t
    have hno : ¬ ("@prefix" : Str) <+: '\n' :: t := by
      intro hp
      exact absurd (List.cons_prefix_cons.mp hp).1 (by decide)
    exact and_iff_right fun _ => hno
  rw [directiveFree_append_of_notMem hk, hline, directiveFree_append_of_notMem hf, hrun,
    directiveFree_append_of_notMem hopen.1, hopen.2]

/-- When the address of the pod begins no directive, the text holds none. -/
theorem directiveFree_indexText {x : Str} (h : DirectiveFree false x) :
    DirectiveFree true (indexText http n x) := by
  obtain ⟨⟨k, hk⟩, ⟨l, hl⟩, -⟩ := exists_rests http n
  obtain ⟨howner, hindex, -⟩ := notMem_rests http n (c := '@') (by simp)
  rw [hk] at howner
  rw [hl] at hindex
  have hkmem : '@' ∉ k := fun hc => howner (List.mem_cons_of_mem _ hc)
  have hlmem : '@' ∉ l := fun hc => hindex (List.mem_cons_of_mem _ hc)
  have hopen : '@' ∉ opening http ∧ directiveSplitter.run false (opening http) = false := by
    cases http <;> decide
  have hend : DirectiveFree false (l ++ '\n' :: publicModes) := by
    have hall : '@' ∉ l ++ '\n' :: publicModes := by
      rw [List.mem_append]
      rintro (hc | hc)
      · exact hlmem hc
      · exact absurd hc (by decide)
    have hfree := directiveFree_append_of_notMem hall false []
    rw [List.append_nil] at hfree
    exact hfree.mpr trivial
  rw [indexText, indexLines, hk, hl, directiveFree_append_of_notMem (by decide),
    directiveFree_append_of_notMem hopen.1, show directiveSplitter.run true ownerIntro = false by
      decide, hopen.2]
  simp only [List.cons_append]
  rw [directiveFree_append_cons (by decide) (by decide),
    directiveFree_intro http (by decide) (by decide) hkmem,
    directiveFree_append_cons (by decide) (by decide),
    directiveFree_intro http (by decide) (by decide) hlmem,
    directiveFree_append_cons (by decide) (by decide)]
  exact ⟨h, h, h, hend⟩

theorem notMem_intros : '\r' ∉ ownerIntro ∧ '\r' ∉ accessIntro ∧ '\r' ∉ publicIntro ∧
    '\r' ∉ publicModes ∧ '\r' ∉ opening http := by
  cases http <;> decide

/-- Carriage returns are dropped from the address of the pod alone. -/
theorem dropCrs_indexLines (z : Str) {k l : Str} (hk : '\r' ∉ k) (hl : '\r' ∉ l)
    (hkhead : ∃ k', k = '/' :: k') (hlhead : ∃ l', l = '/' :: l') :
    dropCrs (indexLines (opening http) z k l) = indexLines (opening http) (dropCrs z) k l := by
  obtain ⟨howner, haccess, hpublic, hmodes, hopen⟩ := notMem_intros http
  have hend : dropCrs publicModes = publicModes := by decide
  have hslash : ∀ m : Str, (∃ m', m = '/' :: m') → '\r' ∉ m → ∀ b,
      dropCrs (z ++ (m ++ b)) = dropCrs z ++ (m ++ dropCrs b) := by
    rintro m ⟨m', rfl⟩ hm b
    rw [List.cons_append, dropCrs_append_cons (by decide), ← List.cons_append,
      dropCrs_append_of_notMem hm]
  rw [indexLines, dropCrs_append_of_notMem howner, dropCrs_append_of_notMem hopen,
    hslash k hkhead hk,
    dropCrs_cons_of_ne (by decide), dropCrs_append_of_notMem haccess,
    dropCrs_append_of_notMem hopen, hslash l hlhead hl, dropCrs_cons_of_ne (by decide),
    dropCrs_append_of_notMem hpublic, dropCrs_append_of_notMem hopen, hslash l hlhead hl,
    dropCrs_cons_of_ne (by decide), hend, indexLines]

/-- When the lines end with the address of the pod, one at its end goes too. -/
theorem dropCrs_append_newline (z : Str) :
    ∃ z', z'.Sublist z ∧ ∀ b, dropCrs (z ++ '\n' :: b) = z' ++ '\n' :: dropCrs b := by
  induction z with
  | nil => exact ⟨[], List.Sublist.slnil, fun b => dropCrs_cons_of_ne (by decide) b⟩
  | cons c z ih =>
      obtain ⟨z', hz', hdrop⟩ := ih
      have hhead : ∀ b, (z ++ '\n' :: b).head? = (z ++ ['\n']).head? := by
        intro b
        cases z <;> rfl
      by_cases hc : c = '\r' ∧ (z ++ ['\n']).head? = some '\n'
      · refine ⟨z', hz'.cons c, fun b => ?_⟩
        rw [List.cons_append, dropCrs, if_pos (by rw [hhead]; exact hc), hdrop]
      · refine ⟨c :: z', hz'.cons_cons c, fun b => ?_⟩
        rw [List.cons_append, dropCrs, if_neg (by rw [hhead]; exact hc), hdrop, List.cons_append]

theorem exists_dropCrs_indexLines (z : Str) : ∃ z', z'.Sublist z ∧
    dropCrs (indexLines (opening http) z [] []) = indexLines (opening http) z' [] [] := by
  obtain ⟨howner, haccess, hpublic, hmodes, hopen⟩ := notMem_intros http
  have hend : dropCrs publicModes = publicModes := by decide
  obtain ⟨z', hz', hdrop⟩ := dropCrs_append_newline z
  refine ⟨z', hz', ?_⟩
  simp only [indexLines, List.nil_append]
  rw [dropCrs_append_of_notMem howner, dropCrs_append_of_notMem hopen, hdrop,
    dropCrs_append_of_notMem haccess, dropCrs_append_of_notMem hopen, hdrop,
    dropCrs_append_of_notMem hpublic, dropCrs_append_of_notMem hopen, hdrop, hend]

set_option maxRecDepth 1024 in
/-- Comments go from the address of the pod and from what is behind it on its
line. -/
theorem uncomment_indexLines (z k l : Str) :
    uncomment (some false) (indexLines (opening http) z k l) =
      indexLines (opening http) (uncomment (some http) z)
        (uncomment (scanTo (some http) z) k) (uncomment (scanTo (some http) z) l) := by
  have hnewline : ∀ s u, uncomment s ('\n' :: u) = '\n' :: uncomment (some false) u :=
    fun _ _ => rfl
  obtain ⟨howner, howner'⟩ : uncomment (some false) ownerIntro = ownerIntro ∧
      scanTo (some false) ownerIntro = some false := ⟨rfl, rfl⟩
  obtain ⟨haccess, haccess'⟩ : uncomment (some false) accessIntro = accessIntro ∧
      scanTo (some false) accessIntro = some false := ⟨rfl, rfl⟩
  obtain ⟨hpublic, hpublic'⟩ : uncomment (some false) publicIntro = publicIntro ∧
      scanTo (some false) publicIntro = some false := ⟨rfl, rfl⟩
  have hend : uncomment (some false) publicModes = publicModes := by decide
  have hopen : uncomment (some false) (opening http) = opening http ∧
      scanTo (some false) (opening http) = some http := by
    cases http <;> decide
  simp only [indexLines, uncomment_append, hnewline, howner, howner', haccess, haccess', hpublic,
    hpublic', hopen, hend]

theorem uncomment_plain {t : Str} (h : ∀ c ∈ t, isPlain c = true) (inIri : Bool) :
    uncomment (some inIri) t = t ∧ scanTo (some inIri) t = some inIri := by
  induction t with
  | nil => exact ⟨rfl, rfl⟩
  | cons c t ih =>
      rw [List.forall_mem_cons] at h
      obtain ⟨hends, -, hhash, hopen, hclose, -⟩ := isPlain_spec h.1
      have hne := (ne_newline_of_isWhitespace (isWhitespace_of_not_endsToken hends)).1
      have hstep : commentScan (some inIri) c = some inIri := by
        simp [commentScan, hne, hopen, hclose, hhash]
      rw [uncomment, scanTo_cons, hstep, (ih h.2).1]
      exact ⟨rfl, (ih h.2).2⟩

/-- What a comment leaves of the rests of the lines: all, or all but the fragment
of the WebID, or nothing. -/
theorem uncomment_rests (s : Option Bool) :
    uncomment s (indexRest http) = (if s = none then [] else indexRest http) ∧
      uncomment s (ownerRest http n) =
        match s with
        | some true => ownerRest http n
        | some false => documentTail n
        | none => [] := by
  cases s with
  | none =>
      obtain ⟨howner, hindex, -⟩ := notMem_rests http n (c := '\n') (by simp)
      exact ⟨(uncomment_none hindex).1, (uncomment_none howner).1⟩
  | some inIri =>
      obtain ⟨hdoc, hdoc'⟩ := uncomment_plain (isPlain_documentTail n) inIri
      constructor
      · rw [if_neg (by simp)]
        cases http <;> cases inIri <;> decide
      · rw [ownerRest, ownerTail_eq, List.append_assoc, uncomment_append, hdoc, hdoc']
        cases inIri with
        | false =>
            have hcut : uncomment (some false) ('#' :: "me" ++ (closing http ++ " ;")) = [] := by
              cases http <;> decide
            rw [hcut, List.append_nil]
        | true =>
            have hkept : uncomment (some true) ('#' :: "me" ++ (closing http ++ " ;")) =
                '#' :: "me" ++ (closing http ++ " ;") := by
              cases http <;> decide
            rw [hkept]

/-- The body of the text is the text around what is left of the address of the
pod, with its lines whole, or without the fragment of the WebID, or ended where
a comment begins. -/
theorem exists_cleaned_indexText (x : Str) : ∃ z, z.Sublist x ∧
    (cleaned (indexText http n x) = indexText http n z ∨
      cleaned (indexText http n x) =
        indexLines (opening http) z (documentTail n) (indexRest http) ∨
      cleaned (indexText http n x) = indexLines (opening http) z [] []) := by
  obtain ⟨howner, hindex, hdoc⟩ := exists_rests http n
  obtain ⟨hownerCr, hindexCr, hdocCr⟩ := notMem_rests http n (c := '\r') (by simp)
  have hsub : (uncomment (some http) (dropCrs x)).Sublist x :=
    (uncomment_sublist _ _).trans (dropCrs_sublist x)
  obtain ⟨hrest, hrest'⟩ := uncomment_rests http n (scanTo (some http) (dropCrs x))
  rw [cleaned, indexText, dropCrs_indexLines http x hownerCr hindexCr howner hindex,
    uncomment_indexLines, hrest, hrest']
  cases scanTo (some http) (dropCrs x) with
  | none =>
      obtain ⟨z, hz, hdrop⟩ := exists_dropCrs_indexLines http (uncomment (some http) (dropCrs x))
      refine ⟨z, hz.trans hsub, Or.inr (Or.inr ?_)⟩
      rw [if_pos rfl]
      exact hdrop
  | some inIri =>
      refine ⟨_, (dropCrs_sublist _).trans hsub, ?_⟩
      rw [if_neg (by simp)]
      cases inIri with
      | true => exact Or.inl (dropCrs_indexLines http _ hownerCr hindexCr howner hindex)
      | false =>
          exact Or.inr (Or.inl (dropCrs_indexLines http _ hdocCr hindexCr hdoc hindex))

end Lines

end Provision

end SolidPod
