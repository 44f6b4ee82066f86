import SolidPod.Provision.IndexText

/-!
# Where the owner is named

The WebID is the address of the pod with a tail behind it, so no text that is left of the
address can hold it. A term of the body that means the WebID is therefore the one that
was written for it, and the address has come through the cleaning as it was.
-/

namespace SolidPod

namespace Provision

open Foundation Str Wac

/-! ## Terms that mean the owner -/

/-- But for white space the term is `y` with the tail of the WebID behind it. Either `y`
is the address of the pod, or it is an abbreviation, which the address does not go into. -/
structure MeansOwner (x : Str) (n : ℕ) (tok y : Str) : Prop where
  text : ∃ w w', tok = w ++ (y ++ ownerTail n) ++ w' ∧ (∀ c ∈ w, isWhitespace c = true) ∧
    ∀ c ∈ w', isWhitespace c = true
  whole : y.Sublist x → y = x
  chars : ∀ c ∈ x, c ∈ y ∨ ∃ binding ∈ headerPrefixes, c ∈ binding.2

theorem meansOwner_self (x : Str) (n : ℕ) {tok : Str} (h : trim tok = x ++ ownerTail n) :
    MeansOwner x n tok x := by
  obtain ⟨w, w', htok, hw, hw'⟩ := exists_trim_eq tok
  rw [h] at htok
  exact ⟨⟨w, w', htok, hw, hw'⟩, fun _ => rfl, fun _ hc => Or.inl hc⟩

/-- The prefixes of the header bind no address of a pod, and no name of theirs goes into
the IRI that it stands for. -/
theorem headerPrefixes_apart : ∀ binding ∈ headerPrefixes,
    ¬ ("/pods" : Str) <:+: binding.2 ∧ ¬ (binding.1 ++ [':']).Sublist binding.2 := by
  decide

theorem mem_of_lookup {prefixes : Prefixes} {p base : Str} (h : prefixes.lookup p = some base) :
    (p, base) ∈ prefixes := by
  induction prefixes with
  | nil => cases h
  | cons binding prefixes ih =>
      obtain ⟨name, iri⟩ := binding
      rw [List.lookup_cons] at h
      split at h
      · rename_i heq
        cases h
        rw [eq_of_beq heq]
        exact List.mem_cons_self
      · exact List.mem_cons_of_mem _ (ih h)

theorem exists_meansOwner {x : Str} (hx : IsPodAddress x) {n : ℕ} {tok : Str}
    (h : expandCurieOrIri headerPrefixes tok = x ++ ownerTail n) :
    ∃ y, MeansOwner x n tok y := by
  rw [expandCurieOrIri] at h
  split at h
  · have hlength := congrArg List.length h
    have hfive : 5 ≤ x.length := hx.pods.length_le
    rw [List.length_append] at hlength
    have hone : ("a" : Str).length = 1 := rfl
    omega
  · split at h
    · rename_i p rest hsplit
      obtain ⟨htok, hcolon⟩ := eq_append_of_splitOnce hsplit
      split at h
      · exact ⟨x, meansOwner_self x n h⟩
      · split at h
        · rename_i base hlookup
          obtain ⟨hpods, hname⟩ := headerPrefixes_apart _ (mem_of_lookup hlookup)
          rcases List.append_eq_append_iff.mp h with ⟨x', rfl, hrest⟩ | ⟨t, rfl, -⟩
          · obtain ⟨w, w', hsame, hw, hw'⟩ := exists_trim_eq tok
            refine ⟨p ++ ':' :: x', ⟨w, w', ?_, hw, hw'⟩, ?_, ?_⟩
            · rw [hsame, htok, hrest]
              simp
            · intro hsub
              have hcancel : (p ++ [':'] ++ x').Sublist (base ++ x') := by simpa using hsub
              exact absurd ((List.append_sublist_append_right x').mp hcancel) hname
            · intro c hc
              rcases List.mem_append.mp hc with hbase | hx'
              · exact Or.inr ⟨_, mem_of_lookup hlookup, hbase⟩
              · exact Or.inl (List.mem_append_right _ (List.mem_cons_of_mem _ hx'))
          · exact absurd (hx.pods.trans (List.prefix_append x t).isInfix) hpods
        · exact ⟨x, meansOwner_self x n h⟩
    · exact ⟨x, meansOwner_self x n h⟩

/-- Nothing that is left of the address holds what a term means and more. -/
theorem MeansOwner.not_sublist {x : Str} {n : ℕ} {tok y : Str} (h : MeansOwner x n tok y)
    {z : Str} (hz : z.Sublist x) {t : Str} (ht : t ≠ []) : ¬ (y ++ t).Sublist z := by
  intro hsub
  have hall : (y ++ t).Sublist x := hsub.trans hz
  have hy : y = x := h.whole ((List.sublist_append_left y t).trans hall)
  have hlength := hall.length_le
  have hpos := List.length_pos_iff.mpr ht
  rw [hy, List.length_append] at hlength
  omega

/-- When what is left of the address ends in what a term means, it is the address. -/
theorem MeansOwner.eq_of_append {x : Str} {n : ℕ} {tok y : Str} (h : MeansOwner x n tok y)
    {z : Str} (hz : z.Sublist x) {s : Str} (hs : z = s ++ y) : s = [] ∧ y = x ∧ z = x := by
  have hy : y = x := by
    refine h.whole (List.Sublist.trans ?_ hz)
    rw [hs]
    exact List.sublist_append_right s y
  have hlength := hz.length_le
  rw [hs, hy, List.length_append] at hlength
  have hnil : s = [] := List.length_eq_zero_iff.mp (by omega)
  refine ⟨hnil, hy, ?_⟩
  rw [hs, hnil, hy, List.nil_append]

/-- A text that a term of the body means begins no directive when the address it holds
goes into the term or into the line of a binding. -/
theorem directiveFree_of_expandCurieOrIri {st : Prefixes × Str} (hst : ReadLines st)
    {a tok x v : Str}
    (htok : TokenAt st.2 a tok) (h : expandCurieOrIri st.1 tok = x ++ v) (hlong : 2 ≤ x.length) :
    DirectiveFree false x := by
  have hfree : ∀ t, t <:+ tok → DirectiveFree false t := by
    rintro t ⟨s, rfl⟩
    cases htok with
    | @iri b htext _ =>
        have hbody := hst.directiveFree
        rw [htext] at hbody
        have hsplit : a ++ '<' :: (s ++ t) ++ '>' :: b = (a ++ '<' :: s) ++ (t ++ '>' :: b) := by
          simp
        rw [hsplit] at hbody
        exact hbody.of_append_right.of_append_left
    | @bare b htext _ _ _ =>
        have hbody := hst.directiveFree
        rw [htext] at hbody
        have hsplit : a ++ (s ++ t) ++ b = (a ++ s) ++ (t ++ b) := by simp
        rw [hsplit] at hbody
        exact hbody.of_append_right.of_append_left
  have htrim : DirectiveFree false (trim tok) := by
    obtain ⟨w, w', hsame, -, -⟩ := exists_trim_eq tok
    have hsuffix : trim tok ++ w' <:+ tok := ⟨w, by rw [← List.append_assoc, ← hsame]⟩
    exact (hfree _ hsuffix).of_append_left
  rw [expandCurieOrIri] at h
  split at h
  · have hlength := congrArg List.length h
    rw [List.length_append] at hlength
    have hone : ("a" : Str).length = 1 := rfl
    omega
  · split at h
    · rename_i p rest hsplit
      obtain ⟨htok', -⟩ := eq_append_of_splitOnce hsplit
      split at h
      · rw [h] at htrim
        exact htrim.of_append_left
      · split at h
        · rename_i base hlookup
          have hbase := hst.bases _ (mem_of_lookup hlookup)
          have hrest : DirectiveFree false rest := by
            have hsame : p ++ ':' :: rest = (p ++ [':']) ++ rest := by simp
            rw [htok', hsame] at htrim
            exact htrim.of_append_right
          have hall : DirectiveFree false (base ++ rest) :=
            (directiveFree_append_of_line hbase rest).mpr hrest
          rw [h] at hall
          exact hall.of_append_left
        · rw [h] at htrim
          exact htrim.of_append_left
    · rw [h] at htrim
      exact htrim.of_append_left

/-! ## Words of the rules -/

section Words

variable {x z tok y : Str} {n : ℕ} {http : Bool}

theorem MeansOwner.ne_nil (h : MeansOwner x n tok y) (hx : IsPodAddress x) : y ≠ [] := by
  rintro rfl
  have hnil := h.whole (List.nil_sublist x)
  have hfive : 5 ≤ x.length := hx.pods.length_le
  rw [← hnil] at hfive
  exact absurd hfive (by decide)

/-- The address of the pod starts no term behind the bracket of an IRI, so what a word
means is in what is left of the address. -/
theorem sublist_of_opening (http : Bool) (hne : y ≠ []) (hstart : ∀ c ∈ y.head?, c ≠ '<') {t : Str}
    (h : (y ++ t).Sublist (opening http ++ z)) : (y ++ t).Sublist z := by
  cases http with
  | false => exact h
  | true =>
      cases y with
      | nil => exact absurd rfl hne
      | cons d y =>
          have hd : d ≠ '<' := hstart d rfl
          cases h with
          | cons _ h => exact h
          | cons_cons _ _ => exact absurd rfl hd

/-- No word holds what a term means and the document behind it, but the word of the
WebID. -/
theorem MeansOwner.not_infix (h : MeansOwner x n tok y) (hne : y ≠ [])
    (hstart : ∀ c ∈ y.head?, c ≠ '<') (hz : z.Sublist x) {e : Str} (he : '#' ∉ e) :
    ¬ (y ++ (documentTail n ++ ['#'])) <:+: opening http ++ (z ++ e) := by
  rintro ⟨s, t, hst⟩
  have hsplit : opening http ++ z ++ e = (s ++ y ++ documentTail n) ++ '#' :: t := by
    rw [List.append_assoc, ← hst]
    simp
  rcases List.append_eq_append_iff.mp hsplit with ⟨r, -, hr⟩ | ⟨r, hr, hre⟩
  · exact he (hr ▸ by simp)
  · cases r with
    | nil =>
        rw [List.nil_append] at hre
        exact he (hre ▸ List.mem_cons_self)
    | cons c r =>
        refine h.not_sublist hz (t := documentTail n ++ c :: r) (by simp) ?_
        refine sublist_of_opening http hne hstart ?_
        have hsuffix : y ++ (documentTail n ++ c :: r) <:+ s ++ y ++ documentTail n ++ c :: r :=
          ⟨s, by simp⟩
        rw [hr]
        exact hsuffix.sublist

/-- The lines behind the line of the WebID. -/
def accessLines (o z l : Str) : Str :=
  accessIntro ++ (o ++ (z ++ (l ++ '\n' :: (publicIntro ++ (o ++ (z ++ (l ++
    '\n' :: publicModes)))))))

theorem indexLines_eq (o z k l : Str) :
    indexLines o z k l = ownerIntro ++ (o ++ (z ++ (k ++ '\n' :: accessLines o z l))) := rfl

set_option maxRecDepth 2048 in
theorem exists_words : (∃ p : Str, ownerIntro = p ++ [' '] ∧ ¬ ("card#" : Str) <:+: p) ∧
    (∃ p : Str, accessIntro = p ++ [' '] ∧ ¬ ("card#" : Str) <:+: p) ∧
    (∃ p : Str, publicIntro = p ++ [' '] ∧ ¬ ("card#" : Str) <:+: p) ∧
    ¬ ("card#" : Str) <:+: publicModes :=
  ⟨⟨ownerIntro.dropLast, by decide, by decide⟩, ⟨accessIntro.dropLast, by decide, by decide⟩,
    ⟨publicIntro.dropLast, by decide, by decide⟩, by decide⟩

/-- The WebID is not named behind its line by a word. -/
theorem MeansOwner.not_infix_accessLines (h : MeansOwner x n tok y) (hne : y ≠ [])
    (hstart : ∀ c ∈ y.head?, c ≠ '<') (hz : z.Sublist x) (htok : tok = y ++ ownerTail n)
    (hspace : ∀ c ∈ tok, isWhitespace c = false) {l : Str} (hl : '#' ∉ l) :
    ¬ tok <:+: accessLines (opening http) z l := by
  have hnil : tok ≠ [] := by
    rw [htok]
    exact fun hno => hne (List.append_eq_nil_iff.mp hno).1
  have hblank : ' ' ∉ tok ∧ '\n' ∉ tok :=
    ⟨fun hc => absurd (hspace _ hc) (by decide), fun hc => absurd (hspace _ hc) (by decide)⟩
  have hdocument : y ++ (documentTail n ++ ['#']) <:+: tok := by
    rw [htok, ownerTail_eq]
    exact ⟨[], "me", by simp⟩
  have hcard : ("card#" : Str) <:+: tok := by
    refine List.IsInfix.trans ?_ hdocument
    exact ⟨y ++ '/' :: (List.replicate n '/' ++ "profile/"), [], by simp [documentTail]⟩
  obtain ⟨-, ⟨p, hp, hpcard⟩, ⟨q, hq, hqcard⟩, hmodes⟩ := exists_words
  have hword : ∀ b, tok <:+: opening http ++ (z ++ (l ++ '\n' :: b)) → tok <:+: b := by
    intro b hb
    have hassoc : opening http ++ (z ++ (l ++ '\n' :: b)) =
        (opening http ++ (z ++ l)) ++ '\n' :: b := by simp
    rw [hassoc, infix_append_cons_iff hnil hblank.2] at hb
    exact hb.resolve_left fun hw => h.not_infix hne hstart hz hl (hdocument.trans hw)
  intro hlines
  rw [accessLines, hp, List.append_assoc, List.singleton_append,
    infix_append_cons_iff hnil hblank.1] at hlines
  rcases hlines with hp' | hlines
  · exact hpcard (hcard.trans hp')
  · have hpublic := hword _ hlines
    rw [hq, List.append_assoc, List.singleton_append,
      infix_append_cons_iff hnil hblank.1] at hpublic
    rcases hpublic with hq' | hpublic
    · exact hqcard (hcard.trans hq')
    · exact hmodes (hcard.trans (hword _ hpublic))

/-- How the cleaning leaves the lines behind the address. -/
inductive Rests (http : Bool) (n : ℕ) : Str → Str → Prop
  | whole : Rests http n (ownerRest http n) (indexRest http)
  | document : Rests http n (documentTail n) (indexRest http)
  | ended : Rests http n [] []

theorem notMem_hash (http : Bool) (n : ℕ) :
    '#' ∉ indexRest http ∧ '#' ∉ documentTail n ∧ '#' ∉ ("me" : Str) ++ closing http := by
  refine ⟨?_, fun hc => absurd (isPlain_documentTail n _ hc) (by decide), ?_⟩
  · cases http <;> decide
  · cases http <;> decide

/-- Where a word means the owner: the ids are no IRIs, and the word is the WebID. -/
structure OwnerAt (http : Bool) (x z : Str) (n : ℕ) (k l a tok : Str) : Prop where
  rests : k = ownerRest http n ∧ l = indexRest http
  address : z = x
  before : a = ownerIntro
  token : tok = x ++ ownerTail n

theorem MeansOwner.ownerAt_of_bare (h : MeansOwner x n tok y) (hne : y ≠ []) (hz : z.Sublist x)
    {k l : Str} (hkl : Rests http n k l) {a b : Str}
    (htext : indexLines (opening http) z k l = a ++ tok ++ b)
    (hchars : ∀ c ∈ tok, endsToken c = false) (hhead : ∀ c ∈ tok.head?, c ≠ '<' ∧ c ≠ '"')
    (hbefore : tok ≠ [] → ∃ c ∈ a.getLast?, c ≠ '<') :
    http = false ∧ OwnerAt http x z n k l a tok := by
  have hspace : ∀ c ∈ tok, isWhitespace c = false :=
    fun c hc => isWhitespace_of_not_endsToken (hchars c hc)
  have htok : tok = y ++ ownerTail n := by
    obtain ⟨w, w', htok, hw, hw'⟩ := h.text
    have hnil : ∀ v : Str, (∀ c ∈ v, isWhitespace c = true) → (∀ c ∈ v, c ∈ tok) → v = [] := by
      intro v hv hmem
      refine List.eq_nil_iff_forall_not_mem.mpr fun c hc => ?_
      have hno := hspace c (hmem c hc)
      rw [hv c hc] at hno
      cases hno
    have hwnil := hnil w hw fun c hc => by
      rw [htok]
      simp [hc]
    have hwnil' := hnil w' hw' fun c hc => by
      rw [htok]
      simp [hc]
    rw [htok, hwnil, hwnil', List.nil_append, List.append_nil]
  have hstart : ∀ c ∈ y.head?, c ≠ '<' := by
    intro c hc
    refine (hhead c ?_).1
    rw [htok]
    exact List.mem_head?_append_of_mem_head? hc
  have hnil : tok ≠ [] := by
    rw [htok]
    exact fun hno => hne (List.append_eq_nil_iff.mp hno).1
  have hblank : ' ' ∉ tok ∧ '\n' ∉ tok :=
    ⟨fun hc => absurd (hspace _ hc) (by decide), fun hc => absurd (hspace _ hc) (by decide)⟩
  have hdocument : y ++ (documentTail n ++ ['#']) <:+: tok := by
    rw [htok, ownerTail_eq]
    exact ⟨[], "me", by simp⟩
  obtain ⟨hindexHash, hdocHash, hmeHash⟩ := notMem_hash http n
  have hl : '#' ∉ l := by
    cases hkl with
    | whole => exact hindexHash
    | document => exact hindexHash
    | ended => simp
  have haccess : ¬ tok <:+: accessLines (opening http) z l :=
    h.not_infix_accessLines hne hstart hz htok hspace hl
  obtain ⟨⟨p, hp, hpcard⟩, -⟩ := exists_words
  have hcard : ("card#" : Str) <:+: tok := by
    refine List.IsInfix.trans ?_ hdocument
    exact ⟨y ++ '/' :: (List.replicate n '/' ++ "profile/"), [], by simp [documentTail]⟩
  -- the line of the WebID, behind the introduction
  obtain ⟨a', rfl, hline⟩ : ∃ a', a = ownerIntro ++ a' ∧
      opening http ++ (z ++ (k ++ '\n' :: accessLines (opening http) z l)) = a' ++ tok ++ b := by
    rw [indexLines_eq, hp, List.append_assoc, List.singleton_append] at htext
    rcases append_eq_append_cons hblank.1 htext.symm with ⟨b', hp', -⟩ | ⟨a', ha, hrest⟩
    · exact absurd (hcard.trans ⟨a, b', hp'.symm⟩) hpcard
    · exact ⟨a', by rw [hp, ha]; simp, hrest⟩
  have hnot : '#' ∉ k → False := by
    intro hk
    have hassoc : opening http ++ (z ++ (k ++ '\n' :: accessLines (opening http) z l)) =
        (opening http ++ (z ++ k)) ++ '\n' :: accessLines (opening http) z l := by simp
    have hinfix : tok <:+: (opening http ++ (z ++ k)) ++ '\n' :: accessLines (opening http) z l :=
      ⟨a', b, by rw [← hassoc, hline]⟩
    rw [infix_append_cons_iff hnil hblank.2] at hinfix
    rcases hinfix with hw | hrest
    · exact h.not_infix hne hstart hz hk (hdocument.trans hw)
    · exact haccess hrest
  cases hkl with
  | ended => exact absurd (hnot (by simp)) id
  | document => exact absurd (hnot hdocHash) id
  | whole =>
      have hassoc : opening http ++ (z ++ (ownerRest http n ++
          '\n' :: accessLines (opening http) z (indexRest http))) =
          (opening http ++ (z ++ (ownerTail n ++ closing http))) ++
            ' ' :: (";" ++ '\n' :: accessLines (opening http) z (indexRest http)) := by
        simp [ownerRest]
      rw [hassoc] at hline
      rcases append_eq_append_cons hblank.1 hline.symm with ⟨b', hword, -⟩ | ⟨a'', -, hrest⟩
      · have hsides : (opening http ++ (z ++ documentTail n)) ++ '#' :: ("me" ++ closing http) =
            (a' ++ y ++ documentTail n) ++ '#' :: ("me" ++ b') := by
          rw [htok, ownerTail_eq] at hword
          simpa using hword
        rcases eq_of_append_cons hmeHash hsides with hsame | hlonger
        · rw [← List.append_assoc] at hsame
          have hfront := List.append_cancel_right hsame
          cases http with
          | false =>
              obtain ⟨rfl, rfl, rfl⟩ := h.eq_of_append hz hfront
              exact ⟨rfl, ⟨rfl, rfl⟩, rfl, List.append_nil _, htok⟩
          | true =>
              cases a' with
              | nil =>
                  rw [List.nil_append] at hfront
                  exact absurd rfl (hstart '<' (by rw [← hfront]; rfl))
              | cons d a' =>
                  obtain ⟨rfl, hz'⟩ := List.cons.inj hfront
                  obtain ⟨rfl, -, -⟩ := h.eq_of_append hz hz'
                  obtain ⟨c, hc, hlast⟩ := hbefore hnil
                  rw [List.getLast?_concat] at hc
                  exact absurd (Option.some.inj hc).symm hlast
        · refine absurd (List.IsInfix.trans ?_ hlonger.isInfix)
            (h.not_infix hne hstart hz hdocHash)
          exact ⟨a', [], by simp⟩
      · have hinfix : tok <:+:
            (";" : Str) ++ '\n' :: accessLines (opening http) z (indexRest http) :=
          ⟨a'', b, hrest.symm⟩
        rw [infix_append_cons_iff hnil hblank.2] at hinfix
        rcases hinfix with hsemi | hrest
        · exact absurd (hcard.trans hsemi) (by decide)
        · exact absurd hrest haccess

end Words

/-! ## IRIs of the rules -/

section Iris

variable {x z tok y : Str} {n : ℕ} {http : Bool}

/-- A term that means the owner ends in the last letter of the WebID, or in white space. -/
theorem MeansOwner.not_suffix (h : MeansOwner x n tok y) {q : Str} {c : Char}
    (hc : c ∈ ("01d" : Str)) (hq : q.getLast? = some c) : ¬ '<' :: tok <:+ q := by
  rintro ⟨s, rfl⟩
  obtain ⟨w, w', rfl, -, hw'⟩ := h.text
  rcases List.eq_nil_or_concat' w' with rfl | ⟨v, d, rfl⟩
  · have hlast : (s ++ '<' :: (w ++ (y ++ ownerTail n) ++ [])).getLast? = some 'e' := by
      have hend : s ++ '<' :: (w ++ (y ++ ownerTail n) ++ []) =
          (s ++ '<' :: (w ++ (y ++ (documentTail n ++ "#m")))) ++ ['e'] := by
        rw [ownerTail_eq]
        simp
      rw [hend, List.getLast?_concat]
    rw [hlast] at hq
    cases hq
    exact absurd hc (by decide)
  · have hlast : (s ++ '<' :: (w ++ (y ++ ownerTail n) ++ (v ++ [d]))).getLast? = some d := by
      have hend : s ++ '<' :: (w ++ (y ++ ownerTail n) ++ (v ++ [d])) =
          (s ++ '<' :: (w ++ (y ++ ownerTail n) ++ v)) ++ [d] := by simp
      rw [hend, List.getLast?_concat]
    rw [hlast] at hq
    cases hq
    have hblank := hw' c (by simp)
    have hno : ∀ c ∈ ("01d" : Str), isWhitespace c = false := by decide
    rw [hno c hc] at hblank
    cases hblank

set_option maxRecDepth 2048 in
/-- How the IRIs of the rules that no plan chooses stand in the introductions. -/
theorem exists_intros :
    (∃ p q : Str, ownerIntro = p ++ '>' :: q ∧ '>' ∉ p ∧ '>' ∉ q ∧ '<' ∉ q ∧
      p.getLast? = some '0') ∧
    (∃ p q : Str, publicIntro = p ++ '>' :: q ∧ '>' ∉ p ∧ '>' ∉ q ∧ p.getLast? = some '1') ∧
    '>' ∉ accessIntro ∧ '>' ∉ publicModes ∧ '>' ∉ publicTypeIndexPath ∧
    publicTypeIndexPath.getLast? = some 'd' :=
  ⟨⟨"\n<#rule-0", " a acl:Authorization ;\n    acl:agent ", by decide⟩,
    ⟨"    acl:mode acl:Read, acl:Write, acl:Control .\n\n<#rule-1",
      " a acl:Authorization ;\n    acl:agentClass foaf:Agent ;\n    acl:accessTo ", by decide⟩,
    by decide⟩

theorem getLast?_append_of_eq {p q : Str} {c : Char} (h : q.getLast? = some c) :
    (p ++ q).getLast? = some c := by
  rw [List.getLast?_append, h]
  rfl

/-- The WebID is not named behind its line by an IRI. -/
theorem MeansOwner.not_closed_accessLines (h : MeansOwner x n tok y) (htok : '>' ∉ tok)
    (hz : '>' ∉ z) {p a b : Str} (hp : '>' ∉ p) :
    p ++ accessLines (opening true) z (indexRest true) ≠ a ++ '<' :: tok ++ '>' :: b := by
  obtain ⟨-, ⟨i, j, hij, hi, hj, hilast⟩, haccess, hmodes, hindex, hindexlast⟩ := exists_intros
  have hparts := not_closed_of_parts (a := a) (b := b) (p := '<' :: tok) (c := '>')
    [p ++ (accessIntro ++ ('<' :: (z ++ publicTypeIndexPath))), " ;\n" ++ i,
      j ++ '<' :: (z ++ publicTypeIndexPath)] (" ;\n" ++ publicModes)
    (by simp [htok]) ?_ ?_
  · intro heq
    refine hparts (Eq.trans ?_ heq)
    rw [accessLines, hij, indexRest, opening, closing]
    simp
  · intro q hq
    simp only [List.mem_cons, List.not_mem_nil, or_false] at hq
    rcases hq with rfl | rfl | rfl
    · refine ⟨by simp [hp, haccess, hz, hindex], h.not_suffix (c := 'd') (by decide) ?_⟩
      exact getLast?_append_of_eq (getLast?_append_of_eq (p := _)
        (getLast?_append_of_eq (p := '<' :: z) hindexlast))
    · exact ⟨by simp [hi], h.not_suffix (c := '1') (by decide) (getLast?_append_of_eq hilast)⟩
    · refine ⟨by simp [hj, hz, hindex], h.not_suffix (c := 'd') (by decide) ?_⟩
      exact getLast?_append_of_eq (getLast?_append_of_eq (p := '<' :: z) hindexlast)
  · simp [hmodes]

/-- An address that does not close what is open holds no IRI of its own, nor does a line
that a comment has ended. -/
theorem MeansOwner.not_closed_indexLines (h : MeansOwner x n tok y) (htok : '>' ∉ tok)
    (hz : '>' ∉ z) {p o k l a b : Str} (hp : '>' ∉ p) (ho : '>' ∉ o) (hk : '>' ∉ k)
    (hl : '>' ∉ l) :
    p ++ (o ++ (z ++ (k ++ '\n' :: accessLines o z l))) ≠ a ++ '<' :: tok ++ '>' :: b := by
  obtain ⟨-, ⟨i, j, hij, hi, hj, hilast⟩, haccess, hmodes, -⟩ := exists_intros
  have hparts := not_closed_of_parts (a := a) (b := b) (p := '<' :: tok) (c := '>')
    [p ++ (o ++ (z ++ (k ++ '\n' :: (accessIntro ++ (o ++ (z ++ (l ++ '\n' :: i)))))))]
    (j ++ (o ++ (z ++ (l ++ '\n' :: publicModes)))) (by simp [htok]) ?_ ?_
  · intro heq
    refine hparts (Eq.trans ?_ heq)
    rw [accessLines, hij]
    simp
  · intro q hq
    rw [List.mem_singleton] at hq
    subst hq
    refine ⟨by simp [hp, ho, hz, hk, haccess, hl, hi], h.not_suffix (c := '1') (by decide) ?_⟩
    simp [List.getLast?_append, List.getLast?_cons, hilast]
  · simp [hj, ho, hz, hl, hmodes]

theorem MeansOwner.ownerAt_of_iri (h : MeansOwner x n tok y) (hz : z.Sublist x) {k l : Str}
    (hkl : Rests http n k l) {a b : Str}
    (htext : indexLines (opening http) z k l = a ++ '<' :: tok ++ '>' :: b) (hclose : '>' ∉ tok) :
    http = true ∧ '>' ∉ x ∧ OwnerAt http x z n k l a tok := by
  obtain ⟨w, w', htok, -, hw'⟩ := h.text
  have hx : '>' ∉ x := by
    intro hc
    rcases h.chars _ hc with hy | ⟨binding, hbinding, hbase⟩
    · refine hclose ?_
      rw [htok]
      simp [hy]
    · revert hbase
      have hbases : ∀ binding ∈ headerPrefixes, '>' ∉ binding.2 := by decide
      exact hbases binding hbinding
  have hz' : '>' ∉ z := fun hc => hx (hz.mem hc)
  have hdoc : '>' ∉ documentTail n :=
    fun hc => absurd (isPlain_documentTail n _ hc) (by decide)
  have howner : '>' ∉ ownerTail n := by
    rw [ownerTail_eq, List.mem_append, not_or]
    exact ⟨hdoc, by decide⟩
  obtain ⟨⟨p, q, hpq, hp, hq, hqopen, hplast⟩, -⟩ := exists_intros
  -- the introduction ends in no IRI that means the owner
  obtain ⟨a', ha, hline⟩ : ∃ a', a = p ++ '>' :: a' ∧
      q ++ (opening http ++ (z ++ (k ++ '\n' :: accessLines (opening http) z l))) =
        a' ++ '<' :: tok ++ '>' :: b := by
    rw [indexLines_eq, hpq, List.append_assoc, List.cons_append] at htext
    rcases append_cons_eq_append_cons (by simp [hclose]) hp htext.symm with ⟨hend, -⟩ | hrest
    · exact absurd ⟨a, hend⟩ (h.not_suffix (c := '0') (by decide) hplast)
    · exact hrest
  cases http with
  | false =>
      have hno := h.not_closed_indexLines hclose hz' (p := q) (o := opening false) (k := k) (l := l)
        (a := a') (b := b) hq (by simp [opening])
      cases hkl with
      | whole => exact absurd hline (hno (by simp [ownerRest, closing, howner]) (by decide))
      | document => exact absurd hline (hno hdoc (by decide))
      | ended => exact absurd hline (hno (by simp) (by simp))
  | true =>
      cases hkl with
      | ended =>
          exact absurd hline (h.not_closed_indexLines hclose hz' hq (by decide) (by simp) (by simp))
      | document =>
          refine absurd (Eq.trans ?_ hline) (h.not_closed_accessLines hclose hz' (a := a') (b := b)
            (p := q ++ '<' :: (z ++ (documentTail n ++ "\n"))) (by simp [hq, hz', hdoc]))
          simp [opening]
      | whole =>
          have hsides : a' ++ '<' :: tok ++ '>' :: b = (q ++ '<' :: (z ++ ownerTail n)) ++
              '>' :: (" ;\n" ++ accessLines (opening true) z (indexRest true)) := by
            rw [← hline]
            simp [opening, ownerRest, closing]
          rcases append_cons_eq_append_cons (by simp [hclose])
            (by simp [hq, hz', howner]) hsides with ⟨hmain, -⟩ | ⟨a'', -, hrest⟩
          · have hblank : w' = [] := by
              rcases List.eq_nil_or_concat' w' with hnil | ⟨v, d, rfl⟩
              · exact hnil
              · have hlast := congrArg List.getLast? hmain
                have hleft : a' ++ '<' :: tok =
                    (a' ++ '<' :: (w ++ (y ++ ownerTail n) ++ v)) ++ [d] := by
                  rw [htok]
                  simp
                have hright : q ++ '<' :: (z ++ ownerTail n) =
                    (q ++ '<' :: (z ++ (documentTail n ++ "#m"))) ++ ['e'] := by
                  rw [ownerTail_eq]
                  simp
                rw [hleft, hright, List.getLast?_concat, List.getLast?_concat] at hlast
                obtain rfl := Option.some.inj hlast
                exact absurd ( hw' 'e' (by simp)) (by decide)
            subst hblank
            have hfront : a' ++ '<' :: (w ++ y) = q ++ '<' :: z := by
              rw [htok] at hmain
              refine (List.append_left_inj (ownerTail n)).mp ?_
              simpa using hmain
            have hfinish : ∀ {s : Str}, z = s ++ y → s = w → a' = q →
                true = true ∧ '>' ∉ x ∧
                  OwnerAt true x z n (ownerRest true n) (indexRest true) a tok := by
              rintro s hs rfl rfl
              obtain ⟨rfl, rfl, rfl⟩ := h.eq_of_append hz hs
              exact ⟨rfl, hx, ⟨rfl, rfl⟩, rfl, ha.trans hpq.symm, by rw [htok]; simp⟩
            rcases List.append_eq_append_iff.mp hfront with ⟨s, hs, hr⟩ | ⟨s, hs, hr⟩
            · cases s with
              | nil =>
                  rw [List.append_nil] at hs
                  exact hfinish (List.cons.inj hr).2.symm rfl hs.symm
              | cons d s =>
                  obtain ⟨rfl, -⟩ := List.cons.inj hr
                  exact absurd (hs ▸ by simp) hqopen
            · cases s with
              | nil =>
                  rw [List.append_nil] at hs
                  exact hfinish (List.cons.inj hr).2 rfl hs
              | cons d s =>
                  obtain ⟨rfl, hz''⟩ := List.cons.inj hr
                  have hsplit : z = (s ++ '<' :: w) ++ y := by
                    rw [hz'']
                    simp
                  exact absurd (h.eq_of_append hz hsplit).1 (by simp)
          · exact absurd hrest (h.not_closed_accessLines hclose hz' (by decide))

end Iris

/-! ## The term that names the owner -/

/-- What the address of a pod holds when the WebID can be read back. -/
structure Quotable (http : Bool) (x : Str) : Prop where
  closed : http = true → '>' ∉ x
  word : http = false → (∀ c ∈ x, endsToken c = false) ∧ ∀ c ∈ x.head?, c ≠ '<' ∧ c ≠ '"'

theorem MeansOwner.ownerAt {x z tok y : Str} {n : ℕ} {http : Bool} (h : MeansOwner x n tok y)
    (hx : IsPodAddress x) (hz : z.Sublist x) {k l : Str} (hkl : Rests http n k l) {a : Str}
    (htok : TokenAt (indexLines (opening http) z k l) a tok) :
    OwnerAt http x z n k l a tok ∧ Quotable http x := by
  cases htok with
  | @iri b htext hclose =>
      obtain ⟨rfl, hx', hat⟩ := h.ownerAt_of_iri hz hkl htext hclose
      exact ⟨hat, fun _ => hx', by simp⟩
  | @bare b htext hchars hstart hbefore =>
      obtain ⟨rfl, hat⟩ := h.ownerAt_of_bare (h.ne_nil hx) hz hkl htext hchars hstart hbefore
      refine ⟨hat, by simp, fun _ => ⟨fun c hc => hchars c ?_, fun c hc => hstart c ?_⟩⟩
      · rw [hat.token]
        exact List.mem_append_left _ hc
      · rw [hat.token]
        exact List.mem_head?_append_of_mem_head? hc

theorem exists_ended_indexText (http : Bool) (n : ℕ) (x : Str) :
    ∃ ls, (∀ l ∈ ls, '\n' ∉ l) ∧ indexText http n x = ended ls := by
  have hmodes : publicModes = "    acl:mode acl:Read .\n" ++ ['\n'] := by decide
  obtain ⟨ls, hls, hended⟩ := exists_ended (ownerIntro ++ (opening http ++ (x ++
    (ownerRest http n ++ '\n' :: (accessIntro ++ (opening http ++ (x ++ (indexRest http ++
      '\n' :: (publicIntro ++ (opening http ++ (x ++ (indexRest http ++
        '\n' :: "    acl:mode acl:Read .\n"))))))))))))
  refine ⟨ls, hls, ?_⟩
  rw [← hended, indexText, indexLines, hmodes]
  simp

/-- Where a term means the owner nothing has come between: the text behind the header is
read as it was written, with the prefixes of the header, and the term is the WebID. -/
theorem owner_of_tokenAt {x : Str} (hx : IsPodAddress x) {http : Bool} {n : ℕ} {a tok : Str}
    {st : Prefixes × Str}
    (hst : st = readPrefixes (stripTurtleComments (ended headerLines ++ indexText http n x)))
    (htok : TokenAt st.2 a tok) (h : expandCurieOrIri st.1 tok = x ++ ownerTail n) :
    st = (headerPrefixes, indexText http n x) ∧ a = ownerIntro ∧ tok = x ++ ownerTail n ∧
      Quotable http x := by
  have hlong : 2 ≤ x.length := le_trans (by decide) hx.pods.length_le
  have hread : ReadLines st := hst ▸ readLines_readPrefixes _
  have hfree := directiveFree_of_expandCurieOrIri hread htok h hlong
  obtain ⟨ls, hls, hended⟩ := exists_ended_indexText http n x
  have hbody : st = (headerPrefixes, cleaned (indexText http n x)) := by
    have hall : ended headerLines ++ ended ls = ended (headerLines ++ ls) := by simp [ended]
    rw [hst, hended, hall]
    refine readPrefixes_of_directiveFree hls ?_
    rw [← hended]
    exact directiveFree_indexText http n hfree
  obtain ⟨z, hz, k, l, hkl, hclean⟩ : ∃ z, z.Sublist x ∧ ∃ k l, Rests http n k l ∧
      cleaned (indexText http n x) = indexLines (opening http) z k l := by
    obtain ⟨z, hz, hwhole | hdocument | hended⟩ := exists_cleaned_indexText http n x
    · exact ⟨z, hz, _, _, .whole, hwhole⟩
    · exact ⟨z, hz, _, _, .document, hdocument⟩
    · exact ⟨z, hz, _, _, .ended, hended⟩
  rw [hclean] at hbody
  rw [hbody] at htok h
  obtain ⟨y, hy⟩ := exists_meansOwner hx h
  obtain ⟨⟨⟨rfl, rfl⟩, rfl, rfl, rfl⟩, hquotable⟩ := hy.ownerAt hx hz hkl htok
  exact ⟨hbody, rfl, rfl, hquotable⟩

end Provision

end SolidPod
