import SolidPod.Foundation.Pieces
import SolidPod.Wac.RoundTrip

/-!
# Where the ids of a parsed rule stand in the text

Every id of a rule that the parser returns was popped as a term from an object
list of the rule's statement. A term is the text between `<` and `>`, or a word
that starts neither like an IRI nor like a string and does not follow a `<`.
-/

namespace SolidPod

namespace Wac

open Foundation Str

/-- The term `tok` stands in `t` behind `a`. -/
inductive TokenAt (t a tok : Str) : Prop
  | iri {b : Str} (htext : t = a ++ '<' :: tok ++ '>' :: b) (hclose : '>' ∉ tok)
  | bare {b : Str} (htext : t = a ++ tok ++ b) (hchars : ∀ c ∈ tok, endsToken c = false)
      (hstart : ∀ c ∈ tok.head?, c ≠ '<' ∧ c ≠ '"')
      (hbefore : tok ≠ [] → ∃ c ∈ a.getLast?, c ≠ '<')

theorem TokenAt.extend {t a tok : Str} (h : TokenAt t a tok) (x y : Str) :
    TokenAt (x ++ t ++ y) (x ++ a) tok := by
  cases h with
  | @iri b htext hclose => exact .iri (b := b ++ y) (by simp [htext]) hclose
  | @bare b htext hchars hstart hbefore =>
      refine .bare (b := b ++ y) (by simp [htext]) hchars hstart ?_
      intro htok
      obtain ⟨c, hc, hne⟩ := hbefore htok
      exact ⟨c, List.mem_getLast?_append_of_mem_getLast? hc, hne⟩

/-- What a term leaves behind it. -/
theorem turtlePopTerm_spec {t tok rest : Str} (h : turtlePopTerm t = some (tok, rest)) :
    ∃ w, (∀ c ∈ w, isWhitespace c = true) ∧
      ((t = w ++ '<' :: tok ++ '>' :: rest ∧ '>' ∉ tok) ∨
        (t = w ++ tok ++ rest ∧ (∀ c ∈ tok, endsToken c = false) ∧
          (∀ c ∈ tok.head?, c ≠ '<' ∧ c ≠ '"') ∧ ∀ c ∈ rest.head?, endsToken c = true)) := by
  have hsplit : t = t.takeWhile isWhitespace ++ trimStart t :=
    (List.takeWhile_append_dropWhile).symm
  refine ⟨t.takeWhile isWhitespace, fun c hc => List.mem_takeWhile_imp hc, ?_⟩
  rw [turtlePopTerm] at h
  split at h
  · rename_i afterOpen hopen
    obtain ⟨hafter, hclose⟩ := eq_append_of_splitOnce h
    have htrim := stripPrefix_eq_some.mp hopen
    refine Or.inl ⟨?_, hclose⟩
    rw [hafter, List.singleton_append] at htrim
    rw [List.append_assoc, List.cons_append, ← htrim]
    exact hsplit
  · rename_i hopen
    split at h
    · cases h
    · rename_i hquote
      obtain ⟨rfl, rfl⟩ := Prod.mk.inj (Option.some.inj h)
      refine Or.inr ⟨?_, ?_, ?_, ?_⟩
      · rw [List.append_assoc, List.takeWhile_append_dropWhile]
        exact hsplit
      · intro c hc
        simpa using List.mem_takeWhile_imp hc
      · intro c hc
        have hhead : (trimStart t).head? = some c := by
          cases ht : trimStart t with
          | nil =>
              rw [ht] at hc
              cases hc
          | cons d u =>
              rw [ht, List.takeWhile_cons] at hc
              split at hc
              · exact hc
              · cases hc
        cases ht : trimStart t with
        | nil =>
            rw [ht] at hhead
            cases hhead
        | cons d u =>
            rw [ht] at hhead hopen hquote
            cases hhead
            rw [stripPrefix_singleton_cons] at hopen
            refine ⟨?_, ?_⟩
            · rintro rfl
              simp at hopen
            · rintro rfl
              simp [startsWith, List.isPrefixOf] at hquote
      · intro c hc
        have hlast := List.head?_dropWhile_not (p := (!endsToken ·)) (trimStart t)
        rw [Option.mem_def.mp hc] at hlast
        simpa using hlast

/-! ## The objects of a pair -/

/-- The text that is left when an object list is read: it stands in `t` behind a
text that does not end in `<`, or no word stands at its start. -/
def LeftToRead (t rem : Str) : Prop :=
  ∃ a b, t = a ++ rem ++ b ∧
    ((∃ c ∈ a.getLast?, c ≠ '<') ∨ ∀ c ∈ rem.head?, endsToken c = true)

theorem endsToken_of_isWhitespace {c : Char} (h : isWhitespace c = true) : endsToken c = true := by
  simp [endsToken, h]

theorem isWhitespace_of_not_endsToken {c : Char} (h : endsToken c = false) :
    isWhitespace c = false := by
  simp only [endsToken, Bool.or_eq_false_iff] at h
  exact h.1.1.1.1

/-- White space does not end in `<`. -/
theorem exists_getLast?_of_blank {w : Str} (hw : ∀ c ∈ w, isWhitespace c = true) (hne : w ≠ [])
    (a : Str) : ∃ c ∈ (a ++ w).getLast?, c ≠ '<' := by
  refine ⟨w.getLast hne, ?_, ?_⟩
  · refine List.mem_getLast?_append_of_mem_getLast? ?_
    rw [Option.mem_def, List.getLast?_eq_some_getLast hne]
  · intro heq
    have hlast := hw _ (List.getLast_mem hne)
    rw [heq] at hlast
    exact absurd hlast (by decide)

/-- The term that is popped where reading goes on. -/
theorem LeftToRead.tokenAt {t rem tok rest : Str} (h : LeftToRead t rem)
    (hpop : turtlePopTerm rem = some (tok, rest)) : ∃ a, TokenAt t a tok := by
  obtain ⟨a, b, rfl, hbefore⟩ := h
  obtain ⟨w, hw, ⟨rfl, hclose⟩ | ⟨rfl, hchars, hstart, -⟩⟩ := turtlePopTerm_spec hpop
  · exact ⟨a ++ w, .iri (b := rest ++ b) (by simp) hclose⟩
  · refine ⟨a ++ w, .bare (b := rest ++ b) (by simp) hchars hstart ?_⟩
    intro htok
    by_cases hne : w = []
    · subst hne
      rw [List.append_nil]
      rcases hbefore with hbefore | hhead
      · exact hbefore
      · cases tok with
        | nil => exact absurd rfl htok
        | cons c tok =>
            have hc := hhead c (by simp)
            rw [hchars c (by simp)] at hc
            cases hc
    · exact exists_getLast?_of_blank hw hne a

/-- Behind a comma reading goes on. -/
theorem LeftToRead.afterComma {t rem tok rest more : Str} (h : LeftToRead t rem)
    (hpop : turtlePopTerm rem = some (tok, rest)) (hmore : afterComma rest = some more) :
    LeftToRead t more := by
  obtain ⟨a, b, rfl, -⟩ := h
  obtain ⟨p, hp⟩ := suffix_of_turtlePopTerm hpop
  obtain ⟨q, hq⟩ : trimStart rest <:+ rest := List.dropWhile_suffix _
  rw [stripPrefix_eq_some.mp hmore] at hq
  refine ⟨a ++ p ++ q ++ [','], b, ?_, Or.inl ⟨',', by simp, by decide⟩⟩
  rw [← hp, ← hq]
  simp

theorem LeftToRead.trimStart {t rem : Str} (h : LeftToRead t rem) :
    LeftToRead t (trimStart rem) := by
  obtain ⟨a, b, rfl, hbefore⟩ := h
  have hsplit : rem = rem.takeWhile isWhitespace ++ Str.trimStart rem :=
    (List.takeWhile_append_dropWhile).symm
  have hw : ∀ c ∈ rem.takeWhile isWhitespace, isWhitespace c = true :=
    fun c hc => List.mem_takeWhile_imp hc
  refine ⟨a ++ rem.takeWhile isWhitespace, b, ?_, ?_⟩
  · rw [List.append_assoc a _ (Str.trimStart rem), ← hsplit]
  · by_cases hne : rem.takeWhile isWhitespace = []
    · rw [hne, List.nil_append] at hsplit
      rw [hne, List.append_nil, ← hsplit]
      exact hbefore
    · exact Or.inl (exists_getLast?_of_blank hw hne a)

theorem LeftToRead.trimEnd {t rem : Str} (h : LeftToRead t rem) : LeftToRead t (trimEnd rem) := by
  obtain ⟨a, b, rfl, hbefore⟩ := h
  obtain ⟨w, -, hw⟩ := exists_trimEnd_append rem
  refine ⟨a, w ++ b, ?_, hbefore.imp id ?_⟩
  · conv_lhs => rw [hw]
    simp
  · intro hhead c hc
    refine hhead c ?_
    rw [hw]
    exact List.mem_head?_append_of_mem_head? hc

theorem LeftToRead.trim {t rem : Str} (h : LeftToRead t rem) : LeftToRead t (trim rem) :=
  h.trimStart.trimEnd

/-- An object of a list that is read from `t` is the meaning of a term of `t`. -/
theorem exists_tokenAt_of_mem_parseObjectList {prefixes : Prefixes} {t input o : Str}
    (h : LeftToRead t input) (ho : o ∈ parseObjectList prefixes input) :
    ∃ a tok, TokenAt t a tok ∧ o = expandCurieOrIri prefixes tok := by
  have hstep : ∀ rem o' more, LeftToRead t rem →
      nextObject prefixes rem = some (o', some more) → LeftToRead t more := by
    intro rem o' more hrem hnext
    rw [nextObject] at hnext
    simp only [] at hnext
    split at hnext
    · cases hnext
    · obtain ⟨⟨tok, rest⟩, hpop, heq⟩ := Option.map_eq_some_iff.mp hnext
      exact hrem.trimStart.afterComma hpop (Prod.mk.inj heq).2
  obtain ⟨rem, more, hrem, hnext⟩ := mem_consume hstep h.trim ho
  rw [nextObject] at hnext
  simp only [] at hnext
  split at hnext
  · cases hnext
  · obtain ⟨⟨tok, rest⟩, hpop, heq⟩ := Option.map_eq_some_iff.mp hnext
    obtain ⟨a, ha⟩ := hrem.trimStart.tokenAt hpop
    exact ⟨a, tok, ha, (Prod.mk.inj heq).1.symm⟩

/-! ## The pairs of a statement -/

/-- A pair states an object under a predicate of the ACL vocabulary. -/
def Asserts (prefixes : Prefixes) (pair name o : Str) : Prop :=
  ∃ pred rest, turtlePopTerm (trim pair) = some (pred, rest) ∧
    isAclTerm name (expandCurieOrIri prefixes pred) = true ∧
    o ∈ parseObjectList prefixes (trim rest)

theorem leftToRead_of_turtlePopTerm {t pred rest : Str}
    (h : turtlePopTerm t = some (pred, rest)) : LeftToRead t rest := by
  obtain ⟨w, hw, ⟨rfl, -⟩ | ⟨rfl, -, -, hrest⟩⟩ := turtlePopTerm_spec h
  · exact ⟨w ++ '<' :: pred ++ ['>'], [], by simp, Or.inl ⟨'>', List.getLast?_concat, by decide⟩⟩
  · exact ⟨w ++ pred, [], by simp, Or.inr hrest⟩

theorem Asserts.exists_tokenAt {prefixes : Prefixes} {pair name o : Str}
    (h : Asserts prefixes pair name o) :
    ∃ a tok, TokenAt pair a tok ∧ o = expandCurieOrIri prefixes tok := by
  obtain ⟨pred, rest, hpop, -, ho⟩ := h
  obtain ⟨a, tok, htok, rfl⟩ :=
    exists_tokenAt_of_mem_parseObjectList (leftToRead_of_turtlePopTerm hpop).trim ho
  obtain ⟨w, w', hpair, -, -⟩ := exists_trim_eq pair
  refine ⟨w ++ a, tok, ?_, rfl⟩
  rw [hpair]
  exact htok.extend w w'

/-- Setting a field leaves the others. -/
theorem mem_fields_set {name : Str} {set : AclAuthorization → Option IdOrIds → AclAuthorization}
    (hset : (name, set) ∈ aclFields) {auth : AclAuthorization} {ids : Option IdOrIds}
    {field : Str × Option IdOrIds} (hfield : field ∈ fields (set auth ids)) :
    field ∈ fields auth ∨ field = (name, ids) := by
  simp only [aclFields, List.mem_cons, List.not_mem_nil, or_false, Prod.mk.injEq] at hset
  rcases hset with ⟨rfl, rfl⟩ | ⟨rfl, rfl⟩ | ⟨rfl, rfl⟩ | ⟨rfl, rfl⟩ | ⟨rfl, rfl⟩ | ⟨rfl, rfl⟩ |
    ⟨rfl, rfl⟩
  all_goals
    simp only [fields, List.mem_cons, List.not_mem_nil, or_false] at hfield ⊢
    -- the names play no part in what follows
    generalize ("agent" : Str) = agent, ("agentClass" : Str) = agentClass,
      ("agentGroup" : Str) = agentGroup, ("origin" : Str) = origin,
      ("accessTo" : Str) = accessTo, ("default" : Str) = «default», ("mode" : Str) = mode
      at hfield ⊢
    rcases hfield with h | h | h | h | h | h | h <;> simp [h]

/-- Each field is as it was, or the pair states its ids. -/
def StatesFields (prefixes : Prefixes) (pair : Str) (auth : AclAuthorization)
    (st : AclAuthorization × Bool) : Prop :=
  ∀ field ∈ fields st.1, field ∈ fields auth ∨
    ∀ o ∈ getIds field.2, Asserts prefixes pair field.1 o

/-- A pair changes a field to the objects it states. -/
theorem states_of_authorizationPair {prefixes : Prefixes} {st st' : AclAuthorization × Bool}
    {pair : Str} (h : authorizationPair prefixes st pair = some st')
    {field : Str × Option IdOrIds} (hfield : field ∈ fields st'.1) :
    field ∈ fields st.1 ∨ ∀ o ∈ getIds field.2, Asserts prefixes pair field.1 o := by
  obtain ⟨auth, anyAuthz⟩ := st
  revert field
  change StatesFields prefixes pair auth st'
  have hkept : ∀ b, StatesFields prefixes pair auth (auth, b) := fun _ _ => Or.inl
  rw [authorizationPair] at h
  by_cases hblank : (trim pair).isEmpty = true
  · rw [if_pos hblank] at h
    cases h
    exact hkept anyAuthz
  · rw [if_neg hblank] at h
    obtain ⟨⟨pred, rest⟩, hpop, rfl⟩ := Option.map_eq_some_iff.mp h
    have hset {name set} (hmem : (name, set) ∈ aclFields)
        (hname : isAclTerm name (expandCurieOrIri prefixes pred) = true) :
        StatesFields prefixes pair auth
          (set auth (some (idsOf (parseObjectList prefixes (trim rest)))), anyAuthz) := by
      intro field hfield
      rcases mem_fields_set hmem hfield with hold | rfl
      · exact Or.inl hold
      · refine Or.inr fun o ho => ⟨pred, rest, hpop, hname, ?_⟩
        rwa [getIds_some_idsOf] at ho
    refine iteInduction (motive := StatesFields prefixes pair auth) (fun _ => hkept _) fun _ => ?_
    refine iteInduction (motive := StatesFields prefixes pair auth) (hset (.head _)) fun _ => ?_
    refine iteInduction (motive := StatesFields prefixes pair auth)
      (hset (.tail _ (.head _))) fun _ => ?_
    refine iteInduction (motive := StatesFields prefixes pair auth)
      (hset (.tail _ (.tail _ (.head _)))) fun _ => ?_
    refine iteInduction (motive := StatesFields prefixes pair auth)
      (hset (.tail _ (.tail _ (.tail _ (.head _))))) fun _ => ?_
    refine iteInduction (motive := StatesFields prefixes pair auth)
      (hset (.tail _ (.tail _ (.tail _ (.tail _ (.head _)))))) fun _ => ?_
    refine iteInduction (motive := StatesFields prefixes pair auth)
      (hset (.tail _ (.tail _ (.tail _ (.tail _ (.tail _ (.head _))))))) fun _ => ?_
    refine iteInduction (motive := StatesFields prefixes pair auth)
      (hset (.tail _ (.tail _ (.tail _ (.tail _ (.tail _ (.tail _ (.head _)))))))) fun _ => ?_
    exact iteInduction (motive := StatesFields prefixes pair auth) (fun _ _ => Or.inl)
      fun _ => hkept _

/-- Every id of a rule is stated by one of its pairs. -/
theorem states_of_foldlM {prefixes : Prefixes} {pairs : List Str}
    {st st' : AclAuthorization × Bool}
    (h : pairs.foldlM (authorizationPair prefixes) st = some st')
    {field : Str × Option IdOrIds} (hfield : field ∈ fields st'.1) :
    field ∈ fields st.1 ∨
      ∀ o ∈ getIds field.2, ∃ pair ∈ pairs, Asserts prefixes pair field.1 o := by
  induction pairs generalizing st with
  | nil =>
      cases h
      exact Or.inl hfield
  | cons pair pairs ih =>
      rw [List.foldlM_cons] at h
      obtain ⟨mid, hmid, hrest⟩ := Option.bind_eq_some_iff.mp h
      rcases ih hrest with hold | hnew
      · rcases states_of_authorizationPair hmid hold with hold | hnew
        · exact Or.inl hold
        · exact Or.inr fun o ho => ⟨pair, by simp, hnew o ho⟩
      · refine Or.inr fun o ho => ?_
        obtain ⟨p, hp, hstates⟩ := hnew o ho
        exact ⟨p, by simp [hp], hstates⟩

/-- The subject of a statement, and the list of its pairs. -/
theorem states_of_parseTurtleAuthorization {prefixes : Prefixes} {stmt : Str}
    {auth : AclAuthorization} (h : parseTurtleAuthorization prefixes stmt = some auth) :
    ∃ subject body, turtlePopTerm (trim stmt) = some (subject, body) ∧
      ∀ field ∈ fields auth, ∀ o ∈ getIds field.2,
        ∃ pair ∈ splitPredicateList body, Asserts prefixes pair field.1 o := by
  rw [parseTurtleAuthorization] at h
  split at h
  · cases h
  · split at h
    · cases h
    · rename_i subject body hpop
      refine ⟨subject, body, hpop, ?_⟩
      split at h
      · cases h
      · rename_i auth' anyAuthz hfold
        split at h
        · cases h
          intro field hfield
          rcases states_of_foldlM hfold hfield with hempty | hstates
          · intro o ho
            have hnone : field.2 = none := by
              simp only [fields, AclAuthorization.empty, List.mem_cons, List.not_mem_nil,
                or_false] at hempty
              rcases hempty with rfl | rfl | rfl | rfl | rfl | rfl | rfl <;> rfl
            rw [hnone] at ho
            cases ho
          · exact hstates
        · cases h

end Wac

end SolidPod
