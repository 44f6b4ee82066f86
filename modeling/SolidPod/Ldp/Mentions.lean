import SolidPod.Foundation.Occurrence
import SolidPod.Ldp.Graph

/-!
# What a document mentions

A text without blanks, quotes and brackets occurs in the N-Triples form of a graph exactly when
it occurs in a single term of it: in an IRI, a blank label, the value of a literal, or its
language or datatype.
-/

namespace SolidPod

namespace Ldp

open Foundation Str

def separators : Str := " \n\r\t<>\"\\@^_"

/-- The characters of a literal that are written as two. -/
def escaped : List Char := ['\\', '"', '\n', '\r', '\t']

/-- An occurrence of the text does not reach over the end of a term, and does not start inside
of an escape. -/
structure Searchable (p : Str) : Prop where
  ne_nil : p ≠ []
  plain : ∀ c ∈ p, c ∉ separators
  head : ∀ c ∈ p.head?, c ∉ (":.nrt" : Str)

def Term.Mentions (p : Str) : Term → Prop
  | .iri i => p <:+: i
  | .blankNode b => p <:+: b
  | .literal v _ (some lang) => p <:+: v ∨ p <:+: lang
  | .literal v (some dt) none => p <:+: v ∨ p <:+: dt
  | .literal v none none => p <:+: v

def Triple.Mentions (p : Str) (t : Triple) : Prop :=
  t.subject.Mentions p ∨ t.predicate.Mentions p ∨ t.object.Mentions p

def Mentions (p : Str) (g : Graph) : Prop := ∃ t ∈ g, t.Mentions p

section Searchable

variable {p : Str} (hp : Searchable p)

include hp

theorem Searchable.notMem {c : Char} (hc : c ∈ separators) : c ∉ p :=
  fun h => hp.plain c h hc

theorem Searchable.head?_ne {c : Char} (hc : c ∈ (":.nrt" : Str)) : p.head? ≠ some c :=
  fun h => hp.head c h hc

theorem infix_escape_iff (v : Str) : p <:+: v.flatMap escapeChar ↔ p <:+: v := by
  have hplain (c : Char) (hc : c ∉ escaped) : escapeChar c = [c] := by
    simp only [escaped, List.mem_cons, List.not_mem_nil, or_false, not_or] at hc
    simp only [escapeChar, hc, if_false]
  have hspecial (c : Char) (hc : c ∈ escaped) :
      ∃ e, escapeChar c = '\\' :: e ∧ ∀ d ∈ e, p.head? ≠ some d := by
    simp only [escaped, List.mem_cons, List.not_mem_nil, or_false] at hc
    have hmem : ∀ d ∈ separators, p.head? ≠ some d :=
      fun d hd h => hp.notMem hd (List.mem_of_mem_head? h)
    rcases hc with rfl | rfl | rfl | rfl | rfl
    · exact ⟨['\\'], rfl, List.forall_mem_singleton.mpr (hmem _ (by decide))⟩
    · exact ⟨['"'], rfl, List.forall_mem_singleton.mpr (hmem _ (by decide))⟩
    · exact ⟨['n'], rfl, List.forall_mem_singleton.mpr (hp.head?_ne (by decide))⟩
    · exact ⟨['r'], rfl, List.forall_mem_singleton.mpr (hp.head?_ne (by decide))⟩
    · exact ⟨['t'], rfl, List.forall_mem_singleton.mpr (hp.head?_ne (by decide))⟩
  apply infix_flatMap_escape_iff hplain hspecial hp.ne_nil (hp.notMem (by decide))
  intro c hc hmem
  have hsub : ∀ c ∈ escaped, c ∈ separators := by decide
  exact hp.plain c hc (hsub c hmem)

theorem infix_literalSuffix_iff (v : Str) (datatype language : Option Str) :
    p <:+: v ∨ p <:+: literalSuffix datatype language ↔
      (Term.literal v datatype language).Mentions p := by
  cases language with
  | some lang =>
      rw [literalSuffix, infix_cons_iff_of_notMem hp.ne_nil (hp.notMem (by decide))]
      rfl
  | none =>
      cases datatype with
      | some dt =>
          change _ ∨ p <:+: '^' :: '^' :: '<' :: (dt ++ '>' :: []) ↔ _
          rw [infix_cons_iff_of_notMem hp.ne_nil (hp.notMem (by decide)),
            infix_cons_iff_of_notMem hp.ne_nil (hp.notMem (by decide)),
            infix_cons_iff_of_notMem hp.ne_nil (hp.notMem (by decide)),
            infix_append_cons_iff hp.ne_nil (hp.notMem (by decide))]
          simp [not_infix_nil hp.ne_nil, Term.Mentions]
      | none => simp [literalSuffix, not_infix_nil hp.ne_nil, Term.Mentions]

theorem Term.infix_writeNtriples_iff (t : Term) : p <:+: t.writeNtriples ↔ t.Mentions p := by
  cases t with
  | iri i =>
      rw [Term.writeNtriples, List.cons_append,
        infix_cons_iff_of_notMem hp.ne_nil (hp.notMem (by decide)),
        infix_append_cons_iff hp.ne_nil (hp.notMem (by decide))]
      simp [not_infix_nil hp.ne_nil, Term.Mentions]
  | blankNode b =>
      change p <:+: '_' :: ':' :: b ↔ _
      rw [infix_cons_iff_of_notMem hp.ne_nil (hp.notMem (by decide)),
        infix_cons_iff_of_head hp.ne_nil (hp.head?_ne (by decide))]
      rfl
  | literal v datatype language =>
      rw [Term.writeNtriples, List.cons_append,
        infix_cons_iff_of_notMem hp.ne_nil (hp.notMem (by decide)),
        infix_append_cons_iff hp.ne_nil (hp.notMem (by decide)), infix_escape_iff hp,
        infix_literalSuffix_iff hp]

theorem Triple.infix_writeNtriples_iff (t : Triple) :
    p <:+: t.writeNtriples ↔ t.Mentions p := by
  have hspace : ' ' ∉ p := hp.notMem (by decide)
  have hdot : ¬ p <:+: ['.'] := by
    rw [infix_cons_iff_of_head hp.ne_nil (hp.head?_ne (by decide))]
    exact not_infix_nil hp.ne_nil
  change p <:+: t.subject.writeNtriples ++ ' ' :: t.predicate.writeNtriples ++
    ' ' :: t.object.writeNtriples ++ ' ' :: ['.'] ↔ _
  rw [infix_append_cons_iff hp.ne_nil hspace, infix_append_cons_iff hp.ne_nil hspace,
    infix_append_cons_iff hp.ne_nil hspace, Term.infix_writeNtriples_iff hp,
    Term.infix_writeNtriples_iff hp, Term.infix_writeNtriples_iff hp]
  simp [hdot, Triple.Mentions, or_assoc]

/-- A text occurs in the document of a graph exactly when a term of the graph mentions it. -/
theorem containsStr_toNtriples_iff (g : Graph) :
    containsStr p (toNtriples g) = true ↔ Mentions p g := by
  rw [containsStr_iff, toNtriples,
    infix_flatMap_lines_iff hp.ne_nil (hp.notMem (by decide))]
  constructor
  · intro ⟨t, ht, h⟩
    exact ⟨t, ht, (t.infix_writeNtriples_iff hp).mp h⟩
  · intro ⟨t, ht, h⟩
    exact ⟨t, ht, (t.infix_writeNtriples_iff hp).mpr h⟩

end Searchable

end Ldp

end SolidPod
