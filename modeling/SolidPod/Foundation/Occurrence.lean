import SolidPod.Foundation.Text

/-!
# Occurrences across separators

Where a text can occur in a longer one that is put together from parts. A part that is not in
the text separates: the text occurs on one side of it or on the other.
-/

namespace Foundation

namespace Str

variable {α : Type*} {p a b : List α} {c : α}

theorem not_infix_nil (hp : p ≠ []) : ¬ p <:+: [] := fun h => hp (List.infix_nil.mp h)

theorem infix_cons_iff_of_head (hp : p ≠ []) (hc : p.head? ≠ some c) :
    p <:+: c :: b ↔ p <:+: b := by
  rw [List.infix_cons_iff]
  constructor
  · intro h
    cases h with
    | inl hstart =>
        cases p with
        | nil => exact absurd rfl hp
        | cons d p =>
            rw [List.cons_prefix_cons] at hstart
            rw [hstart.1] at hc
            exact absurd rfl hc
    | inr h => exact h
  · exact Or.inr

/-- An occurrence starts behind a text that its first character is not in. -/
theorem infix_append_iff_of_head (hp : p ≠ []) (ha : ∀ c ∈ a, p.head? ≠ some c) :
    p <:+: a ++ b ↔ p <:+: b := by
  induction a with
  | nil => rfl
  | cons c a ih =>
      rw [List.forall_mem_cons] at ha
      rw [List.cons_append, infix_cons_iff_of_head hp ha.1, ih ha.2]

/-- An occurrence ends before a text that its last character is not in. -/
theorem infix_append_iff_of_last (hp : p ≠ []) (hb : ∀ c ∈ b, p.getLast? ≠ some c) :
    p <:+: a ++ b ↔ p <:+: a := by
  have hrev : p.reverse <:+: (a ++ b).reverse ↔ p.reverse <:+: a.reverse := by
    rw [List.reverse_append]
    refine infix_append_iff_of_head (by simpa using hp) fun c hc => ?_
    rw [List.head?_reverse]
    exact hb c (List.mem_reverse.mp hc)
  rwa [List.reverse_infix, List.reverse_infix] at hrev

theorem infix_cons_iff_of_notMem (hp : p ≠ []) (hc : c ∉ p) : p <:+: c :: b ↔ p <:+: b := by
  apply infix_cons_iff_of_head hp
  intro hhead
  exact hc (List.mem_of_mem_head? hhead)

theorem prefix_append_cons_iff (hc : c ∉ p) : p <+: a ++ c :: b ↔ p <+: a := by
  induction a generalizing p with
  | nil =>
      cases p with
      | nil => simp
      | cons d p =>
          have hd : ¬ d = c := fun h => hc (h ▸ List.mem_cons_self)
          simp [List.cons_prefix_cons, hd]
  | cons e a ih =>
      cases p with
      | nil => simp
      | cons d p =>
          rw [List.cons_append, List.cons_prefix_cons, List.cons_prefix_cons,
            ih fun h => hc (List.mem_cons_of_mem d h)]

/-- A character that is not in `p` separates its occurrences. -/
theorem infix_append_cons_iff (hp : p ≠ []) (hc : c ∉ p) :
    p <:+: a ++ c :: b ↔ p <:+: a ∨ p <:+: b := by
  induction a with
  | nil =>
      rw [List.nil_append, infix_cons_iff_of_notMem hp hc]
      simp [not_infix_nil hp]
  | cons d a ih =>
      rw [List.cons_append, List.infix_cons_iff, ih, List.infix_cons_iff, ← List.cons_append,
        prefix_append_cons_iff hc, or_assoc]

/-- Characters of `a` that are not in `p` have no part in its occurrences. -/
theorem infix_of_infix_append_left (hp : p ≠ []) (ha : ∀ c ∈ a, c ∉ p) (h : p <:+: a ++ b) :
    p <:+: b := by
  induction a with
  | nil => exact h
  | cons c a ih =>
      rw [List.forall_mem_cons] at ha
      rw [List.cons_append, infix_cons_iff_of_notMem hp ha.1] at h
      exact ih ha.2 h

theorem infix_of_infix_append_right (hp : p ≠ []) (hb : ∀ c ∈ b, c ∉ p) (h : p <:+: a ++ b) :
    p <:+: a := by
  cases b with
  | nil => rwa [List.append_nil] at h
  | cons c b =>
      rw [List.forall_mem_cons] at hb
      rw [infix_append_cons_iff hp hb.1] at h
      refine h.resolve_right fun hright => not_infix_nil hp ?_
      refine infix_of_infix_append_left hp hb.2 ?_
      rwa [List.append_nil]

/-- A text without characters of `p` separates its occurrences. -/
theorem infix_append_append_iff {sep : List α} (hp : p ≠ []) (hne : sep ≠ [])
    (hsep : ∀ c ∈ sep, c ∉ p) : p <:+: a ++ (sep ++ b) ↔ p <:+: a ∨ p <:+: b := by
  obtain ⟨c, sep, rfl⟩ := List.exists_cons_of_ne_nil hne
  rw [List.forall_mem_cons] at hsep
  rw [List.cons_append, infix_append_cons_iff hp hsep.1]
  refine or_congr_right ⟨infix_of_infix_append_left hp hsep.2, ?_⟩
  exact fun h => h.trans (List.suffix_append _ _).isInfix

theorem infix_join_iff {p sep : Str} (hp : p ≠ []) (hne : sep ≠ []) (hsep : ∀ c ∈ sep, c ∉ p)
    (l : List Str) : p <:+: join sep l ↔ ∃ x ∈ l, p <:+: x := by
  have hrest : ∀ (a : Str) (l : List Str),
      p <:+: a ++ l.flatMap (fun b => sep ++ b) ↔ p <:+: a ∨ ∃ x ∈ l, p <:+: x := by
    intro a l
    induction l generalizing a with
    | nil => simp
    | cons b l ih =>
        rw [List.flatMap_cons, List.append_assoc, infix_append_append_iff hp hne hsep, ih]
        simp
  cases l with
  | nil => simp [not_infix_nil hp]
  | cons a l =>
      rw [join_cons, hrest]
      simp

/-- An occurrence in lines is one in a line. -/
theorem infix_flatMap_lines_iff {ι : Type*} (hp : p ≠ []) (hc : c ∉ p) (l : List ι)
    (f : ι → List α) : p <:+: l.flatMap (fun x => f x ++ [c]) ↔ ∃ x ∈ l, p <:+: f x := by
  induction l with
  | nil => simp [not_infix_nil hp]
  | cons x l ih =>
      rw [List.flatMap_cons, List.append_assoc, List.singleton_append,
        infix_append_cons_iff hp hc, ih]
      simp

section Escape

variable {p : Str} {escape : Char → Str} {special : Char → Prop}
  (hplain : ∀ c, ¬ special c → escape c = [c])
  (hspecial : ∀ c, special c → ∃ e, escape c = '\\' :: e ∧ ∀ d ∈ e, p.head? ≠ some d)

include hplain hspecial

theorem prefix_flatMap_escape_iff {q : Str} (hslash : '\\' ∉ q) (hchars : ∀ c ∈ q, ¬ special c)
    (v : Str) : q <+: v.flatMap escape ↔ q <+: v := by
  induction v generalizing q with
  | nil => simp
  | cons c v ih =>
      cases q with
      | nil => simp
      | cons d q =>
          rw [List.flatMap_cons, List.cons_prefix_cons]
          by_cases hc : special c
          · obtain ⟨e, he, -⟩ := hspecial c hc
            have hd : ¬ d = '\\' := fun h => hslash (h ▸ List.mem_cons_self)
            have hdc : ¬ d = c := fun h => hchars d List.mem_cons_self (h ▸ hc)
            rw [he]
            simp [List.cons_prefix_cons, hd, hdc]
          · rw [hplain c hc, List.singleton_append, List.cons_prefix_cons,
              ih (fun h => hslash (List.mem_cons_of_mem d h))
                fun e he => hchars e (List.mem_cons_of_mem d he)]

/-- A text without special characters that does not start like an escaped one occurs in an
escaped text where it occurs in the text itself. -/
theorem infix_flatMap_escape_iff (hp : p ≠ []) (hslash : '\\' ∉ p)
    (hchars : ∀ c ∈ p, ¬ special c) (v : Str) : p <:+: v.flatMap escape ↔ p <:+: v := by
  induction v with
  | nil => simp
  | cons c v ih =>
      by_cases hc : special c
      · obtain ⟨e, he, hhead⟩ := hspecial c hc
        have hmem : c ∉ p := fun h => hchars c h hc
        rw [List.flatMap_cons, he, infix_cons_iff_of_notMem hp hmem, List.cons_append,
          infix_cons_iff_of_notMem hp hslash, infix_append_iff_of_head hp hhead, ih]
      · have hstart := prefix_flatMap_escape_iff hplain hspecial hslash hchars (c :: v)
        rw [List.flatMap_cons, hplain c hc, List.singleton_append] at hstart ⊢
        rw [List.infix_cons_iff, List.infix_cons_iff, ih, hstart]

end Escape

end Str

end Foundation
