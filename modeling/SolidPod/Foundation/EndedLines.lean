import SolidPod.Foundation.Occurrence

/-!
# Lines that are ended by a mark

Lines are written one after the other, each with a mark behind it, and a blank line
comes last. When the lines are not empty and the mark starts with something that is
neither in a line nor in the rest of the mark, the first two marks in a row are those
of the blank line. A reader that cuts at every part of a mark, and for which an empty
line does nothing, reads the lines.
-/

namespace Foundation

namespace EndedLines

open Str

variable {α : Type*}

/-- The lines, each with the mark behind it. -/
def ended (mark : List α) (ls : List (List α)) : List α := ls.flatMap fun l => l ++ mark

/-- The lines with the mark between them, from the first one on. -/
def joined (mark l : List α) (ls : List (List α)) : List α := l ++ ls.flatMap fun b => mark ++ b

theorem ended_cons (mark l : List α) (ls : List (List α)) :
    ended mark (l :: ls) = joined mark l ls ++ mark := by
  induction ls generalizing l with
  | nil => simp [ended, joined]
  | cons b ls ih =>
      have hrest := ih b
      simp only [ended, joined, List.flatMap_cons, List.append_assoc] at hrest ⊢
      rw [hrest]

section BlankLine

variable {c : α} {t : List α} {ls : List (List α)}

/-- Before the blank line no two marks stand in a row. -/
theorem not_infix_ended (ht : c ∉ t) (hls : ∀ l ∈ ls, l ≠ [] ∧ c ∉ l) :
    ¬ (c :: t) ++ (c :: t) <:+: ended (c :: t) ls ++ (c :: t).dropLast := by
  have hne : (c :: t) ++ (c :: t) ≠ [] := List.cons_ne_nil _ _
  induction ls with
  | nil =>
      intro h
      have hlength := h.length_le
      simp only [ended, List.flatMap_nil, List.nil_append, List.length_append,
        List.length_dropLast, List.length_cons] at hlength
      omega
  | cons l ls ih =>
      rw [List.forall_mem_cons] at hls
      obtain ⟨⟨-, hl⟩, hrest⟩ := hls
      intro h
      have hsplit : ended (c :: t) (l :: ls) ++ (c :: t).dropLast =
          l ++ (c :: (t ++ (ended (c :: t) ls ++ (c :: t).dropLast))) := by
        simp [ended]
      rw [hsplit, infix_append_iff_of_head hne, List.infix_cons_iff] at h
      · cases h with
        | inl hstart =>
            -- The second mark would start what comes behind the first.
            have hmark : c :: t <+: ended (c :: t) ls ++ (c :: t).dropLast := by
              rwa [← List.cons_append, List.prefix_append_right_inj] at hstart
            cases ls with
            | nil =>
                have hlength := hmark.length_le
                simp only [ended, List.flatMap_nil, List.nil_append, List.length_dropLast,
                  List.length_cons] at hlength
                omega
            | cons b ls =>
                obtain ⟨hb, hcb⟩ := hrest b List.mem_cons_self
                obtain ⟨d, b, rfl⟩ := List.exists_cons_of_ne_nil hb
                have hfirst : c = d := by
                  simp only [ended, List.flatMap_cons, List.cons_append,
                    List.cons_prefix_cons] at hmark
                  exact hmark.1
                exact hcb (hfirst ▸ List.mem_cons_self)
        | inr hinner =>
            rw [infix_append_iff_of_head hne] at hinner
            · exact ih hrest hinner
            · intro d hd hhead
              cases hhead
              exact ht hd
      · intro d hd hhead
        cases hhead
        exact hl hd

/-- The first two marks in a row are the last mark and the blank line. -/
theorem not_infix_joined (ht : c ∉ t) {l : List α} (hls : ∀ b ∈ l :: ls, b ≠ [] ∧ c ∉ b) :
    ¬ (c :: t) ++ (c :: t) <:+:
      joined (c :: t) l ls ++ ((c :: t) ++ (c :: t)).dropLast := by
  have hnot := not_infix_ended ht hls
  rw [ended_cons, List.append_assoc] at hnot
  rwa [List.dropLast_append_of_ne_nil (List.cons_ne_nil c t)]

end BlankLine

section Reading

variable {β : Type*} {p : α → Bool} {f : β → List α → β} (hblank : ∀ s, f s [] = s)

include hblank

/-- What is cut at every place only makes empty lines. -/
theorem foldl_splitOnP_append {mark : List α} (hmark : ∀ c ∈ mark, p c = true) (s : β)
    (r : List α) : ((mark ++ r).splitOnP p).foldl f s = (r.splitOnP p).foldl f s := by
  induction mark with
  | nil => rfl
  | cons c mark ih =>
      rw [List.forall_mem_cons] at hmark
      rw [List.cons_append, List.splitOnP_cons_eq_if_modifyHead, if_pos hmark.1,
        List.foldl_cons, hblank, ih hmark.2]

/-- The reader reads the lines, and nothing else. -/
theorem foldl_splitOnP_joined {mark : List α} (hne : mark ≠ []) (hmark : ∀ c ∈ mark, p c = true)
    {l : List α} {ls : List (List α)} (hls : ∀ b ∈ l :: ls, ∀ c ∈ b, p c = false) (s : β) :
    ((joined mark l ls).splitOnP p).foldl f s = (l :: ls).foldl f s := by
  induction ls generalizing l s with
  | nil =>
      rw [joined, List.flatMap_nil, List.append_nil,
        List.splitOnP_eq_singleton (hls l List.mem_cons_self)]
  | cons b ls ih =>
      rw [List.forall_mem_cons] at hls
      obtain ⟨c, mark, rfl⟩ := List.exists_cons_of_ne_nil hne
      have hsplit : joined (c :: mark) l (b :: ls) =
          l ++ c :: (mark ++ joined (c :: mark) b ls) := by
        simp [joined]
      rw [List.forall_mem_cons] at hmark
      rw [hsplit, List.splitOnP_append_cons_of_forall_mem hls.1 c hmark.1, List.foldl_cons,
        foldl_splitOnP_append hblank hmark.2, ih hls.2]
      rfl

end Reading

end EndedLines

end Foundation
