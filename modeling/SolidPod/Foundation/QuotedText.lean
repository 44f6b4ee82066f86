import SolidPod.Foundation.Encodings
import SolidPod.Foundation.Occurrence

/-!
# Strings between quotes

The string literals of JSON, and where a reader stands in a text that has some: outside of a
literal, inside of one, or behind a backslash. A text is wrapped for a mark when it ends where
it began and holds the mark inside of literals only.
-/

namespace Foundation

namespace QuotedText

open Str

/-- A character as a JSON string literal has it. -/
def escapeJson (c : Char) : Str :=
  if c = '"' then "\\\""
  else if c = '\\' then "\\\\"
  else if c = '\x08' then "\\b"
  else if c = '\t' then "\\t"
  else if c = '\n' then "\\n"
  else if c = '\x0c' then "\\f"
  else if c = '\r' then "\\r"
  else if c.toNat < 0x20 then "\\u00" ++ [Hex.digit (c.toNat / 16), Hex.digit (c.toNat % 16)]
  else [c]

def quoted (s : Str) : Str := '"' :: (s.flatMap escapeJson ++ ['"'])

/-- A character that is not written as it is. -/
def Special (c : Char) : Prop := c = '"' ∨ c = '\\' ∨ c.toNat < 0x20

instance (c : Char) : Decidable (Special c) := inferInstanceAs (Decidable (_ ∨ _))

/-- The characters that a backslash and those after it can be. -/
def escapeLetters : Str := "\\\"bfnrtu0123456789abcdef"

theorem escapeJson_of_not_special {c : Char} (h : ¬ Special c) : escapeJson c = [c] := by
  rw [Special, not_or, not_or] at h
  obtain ⟨hquote, hslash, hcontrol⟩ := h
  have hne : ∀ d : Char, d.toNat < 0x20 → c ≠ d := by
    rintro d hd rfl
    exact hcontrol hd
  rw [escapeJson, if_neg hquote, if_neg hslash, if_neg (hne _ (by decide)),
    if_neg (hne _ (by decide)), if_neg (hne _ (by decide)), if_neg (hne _ (by decide)),
    if_neg (hne _ (by decide)), if_neg hcontrol]

theorem digit_mem_escapeLetters :
    ∀ n < 16, Hex.digit n ∈ escapeLetters ∧ Hex.digit n ≠ '"' ∧ Hex.digit n ≠ '\\' := by
  decide

/-- A backslash, a letter that may be a quote or a backslash, and letters that are neither. -/
def IsEscape (t : Str) : Prop :=
  ∃ d e, t = '\\' :: d :: e ∧ d ∈ escapeLetters ∧ ∀ x ∈ e, x ∈ escapeLetters ∧ x ≠ '"' ∧ x ≠ '\\'

theorem isEscape_letter {d : Char} (hd : d ∈ escapeLetters) : IsEscape ['\\', d] :=
  ⟨d, [], rfl, hd, List.forall_mem_nil _⟩

theorem isEscape_escapeJson {c : Char} (h : Special c) : IsEscape (escapeJson c) := by
  refine iteInduction (motive := IsEscape) (fun _ => isEscape_letter (by decide)) fun hquote => ?_
  refine iteInduction (motive := IsEscape) (fun _ => isEscape_letter (by decide)) fun hslash => ?_
  refine iteInduction (motive := IsEscape) (fun _ => isEscape_letter (by decide)) fun _ => ?_
  refine iteInduction (motive := IsEscape) (fun _ => isEscape_letter (by decide)) fun _ => ?_
  refine iteInduction (motive := IsEscape) (fun _ => isEscape_letter (by decide)) fun _ => ?_
  refine iteInduction (motive := IsEscape) (fun _ => isEscape_letter (by decide)) fun _ => ?_
  refine iteInduction (motive := IsEscape) (fun _ => isEscape_letter (by decide)) fun _ => ?_
  refine iteInduction (motive := IsEscape) (fun hlow => ?_) fun hcontrol => ?_
  · refine ⟨'u', ['0', '0', Hex.digit (c.toNat / 16), Hex.digit (c.toNat % 16)], rfl, by decide, ?_⟩
    simp only [List.forall_mem_cons]
    exact ⟨by decide, by decide, digit_mem_escapeLetters _ (by omega),
      digit_mem_escapeLetters _ (by omega), List.forall_mem_nil _⟩
  · rcases h with h | h | h
    · exact absurd h hquote
    · exact absurd h hslash
    · exact absurd h hcontrol

theorem escapeJson_of_special {c : Char} (h : Special c) :
    ∃ e, escapeJson c = '\\' :: e ∧ ∀ d ∈ e, d ∈ escapeLetters := by
  obtain ⟨d, e, he, hd, hletters⟩ := isEscape_escapeJson h
  exact ⟨d :: e, he, List.forall_mem_cons.mpr ⟨hd, fun x hx => (hletters x hx).1⟩⟩

/-- A text that no escape and no quote touches occurs in a literal where it occurs in the
string. -/
theorem infix_quoted_iff {p : Str} (hp : p ≠ []) (hchars : ∀ c ∈ p, ¬ Special c)
    (hhead : ∀ c ∈ p.head?, c ∉ escapeLetters) (s : Str) : p <:+: quoted s ↔ p <:+: s := by
  have hquote : '"' ∉ p := fun h => hchars _ h (Or.inl rfl)
  rw [quoted, infix_cons_iff_of_notMem hp hquote,
    infix_append_cons_iff hp hquote, or_iff_left (not_infix_nil hp)]
  have hspecial : ∀ c, Special c → ∃ e, escapeJson c = '\\' :: e ∧ ∀ d ∈ e, p.head? ≠ some d := by
    intro c hc
    obtain ⟨e, he, hletters⟩ := escapeJson_of_special hc
    exact ⟨e, he, fun d hd hsome => hhead d hsome (hletters d hd)⟩
  exact infix_flatMap_escape_iff (fun c => escapeJson_of_not_special) hspecial hp
    (fun h => hchars _ h (Or.inr (Or.inl rfl))) hchars s

theorem toLower_of_special {c : Char} (h : Special c) : c.toLower = c := by
  refine dif_neg fun hupper => ?_
  have hlow : 65 ≤ c.toNat := hupper.1
  have hhigh : c.toNat ≤ 90 := hupper.2
  rcases h with rfl | rfl | h
  · exact absurd hlow (by decide)
  · exact absurd hhigh (by decide)
  · omega

theorem notMem_quoted_of_control {c : Char} (hc : c.toNat < 0x20) (s : Str) : c ∉ quoted s := by
  have hother : ∀ d : Char, ¬ d.toNat < 0x20 → c ≠ d := by
    rintro d hd rfl
    exact hd hc
  rw [quoted, List.mem_cons, List.mem_append, List.mem_singleton,
    or_iff_left (hother _ (by decide)), or_iff_right (hother _ (by decide)), List.mem_flatMap]
  rintro ⟨d, -, hmem⟩
  by_cases hd : Special d
  · obtain ⟨e, he, hletters⟩ := escapeJson_of_special hd
    have hplain : ∀ l ∈ escapeLetters, ¬ l.toNat < 0x20 := by decide
    rw [he, List.mem_cons, or_iff_right (hother _ (by decide))] at hmem
    exact hplain c (hletters c hmem) hc
  · rw [escapeJson_of_not_special hd, List.mem_singleton] at hmem
    rw [← hmem] at hd
    exact hd (Or.inr (Or.inr hc))

/-! ## Inside and outside -/

inductive Place where
  | outside
  | inside
  | escaped
  deriving DecidableEq

def Place.next : Place → Char → Place
  | .outside, c => if c = '"' then .inside else .outside
  | .inside, c => if c = '"' then .outside else if c = '\\' then .escaped else .inside
  | .escaped, _ => .inside

/-- Where a reader stands behind a text. -/
def Place.after (p : Place) (text : Str) : Place := text.foldl Place.next p

/-- Every string literal is closed. -/
def StringsClosed (text : Str) : Prop := Place.outside.after text = .outside

theorem after_append (p : Place) (x y : Str) : p.after (x ++ y) = (p.after x).after y :=
  List.foldl_append

theorem after_outside_of_notMem {text : Str} (h : '"' ∉ text) :
    Place.outside.after text = .outside := by
  induction text with
  | nil => rfl
  | cons c text ih =>
      rw [List.mem_cons, not_or] at h
      have hnext : Place.outside.next c = .outside := if_neg (Ne.symm h.1)
      rw [Place.after, List.foldl_cons, hnext]
      exact ih h.2

/-- The text leads back to where it starts, and the mark is inside of literals only. -/
structure Wrapped (mark : Char) (p : Place) (text : Str) : Prop where
  back : p.after text = p
  guarded : ∀ x y, text = x ++ mark :: y → p.after x = .inside

namespace Wrapped

variable {mark : Char} {p : Place} {x y : Str}

theorem nil : Wrapped mark p [] where
  back := rfl
  guarded _ _ h := absurd h (by simp)

theorem append (hx : Wrapped mark p x) (hy : Wrapped mark p y) : Wrapped mark p (x ++ y) where
  back := by rw [after_append, hx.back, hy.back]
  guarded a b h := by
    rcases List.append_eq_append_iff.mp h with ⟨w, rfl, hw⟩ | ⟨w, rfl, hw⟩
    · rw [after_append, hx.back]
      exact hy.guarded w b hw
    · cases w with
      | nil =>
          have hrest := hy.guarded [] b hw.symm
          rw [List.append_nil] at hx
          rwa [hx.back]
      | cons c w =>
          obtain ⟨rfl, -⟩ := List.cons.inj hw
          exact hx.guarded a w rfl

theorem flatMap {ι : Type*} {f : ι → Str} {l : List ι} (h : ∀ i ∈ l, Wrapped mark p (f i)) :
    Wrapped mark p (l.flatMap f) := by
  induction l with
  | nil => exact nil
  | cons i l ih =>
      rw [List.forall_mem_cons] at h
      rw [List.flatMap_cons]
      exact h.1.append (ih h.2)

/-- A text without quotes and marks. -/
theorem plain (hquote : '"' ∉ x) (hmark : mark ∉ x) : Wrapped mark .outside x where
  back := after_outside_of_notMem hquote
  guarded a b h := absurd (by rw [h]; simp) hmark

theorem join {sep : Str} {l : List Str} (hsep : Wrapped mark p sep)
    (h : ∀ text ∈ l, Wrapped mark p text) : Wrapped mark p (join sep l) := by
  cases l with
  | nil => exact nil
  | cons a l =>
      rw [List.forall_mem_cons] at h
      rw [join_cons]
      exact h.1.append (flatMap fun text hmem => hsep.append (h.2 text hmem))

end Wrapped

theorem after_inside_letters {e : Str} (h : ∀ d ∈ e, d ≠ '"' ∧ d ≠ '\\') :
    Place.inside.after e = .inside := by
  induction e with
  | nil => rfl
  | cons d e ih =>
      rw [List.forall_mem_cons] at h
      have hnext : Place.inside.next d = .inside := by
        rw [Place.next, if_neg h.1.1, if_neg h.1.2]
      rw [Place.after, List.foldl_cons, hnext]
      exact ih h.2

/-- An escape leads back into its literal. -/
theorem after_inside_escapeJson (c : Char) : Place.inside.after (escapeJson c) = .inside := by
  by_cases hc : Special c
  · obtain ⟨d, e, he, -, hletters⟩ := isEscape_escapeJson hc
    rw [he, Place.after, List.foldl_cons, List.foldl_cons]
    exact after_inside_letters fun x hx => (hletters x hx).2
  · rw [escapeJson_of_not_special hc]
    rw [Special, not_or, not_or] at hc
    exact after_inside_letters (List.forall_mem_singleton.mpr ⟨hc.1, hc.2.1⟩)

/-- A literal is wrapped for what no escape has. -/
theorem wrapped_quoted {mark : Char} (hspecial : ¬ Special mark) (hletter : mark ∉ escapeLetters)
    (s : Str) : Wrapped mark .outside (quoted s) := by
  have hbody : Wrapped mark .inside (s.flatMap escapeJson) := by
    refine Wrapped.flatMap fun c _ => ⟨after_inside_escapeJson c, fun x y h => ?_⟩
    by_cases hc : Special c
    · obtain ⟨e, he, hletters⟩ := escapeJson_of_special hc
      have hmem : mark ∈ escapeJson c := by rw [h]; simp
      rw [he, List.mem_cons] at hmem
      rcases hmem with rfl | hmem
      · exact absurd (Or.inr (Or.inl rfl)) hspecial
      · exact absurd (hletters _ hmem) hletter
    · rw [escapeJson_of_not_special hc] at h
      cases x with
      | nil => rfl
      | cons d x => exact absurd (congrArg List.length h) (by simp)
  have hquote : mark ≠ '"' := fun h => hspecial (Or.inl h)
  have hopen : Place.outside.next '"' = .inside := rfl
  constructor
  · rw [quoted, Place.after, List.foldl_cons, hopen]
    change Place.inside.after _ = _
    rw [after_append, hbody.back]
    rfl
  · intro x y h
    cases x with
    | nil => exact absurd (List.cons.inj h).1.symm hquote
    | cons d x =>
        have hcons : '"' :: (s.flatMap escapeJson ++ ['"']) = d :: (x ++ mark :: y) := h
        obtain ⟨hd, htail⟩ := List.cons.inj hcons
        rw [← hd, Place.after, List.foldl_cons, hopen]
        rcases List.append_eq_append_iff.mp htail with ⟨w, hx, hw⟩ | ⟨w, hx, hw⟩
        · have hnil : w = [] := by
            cases w with
            | nil => rfl
            | cons e w => exact absurd (congrArg List.length hw) (by simp)
          rw [hnil] at hw
          exact absurd (List.cons.inj hw).1.symm hquote
        · cases w with
          | nil => exact absurd (List.cons.inj hw).1 hquote
          | cons e w =>
              obtain ⟨rfl, -⟩ := List.cons.inj hw
              exact hbody.guarded x w hx

end QuotedText

end Foundation
