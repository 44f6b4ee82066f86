import SolidPod.Foundation.QuotedText
import SolidPod.Json

/-!
# JSON as text

How the JSON library writes a value over several lines, two blanks to a level, and where the
strings of a value are in its text. How it writes a number is its own.
-/

namespace SolidPod

namespace Json

open Foundation Str QuotedText

/-! ## Members that are inserted one after the other -/

def membersOf (l : List (Str × Json)) : List (Str × Json) :=
  l.foldl (fun m e => insertMember e.1 e.2 m) []

/-- The last member under a key stays. -/
theorem member_membersOf (key : Str) (l : List (Str × Json)) :
    member key (membersOf l) = l.reverse.lookup key := by
  have hrun : ∀ m : List (Str × Json),
      member key (l.foldl (fun m e => insertMember e.1 e.2 m) m) =
        (l.reverse ++ m).lookup key := by
    induction l with
    | nil => exact fun m => rfl
    | cons e l ih =>
        intro m
        rw [List.foldl_cons, ih, List.reverse_cons, List.append_assoc, List.singleton_append,
          List.lookup_append, List.lookup_append]
        congr 1
        change member key (insertMember e.1 e.2 m) = member key ((e.1, e.2) :: m)
        rw [member_insertMember, member_cons]
  rw [membersOf, hrun, List.append_nil]

theorem mem_of_mem_insertMember {e : Str × Json} {key : Str} {v : Json} {m : List (Str × Json)}
    (h : e ∈ insertMember key v m) : e = (key, v) ∨ e ∈ m := by
  induction m with
  | nil => exact Or.inl (List.mem_singleton.mp h)
  | cons d m ih =>
      obtain ⟨k, w⟩ := d
      rw [insertMember] at h
      split_ifs at h
      · exact (List.mem_cons.mp h).imp_right (List.mem_cons_of_mem _)
      · exact List.mem_cons.mp h
      · rcases List.mem_cons.mp h with h | h
        · exact Or.inr (h ▸ List.mem_cons_self)
        · exact (ih h).imp_right (List.mem_cons_of_mem _)

theorem mem_of_mem_membersOf {e : Str × Json} {l : List (Str × Json)} (h : e ∈ membersOf l) :
    e ∈ l := by
  have hrun : ∀ m : List (Str × Json),
      e ∈ l.foldl (fun m e => insertMember e.1 e.2 m) m → e ∈ l ∨ e ∈ m := by
    clear h
    induction l with
    | nil => exact fun m => Or.inr
    | cons d l ih =>
        intro m h
        rcases ih _ h with h | h
        · exact Or.inl (List.mem_cons_of_mem d h)
        · rcases mem_of_mem_insertMember h with rfl | h
          · exact Or.inl List.mem_cons_self
          · exact Or.inr h
  exact (hrun [] h).resolve_right (List.not_mem_nil)

theorem mem_of_member {key : Str} {v : Json} {m : List (Str × Json)}
    (h : member key m = some v) : (key, v) ∈ m := by
  induction m with
  | nil => cases h
  | cons e m ih =>
      obtain ⟨k, w⟩ := e
      rw [member_cons] at h
      split_ifs at h with hk
      · rw [hk, Option.some.inj h]
        exact List.mem_cons_self
      · exact List.mem_cons_of_mem _ (ih h)

/-! ## The text of a value -/

def indentation (depth : Nat) : Str := List.replicate (2 * depth) ' '

/-- Lines between two brackets, each one level deeper than these. -/
def block (left right : Char) (depth : Nat) : List Str → Str
  | [] => [left, right]
  | lines =>
    left :: (join "," (lines.map fun line => '\n' :: (indentation (depth + 1) ++ line)) ++
      '\n' :: (indentation depth ++ [right]))

theorem exists_block_eq (left right : Char) (depth : Nat) (lines : List Str) :
    ∃ t, block left right depth lines = left :: (t ++ [right]) := by
  cases lines with
  | nil => exact ⟨[], rfl⟩
  | cons line lines =>
      refine ⟨join "," ((line :: lines).map fun l => '\n' :: (indentation (depth + 1) ++ l)) ++
        '\n' :: indentation depth, ?_⟩
      rw [List.append_assoc]
      rfl

section Pretty

variable (number : Number → Str)

mutual

def pretty (depth : Nat) : Json → Str
  | .null => "null"
  | .bool b => if b then "true" else "false"
  | .number n => number n
  | .string s => quoted s
  | .array a => block '[' ']' depth (prettyItems (depth + 1) a)
  | .object m => block '\x7b' '\x7d' depth (prettyMembers (depth + 1) m)

def prettyItems (depth : Nat) : List Json → List Str
  | [] => []
  | v :: a => pretty depth v :: prettyItems depth a

def prettyMembers (depth : Nat) : List (Str × Json) → List Str
  | [] => []
  | (key, v) :: m => (quoted key ++ (": " ++ pretty depth v)) :: prettyMembers depth m

end

theorem prettyItems_eq (depth : Nat) (a : List Json) :
    prettyItems number depth a = a.map (pretty number depth) := by
  induction a with
  | nil => rfl
  | cons v a ih => rw [prettyItems, ih, List.map_cons]

theorem prettyMembers_eq (depth : Nat) (m : List (Str × Json)) :
    prettyMembers number depth m =
      m.map fun e => quoted e.1 ++ (": " ++ pretty number depth e.2) := by
  induction m with
  | nil => rfl
  | cons e m ih => rw [prettyMembers, ih, List.map_cons]

end Pretty

/-- A value that is made of strings, these and its keys with a property. -/
inductive Textual (P : Str → Prop) : Json → Prop where
  | string {s : Str} (h : P s) : Textual P (.string s)
  | array {a : List Json} (h : ∀ v ∈ a, Textual P v) : Textual P (.array a)
  | object {m : List (Str × Json)} (hkeys : ∀ e ∈ m, P e.1) (h : ∀ e ∈ m, Textual P e.2) :
      Textual P (.object m)

/-- A string of a value, or a key of it. -/
inductive HasText (s : Str) : Json → Prop where
  | string : HasText s (.string s)
  | item {a : List Json} {v : Json} (h : v ∈ a) (hv : HasText s v) : HasText s (.array a)
  | key {m : List (Str × Json)} {v : Json} (h : (s, v) ∈ m) : HasText s (.object m)
  | value {m : List (Str × Json)} {k : Str} {v : Json} (h : (k, v) ∈ m) (hv : HasText s v) :
      HasText s (.object m)

theorem textual_ofMembers {P : Str → Prop} {l : List (Str × Json)}
    (h : ∀ e ∈ l, P e.1 ∧ Textual P e.2) : Textual P (ofMembers l) :=
  .object (fun e he => (h e (mem_of_mem_membersOf he)).1)
    fun e he => (h e (mem_of_mem_membersOf he)).2

/-- An object of strings. -/
theorem textual_ofStrings {P : Str → Prop} {l : List (Str × Str)}
    (h : ∀ e ∈ l, P e.1 ∧ P e.2) : Textual P (ofMembers (l.map fun e => (e.1, .string e.2))) := by
  refine textual_ofMembers fun e he => ?_
  obtain ⟨d, hd, rfl⟩ := List.mem_map.mp he
  exact ⟨(h d hd).1, .string (h d hd).2⟩

/-- The characters between the strings of a textual value, but for the line breaks. -/
def punctuation : Str := "[]\x7b\x7d,: "

theorem mem_indentation {c : Char} {depth : Nat} (h : c ∈ indentation depth) : c = ' ' :=
  List.eq_of_mem_replicate h

/-! ### What stands in literals only -/

section Wrapped

variable {mark : Char}

theorem wrapped_block (hspecial : ¬ Special mark) (hmark : mark ∉ punctuation) {left right : Char}
    (hleft : left ∈ punctuation) (hright : right ∈ punctuation) (depth : Nat) {lines : List Str}
    (h : ∀ line ∈ lines, Wrapped mark .outside line) :
    Wrapped mark .outside (block left right depth lines) := by
  have hsign : ∀ c ∈ punctuation, Wrapped mark .outside [c] := by
    intro c hc
    refine Wrapped.plain ?_ ?_
    · rintro hquote
      rw [← List.mem_singleton.mp hquote] at hc
      exact absurd hc (by decide)
    · intro hmem
      rw [List.mem_singleton.mp hmem] at hmark
      exact hmark hc
  have hindent : ∀ depth, Wrapped mark .outside ('\n' :: indentation depth) := by
    intro depth
    refine Wrapped.plain ?_ ?_
    · rw [List.mem_cons, not_or]
      exact ⟨by decide, fun hmem => absurd (mem_indentation hmem) (by decide)⟩
    · rw [List.mem_cons, not_or]
      refine ⟨?_, fun hmem => hmark (mem_indentation hmem ▸ by decide)⟩
      rintro rfl
      exact hspecial (by decide)
  cases lines with
  | nil => exact (hsign left hleft).append (hsign right hright)
  | cons line lines =>
      refine (hsign left hleft).append
        (Wrapped.append ?_ ((hindent depth).append (hsign right hright)))
      refine Wrapped.join (hsign ',' (by decide)) fun text htext => ?_
      obtain ⟨l, hl, rfl⟩ := List.mem_map.mp htext
      exact (hindent (depth + 1)).append (h l hl)

/-- A mark that the library does not write itself stands inside of strings. -/
theorem wrapped_pretty (hspecial : ¬ Special mark) (hletter : mark ∉ escapeLetters)
    (hmark : mark ∉ punctuation) (number : Number → Str) {P : Str → Prop} {v : Json}
    (h : Textual P v) (depth : Nat) : Wrapped mark .outside (pretty number depth v) := by
  have hcolon : Wrapped mark .outside ": " := by
    refine Wrapped.plain (by decide) fun hmem => hmark ?_
    have hsigns : ∀ c ∈ (": " : Str), c ∈ punctuation := by decide
    exact hsigns mark hmem
  induction h generalizing depth with
  | @string s _ => exact wrapped_quoted hspecial hletter s
  | array _ ih =>
      rw [pretty, prettyItems_eq]
      refine wrapped_block hspecial hmark (by decide) (by decide) depth fun line hline => ?_
      obtain ⟨v, hv, rfl⟩ := List.mem_map.mp hline
      exact ih v hv (depth + 1)
  | object _ _ ih =>
      rw [pretty, prettyMembers_eq]
      refine wrapped_block hspecial hmark (by decide) (by decide) depth fun line hline => ?_
      obtain ⟨e, he, rfl⟩ := List.mem_map.mp hline
      exact (wrapped_quoted hspecial hletter e.1).append (hcolon.append (ih e he (depth + 1)))

end Wrapped

/-! ### What stands in strings only -/

theorem hasText_string_iff {s t : Str} : HasText s (.string t) ↔ s = t := by
  constructor
  · rintro ⟨⟩
    rfl
  · rintro rfl
    exact .string

theorem hasText_array_iff {s : Str} {a : List Json} :
    HasText s (.array a) ↔ ∃ v ∈ a, HasText s v := by
  constructor
  · rintro ⟨⟩
    exact ⟨_, ‹_›, ‹_›⟩
  · rintro ⟨v, hv, h⟩
    exact .item hv h

theorem hasText_object_iff {s : Str} {m : List (Str × Json)} :
    HasText s (.object m) ↔ ∃ e ∈ m, s = e.1 ∨ HasText s e.2 := by
  constructor
  · intro h
    cases h with
    | key h => exact ⟨_, h, Or.inl rfl⟩
    | value h hv => exact ⟨_, h, Or.inr hv⟩
  · rintro ⟨⟨k, v⟩, he, rfl | h⟩
    · exact .key he
    · exact .value he h

theorem Textual.of_hasText {P : Str → Prop} {s : Str} {v : Json} (h : Textual P v)
    (hs : HasText s v) : P s := by
  induction h with
  | string h => exact hasText_string_iff.mp hs ▸ h
  | array _ ih =>
      obtain ⟨v, hv, hs⟩ := hasText_array_iff.mp hs
      exact ih v hv hs
  | object hkeys _ ih =>
      obtain ⟨e, he, rfl | hs⟩ := hasText_object_iff.mp hs
      · exact hkeys e he
      · exact ih e he hs

section Occurrence

variable {p : Str} (hp : p ≠ []) (hspecial : ∀ c ∈ p, ¬ Special c)
  (hpunctuation : ∀ c ∈ p, c ∉ punctuation)

include hp hspecial hpunctuation

theorem infix_block_iff {left right : Char} (hleft : left ∈ punctuation)
    (hright : right ∈ punctuation) (depth : Nat) (lines : List Str) :
    p <:+: block left right depth lines ↔ ∃ line ∈ lines, p <:+: line := by
  have hsign : ∀ c ∈ punctuation, c ∉ p := fun c hc hmem => hpunctuation c hmem hc
  have hbreak : '\n' ∉ p := fun hmem => hspecial _ hmem (by decide)
  have hindent : ∀ depth, ∀ c ∈ '\n' :: indentation depth, c ∉ p := by
    intro depth c hc
    rcases List.mem_cons.mp hc with rfl | hc
    · exact hbreak
    · rw [mem_indentation hc]
      exact hsign ' ' (by decide)
  have hline : ∀ l : Str, p <:+: '\n' :: (indentation (depth + 1) ++ l) ↔ p <:+: l := by
    intro l
    rw [← List.cons_append]
    exact ⟨infix_of_infix_append_left hp (hindent (depth + 1)),
      fun h => h.trans (List.suffix_append _ _).isInfix⟩
  cases lines with
  | nil =>
      rw [block, infix_cons_iff_of_notMem hp (hsign left hleft),
        infix_cons_iff_of_notMem hp (hsign right hright)]
      simp [not_infix_nil hp]
  | cons line lines =>
      have hend : ∀ c ∈ '\n' :: (indentation depth ++ [right]), c ∉ p := by
        intro c hc
        rw [← List.cons_append] at hc
        rcases List.mem_append.mp hc with hc | hc
        · exact hindent depth c hc
        · rw [List.mem_singleton.mp hc]
          exact hsign right hright
      have hcomma : ∀ c ∈ (",".toList : Str), c ∉ p := by
        intro c hc
        rw [List.mem_singleton.mp hc]
        exact hsign ',' (by decide)
      have hjoin := infix_join_iff hp (by decide) hcomma
        ((line :: lines).map fun l => '\n' :: (indentation (depth + 1) ++ l))
      change p <:+: left :: (_ ++ _) ↔ _
      rw [infix_cons_iff_of_notMem hp (hsign left hleft)]
      constructor
      · intro h
        obtain ⟨x, hx, h⟩ := hjoin.mp (infix_of_infix_append_right hp hend h)
        obtain ⟨l, hl, rfl⟩ := List.mem_map.mp hx
        exact ⟨l, hl, (hline l).mp h⟩
      · rintro ⟨l, hl, h⟩
        refine List.IsInfix.trans ?_ (List.prefix_append _ _).isInfix
        exact hjoin.mpr ⟨_, List.mem_map_of_mem hl, (hline l).mpr h⟩

/-- A text that the library does not write itself occurs in the text of a value where it occurs
in a string of the value. -/
theorem infix_pretty_iff (hhead : ∀ c ∈ p.head?, c ∉ escapeLetters) (number : Number → Str)
    {P : Str → Prop} {v : Json} (h : Textual P v) (depth : Nat) :
    p <:+: pretty number depth v ↔ ∃ s, HasText s v ∧ p <:+: s := by
  have hcolon : ∀ c ∈ (": ".toList : Str), c ∉ p := by
    intro c hc hmem
    have hsigns : ∀ c ∈ (": ".toList : Str), c ∈ punctuation := by decide
    exact hpunctuation c hmem (hsigns c hc)
  induction h generalizing depth with
  | @string s _ =>
      rw [pretty, infix_quoted_iff hp hspecial hhead]
      simp [hasText_string_iff]
  | @array a _ ih =>
      rw [pretty, prettyItems_eq,
        infix_block_iff hp hspecial hpunctuation (by decide) (by decide)]
      constructor
      · rintro ⟨line, hline, h⟩
        obtain ⟨v, hv, rfl⟩ := List.mem_map.mp hline
        obtain ⟨s, hs, h⟩ := (ih v hv (depth + 1)).mp h
        exact ⟨s, .item hv hs, h⟩
      · rintro ⟨s, hs, h⟩
        obtain ⟨v, hv, hs⟩ := hasText_array_iff.mp hs
        exact ⟨_, List.mem_map_of_mem hv, (ih v hv (depth + 1)).mpr ⟨s, hs, h⟩⟩
  | @object m _ _ ih =>
      have hentry : ∀ e : Str × Json,
          p <:+: quoted e.1 ++ (": " ++ pretty number (depth + 1) e.2) ↔
            p <:+: e.1 ∨ p <:+: pretty number (depth + 1) e.2 := by
        intro e
        rw [infix_append_append_iff hp (by decide) hcolon, infix_quoted_iff hp hspecial hhead]
      rw [pretty, prettyMembers_eq,
        infix_block_iff hp hspecial hpunctuation (by decide) (by decide)]
      constructor
      · rintro ⟨line, hline, h⟩
        obtain ⟨e, he, rfl⟩ := List.mem_map.mp hline
        rcases (hentry e).mp h with h | h
        · exact ⟨e.1, hasText_object_iff.mpr ⟨e, he, Or.inl rfl⟩, h⟩
        · obtain ⟨s, hs, h⟩ := (ih e he (depth + 1)).mp h
          exact ⟨s, hasText_object_iff.mpr ⟨e, he, Or.inr hs⟩, h⟩
      · rintro ⟨s, hs, h⟩
        obtain ⟨e, he, hs⟩ := hasText_object_iff.mp hs
        refine ⟨_, List.mem_map_of_mem he, (hentry e).mpr ?_⟩
        rcases hs with rfl | hs
        · exact Or.inl h
        · exact Or.inr ((ih e he (depth + 1)).mpr ⟨s, hs, h⟩)

end Occurrence

end Json

end SolidPod
