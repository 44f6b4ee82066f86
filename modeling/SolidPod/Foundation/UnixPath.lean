import Mathlib.Data.List.Infix
import SolidPod.Foundation.Occurrence

/-!
# Segments and the paths of a Unix system

A list is cut at every occurrence of a separator. The segments of one list begin
those of another exactly when the lists themselves do so up to a separator, so
that a test on texts decides a relation of paths. A path of a Unix system is a
text, read as its components: a slash at the front is the root, and between slashes
stand the names. Empty names and `.` lead nowhere, and are no components except
for a `.` that a relative path begins with.
-/

namespace Foundation

namespace Segments

variable {α : Type*} [DecidableEq α] {sep : α} {a b : List α}

omit [DecidableEq α] in
theorem intercalate_append {xs : List (List α)} (hne : xs ≠ []) (x : List α)
    (ys : List (List α)) : [sep].intercalate (xs ++ x :: ys) =
      [sep].intercalate xs ++ sep :: [sep].intercalate (x :: ys) := by
  induction xs with
  | nil => exact absurd rfl hne
  | cons z zs ih =>
      cases zs with
      | nil =>
          rw [List.singleton_append, List.intercalate_cons_cons, List.intercalate_singleton,
            List.append_assoc, List.singleton_append]
      | cons z' zs =>
          have hrest := ih (List.cons_ne_nil z' zs)
          rw [List.cons_append, List.cons_append, List.intercalate_cons_cons,
            ← List.cons_append, hrest, List.intercalate_cons_cons]
          simp only [List.append_assoc]

theorem splitOn_injective (h : a.splitOn sep = b.splitOn sep) : a = b := by
  have ha : [sep].intercalate (a.splitOn sep) = a := List.intercalate_splitOn sep
  rw [← ha, h, List.intercalate_splitOn]

theorem eq_append_of_splitOn {segment : List α} {rest : List (List α)}
    (h : a.splitOn sep ++ segment :: rest = b.splitOn sep) :
    b = a ++ sep :: [sep].intercalate (segment :: rest) := by
  have hb : [sep].intercalate (b.splitOn sep) = b := List.intercalate_splitOn sep
  rw [← hb, ← h, intercalate_append (List.splitOn_ne_nil sep a), List.intercalate_splitOn]

/-- The segments of one list begin those of another when the lists are the same, or
when the first one and a separator begin the second one. -/
theorem splitOn_isPrefix_iff :
    a.splitOn sep <+: b.splitOn sep ↔ b = a ∨ a ++ [sep] <+: b := by
  constructor
  · rintro ⟨rest, hrest⟩
    cases rest with
    | nil =>
        rw [List.append_nil] at hrest
        exact Or.inl (splitOn_injective hrest.symm)
    | cons segment rest =>
        right
        refine ⟨[sep].intercalate (segment :: rest), ?_⟩
        rw [eq_append_of_splitOn hrest, List.append_assoc, List.singleton_append]
  · rintro (rfl | ⟨rest, rfl⟩)
    · exact List.prefix_rfl
    · rw [List.append_assoc, List.singleton_append, List.splitOn_append_cons_self]
      exact List.prefix_append _ _

theorem notMem_of_splitOn (h : a.splitOn sep = [a]) : sep ∉ a := by
  intro hmem
  obtain ⟨x, y, rfl⟩ := List.mem_iff_append.mp hmem
  rw [List.splitOn_append_cons_self] at h
  have hlength := congrArg List.length h
  have hx := List.length_pos_of_ne_nil (List.splitOn_ne_nil sep x)
  have hy := List.length_pos_of_ne_nil (List.splitOn_ne_nil sep y)
  rw [List.length_append, List.length_singleton] at hlength
  omega

/-- A list has one segment more than another when a separator and that segment come
after it. -/
theorem splitOn_eq_append_singleton_iff {segment : List α} :
    b.splitOn sep = a.splitOn sep ++ [segment] ↔ b = a ++ sep :: segment ∧ sep ∉ segment := by
  constructor
  · intro h
    have hb := eq_append_of_splitOn h.symm
    rw [List.intercalate_singleton] at hb
    rw [hb, List.splitOn_append_cons_self] at h
    exact ⟨hb, notMem_of_splitOn (List.append_cancel_left h)⟩
  · rintro ⟨rfl, hsep⟩
    rw [List.splitOn_append_cons_self, List.splitOn_eq_singleton hsep]

end Segments

inductive Component where
  | rootDir
  | curDir
  | parentDir
  | normal (name : Str)
  deriving DecidableEq

/-- How a component is written. -/
def Component.text : Component → Str
  | rootDir => ['/']
  | curDir => ['.']
  | parentDir => ['.', '.']
  | normal name => name

namespace UnixPath

open Str

def isAbsolute (p : Str) : Bool := startsWith ['/'] p

/-- What the text between two slashes stands for. -/
def nameComponent (s : Str) : Option Component :=
  if s = [] then none
  else if s = ['.'] then none
  else if s = ['.', '.'] then some .parentDir
  else some (.normal s)

/-- The components after the first slash or from the start of a relative path. -/
def names (p : Str) : List Component := (p.splitOn '/').filterMap nameComponent

/-- What a path begins with. -/
def anchor (p : Str) : List Component :=
  if isAbsolute p then [.rootDir]
  else if (p.splitOn '/').head? = some ['.'] then [.curDir]
  else []

def components (p : Str) : List Component := anchor p ++ names p

/-- A path below another one; an absolute path replaces it. -/
def join (base p : Str) : Str :=
  if isAbsolute p then p
  else if base.isEmpty || endsWith ['/'] base then base ++ p
  else base ++ '/' :: p

/-- The components of a path begin with those of another. -/
def below (base p : Str) : Bool := (components base).isPrefixOf (components p)

variable {p q s : Str}

@[simp] theorem names_nil : names [] = [] := rfl

theorem names_append_slash (p q : Str) : names (p ++ '/' :: q) = names p ++ names q := by
  rw [names, List.splitOn_append_cons_self, List.filterMap_append]
  rfl

@[simp] theorem names_slash_cons (p : Str) : names ('/' :: p) = names p :=
  names_append_slash [] p

theorem names_trimStartMatches (p : Str) : names (trimStartMatches '/' p) = names p := by
  induction p with
  | nil => rfl
  | cons c p ih =>
      by_cases hc : c = '/'
      · rw [hc, names_slash_cons, ← ih]
        rfl
      · have hkept : trimStartMatches '/' (c :: p) = c :: p := by
          simp [trimStartMatches, hc]
        rw [hkept]

theorem isAbsolute_iff : isAbsolute p = true ↔ ∃ q, p = '/' :: q := by
  rw [isAbsolute, startsWith, List.isPrefixOf_iff_prefix]
  constructor
  · rintro ⟨q, rfl⟩
    exact ⟨q, rfl⟩
  · rintro ⟨q, rfl⟩
    exact ⟨q, rfl⟩

theorem anchor_append_of_isAbsolute (h : isAbsolute p = true) (q : Str) :
    anchor (p ++ q) = anchor p := by
  obtain ⟨r, rfl⟩ := isAbsolute_iff.mp h
  rfl

/-- Two paths below one absolute path differ by their names alone. -/
theorem components_append_slash (h : isAbsolute p = true) (q : Str) :
    components (p ++ '/' :: q) = components p ++ names q := by
  rw [components, anchor_append_of_isAbsolute h, names_append_slash, components,
    List.append_assoc]

theorem components_join (hp : isAbsolute p = true) (hq : isAbsolute q = false) :
    components (join p q) = components p ++ names q := by
  have hne : p ≠ [] := by
    rintro rfl
    cases hp
  rw [join, hq]
  by_cases hend : endsWith ['/'] p = true
  · obtain ⟨r, hr⟩ := List.isSuffixOf_iff_suffix.mp hend
    have hnames : names (p ++ q) = names p ++ names q := by
      rw [← hr, List.append_assoc, List.singleton_append, names_append_slash, names_append_slash,
        names_nil, List.append_nil]
    simp only [hend, Bool.or_true, if_true, Bool.false_eq_true, if_false]
    rw [components, anchor_append_of_isAbsolute hp, hnames, components, List.append_assoc]
  · simp only [hend, hne, List.isEmpty_iff, Bool.or_false, Bool.false_eq_true, if_false]
    exact components_append_slash hp q

/-- A text without slashes is in a path when it is in a text between two of its slashes. -/
theorem infix_iff_exists_splitOn (hs : s ≠ []) (hslash : '/' ∉ s) :
    s <:+: p ↔ ∃ t ∈ p.splitOn '/', s <:+: t := by
  induction hn : p.length using Nat.strong_induction_on generalizing p with
  | _ n ih =>
      by_cases hmem : '/' ∈ p
      · obtain ⟨a, b, rfl, ha⟩ := List.eq_append_cons_of_mem hmem
        have hb : s <:+: b ↔ ∃ t ∈ b.splitOn '/', s <:+: t := by
          refine ih b.length ?_ rfl
          rw [← hn, List.length_append, List.length_cons]
          omega
        rw [infix_append_cons_iff hs hslash, hb, List.splitOn_append_cons_self,
          List.splitOn_eq_singleton ha]
        simp
      · rw [List.splitOn_eq_singleton hmem]
        simp

theorem text_of_nameComponent {t : Str} {c : Component} (h : nameComponent t = some c) :
    c.text = t := by
  rw [nameComponent] at h
  split_ifs at h with hempty hdot hdots
  · cases h
    exact hdots.symm
  · cases h
    rfl

theorem exists_nameComponent {t : Str} (hs : s ≠ []) (hdot : ¬ s <:+: ['.']) (h : s <:+: t) :
    ∃ c, nameComponent t = some c := by
  have hne : t ≠ [] := by
    rintro rfl
    exact not_infix_nil hs h
  have hcur : t ≠ ['.'] := by
    rintro rfl
    exact hdot h
  rw [nameComponent, if_neg hne, if_neg hcur]
  split
  · exact ⟨_, rfl⟩
  · exact ⟨_, rfl⟩

/-- A text without slashes that is no part of `.` is in a path exactly when it is in one of
the names. -/
theorem infix_iff_exists_names (hs : s ≠ []) (hslash : '/' ∉ s) (hdot : ¬ s <:+: ['.']) :
    s <:+: p ↔ ∃ c ∈ names p, s <:+: c.text := by
  rw [infix_iff_exists_splitOn hs hslash]
  constructor
  · rintro ⟨t, ht, hst⟩
    obtain ⟨c, hc⟩ := exists_nameComponent hs hdot hst
    refine ⟨c, List.mem_filterMap.mpr ⟨t, ht, hc⟩, ?_⟩
    rw [text_of_nameComponent hc]
    exact hst
  · rintro ⟨c, hc, hst⟩
    obtain ⟨t, ht, htc⟩ := List.mem_filterMap.mp hc
    rw [text_of_nameComponent htc] at hst
    exact ⟨t, ht, hst⟩

end UnixPath

end Foundation
