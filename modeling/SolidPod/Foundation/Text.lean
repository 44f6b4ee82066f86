import Mathlib.Data.List.DropRight
import Mathlib.Data.List.Infix
import Mathlib.Data.List.Lex
import Mathlib.Data.Char

/-!
# Text as a list of scalar values

A string is read as the list of its Unicode scalar values, and the standard
string functions a program is written with (`trim`, `strip_prefix`,
`split_once`, `lines`, …) are functions on that list. The functions follow the
Rust standard library: white space is the Unicode `White_Space` property, and a
final line that has no line feed keeps its carriage return.
-/

namespace Foundation

/-- A string, as the list of its scalar values. -/
abbrev Str := List Char

instance : Coe String Str := ⟨String.toList⟩

instance lawfulBEq_str : LawfulBEq Str := inferInstance

namespace Str

/-- A statement about the characters of a text is decided along the text, not by
trying all characters there are. -/
instance (priority := high) decidableForallMem (p : Char → Prop) [DecidablePred p] (s : Str) :
    Decidable (∀ c ∈ s, p c) :=
  List.decidableBAll p s

/-- So is a statement about the character that a text begins with, if any. -/
instance (priority := high) decidableForallMemOption (p : Char → Prop) [DecidablePred p]
    (o : Option Char) : Decidable (∀ c ∈ o, p c) :=
  Option.decidableForallMem o

/-- The Unicode `White_Space` property. -/
def isWhitespace (c : Char) : Bool :=
  let n := c.toNat
  (9 ≤ n && n ≤ 13) || n == 0x20 || n == 0x85 || n == 0xA0 || n == 0x1680 ||
    (0x2000 ≤ n && n ≤ 0x200A) || n == 0x2028 || n == 0x2029 || n == 0x202F ||
    n == 0x205F || n == 0x3000

def trimStart (s : Str) : Str := s.dropWhile isWhitespace

def trimEnd (s : Str) : Str := s.rdropWhile isWhitespace

def trim (s : Str) : Str := trimEnd (trimStart s)

def trimStartMatches (c : Char) (s : Str) : Str := s.dropWhile (· == c)

def trimEndMatches (c : Char) (s : Str) : Str := s.rdropWhile (· == c)

/-- The text after a leading `p`, when there is one. -/
def stripPrefix (p s : Str) : Option Str :=
  if p.isPrefixOf s then some (s.drop p.length) else none

def stripSuffix (p s : Str) : Option Str :=
  (stripPrefix p.reverse s.reverse).map List.reverse

def startsWith (p s : Str) : Bool := p.isPrefixOf s

def endsWith (p s : Str) : Bool := p.isSuffixOf s

/-- Whether `p` occurs in `s` at any position. -/
def containsStr (p : Str) : Str → Bool
  | [] => p.isEmpty
  | c :: cs => p.isPrefixOf (c :: cs) || containsStr p cs

/-- The text before and the text after the first `c`. -/
def splitOnce (c : Char) : Str → Option (Str × Str)
  | [] => none
  | d :: ds =>
    if d = c then some ([], ds)
    else (splitOnce c ds).map fun r => (d :: r.1, r.2)

/-- The text before the last `c`. -/
def beforeLast (c : Char) (s : Str) : Option Str :=
  (splitOnce c s.reverse).map fun r => r.2.reverse

def toAsciiLowercase (s : Str) : Str := s.map Char.toLower

/-- One carriage return is dropped from the end of a line that a line feed
ended. -/
def dropCr (l : Str) : Str := (stripSuffix ['\r'] l).getD l

def linesFrom (cur : Str) : Str → List Str
  | [] => if cur.isEmpty then [] else [cur]
  | c :: cs => if c = '\n' then dropCr cur :: linesFrom [] cs else linesFrom (cur ++ [c]) cs

/-- The lines of a text, without their line ends. -/
def lines (s : Str) : List Str := linesFrom [] s

/-- The pieces joined with `sep` between them. -/
def join (sep : Str) (l : List Str) : Str := sep.intercalate l

/-- A character as the `Debug` format of a string writes it; `printable` is the
Unicode table of the characters that stand for themselves. -/
def escapeDebug (printable : Char → Bool) (c : Char) : Str :=
  if c = '\x00' then "\\0"
  else if c = '\t' then "\\t"
  else if c = '\r' then "\\r"
  else if c = '\n' then "\\n"
  else if c = '\\' then "\\\\"
  else if c = '"' then "\\\""
  else if printable c then [c]
  else "\\u\x7b" ++ Nat.toDigits 16 c.toNat ++ "\x7d"

/-- The `Debug` format of a string. -/
def debug (printable : Char → Bool) (s : Str) : Str :=
  "\"" ++ s.flatMap (escapeDebug printable) ++ "\""

theorem toLower_of_isWhitespace {c : Char} (h : isWhitespace c = true) : c.toLower = c := by
  refine dif_neg fun hupper => ?_
  have hlow : 65 ≤ c.toNat := hupper.1
  have hhigh : c.toNat ≤ 90 := hupper.2
  simp only [isWhitespace, Bool.or_eq_true, Bool.and_eq_true, decide_eq_true_eq, beq_iff_eq] at h
  omega

@[simp] theorem trimStart_nil : trimStart [] = [] := rfl

@[simp] theorem trimEnd_nil : trimEnd [] = [] := rfl

theorem trimStart_cons_of_not {c : Char} (h : isWhitespace c = false) (s : Str) :
    trimStart (c :: s) = c :: s := by
  simp [trimStart, h]

theorem trimStart_cons_of {c : Char} (h : isWhitespace c = true) (s : Str) :
    trimStart (c :: s) = trimStart s := by
  simp [trimStart, h]

theorem trimEnd_append_singleton_of_not {c : Char} (h : isWhitespace c = false) (s : Str) :
    trimEnd (s ++ [c]) = s ++ [c] := by
  simp [trimEnd, h]

theorem trimEnd_append_singleton_of {c : Char} (h : isWhitespace c = true) (s : Str) :
    trimEnd (s ++ [c]) = trimEnd s := by
  simp [trimEnd, h]

theorem length_trimStart_le (s : Str) : (trimStart s).length ≤ s.length :=
  (List.dropWhile_suffix _).length_le

theorem trimStart_trimStart (s : Str) : trimStart (trimStart s) = trimStart s :=
  List.dropWhile_idempotent isWhitespace s

theorem trimStart_append_cons {c : Char} (h : isWhitespace c = false) (p rest : Str) :
    trimStart (p ++ c :: rest) = trimStart p ++ c :: rest := by
  induction p with
  | nil => exact trimStart_cons_of_not h rest
  | cons d p ih =>
      cases hd : isWhitespace d with
      | true => rw [List.cons_append, trimStart_cons_of hd, trimStart_cons_of hd, ih]
      | false =>
          rw [List.cons_append, trimStart_cons_of_not hd, trimStart_cons_of_not hd]
          rfl

/-- A trimmed text is empty or begins with a character that is not white. -/
theorem trimStart_cases (s : Str) :
    trimStart s = [] ∨ ∃ c rest, trimStart s = c :: rest ∧ isWhitespace c = false := by
  induction s with
  | nil => exact Or.inl rfl
  | cons d s ih =>
      cases hd : isWhitespace d with
      | true =>
          rw [trimStart_cons_of hd]
          exact ih
      | false => exact Or.inr ⟨d, s, trimStart_cons_of_not hd s, hd⟩

theorem trimEnd_append_cons {c : Char} (h : isWhitespace c = false) (a b : Str) :
    trimEnd (a ++ c :: b) = a ++ c :: trimEnd b := by
  have hrev := trimStart_append_cons h b.reverse a.reverse
  change ((a ++ c :: b).reverse.dropWhile isWhitespace).reverse = _
  rw [List.reverse_append, List.reverse_cons, List.append_assoc, List.singleton_append]
  change (trimStart (b.reverse ++ c :: a.reverse)).reverse = _
  rw [hrev, List.reverse_append, List.reverse_cons, List.reverse_reverse, List.append_assoc,
    List.singleton_append]
  rfl

theorem trimStart_blank_append {w : Str} (h : ∀ c ∈ w, isWhitespace c = true) (t : Str) :
    trimStart (w ++ t) = trimStart t :=
  List.dropWhile_append_of_pos h

theorem trimEnd_append_blank {w : Str} (h : ∀ c ∈ w, isWhitespace c = true) (t : Str) :
    trimEnd (t ++ w) = trimEnd t := by
  have hrev := trimStart_blank_append (w := w.reverse)
    (fun c hc => h c (List.mem_reverse.mp hc)) t.reverse
  change (trimStart (t ++ w).reverse).reverse = (trimStart t.reverse).reverse
  rw [List.reverse_append, hrev]

theorem trim_blank_append {w : Str} (h : ∀ c ∈ w, isWhitespace c = true) (t : Str) :
    trim (w ++ t) = trim t := by
  rw [trim, trimStart_blank_append h, trim]

theorem trim_of_blank {w : Str} (h : ∀ c ∈ w, isWhitespace c = true) : trim w = [] := by
  have htrim := trim_blank_append h []
  rwa [List.append_nil] at htrim

/-- White space at the end goes away, also when nothing else is there. -/
theorem trim_append_blank {w : Str} (h : ∀ c ∈ w, isWhitespace c = true) (t : Str) :
    trim (t ++ w) = trim t := by
  have hsplit : t ++ w = t.takeWhile isWhitespace ++ (trimStart t ++ w) := by
    rw [← List.append_assoc, trimStart, List.takeWhile_append_dropWhile]
  rw [hsplit, trim_blank_append (fun c hc => List.mem_takeWhile_imp hc)]
  rcases trimStart_cases t with ht | ⟨c, rest, ht, hc⟩
  · have hnil : trim t = [] := by
      rw [trim, ht]
      rfl
    rw [ht, List.nil_append, trim_of_blank h, hnil]
  · rw [trim, trim, ht, List.cons_append, trimStart_cons_of_not hc, ← List.cons_append,
      trimEnd_append_blank h]

/-- Only the white space after a word is trimmed. -/
theorem trim_word_append {a : Str} (hne : a ≠ []) (h : ∀ c ∈ a, isWhitespace c = false) (t : Str) :
    trim (a ++ t) = a ++ trimEnd t := by
  have hstart : trimStart (a ++ t) = a ++ t := by
    cases a with
    | nil => exact absurd rfl hne
    | cons c a => exact trimStart_cons_of_not (h c (by simp)) (a ++ t)
  rw [trim, hstart]
  rcases List.eq_nil_or_concat' a with rfl | ⟨p, c, rfl⟩
  · exact absurd rfl hne
  · rw [List.append_assoc, List.singleton_append, trimEnd_append_cons (h c (by simp)),
      List.append_assoc]
    rfl

/-- A text is its trimming between white space. -/
theorem exists_trim_eq (s : Str) : ∃ w w', s = w ++ trim s ++ w' ∧
    (∀ c ∈ w, isWhitespace c = true) ∧ ∀ c ∈ w', isWhitespace c = true := by
  refine ⟨s.takeWhile isWhitespace, (trimStart s).rtakeWhile isWhitespace, ?_, ?_, ?_⟩
  · rw [List.append_assoc, trim, trimEnd, List.rdropWhile_append_rtakeWhile, trimStart,
      List.takeWhile_append_dropWhile]
  · intro c hc
    exact List.mem_takeWhile_imp hc
  · intro c hc
    exact List.mem_rtakeWhile_imp hc

/-- A character that stops a token stops it in every longer text. -/
theorem takeWhile_append_cons {f : Char → Bool} {c : Char} (h : f c = false) (p rest : Str) :
    (p ++ c :: rest).takeWhile f = p.takeWhile f ∧
      (p ++ c :: rest).dropWhile f = p.dropWhile f ++ c :: rest := by
  induction p with
  | nil => simp [h]
  | cons d p ih =>
      cases hd : f d with
      | true => simpa [hd] using ih
      | false => simp [hd]

/-- Text that neither begins nor ends with white space is its own trimming. -/
theorem trim_eq_self {s : Str} (hhead : ∀ c ∈ s.head?, isWhitespace c = false)
    (hlast : ∀ c ∈ s.getLast?, isWhitespace c = false) : trim s = s := by
  have hstart : trimStart s = s := by
    cases s with
    | nil => rfl
    | cons c cs => exact trimStart_cons_of_not (hhead c (by simp)) cs
  rw [trim, hstart]
  rcases List.eq_nil_or_concat' s with rfl | ⟨l, c, rfl⟩
  · rfl
  · exact trimEnd_append_singleton_of_not (hlast c (by simp)) l

theorem trim_trim (s : Str) : trim (trim s) = trim s := by
  refine trim_eq_self ?_ ?_
  · intro c hc
    rcases trimStart_cases s with hs | ⟨d, t, hs, hd⟩
    · rw [trim, hs] at hc
      cases hc
    · have hprefix : trim s <+: d :: t := by
        rw [trim, hs]
        exact List.rdropWhile_prefix _ _
      obtain ⟨r, hr⟩ := hprefix
      cases htrim : trim s with
      | nil =>
          rw [htrim] at hc
          cases hc
      | cons e u =>
          rw [htrim] at hc hr
          cases hc
          rw [(List.cons.inj hr).1]
          exact hd
  · intro c hc
    have hne : trim s ≠ [] := by
      intro hnil
      rw [hnil] at hc
      cases hc
    have hlast := List.rdropWhile_last_not isWhitespace (trimStart s) hne
    rw [Option.mem_def, List.getLast?_eq_some_getLast hne, Option.some.injEq] at hc
    rw [← hc]
    exact (Bool.not_eq_true _).mp hlast

theorem trim_trimStart (s : Str) : trim (trimStart s) = trim s := by
  rw [trim, trimStart_trimStart, trim]

theorem trim_trimEnd (s : Str) : trim (trimEnd s) = trim s := by
  have hsplit : trimEnd s ++ s.rtakeWhile isWhitespace = s :=
    List.rdropWhile_append_rtakeWhile
  conv_rhs => rw [← hsplit]
  exact (trim_append_blank (fun c hc => List.mem_rtakeWhile_imp hc) (trimEnd s)).symm

@[simp] theorem stripPrefix_append (p s : Str) : stripPrefix p (p ++ s) = some s := by
  simp [stripPrefix]

theorem stripPrefix_eq_some {p s r : Str} : stripPrefix p s = some r ↔ s = p ++ r := by
  constructor
  · intro h
    by_cases hp : p.isPrefixOf s = true
    · obtain ⟨t, rfl⟩ := List.isPrefixOf_iff_prefix.mp hp
      simp only [stripPrefix_append, Option.some.injEq] at h
      rw [h]
    · simp [stripPrefix, hp] at h
  · rintro rfl
    exact stripPrefix_append p r

@[simp] theorem stripSuffix_append (s p : Str) : stripSuffix p (s ++ p) = some s := by
  rw [stripSuffix, List.reverse_append, stripPrefix_append, Option.map_some, List.reverse_reverse]

theorem suffix_of_stripPrefix {p s r : Str} (h : stripPrefix p s = some r) : r <:+ s :=
  ⟨p, (stripPrefix_eq_some.mp h).symm⟩

theorem stripPrefix_eq_none {p s : Str} : stripPrefix p s = none ↔ ¬ p <+: s := by
  simp [stripPrefix, List.isPrefixOf_iff_prefix]

theorem stripPrefix_singleton_cons (c d : Char) (s : Str) :
    stripPrefix [c] (d :: s) = if d = c then some s else none := by
  by_cases h : d = c
  · subst h
    simp [stripPrefix, List.isPrefixOf]
  · simp [stripPrefix, List.isPrefixOf, h, Ne.symm h]

theorem containsStr_iff {p s : Str} : containsStr p s = true ↔ p <:+: s := by
  induction s with
  | nil => simp [containsStr]
  | cons c s ih =>
      rw [containsStr, Bool.or_eq_true, ih, List.isPrefixOf_iff_prefix, List.infix_cons_iff]

theorem splitOnce_append {c : Char} {p : Str} (h : c ∉ p) (r : Str) :
    splitOnce c (p ++ c :: r) = some (p, r) := by
  induction p with
  | nil => simp [splitOnce]
  | cons d p ih =>
      rw [List.mem_cons, not_or] at h
      simp [splitOnce, Ne.symm h.1, ih h.2]

theorem splitOnce_eq_none {c : Char} {s : Str} (h : c ∉ s) : splitOnce c s = none := by
  induction s with
  | nil => rfl
  | cons d s ih =>
      rw [List.mem_cons, not_or] at h
      simp [splitOnce, Ne.symm h.1, ih h.2]

theorem eq_append_of_splitOnce {c : Char} {s p r : Str} (h : splitOnce c s = some (p, r)) :
    s = p ++ c :: r ∧ c ∉ p := by
  induction s generalizing p with
  | nil => simp [splitOnce] at h
  | cons d s ih =>
      rw [splitOnce] at h
      split at h
      · rename_i hd
        obtain ⟨rfl, rfl⟩ := Prod.mk.inj (Option.some.inj h)
        simp [hd]
      · rename_i hd
        rw [Option.map_eq_some_iff] at h
        obtain ⟨⟨q, t⟩, hq, heq⟩ := h
        obtain ⟨rfl, rfl⟩ := Prod.mk.inj heq
        obtain ⟨rfl, hmem⟩ := ih hq
        exact ⟨rfl, by simp [hmem, Ne.symm hd]⟩

/-- A text is split at the last of its `c`. -/
theorem exists_last_mem {c : Char} {s : Str} (h : c ∈ s) : ∃ p r, s = p ++ c :: r ∧ c ∉ r := by
  obtain ⟨r, p, hs, hr⟩ := List.eq_append_cons_of_mem (List.mem_reverse.mpr h)
  refine ⟨p.reverse, r.reverse, ?_, fun hmem => hr (List.mem_reverse.mp hmem)⟩
  rw [← List.reverse_reverse s, hs]
  simp

theorem length_lt_of_beforeLast {c : Char} {s p : Str} (h : beforeLast c s = some p) :
    p.length < s.length := by
  rw [beforeLast, Option.map_eq_some_iff] at h
  obtain ⟨⟨q, t⟩, hq, rfl⟩ := h
  have hlen := congrArg List.length (eq_append_of_splitOnce hq).1
  simp only [List.length_reverse, List.length_append, List.length_cons] at hlen
  simp only [List.length_reverse]
  omega

/-- The text before the last `c` is followed by it. -/
theorem prefix_of_beforeLast {c : Char} {s p : Str} (h : beforeLast c s = some p) :
    p ++ [c] <+: s := by
  rw [beforeLast, Option.map_eq_some_iff] at h
  obtain ⟨⟨q, t⟩, hq, rfl⟩ := h
  have hs := congrArg List.reverse (eq_append_of_splitOnce hq).1
  rw [List.reverse_reverse, List.reverse_append, List.reverse_cons] at hs
  exact ⟨q.reverse, hs.symm⟩

theorem dropCr_of_not_mem {l : Str} (h : '\r' ∉ l) : dropCr l = l := by
  have hnone : stripSuffix ['\r'] l = none := by
    rw [stripSuffix, Option.map_eq_none_iff, stripPrefix_eq_none]
    rintro ⟨t, ht⟩
    exact h (List.mem_reverse.mp (ht ▸ by simp))
  rw [dropCr, hnone]
  rfl

theorem linesFrom_append (cur : Str) {l : Str} (h : '\n' ∉ l) (rest : Str) :
    linesFrom cur (l ++ rest) = linesFrom (cur ++ l) rest := by
  induction l generalizing cur with
  | nil => simp
  | cons c l ih =>
      rw [List.mem_cons, not_or] at h
      rw [List.cons_append, linesFrom, if_neg (Ne.symm h.1), ih _ h.2]
      simp

theorem dropCr_append_singleton {c : Char} (h : c ≠ '\r') (l : Str) :
    dropCr (l ++ [c]) = l ++ [c] := by
  have hnone : stripSuffix ['\r'] (l ++ [c]) = none := by
    rw [stripSuffix, List.reverse_append, List.reverse_singleton, List.reverse_singleton,
      List.singleton_append, stripPrefix_singleton_cons, if_neg h]
    rfl
  rw [dropCr, hnone]
  rfl

/-- A line that holds no line end of its own is read off the front. -/
theorem lines_append_newline {l : Str} (hn : '\n' ∉ l) (hr : dropCr l = l) (rest : Str) :
    lines (l ++ '\n' :: rest) = l :: lines rest := by
  rw [lines, linesFrom_append [] hn, List.nil_append, linesFrom, if_pos rfl, hr]
  rfl

/-- Text written line by line, each line ended by a line feed, is read back
line by line. -/
theorem lines_flatMap {ls : List Str} (hn : ∀ l ∈ ls, '\n' ∉ l) (hr : ∀ l ∈ ls, dropCr l = l) :
    lines (ls.flatMap fun l => l ++ ['\n']) = ls := by
  induction ls with
  | nil => rfl
  | cons l ls ih =>
      rw [List.flatMap_cons, List.append_assoc, List.singleton_append,
        lines_append_newline (hn l (by simp)) (hr l (by simp)),
        ih (fun k hk => hn k (by simp [hk])) (fun k hk => hr k (by simp [hk]))]

theorem linesFrom_append_newline {cur t : Str} (hcur : '\r' ∉ cur) (ht : '\r' ∉ t) :
    (linesFrom cur (t ++ ['\n'])).flatMap (fun l => l ++ ['\n']) = cur ++ t ++ ['\n'] := by
  induction t generalizing cur with
  | nil => simp [linesFrom, dropCr_of_not_mem hcur]
  | cons c t ih =>
      rw [List.mem_cons, not_or] at ht
      rw [List.cons_append, linesFrom]
      by_cases hc : c = '\n'
      · rw [if_pos hc, List.flatMap_cons, ih List.not_mem_nil ht.2, dropCr_of_not_mem hcur, hc]
        simp
      · rw [if_neg hc, ih (by simp [hcur, ht.1]) ht.2]
        simp

/-- A text without carriage returns is its lines, when its last line is ended. -/
theorem flatMap_lines {t : Str} (hr : '\r' ∉ t) (hn : ∀ c ∈ t.getLast?, c = '\n') :
    (lines t).flatMap (fun l => l ++ ['\n']) = t := by
  rcases List.eq_nil_or_concat' t with rfl | ⟨p, c, rfl⟩
  · rfl
  · have hc : c = '\n' := hn c (by simp)
    subst hc
    rw [List.mem_append, not_or] at hr
    exact linesFrom_append_newline List.not_mem_nil hr.1

theorem mem_linesFrom_not_newline {cur s l : Str} (hcur : '\n' ∉ cur)
    (h : l ∈ linesFrom cur s) : '\n' ∉ l := by
  induction s generalizing cur with
  | nil =>
      rw [linesFrom] at h
      split at h
      · simp at h
      · rw [List.mem_singleton.mp h]
        exact hcur
  | cons c s ih =>
      rw [linesFrom] at h
      split at h
      · rcases List.mem_cons.mp h with rfl | h
        · intro hmem
          refine hcur ?_
          rw [dropCr] at hmem
          cases hs : stripSuffix ['\r'] cur with
          | none => simpa [hs] using hmem
          | some r =>
              rw [hs, Option.getD_some] at hmem
              rw [stripSuffix, Option.map_eq_some_iff] at hs
              obtain ⟨t, ht, rfl⟩ := hs
              have hcons := stripPrefix_eq_some.mp ht
              rw [← List.mem_reverse, hcons]
              simp only [List.mem_append]
              exact Or.inr (List.mem_reverse.mp hmem)
        · exact ih (by simp) h
      · rename_i hc
        exact ih (by simp [hcur, Ne.symm hc]) h

/-- No line of a text holds a line feed. -/
theorem not_newline_of_mem_lines {s l : Str} (h : l ∈ lines s) : '\n' ∉ l :=
  mem_linesFrom_not_newline (by simp) h

@[simp] theorem join_nil (sep : Str) : join sep [] = [] := rfl

theorem join_cons (sep a : Str) (l : List Str) :
    join sep (a :: l) = a ++ l.flatMap fun b => sep ++ b := by
  induction l generalizing a with
  | nil => exact List.append_nil a |>.symm ▸ List.intercalate_singleton
  | cons b l ih =>
      rw [join, List.intercalate_cons_cons, ← join, ih, List.flatMap_cons]
      simp

/-- What lies in a joined list lies in one of its texts or in the separator. -/
theorem mem_join {c : Char} {sep : Str} {l : List Str} (h : c ∈ join sep l) :
    (∃ w ∈ l, c ∈ w) ∨ c ∈ sep := by
  cases l with
  | nil => cases h
  | cons a l =>
      rw [join_cons, List.mem_append] at h
      rcases h with h | h
      · exact Or.inl ⟨a, List.mem_cons_self, h⟩
      · obtain ⟨b, hb, hc⟩ := List.mem_flatMap.mp h
        rcases List.mem_append.mp hc with hc | hc
        · exact Or.inr hc
        · exact Or.inl ⟨b, List.mem_cons_of_mem _ hb, hc⟩

end Str

end Foundation
