import Mathlib.Algebra.Field.Rat
import Mathlib.Tactic.NormNum
import SolidPod.Foundation.Numerals

/-!
# Decimal fractions

What a text is as a float of 32 bits, before it is rounded: a sign, then a decimal number with
or without an exponent, or the name of an infinity or of what is not a number.
-/

namespace Foundation

inductive F32 where
  | nan
  | infinite (negative : Bool)
  | finite (q : ℚ)
  deriving DecidableEq

namespace F32

/-- What is not a number is neither greater nor smaller than anything. -/
def gt : F32 → F32 → Bool
  | finite p, finite q => decide (q < p)
  | infinite false, finite _ => true
  | infinite false, infinite true => true
  | finite _, infinite true => true
  | _, _ => false

end F32

namespace Str

def splitSign : Str → Bool × Str
  | '-' :: s => (true, s)
  | '+' :: s => (false, s)
  | s => (false, s)

def parseDigits (s : Str) : Option ℕ :=
  if s ≠ [] ∧ ∀ c ∈ s, c.isDigit = true then some (Nat.ofDigitChars 10 s 0) else none

def parseMantissa (s : Str) : Option ℚ :=
  match splitOnce '.' s with
  | none => (parseDigits s).map fun n : ℕ => (n : ℚ)
  | some (whole, fraction) =>
      (parseDigits (whole ++ fraction)).map fun n : ℕ => (n : ℚ) / 10 ^ fraction.length

def parseExponent (s : Str) : Option ℤ :=
  (parseDigits (splitSign s).2).map fun n : ℕ => if (splitSign s).1 then -(n : ℤ) else n

def parseDecimal (s : Str) : Option ℚ :=
  match splitOnce 'e' s with
  | none => parseMantissa s
  | some (mantissa, exponent) =>
      (parseMantissa mantissa).bind fun m => (parseExponent exponent).map fun e => m * 10 ^ e

def parseF32 (s : Str) : Option F32 :=
  let (negative, unsigned) := splitSign s
  let lower := toAsciiLowercase unsigned
  if lower = "nan".toList then some .nan
  else if lower = "inf".toList ∨ lower = "infinity".toList then some (.infinite negative)
  else (parseDecimal lower).map fun q => .finite (if negative then -q else q)

example : parseF32 "0.85" = some (.finite (17 / 20)) := by decide +kernel

/-! ## What a number is written with -/

def IsDecimalChar (c : Char) : Prop := c.isDigit = true ∨ c ∈ ['+', '-', '.', 'e']

instance (c : Char) : Decidable (IsDecimalChar c) := inferInstanceAs (Decidable (_ ∨ _))

variable {s : Str} {q : ℚ}

theorem isDigit_of_parseDigits {n : ℕ} (h : parseDigits s = some n) :
    ∀ c ∈ s, c.isDigit = true := by
  rw [parseDigits] at h
  split_ifs at h with hs
  exact hs.2

theorem isWhitespace_of_isDecimalChar {c : Char} (h : IsDecimalChar c) :
    isWhitespace c = false := by
  rcases h with hdigit | hmark
  · exact isWhitespace_of_isDigit hdigit
  · revert c
    decide

theorem forall_mem_of_splitSign {P : Char → Prop} (hminus : P '-') (hplus : P '+')
    (h : ∀ c ∈ (splitSign s).2, P c) : ∀ c ∈ s, P c := by
  intro c hc
  fun_cases splitSign s with
  | case1 rest =>
      rcases List.mem_cons.mp hc with rfl | hc
      · exact hminus
      · exact h c hc
  | case2 rest =>
      rcases List.mem_cons.mp hc with rfl | hc
      · exact hplus
      · exact h c hc
  | case3 rest hnotMinus hnotPlus =>
      rw [splitSign] at h
      · exact h c hc
      · exact hnotMinus
      · exact hnotPlus

theorem isDecimalChar_of_parseMantissa (h : parseMantissa s = some q) :
    ∀ c ∈ s, IsDecimalChar c := by
  intro c hc
  cases hdot : splitOnce '.' s with
  | none =>
      simp only [parseMantissa, hdot, Option.map_eq_some_iff] at h
      obtain ⟨n, hn, -⟩ := h
      exact Or.inl (isDigit_of_parseDigits hn c hc)
  | some parts =>
      obtain ⟨whole, fraction⟩ := parts
      simp only [parseMantissa, hdot, Option.map_eq_some_iff] at h
      obtain ⟨n, hn, -⟩ := h
      have hdigits := isDigit_of_parseDigits hn
      rw [(eq_append_of_splitOnce hdot).1] at hc
      rcases List.mem_append.mp hc with hc | hc
      · exact Or.inl (hdigits c (List.mem_append_left _ hc))
      · rcases List.mem_cons.mp hc with rfl | hc
        · exact Or.inr (by decide)
        · exact Or.inl (hdigits c (List.mem_append_right _ hc))

theorem isDecimalChar_of_parseExponent {e : ℤ} (h : parseExponent s = some e) :
    ∀ c ∈ s, IsDecimalChar c := by
  rw [parseExponent, Option.map_eq_some_iff] at h
  obtain ⟨n, hn, -⟩ := h
  refine forall_mem_of_splitSign (Or.inr (by decide)) (Or.inr (by decide)) fun c hc => ?_
  exact Or.inl (isDigit_of_parseDigits hn c hc)

theorem isDecimalChar_of_parseDecimal (h : parseDecimal s = some q) :
    ∀ c ∈ s, IsDecimalChar c := by
  cases hexp : splitOnce 'e' s with
  | none =>
      simp only [parseDecimal, hexp] at h
      exact isDecimalChar_of_parseMantissa h
  | some parts =>
      obtain ⟨mantissa, exponent⟩ := parts
      simp only [parseDecimal, hexp, Option.bind_eq_some_iff, Option.map_eq_some_iff] at h
      obtain ⟨m, hm, e, he, -⟩ := h
      intro c hc
      rw [(eq_append_of_splitOnce hexp).1] at hc
      rcases List.mem_append.mp hc with hc | hc
      · exact isDecimalChar_of_parseMantissa hm c hc
      · rcases List.mem_cons.mp hc with rfl | hc
        · exact Or.inr (by decide)
        · exact isDecimalChar_of_parseExponent he c hc

/-- The text of a finite number holds digits, signs, points and the mark of an exponent. -/
theorem isDecimalChar_toLower_of_parseF32 (h : parseF32 s = some (.finite q)) :
    ∀ c ∈ s, IsDecimalChar c.toLower := by
  simp only [parseF32] at h
  obtain ⟨m, hm⟩ : ∃ m, parseDecimal (toAsciiLowercase (splitSign s).2) = some m := by
    split at h
    · cases h
    · split at h
      · cases h
      · obtain ⟨m, hm, -⟩ := Option.map_eq_some_iff.mp h
        exact ⟨m, hm⟩
  refine forall_mem_of_splitSign (Or.inr (by decide)) (Or.inr (by decide)) fun c hc => ?_
  exact isDecimalChar_of_parseDecimal hm c.toLower (List.mem_map_of_mem hc)

theorem isWhitespace_of_parseF32 (h : parseF32 s = some (.finite q)) :
    ∀ c ∈ s, isWhitespace c = false := by
  intro c hc
  have hdecimal := isDecimalChar_toLower_of_parseF32 h c hc
  cases hwhite : isWhitespace c with
  | false => rfl
  | true =>
      rw [toLower_of_isWhitespace hwhite] at hdecimal
      rw [isWhitespace_of_isDecimalChar hdecimal] at hwhite
      cases hwhite

end Str

end Foundation
