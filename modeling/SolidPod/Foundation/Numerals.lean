import Mathlib.Algebra.Group.Nat.Defs
import Mathlib.Data.UInt
import SolidPod.Foundation.Text

/-!
# Numbers of a fixed width

An unsigned number of a fixed width is read from digits, which a plus sign may stand
before. The digits that a number is written with are read as that number. A sum or a
negation that does not fit is a panic in a build with overflow checks, and wraps around
in one without.
-/

namespace Foundation

namespace Str

/-- The unsigned number of `bits` bits that a text is read as. -/
def parseUnsigned (bits : ℕ) (s : Str) : Option ℕ :=
  let digits := (stripPrefix ['+'] s).getD s
  let n := Nat.ofDigitChars 10 digits 0
  if digits ≠ [] ∧ (∀ c ∈ digits, c.isDigit = true) ∧ n < 2 ^ bits then some n else none

theorem isWhitespace_of_isDigit {c : Char} (h : c.isDigit = true) : isWhitespace c = false := by
  have hrange : 48 ≤ c.toNat ∧ c.toNat ≤ 57 := by
    simpa [Char.isDigit, UInt32.le_iff_toNat_le] using h
  simp only [isWhitespace]
  obtain ⟨hlow, hhigh⟩ := hrange
  simp
  omega

theorem notMem_toDigits {c : Char} (h : c.isDigit = false) (n : ℕ) : c ∉ Nat.toDigits 10 n := by
  intro hmem
  have hdigit : c.isDigit = true := Nat.isDigit_of_mem_toDigits (by decide) (by decide) hmem
  rw [h] at hdigit
  cases hdigit

theorem parseUnsigned_toDigits {bits n : ℕ} (h : n < 2 ^ bits) :
    parseUnsigned bits (Nat.toDigits 10 n) = some n := by
  have hsign : stripPrefix ['+'] (Nat.toDigits 10 n) = none := by
    rw [stripPrefix_eq_none]
    rintro ⟨rest, hrest⟩
    refine notMem_toDigits (c := '+') (by decide) n ?_
    rw [← hrest]
    exact List.mem_cons_self
  have hdigits : ∀ c ∈ Nat.toDigits 10 n, c.isDigit = true := fun c hc =>
    Nat.isDigit_of_mem_toDigits (by decide) (by decide) hc
  have hvalue : Nat.ofDigitChars 10 (Nat.toDigits 10 n) 0 = n := Nat.ofDigitChars_ten_toDigits
  rw [parseUnsigned, hsign, Option.getD_none]
  simp only [hvalue]
  rw [if_pos ⟨Nat.toDigits_ne_nil, hdigits, h⟩]

end Str

def addU64 (overflowChecks : Bool) (a b : UInt64) : Option UInt64 :=
  if a.toNat + b.toNat < 2 ^ 64 then some (a + b)
  else if overflowChecks then none else some (a + b)

theorem eq_add_of_addU64 {overflowChecks : Bool} {a b c : UInt64}
    (h : addU64 overflowChecks a b = some c) : c = a + b := by
  rw [addU64] at h
  split_ifs at h
  · exact (Option.some.inj h).symm
  · exact (Option.some.inj h).symm

def addU32 (overflowChecks : Bool) (a b : UInt32) : Option UInt32 :=
  if a.toNat + b.toNat < 2 ^ 32 then some (a + b)
  else if overflowChecks then none else some (a + b)

/-- A sum that fits is the same in every build. -/
theorem addU32_of_lt (overflowChecks : Bool) {a b : UInt32} (h : a.toNat + b.toNat < 2 ^ 32) :
    ∃ c, addU32 overflowChecks a b = some c ∧ c.toNat = a.toNat + b.toNat := by
  refine ⟨a + b, if_pos h, ?_⟩
  rw [UInt32.toNat_add, Nat.mod_eq_of_lt h]

/-- The least number has no counterpart. -/
def negI64 (overflowChecks : Bool) (a : Int64) : Option Int64 :=
  if a = Int64.minValue ∧ overflowChecks = true then none else some (-a)

/-- The bits of a negation are those of the absolute value, also where it wraps around. -/
theorem toNat_toUInt64_neg {a : Int64} (h : a < 0) :
    ((-a).toUInt64.toNat : ℤ) = -a.toInt := by
  have hneg : a.toInt < 0 := Int64.lt_iff_toInt_lt.mp h
  have hcast : a.toInt = a.toBitVec.toInt := rfl
  rw [hcast, BitVec.toInt_eq_toNat_cond] at hneg
  have hbits : (-a).toUInt64.toNat = (-a.toBitVec).toNat := rfl
  rw [hbits, hcast, BitVec.toInt_eq_toNat_cond, BitVec.toNat_neg]
  have hlt := a.toBitVec.isLt
  omega

end Foundation
