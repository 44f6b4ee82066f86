import Mathlib.Data.List.Basic
import SolidPod.Foundation.Text

/-!
# UTF-8 octets of a text

The octets of a text are those of its scalar values, one after the other. A
scalar value below `0x80` is one octet, every other one is at least two, so
reading octets back as scalar values (`bytesAsChars`) leaves exactly the ASCII
texts as they were and makes every other text longer.
-/

namespace Foundation

abbrev Bytes := List UInt8

/-- A statement about the octets of a list is decided along the list. -/
instance (priority := high) decidableForallMemBytes (p : UInt8 → Prop) [DecidablePred p]
    (b : Bytes) : Decidable (∀ x ∈ b, p x) :=
  List.decidableBAll p b

namespace Str

def utf8 (s : Str) : Bytes := s.flatMap String.utf8EncodeChar

/-- The length of a text in octets. -/
def byteLen (s : Str) : Nat := (utf8 s).length

/-- The text that `b` encodes, when `b` is well-formed UTF-8. -/
def fromUtf8 (b : Bytes) : Option Str :=
  (ByteArray.utf8Decode? b.toByteArray).map Array.toList

/-- Octets read as the scalar values of the same number. -/
def bytesAsChars (b : Bytes) : Str := b.map fun x => Char.ofNat x.toNat

def isAscii (c : Char) : Bool := c.toNat < 0x80

@[simp] theorem utf8_nil : utf8 [] = [] := rfl

theorem utf8_cons (c : Char) (s : Str) : utf8 (c :: s) = String.utf8EncodeChar c ++ utf8 s :=
  rfl

theorem utf8_append (s t : Str) : utf8 (s ++ t) = utf8 s ++ utf8 t := by
  simp [utf8]

theorem utf8_flatMap {ι : Type*} (l : List ι) (f : ι → Str) :
    utf8 (l.flatMap f) = l.flatMap fun x => utf8 (f x) :=
  List.flatMap_assoc

@[simp] theorem fromUtf8_utf8 (s : Str) : fromUtf8 (utf8 s) = some s := by
  have h : (utf8 s).toByteArray = List.utf8Encode s := rfl
  simp [fromUtf8, h]

theorem utf8_injective : Function.Injective utf8 := by
  intro s t h
  have hs := fromUtf8_utf8 s
  rw [h, fromUtf8_utf8] at hs
  exact (Option.some.inj hs).symm

theorem utf8EncodeChar_of_isAscii {c : Char} (h : isAscii c = true) :
    bytesAsChars (String.utf8EncodeChar c) = [c] := by
  have hlt : c.toNat < 128 := by simpa [isAscii] using h
  have hle : c.val.toNat ≤ 127 := Nat.lt_succ_iff.mp hlt
  have hmod : c.val.toNat % 256 = c.val.toNat := Nat.mod_eq_of_lt (by omega)
  simp only [bytesAsChars, String.utf8EncodeChar, hle, if_true, List.map_cons, List.map_nil,
    UInt8.toNat_ofNat', hmod]
  exact congrArg (· :: []) (Char.ofNat_toNat c)

/-- A scalar value outside ASCII has at least two octets. -/
theorem two_le_length_utf8EncodeChar {c : Char} (h : isAscii c = false) :
    2 ≤ (String.utf8EncodeChar c).length := by
  have hlt : ¬ c.val.toNat ≤ 127 := by
    simp only [isAscii, decide_eq_false_iff_not, Nat.not_lt] at h
    exact Nat.not_le.mpr h
  simp only [String.utf8EncodeChar, hlt, if_false]
  split
  · simp
  · split <;> simp

theorem one_le_length_utf8EncodeChar (c : Char) : 1 ≤ (String.utf8EncodeChar c).length := by
  cases h : isAscii c with
  | true =>
      have hlen := congrArg List.length (utf8EncodeChar_of_isAscii h)
      simp only [bytesAsChars, List.length_map, List.length_singleton] at hlen
      exact hlen.ge
  | false => exact le_trans (by decide) (two_le_length_utf8EncodeChar h)

theorem bytesAsChars_append (a b : Bytes) :
    bytesAsChars (a ++ b) = bytesAsChars a ++ bytesAsChars b := by
  simp [bytesAsChars]

/-- The octets of a text, each read as one scalar value. -/
def mojibake (s : Str) : Str := bytesAsChars (utf8 s)

@[simp] theorem mojibake_nil : mojibake [] = [] := rfl

theorem mojibake_cons (c : Char) (s : Str) :
    mojibake (c :: s) = bytesAsChars (String.utf8EncodeChar c) ++ mojibake s := by
  rw [mojibake, utf8_cons, bytesAsChars_append]
  rfl

theorem mojibake_of_isAscii {s : Str} (h : ∀ c ∈ s, isAscii c = true) : mojibake s = s := by
  induction s with
  | nil => rfl
  | cons c s ih =>
      rw [mojibake_cons, utf8EncodeChar_of_isAscii (h c (by simp)),
        ih fun d hd => h d (by simp [hd])]
      rfl

theorem length_le_length_mojibake (s : Str) : s.length ≤ (mojibake s).length := by
  induction s with
  | nil => simp
  | cons c s ih =>
      have hc := one_le_length_utf8EncodeChar c
      simp only [mojibake_cons, List.length_append, List.length_cons, bytesAsChars,
        List.length_map]
      omega

theorem length_lt_length_mojibake {s : Str} {c : Char} (hc : c ∈ s) (h : isAscii c = false) :
    s.length < (mojibake s).length := by
  induction s with
  | nil => simp at hc
  | cons d s ih =>
      have hd := one_le_length_utf8EncodeChar d
      have hle := length_le_length_mojibake s
      simp only [mojibake_cons, List.length_append, List.length_cons, bytesAsChars,
        List.length_map]
      rcases List.mem_cons.mp hc with rfl | hc
      · have htwo := two_le_length_utf8EncodeChar h
        omega
      · have := ih hc
        omega

/-- The octets of a scalar value outside ASCII are no ASCII ones. -/
theorem le_of_mem_utf8EncodeChar {c : Char} (h : isAscii c = false) {b : UInt8}
    (hb : b ∈ String.utf8EncodeChar c) : 128 ≤ b.toNat := by
  have hlt : ¬ c.val.toNat ≤ 127 := by
    simp only [isAscii, decide_eq_false_iff_not, Nat.not_lt] at h
    exact Nat.not_le.mpr h
  simp only [String.utf8EncodeChar, hlt, if_false] at hb
  split_ifs at hb with h2 h3
  · simp only [List.mem_cons, List.not_mem_nil, or_false] at hb
    rcases hb with rfl | rfl <;> rw [UInt8.toNat_ofNat'] <;> omega
  · simp only [List.mem_cons, List.not_mem_nil, or_false] at hb
    rcases hb with rfl | rfl | rfl <;> rw [UInt8.toNat_ofNat'] <;> omega
  · simp only [List.mem_cons, List.not_mem_nil, or_false] at hb
    rcases hb with rfl | rfl | rfl | rfl <;> rw [UInt8.toNat_ofNat'] <;> omega

theorem exists_not_isAscii_utf8EncodeChar {c : Char} (h : isAscii c = false) :
    ∃ d ∈ bytesAsChars (String.utf8EncodeChar c), isAscii d = false := by
  obtain ⟨b, hb⟩ := List.exists_mem_of_length_pos (one_le_length_utf8EncodeChar c)
  have hle := le_of_mem_utf8EncodeChar h hb
  have hvalid : b.toNat.isValidChar := Or.inl (by have := b.toNat_lt; omega)
  have hchar : (Char.ofNat b.toNat).toNat = b.toNat := by
    rw [Char.ofNat, dif_pos hvalid]
    rfl
  refine ⟨_, List.mem_map_of_mem hb, ?_⟩
  rw [isAscii, hchar, decide_eq_false_iff_not]
  omega

/-- A text whose octets are ASCII is ASCII. -/
theorem isAscii_of_mojibake {s : Str} (h : ∀ c ∈ mojibake s, isAscii c = true) :
    ∀ c ∈ s, isAscii c = true := by
  intro c hc
  by_contra hna
  obtain ⟨d, hd, hdna⟩ := exists_not_isAscii_utf8EncodeChar ((Bool.not_eq_true _).mp hna)
  have hmem : d ∈ mojibake s := by
    rw [mojibake, bytesAsChars, utf8, List.map_flatMap, List.mem_flatMap]
    exact ⟨c, hc, hd⟩
  rw [h d hmem] at hdna
  cases hdna

/-- A text is its own octets exactly when it is ASCII. -/
theorem mojibake_eq_self_iff {s : Str} : mojibake s = s ↔ ∀ c ∈ s, isAscii c = true := by
  constructor
  · intro h c hc
    by_contra hna
    have hlt := length_lt_length_mojibake hc (by simpa using hna)
    rw [h] at hlt
    exact lt_irrefl _ hlt
  · exact mojibake_of_isAscii

/-- An ASCII character is in a text when its octet is in the octets of the text. -/
theorem mem_of_octet_mem_utf8 {c : Char} (hc : isAscii c = true) {s : Str}
    (h : UInt8.ofNat c.toNat ∈ utf8 s) : c ∈ s := by
  obtain ⟨d, hd, hmem⟩ := List.mem_flatMap.mp h
  have hlt : c.toNat < 128 := by simpa [isAscii] using hc
  cases hda : isAscii d with
  | false =>
      have hle := le_of_mem_utf8EncodeChar hda hmem
      rw [UInt8.toNat_ofNat'] at hle
      omega
  | true =>
      have hchar := List.mem_map_of_mem (f := fun x : UInt8 => Char.ofNat x.toNat) hmem
      change _ ∈ bytesAsChars _ at hchar
      rw [utf8EncodeChar_of_isAscii hda, List.mem_singleton, UInt8.toNat_ofNat',
        Nat.mod_eq_of_lt (by omega), Char.ofNat_toNat] at hchar
      rwa [hchar]

end Str

end Foundation
