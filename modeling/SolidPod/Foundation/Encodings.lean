import SolidPod.Foundation.Utf8

/-!
# Octets as texts

In hexadecimal an octet is two digits, the high one first. It is written in lower
case and read in either case. In base64, with the standard alphabet and padding, three
octets are four digits of six bits; one or two octets that are left over are padded.
Reading is strict: padding stands at the end of the last group only, and the bits that it
cuts off are zero. So a text is read as octets only if it is the one that they are written
as.
-/

namespace Foundation

namespace Hex

def digit (n : Nat) : Char := ("0123456789abcdef" : Str).getD n '0'

/-- The value of the digit with a code point. -/
def valueAt (n : Nat) : Option Nat :=
  if 0x41 ≤ n ∧ n ≤ 0x46 then some (n - 0x41 + 10)
  else if 0x61 ≤ n ∧ n ≤ 0x66 then some (n - 0x61 + 10)
  else if 0x30 ≤ n ∧ n ≤ 0x39 then some (n - 0x30)
  else none

def value (c : Char) : Option Nat := valueAt c.toNat

def encode (b : Bytes) : Str := b.flatMap fun a => [digit (a.toNat / 16), digit (a.toNat % 16)]

def decode : Str → Option Bytes
  | [] => some []
  | [_] => none
  | c :: d :: rest => do
    let high ← value c
    let low ← value d
    let bytes ← decode rest
    some (.ofNat (high * 16 + low) :: bytes)

theorem value_digit : ∀ n < 16, value (digit n) = some n := by decide

theorem decode_encode (b : Bytes) : decode (encode b) = some b := by
  induction b with
  | nil => rfl
  | cons a b ih =>
      have hlt := a.toNat_lt
      have hoctet : UInt8.ofNat (a.toNat / 16 * 16 + a.toNat % 16) = a := by
        rw [Nat.div_add_mod' a.toNat 16, UInt8.ofNat_toNat]
      change decode (digit (a.toNat / 16) :: digit (a.toNat % 16) :: encode b) = _
      rw [decode, value_digit _ (by omega), value_digit _ (by omega), ih]
      exact congrArg (fun x => some (x :: b)) hoctet

theorem mem_digits_of_mem_encode {b : Bytes} {c : Char} (h : c ∈ encode b) :
    c ∈ ("0123456789abcdef" : Str) := by
  have hdigit : ∀ n < 16, digit n ∈ ("0123456789abcdef" : Str) := by decide
  obtain ⟨a, -, ha⟩ := List.mem_flatMap.mp h
  have hlt := a.toNat_lt
  simp only [List.mem_cons, List.not_mem_nil, or_false] at ha
  cases ha with
  | inl hhigh =>
      rw [hhigh]
      exact hdigit _ (by omega)
  | inr hlow =>
      rw [hlow]
      exact hdigit _ (by omega)

theorem length_encode (b : Bytes) : (encode b).length = 2 * b.length := by
  induction b with
  | nil => rfl
  | cons a b ih =>
      change (encode b).length + 2 = 2 * (b.length + 1)
      omega

/-- Every octet was read from two characters. -/
theorem length_of_decode {s : Str} {b : Bytes} (h : decode s = some b) :
    s.length = 2 * b.length := by
  induction s using decode.induct generalizing b with
  | case1 =>
      cases h
      rfl
  | case2 c => cases h
  | case3 c d rest ih =>
      rw [decode] at h
      simp only [Option.bind_eq_bind, Option.bind_eq_some_iff, Option.some.injEq] at h
      obtain ⟨high, -, low, -, bytes, hbytes, rfl⟩ := h
      rw [List.length_cons, List.length_cons, List.length_cons, ih hbytes]
      omega

theorem value_toLower (c : Char) : value c.toLower = value c := by
  unfold Char.toLower
  split
  · rename_i hupper
    have hlow : 65 ≤ c.toNat := hupper.1
    have hhigh : c.toNat ≤ 90 := hupper.2
    have hnat : (c.val + 32).toNat = c.toNat + 32 := by
      rw [UInt32.toNat_add]
      change (c.toNat + 32) % 4294967296 = c.toNat + 32
      omega
    change valueAt (c.val + 32).toNat = valueAt c.toNat
    rw [hnat, valueAt, valueAt]
    rcases Nat.lt_or_ge 70 c.toNat with hbehind | hdigit
    · rw [if_neg (by omega), if_neg (by omega), if_neg (by omega), if_neg (by omega),
        if_neg (by omega), if_neg (by omega)]
    · rw [if_neg (by omega), if_pos (by omega), if_pos (by omega)]
      exact congrArg some (by omega)
  · rfl

/-- The case of the letters does not matter. -/
theorem decode_toAsciiLowercase (s : Str) : decode (Str.toAsciiLowercase s) = decode s := by
  induction s using decode.induct with
  | case1 => rfl
  | case2 c => rfl
  | case3 c d rest ih =>
      change decode (c.toLower :: d.toLower :: Str.toAsciiLowercase rest) = _
      rw [decode, decode, value_toLower, value_toLower, ih]

end Hex

namespace Base64

def alphabet : Str := "ABCDEFGHIJKLMNOPQRSTUVWXYZabcdefghijklmnopqrstuvwxyz0123456789+/"

def digit (n : Nat) : Char := alphabet.getD n '='

/-- The value of a digit. -/
def value (c : Char) : Option Nat := alphabet.idxOf? c

def encode : Bytes → Str
  | [] => []
  | [a] => [digit (a.toNat / 4), digit (a.toNat % 4 * 16), '=', '=']
  | [a, b] =>
    [digit (a.toNat / 4), digit (a.toNat % 4 * 16 + b.toNat / 16), digit (b.toNat % 16 * 4), '=']
  | a :: b :: c :: rest =>
    digit (a.toNat / 4) :: digit (a.toNat % 4 * 16 + b.toNat / 16) ::
      digit (b.toNat % 16 * 4 + c.toNat / 64) :: digit (c.toNat % 64) :: encode rest

def decode : Str → Option Bytes
  | [] => some []
  | x :: y :: z :: w :: rest =>
    if w = '=' ∧ rest = [] then
      if z = '=' then do
        let x ← value x
        let y ← value y
        if y % 16 = 0 then some [.ofNat (x * 4 + y / 16)] else none
      else do
        let x ← value x
        let y ← value y
        let z ← value z
        if z % 4 = 0 then some [.ofNat (x * 4 + y / 16), .ofNat (y % 16 * 16 + z / 4)] else none
    else do
      let x ← value x
      let y ← value y
      let z ← value z
      let w ← value w
      let bytes ← decode rest
      some (.ofNat (x * 4 + y / 16) :: .ofNat (y % 16 * 16 + z / 4) :: .ofNat (z % 4 * 64 + w) ::
        bytes)
  | _ => none

theorem length_alphabet : alphabet.length = 64 := by decide

theorem value_digit : ∀ n < 64, value (digit n) = some n := by decide

theorem digit_of_value {c : Char} {n : Nat} (h : value c = some n) : digit n = c := by
  obtain ⟨hlt, hc, -⟩ := List.idxOf?_eq_some_iff.mp h
  rw [digit, List.getD_eq_getElem?_getD, List.getElem?_eq_getElem hlt, hc, Option.getD_some]

theorem lt_of_value {c : Char} {n : Nat} (h : value c = some n) : n < 64 := by
  obtain ⟨hlt, -⟩ := List.idxOf?_eq_some_iff.mp h
  rwa [length_alphabet] at hlt

theorem digit_ne_pad {n : Nat} (h : n < 64) : digit n ≠ '=' := by
  intro hpad
  have hvalue := value_digit n h
  rw [hpad] at hvalue
  cases hvalue

theorem ofNat_eq {n : Nat} {a : UInt8} (h : n = a.toNat) : UInt8.ofNat n = a := by
  rw [h, UInt8.ofNat_toNat]

example : encode [0x66, 0x6f, 0x6f, 0x62] = "Zm9vYg==" := by decide

/-! ## The octets of a group -/

section Octets

variable (a b c : UInt8)

theorem first_lt : a.toNat / 4 < 64 := by
  have := a.toNat_lt
  omega

theorem second_lt : a.toNat % 4 * 16 + b.toNat / 16 < 64 := by
  have := b.toNat_lt
  omega

theorem third_lt : b.toNat % 16 * 4 + c.toNat / 64 < 64 := by
  have := c.toNat_lt
  omega

theorem first_octet :
    UInt8.ofNat (a.toNat / 4 * 4 + (a.toNat % 4 * 16 + b.toNat / 16) / 16) = a := by
  have := b.toNat_lt
  exact ofNat_eq (by omega)

theorem second_octet : UInt8.ofNat ((a.toNat % 4 * 16 + b.toNat / 16) % 16 * 16 +
    (b.toNat % 16 * 4 + c.toNat / 64) / 4) = b := by
  have := b.toNat_lt
  have := c.toNat_lt
  exact ofNat_eq (by omega)

theorem third_octet :
    UInt8.ofNat ((b.toNat % 16 * 4 + c.toNat / 64) % 4 * 64 + c.toNat % 64) = c := by
  have := c.toNat_lt
  exact ofNat_eq (by omega)

end Octets

theorem decode_encode (b : Bytes) : decode (encode b) = some b := by
  induction b using encode.induct with
  | case1 => rfl
  | case2 a =>
      have hsecond := second_lt a 0
      have hfirst := first_octet a 0
      simp only [UInt8.toNat_zero, Nat.zero_div, Nat.add_zero] at hsecond hfirst
      rw [encode, decode, if_pos ⟨rfl, rfl⟩, if_pos rfl, value_digit _ (first_lt a),
        value_digit _ hsecond]
      simp only [Option.bind_eq_bind, Option.bind_some]
      rw [if_pos (by omega), hfirst]
  | case3 a b =>
      have hthird := third_lt b 0
      have hsecond := second_octet a b 0
      simp only [UInt8.toNat_zero, Nat.zero_div, Nat.add_zero] at hthird hsecond
      rw [encode, decode, if_pos ⟨rfl, rfl⟩, if_neg (digit_ne_pad hthird),
        value_digit _ (first_lt a), value_digit _ (second_lt a b), value_digit _ hthird]
      simp only [Option.bind_eq_bind, Option.bind_some]
      rw [if_pos (by omega), first_octet, hsecond]
  | case4 a b c rest ih =>
      have hlast : c.toNat % 64 < 64 := Nat.mod_lt _ (by decide)
      rw [encode, decode, if_neg fun h => digit_ne_pad hlast h.1, value_digit _ (first_lt a),
        value_digit _ (second_lt a b), value_digit _ (third_lt b c), value_digit _ hlast, ih]
      simp only [Option.bind_eq_bind, Option.bind_some]
      rw [first_octet, second_octet, third_octet]

/-! ## The digits of a group -/

section Digits

variable {x y z w : Nat}

theorem encode_one (hx : x < 64) (hy : y < 64) (hpad : y % 16 = 0) :
    encode [.ofNat (x * 4 + y / 16)] = [digit x, digit y, '=', '='] := by
  rw [encode, UInt8.toNat_ofNat_of_lt' (by simp only [UInt8.size]; omega)]
  congr 3 <;> omega

theorem encode_two (hx : x < 64) (hy : y < 64) (hz : z < 64) (hpad : z % 4 = 0) :
    encode [.ofNat (x * 4 + y / 16), .ofNat (y % 16 * 16 + z / 4)] =
      [digit x, digit y, digit z, '='] := by
  rw [encode, UInt8.toNat_ofNat_of_lt' (by simp only [UInt8.size]; omega),
    UInt8.toNat_ofNat_of_lt' (by simp only [UInt8.size]; omega)]
  congr 4 <;> omega

theorem encode_group (hx : x < 64) (hy : y < 64) (hz : z < 64) (hw : w < 64) (bytes : Bytes) :
    encode (.ofNat (x * 4 + y / 16) :: .ofNat (y % 16 * 16 + z / 4) :: .ofNat (z % 4 * 64 + w) ::
      bytes) = digit x :: digit y :: digit z :: digit w :: encode bytes := by
  rw [encode, UInt8.toNat_ofNat_of_lt' (by simp only [UInt8.size]; omega),
    UInt8.toNat_ofNat_of_lt' (by simp only [UInt8.size]; omega),
    UInt8.toNat_ofNat_of_lt' (by simp only [UInt8.size]; omega)]
  congr 5 <;> omega

end Digits

theorem encode_of_decode : ∀ {s : Str} {b : Bytes}, decode s = some b → encode b = s
  | [], _, h => by
      cases h
      rfl
  | [_], _, h => nomatch h
  | [_, _], _, h => nomatch h
  | [_, _, _], _, h => nomatch h
  | x :: y :: z :: w :: rest, b, h => by
      rw [decode] at h
      split_ifs at h with hend hpad
      · obtain ⟨n, hn, h⟩ := Option.bind_eq_some_iff.mp h
        obtain ⟨m, hm, h⟩ := Option.bind_eq_some_iff.mp h
        obtain ⟨hzero, h⟩ := Option.ite_none_right_eq_some.mp h
        cases h
        rw [encode_one (lt_of_value hn) (lt_of_value hm) hzero, digit_of_value hn,
          digit_of_value hm, hend.1, hend.2, hpad]
      · obtain ⟨n, hn, h⟩ := Option.bind_eq_some_iff.mp h
        obtain ⟨m, hm, h⟩ := Option.bind_eq_some_iff.mp h
        obtain ⟨k, hk, h⟩ := Option.bind_eq_some_iff.mp h
        obtain ⟨hzero, h⟩ := Option.ite_none_right_eq_some.mp h
        cases h
        rw [encode_two (lt_of_value hn) (lt_of_value hm) (lt_of_value hk) hzero,
          digit_of_value hn, digit_of_value hm, digit_of_value hk, hend.1, hend.2]
      · obtain ⟨n, hn, h⟩ := Option.bind_eq_some_iff.mp h
        obtain ⟨m, hm, h⟩ := Option.bind_eq_some_iff.mp h
        obtain ⟨k, hk, h⟩ := Option.bind_eq_some_iff.mp h
        obtain ⟨l, hl, h⟩ := Option.bind_eq_some_iff.mp h
        obtain ⟨bytes, hbytes, h⟩ := Option.bind_eq_some_iff.mp h
        cases h
        rw [encode_group (lt_of_value hn) (lt_of_value hm) (lt_of_value hk) (lt_of_value hl),
          digit_of_value hn, digit_of_value hm, digit_of_value hk, digit_of_value hl,
          encode_of_decode hbytes]

theorem digit_mem {n : Nat} (h : n < 64) : digit n ∈ alphabet := by
  rw [digit, List.getD_eq_getElem?_getD, List.getElem?_eq_getElem (length_alphabet ▸ h)]
  exact List.getElem_mem _

theorem mem_encode {b : Bytes} {c : Char} (h : c ∈ encode b) : c = '=' ∨ c ∈ alphabet := by
  induction b using encode.induct with
  | case1 => cases h
  | case2 a =>
      have hsecond := second_lt a 0
      simp only [UInt8.toNat_zero, Nat.zero_div, Nat.add_zero] at hsecond
      simp only [encode, List.mem_cons, List.not_mem_nil, or_false] at h
      rcases h with rfl | rfl | rfl | rfl
      · exact Or.inr (digit_mem (first_lt a))
      · exact Or.inr (digit_mem hsecond)
      · exact Or.inl rfl
      · exact Or.inl rfl
  | case3 a b =>
      have hthird := third_lt b 0
      simp only [UInt8.toNat_zero, Nat.zero_div, Nat.add_zero] at hthird
      simp only [encode, List.mem_cons, List.not_mem_nil, or_false] at h
      rcases h with rfl | rfl | rfl | rfl
      · exact Or.inr (digit_mem (first_lt a))
      · exact Or.inr (digit_mem (second_lt a b))
      · exact Or.inr (digit_mem hthird)
      · exact Or.inl rfl
  | case4 a b c rest ih =>
      simp only [encode, List.mem_cons] at h
      rcases h with rfl | rfl | rfl | rfl | h
      · exact Or.inr (digit_mem (first_lt a))
      · exact Or.inr (digit_mem (second_lt a b))
      · exact Or.inr (digit_mem (third_lt b c))
      · exact Or.inr (digit_mem (Nat.mod_lt _ (by decide)))
      · exact ih h

/-- A character that is neither a digit nor the padding. -/
theorem notMem_encode {c : Char} (hpad : c ≠ '=') (halphabet : c ∉ alphabet) (b : Bytes) :
    c ∉ encode b := fun h => (mem_encode h).elim hpad halphabet

theorem encode_injective : Function.Injective encode := by
  intro a b h
  have ha := decode_encode a
  rw [h, decode_encode] at ha
  exact (Option.some.inj ha).symm

end Base64

end Foundation
