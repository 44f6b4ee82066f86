import Mathlib.Data.Nat.Digits.Lemmas
import SolidPod.Foundation.Utf8

/-!
# Self-describing octets

Base58 writes octets as a number in another base and keeps the zeros in front,
which a number has not. A varint is a number in groups of seven bits, the lowest
first, each but the last with its high bit set, so the end of it is seen and
octets can follow. Both are read back as they were written.
-/

namespace Foundation

/-! ## Another base -/

namespace Radix

variable {b b' : ℕ} {ds : List ℕ}

/-- The digits in another base, highest first, with the same zeros in front. -/
def respell (b b' : ℕ) (ds : List ℕ) : List ℕ :=
  ds.takeWhile (· == 0) ++
    (Nat.digits b' (Nat.ofDigits b (ds.dropWhile (· == 0)).reverse)).reverse

theorem head?_reverse_digits (n : ℕ) : ∀ d ∈ (Nat.digits b n).reverse.head?, d ≠ 0 := by
  intro d hd
  rw [List.head?_reverse] at hd
  by_cases hn : n = 0
  · rw [hn, Nat.digits_zero] at hd
    cases hd
  · have hne : Nat.digits b n ≠ [] := Nat.digits_ne_nil_iff_ne_zero.mpr hn
    rw [List.getLast?_eq_some_getLast hne] at hd
    cases hd
    exact Nat.getLast_digit_ne_zero b hn

theorem takeWhile_append_of_head? {l r : List ℕ} (hl : ∀ d ∈ l, d = 0)
    (hr : ∀ d ∈ r.head?, d ≠ 0) :
    (l ++ r).takeWhile (· == 0) = l ∧ (l ++ r).dropWhile (· == 0) = r := by
  induction l with
  | nil =>
      cases r with
      | nil => exact ⟨rfl, rfl⟩
      | cons d r =>
          have hd : ¬ (d == 0) = true := by simpa using hr d rfl
          exact ⟨List.takeWhile_cons_of_neg hd, List.dropWhile_cons_of_neg hd⟩
  | cons d l ih =>
      obtain rfl : d = 0 := hl d List.mem_cons_self
      obtain ⟨htake, hdrop⟩ := ih fun e he => hl e (List.mem_cons_of_mem 0 he)
      exact ⟨congrArg (0 :: ·) htake, hdrop⟩

theorem eq_zero_of_mem_takeWhile {d : ℕ} (hd : d ∈ ds.takeWhile (· == 0)) : d = 0 :=
  eq_of_beq (List.mem_takeWhile_imp (p := (· == 0)) hd)

theorem head?_dropWhile_ne_zero (ds : List ℕ) : ∀ d ∈ (ds.dropWhile (· == 0)).head?, d ≠ 0 := by
  intro d hd hzero
  have hnot := List.head?_dropWhile_not (· == 0) ds
  rw [Option.mem_def.mp hd, hzero] at hnot
  exact Bool.noConfusion hnot

theorem lt_of_mem_respell (hb' : 1 < b') {d : ℕ} (hd : d ∈ respell b b' ds) : d < b' := by
  rw [respell, List.mem_append, List.mem_reverse] at hd
  rcases hd with hd | hd
  · rw [eq_zero_of_mem_takeWhile hd]
    exact Nat.zero_lt_of_lt hb'
  · exact Nat.digits_lt_base hb' hd

/-- The zeros are found again, and the number has the same digits. -/
theorem respell_respell (hb : 1 < b) (h : ∀ d ∈ ds, d < b) :
    respell b' b (respell b b' ds) = ds := by
  obtain ⟨htake, hdrop⟩ := takeWhile_append_of_head? (fun d hd => eq_zero_of_mem_takeWhile hd)
    (head?_reverse_digits (Nat.ofDigits b (ds.dropWhile (· == 0)).reverse))
  rw [respell, respell, htake, hdrop, List.reverse_reverse, Nat.ofDigits_digits]
  have hlt : ∀ d ∈ (ds.dropWhile (· == 0)).reverse, d < b := by
    intro d hd
    exact h d ((List.dropWhile_sublist _).mem (List.mem_reverse.mp hd))
  have hlast : ∀ hne : (ds.dropWhile (· == 0)).reverse ≠ [],
      (ds.dropWhile (· == 0)).reverse.getLast hne ≠ 0 := by
    intro hne
    refine head?_dropWhile_ne_zero ds _ ?_
    rw [Option.mem_def, ← List.getLast?_reverse, List.getLast?_eq_some_getLast hne]
  rw [Nat.digits_ofDigits b hb _ hlt hlast, List.reverse_reverse]
  exact List.takeWhile_append_dropWhile

theorem ofDigits_reverse_dropWhile (b : ℕ) (ds : List ℕ) :
    Nat.ofDigits b (ds.dropWhile (· == 0)).reverse = Nat.ofDigits b ds.reverse := by
  have hzeros : ∀ l : List ℕ, (∀ d ∈ l, d = 0) → Nat.ofDigits b l = 0 := by
    intro l hl
    induction l with
    | nil => rfl
    | cons d l ih =>
        rw [List.forall_mem_cons] at hl
        rw [Nat.ofDigits_cons, hl.1, ih hl.2, Nat.mul_zero]
  have hsplit :
      ds.reverse = (ds.dropWhile (· == 0)).reverse ++ (ds.takeWhile (· == 0)).reverse := by
    rw [← List.reverse_append, List.takeWhile_append_dropWhile]
  rw [hsplit, Nat.ofDigits_append,
    hzeros _ fun d hd => eq_zero_of_mem_takeWhile (List.mem_reverse.mp hd), Nat.mul_zero,
    Nat.add_zero]

/-! ### One digit after the other -/

/-- The digits of a number, lowest first, when it is multiplied and a carry is added. -/
def mulAdd (b m carry : ℕ) : List ℕ → List ℕ
  | [] => Nat.digits b carry
  | d :: ds => (carry + m * d) % b :: mulAdd b m ((carry + m * d) / b) ds

theorem mulAdd_digits (hb : 1 < b) {m : ℕ} (hm : 0 < m) (n carry : ℕ) :
    mulAdd b m carry (Nat.digits b n) = Nat.digits b (m * n + carry) := by
  induction n using Nat.strong_induction_on generalizing carry with
  | _ n ih =>
      rcases Nat.eq_zero_or_pos n with rfl | hn
      · rw [Nat.digits_zero, mulAdd, Nat.mul_zero, Nat.zero_add]
      · have hpos : 0 < m * n + carry := Nat.add_pos_left (Nat.mul_pos hm hn) carry
        have hsum : m * n + carry = carry + m * (n % b) + b * (m * (n / b)) := by
          conv_lhs => rw [← Nat.mod_add_div n b]
          ring
        have hquot : (m * n + carry) / b = m * (n / b) + (carry + m * (n % b)) / b := by
          rw [hsum, Nat.add_mul_div_left _ _ (Nat.zero_lt_of_lt hb), Nat.add_comm]
        rw [Nat.digits_def' hb hn, Nat.digits_def' hb hpos, mulAdd,
          ih (n / b) (Nat.div_lt_self hn hb), hquot, hsum, Nat.add_mul_mod_self_left]

theorem lt_of_mem_mulAdd (hb : 1 < b) {m carry d : ℕ} (h : d ∈ mulAdd b m carry ds) : d < b := by
  induction ds generalizing carry with
  | nil => exact Nat.digits_lt_base hb h
  | cons e ds ih =>
      rcases List.mem_cons.mp h with rfl | h
      · exact Nat.mod_lt _ (Nat.zero_lt_of_lt hb)
      · exact ih h

/-- Digits that are read from the highest on, each multiplying what was read before. -/
theorem foldl_mulAdd (hb : 1 < b) {m : ℕ} (hm : 0 < m) (ds : List ℕ) :
    ds.foldl (fun acc d => mulAdd b m d acc) [] = Nat.digits b (Nat.ofDigits m ds.reverse) := by
  induction ds using List.reverseRecOn with
  | nil => rw [List.foldl_nil, List.reverse_nil, Nat.ofDigits_nil, Nat.digits_zero]
  | append_singleton ds d ih =>
      rw [List.foldl_append, List.foldl_cons, List.foldl_nil, ih, mulAdd_digits hb hm,
        List.reverse_append, List.reverse_singleton, List.singleton_append, Nat.ofDigits_cons,
        Nat.add_comm]

end Radix

/-! ## Base58 -/

namespace Base58

def alphabet : Str := "123456789ABCDEFGHJKLMNPQRSTUVWXYZabcdefghijkmnopqrstuvwxyz"

def digit (n : ℕ) : Char := alphabet.getD n '1'

def value (c : Char) : Option ℕ := alphabet.idxOf? c

def encode (bytes : Bytes) : Str :=
  (Radix.respell 256 58 (bytes.map UInt8.toNat)).map digit

def decode (text : Str) : Option Bytes :=
  (text.mapM value).map fun ds => (Radix.respell 58 256 ds).map UInt8.ofNat

theorem value_digit : ∀ n < 58, value (digit n) = some n := by decide

theorem mapM_value_digit {ds : List ℕ} (h : ∀ d ∈ ds, d < 58) :
    (ds.map digit).mapM value = some ds := by
  induction ds with
  | nil => rfl
  | cons d ds ih =>
      rw [List.forall_mem_cons] at h
      rw [List.map_cons, List.mapM_cons, value_digit d h.1, ih h.2]
      rfl

theorem decode_encode (bytes : Bytes) : decode (encode bytes) = some bytes := by
  have hdigits : ∀ d ∈ Radix.respell 256 58 (bytes.map UInt8.toNat), d < 58 :=
    fun d hd => Radix.lt_of_mem_respell (by decide) hd
  have hoctets : ∀ d ∈ bytes.map UInt8.toNat, d < 256 := by
    intro d hd
    obtain ⟨x, -, rfl⟩ := List.mem_map.mp hd
    exact x.toNat_lt
  rw [decode, encode, mapM_value_digit hdigits, Option.map_some,
    Radix.respell_respell (by decide) hoctets, List.map_map]
  have hid : UInt8.ofNat ∘ UInt8.toNat = id := funext fun x => UInt8.ofNat_toNat
  rw [hid, List.map_id]

theorem digit_mem (n : ℕ) : digit n ∈ alphabet := by
  rw [digit, List.getD_eq_getElem?_getD]
  cases hn : alphabet[n]? with
  | none =>
      rw [Option.getD_none]
      decide
  | some c => exact List.mem_of_getElem? hn

theorem mem_alphabet_of_mem_encode {bytes : Bytes} {c : Char} (h : c ∈ encode bytes) :
    c ∈ alphabet := by
  obtain ⟨d, -, rfl⟩ := List.mem_map.mp h
  exact digit_mem d

end Base58

/-! ## Varints -/

namespace Varint

def encode (n : ℕ) : Bytes :=
  if n < 128 then [.ofNat n] else .ofNat (n % 128 + 128) :: encode (n / 128)

/-- The number in front and the octets after it. -/
def decode : Bytes → Option (ℕ × Bytes)
  | [] => none
  | x :: rest =>
    if x.toNat < 128 then some (x.toNat, rest)
    else (decode rest).map fun (n, rest) => (x.toNat - 128 + 128 * n, rest)

theorem decode_encode_append (n : ℕ) (rest : Bytes) :
    decode (encode n ++ rest) = some (n, rest) := by
  induction n using encode.induct with
  | case1 n h =>
      have hn : (UInt8.ofNat n).toNat = n :=
        UInt8.toNat_ofNat_of_lt' (Nat.lt_trans h (by decide))
      rw [encode, if_pos h, List.singleton_append, decode, hn, if_pos h]
  | case2 n h ih =>
      have hn : (UInt8.ofNat (n % 128 + 128)).toNat = n % 128 + 128 :=
        UInt8.toNat_ofNat_of_lt'
          (Nat.add_lt_add_right (Nat.mod_lt n (by decide : 0 < 128)) 128)
      rw [encode, if_neg h, List.cons_append, decode, hn, if_neg (by omega), ih, Option.map_some]
      dsimp only
      rw [Nat.add_sub_cancel, Nat.mod_add_div]

end Varint

end Foundation
