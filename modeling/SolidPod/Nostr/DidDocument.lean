import SolidPod.Foundation.Multiformats
import SolidPod.Foundation.Numerals
import SolidPod.JsonText
import SolidPod.Nostr.Resolver

/-!
# The DID document of a Nostr key

A document gives its key in hexadecimal digits and, with two octets in front, in base 58. The
encoder keeps the digits of what it has read, lowest first, and multiplies them by 256 for each
octet; the carry runs through them and what is left of it is put behind them.
-/

namespace SolidPod

open Foundation Str

namespace Nostr

/-! ## Base 58 -/

section Encoder

variable (overflowChecks : Bool)

/-- The run of the carry through the digits, and what is left of it. A carry that does not fit
is a panic in a build with overflow checks. -/
def carryThrough (carry : UInt32) : List UInt8 → Option (List UInt8 × UInt32)
  | [] => some ([], carry)
  | d :: digits => do
    let carry ← addU32 overflowChecks carry (d.toUInt32 <<< 8)
    let (digits, rest) ← carryThrough (carry / 58) digits
    return ((carry % 58).toUInt8 :: digits, rest)

/-- The digits that are pushed while the carry lasts. -/
def pushCarry (carry : UInt32) : List UInt8 :=
  if h : carry = 0 then [] else (carry % 58).toUInt8 :: pushCarry (carry / 58)
termination_by carry.toNat
decreasing_by
  rw [UInt32.toNat_div]
  exact Nat.div_lt_self (Nat.pos_of_ne_zero fun hzero => h (UInt32.toNat_inj.mp hzero)) (by decide)

def pushByte (digits : List UInt8) (byte : UInt8) : Option (List UInt8) := do
  let (digits, carry) ← carryThrough overflowChecks byte.toUInt32 digits
  return digits ++ pushCarry carry

/-- A digit that the alphabet does not have is a panic. -/
def base58Encode (input : Bytes) : Option Str :=
  if input = [] then some []
  else do
    let zeros := (input.takeWhile (· == 0)).length
    let digits ← input.foldlM (pushByte overflowChecks) []
    let text ← digits.reverse.mapM fun d => Base58.alphabet[d.toNat]?
    return List.replicate zeros '1' ++ text

def formatMultibaseSchnorr (pk : NostrPubkey) : Option Str :=
  (base58Encode overflowChecks (0xe7 :: 0x01 :: pk.bytes)).map ('z' :: ·)

end Encoder

/-! ## The digits -/

section Digits

variable (overflowChecks : Bool)

theorem toNat_digit (carry : UInt32) : (carry % 58).toUInt8.toNat = carry.toNat % 58 := by
  rw [UInt32.toNat_toUInt8, UInt32.toNat_mod]
  exact Nat.mod_eq_of_lt (Nat.lt_trans (Nat.mod_lt _ (by decide)) (by decide))

theorem map_pushCarry (carry : UInt32) :
    (pushCarry carry).map UInt8.toNat = Nat.digits 58 carry.toNat := by
  induction carry using pushCarry.induct with
  | case1 =>
      rw [pushCarry, dif_pos rfl]
      rfl
  | case2 carry h ih =>
      have hpos : 0 < carry.toNat :=
        Nat.pos_of_ne_zero fun hzero => h (UInt32.toNat_inj.mp hzero)
      rw [pushCarry, dif_neg h, List.map_cons, ih, toNat_digit, UInt32.toNat_div,
        Nat.digits_def' (by decide) hpos]
      rfl

/-- A carry of one octet stays one, and no sum comes near 32 bits. -/
theorem exists_carryThrough (digits : List UInt8) (carry : UInt32) (hcarry : carry.toNat ≤ 255)
    (hdigits : ∀ d ∈ digits, d.toNat < 58) :
    ∃ ds rest, carryThrough overflowChecks carry digits = some (ds, rest) ∧
      ds.map UInt8.toNat ++ Nat.digits 58 rest.toNat =
        Radix.mulAdd 58 256 carry.toNat (digits.map UInt8.toNat) := by
  induction digits generalizing carry with
  | nil => exact ⟨[], carry, rfl, rfl⟩
  | cons d digits ih =>
      rw [List.forall_mem_cons] at hdigits
      have hshift : (d.toUInt32 <<< 8).toNat = 256 * d.toNat := by
        have hlt : d.toNat * 256 < 2 ^ 32 := by omega
        have hplaces : (8 : UInt32).toNat % 32 = 8 := rfl
        rw [UInt32.toNat_shiftLeft, UInt8.toNat_toUInt32, hplaces, Nat.shiftLeft_eq]
        change d.toNat * 256 % 2 ^ 32 = _
        rw [Nat.mod_eq_of_lt hlt, Nat.mul_comm]
      obtain ⟨sum, hadd, hsum⟩ := addU32_of_lt overflowChecks (a := carry)
        (b := d.toUInt32 <<< 8) (by omega)
      rw [hshift] at hsum
      obtain ⟨ds, rest, hrun, heq⟩ := ih (sum / 58)
        (by rw [UInt32.toNat_div]; change sum.toNat / 58 ≤ 255; omega) hdigits.2
      refine ⟨(sum % 58).toUInt8 :: ds, rest, ?_, ?_⟩
      · rw [carryThrough, hadd]
        simp [hrun]
      · rw [List.map_cons, List.map_cons, Radix.mulAdd, ← hsum, List.cons_append, heq,
          toNat_digit, UInt32.toNat_div]
        rfl

theorem exists_pushByte (digits : List UInt8) (byte : UInt8)
    (hdigits : ∀ d ∈ digits, d.toNat < 58) :
    ∃ ds, pushByte overflowChecks digits byte = some ds ∧
      ds.map UInt8.toNat = Radix.mulAdd 58 256 byte.toNat (digits.map UInt8.toNat) := by
  have hbyte : byte.toUInt32.toNat = byte.toNat := UInt8.toNat_toUInt32 byte
  have hlt := byte.toNat_lt
  obtain ⟨ds, rest, hrun, heq⟩ := exists_carryThrough overflowChecks digits byte.toUInt32
    (by omega) hdigits
  refine ⟨ds ++ pushCarry rest, ?_, ?_⟩
  · rw [pushByte, hrun]
    rfl
  · rw [List.map_append, map_pushCarry, heq, hbyte]

/-- The digits of the octets are those of the number that they are in base 256. -/
theorem exists_foldlM_pushByte (input : Bytes) :
    ∃ ds, input.foldlM (pushByte overflowChecks) [] = some ds ∧
      ds.map UInt8.toNat = Nat.digits 58 (Nat.ofDigits 256 (input.map UInt8.toNat).reverse) := by
  have hrun : ∀ acc : List UInt8, (∀ d ∈ acc, d.toNat < 58) →
      ∃ ds, input.foldlM (pushByte overflowChecks) acc = some ds ∧
        ds.map UInt8.toNat = (input.map UInt8.toNat).foldl
          (fun ds d => Radix.mulAdd 58 256 d ds) (acc.map UInt8.toNat) := by
    induction input with
    | nil => exact fun acc _ => ⟨acc, rfl, rfl⟩
    | cons byte input ih =>
        intro acc hacc
        obtain ⟨next, hpush, hnext⟩ := exists_pushByte overflowChecks acc byte hacc
        have hdigits : ∀ d ∈ next, d.toNat < 58 := by
          intro d hd
          have hmem : d.toNat ∈ next.map UInt8.toNat := List.mem_map_of_mem hd
          rw [hnext] at hmem
          exact Radix.lt_of_mem_mulAdd (by decide) hmem
        obtain ⟨ds, hfold, heq⟩ := ih next hdigits
        refine ⟨ds, ?_, ?_⟩
        · rw [List.foldlM_cons, hpush]
          exact hfold
        · rw [heq, hnext, List.map_cons, List.foldl_cons]
  obtain ⟨ds, hfold, heq⟩ := hrun [] (by simp)
  refine ⟨ds, hfold, ?_⟩
  rw [heq, List.map_nil, Radix.foldl_mulAdd (by decide) (by decide)]

theorem mapM_alphabet {digits : List UInt8} (h : ∀ d ∈ digits, d.toNat < 58) :
    digits.mapM (fun d => Base58.alphabet[d.toNat]?) =
      some (digits.map fun d => Base58.digit d.toNat) := by
  have hletter : ∀ n < 58, Base58.alphabet[n]? = some (Base58.digit n) := by decide
  induction digits with
  | nil => rfl
  | cons d digits ih =>
      rw [List.forall_mem_cons] at h
      rw [List.mapM_cons, hletter _ h.1, ih h.2]
      rfl

theorem digit_lt_of_foldlM {input : Bytes} {digits : List UInt8}
    (h : input.foldlM (pushByte overflowChecks) [] = some digits) :
    ∀ d ∈ digits.map UInt8.toNat, d < 58 := by
  obtain ⟨ds, hfold, heq⟩ := exists_foldlM_pushByte overflowChecks input
  rw [hfold] at h
  rw [← Option.some.inj h, heq]
  exact fun d hd => Nat.digits_lt_base (by decide) hd

/-- The encoding in numbers: the zeros in front, and the digits of the number behind them. -/
theorem base58Encode_eq (input : Bytes) :
    base58Encode overflowChecks input =
      some (List.replicate (input.takeWhile (· == 0)).length '1' ++
        (Nat.digits 58 (Nat.ofDigits 256 (input.map UInt8.toNat).reverse)).reverse.map
          Base58.digit) := by
  obtain ⟨ds, hfold, heq⟩ := exists_foldlM_pushByte overflowChecks input
  have hdigits : ∀ d ∈ ds.reverse, d.toNat < 58 := fun d hd =>
    digit_lt_of_foldlM overflowChecks hfold _ (List.mem_map_of_mem (List.mem_reverse.mp hd))
  rw [base58Encode]
  split_ifs with hnil
  · rw [hnil]
    simp
  · rw [hfold, ← heq]
    simp [mapM_alphabet hdigits, Function.comp_def]

theorem base58Encode_eq_encode (input : Bytes) :
    base58Encode overflowChecks input = some (Base58.encode input) := by
  have hzeros : ((input.map UInt8.toNat).takeWhile (· == 0)).map Base58.digit =
      List.replicate (input.takeWhile (· == 0)).length '1' := by
    have hzero : ((fun n : ℕ => n == 0) ∘ UInt8.toNat) = fun b : UInt8 => b == 0 := by
      funext b
      rw [Bool.eq_iff_iff]
      simp [← UInt8.toNat_inj]
    rw [List.takeWhile_map, List.map_map, List.eq_replicate_iff, List.length_map, hzero]
    refine ⟨rfl, fun c hc => ?_⟩
    obtain ⟨b, hb, rfl⟩ := List.mem_map.mp hc
    have hb : b = 0 := eq_of_beq (List.mem_takeWhile_imp (p := (· == 0)) hb)
    rw [hb]
    rfl
  rw [base58Encode_eq, Base58.encode, Radix.respell, List.map_append, hzeros,
    Radix.ofDigits_reverse_dropWhile]

/-- The sums that the carry runs through, in exact arithmetic. -/
def carrySums (carry : ℕ) : List ℕ → List ℕ
  | [] => []
  | d :: digits => (carry + 256 * d) :: carrySums ((carry + 256 * d) / 58) digits

theorem carrySums_lt {carry : ℕ} {digits : List ℕ} (hcarry : carry ≤ 255)
    (hdigits : ∀ d ∈ digits, d < 58) : ∀ sum ∈ carrySums carry digits, sum < 2 ^ 32 := by
  induction digits generalizing carry with
  | nil => exact fun sum h => absurd h List.not_mem_nil
  | cons d digits ih =>
      rw [List.forall_mem_cons] at hdigits
      rw [carrySums, List.forall_mem_cons]
      exact ⟨by omega, ih (by omega) hdigits.2⟩

theorem base58Encode_injective : Function.Injective (base58Encode overflowChecks) := by
  intro x y h
  rw [base58Encode_eq_encode, base58Encode_eq_encode] at h
  have hdecode := congrArg Base58.decode (Option.some.inj h)
  rw [Base58.decode_encode, Base58.decode_encode] at hdecode
  exact Option.some.inj hdecode

theorem formatMultibaseSchnorr_injective :
    Function.Injective (formatMultibaseSchnorr overflowChecks) := by
  intro x y h
  have htail : ∀ pk : NostrPubkey, formatMultibaseSchnorr overflowChecks pk =
      some ('z' :: Base58.encode (0xe7 :: 0x01 :: pk.bytes)) := by
    intro pk
    rw [formatMultibaseSchnorr, base58Encode_eq_encode, Option.map_some]
  rw [htail, htail] at h
  have hsame : base58Encode overflowChecks (0xe7 :: 0x01 :: x.bytes) =
      base58Encode overflowChecks (0xe7 :: 0x01 :: y.bytes) := by
    rw [base58Encode_eq_encode, base58Encode_eq_encode, (List.cons.inj (Option.some.inj h)).2]
  have hbytes := base58Encode_injective overflowChecks hsame
  cases x
  cases y
  obtain rfl := (List.cons.inj (List.cons.inj hbytes).2).2
  rfl

end Digits

/-! ## Documents -/

/-- An entry of `service`, with what else its owner has for it. -/
structure ServiceEntry where
  id : Str
  serviceType : Str
  serviceEndpoint : Str
  extra : Option Json

def ServiceEntry.render (s : ServiceEntry) : Json :=
  let extra := match s.extra with
    | some (.object m) => m
    | _ => []
  let declared : List (Str × Json) := [("id", .string s.id), ("type", .string s.serviceType),
    ("serviceEndpoint", .string s.serviceEndpoint)]
  .ofMembers (extra ++ declared)

section Documents

variable (overflowChecks : Bool) (pk : NostrPubkey)

def verificationMethod : Option Json :=
  (formatMultibaseSchnorr overflowChecks pk).map fun multibase =>
    .ofMembers [("id", .string (didNostrUri pk ++ "#nostr-schnorr")),
      ("type", .string "NostrSchnorrKey2024"), ("controller", .string (didNostrUri pk)),
      ("publicKeyHex", .string pk.toHex), ("publicKeyMultibase", .string multibase)]

def renderDidDocumentTier1 : Option Json :=
  (verificationMethod overflowChecks pk).map fun method =>
    .ofMembers [("@context", .array [.string "https://www.w3.org/ns/did/v1"]),
      ("id", .string (didNostrUri pk)), ("alsoKnownAs", .array []),
      ("verificationMethod", .array [method])]

def renderDidDocumentTier3 (webid : Option Str) (services : List ServiceEntry) : Option Json :=
  (verificationMethod overflowChecks pk).map fun method =>
    .ofMembers [("@context", .array [.string "https://www.w3.org/ns/did/v1",
        .string "https://w3id.org/security/suites/secp256k1-2019/v1"]),
      ("id", .string (didNostrUri pk)), ("alsoKnownAs", .array (webid.toList.map .string)),
      ("verificationMethod", .array [method]),
      ("authentication", .array [.string (didNostrUri pk ++ "#nostr-schnorr")]),
      ("assertionMethod", .array [.string (didNostrUri pk ++ "#nostr-schnorr")]),
      ("service", .array (services.map ServiceEntry.render))]

/-- The documents that are published for a key. -/
inductive Published : Json → Prop where
  | tier1 {doc : Json} (h : renderDidDocumentTier1 overflowChecks pk = some doc) : Published doc
  | tier3 {doc : Json} (webid : Option Str) (services : List ServiceEntry)
      (h : renderDidDocumentTier3 overflowChecks pk webid services = some doc) : Published doc

end Documents

/-- The `publicKeyMultibase` of the first verification method of a document. -/
def publicKeyMultibase : Json → Option Str
  | .object m =>
    match Json.member "verificationMethod" m with
    | some (.array (.object method :: _)) =>
      match Json.member "publicKeyMultibase" method with
      | some (.string s) => some s
      | _ => none
    | _ => none
  | _ => none

theorem publicKeyMultibase_of_member {m method : List (Str × Json)} {text : Str}
    (hmethod : Json.member "verificationMethod" m = some (.array [.object method]))
    (htext : Json.member "publicKeyMultibase" method = some (.string text)) :
    publicKeyMultibase (.object m) = some text := by
  simp only [publicKeyMultibase, hmethod, htext]

theorem publicKeyMultibase_of_published {overflowChecks : Bool} {pk : NostrPubkey} {doc : Json}
    (h : Published overflowChecks pk doc) :
    publicKeyMultibase doc = formatMultibaseSchnorr overflowChecks pk := by
  cases h with
  | tier1 h =>
      obtain ⟨method, hmethod, rfl⟩ := Option.map_eq_some_iff.mp h
      obtain ⟨multibase, hmultibase, rfl⟩ := Option.map_eq_some_iff.mp hmethod
      rw [hmultibase]
      exact publicKeyMultibase_of_member (Json.member_membersOf _ _) (Json.member_membersOf _ _)
  | tier3 webid services h =>
      obtain ⟨method, hmethod, rfl⟩ := Option.map_eq_some_iff.mp h
      obtain ⟨multibase, hmultibase, rfl⟩ := Option.map_eq_some_iff.mp hmethod
      rw [hmultibase]
      exact publicKeyMultibase_of_member (Json.member_membersOf _ _) (Json.member_membersOf _ _)

/-- The encoder writes the number that the octets are in base 256 in base 58, behind a `1` for
each zero in front, and no carry leaves 32 bits. So no two keys are published alike. -/
theorem base58Encode_positional (overflowChecks : Bool) :
    (∀ input, ∃ digits : List ℕ,
      base58Encode overflowChecks input =
        some (List.replicate (input.takeWhile (· == 0)).length '1' ++ digits.map Base58.digit) ∧
      (∀ d ∈ digits, d < 58) ∧ (∀ d ∈ digits.head?, d ≠ 0) ∧
      Nat.ofDigits 58 digits.reverse = Nat.ofDigits 256 (input.map UInt8.toNat).reverse) ∧
    (∀ pre byte post digits, pre.foldlM (pushByte overflowChecks) [] = some digits →
      base58Encode overflowChecks (pre ++ byte :: post) ≠ none ∧
      ∀ sum ∈ carrySums byte.toNat (digits.map UInt8.toNat), sum < 2 ^ 32) ∧
    Function.Injective (base58Encode overflowChecks) ∧
    ∀ pk pk' doc doc', Published overflowChecks pk doc → Published overflowChecks pk' doc' →
      publicKeyMultibase doc = publicKeyMultibase doc' → pk = pk' := by
  refine ⟨fun input => ?_, fun pre byte post digits hrun => ⟨?_, ?_⟩,
    base58Encode_injective overflowChecks, ?_⟩
  · refine ⟨_, base58Encode_eq overflowChecks input, ?_, Radix.head?_reverse_digits _, ?_⟩
    · exact fun d hd => Nat.digits_lt_base (by decide) (List.mem_reverse.mp hd)
    · rw [List.reverse_reverse, Nat.ofDigits_digits]
  · rw [base58Encode_eq_encode]
    exact Option.some_ne_none _
  · exact carrySums_lt (Nat.le_of_lt_succ byte.toNat_lt) (digit_lt_of_foldlM overflowChecks hrun)
  · intro pk pk' doc doc' h h' heq
    rw [publicKeyMultibase_of_published h, publicKeyMultibase_of_published h'] at heq
    exact formatMultibaseSchnorr_injective overflowChecks heq

end Nostr

end SolidPod
