import Mathlib.Algebra.Group.Nat.Defs
import Mathlib.Algebra.Order.Group.Unbundled.Int
import SolidPod.Foundation.Multiformats
import SolidPod.DidKey.Jwt

/-!
# What a self-signed token proves

A token that is accepted is signed under the key its header names, with the one
algorithm of that key, is recent, and is answered with the identifier of that
very key. The arithmetic of the time window fits in 64 bits except for one sum:
an expiry close to the largest number is added to the skew unchecked.
-/

namespace SolidPod

open Foundation Str Fallible

namespace DidKey

/-! ## Keys and their identifiers -/

/-- What is relied on of the codecs: what they write is read back. -/
structure LawfulCodecs (lib : DidKeyLibrary) : Prop where
  multibase : ∀ bytes, lib.multibaseDecode (lib.multibaseEncode bytes) = .ok (.base58Btc, bytes)
  tag : ∀ bytes, (lib.multibaseEncode bytes).head? = some 'z'
  hash : ∀ bytes, '#' ∉ lib.multibaseEncode bytes
  varint : ∀ code rest, lib.varintDecode (lib.varintEncode code ++ rest) = .ok (code, rest)

/-- The length that an identifier of the key's type has room for. -/
def DidKeyPubkey.Fits : DidKeyPubkey → Prop
  | .ed25519 _ => True
  | .p256 sec1 => sec1.length = sec1CompressedLen
  | .secp256k1 sec1 => sec1.length = sec1CompressedLen

variable {lib : DidKeyLibrary}

theorem fromMulticodecBytes_toMulticodecBytes (hlib : LawfulCodecs lib) {key : DidKeyPubkey}
    (hkey : key.Fits) :
    DidKeyPubkey.fromMulticodecBytes lib (key.toMulticodecBytes lib) = .ok key := by
  rw [DidKeyPubkey.fromMulticodecBytes, DidKeyPubkey.toMulticodecBytes, hlib.varint]
  cases key with
  | ed25519 bytes => exact dif_pos bytes.2
  | p256 sec1 => exact if_neg (not_not.mpr hkey)
  | secp256k1 sec1 => exact if_neg (not_not.mpr hkey)

theorem fits_of_fromMulticodecBytes {bytes : Bytes} {key : DidKeyPubkey}
    (h : DidKeyPubkey.fromMulticodecBytes lib bytes = .ok key) : key.Fits := by
  rw [DidKeyPubkey.fromMulticodecBytes] at h
  split at h
  · cases h
  · split_ifs at h with hed hlen hp hlen hk hlen
    · cases h
      trivial
    · cases h
      exact not_not.mp hlen
    · cases h
      exact not_not.mp hlen

/-- The identifier of a key gives the key back. -/
theorem decode_encode (hlib : LawfulCodecs lib) {key : DidKeyPubkey} (hkey : key.Fits) :
    decode lib (encode lib key) = .ok key := by
  have hstrip : stripPrefix didKeyPrefix (encode lib key) =
      some (lib.multibaseEncode (key.toMulticodecBytes lib)) := stripPrefix_eq_some.mpr rfl
  simp only [decode, hstrip, List.splitOn_eq_singleton (hlib.hash _), List.headD_cons,
    hlib.tag, ne_eq, not_true_eq_false, if_false, hlib.multibase]
  exact fromMulticodecBytes_toMulticodecBytes hlib hkey

theorem fits_of_decode {did : Str} {key : DidKeyPubkey} (h : decode lib did = .ok key) :
    key.Fits := by
  rw [decode] at h
  split at h
  · cases h
  · dsimp only at h
    split_ifs at h
    split at h
    · cases h
    · cases h
    · exact fits_of_fromMulticodecBytes h

theorem orElse_eq_ok_iff {α : Type} {wrap : Str → DidKeyError} {x : Except Str α} {a : α} :
    orElse wrap x = .ok a ↔ x = .ok a := by
  cases x with
  | error e => simp [orElse]
  | ok b => simp [orElse]

theorem fits_of_jwkToPubkey {jwk : JwkLite} {key : DidKeyPubkey}
    (h : jwkToPubkey lib jwk = .ok key) : key.Fits := by
  rw [jwkToPubkey] at h
  split_ifs at h with hokp hcrv hec
  · split at h
    · cases h
    · obtain ⟨bytes, -, hkey⟩ := bind_eq_ok_iff.mp h
      split_ifs at hkey
      cases hkey
      trivial
  · split at h
    · cases h
    · cases h
    · cases h
    · obtain ⟨x, -, h⟩ := bind_eq_ok_iff.mp h
      obtain ⟨y, -, h⟩ := bind_eq_ok_iff.mp h
      split_ifs at h with hlen hp hk
      · cases h
        exact congrArg (· + 1) (not_not.mp (not_or.mp hlen).1)
      · cases h
        exact congrArg (· + 1) (not_not.mp (not_or.mp hlen).1)

/-! ## Signed tokens -/

/-- A signature that the libraries of a curve accept. -/
def Curve.Accepts (curve : Curve) (sec1 msg sig : Bytes) : Prop :=
  ∃ vk s, curve.verifyingKey sec1 = .ok vk ∧ curve.signature sig = .ok s ∧
    curve.verify vk msg s = .ok ()

/-- A signature under the key, in the scheme of the key's type. -/
def Verifies (lib : DidKeyLibrary) (key : DidKeyPubkey) (msg sig : Bytes) : Prop :=
  sig.length = 64 ∧
    match key with
    | .ed25519 bytes =>
      ∃ vk, lib.ed25519Key bytes.1 = .ok vk ∧ lib.ed25519Verify vk msg sig = .ok ()
    | .p256 sec1 => lib.p256.Accepts sec1 msg sig
    | .secp256k1 sec1 => lib.k256.Accepts sec1 msg sig

/-- The key that `kid` names or, without it, the embedded one. -/
def NamedKey (lib : DidKeyLibrary) (header : JwtHeader) (key : DidKeyPubkey) (method : Str) :
    Prop :=
  (header.kid = some method ∧ decode lib method = .ok key) ∨
    (header.kid = none ∧ ∃ jwk, header.jwk = some jwk ∧ jwkToPubkey lib jwk = .ok key ∧
      method = encode lib key)

/-- A token of three segments, signed under the key its header names with the
algorithm of that key. -/
def Signed (lib : DidKeyLibrary) (jwt : Str) (key : DidKeyPubkey) (method : Str)
    (claims : JwtClaims) : Prop :=
  ∃ hdr payload sig headerBytes payloadBytes sigBytes header,
    jwt.splitOn '.' = [hdr, payload, sig] ∧
      lib.base64Url hdr = .ok headerBytes ∧ lib.base64Url payload = .ok payloadBytes ∧
      lib.base64Url sig = .ok sigBytes ∧ lib.headerFromSlice headerBytes = .ok header ∧
      lib.claimsFromSlice payloadBytes = .ok claims ∧ NamedKey lib header key method ∧
      header.alg = key.jwsAlg ∧ Verifies lib key (utf8 (hdr ++ '.' :: payload)) sigBytes

theorem verifyEcdsa_eq_ok_iff {curve : Curve} {keyName alg : Str} {sec1 msg sig : Bytes} :
    verifyEcdsa curve keyName alg sec1 msg sig = .ok () ↔
      sig.length = 64 ∧ curve.Accepts sec1 msg sig := by
  simp only [verifyEcdsa, bind_eq_ok_iff, orElse_eq_ok_iff, guard_eq_ok_iff, not_not,
    Curve.Accepts]
  constructor
  · rintro ⟨vk, hvk, hlen, s, hs, hverify⟩
    exact ⟨hlen, vk, s, hvk, hs, hverify⟩
  · rintro ⟨hlen, vk, s, hvk, hs, hverify⟩
    exact ⟨vk, hvk, hlen, s, hs, hverify⟩

theorem verifySignature_eq_ok_iff {key : DidKeyPubkey} {msg sig : Bytes} :
    verifySignature lib key msg sig = .ok () ↔ Verifies lib key msg sig := by
  cases key with
  | ed25519 bytes =>
      simp only [verifySignature, Verifies, guard_eq_ok_iff, not_not, bind_eq_ok_iff,
        orElse_eq_ok_iff]
  | p256 sec1 => exact verifyEcdsa_eq_ok_iff
  | secp256k1 sec1 => exact verifyEcdsa_eq_ok_iff

theorem resolveKey_eq_ok_iff {header : JwtHeader} {key : DidKeyPubkey} {method : Str} :
    resolveKey lib header = .ok (key, method) ↔ NamedKey lib header key method := by
  rw [resolveKey, NamedKey]
  cases header.kid with
  | some kid =>
      simp only [map_eq_ok_iff, Prod.mk.injEq, Option.some.injEq, reduceCtorEq, false_and,
        or_false]
      constructor
      · rintro ⟨pk, h, rfl, rfl⟩
        exact ⟨rfl, h⟩
      · rintro ⟨rfl, h⟩
        exact ⟨key, h, rfl, rfl⟩
  | none =>
      cases header.jwk with
      | none => simp
      | some jwk =>
          simp only [map_eq_ok_iff, Prod.mk.injEq, reduceCtorEq, false_and, false_or,
            Option.some.injEq, true_and]
          constructor
          · rintro ⟨pk, h, rfl, rfl⟩
            exact ⟨jwk, rfl, h, rfl⟩
          · rintro ⟨_, rfl, h, rfl⟩
            exact ⟨key, h, rfl, rfl⟩

theorem segments_eq_ok_iff {jwt hdr payload sig : Str} :
    segments jwt = .ok (hdr, payload, sig) ↔ jwt.splitOn '.' = [hdr, payload, sig] := by
  rw [segments]
  split <;> simp_all

theorem fits_of_namedKey {header : JwtHeader} {key : DidKeyPubkey} {method : Str}
    (h : NamedKey lib header key method) : key.Fits := by
  rcases h with ⟨-, h⟩ | ⟨-, jwk, -, h, -⟩
  · exact fits_of_decode h
  · exact fits_of_jwkToPubkey h

theorem decodeJwt_eq_ok_iff {jwt : Str} {key : DidKeyPubkey} {method : Str} {claims : JwtClaims} :
    decodeJwt lib jwt = .ok (key, method, claims) ↔ Signed lib jwt key method claims := by
  have hinput : ∀ hdr payload : Str,
      utf8 hdr ++ utf8 ['.'] ++ utf8 payload = utf8 (hdr ++ '.' :: payload) := by
    intro hdr payload
    rw [utf8_append, utf8_cons, utf8_cons, utf8_nil, List.append_nil, List.append_assoc]
  constructor
  · intro h
    obtain ⟨⟨hdr, payload, sig⟩, hsegments, h⟩ := bind_eq_ok_iff.mp h
    obtain ⟨headerBytes, hhdr, h⟩ := bind_eq_ok_iff.mp h
    obtain ⟨payloadBytes, hpayload, h⟩ := bind_eq_ok_iff.mp h
    obtain ⟨sigBytes, hsig, h⟩ := bind_eq_ok_iff.mp h
    obtain ⟨header, hheader, h⟩ := bind_eq_ok_iff.mp h
    obtain ⟨claims', hclaims, h⟩ := bind_eq_ok_iff.mp h
    obtain ⟨⟨key', method'⟩, hkey, h⟩ := bind_eq_ok_iff.mp h
    obtain ⟨halg, h⟩ := guard_eq_ok_iff.mp h
    obtain ⟨⟨⟩, hverify, h⟩ := bind_eq_ok_iff.mp h
    cases h
    refine ⟨hdr, payload, sig, headerBytes, payloadBytes, sigBytes, header,
      segments_eq_ok_iff.mp hsegments, orElse_eq_ok_iff.mp hhdr, orElse_eq_ok_iff.mp hpayload,
      orElse_eq_ok_iff.mp hsig, orElse_eq_ok_iff.mp hheader, orElse_eq_ok_iff.mp hclaims,
      resolveKey_eq_ok_iff.mp hkey, not_not.mp halg, ?_⟩
    rw [← hinput]
    exact verifySignature_eq_ok_iff.mp hverify
  · rintro ⟨hdr, payload, sig, headerBytes, payloadBytes, sigBytes, header, hsegments, hhdr,
      hpayload, hsig, hheader, hclaims, hkey, halg, hverify⟩
    rw [← hinput] at hverify
    refine bind_eq_ok_iff.mpr ⟨(hdr, payload, sig), segments_eq_ok_iff.mpr hsegments, ?_⟩
    refine bind_eq_ok_iff.mpr ⟨headerBytes, orElse_eq_ok_iff.mpr hhdr, ?_⟩
    refine bind_eq_ok_iff.mpr ⟨payloadBytes, orElse_eq_ok_iff.mpr hpayload, ?_⟩
    refine bind_eq_ok_iff.mpr ⟨sigBytes, orElse_eq_ok_iff.mpr hsig, ?_⟩
    refine bind_eq_ok_iff.mpr ⟨header, orElse_eq_ok_iff.mpr hheader, ?_⟩
    refine bind_eq_ok_iff.mpr ⟨claims, orElse_eq_ok_iff.mpr hclaims, ?_⟩
    refine bind_eq_ok_iff.mpr ⟨(key, method), resolveKey_eq_ok_iff.mpr hkey, ?_⟩
    refine guard_eq_ok_iff.mpr ⟨not_not.mpr halg, ?_⟩
    exact bind_eq_ok_iff.mpr ⟨(), verifySignature_eq_ok_iff.mpr hverify, rfl⟩

/-! ## Accepted tokens -/

/-- What an accepted token stands for at the time `now`. -/
structure Sound (lib : DidKeyLibrary) (jwt : Str) (now skew : UInt64) (v : VerifiedJwt) : Prop where
  signed : ∃ key, Signed lib jwt key v.verificationMethod ⟨v.htm, v.htu, v.iat, v.exp, v.sub⟩ ∧
    v.did = encode lib key ∧ decode lib v.did = .ok key
  recent : |(v.iat.toNat : ℤ) - now.toNat| ≤ skew.toNat
  unexpired : ∀ exp, v.exp = some exp → now.toNat ≤ exp.toNat + skew.toNat

/-- No build panics, so no sum overflows where overflow is checked, and what is accepted
is sound. -/
structure TotalAndSound (lib : DidKeyLibrary) (jwt htu htm : Str) (now skew : UInt64) :
    Prop where
  total : ∀ overflowChecks, verifySelfSignedJwt lib overflowChecks jwt htu htm now skew ≠ none
  sound : ∀ overflowChecks v,
    verifySelfSignedJwt lib overflowChecks jwt htu htm now skew = some (.ok v) →
      Sound lib jwt now skew v

/-- The expiry of a signed token that is meant for the request leaves room for the skew. -/
def ExpiryFits (lib : DidKeyLibrary) (jwt htu htm : Str) (now skew : UInt64) : Prop :=
  ∀ key method claims exp, Signed lib jwt key method claims →
    checkClaims claims htu htm now skew = .ok () → claims.exp = some exp →
      exp.toNat + skew.toNat < 2 ^ 64

variable {jwt htu htm : Str} {now skew : UInt64}

/-- A sum that wraps is smaller than the one of the integers, so it never lets an expired
token through. -/
theorem le_add_of_checkExp {overflowChecks : Bool} {exp : UInt64}
    (h : checkExp overflowChecks (some exp) now skew = some (.ok ())) :
    now.toNat ≤ exp.toNat + skew.toNat := by
  obtain ⟨latest, hsum, hlatest⟩ := Option.map_eq_some_iff.mp h
  have hnow : now ≤ latest := UInt64.not_lt.mp (guard_eq_ok_iff.mp hlatest).1
  rw [eq_add_of_addU64 hsum] at hnow
  have hle := UInt64.le_iff_toNat_le.mp hnow
  rw [UInt64.toNat_add] at hle
  exact hle.trans (Nat.mod_le _ _)

theorem sound_of_verifySelfSignedJwt (hlib : LawfulCodecs lib) {overflowChecks : Bool}
    {v : VerifiedJwt}
    (h : verifySelfSignedJwt lib overflowChecks jwt htu htm now skew = some (.ok v)) :
    Sound lib jwt now skew v := by
  obtain ⟨key, hdecode, hdid, hclaims, hexp⟩ := verifySelfSignedJwt_eq_ok_iff.mp h
  have hsigned := decodeJwt_eq_ok_iff.mp hdecode
  obtain ⟨-, -, hpast, hfuture⟩ := checkClaims_eq_ok_iff.mp hclaims
  refine ⟨⟨key, hsigned, hdid, ?_⟩, ?_, ?_⟩
  · obtain ⟨-, -, -, -, -, -, header, -, -, -, -, -, -, hkey, -⟩ := hsigned
    rw [hdid]
    exact decode_encode hlib (fits_of_namedKey hkey)
  · rw [abs_le]
    dsimp only at hpast hfuture
    omega
  · intro exp hsome
    rw [hsome] at hexp
    exact le_add_of_checkExp hexp

theorem checkExp_eq_none_iff {exp : Option UInt64} :
    checkExp true exp now skew = none ↔ ∃ e, exp = some e ∧ 2 ^ 64 ≤ e.toNat + skew.toNat := by
  cases exp with
  | none => simp [checkExp]
  | some e => simp [checkExp, addU64]

/-- A build that wraps does not panic. -/
theorem verifySelfSignedJwt_unchecked_ne_none :
    verifySelfSignedJwt lib false jwt htu htm now skew ≠ none := by
  rw [verifySelfSignedJwt]
  split
  · simp
  · split
    · simp
    · rename_i claims _ _ _
      cases hexp : claims.exp with
      | none => simp [checkExp]
      | some exp => simp [checkExp, addU64]

/-- A build with overflow checks panics on the tokens whose expiry leaves no room for the
skew. -/
theorem verifySelfSignedJwt_eq_none_iff :
    verifySelfSignedJwt lib true jwt htu htm now skew = none ↔
      ∃ key method claims exp, Signed lib jwt key method claims ∧
        checkClaims claims htu htm now skew = .ok () ∧ claims.exp = some exp ∧
          2 ^ 64 ≤ exp.toNat + skew.toNat := by
  simp only [← decodeJwt_eq_ok_iff]
  rw [verifySelfSignedJwt]
  cases hdecode : decodeJwt lib jwt with
  | error e => simp
  | ok decoded =>
      obtain ⟨key, method, claims⟩ := decoded
      cases hclaims : checkClaims claims htu htm now skew with
      | error e => simp [hclaims]
      | ok u => simp [hclaims, checkExp_eq_none_iff]

theorem verifySelfSignedJwt_total_and_sound_iff (hlib : LawfulCodecs lib) :
    TotalAndSound lib jwt htu htm now skew ↔ ExpiryFits lib jwt htu htm now skew := by
  constructor
  · rintro ⟨htotal, -⟩ key method claims exp hsigned hclaims hexp
    by_contra hfit
    exact htotal true (verifySelfSignedJwt_eq_none_iff.mpr
      ⟨key, method, claims, exp, hsigned, hclaims, hexp, Nat.not_lt.mp hfit⟩)
  · intro hfits
    refine ⟨?_, fun overflowChecks v h => sound_of_verifySelfSignedJwt hlib h⟩
    intro overflowChecks
    cases overflowChecks with
    | false => exact verifySelfSignedJwt_unchecked_ne_none
    | true =>
        intro hnone
        obtain ⟨key, method, claims, exp, hsigned, hclaims, hexp, hover⟩ :=
          verifySelfSignedJwt_eq_none_iff.mp hnone
        exact absurd (hfits key method claims exp hsigned hclaims hexp) (Nat.not_lt.mpr hover)

/-! ## A token that does not expire -/

def lastingHeader : Str :=
  "\x7b\"alg\":\"EdDSA\",\"jwk\":\x7b\"kty\":\"OKP\",\"crv\":\"Ed25519\",\"x\":\"" ++
    List.replicate 43 'A' ++ "\"\x7d\x7d"

def lastingPayload : Str :=
  "\x7b\"htm\":\"GET\",\"htu\":\"https://pod.example.org/notes/\",\"iat\":1700000002," ++
    "\"exp\":18446744073709551615\x7d"

def lastingHeader64 : Str :=
  "eyJhbGciOiJFZERTQSIsImp3ayI6eyJrdHkiOiJPS1AiLCJjcnYiOiJFZDI1NTE5IiwieCI6IkFBQUFB" ++
    "QUFBQUFBQUFBQUFBQUFBQUFBQUFBQUFBQUFBQUFBQUEifX0"

def lastingPayload64 : Str :=
  "eyJodG0iOiJHRVQiLCJodHUiOiJodHRwczovL3BvZC5leGFtcGxlLm9yZy9ub3Rlcy8iLCJpYXQiOjE3" ++
    "MDAwMDAwMDIsImV4cCI6MTg0NDY3NDQwNzM3MDk1NTE2MTV9"

/-- A token whose key is a point of order four, whose signature of zeros is valid. -/
def lastingJwt : Str :=
  lastingHeader64 ++ '.' :: (lastingPayload64 ++ '.' :: List.replicate 86 'A')

def lastingHtu : Str := "https://pod.example.org/notes/"

def lastingClaims : JwtClaims := ⟨"GET", lastingHtu, 1700000002, some 18446744073709551615, none⟩

def lastingJwk : JwkLite := ⟨"OKP", some "Ed25519", some (List.replicate 43 'A'), none⟩

def lastingKey : DidKeyPubkey := .ed25519 ⟨List.replicate 32 0, List.length_replicate⟩

def lastingBase64 : List (Str × Bytes) :=
  [(lastingHeader64, utf8 lastingHeader), (lastingPayload64, utf8 lastingPayload),
    (List.replicate 86 'A', List.replicate 64 0), (List.replicate 43 'A', List.replicate 32 0)]

/-- The codecs in full, and the other libraries as far as the token needs them. -/
def lastingLibrary : DidKeyLibrary where
  base64Url s := (lastingBase64.lookup s).elim (.error "Invalid symbol") .ok
  headerFromSlice b :=
    if b = utf8 lastingHeader then .ok ⟨"EdDSA", none, some lastingJwk⟩
    else .error "expected value at line 1 column 1"
  claimsFromSlice b :=
    if b = utf8 lastingPayload then .ok lastingClaims
    else .error "expected value at line 1 column 1"
  multibaseDecode s :=
    match s with
    | 'z' :: s => (Base58.decode s).elim (.error "Invalid base string") fun b => .ok (.base58Btc, b)
    | _ => .error "Unknown base code"
  multibaseEncode b := 'z' :: Base58.encode b
  varintDecode b :=
    (Varint.decode b).elim (.error "not enough input bytes") fun (n, rest) => .ok (.ofNat n, rest)
  varintEncode n := Varint.encode n.toNat
  Ed25519Key := Bytes
  ed25519Key := .ok
  ed25519Verify _ _ _ := .ok ()
  p256 := ⟨Unit, Unit, fun _ => .error "signature error", fun _ => .error "signature error",
    fun _ _ _ => .error "signature error"⟩
  k256 := ⟨Unit, Unit, fun _ => .error "signature error", fun _ => .error "signature error",
    fun _ _ _ => .error "signature error"⟩
  printable _ := true

theorem lawfulCodecs_lastingLibrary : LawfulCodecs lastingLibrary where
  multibase bytes := by
    change (Base58.decode (Base58.encode bytes)).elim _ _ = _
    rw [Base58.decode_encode]
    rfl
  tag _ := rfl
  hash bytes := by
    change '#' ∉ 'z' :: Base58.encode bytes
    rw [List.mem_cons, not_or]
    refine ⟨by decide, fun h => ?_⟩
    exact absurd (Base58.mem_alphabet_of_mem_encode h) (by decide)
  varint code rest := by
    change (Varint.decode (Varint.encode code.toNat ++ rest)).elim _ _ = _
    rw [Varint.decode_encode_append]
    exact congrArg (fun n => Except.ok (n, rest)) UInt64.ofNat_toNat

theorem base64Url_of_lookup {text : Str} {bytes : Bytes}
    (h : lastingBase64.lookup text = some bytes) : lastingLibrary.base64Url text = .ok bytes := by
  dsimp only [lastingLibrary]
  rw [h]
  rfl

theorem headerFromSlice_lastingHeader :
    lastingLibrary.headerFromSlice (utf8 lastingHeader) = .ok ⟨"EdDSA", none, some lastingJwk⟩ := by
  dsimp only [lastingLibrary]
  rw [if_pos rfl]

theorem claimsFromSlice_lastingPayload :
    lastingLibrary.claimsFromSlice (utf8 lastingPayload) = .ok lastingClaims := by
  dsimp only [lastingLibrary]
  rw [if_pos rfl]

set_option maxRecDepth 2048 in
theorem signed_lastingJwt : Signed lastingLibrary lastingJwt lastingKey
    (encode lastingLibrary lastingKey) lastingClaims := by
  have hsplit : lastingJwt.splitOn '.' =
      [lastingHeader64, lastingPayload64, List.replicate 86 'A'] := by
    have hheader : '.' ∉ lastingHeader64 := by decide
    have hpayload : '.' ∉ lastingPayload64 := by decide
    rw [lastingJwt, List.splitOn_append_cons_self, List.splitOn_append_cons_self,
      List.splitOn_eq_singleton hheader, List.splitOn_eq_singleton hpayload,
      List.splitOn_eq_singleton (by decide)]
    rfl
  have hpayload : (lastingPayload64 == lastingHeader64) = false := by decide
  have hsig : (List.replicate 86 'A' == lastingHeader64) = false ∧
      (List.replicate 86 'A' == lastingPayload64) = false := by decide
  have hx : (List.replicate 43 'A' == lastingHeader64) = false ∧
      (List.replicate 43 'A' == lastingPayload64) = false ∧
        (List.replicate 43 'A' == List.replicate 86 'A') = false := by decide
  have hkey : jwkToPubkey lastingLibrary lastingJwk = .ok lastingKey := by
    have hbytes : lastingLibrary.base64Url (List.replicate 43 'A') =
        .ok (List.replicate 32 0) := by
      refine base64Url_of_lookup ?_
      simp only [lastingBase64, List.lookup_cons, hx, beq_self_eq_true]
    simp only [jwkToPubkey, lastingJwk, hbytes]
    rfl
  refine ⟨lastingHeader64, lastingPayload64, List.replicate 86 'A', utf8 lastingHeader,
    utf8 lastingPayload, List.replicate 64 0, ⟨"EdDSA", none, some lastingJwk⟩, hsplit,
    base64Url_of_lookup ?_, base64Url_of_lookup ?_, base64Url_of_lookup ?_,
    headerFromSlice_lastingHeader, claimsFromSlice_lastingPayload,
    Or.inr ⟨rfl, lastingJwk, rfl, hkey, rfl⟩, rfl, by decide, List.replicate 32 0, rfl, rfl⟩
  · simp only [lastingBase64, List.lookup_cons, beq_self_eq_true]
  · simp only [lastingBase64, List.lookup_cons, hpayload, beq_self_eq_true]
  · simp only [lastingBase64, List.lookup_cons, hsig, beq_self_eq_true]

theorem not_totalAndSound_lastingJwt :
    ¬ TotalAndSound lastingLibrary lastingJwt lastingHtu "GET" 1700000002 60 := by
  intro h
  refine h.total true (verifySelfSignedJwt_eq_none_iff.mpr ⟨lastingKey,
    encode lastingLibrary lastingKey, lastingClaims, 18446744073709551615, signed_lastingJwt, ?_,
    rfl, by decide⟩)
  exact checkClaims_eq_ok_iff.mpr ⟨by decide, rfl, by decide, by decide⟩

/-- Without a skew every expiry fits. -/
theorem verifySelfSignedJwt_total_and_sound_lastingJwt :
    TotalAndSound lastingLibrary lastingJwt lastingHtu "GET" 1700000002 0 := by
  refine (verifySelfSignedJwt_total_and_sound_iff lawfulCodecs_lastingLibrary).mpr ?_
  intro key method claims exp _ _ _
  exact exp.toNat_lt

end DidKey

end SolidPod
