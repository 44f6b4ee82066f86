import Mathlib.Algebra.Order.Group.Int
import Mathlib.Algebra.Order.Group.Abs
import SolidPod.Oidc.Dpop

/-!
# What an accepted proof proves

An accepted DPoP proof is signed by the key in its header, and its thumbprint is
the one of that key. Whether the key is a public one depends on the algorithm: for
the asymmetric ones it is, but an `oct` key is accepted along with `HS256`, and
then the header shows the secret that signs.
-/

namespace SolidPod

open Foundation Fallible

namespace Oidc

/-! ## Thumbprints -/

/-- The members that RFC 7638 takes of a key of each type, in the order of their names. -/
def requiredMembers (kty : Str) : Option (List Str) :=
  if kty = "EC" then some ["crv", "kty", "x", "y"]
  else if kty = "RSA" then some ["e", "kty", "n"]
  else if kty = "OKP" then some ["crv", "kty", "x"]
  else if kty = "oct" then some ["k", "kty"]
  else none

/-- The member of a key under a name. -/
def Jwk.get (jwk : Jwk) (name : Str) : Option Str :=
  if name = "kty" then some jwk.kty
  else if name = "crv" then jwk.crv
  else if name = "x" then jwk.x
  else if name = "y" then jwk.y
  else if name = "n" then jwk.n
  else if name = "e" then jwk.e
  else if name = "k" then jwk.k
  else none

/-- The JSON text of the required members and nothing else. -/
def CanonicalText (lib : JsonWebToken) (jwk : Jwk) (text : Bytes) : Prop :=
  ∃ names values, requiredMembers jwk.kty = some names ∧
    names.map jwk.get = values.map some ∧ lib.toVec (names.zip values) = .ok text

def IsThumbprint (lib : JsonWebToken) (jwk : Jwk) (jkt : Str) : Prop :=
  ∃ text, CanonicalText lib jwk text ∧ jkt = lib.sha256Base64Url text

/-! ## Signatures -/

def Asymmetric (alg : Algorithm) : Prop := alg ≠ .HS256 ∧ alg ≠ .HS384 ∧ alg ≠ .HS512

/-- The key types whose members are public. -/
def Jwk.Public (jwk : Jwk) : Prop := jwk.kty = "EC" ∨ jwk.kty = "RSA" ∨ jwk.kty = "OKP"

/-- The algorithm that the header of a proof names, and the key in it, as the pod and as
the token library read it. -/
def Carries (lib : JsonWebToken) (proof : Str) (alg : Algorithm) (jwk : Jwk)
    (key : lib.DecodingKey) : Prop :=
  ∃ header jwkJson value jwtJwk, lib.decodeHeader proof = .ok header ∧ header.alg = alg ∧
    header.jwk = some jwkJson ∧ lib.toValue jwkJson = .ok value ∧
      lib.jwkOfValue value = .ok jwk ∧ lib.libJwkOfValue value = .ok jwtJwk ∧
        lib.decodingKey jwtJwk = .ok key

/-- What the token library promises. `Signs` says that a proof carries the signature, or
the authentication code, of a key under an algorithm. -/
structure JsonWebToken.Sound (lib : JsonWebToken)
    (Signs : lib.DecodingKey → Algorithm → Str → Prop) : Prop where
  signature : ∀ {proof key alg claims}, lib.decode proof key alg = .ok claims →
    Signs key alg proof
  /-- An octet key is no key of an asymmetric algorithm. -/
  family : ∀ {value jwk jwtJwk key proof alg claims}, lib.jwkOfValue value = .ok jwk →
    lib.libJwkOfValue value = .ok jwtJwk → lib.decodingKey jwtJwk = .ok key →
      lib.decode proof key alg = .ok claims → Asymmetric alg → jwk.kty ≠ "oct"
  /-- A decoding key is made of the required members. -/
  members : ∀ {value value' jwk jwk' jwtJwk jwtJwk' key key'}, lib.jwkOfValue value = .ok jwk →
    lib.jwkOfValue value' = .ok jwk' → lib.libJwkOfValue value = .ok jwtJwk →
      lib.libJwkOfValue value' = .ok jwtJwk' → lib.decodingKey jwtJwk = .ok key →
        lib.decodingKey jwtJwk' = .ok key' → jwk.members.toOption = jwk'.members.toOption →
          jwk.members.toOption ≠ none → key = key'
  /-- A text of the JSON library is the text of one object. -/
  json : ∀ {m m' text}, lib.toVec m = .ok text → lib.toVec m' = .ok text → m = m'

/-- An accepted proof is signed by the public key in its header, which its thumbprint
names, and its claims are the expected ones. -/
structure SoundlyVerified (lib : JsonWebToken)
    (Signs : lib.DecodingKey → Algorithm → Str → Prop) (proof htu htm : Str) (now skew : Nat)
    (ath : Option Str) (v : DpopVerified) : Prop where
  signed : ∃ alg jwk key, Carries lib proof alg jwk key ∧ Asymmetric alg ∧ jwk.Public ∧
    Signs key alg proof ∧ IsThumbprint lib jwk v.jkt
  htm : lib.toUppercase v.htm = lib.toUppercase htm
  htu : normaliseHtu v.htu = normaliseHtu htu
  iat : |(v.iat : ℤ) - now| ≤ skew
  ath : ∀ want, ath = some want → v.ath = some want

/-- Two texts of one hash. -/
def Collision (lib : JsonWebToken) (jwk jwk' : Jwk) : Prop :=
  ∃ text text', CanonicalText lib jwk text ∧ CanonicalText lib jwk' text' ∧ text ≠ text' ∧
    lib.sha256Base64Url text = lib.sha256Base64Url text'

/-- What binding a token to the thumbprint of a proof rests on. -/
structure ProofSound (lib : JsonWebToken) (Signs : lib.DecodingKey → Algorithm → Str → Prop)
    (proof : Str) : Prop where
  verified : ∀ htu htm now skew ath v,
    verifyDpopProofCore lib proof htu htm now skew ath = .ok v →
      SoundlyVerified lib Signs proof htu htm now skew ath v
  sameKey : ∀ other alg alg' jwk jwk' key key' jkt, Carries lib proof alg jwk key →
    Carries lib other alg' jwk' key' → jwk.thumbprint lib = .ok jkt →
      jwk'.thumbprint lib = .ok jkt →
        (∀ p a, lib.decode p key a = lib.decode p key' a) ∨ Collision lib jwk jwk'

/-- The proof carries an authentication code that anyone can make who has seen its
header: `HS256` under the octet key in it. -/
def SelfKeyed (lib : JsonWebToken) (proof : Str) : Prop :=
  ∃ jkt claims jwk key, decodeProof lib proof = .ok (jkt, claims) ∧
    Carries lib proof .HS256 jwk key ∧ jwk.kty = "oct"

section Decoding

variable {lib : JsonWebToken} {proof jkt : Str} {claims : DpopClaims} {jwk jwk' : Jwk}
  {members : List (Str × Str)}

theorem decodeProof_eq_ok_iff :
    decodeProof lib proof = .ok (jkt, claims) ↔
      ∃ header jwkJson value jwk jwtJwk key, lib.decodeHeader proof = .ok header ∧
        header.typ = some ("dpop+jwt" : Str) ∧ header.jwk = some jwkJson ∧
          lib.toValue jwkJson = .ok value ∧ lib.jwkOfValue value = .ok jwk ∧
            jwk.thumbprint lib = .ok jkt ∧ algPermitted header.alg jwk.kty = true ∧
              lib.libJwkOfValue value = .ok jwtJwk ∧ lib.decodingKey jwtJwk = .ok key ∧
                lib.decode proof key header.alg = .ok claims := by
  unfold decodeProof
  simp only [bind_eq_ok_iff, orNip98_eq_ok_iff, throw_guard_eq_ok_iff, ne_eq, not_not]
  constructor
  · rintro ⟨header, hheader, htyp, h⟩
    cases hjwk : header.jwk with
    | none =>
        rw [hjwk] at h
        cases h
    | some jwkJson =>
        simp only [hjwk, bind_eq_ok_iff, orNip98_eq_ok_iff, throw_guard_eq_ok_iff] at h
        obtain ⟨value, hvalue, jwk, hparse, jkt', hjkt, halg, jwtJwk, hlib, key, hkey, claims',
          hdecode, hpure⟩ := h
        cases hpure
        exact ⟨header, jwkJson, value, jwk, jwtJwk, key, hheader, htyp, hjwk, hvalue, hparse,
          hjkt, by simpa using halg, hlib, hkey, hdecode⟩
  · rintro ⟨header, jwkJson, value, jwk, jwtJwk, key, hheader, htyp, hjwk, hvalue, hparse,
      hjkt, halg, hlib, hkey, hdecode⟩
    refine ⟨header, hheader, htyp, ?_⟩
    simp only [hjwk, bind_eq_ok_iff, orNip98_eq_ok_iff, throw_guard_eq_ok_iff]
    exact ⟨value, hvalue, jwk, hparse, jkt, hjkt, by simpa using halg, jwtJwk, hlib, key, hkey,
      claims, hdecode, rfl⟩

theorem Jwk.require_eq_ok_iff {field : Option Str} {msg v : Str} :
    Jwk.require field msg = .ok v ↔ field = some v := by
  cases field with
  | none => simp [Jwk.require]
  | some w => simp [Jwk.require]

/-- The members that the thumbprint is taken of are the required ones. -/
theorem exists_names_of_members (h : jwk.members = .ok members) :
    ∃ names values, requiredMembers jwk.kty = some names ∧
      names.map jwk.get = values.map some ∧ names.zip values = members := by
  rw [Jwk.members] at h
  by_cases hec : jwk.kty = "EC"
  · simp only [if_pos hec, bind_eq_ok_iff, Jwk.require_eq_ok_iff] at h
    obtain ⟨crv, hcrv, x, hx, y, hy, h⟩ := h
    cases h
    refine ⟨["crv", "kty", "x", "y"], [crv, "EC", x, y], if_pos hec, ?_, rfl⟩
    simp [Jwk.get, hcrv, hx, hy, hec]
  rw [if_neg hec] at h
  by_cases hrsa : jwk.kty = "RSA"
  · simp only [if_pos hrsa, bind_eq_ok_iff, Jwk.require_eq_ok_iff] at h
    obtain ⟨e, he, n, hn, h⟩ := h
    cases h
    refine ⟨["e", "kty", "n"], [e, "RSA", n], ?_, ?_, rfl⟩
    · rw [requiredMembers, if_neg hec, if_pos hrsa]
    · simp [Jwk.get, he, hn, hrsa]
  rw [if_neg hrsa] at h
  by_cases hokp : jwk.kty = "OKP"
  · simp only [if_pos hokp, bind_eq_ok_iff, Jwk.require_eq_ok_iff] at h
    obtain ⟨crv, hcrv, x, hx, h⟩ := h
    cases h
    refine ⟨["crv", "kty", "x"], [crv, "OKP", x], ?_, ?_, rfl⟩
    · rw [requiredMembers, if_neg hec, if_neg hrsa, if_pos hokp]
    · simp [Jwk.get, hcrv, hx, hokp]
  rw [if_neg hokp] at h
  by_cases hoct : jwk.kty = "oct"
  · simp only [if_pos hoct, bind_eq_ok_iff, Jwk.require_eq_ok_iff] at h
    obtain ⟨k, hk, h⟩ := h
    cases h
    refine ⟨["k", "kty"], [k, "oct"], ?_, ?_, rfl⟩
    · rw [requiredMembers, if_neg hec, if_neg hrsa, if_neg hokp, if_pos hoct]
    · simp [Jwk.get, hk, hoct]
  · rw [if_neg hoct] at h
    cases h

theorem thumbprint_eq_ok_iff :
    jwk.thumbprint lib = .ok jkt ↔
      ∃ members text, jwk.members = .ok members ∧ lib.toVec members = .ok text ∧
        jkt = lib.sha256Base64Url text := by
  simp only [Jwk.thumbprint, bind_eq_ok_iff, orNip98_eq_ok_iff]
  constructor
  · rintro ⟨members, hmembers, text, htext, h⟩
    cases h
    exact ⟨members, text, hmembers, htext, rfl⟩
  · rintro ⟨members, text, hmembers, htext, rfl⟩
    exact ⟨members, hmembers, text, htext, rfl⟩

theorem isThumbprint_of_thumbprint (h : jwk.thumbprint lib = .ok jkt) :
    IsThumbprint lib jwk jkt := by
  obtain ⟨members, text, hmembers, htext, rfl⟩ := thumbprint_eq_ok_iff.mp h
  obtain ⟨names, values, hrequired, hvalues, rfl⟩ := exists_names_of_members hmembers
  exact ⟨text, ⟨names, values, hrequired, hvalues, htext⟩, rfl⟩

/-- A thumbprint exists for the four key types only. -/
theorem public_of_members (h : jwk.members = .ok members) (hoct : jwk.kty ≠ "oct") :
    jwk.Public := by
  obtain ⟨names, values, hrequired, -⟩ := exists_names_of_members h
  by_contra hpublic
  rw [Jwk.Public, not_or, not_or] at hpublic
  rw [requiredMembers, if_neg hpublic.1, if_neg hpublic.2.1, if_neg hpublic.2.2,
    if_neg hoct] at hrequired
  cases hrequired

theorem algPermitted_iff {alg : Algorithm} {kty : Str} :
    algPermitted alg kty = true ↔ Asymmetric alg ∨ alg = .HS256 ∧ kty = "oct" := by
  cases alg <;> simp [algPermitted, Asymmetric]

theorem checkAth_eq_ok_iff {expected ath : Option Str} :
    checkAth expected ath = .ok () ↔ ∀ want, expected = some want → ath = some want := by
  cases expected with
  | none => simp [checkAth]
  | some want =>
      cases ath with
      | none => simp [checkAth]
      | some got =>
          rw [checkAth]
          simp only [constantTimeEq_iff]
          by_cases h : Str.utf8 got = Str.utf8 want
          · simp [Str.utf8_injective h]
          · simp [h, show got ≠ want from fun heq => h (congrArg Str.utf8 heq)]

theorem abs_sub_le_of_inTolerance {now skew iat : Nat} (h : InTolerance now skew iat) :
    |(iat : ℤ) - now| ≤ skew := by
  obtain ⟨hpast, hfuture⟩ := h
  rw [abs_le]
  omega

/-- Keys of one thumbprint have the same members, or the hash does not tell their
texts apart. -/
theorem members_eq_or_collision {Signs : lib.DecodingKey → Algorithm → Str → Prop}
    (hlib : lib.Sound Signs) (h : jwk.thumbprint lib = .ok jkt)
    (h' : jwk'.thumbprint lib = .ok jkt) :
    (∃ members, jwk.members = .ok members ∧ jwk'.members = .ok members) ∨
      Collision lib jwk jwk' := by
  obtain ⟨members, text, hmembers, htext, hjkt⟩ := thumbprint_eq_ok_iff.mp h
  obtain ⟨members', text', hmembers', htext', hjkt'⟩ := thumbprint_eq_ok_iff.mp h'
  by_cases heq : text = text'
  · subst heq
    obtain rfl := hlib.json htext htext'
    exact .inl ⟨members, hmembers, hmembers'⟩
  · obtain ⟨names, values, hrequired, hvalues, rfl⟩ := exists_names_of_members hmembers
    obtain ⟨names', values', hrequired', hvalues', rfl⟩ := exists_names_of_members hmembers'
    exact .inr ⟨text, text', ⟨names, values, hrequired, hvalues, htext⟩,
      ⟨names', values', hrequired', hvalues', htext'⟩, heq, hjkt.symm.trans hjkt'⟩

end Decoding

section Soundness

variable {lib : JsonWebToken} {Signs : lib.DecodingKey → Algorithm → Str → Prop}

theorem sameKey_or_collision (hlib : lib.Sound Signs) {proof other jkt : Str}
    {alg alg' : Algorithm} {jwk jwk' : Jwk} {key key' : lib.DecodingKey}
    (hproof : Carries lib proof alg jwk key) (hother : Carries lib other alg' jwk' key')
    (hjkt : jwk.thumbprint lib = .ok jkt) (hjkt' : jwk'.thumbprint lib = .ok jkt) :
    (∀ p a, lib.decode p key a = lib.decode p key' a) ∨ Collision lib jwk jwk' := by
  refine (members_eq_or_collision hlib hjkt hjkt').imp_left ?_
  rintro ⟨members, hmembers, hmembers'⟩ p a
  obtain ⟨-, -, value, jwtJwk, -, -, -, -, hparse, hlibparse, hkey⟩ := hproof
  obtain ⟨-, -, value', jwtJwk', -, -, -, -, hparse', hlibparse', hkey'⟩ := hother
  have hsame : key = key' := hlib.members hparse hparse' hlibparse hlibparse' hkey hkey'
    (by rw [hmembers, hmembers']) (by rw [hmembers]; exact Option.some_ne_none _)
  rw [hsame]

theorem soundlyVerified_of_verify (hlib : lib.Sound Signs) {proof htu htm : Str}
    {now skew : Nat} {ath : Option Str} {v : DpopVerified} (hself : ¬SelfKeyed lib proof)
    (h : verifyDpopProofCore lib proof htu htm now skew ath = .ok v) :
    SoundlyVerified lib Signs proof htu htm now skew ath v := by
  obtain ⟨hdecode, hhtm, hhtu, hiat, hath⟩ := verifyDpopProofCore_eq_ok_iff.mp h
  obtain ⟨header, jwkJson, value, jwk, jwtJwk, key, hheader, -, hjwk, hvalue, hparse, hjkt,
    hpermitted, hlibparse, hkey, hsigned⟩ := decodeProof_eq_ok_iff.mp hdecode
  have hcarries : Carries lib proof header.alg jwk key :=
    ⟨header, jwkJson, value, jwtJwk, hheader, rfl, hjwk, hvalue, hparse, hlibparse, hkey⟩
  rcases algPermitted_iff.mp hpermitted with hasymmetric | ⟨halg, hoct⟩
  · obtain ⟨members, -, hmembers, -⟩ := thumbprint_eq_ok_iff.mp hjkt
    have hne : jwk.kty ≠ "oct" := hlib.family hparse hlibparse hkey hsigned hasymmetric
    exact ⟨⟨header.alg, jwk, key, hcarries, hasymmetric, public_of_members hmembers hne,
      hlib.signature hsigned, isThumbprint_of_thumbprint hjkt⟩, hhtm, hhtu,
      abs_sub_le_of_inTolerance hiat, checkAth_eq_ok_iff.mp hath⟩
  · rw [halg] at hcarries
    exact absurd ⟨v.jkt, _, jwk, key, hdecode, hcarries, hoct⟩ hself

/-- A proof that keys itself is accepted where its own claims are expected. -/
theorem exists_verify_of_decodeProof {proof jkt : Str} {claims : DpopClaims}
    (h : decodeProof lib proof = .ok (jkt, claims)) :
    ∃ v, verifyDpopProofCore lib proof claims.htu claims.htm claims.iat 0 none = .ok v :=
  ⟨⟨jkt, claims.htm, claims.htu, claims.iat, claims.jti, claims.ath⟩,
    verifyDpopProofCore_eq_ok_iff.mpr
      ⟨h, rfl, rfl, ⟨(Nat.sub_self _).le, (Nat.sub_self _).le⟩, rfl⟩⟩

end Soundness

/-- Whatever is expected of it, an accepted proof is sound exactly when it does not
key itself. -/
theorem proofSound_iff (lib : JsonWebToken) (Signs : lib.DecodingKey → Algorithm → Str → Prop)
    (hlib : lib.Sound Signs) (proof : Str) :
    ProofSound lib Signs proof ↔ ¬SelfKeyed lib proof := by
  constructor
  · rintro hsound ⟨jkt, claims, jwk, key, hdecode, hcarries, hoct⟩
    obtain ⟨v, hv⟩ := exists_verify_of_decodeProof hdecode
    obtain ⟨alg, jwk', key', ⟨header', -, -, -, hheader', halg', -⟩, hasymmetric, -⟩ :=
      (hsound.verified _ _ _ _ _ _ hv).signed
    obtain ⟨header, -, -, -, hheader, halg, -⟩ := hcarries
    obtain rfl : header = header' := Except.ok.inj (hheader.symm.trans hheader')
    exact hasymmetric.1 (halg'.symm.trans halg)
  · intro hself
    exact ⟨fun htu htm now skew ath v h => soundlyVerified_of_verify hlib hself h,
      fun other alg alg' jwk jwk' key key' jkt hproof hother hjkt hjkt' =>
        sameKey_or_collision hlib hproof hother hjkt hjkt'⟩

/-! ## A proof that keys itself -/

/-- The secret of the proof, as its header shows it. -/
def shownSecret : Str := "c2VjcmV0"

def shownClaims : DpopClaims := ⟨"https://pod/a", "GET", 0, ['1'], none⟩

def octProof : Str :=
  "eyJ0eXAiOiJkcG9wK2p3dCIsImFsZyI6IkhTMjU2IiwiandrIjp7Imt0eSI6Im9jdCIsImsiOiJjMlZ" ++
    "qY21WMCJ9fQ." ++
    "eyJodHUiOiJodHRwczovL3BvZC9hIiwiaHRtIjoiR0VUIiwiaWF0IjowLCJqdGkiOiIxIn0." ++
    "72MZKOuKn5gHNzsszdTNHFUSlZPKv90JtFZyUbadGio"

def octText : Str := "\x7b\"k\":\"c2VjcmV0\",\"kty\":\"oct\"\x7d"

def octJwk (k : Str) : Jwk where
  kty := "oct"
  crv := none
  x := none
  y := none
  n := none
  e := none
  k := some k

def shownMembers : List (Str × Str) := [("k", shownSecret), ("kty", "oct")]

def shownHeader : JwtHeader Jwk := ⟨some "dpop+jwt", .HS256, some (octJwk shownSecret)⟩

def shownThumbprint : Str := "DWBh0SEIAPYh1x5uvot4z3AhaikHkxNJa3Ada2fT-Cg"

/-- The octet key that a JSON value shows. -/
def octOfValue (value : Json) : Except Str Jwk :=
  match value with
  | .object [(_, .string k), (_, .string kty)] =>
    if kty = "oct" then .ok (octJwk k) else .error "unknown variant"
  | _ => .error "invalid type"

def octHeader (p : Str) : Except Str (JwtHeader Jwk) :=
  if p = octProof then .ok shownHeader else .error "InvalidToken"

def octDecode (p key : Str) (alg : Algorithm) : Except Str DpopClaims :=
  if p = octProof ∧ key = shownSecret ∧ alg = .HS256 then .ok shownClaims
  else .error "InvalidSignature"

def octHash (b : Bytes) : Str := if b = Str.utf8 octText then shownThumbprint else []

def octToVec (m : List (Str × Str)) : Except Str Bytes :=
  if m = shownMembers then .ok (Str.utf8 octText) else .error "unsupported"

/-- Libraries for octet keys that know one authentication code. -/
def octJwt : JsonWebToken where
  LibJwk := Jwk
  DecodingKey := Str
  decodeHeader := octHeader
  toValue jwk := .ok (.object [("k", .string (jwk.k.getD [])), ("kty", .string jwk.kty)])
  jwkOfValue := octOfValue
  libJwkOfValue := octOfValue
  decodingKey jwk := .ok (jwk.k.getD [])
  decode := octDecode
  sha256Base64Url := octHash
  toVec := octToVec
  toUppercase s := s.map Char.toUpper

theorem eq_octJwk_of_octOfValue {value : Json} {jwk : Jwk} (h : octOfValue value = .ok jwk) :
    ∃ k, jwk = octJwk k := by
  rw [octOfValue.eq_def] at h
  split at h
  · split at h
    · cases h
      exact ⟨_, rfl⟩
    · cases h
  · cases h

theorem members_octJwk (k : Str) : (octJwk k).members = .ok [("k", k), ("kty", "oct")] := by
  rfl

theorem eq_of_octDecode {p key : Str} {alg : Algorithm} {claims : DpopClaims}
    (h : octDecode p key alg = .ok claims) : p = octProof ∧ key = shownSecret ∧ alg = .HS256 := by
  by_contra hne
  rw [octDecode, if_neg hne] at h
  cases h

theorem eq_of_octToVec {m : List (Str × Str)} {text : Bytes} (h : octToVec m = .ok text) :
    m = shownMembers := by
  by_contra hne
  rw [octToVec, if_neg hne] at h
  cases h

/-- The signature of a proof, to these libraries. -/
def octSigns (key : octJwt.DecodingKey) (alg : Algorithm) (p : Str) : Prop :=
  p = octProof ∧ key = shownSecret ∧ alg = .HS256

theorem octJwt_sound : octJwt.Sound octSigns where
  signature := eq_of_octDecode
  family _ _ _ hdecode halg := absurd (eq_of_octDecode hdecode).2.2 halg.1
  members hjwk hjwk' hlib hlib' hkey hkey' hmembers _ := by
    obtain ⟨k, rfl⟩ := eq_octJwk_of_octOfValue hjwk
    obtain ⟨k', rfl⟩ := eq_octJwk_of_octOfValue hjwk'
    cases hjwk.symm.trans hlib
    cases hjwk'.symm.trans hlib'
    cases hkey
    cases hkey'
    rw [members_octJwk, members_octJwk] at hmembers
    cases hmembers
    rfl
  json h h' := (eq_of_octToVec h).trans (eq_of_octToVec h').symm

theorem decodeHeader_octJwt (p : Str) : octJwt.decodeHeader p = octHeader p := rfl

theorem decode_octJwt (p key : Str) (alg : Algorithm) :
    octJwt.decode p key alg = octDecode p key alg :=
  rfl

theorem decodeHeader_octProof : octJwt.decodeHeader octProof = .ok shownHeader := by
  rw [decodeHeader_octJwt, octHeader, if_pos rfl]
  rfl

theorem decode_octProof : octJwt.decode octProof shownSecret .HS256 = .ok shownClaims := by
  rw [decode_octJwt, octDecode, if_pos ⟨rfl, rfl, rfl⟩]

theorem octToVec_shownMembers : octToVec shownMembers = .ok (Str.utf8 octText) := by
  rw [octToVec, if_pos rfl]

theorem octHash_octText : octHash (Str.utf8 octText) = shownThumbprint := by
  rw [octHash, if_pos rfl]

theorem thumbprint_shownSecret : (octJwk shownSecret).thumbprint octJwt = .ok shownThumbprint :=
  thumbprint_eq_ok_iff.mpr ⟨shownMembers, Str.utf8 octText, members_octJwk _,
    octToVec_shownMembers, octHash_octText.symm⟩

theorem carries_octProof : Carries octJwt octProof .HS256 (octJwk shownSecret) shownSecret :=
  ⟨shownHeader, octJwk shownSecret,
    .object [("k", .string shownSecret), ("kty", .string "oct")], octJwk shownSecret,
    decodeHeader_octProof, rfl, rfl, rfl, rfl, rfl, rfl⟩

theorem selfKeyed_octProof : SelfKeyed octJwt octProof :=
  ⟨shownThumbprint, shownClaims, octJwk shownSecret, shownSecret,
    decodeProof_eq_ok_iff.mpr ⟨shownHeader, octJwk shownSecret,
      .object [("k", .string shownSecret), ("kty", .string "oct")], octJwk shownSecret,
      octJwk shownSecret, shownSecret, decodeHeader_octProof, rfl, rfl, rfl, rfl,
      thumbprint_shownSecret, rfl, rfl, rfl, decode_octProof⟩,
    carries_octProof, rfl⟩

/-- Its header says all that it takes to make another proof for its thumbprint. -/
theorem not_proofSound_octProof : ¬ProofSound octJwt octSigns octProof := by
  intro hsound
  obtain ⟨jkt, claims, jwk, key, hdecode, -⟩ := selfKeyed_octProof
  obtain ⟨v, hv⟩ := exists_verify_of_decodeProof hdecode
  obtain ⟨alg, jwk', key', ⟨header, -, -, -, hheader, halg, -⟩, hasymmetric, -⟩ :=
    (hsound.verified _ _ _ _ _ _ hv).signed
  obtain rfl : shownHeader = header := Except.ok.inj (decodeHeader_octProof.symm.trans hheader)
  exact hasymmetric.1 halg.symm

theorem proofSound_iff_octProof :
    ProofSound octJwt octSigns octProof ↔ ¬SelfKeyed octJwt octProof :=
  proofSound_iff octJwt octSigns octJwt_sound octProof

end Oidc

end SolidPod
