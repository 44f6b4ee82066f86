import SolidPod.Error
import SolidPod.Foundation.Encodings
import SolidPod.Foundation.Fallible
import SolidPod.Foundation.Numerals

/-!
# The signatures of webhook deliveries

A delivery carries a signature of its method, its target, four of its headers and
the parameters of the signature. The receiver reads the parameters from their header,
writes the signed text again and verifies it. It cuts the parameters at every
semicolon, so what was signed is accepted exactly when there is none in the key id.
-/

namespace SolidPod

open Foundation

namespace Notifications

open Str

/-- The upper case of each character, in which no lower case letter of ASCII is left. -/
structure UppercaseTable where
  map : Char → Str
  notLower : ∀ c, ∀ d ∈ map c, d.isLower = false

/-- The signatures are 64 bytes long. -/
abbrev Ed25519Signature := { bytes : Bytes // bytes.length = 64 }

/-- What signing and verifying take from other libraries. A time that HTTP cannot write is
one that `fmtHttpDate` has no text for. -/
structure SigningLibrary where
  uppercase : UppercaseTable
  sha256 : Bytes → Bytes
  fmtHttpDate : ℕ → Option Str
  base64Error : Str → Str
  SigningKey : Type
  VerifyingKey : Type
  verifyingKey : SigningKey → VerifyingKey
  sign : SigningKey → Bytes → Ed25519Signature
  verify : VerifyingKey → Bytes → Ed25519Signature → Bool

inductive SignatureError where
  | missingHeader (name : Str)
  | malformedInput
  | malformedSignature
  | keyIdMismatch (expected got : Str)
  | digestMismatch
  | badSignature
  | base64 (msg : Str)
  deriving DecidableEq

def coveredComponents : List Str :=
  ["@method", "@target-uri", "content-type", "content-digest", "date", "x-solid-notification-id"]

structure SignerConfig (lib : SigningLibrary) where
  keyid : Str
  key : lib.SigningKey

structure SignedDelivery where
  headers : List (Str × Str)
  body : Bytes

/-! ## Signing -/

def toUppercase (table : UppercaseTable) (s : Str) : Str := s.flatMap table.map

def quoted (s : Str) : Str := '"' :: (s ++ ['"'])

/-- The list of the covered components. -/
def componentList : Str := '(' :: (join " " (coveredComponents.map quoted) ++ [')'])

def signatureParamsValue (created : ℕ) (keyid : Str) : Str :=
  componentList ++ ";created=" ++ decimal created ++ ";keyid=" ++ quoted keyid ++
    ";alg=" ++ quoted "ed25519"

def buildSignatureBase (table : UppercaseTable)
    (method targetUri contentType contentDigest date notificationId : Str) (created : ℕ)
    (keyid : Str) : Str :=
  "\"@method\": " ++ toUppercase table method ++ "\n" ++
    "\"@target-uri\": " ++ targetUri ++ "\n" ++
    "\"content-type\": " ++ contentType ++ "\n" ++
    "\"content-digest\": " ++ contentDigest ++ "\n" ++
    "\"date\": " ++ date ++ "\n" ++
    "\"x-solid-notification-id\": " ++ notificationId ++ "\n" ++
    "\"@signature-params\": " ++ signatureParamsValue created keyid

variable (lib : SigningLibrary)

def contentDigestHeader (body : Bytes) : Str :=
  "sha-256=:" ++ Base64.encode (lib.sha256 body) ++ ":"

def signRequest (cfg : SignerConfig lib) (method targetUri contentType : Str) (body : Bytes)
    (notificationId : Str) (nowUnix : UInt64) : Option SignedDelivery :=
  (lib.fmtHttpDate nowUnix.toNat).map fun date =>
    let contentDigest := contentDigestHeader lib body
    let base := buildSignatureBase lib.uppercase method targetUri contentType contentDigest date
      notificationId nowUnix.toNat cfg.keyid
    let sigB64 := Base64.encode (lib.sign cfg.key (utf8 base)).val
    ⟨[("content-type", contentType), ("content-digest", contentDigest), ("date", date),
      ("x-solid-notification-id", notificationId),
      ("signature-input", "sig1=" ++ signatureParamsValue nowUnix.toNat cfg.keyid),
      ("signature", "sig1=:" ++ sigB64 ++ ":")], body⟩

/-- A request is signed when its time can be written. -/
theorem exists_signRequest {lib : SigningLibrary} (cfg : SignerConfig lib)
    (method targetUri contentType : Str) (body : Bytes) (notificationId : Str) {nowUnix : UInt64}
    {date : Str} (h : lib.fmtHttpDate nowUnix.toNat = some date) :
    ∃ signed, signRequest lib cfg method targetUri contentType body notificationId nowUnix =
      some signed := by
  rw [signRequest, h]
  exact ⟨_, rfl⟩

/-! ## Verifying -/

def findHeader (headers : List (Str × Str)) (name : Str) : Option Str :=
  (headers.find? fun h => toAsciiLowercase h.1 == toAsciiLowercase name).map Prod.snd

def unquote (v : Str) : Option Str := (stripPrefix ['"'] v).bind (stripSuffix ['"'])

/-- What one parameter does to the time and the key id that were read. -/
def assignParam (st : Option ℕ × Option Str) (param : Str × Str) :
    Except SignatureError (Option ℕ × Option Str) :=
  let (k, v) := param
  if k = "created" then
    match parseUnsigned 64 v with
    | some n => .ok (some n, st.2)
    | none => .error .malformedInput
  else if k = "keyid" then
    match unquote v with
    | some v => .ok (st.1, some v)
    | none => .error .malformedInput
  else if k = "alg" then
    match unquote v with
    | some v => if v ≠ "ed25519" then .error .malformedInput else .ok st
    | none => .error .malformedInput
  else .ok st

def readParam (st : Option ℕ × Option Str) (part : Str) :
    Except SignatureError (Option ℕ × Option Str) :=
  let part := trim part
  if part.isEmpty then .ok st
  else
    match splitOnce '=' part with
    | some param => assignParam st param
    | none => .error .malformedInput

/-- The parameters after the list of the covered components, which must be the expected one. -/
def splitSignatureInput (raw : Str) : Option (List Str) :=
  (stripPrefix "sig1=" raw).bind fun after =>
    (splitOnce ')' after).bind fun (list, params) =>
      if list ++ [')'] ≠ componentList then none else some (params.splitOn ';')

def parseSignatureInput (raw : Str) : Except SignatureError (ℕ × Str) :=
  match splitSignatureInput raw with
  | none => .error .malformedInput
  | some parts =>
    match parts.foldlM readParam (none, none) with
    | .error e => .error e
    | .ok (some created, some keyid) => .ok (created, keyid)
    | .ok _ => .error .malformedInput

def parseSignatureHeader (raw : Str) : Except SignatureError Bytes :=
  match (stripPrefix "sig1=:" raw).bind (stripSuffix ":") with
  | none => .error .malformedSignature
  | some after =>
    match Base64.decode after with
    | some bytes => .ok bytes
    | none => .error (.base64 (lib.base64Error after))

def require (headers : List (Str × Str)) (name : Str) : Except SignatureError Str :=
  match findHeader headers name with
  | some v => .ok v
  | none => .error (.missingHeader name)

def verifySignedRequest (pubkey : lib.VerifyingKey) (expectedKeyid : Str)
    (headers : List (Str × Str)) (method targetUri : Str) (body : Bytes) :
    Except SignatureError Unit := do
  let sigInput ← require headers "signature-input"
  let sigValue ← require headers "signature"
  let contentType ← require headers "content-type"
  let receivedDigest ← require headers "content-digest"
  let date ← require headers "date"
  let notificationId ← require headers "x-solid-notification-id"
  if contentDigestHeader lib body ≠ receivedDigest then throw .digestMismatch
  let (created, keyid) ← parseSignatureInput sigInput
  if keyid ≠ expectedKeyid then throw (.keyIdMismatch expectedKeyid keyid)
  let base := buildSignatureBase lib.uppercase method targetUri contentType receivedDigest date
    notificationId created keyid
  let sigBytes ← parseSignatureHeader lib sigValue
  if h : sigBytes.length = 64 then
    if lib.verify pubkey (utf8 base) ⟨sigBytes, h⟩ then return () else throw .badSignature
  else throw .malformedSignature

/-! ## What is accepted -/

variable {lib}

/-- What the verifier takes from the headers of a request. -/
structure Reading where
  sigInput : Str
  sigValue : Str
  contentType : Str
  date : Str
  notificationId : Str
  created : ℕ
  signature : Ed25519Signature

variable {pubkey : lib.VerifyingKey} {keyid : Str} {headers : List (Str × Str)}
  {method targetUri : Str} {body : Bytes}

/-- The text that the verifier writes again. -/
def Reading.base (lib : SigningLibrary) (r : Reading) (keyid method targetUri : Str)
    (body : Bytes) :
    Str :=
  buildSignatureBase lib.uppercase method targetUri r.contentType (contentDigestHeader lib body)
    r.date r.notificationId r.created keyid

structure Accepted (lib : SigningLibrary) (pubkey : lib.VerifyingKey) (keyid : Str)
    (headers : List (Str × Str)) (method targetUri : Str) (body : Bytes) (r : Reading) : Prop where
  sigInput : findHeader headers "signature-input" = some r.sigInput
  sigValue : findHeader headers "signature" = some r.sigValue
  contentType : findHeader headers "content-type" = some r.contentType
  contentDigest : findHeader headers "content-digest" = some (contentDigestHeader lib body)
  date : findHeader headers "date" = some r.date
  notificationId : findHeader headers "x-solid-notification-id" = some r.notificationId
  params : parseSignatureInput r.sigInput = .ok (r.created, keyid)
  signature : parseSignatureHeader lib r.sigValue = .ok r.signature.val
  verifies : lib.verify pubkey (utf8 (r.base lib keyid method targetUri body)) r.signature = true

theorem require_eq_ok_iff {name v : Str} :
    require headers name = .ok v ↔ findHeader headers name = some v := by
  rw [require]
  cases findHeader headers name with
  | none => simp
  | some w => simp

theorem verifySignedRequest_eq_ok_iff :
    verifySignedRequest lib pubkey keyid headers method targetUri body = .ok () ↔
      ∃ r, Accepted lib pubkey keyid headers method targetUri body r := by
  constructor
  · intro h
    obtain ⟨sigInput, hsigInput, h⟩ := Fallible.bind_eq_ok_iff.mp h
    obtain ⟨sigValue, hsigValue, h⟩ := Fallible.bind_eq_ok_iff.mp h
    obtain ⟨contentType, hcontentType, h⟩ := Fallible.bind_eq_ok_iff.mp h
    obtain ⟨digest, hdigest, h⟩ := Fallible.bind_eq_ok_iff.mp h
    obtain ⟨date, hdate, h⟩ := Fallible.bind_eq_ok_iff.mp h
    obtain ⟨notificationId, hid, h⟩ := Fallible.bind_eq_ok_iff.mp h
    obtain ⟨hbody, h⟩ := Fallible.guard_eq_ok_iff.mp h
    obtain ⟨⟨created, got⟩, hparams, h⟩ := Fallible.bind_eq_ok_iff.mp h
    dsimp only at h
    obtain ⟨hkeyid, h⟩ := Fallible.guard_eq_ok_iff.mp h
    obtain ⟨sigBytes, hsignature, hrest⟩ := Fallible.bind_eq_ok_iff.mp h
    rw [not_not] at hbody hkeyid
    subst hbody hkeyid
    by_cases hlength : sigBytes.length = 64
    · rw [dif_pos hlength] at hrest
      by_cases hverifies : lib.verify pubkey (utf8 (buildSignatureBase lib.uppercase method
          targetUri contentType (contentDigestHeader lib body) date notificationId created got))
          ⟨sigBytes, hlength⟩ = true
      · exact ⟨⟨sigInput, sigValue, contentType, date, notificationId, created,
          ⟨sigBytes, hlength⟩⟩, require_eq_ok_iff.mp hsigInput, require_eq_ok_iff.mp hsigValue,
          require_eq_ok_iff.mp hcontentType, require_eq_ok_iff.mp hdigest,
          require_eq_ok_iff.mp hdate, require_eq_ok_iff.mp hid, hparams, hsignature, hverifies⟩
      · rw [if_neg hverifies] at hrest
        cases hrest
    · rw [dif_neg hlength] at hrest
      cases hrest
  · rintro ⟨r, h⟩
    have hlength : r.signature.val.length = 64 := r.signature.property
    refine Fallible.bind_eq_ok_iff.mpr ⟨_, require_eq_ok_iff.mpr h.sigInput, ?_⟩
    refine Fallible.bind_eq_ok_iff.mpr ⟨_, require_eq_ok_iff.mpr h.sigValue, ?_⟩
    refine Fallible.bind_eq_ok_iff.mpr ⟨_, require_eq_ok_iff.mpr h.contentType, ?_⟩
    refine Fallible.bind_eq_ok_iff.mpr ⟨_, require_eq_ok_iff.mpr h.contentDigest, ?_⟩
    refine Fallible.bind_eq_ok_iff.mpr ⟨_, require_eq_ok_iff.mpr h.date, ?_⟩
    refine Fallible.bind_eq_ok_iff.mpr ⟨_, require_eq_ok_iff.mpr h.notificationId, ?_⟩
    refine Fallible.guard_eq_ok_iff.mpr ⟨not_not_intro rfl, ?_⟩
    refine Fallible.bind_eq_ok_iff.mpr ⟨_, h.params, ?_⟩
    refine Fallible.guard_eq_ok_iff.mpr ⟨not_not_intro rfl, ?_⟩
    refine Fallible.bind_eq_ok_iff.mpr ⟨_, h.signature, ?_⟩
    rw [dif_pos hlength]
    exact if_pos h.verifies

/-! ## What is read of a signed request -/

theorem notMem_componentList : ')' ∉ '(' :: join " " (coveredComponents.map quoted) := by
  decide

theorem splitSignatureInput_append (params : Str) :
    splitSignatureInput ("sig1=" ++ (componentList ++ params)) = some (params.splitOn ';') := by
  have hlist : componentList ++ params =
      ('(' :: join " " (coveredComponents.map quoted)) ++ ')' :: params := by
    rw [componentList, List.cons_append, List.append_assoc]
    rfl
  rw [splitSignatureInput, stripPrefix_append, Option.bind_some, hlist,
    splitOnce_append notMem_componentList, Option.bind_some]
  exact if_neg (not_not_intro rfl)

theorem signatureParamsValue_eq (created : ℕ) (keyid : Str) :
    signatureParamsValue created keyid = componentList ++
      ([] ++ ';' :: (("created=".toList ++ decimal created) ++ ';' ::
        (("keyid=".toList ++ quoted keyid) ++ ';' :: ("alg=".toList ++ quoted "ed25519")))) := by
  simp only [signatureParamsValue, List.append_assoc]
  rfl

/-- The parameters that were written, the key id cut at its semicolons. -/
theorem splitSignatureInput_signed (created : ℕ) (keyid : Str) :
    splitSignatureInput ("sig1=" ++ signatureParamsValue created keyid) =
      some ([] :: ("created=".toList ++ decimal created) ::
        (("keyid=".toList ++ quoted keyid).splitOn ';' ++
          ["alg=".toList ++ quoted "ed25519"])) := by
  have hcreated : ';' ∉ "created=".toList ++ decimal created := by
    rw [List.mem_append, not_or]
    exact ⟨by decide, notMem_toDigits (by decide) created⟩
  have halg : ';' ∉ "alg=".toList ++ quoted "ed25519" := by decide
  rw [signatureParamsValue_eq, splitSignatureInput_append,
    List.splitOn_append_cons_self_of_not_mem List.not_mem_nil,
    List.splitOn_append_cons_self_of_not_mem hcreated, List.splitOn_append_cons_self,
    List.splitOn_eq_singleton halg]

theorem unquote_quoted (s : Str) : unquote (quoted s) = some s := by
  have hquoted : quoted s = ['"'] ++ (s ++ ['"']) := rfl
  rw [unquote, hquoted, stripPrefix_append, Option.bind_some, stripSuffix_append]

theorem readParam_eq {st : Option ℕ × Option Str} {name value : Str} (hname : '=' ∉ name)
    (hwhite : ∀ c ∈ name, isWhitespace c = false) :
    readParam st (name ++ '=' :: value) = assignParam st (name, trimEnd value) := by
  have hne : name ++ ['='] ≠ [] := by simp
  have hword : ∀ c ∈ name ++ ['='], isWhitespace c = false := by
    intro c hc
    rcases List.mem_append.mp hc with hc | hc
    · exact hwhite c hc
    · rw [List.mem_singleton.mp hc]
      decide
  have htrim : trim (name ++ '=' :: value) = name ++ '=' :: trimEnd value := by
    have hword := trim_word_append hne hword value
    rwa [List.append_assoc, List.append_assoc] at hword
  have hempty : (name ++ '=' :: trimEnd value).isEmpty = false := by simp
  rw [readParam, htrim]
  simp only [hempty, Bool.false_eq_true, if_false, splitOnce_append hname]

theorem trimEnd_decimal (n : ℕ) : trimEnd (decimal n) = decimal n := by
  refine List.rdropWhile_eq_self_iff.mpr fun hne => ?_
  have hdigit : ((decimal n).getLast hne).isDigit = true :=
    Nat.isDigit_of_mem_toDigits (by decide) (by decide) (List.getLast_mem hne)
  rw [isWhitespace_of_isDigit hdigit]
  exact Bool.false_ne_true

variable (st : Option ℕ × Option Str)

theorem readParam_created (now : UInt64) :
    readParam st ("created=".toList ++ decimal now.toNat) = .ok (some now.toNat, st.2) := by
  have hread : readParam st ("created".toList ++ '=' :: decimal now.toNat) =
      assignParam st ("created", trimEnd (decimal now.toNat)) :=
        readParam_eq (by decide) (by decide)
  have hvalue : parseUnsigned 64 (decimal now.toNat) = some now.toNat :=
    parseUnsigned_toDigits now.toNat_lt
  rw [trimEnd_decimal] at hread
  refine hread.trans ?_
  simp only [assignParam, hvalue]
  rfl

theorem readParam_keyid (value : Str) :
    readParam st ("keyid=".toList ++ value) =
      match unquote (trimEnd value) with
      | some v => .ok (st.1, some v)
      | none => .error .malformedInput := by
  have hread : readParam st ("keyid".toList ++ '=' :: value) =
      assignParam st ("keyid", trimEnd value) := readParam_eq (by decide) (by decide)
  exact hread

theorem trimEnd_quoted (s : Str) : trimEnd (quoted s) = quoted s :=
  trimEnd_append_singleton_of_not (by decide) ('"' :: s)

theorem readParam_quoted_keyid (keyid : Str) :
    readParam st ("keyid=".toList ++ quoted keyid) = .ok (st.1, some keyid) := by
  rw [readParam_keyid, trimEnd_quoted, unquote_quoted]

/-- A key id that was cut has lost its closing quote. -/
theorem readParam_cut_keyid {part : Str} (h : '"' ∉ part) :
    readParam st ("keyid=".toList ++ '"' :: part) = .error .malformedInput := by
  have hquote : '"' ∉ trimEnd part := fun hmem => h ((List.rdropWhile_prefix _ _).subset hmem)
  have htrim : trimEnd ('"' :: part) = ['"'] ++ trimEnd part :=
    trimEnd_append_cons (c := '"') (by decide) [] part
  have hsuffix : stripSuffix ['"'] (trimEnd part) = none := by
    rw [stripSuffix, Option.map_eq_none_iff, stripPrefix_eq_none]
    rintro ⟨rest, hrest⟩
    refine hquote (List.mem_reverse.mp ?_)
    rw [← hrest]
    exact List.mem_cons_self
  rw [readParam_keyid, htrim, unquote, stripPrefix_append, Option.bind_some, hsuffix]

theorem readParam_alg :
    readParam st ("alg=".toList ++ quoted "ed25519") = .ok st := by
  have hread : readParam st ("alg".toList ++ '=' :: quoted "ed25519") =
      assignParam st ("alg", trimEnd (quoted "ed25519")) := readParam_eq (by decide) (by decide)
  rw [trimEnd_quoted] at hread
  exact hread

theorem semicolon_notMem_keyid {part : Str} (h : ';' ∉ part) :
    ';' ∉ "keyid=".toList ++ '"' :: part := by
  rw [List.mem_append, List.mem_cons, not_or, not_or]
  exact ⟨by decide, by decide, h⟩

/-- The parameters that were written are read when the key id has no semicolon. -/
theorem parseSignatureInput_signed (now : UInt64) {keyid : Str} (hquote : '"' ∉ keyid) :
    parseSignatureInput ("sig1=" ++ signatureParamsValue now.toNat keyid) =
      if ';' ∈ keyid then .error .malformedInput else .ok (now.toNat, keyid) := by
  have hempty : readParam (none, none) [] = .ok (none, none) := rfl
  rw [parseSignatureInput, splitSignatureInput_signed]
  simp only [List.foldlM_cons, List.foldlM_append, hempty, readParam_created, bind, Except.bind]
  by_cases hcut : ';' ∈ keyid
  · obtain ⟨a, b, rfl, ha⟩ := List.eq_append_cons_of_mem hcut
    have hsplit : "keyid=".toList ++ quoted (a ++ ';' :: b) =
        ("keyid=".toList ++ '"' :: a) ++ ';' :: (b ++ ['"']) := by simp [quoted]
    rw [if_pos hcut, hsplit,
      List.splitOn_append_cons_self_of_not_mem (semicolon_notMem_keyid ha), List.foldlM_cons,
      readParam_cut_keyid _ fun hmem => hquote (List.mem_append_left _ hmem)]
    rfl
  · have hwhole : ';' ∉ "keyid=".toList ++ quoted keyid := by
      refine semicolon_notMem_keyid ?_
      rw [List.mem_append, not_or]
      exact ⟨hcut, by decide⟩
    rw [if_neg hcut, List.splitOn_eq_singleton hwhole, List.foldlM_cons, readParam_quoted_keyid]
    simp only [List.foldlM_nil, bind, Except.bind, pure, Except.pure, readParam_alg]

theorem parseSignatureHeader_signed (sig : Bytes) :
    parseSignatureHeader lib ("sig1=:" ++ Base64.encode sig ++ ":") = .ok sig := by
  have hsuffix : (stripPrefix "sig1=:" ("sig1=:" ++ (Base64.encode sig ++ ":"))).bind
      (stripSuffix ":") = some (Base64.encode sig) := by
    rw [stripPrefix_append, Option.bind_some, stripSuffix_append]
  rw [parseSignatureHeader, List.append_assoc, hsuffix]
  simp only [Base64.decode_encode]

/-- What was signed is accepted exactly when the key id has no semicolon. -/
theorem verifySignedRequest_signRequest_iff {cfg : SignerConfig lib}
    {method targetUri contentType : Str} {body : Bytes} {notificationId : Str}
    {nowUnix : UInt64} {signed : SignedDelivery}
    (hsigned : signRequest lib cfg method targetUri contentType body notificationId nowUnix =
      some signed) (hquote : '"' ∉ cfg.keyid)
    (hinverse : ∀ m, lib.verify (lib.verifyingKey cfg.key) m (lib.sign cfg.key m) = true) :
    verifySignedRequest lib (lib.verifyingKey cfg.key) cfg.keyid signed.headers method targetUri
      signed.body = .ok () ↔ ';' ∉ cfg.keyid := by
  obtain ⟨date, hdate, rfl⟩ := Option.map_eq_some_iff.mp hsigned
  have hparse := parseSignatureInput_signed nowUnix hquote
  rw [verifySignedRequest_eq_ok_iff]
  constructor
  · rintro ⟨r, h⟩ hcut
    have hinput : "sig1=" ++ signatureParamsValue nowUnix.toNat cfg.keyid = r.sigInput :=
      Option.some.inj h.sigInput
    have hparams := h.params
    rw [← hinput, hparse, if_pos hcut] at hparams
    cases hparams
  · intro hwhole
    rw [if_neg hwhole] at hparse
    exact ⟨⟨_, _, contentType, date, notificationId, nowUnix.toNat, lib.sign cfg.key _⟩,
      rfl, rfl, rfl, rfl, rfl, rfl, hparse, parseSignatureHeader_signed _, hinverse _⟩

theorem isLower_toUpper (c : Char) : c.toUpper.isLower = false := by
  delta Char.toUpper
  split_ifs with h
  · obtain ⟨hlow, hhigh⟩ := h
    rw [UInt32.le_iff_toNat_le] at hlow hhigh
    have hval : (c.val + ('A'.val - 'a'.val)).toNat < 97 := by
      rw [UInt32.toNat_add]
      change 97 ≤ c.val.toNat at hlow
      change c.val.toNat ≤ 122 at hhigh
      change (c.val.toNat + 4294967264) % 2 ^ 32 < 97
      omega
    delta Char.isLower
    rw [Bool.and_eq_false_iff]
    left
    refine decide_eq_false ?_
    rw [ge_iff_le, UInt32.le_iff_toNat_le]
    exact Nat.not_le.mpr hval
  · delta Char.isLower
    rw [Bool.and_eq_false_iff, decide_eq_false_iff_not, decide_eq_false_iff_not]
    exact not_and_or.mp h

/-- The letters of ASCII, and nothing else. -/
def asciiTable : UppercaseTable where
  map c := [c.toUpper]
  notLower c d hd := by
    rw [List.mem_singleton.mp hd]
    exact isLower_toUpper c

/-- A signature is the beginning of its message. -/
def paddedLib : SigningLibrary where
  uppercase := asciiTable
  sha256 _ := List.replicate 32 0
  fmtHttpDate _ := some "Thu, 01 Jan 1970 00:00:01 GMT"
  base64Error _ := []
  SigningKey := Unit
  VerifyingKey := Unit
  verifyingKey _ := ()
  sign _ m := ⟨(m ++ List.replicate 64 0).take 64, by
    rw [List.length_take, List.length_append, List.length_replicate]
    omega⟩
  verify _ m sig := sig.val == (m ++ List.replicate 64 0).take 64

theorem verify_sign_paddedLib (key : paddedLib.SigningKey) (m : Bytes) :
    paddedLib.verify (paddedLib.verifyingKey key) m (paddedLib.sign key m) = true :=
  beq_self_eq_true ((m ++ List.replicate 64 0).take 64)

theorem fmtHttpDate_one : paddedLib.fmtHttpDate (UInt64.toNat 1) =
    some "Thu, 01 Jan 1970 00:00:01 GMT".toList := rfl

/-- A signer with one key, under the key id. -/
def sampleSigner (keyid : Str) : SignerConfig paddedLib := ⟨keyid, ()⟩

/-- A signer whose key id has a comma and an equals sign. -/
def listSigner : SignerConfig paddedLib := sampleSigner "https://pod.example/,1=2"

theorem verifySignedRequest_signRequest_iff_listSigner :
    ∃ signed, signRequest paddedLib listSigner "POST" "https://a/" "text/plain" [] "urn:uuid:1" 1 =
        some signed ∧
      (verifySignedRequest paddedLib (paddedLib.verifyingKey listSigner.key) listSigner.keyid
        signed.headers "POST" "https://a/" signed.body = .ok () ↔ ';' ∉ listSigner.keyid) := by
  obtain ⟨signed, hsigned⟩ := exists_signRequest listSigner "POST" "https://a/" "text/plain" []
    "urn:uuid:1" fmtHttpDate_one
  have hquote : '"' ∉ listSigner.keyid := by decide
  exact ⟨signed, hsigned,
    verifySignedRequest_signRequest_iff hsigned hquote (verify_sign_paddedLib listSigner.key)⟩

/-- What is signed under a key id with a semicolon is refused. -/
theorem sampleSigner_refused :
    (∀ m, paddedLib.verify (paddedLib.verifyingKey ()) m (paddedLib.sign () m) = true) ∧
      '"' ∉ (sampleSigner "channel;1").keyid ∧
      ∃ signed, signRequest paddedLib (sampleSigner "channel;1") "POST" "https://a/" "text/plain" []
          "urn:uuid:1" 1 = some signed ∧
        verifySignedRequest paddedLib (paddedLib.verifyingKey ()) "channel;1" signed.headers "POST"
          "https://a/" signed.body ≠ .ok () := by
  have hquote : '"' ∉ "channel;1".toList := by decide
  have hcut : ';' ∈ "channel;1".toList := by decide
  obtain ⟨signed, hsigned⟩ := exists_signRequest (sampleSigner "channel;1") "POST" "https://a/"
    "text/plain" [] "urn:uuid:1" fmtHttpDate_one
  refine ⟨verify_sign_paddedLib (), hquote, signed, hsigned, ?_⟩
  intro haccepted
  obtain ⟨date, -, rfl⟩ := Option.map_eq_some_iff.mp hsigned
  obtain ⟨r, h⟩ := verifySignedRequest_eq_ok_iff.mp haccepted
  have hinput : "sig1=" ++ signatureParamsValue (UInt64.toNat 1) "channel;1" = r.sigInput :=
    Option.some.inj h.sigInput
  have hparams := h.params
  have hparse := parseSignatureInput_signed 1 hquote
  rw [if_pos hcut] at hparse
  rw [← hinput, hparse] at hparams
  cases hparams

end Notifications

end SolidPod
