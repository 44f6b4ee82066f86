import SolidPod.Foundation.Encodings
import SolidPod.Foundation.Fallible
import SolidPod.Json

/-!
# NIP-98 credentials

An `Authorization` header that carries a signed event: the event names the URL,
the method and the hash of the body. `verifyAt` checks the event, and its
signature if the `nip98-schnorr` feature is compiled in. Reading the event,
hashing and Schnorr signatures are the libraries', so they are the parameters of
`Nip98Library`.
-/

namespace SolidPod

open Foundation Str Fallible

namespace Auth

def httpAuthKind : UInt64 := 27235

def timestampTolerance : Nat := 60

def maxEventSize : Nat := 64 * 1024

def nostrPrefix : Str := "Nostr "

structure Nip98Event where
  id : Str
  pubkey : Str
  createdAt : UInt64
  kind : UInt64
  tags : List (List Str)
  content : Str
  sig : Str
  deriving DecidableEq

structure Nip98Verified where
  pubkey : Str
  url : Str
  method : Str
  payloadHash : Option Str
  createdAt : UInt64
  deriving DecidableEq

/-- What is asked of the libraries. An error is given by its text. -/
structure Nip98Library where
  VerifyingKey : Type
  Signature : Type
  fromSlice : Bytes → Except Str Nip98Event
  jsonToString : Json → Except Str Str
  sha256 : Bytes → Bytes
  toLowercase : Str → Str
  toUppercase : Str → Str
  base64Error : Str → Str
  hexError : Str → Str
  verifyingKey : Bytes → Except Str VerifyingKey
  signature : Bytes → Except Str Signature
  verify : VerifyingKey → Bytes → Signature → Except Str Unit

/-- The second field of the first tag with a name. -/
def getTag (event : Nip98Event) (name : Str) : Option Str :=
  (event.tags.find? fun t => t.head? = some name).bind fun t => t[1]?

def normalizeUrl (u : Str) : Str := trimEndMatches '/' u

/-- The text that the hash of an event is taken of. -/
def canonicalText (lib : Nip98Library) (event : Nip98Event) : Str :=
  let canonical := Json.array [.number (.posInt 0), .string event.pubkey,
    .number (.posInt event.createdAt), .number (.posInt event.kind),
    .array (event.tags.map fun t => .array (t.map .string)), .string event.content]
  match lib.jsonToString canonical with
  | .ok s => s
  | .error _ => []

def eventHash (lib : Nip98Library) (event : Nip98Event) : Bytes :=
  lib.sha256 (utf8 (canonicalText lib event))

def computeEventId (lib : Nip98Library) (event : Nip98Event) : Str :=
  Hex.encode (eventHash lib event)

/-- An error of a library, behind what was being done. -/
def orNip98 {α : Type*} (what : Str) : Except Str α → Except PodError α
  | .ok a => .ok a
  | .error e => .error (.nip98 (what ++ e))

def hexDecode (lib : Nip98Library) (s : Str) : Except Str Bytes :=
  match Hex.decode s with
  | some b => .ok b
  | none => .error (lib.hexError s)

/-- Without the feature the function is a stub that refuses every event. -/
def verifySchnorrSignature (lib : Nip98Library) (schnorr : Bool) (event : Nip98Event) :
    Except PodError Unit :=
  let computedId := computeEventId lib event
  if !schnorr then .error (.unsupported "nip98-schnorr feature not enabled")
  else if lib.toLowercase computedId ≠ lib.toLowercase event.id then
    .error (.nip98 ("event id mismatch: computed=" ++ computedId ++ ", claimed=" ++ event.id))
  else do
    let pubBytes ← orNip98 "pubkey hex decode: " (hexDecode lib event.pubkey)
    let sigBytes ← orNip98 "sig hex decode: " (hexDecode lib event.sig)
    if sigBytes.length ≠ 64 then
      .error (.nip98 ("sig wrong length: " ++ decimal sigBytes.length))
    else
      let idBytes ← orNip98 "id hex decode: " (hexDecode lib computedId)
      let vk ← orNip98 "pubkey parse: " (lib.verifyingKey pubBytes)
      let sig ← orNip98 "sig parse: " (lib.signature sigBytes)
      orNip98 "schnorr verify: " (lib.verify vk idBytes sig)

/-- The event that a header carries. -/
def readEvent (lib : Nip98Library) (header : Str) : Except PodError Nip98Event :=
  match stripPrefix nostrPrefix header with
  | none => .error (.nip98 "missing 'Nostr ' prefix")
  | some rest =>
    let token := trim rest
    if byteLen token > maxEventSize then .error (.nip98 "token too large")
    else
      match Base64.decode token with
      | none => .error (.base64 (lib.base64Error token))
      | some jsonBytes =>
        if jsonBytes.length > maxEventSize then .error (.nip98 "decoded token too large")
        else
          match lib.fromSlice jsonBytes with
          | .ok event => .ok event
          | .error e => .error (.json e)

/-- The check of the body against the `payload` tag. -/
def checkPayload (lib : Nip98Library) (event : Nip98Event) (body : Option Bytes) :
    Except PodError (Option Str) :=
  let payloadTag := getTag event "payload"
  match body with
  | none | some [] => .ok payloadTag
  | some b =>
    match payloadTag with
    | none => .error (.nip98 "body provided but no payload tag")
    | some expected =>
      let actual := Hex.encode (lib.sha256 b)
      if lib.toLowercase expected ≠ lib.toLowercase actual then
        .error (.nip98 "payload hash mismatch")
      else .ok (some expected)

/-- The checks that run in every build. -/
def checkEvent (lib : Nip98Library) (event : Nip98Event) (expectedUrl expectedMethod : Str)
    (body : Option Bytes) (now : UInt64) : Except PodError Nip98Verified :=
  if event.kind ≠ httpAuthKind then
    .error (.nip98 ("wrong kind: expected " ++ decimal httpAuthKind.toNat ++ ", got " ++
      decimal event.kind.toNat))
  else if byteLen event.pubkey ≠ 64 ∨ Hex.decode event.pubkey = none then
    .error (.nip98 "invalid pubkey")
  else if now.toNat - event.createdAt.toNat > timestampTolerance ∨
      event.createdAt.toNat - now.toNat > timestampTolerance then
    .error (.nip98 ("timestamp outside tolerance: event=" ++ decimal event.createdAt.toNat ++
      ", now=" ++ decimal now.toNat))
  else
    match getTag event "u" with
    | none => .error (.nip98 "missing 'u' tag")
    | some tokenUrl =>
      if normalizeUrl tokenUrl ≠ normalizeUrl expectedUrl then
        .error (.nip98 ("URL mismatch: token=" ++ tokenUrl ++ ", expected=" ++ expectedUrl))
      else
        match getTag event "method" with
        | none => .error (.nip98 "missing 'method' tag")
        | some tokenMethod =>
          if lib.toUppercase tokenMethod ≠ lib.toUppercase expectedMethod then
            .error (.nip98 ("method mismatch: token=" ++ tokenMethod ++ ", expected=" ++
              expectedMethod))
          else do
            let payloadHash ← checkPayload lib event body
            return ⟨event.pubkey, tokenUrl, tokenMethod, payloadHash, event.createdAt⟩

/-- `schnorr` says whether the build has the `nip98-schnorr` feature. -/
def verifyAt (lib : Nip98Library) (schnorr : Bool) (header expectedUrl expectedMethod : Str)
    (body : Option Bytes) (now : UInt64) : Except PodError Nip98Verified := do
  let event ← readEvent lib header
  let verified ← checkEvent lib event expectedUrl expectedMethod body now
  if schnorr then
    verifySchnorrSignature lib schnorr event
  return verified

def verify (lib : Nip98Library) (schnorr : Bool) (header url method : Str)
    (bodyHash : Option Bytes) (now : UInt64) : Except PodError Str :=
  (verifyAt lib schnorr header url method bodyHash now).map Nip98Verified.pubkey

section Checks

variable {lib : Nip98Library} {header url method : Str} {body : Option Bytes} {now : UInt64}
  {event : Nip98Event} {v : Nip98Verified}

theorem verifyAt_eq_ok_iff {schnorr : Bool} :
    verifyAt lib schnorr header url method body now = .ok v ↔
      ∃ event, readEvent lib header = .ok event ∧
        checkEvent lib event url method body now = .ok v ∧
          (schnorr = true → verifySchnorrSignature lib schnorr event = .ok ()) := by
  rw [verifyAt, bind_eq_ok_iff]
  refine exists_congr fun event => and_congr_right fun _ => ?_
  rw [bind_eq_ok_iff]
  cases schnorr with
  | false =>
      simp only [Bool.false_eq_true, if_false, false_implies, and_true]
      constructor
      · rintro ⟨a, ha, hpure⟩
        cases hpure
        exact ha
      · intro h
        exact ⟨v, h, rfl⟩
  | true =>
      simp only [if_true, true_implies, bind_eq_ok_iff]
      constructor
      · rintro ⟨a, ha, u, hu, hpure⟩
        cases hpure
        exact ⟨ha, hu⟩
      · rintro ⟨h, hu⟩
        exact ⟨v, h, (), hu, rfl⟩

/-- What a checked event says is what it was checked against. -/
structure Bound (lib : Nip98Library) (event : Nip98Event) (url method : Str)
    (v : Nip98Verified) : Prop where
  pubkey : v.pubkey = event.pubkey
  tagUrl : getTag event "u" = some v.url
  tagMethod : getTag event "method" = some v.method
  url : normalizeUrl v.url = normalizeUrl url
  method : lib.toUppercase v.method = lib.toUppercase method

theorem bound_of_checkEvent (h : checkEvent lib event url method body now = .ok v) :
    Bound lib event url method v := by
  simp only [checkEvent, guard_eq_ok_iff] at h
  obtain ⟨-, -, -, h⟩ := h
  cases hurl : getTag event "u" with
  | none =>
      rw [hurl] at h
      cases h
  | some tokenUrl =>
      simp only [hurl, guard_eq_ok_iff] at h
      obtain ⟨hmatch, h⟩ := h
      cases hmethod : getTag event "method" with
      | none =>
          rw [hmethod] at h
          cases h
      | some tokenMethod =>
          simp only [hmethod, guard_eq_ok_iff, bind_eq_ok_iff] at h
          obtain ⟨hupper, payloadHash, -, h⟩ := h
          cases h
          exact ⟨rfl, hurl, hmethod, not_not.mp hmatch, not_not.mp hupper⟩

/-! ## Signatures -/

/-- The id of the event is its hash, and the signature is the author's of that hash.
`Valid` says when a signature is one of a message under a key. -/
structure Signed (lib : Nip98Library) (Valid : Bytes → Bytes → Bytes → Prop)
    (event : Nip98Event) : Prop where
  id : Hex.decode event.id = some (eventHash lib event)
  sig : ∃ key sig, Hex.decode event.pubkey = some key ∧ Hex.decode event.sig = some sig ∧
    Valid key (eventHash lib event) sig

/-- The header carries a signed event of the key. -/
def SignedCredential (lib : Nip98Library) (Valid : Bytes → Bytes → Bytes → Prop)
    (header pubkey : Str) : Prop :=
  ∃ event, readEvent lib header = .ok event ∧ event.pubkey = pubkey ∧ Signed lib Valid event

/-- What the libraries promise: texts of one lower case are the same octets in hex,
and only valid signatures are accepted. -/
structure Nip98Library.Sound (lib : Nip98Library) (Valid : Bytes → Bytes → Bytes → Prop) :
    Prop where
  lowercase : ∀ s t, lib.toLowercase s = lib.toLowercase t → Hex.decode s = Hex.decode t
  bip340 : ∀ key vk msg octets sig, lib.verifyingKey key = .ok vk →
    lib.signature octets = .ok sig → lib.verify vk msg sig = .ok () → Valid key msg octets

theorem orNip98_eq_ok_iff {α : Type} {what : Str} {x : Except Str α} {a : α} :
    orNip98 what x = .ok a ↔ x = .ok a := by
  cases x with
  | error e => simp [orNip98]
  | ok a' => simp [orNip98]

theorem hexDecode_eq_ok_iff {s : Str} {b : Bytes} :
    hexDecode lib s = .ok b ↔ Hex.decode s = some b := by
  rw [hexDecode]
  cases Hex.decode s with
  | none => simp
  | some b' => simp

theorem signed_of_verifySchnorrSignature {Valid : Bytes → Bytes → Bytes → Prop}
    (hlib : lib.Sound Valid) {schnorr : Bool}
    (h : verifySchnorrSignature lib schnorr event = .ok ()) : Signed lib Valid event := by
  simp only [verifySchnorrSignature, guard_eq_ok_iff, bind_eq_ok_iff, orNip98_eq_ok_iff,
    hexDecode_eq_ok_iff] at h
  obtain ⟨-, hid, pubBytes, hpub, sigBytes, hsig, -, idBytes, hidBytes, vk, hvk, sig, hsig',
    hverify⟩ := h
  have hhash : Hex.decode (computeEventId lib event) = some (eventHash lib event) :=
    Hex.decode_encode _
  rw [hhash, Option.some.injEq] at hidBytes
  subst hidBytes
  refine ⟨?_, pubBytes, sigBytes, hpub, hsig, hlib.bip340 _ _ _ _ _ hvk hsig' hverify⟩
  rw [← hlib.lowercase _ _ (not_not.mp hid), hhash]

/-- With the feature every accepted header is signed. -/
theorem signedCredential_of_verifyAt {Valid : Bytes → Bytes → Bytes → Prop}
    (hlib : lib.Sound Valid) (h : verifyAt lib true header url method body now = .ok v) :
    SignedCredential lib Valid header v.pubkey := by
  obtain ⟨event, hread, hcheck, hschnorr⟩ := verifyAt_eq_ok_iff.mp h
  exact ⟨event, hread, (bound_of_checkEvent hcheck).pubkey.symm,
    signed_of_verifySchnorrSignature hlib (hschnorr rfl)⟩

end Checks

/-! ## A credential without a signature -/

/-- An event that names a key and was not signed with it. -/
def forged : Nip98Event where
  id := []
  pubkey := List.replicate 64 'a'
  createdAt := 0
  kind := httpAuthKind
  tags := [["u", "http://a"], ["method", "GET"]]
  content := []
  sig := ['-']

def forgedText : Str :=
  "\x7b\"id\":\"\",\"pubkey\":\"" ++ List.replicate 64 'a' ++
    "\",\"created_at\":0,\"kind\":27235,\"tags\":[[\"u\",\"http://a\"],[\"method\",\"GET\"]]," ++
    "\"content\":\"\",\"sig\":\"-\"\x7d"

def forgedHeader : Str := nostrPrefix ++ Base64.encode (utf8 forgedText)

theorem not_signed_forged (lib : Nip98Library) (Valid : Bytes → Bytes → Bytes → Prop) :
    ¬ Signed lib Valid forged := by
  intro h
  obtain ⟨key, sig, -, hsig, -⟩ := h.sig
  cases hsig

theorem trim_encode (b : Bytes) : trim (Base64.encode b) = Base64.encode b := by
  have hword : ∀ c ∈ Base64.encode b, isWhitespace c = false := by
    have halphabet : ∀ c ∈ Base64.alphabet, isWhitespace c = false := by decide
    intro c hc
    rcases Base64.mem_encode hc with rfl | hmem
    · rfl
    · exact halphabet c hmem
  refine trim_eq_self (fun c hc => hword c (List.mem_of_mem_head? hc))
    (fun c hc => hword c (List.mem_of_mem_getLast? hc))

theorem readEvent_encode {lib : Nip98Library} {text : Str} {event : Nip98Event}
    (htoken : byteLen (Base64.encode (utf8 text)) ≤ maxEventSize)
    (hsize : (utf8 text).length ≤ maxEventSize) (hread : lib.fromSlice (utf8 text) = .ok event) :
    readEvent lib (nostrPrefix ++ Base64.encode (utf8 text)) = .ok event := by
  rw [readEvent, stripPrefix_append]
  simp only [trim_encode, if_neg (Nat.not_lt.mpr htoken), Base64.decode_encode,
    if_neg (Nat.not_lt.mpr hsize), hread]

section Forged

variable {lib : Nip98Library} (hread : lib.fromSlice (utf8 forgedText) = .ok forged)

include hread

theorem readEvent_forgedHeader : readEvent lib forgedHeader = .ok forged :=
  readEvent_encode (by decide +kernel) (by decide +kernel) hread

/-- Without the feature the event is accepted. -/
theorem verifyAt_forgedHeader : verifyAt lib false forgedHeader "http://a" "GET" none 0 =
    .ok ⟨List.replicate 64 'a', "http://a", "GET", none, 0⟩ := by
  refine verifyAt_eq_ok_iff.mpr ⟨forged, readEvent_forgedHeader hread, ?_, nofun⟩
  have hkind : ¬ forged.kind ≠ httpAuthKind := not_not.mpr rfl
  have hpubkey : ¬ (byteLen forged.pubkey ≠ 64 ∨ Hex.decode forged.pubkey = none) := by decide
  have htags : getTag forged "u" = some ("http://a" : Str) ∧
      getTag forged "method" = some ("GET" : Str) := by
    decide
  rw [checkEvent, if_neg hkind, if_neg hpubkey, if_neg (by decide)]
  simp only [htags.1, htags.2, ne_eq, not_true_eq_false, if_false]
  rfl

end Forged

end Auth

end SolidPod
