import SolidPod.Server.Credentials

/-!
# The body behind a payload tag

The `payload` tag of a NIP-98 event is the hash of the body that the event was
signed for. `checkPayload` compares it with a body that is passed on and not
empty; otherwise it hands the tag back as it stands. A caller that passes no body
therefore learns nothing about it, and `extractPubkey` is such a caller: the
handlers of `PUT`, `POST` and `PATCH` store a body that no one has compared.
-/

namespace SolidPod

open Foundation Str Fallible Auth

namespace Server

/-- A header presented to `verify_at`, or to the server along with a request. -/
inductive Presentation where
  | verifyAt (url method : Str) (body : Option Bytes) (now : UInt64)
  | request (host path method : Str) (body : Bytes) (now : UInt64)

namespace Presentation

def url : Presentation → Str
  | .verifyAt url _ _ _ => url
  | .request host path _ _ _ => "http://" ++ host ++ path

def method : Presentation → Str
  | .verifyAt _ method _ _ => method
  | .request _ _ method _ _ => method

def now : Presentation → UInt64
  | .verifyAt _ _ _ now => now
  | .request _ _ _ _ now => now

/-- The body that comes with the header; an absent one is empty. -/
def body : Presentation → Bytes
  | .verifyAt _ _ body _ => body.getD []
  | .request _ _ _ body _ => body

/-- The body that `verify_at` gets to see. -/
def passed : Presentation → Option Bytes
  | .verifyAt _ _ body _ => body
  | .request _ _ _ _ _ => none

end Presentation

/-- The text is the hash of the body in hex, letter case apart. -/
def HashOf (lib : Nip98Library) (text : Str) (body : Bytes) : Prop :=
  lib.toLowercase text = lib.toLowercase (Hex.encode (lib.sha256 body))

instance (lib : Nip98Library) (text : Str) (body : Bytes) : Decidable (HashOf lib text body) :=
  inferInstanceAs (Decidable (_ = _))

/-- The header is accepted: `verify_at` gives its outcome, the server a key. -/
def Accepted (lib : Nip98Library) (schnorr : Bool) (header : Str) : Presentation → Prop
  | .verifyAt url method body now => ∃ v, verifyAt lib schnorr header url method body now = .ok v
  | .request host path method _ now =>
    ∃ pubkey, extractPubkey lib schnorr (some header) host path method now = some pubkey

/-- The event of the header has a `payload` tag. -/
def Tagged (lib : Nip98Library) (header tag : Str) : Prop :=
  ∃ event, readEvent lib header = .ok event ∧ getTag event "payload" = some tag

/-- A hash that is given out, or relied on by the server, is the one of the body. -/
def BodyVerified (lib : Nip98Library) (schnorr : Bool) (header : Str) : Presentation → Prop
  | .verifyAt url method body now =>
    ∀ v hash, verifyAt lib schnorr header url method body now = .ok v →
      v.payloadHash = some hash → HashOf lib hash (body.getD [])
  | .request host path method body now =>
    ∀ pubkey tag, extractPubkey lib schnorr (some header) host path method now = some pubkey →
      Tagged lib header tag → HashOf lib tag body

/-- Two presentations of one header with a payload tag carry bodies of one hash. -/
structure PayloadBound (lib : Nip98Library) (schnorr : Bool) (header : Str)
    (p q : Presentation) : Prop where
  left : BodyVerified lib schnorr header p
  right : BodyVerified lib schnorr header q
  sameBody : ∀ tag, Tagged lib header tag → Accepted lib schnorr header p →
    Accepted lib schnorr header q → lib.sha256 p.body = lib.sha256 q.body

/-! ## The checks besides the body's -/

/-- The event passes every check that does not look at the body. -/
structure Admitted (lib : Nip98Library) (event : Nip98Event) (url method : Str) (now : UInt64) :
    Prop where
  kind : event.kind = httpAuthKind
  pubkey : byteLen event.pubkey = 64 ∧ Hex.decode event.pubkey ≠ none
  time : now.toNat - event.createdAt.toNat ≤ timestampTolerance ∧
    event.createdAt.toNat - now.toNat ≤ timestampTolerance
  url : ∃ u, getTag event "u" = some u ∧ normalizeUrl u = normalizeUrl url
  method : ∃ m, getTag event "method" = some m ∧ lib.toUppercase m = lib.toUppercase method

/-- No one has compared the payload tag of an event that is accepted otherwise, and
it is not the hash of the body. -/
def Unchecked (lib : Nip98Library) (schnorr : Bool) (header : Str) (p : Presentation) : Prop :=
  (p.passed = none ∨ p.passed = some []) ∧
    ∃ event tag, readEvent lib header = .ok event ∧ Admitted lib event p.url p.method p.now ∧
      (schnorr = true → verifySchnorrSignature lib schnorr event = .ok ()) ∧
        getTag event "payload" = some tag ∧ ¬HashOf lib tag p.body

section Checks

variable {lib : Nip98Library} {schnorr : Bool} {header url method : Str} {body : Option Bytes}
  {now : UInt64} {event : Nip98Event} {payloadHash : Option Str} {p q : Presentation}

theorem exists_checkEvent_eq_ok_iff :
    (∃ v, checkEvent lib event url method body now = .ok v ∧ v.payloadHash = payloadHash) ↔
      Admitted lib event url method now ∧ checkPayload lib event body = .ok payloadHash := by
  constructor
  · rintro ⟨v, h, rfl⟩
    simp only [checkEvent, guard_eq_ok_iff] at h
    obtain ⟨hkind, hpubkey, htime, h⟩ := h
    cases hurl : getTag event "u" with
    | none =>
        rw [hurl] at h
        cases h
    | some tokenUrl =>
        simp only [hurl, guard_eq_ok_iff] at h
        obtain ⟨hmatch, h⟩ := h
        cases hmethod : getTag event "method" with
        | none =>
            rw [hmethod] at h
            cases h
        | some tokenMethod =>
            simp only [hmethod, guard_eq_ok_iff, bind_eq_ok_iff] at h
            obtain ⟨hupper, hash, hpayload, h⟩ := h
            cases h
            rw [not_or] at hpubkey htime
            exact ⟨⟨not_not.mp hkind, ⟨not_not.mp hpubkey.1, hpubkey.2⟩,
              ⟨not_lt.mp htime.1, not_lt.mp htime.2⟩, ⟨tokenUrl, hurl, not_not.mp hmatch⟩,
              ⟨tokenMethod, hmethod, not_not.mp hupper⟩⟩, hpayload⟩
  · rintro ⟨hadmitted, hpayload⟩
    obtain ⟨tokenUrl, hurl, hmatch⟩ := hadmitted.url
    obtain ⟨tokenMethod, hmethod, hupper⟩ := hadmitted.method
    refine ⟨⟨event.pubkey, tokenUrl, tokenMethod, payloadHash, event.createdAt⟩, ?_, rfl⟩
    simp only [checkEvent, guard_eq_ok_iff, not_or, not_lt, not_not, hurl, hmethod]
    exact ⟨hadmitted.kind, hadmitted.pubkey, hadmitted.time, hmatch, hupper,
      bind_eq_ok_iff.mpr ⟨payloadHash, hpayload, rfl⟩⟩

theorem exists_verifyAt_eq_ok_iff :
    (∃ v, verifyAt lib schnorr header url method body now = .ok v ∧
        v.payloadHash = payloadHash) ↔
      ∃ event, readEvent lib header = .ok event ∧ Admitted lib event url method now ∧
        (schnorr = true → verifySchnorrSignature lib schnorr event = .ok ()) ∧
          checkPayload lib event body = .ok payloadHash := by
  simp only [verifyAt_eq_ok_iff]
  constructor
  · rintro ⟨v, ⟨event, hread, hcheck, hsig⟩, hhash⟩
    obtain ⟨hadmitted, hpayload⟩ := exists_checkEvent_eq_ok_iff.mp ⟨v, hcheck, hhash⟩
    exact ⟨event, hread, hadmitted, hsig, hpayload⟩
  · rintro ⟨event, hread, hadmitted, hsig, hpayload⟩
    obtain ⟨v, hcheck, hhash⟩ := exists_checkEvent_eq_ok_iff.mpr ⟨hadmitted, hpayload⟩
    exact ⟨v, ⟨event, hread, hcheck, hsig⟩, hhash⟩

/-- A body that is passed on and not empty is compared with the tag. -/
theorem checkPayload_eq_ok_iff :
    checkPayload lib event body = .ok payloadHash ↔
      payloadHash = getTag event "payload" ∧
        (body ≠ none → body ≠ some [] →
          ∃ tag, getTag event "payload" = some tag ∧ HashOf lib tag (body.getD [])) := by
  rcases body with - | (- | ⟨b, bs⟩)
  · simp [checkPayload, eq_comm]
  · simp [checkPayload, eq_comm]
  · have hne : some (b :: bs) ≠ some [] := by simp
    unfold checkPayload
    cases getTag event "payload" with
    | none =>
        constructor
        · intro h
          cases h
        · rintro ⟨-, h⟩
          obtain ⟨tag, htag, -⟩ := h (by simp) hne
          cases htag
    | some tag =>
        dsimp only
        rw [guard_eq_ok_iff, not_not]
        constructor
        · rintro ⟨hhash, hok⟩
          cases hok
          exact ⟨rfl, fun _ _ => ⟨tag, rfl, hhash⟩⟩
        · rintro ⟨rfl, h⟩
          obtain ⟨tag', htag, hhash⟩ := h (by simp) hne
          cases htag
          exact ⟨hhash, rfl⟩

theorem Presentation.getD_passed (h : p.passed ≠ none) : p.passed.getD [] = p.body := by
  cases p with
  | verifyAt url method body now => rfl
  | request host path method body now => exact absurd rfl h

theorem exists_extractPubkey_iff {host path : Str} :
    (∃ pubkey, extractPubkey lib schnorr (some header) host path method now = some pubkey) ↔
      ∃ v, verifyAt lib schnorr header ("http://" ++ host ++ path) method none now = .ok v := by
  simp only [extractPubkey, Option.bind_some, verify]
  cases verifyAt lib schnorr header ("http://" ++ host ++ path) method none now with
  | ok v => exact iff_of_true ⟨v.pubkey, rfl⟩ ⟨v, rfl⟩
  | error e =>
      constructor
      · rintro ⟨pubkey, ⟨⟩⟩
      · rintro ⟨v, ⟨⟩⟩

/-- The server passes its URL on, and no body. -/
theorem accepted_iff :
    Accepted lib schnorr header p ↔
      ∃ event, readEvent lib header = .ok event ∧ Admitted lib event p.url p.method p.now ∧
        (schnorr = true → verifySchnorrSignature lib schnorr event = .ok ()) ∧
          ∃ payloadHash, checkPayload lib event p.passed = .ok payloadHash := by
  have hverify : Accepted lib schnorr header p ↔
      ∃ v, verifyAt lib schnorr header p.url p.method p.passed p.now = .ok v := by
    cases p with
    | verifyAt url method body now => exact Iff.rfl
    | request host path method body now => exact exists_extractPubkey_iff
  rw [hverify]
  constructor
  · rintro ⟨v, hv⟩
    obtain ⟨event, hread, hadmitted, hsig, hpayload⟩ :=
      exists_verifyAt_eq_ok_iff.mp ⟨v, hv, rfl⟩
    exact ⟨event, hread, hadmitted, hsig, v.payloadHash, hpayload⟩
  · rintro ⟨event, hread, hadmitted, hsig, payloadHash, hpayload⟩
    obtain ⟨v, hv, -⟩ :=
      exists_verifyAt_eq_ok_iff.mpr ⟨event, hread, hadmitted, hsig, hpayload⟩
    exact ⟨v, hv⟩

/-- Both callers rely on the tag of the event that they accept. -/
theorem bodyVerified_iff_forall :
    BodyVerified lib schnorr header p ↔
      ∀ tag, Tagged lib header tag → Accepted lib schnorr header p → HashOf lib tag p.body := by
  cases p with
  | request host path method body now =>
      constructor
      · rintro h tag htag ⟨pubkey, hpubkey⟩
        exact h pubkey tag hpubkey htag
      · intro h pubkey tag hpubkey htag
        exact h tag htag ⟨pubkey, hpubkey⟩
  | verifyAt url method body now =>
      constructor
      · rintro h tag ⟨event, hread, htag⟩ ⟨v, hv⟩
        obtain ⟨event', hread', -, -, hpayload⟩ := exists_verifyAt_eq_ok_iff.mp ⟨v, hv, rfl⟩
        obtain rfl : event = event' := Except.ok.inj (hread.symm.trans hread')
        exact h v tag hv ((checkPayload_eq_ok_iff.mp hpayload).1.trans htag)
      · intro h v hash hv hhash
        obtain ⟨event, hread, -, -, hpayload⟩ := exists_verifyAt_eq_ok_iff.mp ⟨v, hv, hhash⟩
        exact h hash ⟨event, hread, (checkPayload_eq_ok_iff.mp hpayload).1.symm⟩ ⟨v, hv⟩

theorem bodyVerified_iff :
    BodyVerified lib schnorr header p ↔ ¬Unchecked lib schnorr header p := by
  rw [bodyVerified_iff_forall]
  constructor
  · rintro h ⟨hpassed, event, tag, hread, hadmitted, hsig, htag, hhash⟩
    have hpayload : checkPayload lib event p.passed = .ok (getTag event "payload") := by
      refine checkPayload_eq_ok_iff.mpr ⟨rfl, fun hnone hnil => ?_⟩
      exact absurd hpassed (not_or.mpr ⟨hnone, hnil⟩)
    exact hhash (h tag ⟨event, hread, htag⟩
      (accepted_iff.mpr ⟨event, hread, hadmitted, hsig, _, hpayload⟩))
  · rintro h tag ⟨event, hread, htag⟩ haccepted
    obtain ⟨event', hread', hadmitted, hsig, payloadHash, hpayload⟩ := accepted_iff.mp haccepted
    obtain rfl : event = event' := Except.ok.inj (hread.symm.trans hread')
    by_contra hhash
    refine h ⟨?_, event, tag, hread, hadmitted, hsig, htag, hhash⟩
    by_contra hpassed
    rw [not_or] at hpassed
    obtain ⟨tag', htag', hhash'⟩ := (checkPayload_eq_ok_iff.mp hpayload).2 hpassed.1 hpassed.2
    rw [htag, Option.some.injEq] at htag'
    rw [← htag', Presentation.getD_passed hpassed.1] at hhash'
    exact hhash hhash'

theorem HashOf.sha256_eq {tag : Str} {b c : Bytes}
    (hlower : ∀ s t, lib.toLowercase s = lib.toLowercase t → Hex.decode s = Hex.decode t)
    (hb : HashOf lib tag b) (hc : HashOf lib tag c) : lib.sha256 b = lib.sha256 c := by
  have hdecode := hlower _ _ (hb.symm.trans hc)
  rw [Hex.decode_encode, Hex.decode_encode] at hdecode
  exact Option.some.inj hdecode

end Checks

/-- A header is bound to one body at two presentations exactly when neither of them
leaves its tag unchecked: where the body is passed on and not empty, the tag is always
compared; elsewhere it is right by chance only, or the event has no tag or is refused
for another reason. -/
theorem payloadBound_iff (lib : Nip98Library) (schnorr : Bool) (header : Str)
    (p q : Presentation)
    (hlower : ∀ s t, lib.toLowercase s = lib.toLowercase t → Hex.decode s = Hex.decode t) :
    PayloadBound lib schnorr header p q ↔
      ¬Unchecked lib schnorr header p ∧ ¬Unchecked lib schnorr header q := by
  constructor
  · intro h
    exact ⟨bodyVerified_iff.mp h.left, bodyVerified_iff.mp h.right⟩
  · rintro ⟨hp, hq⟩
    rw [← bodyVerified_iff] at hp hq
    refine ⟨hp, hq, fun tag htag hpaccepted hqaccepted => ?_⟩
    exact (bodyVerified_iff_forall.mp hp tag htag hpaccepted).sha256_eq hlower
      (bodyVerified_iff_forall.mp hq tag htag hqaccepted)

/-! ## An event signed for another body -/

def originalHash : Str := "0682c5f2076f099c34cfdd15a9e063849ed437a49677e6fcc5b4198c76575be5"

def emptyHash : Str := "e3b0c44298fc1c149afbf4c8996fb92427ae41e4649b934ca495991b7852b855"

/-- The event of a `PUT` with the body `original`. -/
def originalEvent : Nip98Event where
  id := []
  pubkey := List.replicate 64 'a'
  createdAt := 0
  kind := httpAuthKind
  tags := [["u", "http://pod/a"], ["method", "PUT"], ["payload", originalHash]]
  content := []
  sig := ['-']

def originalText : Str :=
  "\x7b\"id\":\"\",\"pubkey\":\"" ++ List.replicate 64 'a' ++
    "\",\"created_at\":0,\"kind\":27235,\"tags\":[[\"u\",\"http://pod/a\"]," ++
    "[\"method\",\"PUT\"],[\"payload\",\"" ++ originalHash ++
    "\"]],\"content\":\"\",\"sig\":\"-\"\x7d"

def originalHeader : Str := nostrPrefix ++ Base64.encode (utf8 originalText)

/-- Libraries that read this event and hash this body and the empty one. -/
def originalLibrary : Nip98Library where
  VerifyingKey := Unit
  Signature := Unit
  fromSlice b := if b = utf8 originalText then .ok originalEvent else .error "expected value"
  jsonToString _ := .ok []
  sha256 b :=
    if b = utf8 "original" then (Hex.decode originalHash).getD []
    else if b = [] then (Hex.decode emptyHash).getD []
    else List.replicate 32 0
  toLowercase := toAsciiLowercase
  toUppercase s := s.map Char.toUpper
  base64Error _ := "Invalid symbol"
  hexError _ := "Invalid character"
  verifyingKey _ := .ok ()
  signature _ := .ok ()
  verify _ _ _ := .error "signature error"

theorem fromSlice_originalLibrary :
    originalLibrary.fromSlice (utf8 originalText) = .ok originalEvent := by
  simp only [originalLibrary, if_true]

theorem readEvent_originalHeader : readEvent originalLibrary originalHeader = .ok originalEvent :=
  readEvent_encode (by decide +kernel) (by decide +kernel) fromSlice_originalLibrary

theorem admitted_originalEvent :
    Admitted originalLibrary originalEvent "http://pod/a" "PUT" 0 where
  kind := rfl
  pubkey := by decide
  time := by decide
  url := ⟨"http://pod/a", by decide, rfl⟩
  method := ⟨"PUT", by decide, rfl⟩

theorem toLowercase_originalLibrary (s t : Str)
    (h : originalLibrary.toLowercase s = originalLibrary.toLowercase t) :
    Hex.decode s = Hex.decode t := by
  have hboth : toAsciiLowercase s = toAsciiLowercase t := h
  rw [← Hex.decode_toAsciiLowercase s, hboth, Hex.decode_toAsciiLowercase]

/-- Presented without a body, the event still carries the hash of the original one. -/
theorem not_payloadBound_originalHeader :
    ¬PayloadBound originalLibrary false originalHeader
      (.verifyAt "http://pod/a" "PUT" none 0) (.request "pod" "/a" "PUT" (utf8 "tampered") 0) := by
  intro h
  refine bodyVerified_iff.mp h.left ⟨.inl rfl, originalEvent, originalHash,
    readEvent_originalHeader, admitted_originalEvent, nofun, by decide, by decide⟩

theorem payloadBound_iff_originalHeader :
    PayloadBound originalLibrary false originalHeader
        (.verifyAt "http://pod/a" "PUT" (some (utf8 "original")) 0)
        (.request "pod" "/a" "PUT" (utf8 "tampered") 0) ↔
      ¬Unchecked originalLibrary false originalHeader
          (.verifyAt "http://pod/a" "PUT" (some (utf8 "original")) 0) ∧
        ¬Unchecked originalLibrary false originalHeader
          (.request "pod" "/a" "PUT" (utf8 "tampered") 0) :=
  payloadBound_iff originalLibrary false originalHeader _ _ toLowercase_originalLibrary

end Server

end SolidPod
