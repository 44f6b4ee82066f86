import SolidPod.Build
import SolidPod.Git.Guard

/-!
# Which builds check signatures

The core library, the git handler and the server all take a public key from a
NIP-98 header. The key has signed the event of the header in every build that has
the `nip98-schnorr` feature, and in no other build.
-/

namespace SolidPod

open Foundation Str Auth

namespace Server

/-- The key of a request; `authorization` is the header if it is visible ASCII. -/
def extractPubkey (lib : Nip98Library) (schnorr : Bool) (authorization : Option Str)
    (host path method : Str) (now : UInt64) : Option Str :=
  authorization.bind fun headerVal =>
    (verify lib schnorr headerVal ("http://" ++ host ++ path) method none now).toOption

/-- Whoever gets a key from a header gets one that has signed the event in it. -/
structure SignedOnly (lib : Nip98Library) (texts : Git.ErrorTexts)
    (Valid : Bytes → Bytes → Bytes → Prop) (b : Build) : Prop where
  verifyAt : ∀ header url method body now v,
    verifyAt lib (b.has .nip98Schnorr) header url method body now = .ok v →
      SignedCredential lib Valid header v.pubkey
  authorise : ∀ (extractor : Git.BasicNostrExtractor) req now pubkey,
    extractor.authorise lib texts (b.has .nip98Schnorr) req now = .ok pubkey →
      ∃ token, Git.BasicNostrExtractor.nostrToken texts req = .ok token ∧
        SignedCredential lib Valid ("Nostr " ++ token) pubkey
  extractPubkey : ∀ authorization host path method now pubkey,
    extractPubkey lib (b.has .nip98Schnorr) authorization host path method now = some pubkey →
      ∃ header, authorization = some header ∧ SignedCredential lib Valid header pubkey

section Builds

variable {lib : Nip98Library} {texts : Git.ErrorTexts} {Valid : Bytes → Bytes → Bytes → Prop}

theorem exists_verifyAt_of_authorise {schnorr : Bool} {extractor : Git.BasicNostrExtractor}
    {req : Git.GitRequest} {now : UInt64} {pubkey : Str}
    (h : extractor.authorise lib texts schnorr req now = .ok pubkey) :
    ∃ token v, Git.BasicNostrExtractor.nostrToken texts req = .ok token ∧
      Auth.verifyAt lib schnorr ("Nostr " ++ token) req.authUrl req.method none now = .ok v ∧
        v.pubkey = pubkey := by
  rw [Git.BasicNostrExtractor.authorise] at h
  cases htoken : Git.BasicNostrExtractor.nostrToken texts req with
  | error e =>
      rw [htoken] at h
      cases h
  | ok token =>
      simp only [htoken] at h
      cases hverify : Auth.verifyAt lib schnorr ("Nostr " ++ token) req.authUrl req.method none
          now with
      | error e =>
          rw [hverify] at h
          cases h
      | ok v =>
          simp only [hverify] at h
          refine ⟨token, v, rfl, hverify, ?_⟩
          cases hallowed : extractor.allowedPubkeys with
          | none =>
              rw [hallowed] at h
              exact Except.ok.inj h
          | some allowed =>
              simp only [hallowed, Fallible.guard_eq_ok_iff] at h
              exact Except.ok.inj h.2

theorem signedOnly_of_has {b : Build} (hlib : lib.Sound Valid)
    (h : b.has .nip98Schnorr = true) : SignedOnly lib texts Valid b where
  verifyAt header url method body now v hv := by
    rw [h] at hv
    exact signedCredential_of_verifyAt hlib hv
  authorise extractor req now pubkey hok := by
    obtain ⟨token, v, htoken, hv, rfl⟩ := exists_verifyAt_of_authorise hok
    rw [h] at hv
    exact ⟨token, htoken, signedCredential_of_verifyAt hlib hv⟩
  extractPubkey authorization host path method now pubkey hsome := by
    rw [Server.extractPubkey, Option.bind_eq_some_iff] at hsome
    obtain ⟨header, hheader, hverify⟩ := hsome
    refine ⟨header, hheader, ?_⟩
    rw [h, verify] at hverify
    cases hv : Auth.verifyAt lib true header ("http://" ++ host ++ path) method none now with
    | error e =>
        rw [hv] at hverify
        cases hverify
    | ok v =>
        rw [hv] at hverify
        rw [← Option.some.inj hverify]
        exact signedCredential_of_verifyAt hlib hv

theorem not_signedOnly_of_not_has {b : Build}
    (hread : lib.fromSlice (utf8 forgedText) = .ok forged)
    (h : b.has .nip98Schnorr = false) : ¬ SignedOnly lib texts Valid b := by
  intro hsigned
  have haccepted := verifyAt_forgedHeader hread
  rw [← h] at haccepted
  obtain ⟨event, hevent, -, hsig⟩ := hsigned.verifyAt _ _ _ _ _ _ haccepted
  rw [readEvent_forgedHeader hread, Except.ok.injEq] at hevent
  subst hevent
  exact not_signed_forged lib Valid hsig

end Builds

/-- A build takes keys only from signed events exactly when its packages or its flags
bring the feature: the server, the identity provider and the relay do, the git handler
does not. -/
theorem signedOnly_iff (lib : Nip98Library) (texts : Git.ErrorTexts)
    (Valid : Bytes → Bytes → Bytes → Prop) (hlib : lib.Sound Valid)
    (hread : lib.fromSlice (utf8 forgedText) = .ok forged) (b : Build) :
    SignedOnly lib texts Valid b ↔
      .nip98Schnorr ∈ b.flags ∨ .server ∈ b.roots ∨ .idp ∈ b.roots ∨ .nostr ∈ b.roots := by
  rw [← b.has_nip98Schnorr_iff]
  constructor
  · intro hsigned
    by_contra h
    exact not_signedOnly_of_not_has hread ((Bool.not_eq_true _).mp h) hsigned
  · exact signedOnly_of_has hlib

/-! ## The git handler on its own -/

/-- Libraries that read one event and accept no signature. -/
def strictLibrary : Nip98Library where
  VerifyingKey := Unit
  Signature := Unit
  fromSlice b := if b = utf8 forgedText then .ok forged else .error "expected value"
  jsonToString _ := .ok []
  sha256 _ := List.replicate 32 0
  toLowercase := toAsciiLowercase
  toUppercase s := s.map Char.toUpper
  base64Error _ := "Invalid symbol"
  hexError _ := "Invalid character"
  verifyingKey _ := .ok ()
  signature _ := .ok ()
  verify _ _ _ := .error "signature error"

theorem strictLibrary_sound : strictLibrary.Sound fun _ _ _ => False where
  lowercase s t h := by
    have hboth : toAsciiLowercase s = toAsciiLowercase t := h
    rw [← Hex.decode_toAsciiLowercase s, hboth, Hex.decode_toAsciiLowercase]
  bip340 _ _ _ _ _ _ _ h := nomatch h

theorem fromSlice_strictLibrary :
    strictLibrary.fromSlice (utf8 forgedText) = .ok forged := by
  simp only [strictLibrary, if_true]

def plainTexts : Git.ErrorTexts where
  base64Error _ := "Invalid symbol"
  utf8Error _ := "invalid utf-8 sequence"
  debug := PodError.display

/-- A push with the forged event. -/
def forgedPush : Git.GitRequest where
  method := "GET"
  path := []
  query := []
  headers := [("Authorization", forgedHeader)]
  hostUrl := some "http://a"

theorem signedOnly_server :
    SignedOnly strictLibrary plainTexts (fun _ _ _ => False) ⟨[.server, .git], []⟩ :=
  (signedOnly_iff strictLibrary plainTexts _ strictLibrary_sound fromSlice_strictLibrary
    ⟨[.server, .git], []⟩).mpr (by decide)

theorem authorise_of_nostrToken {lib : Nip98Library} {texts : Git.ErrorTexts} {schnorr : Bool}
    {req : Git.GitRequest} {now : UInt64} {token : Str} {verified : Nip98Verified}
    (htoken : Git.BasicNostrExtractor.nostrToken texts req = .ok token)
    (hverified : verifyAt lib schnorr ("Nostr " ++ token) req.authUrl req.method none now =
      .ok verified) :
    (⟨none⟩ : Git.BasicNostrExtractor).authorise lib texts schnorr req now =
      .ok verified.pubkey := by
  rw [Git.BasicNostrExtractor.authorise, htoken]
  simp only [hverified]

/-- Built alone, the git handler lets the forged event push. -/
theorem git_not_signedOnly :
    (⟨none⟩ : Git.BasicNostrExtractor).authorise strictLibrary plainTexts
        (Build.has ⟨[.git], []⟩ .nip98Schnorr) forgedPush 0 = .ok (List.replicate 64 'a') ∧
      ¬ SignedOnly strictLibrary plainTexts (fun _ _ _ => False) ⟨[.git], []⟩ := by
  have hhas : Build.has ⟨[.git], []⟩ .nip98Schnorr = false := by decide
  constructor
  · have htoken : Git.BasicNostrExtractor.nostrToken plainTexts forgedPush =
        .ok (Base64.encode (utf8 forgedText)) := by
      have hbasic : stripPrefix "Basic " forgedHeader = none :=
        stripPrefix_eq_none.mpr fun ⟨rest, hrest⟩ => absurd (List.cons.inj hrest).1 (by decide)
      have hnostr : stripPrefix "Nostr " forgedHeader = some (Base64.encode (utf8 forgedText)) :=
        stripPrefix_append _ _
      have hfind : forgedPush.headers.find? (fun h => toAsciiLowercase h.1 = "authorization") =
          some (("Authorization" : Str), forgedHeader) := by
        unfold forgedPush
        rw [List.find?_cons_of_pos (by decide)]
      rw [Git.BasicNostrExtractor.nostrToken, hfind]
      simp only [hbasic, hnostr, trim_encode]
    have hheader : ("Nostr " : Str) ++ Base64.encode (utf8 forgedText) = forgedHeader := rfl
    have hurl : forgedPush.authUrl = ("http://a" : Str) := rfl
    have hmethod : forgedPush.method = ("GET" : Str) := rfl
    have hverified : verifyAt strictLibrary (Build.has ⟨[.git], []⟩ .nip98Schnorr)
        ("Nostr " ++ Base64.encode (utf8 forgedText)) forgedPush.authUrl forgedPush.method none 0 =
          .ok ⟨List.replicate 64 'a', "http://a", "GET", none, 0⟩ := by
      rw [hhas, hheader, hurl, hmethod]
      exact verifyAt_forgedHeader fromSlice_strictLibrary
    exact authorise_of_nostrToken htoken hverified
  · exact not_signedOnly_of_not_has fromSlice_strictLibrary hhas

end Server

end SolidPod
