import SolidPod.Foundation.NormalForm
import SolidPod.Auth.Nip98
import SolidPod.DidKey.Jwt
import SolidPod.Oidc.Dpop
import SolidPod.Wac.Origin

/-!
# What a credential is bound to

Each of the three verifiers compares the URL that a credential names with the one
of the request. None of them compares the texts: a NIP-98 event counts for every
URL that differs from its own in the slashes at the end, a DPoP proof and a
self-signed token also for every one that differs in the case of ASCII letters.
-/

namespace SolidPod

open Foundation Str Fallible

namespace Auth

/-! ## The three verifiers -/

/-- The circumstances in which an event is presented. -/
structure EventUse where
  method : Str
  body : Option Bytes
  now : UInt64

def nip98Accepts (lib : Nip98Library) (schnorr : Bool) (url header : Str) (x : EventUse) : Prop :=
  ∃ v, verifyAt lib schnorr header url x.method x.body x.now = .ok v

/-- The circumstances in which a proof is presented, the replay cache among them. -/
structure ProofUse (L : Type*) where
  htm : Str
  now : Nat
  skew : Nat
  ath : Option Str
  instant : Nat
  state : Oidc.ReplayState L

def dpopAccepts {L : Type*} [LruCache L Str Nat] (lib : Oidc.JsonWebToken) (htu proof : Str)
    (x : ProofUse L) : Prop :=
  ∃ v, (Oidc.verifyDpopProofWithAth lib proof htu x.htm x.now x.skew x.ath x.instant x.state).1 =
    .ok v

/-- The circumstances in which a token is presented, the kind of build among them. -/
structure TokenUse where
  htm : Str
  now : UInt64
  skew : UInt64
  overflowChecks : Bool

def didKeyAccepts (lib : DidKey.DidKeyLibrary) (htu jwt : Str) (x : TokenUse) : Prop :=
  ∃ v, DidKey.verifySelfSignedJwt lib x.overflowChecks jwt htu x.htm x.now x.skew = some (.ok v)

/-! ## The URL that a credential names -/

section Nip98

variable {lib : Nip98Library} {event : Nip98Event} {u v method : Str} {body : Option Bytes}
  {now : UInt64} {w : Nip98Verified}

theorem checkEvent_congr (huv : normalizeUrl u = normalizeUrl v)
    (h : checkEvent lib event u method body now = .ok w) :
    checkEvent lib event v method body now = .ok w := by
  simp only [checkEvent, guard_eq_ok_iff] at h ⊢
  obtain ⟨hkind, hpubkey, htime, h⟩ := h
  refine ⟨hkind, hpubkey, htime, ?_⟩
  cases hurl : getTag event "u" with
  | none =>
      rw [hurl] at h
      cases h
  | some tokenUrl =>
      simp only [hurl, guard_eq_ok_iff] at h ⊢
      rw [huv] at h
      refine ⟨h.1, ?_⟩
      cases hmethod : getTag event "method" with
      | none =>
          rw [hmethod] at h
          cases h.2
      | some tokenMethod =>
          simp only [hmethod, guard_eq_ok_iff] at h ⊢
          exact h.2

/-- The URL that an event in a header names. -/
def namedUrl (lib : Nip98Library) (header : Str) : Option Str :=
  match readEvent lib header with
  | .ok event => getTag event "u"
  | .error _ => none

theorem nip98_boundUpTo (lib : Nip98Library) (schnorr : Bool) :
    BoundUpTo normalizeUrl (nip98Accepts lib schnorr) := by
  refine boundUpTo_of_named (namedUrl lib) ?_ ?_
  · rintro u header x ⟨w, hw⟩
    obtain ⟨event, hread, hcheck, -⟩ := verifyAt_eq_ok_iff.mp hw
    have hbound := bound_of_checkEvent hcheck
    refine ⟨w.url, ?_, hbound.url⟩
    rw [namedUrl, hread]
    exact hbound.tagUrl
  · rintro u v header x huv ⟨w, hw⟩
    obtain ⟨event, hread, hcheck, hschnorr⟩ := verifyAt_eq_ok_iff.mp hw
    exact ⟨w, verifyAt_eq_ok_iff.mpr ⟨event, hread, checkEvent_congr huv hcheck, hschnorr⟩⟩

end Nip98

section Dpop

open Oidc

variable {L : Type*} [LruCache L Str Nat] {lib : JsonWebToken}

/-- The URL that a signed proof names. -/
def namedHtu (lib : JsonWebToken) (proof : Str) : Option Str :=
  match decodeProof lib proof with
  | .ok (_, claims) => some claims.htu
  | .error _ => none

theorem dpop_boundUpTo (lib : JsonWebToken) :
    BoundUpTo normaliseHtu (dpopAccepts (L := L) lib) := by
  refine boundUpTo_of_named (namedHtu lib) ?_ ?_
  · rintro u proof x ⟨w, hw⟩
    obtain ⟨hdecode, -, hhtu, -⟩ :=
      verifyDpopProofCore_eq_ok_iff.mp (verifyDpopProofWithAth_eq_ok_iff.mp hw).1
    refine ⟨w.htu, ?_, hhtu⟩
    rw [namedHtu, hdecode]
  · rintro u v proof x huv ⟨w, hw⟩
    obtain ⟨hcore, hfresh⟩ := verifyDpopProofWithAth_eq_ok_iff.mp hw
    obtain ⟨hdecode, hhtm, hhtu, hiat, hath⟩ := verifyDpopProofCore_eq_ok_iff.mp hcore
    have hcore' := verifyDpopProofCore_eq_ok_iff.mpr ⟨hdecode, hhtm, hhtu.trans huv, hiat, hath⟩
    exact ⟨w, verifyDpopProofWithAth_eq_ok_iff.mpr ⟨hcore', hfresh⟩⟩

end Dpop

section DidKey

open DidKey

variable {lib : DidKeyLibrary}

/-- The URL that a signed token names. -/
def tokenHtu (lib : DidKeyLibrary) (jwt : Str) : Option Str :=
  match decodeJwt lib jwt with
  | .ok (_, _, claims) => some claims.htu
  | .error _ => none

theorem didKey_boundUpTo (lib : DidKeyLibrary) :
    BoundUpTo Oidc.normaliseHtu (didKeyAccepts lib) := by
  refine boundUpTo_of_named (tokenHtu lib) ?_ ?_
  · rintro u jwt x ⟨w, hw⟩
    obtain ⟨pubkey, hdecode, -, hclaims, -⟩ := verifySelfSignedJwt_eq_ok_iff.mp hw
    refine ⟨w.htu, ?_, (checkClaims_eq_ok_iff.mp hclaims).2.1⟩
    rw [tokenHtu, hdecode]
  · rintro u v jwt x huv ⟨w, hw⟩
    obtain ⟨pubkey, hdecode, hdid, hclaims, hexp⟩ := verifySelfSignedJwt_eq_ok_iff.mp hw
    obtain ⟨hhtm, hhtu, hiat⟩ := checkClaims_eq_ok_iff.mp hclaims
    have hclaims' := checkClaims_eq_ok_iff.mpr ⟨hhtm, hhtu.trans huv, hiat⟩
    exact ⟨w, verifySelfSignedJwt_eq_ok_iff.mpr ⟨pubkey, hdecode, hdid, hclaims', hexp⟩⟩

end DidKey

/-- The three kinds of credentials are bound to a URL up to the slashes at its end
and, except for the events, up to ASCII letter case. -/
theorem credentials_boundUpTo {L : Type*} [LruCache L Str Nat] (nip98 : Nip98Library)
    (schnorr : Bool) (jwt : Oidc.JsonWebToken) (didKey : DidKey.DidKeyLibrary) :
    BoundUpTo normalizeUrl (nip98Accepts nip98 schnorr) ∧
      BoundUpTo Oidc.normaliseHtu (dpopAccepts (L := L) jwt) ∧
      BoundUpTo Oidc.normaliseHtu (didKeyAccepts didKey) :=
  ⟨nip98_boundUpTo nip98 schnorr, dpop_boundUpTo jwt, didKey_boundUpTo didKey⟩

/-! ## Resources -/

/-- The resource that a URL addresses: its scheme and its authority, in which case
does not matter, and its path. -/
def resource (url : Str) : Option (Str × Str × Str) :=
  (Wac.splitScheme url).map fun (scheme, rest) =>
    let authority := rest.takeWhile fun c => !(c == '/' || c == '?' || c == '#')
    let path := (rest.drop authority.length).takeWhile fun c => !(c == '?' || c == '#')
    (toAsciiLowercase scheme, toAsciiLowercase authority, if path.isEmpty then ['/'] else path)

/-- No credential that is accepted for a URL is accepted for one of another resource. -/
def BoundToResource {C X : Type*} (accepts : Str → C → X → Prop) : Prop :=
  ∀ u v, resource u ≠ resource v → ∀ c x y, accepts u c x → ¬ accepts v c y

/-! ## A container and a resource of the same name -/

def containerUrl : Str := "https://pod/box/"

def capitalUrl : Str := "https://pod/Box/"

def documentUrl : Str := "https://pod/box"

def boxEvent : Nip98Event where
  id := []
  pubkey := List.replicate 64 'a'
  createdAt := 0
  kind := httpAuthKind
  tags := [["u", containerUrl], ["method", "GET"]]
  content := []
  sig := List.replicate 128 'a'

/-- Libraries that read every header as a signed event for the container. -/
def boxNip98 : Nip98Library where
  VerifyingKey := Unit
  Signature := Unit
  fromSlice _ := .ok boxEvent
  jsonToString _ := .ok []
  sha256 _ := []
  toLowercase s := s
  toUppercase s := s
  base64Error s := s
  hexError s := s
  verifyingKey _ := .ok ()
  signature _ := .ok ()
  verify _ _ _ := .ok ()

/-- Libraries that read every token as a signed proof. -/
def boxJwt : Oidc.JsonWebToken where
  LibJwk := Unit
  DecodingKey := Unit
  decodeHeader _ := .ok ⟨some "dpop+jwt", .ES256, some ()⟩
  toValue _ := .ok .null
  jwkOfValue _ := .ok ⟨"EC", some [], some [], some [], none, none, none⟩
  libJwkOfValue _ := .ok ()
  decodingKey _ := .ok ()
  decode _ _ _ := .ok ⟨capitalUrl, "GET", 0, [], none⟩
  sha256Base64Url _ := []
  toVec _ := .ok []
  toUppercase s := s

/-- Libraries that read every compact token as a signed one. -/
def boxDidKey : DidKey.DidKeyLibrary where
  base64Url _ := .ok (List.replicate 64 0)
  headerFromSlice _ := .ok ⟨"EdDSA", some "did:key:z", none⟩
  claimsFromSlice _ := .ok ⟨"GET", capitalUrl, 0, none, none⟩
  multibaseDecode _ := .ok (.base58Btc, [])
  multibaseEncode _ := ['z']
  varintDecode _ := .ok (DidKey.codecEd25519, List.replicate 32 0)
  varintEncode _ := []
  Ed25519Key := Unit
  ed25519Key _ := .ok ()
  ed25519Verify _ _ _ := .ok ()
  p256 := ⟨Unit, Unit, fun _ => .ok (), fun _ => .ok (), fun _ _ _ => .ok ()⟩
  k256 := ⟨Unit, Unit, fun _ => .ok (), fun _ => .ok (), fun _ _ _ => .ok ()⟩
  printable _ := true

theorem BoundToResource.ne {C X : Type*} {accepts : Str → C → X → Prop} {N : Type*}
    {normal : Str → N} (hbound : BoundToResource accepts) (hnormal : BoundUpTo normal accepts)
    {u v : Str} (hres : resource u ≠ resource v) {c : C} {x : X} (h : accepts u c x) :
    normal u ≠ normal v := by
  intro heq
  exact hbound u v hres c x x h ((hnormal.tolerates heq c x).mp h)

/-- What is accepted for the container is accepted for the document. -/
theorem credentials_not_boundToResource :
    ¬ BoundToResource (nip98Accepts boxNip98 true) ∧
      ¬ BoundToResource (dpopAccepts (L := LruList Str Nat) boxJwt) ∧
      ¬ BoundToResource (didKeyAccepts boxDidKey) := by
  refine ⟨fun hbound => ?_, fun hbound => ?_, fun hbound => ?_⟩
  · have haccepts : nip98Accepts boxNip98 true containerUrl nostrPrefix ⟨"GET", none, 0⟩ :=
      ⟨⟨List.replicate 64 'a', containerUrl, "GET", none, 0⟩, by rfl⟩
    exact hbound.ne (nip98_boundUpTo boxNip98 true) (by decide) haccepts
      (by decide : normalizeUrl containerUrl = normalizeUrl documentUrl)
  · have haccepts : dpopAccepts boxJwt capitalUrl []
        (⟨"GET", 0, 60, none, 0, ⟨none, 0⟩⟩ : ProofUse (LruList Str Nat)) :=
      ⟨⟨[], "GET", capitalUrl, 0, [], none⟩, by rfl⟩
    exact hbound.ne (dpop_boundUpTo boxJwt) (by decide) haccepts
      (by decide : Oidc.normaliseHtu capitalUrl = Oidc.normaliseHtu documentUrl)
  · have haccepts : didKeyAccepts boxDidKey capitalUrl ".." ⟨"GET", 0, 60, true⟩ :=
      ⟨⟨"did:key:z", "did:key:z", "GET", capitalUrl, 0, none, none⟩, by rfl⟩
    exact hbound.ne (didKey_boundUpTo boxDidKey) (by decide) haccepts
      (by decide : Oidc.normaliseHtu capitalUrl = Oidc.normaliseHtu documentUrl)

end Auth

end SolidPod
