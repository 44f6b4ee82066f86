import SolidPod.ActivityPub.HttpSig

/-!
# Whether a signature speaks for the body

A verified signature speaks for the lines of the headers that it covers, which
are those its sender lists. The body is spoken for if the digest is one of them,
and if the digest is compared as base64 is meant: with the case of its letters.
-/

namespace SolidPod

open Foundation

open Str (toAsciiLowercase)

namespace ActivityPub

/-- The headers that the signature of a request covers. -/
def SignedRequest.covered (req : SignedRequest) : List Str :=
  match (req.get "signature").map parseSignatureHeader with
  | some (.ok parsed) => parsed.headers
  | _ => []

/-- A `Digest` header with the SHA-256 value `hash`, in one of its two forms. -/
def CarriesDigest (header : Str) (hash : Bytes) : Prop :=
  ∃ name value, toAsciiLowercase name = "sha-256=" ∧ Base64.decode value = some hash ∧
    (header = name ++ value ∨ header = name ++ (':' :: (value ++ [':'])))

/-- The signature covers the request line, the host and the date, and a digest
that is the one of the body. -/
structure BodyAuthenticated (lib : SigLibrary) (req : SignedRequest) : Prop where
  target : "(request-target)".toList ∈ req.covered
  host : "host".toList ∈ req.covered
  date : "date".toList ∈ req.covered
  digest : "digest".toList ∈ req.covered
  carries : ∃ header, req.get "digest" = some header ∧
    CarriesDigest header (lib.sha256 req.body)

def Verified (lib : SigLibrary) (resolve : Str → Except SigError VerifiedActor)
    (req : SignedRequest) : Prop :=
  ∃ actor, verifyRequestSignature lib resolve req = .ok actor

/-- A verified request that speaks for its body, and has the same signature and
covered headers, has the same body, unless the two bodies collide. -/
structure BindsBody (lib : SigLibrary) (resolve : Str → Except SigError VerifiedActor)
    (req : SignedRequest) : Prop extends BodyAuthenticated lib req where
  sameBody : ∀ other, Verified lib resolve other → BodyAuthenticated lib other →
    other.get "signature" = req.get "signature" →
    (∀ h ∈ req.covered, other.get h = req.get h) →
    (lib.sha256 other.body = lib.sha256 req.body → other.body = req.body) → other.body = req.body

/-- The signature covers what it should, and the digest is not a copy of the
body's in which letters have the other case. -/
structure StrictlyCovered (lib : SigLibrary) (req : SignedRequest) : Prop where
  target : "(request-target)".toList ∈ req.covered
  host : "host".toList ∈ req.covered
  date : "date".toList ∈ req.covered
  digest : "digest".toList ∈ req.covered
  exact : ∀ header, req.get "digest" = some header →
    eqIgnoreAsciiCase header (digestHeader lib req.body) →
    header.drop 8 = (digestHeader lib req.body).drop 8

variable {lib : SigLibrary} {resolve : Str → Except SigError VerifiedActor}
  {req other : SignedRequest}

/-- The digest of a request that was verified has passed the check. -/
theorem Verified.checkDigest (h : Verified lib resolve req) :
    checkDigest lib req req.covered = .ok () := by
  obtain ⟨actor, h⟩ := h
  rw [SignedRequest.covered]
  rw [verifyRequestSignature] at h
  cases hraw : req.get "signature" with
  | none =>
      rw [hraw] at h
      cases h
  | some raw =>
      rw [hraw] at h
      simp only [Option.map_some]
      cases hparse : parseSignatureHeader raw with
      | error e =>
          simp only [hparse, bind, Except.bind] at h
          cases h
      | ok parsed =>
          simp only
          cases hcheck : ActivityPub.checkDigest lib req parsed.headers with
          | ok u => rfl
          | error e =>
              simp only [hparse, hcheck, bind, Except.bind] at h
              split at h
              · cases h
              · cases h

/-- A digest that was compared is the body's in one of the three forms. -/
theorem Verified.digest_cases (h : Verified lib resolve req)
    (hcovered : "digest".toList ∈ req.covered) : ∃ header, req.get "digest" = some header ∧
      (eqIgnoreAsciiCase header (digestHeader lib req.body) ∨
        header = rfc9530Digest lib req.body) := by
  have hcheck := h.checkDigest
  rw [ActivityPub.checkDigest, if_pos hcovered] at hcheck
  cases hget : req.get "digest" with
  | none =>
      rw [hget] at hcheck
      cases hcheck
  | some header =>
      rw [hget] at hcheck
      refine ⟨header, rfl, ?_⟩
      by_contra hnot
      obtain ⟨hcase, hrfc⟩ := not_or.mp hnot
      have hne : header ≠ digestHeader lib req.body := by
        rintro rfl
        exact hcase rfl
      simp only at hcheck
      rw [if_pos ⟨hne, hcase, hrfc⟩] at hcheck
      cases hcheck

/-- The name of the algorithm is the first eight characters. -/
theorem carriesDigest_iff_drop {header : Str} {hash : Bytes} : CarriesDigest header hash ↔
    toAsciiLowercase (header.take 8) = "sha-256=" ∧ (header.drop 8 = Base64.encode hash ∨
      header.drop 8 = ':' :: (Base64.encode hash ++ [':'])) := by
  constructor
  · rintro ⟨name, value, hname, hvalue, hheader⟩
    have hlength : name.length = 8 := by
      have hmap := congrArg List.length hname
      rwa [toAsciiLowercase, List.length_map] at hmap
    rw [← Base64.encode_of_decode hvalue] at hheader
    rcases hheader with rfl | rfl
    · rw [List.take_left' hlength, List.drop_left' hlength]
      exact ⟨hname, Or.inl rfl⟩
    · rw [List.take_left' hlength, List.drop_left' hlength]
      exact ⟨hname, Or.inr rfl⟩
  · rintro ⟨hname, hvalue⟩
    refine ⟨header.take 8, Base64.encode hash, hname, Base64.decode_encode hash, ?_⟩
    rcases hvalue with hvalue | hvalue
    · left
      rw [← hvalue, List.take_append_drop]
    · right
      rw [← hvalue, List.take_append_drop]

/-- A header carries one value. -/
theorem CarriesDigest.unique {header : Str} {hash hash' : Bytes} (h : CarriesDigest header hash)
    (h' : CarriesDigest header hash') : hash = hash' := by
  have hapart : ∀ a b : Bytes, Base64.encode a ≠ ':' :: (Base64.encode b ++ [':']) := by
    intro a b heq
    apply Base64.notMem_encode (c := ':') (by decide) (by decide) a
    rw [heq]
    exact List.mem_cons_self
  obtain ⟨-, hdrop⟩ := carriesDigest_iff_drop.mp h
  obtain ⟨-, hdrop'⟩ := carriesDigest_iff_drop.mp h'
  rcases hdrop with hdrop | hdrop
  · rcases hdrop' with hdrop' | hdrop'
    · exact Base64.encode_injective (hdrop.symm.trans hdrop')
    · exact absurd (hdrop.symm.trans hdrop') (hapart hash hash')
  · rcases hdrop' with hdrop' | hdrop'
    · exact absurd (hdrop'.symm.trans hdrop) (hapart hash' hash)
    · exact Base64.encode_injective (List.append_cancel_right
        (List.cons.inj (hdrop.symm.trans hdrop')).2)

theorem drop_digestHeader (lib : SigLibrary) (body : Bytes) :
    (digestHeader lib body).drop 8 = Base64.encode (lib.sha256 body) := rfl

theorem length_of_eqIgnoreAsciiCase {a b : Str} (h : eqIgnoreAsciiCase a b) :
    a.length = b.length := by
  have hmap := congrArg List.length h
  rwa [toAsciiLowercase, toAsciiLowercase, List.length_map, List.length_map] at hmap

/-- A digest that was compared carries the body's value if its letters have their
case. -/
theorem carriesDigest_iff {header : Str} (h : eqIgnoreAsciiCase header (digestHeader lib req.body) ∨
    header = rfc9530Digest lib req.body) : CarriesDigest header (lib.sha256 req.body) ↔
      (eqIgnoreAsciiCase header (digestHeader lib req.body) →
        header.drop 8 = (digestHeader lib req.body).drop 8) := by
  have hlength : (digestHeader lib req.body).length =
      (Base64.encode (lib.sha256 req.body)).length + 8 := by
    have hname : "SHA-256=".toList.length = 8 := rfl
    have happend := @List.length_append _ "SHA-256=".toList (Base64.encode (lib.sha256 req.body))
    rw [hname, Nat.add_comm] at happend
    exact happend
  rw [carriesDigest_iff_drop, drop_digestHeader]
  rcases h with h | rfl
  · have hname : toAsciiLowercase (header.take 8) = "sha-256=" := by
      rw [toAsciiLowercase, List.map_take]
      exact congrArg (List.take 8) h
    rw [and_iff_right hname]
    constructor
    · rintro (hdrop | hdrop) _
      · exact hdrop
      · have hlonger := congrArg List.length hdrop
        have hsame := length_of_eqIgnoreAsciiCase h
        rw [List.length_drop, List.length_cons, List.length_append,
          List.length_singleton] at hlonger
        omega
    · intro hexact
      exact Or.inl (hexact h)
  · have hdrop : (rfc9530Digest lib req.body).drop 8 =
        ':' :: (Base64.encode (lib.sha256 req.body) ++ [':']) := rfl
    have hname : (rfc9530Digest lib req.body).take 8 = "sha-256=".toList := rfl
    refine iff_of_true ⟨by rw [hname]; decide, Or.inr hdrop⟩ ?_
    intro hcase
    have hsame := length_of_eqIgnoreAsciiCase hcase
    have hlonger := congrArg List.length hdrop
    rw [List.length_drop, List.length_cons, List.length_append, List.length_singleton] at hlonger
    omega

theorem BodyAuthenticated.sameBody (h : BodyAuthenticated lib req)
    (h' : BodyAuthenticated lib other) (hget : ∀ h ∈ req.covered, other.get h = req.get h)
    (hfree : lib.sha256 other.body = lib.sha256 req.body → other.body = req.body) :
    other.body = req.body := by
  obtain ⟨header, hheader, hcarries⟩ := h.carries
  obtain ⟨header', hheader', hcarries'⟩ := h'.carries
  rw [hget _ h.digest, hheader] at hheader'
  cases hheader'
  exact hfree (hcarries'.unique hcarries)

/-- A verified signature speaks for the body exactly if it covers what it should
and the digest has the case of the body's. -/
theorem bindsBody_iff (h : Verified lib resolve req) :
    BindsBody lib resolve req ↔ StrictlyCovered lib req := by
  constructor
  · intro hbinds
    refine ⟨hbinds.target, hbinds.host, hbinds.date, hbinds.digest, ?_⟩
    intro header hheader
    obtain ⟨header', hheader', hforms⟩ := h.digest_cases hbinds.digest
    obtain ⟨header'', hheader'', hcarries⟩ := hbinds.carries
    rw [hheader] at hheader' hheader''
    cases hheader'
    cases hheader''
    exact (carriesDigest_iff hforms).mp hcarries
  · intro hstrict
    obtain ⟨header, hheader, hforms⟩ := h.digest_cases hstrict.digest
    have hauthenticated : BodyAuthenticated lib req := ⟨hstrict.target, hstrict.host, hstrict.date,
      hstrict.digest, header, hheader,
      (carriesDigest_iff hforms).mpr (hstrict.exact header hheader)⟩
    refine ⟨hauthenticated, ?_⟩
    intro other _ hother _ hget hfree
    exact hauthenticated.sameBody hother hget hfree

/-! ## A request whose signature covers the date only -/

/-- A key that has signed everything. -/
def signedLib : SigLibrary where
  sha256 _ := []
  parseUrl _ := .error "relative URL without a base"
  base64Error _ := []
  PrivateKey := Unit
  PublicKey := Unit
  RsaSignature := Unit
  fromPkcs8Pem _ := .ok ()
  sign _ _ := []
  fromPublicKeyPem _ := .ok ()
  signatureFromBytes _ := .ok ()
  verify _ _ _ := .ok ()

/-- A post with the headers that its signature lists by default. -/
def dated : SignedRequest :=
  ⟨"POST", "/inbox", [("signature", "keyId=\"k\",signature=\"c2ln\""), ("date", "today")], []⟩

theorem bindsBody_iff_dated :
    BindsBody signedLib (fun k => .ok ⟨k, k, []⟩) dated ↔ StrictlyCovered signedLib dated :=
  bindsBody_iff ⟨_, rfl⟩

theorem dated_not_bindsBody :
    ¬ ∀ (lib : SigLibrary) (resolve : Str → Except SigError VerifiedActor) (req : SignedRequest),
      Verified lib resolve req → BindsBody lib resolve req := by
  intro h
  have hdigest := (h signedLib (fun k => .ok ⟨k, k, []⟩) dated ⟨_, rfl⟩).digest
  have hcovered : dated.covered = ["date"] := rfl
  rw [hcovered] at hdigest
  exact absurd hdigest (by decide)

end ActivityPub

end SolidPod
