import SolidPod.ActivityPub.HttpSig
import SolidPod.Foundation.Fallible

/-!
# Signing a request and verifying it

The attribute parser reads back what the signature header was written with, since none
of the values has a double quote. The headers that were there before under the covered
names are gone, so the verifier writes the lines again that were signed.
-/

namespace SolidPod

open Foundation

open Str (toAsciiLowercase utf8)

namespace ActivityPub

/-! ## The attributes -/

/-- An attribute as the signer writes it. -/
def writeAttr (name value : Str) : Str := name ++ '=' :: '"' :: (value ++ ['"'])

/-- The parser between two attributes. -/
def AttrState.between (attrs : List (Str × Str)) : AttrState := ⟨attrs, [], [], false, false, false⟩

/-- A character that is always part of the name it stands in. -/
def isNameChar (c : Char) : Bool := c != '=' && c != ',' && !isAsciiWhitespace c

theorem foldl_step_name {attrs : List (Str × Str)} {name : Str} (key : Str)
    (h : ∀ c ∈ name, isNameChar c = true) :
    name.foldl AttrState.step ⟨attrs, key, [], false, false, false⟩ =
      ⟨attrs, key ++ name, [], false, false, false⟩ := by
  induction name generalizing key with
  | nil => simp
  | cons c name ih =>
      have hc := h c List.mem_cons_self
      simp only [isNameChar, Bool.and_eq_true, bne_iff_ne, Bool.not_eq_true'] at hc
      obtain ⟨⟨hequals, hcomma⟩, hwhite⟩ := hc
      have hspace : c ≠ ' ' := by
        rintro rfl
        exact absurd hwhite (by decide)
      have htab : c ≠ '\t' := by
        rintro rfl
        exact absurd hwhite (by decide)
      have hstep : AttrState.step ⟨attrs, key, [], false, false, false⟩ c =
          ⟨attrs, key ++ [c], [], false, false, false⟩ := by
        simp [AttrState.step, hequals, hcomma, hspace, htab, hwhite]
      rw [List.foldl_cons, hstep, ih _ fun d hd => h d (List.mem_cons_of_mem c hd),
        List.append_assoc, List.singleton_append]

theorem foldl_step_value {attrs : List (Str × Str)} {key value : Str} (val : Str)
    (h : '"' ∉ value) :
    value.foldl AttrState.step ⟨attrs, key, val, true, true, false⟩ =
      ⟨attrs, key, val ++ value, true, true, false⟩ := by
  induction value generalizing val with
  | nil => simp
  | cons c value ih =>
      rw [List.mem_cons, not_or] at h
      have hstep : AttrState.step ⟨attrs, key, val, true, true, false⟩ c =
          ⟨attrs, key, val ++ [c], true, true, false⟩ := by
        simp [AttrState.step, Ne.symm h.1]
      rw [List.foldl_cons, hstep, ih _ h.2, List.append_assoc, List.singleton_append]

/-- An attribute is read off the front. -/
theorem foldl_step_writeAttr {attrs : List (Str × Str)} {name value : Str}
    (hname : ∀ c ∈ name, isNameChar c = true) (hvalue : '"' ∉ value) :
    (writeAttr name value).foldl AttrState.step (.between attrs) =
      .between (attrs ++ [(toAsciiLowercase name, value)]) := by
  have hequals : AttrState.step ⟨attrs, name, [], false, false, false⟩ '=' =
      ⟨attrs, name, [], true, false, false⟩ := rfl
  have hopen : AttrState.step ⟨attrs, name, [], true, false, false⟩ '"' =
      ⟨attrs, name, [], true, true, false⟩ := rfl
  have hclose : AttrState.step ⟨attrs, name, value, true, true, false⟩ '"' =
      .between (attrs ++ [(toAsciiLowercase name, value)]) := rfl
  rw [writeAttr, AttrState.between, List.foldl_append, foldl_step_name [] hname, List.nil_append,
    List.foldl_cons, hequals, List.foldl_cons, hopen, List.foldl_append, foldl_step_value [] hvalue,
    List.nil_append, List.foldl_cons, hclose, List.foldl_nil]

theorem step_comma (attrs : List (Str × Str)) :
    AttrState.step (.between attrs) ',' = .between attrs := rfl

/-- Attributes that a comma stands between are all read. -/
theorem foldl_step_join {attrs params : List (Str × Str)}
    (h : ∀ p ∈ params, (∀ c ∈ p.1, isNameChar c = true) ∧ '"' ∉ p.2) :
    (Str.join [','] (params.map fun p => writeAttr p.1 p.2)).foldl AttrState.step (.between attrs) =
      .between (attrs ++ params.map fun p => (toAsciiLowercase p.1, p.2)) := by
  have hmore : ∀ attrs : List (Str × Str),
      ((params.map fun p => writeAttr p.1 p.2).flatMap fun b => [','] ++ b).foldl AttrState.step
        (.between attrs) = .between (attrs ++ params.map fun p => (toAsciiLowercase p.1, p.2)) := by
    induction params with
    | nil => simp
    | cons p params ih =>
        intro attrs
        obtain ⟨hname, hvalue⟩ := h p List.mem_cons_self
        rw [List.map_cons, List.flatMap_cons, List.foldl_append, List.singleton_append,
          List.foldl_cons, step_comma, foldl_step_writeAttr hname hvalue,
          ih fun q hq => h q (List.mem_cons_of_mem p hq)]
        simp
  cases params with
  | nil => simp
  | cons p params =>
      have hrest := hmore attrs
      rw [List.map_cons, List.flatMap_cons, List.foldl_append, List.singleton_append,
          List.foldl_cons, step_comma, ← List.foldl_append] at hrest
      rw [List.map_cons, Str.join_cons, hrest]

/-- The attributes of a signature, in the order in which they are written. -/
def signatureAttrs (keyId sigB64 : Str) : List (Str × Str) :=
  [("keyId", keyId), ("algorithm", "rsa-sha256"), ("headers", Str.join " " covered),
    ("signature", sigB64)]

theorem parseSignatureHeader_signed {keyId sigB64 : Str} (hkeyId : keyId ≠ [])
    (hquote : '"' ∉ keyId) (hsig : sigB64 ≠ []) (hsigQuote : '"' ∉ sigB64) :
    parseSignatureHeader ("keyId=\"" ++ keyId ++ "\",algorithm=\"rsa-sha256\",headers=\"" ++
      Str.join " " covered ++ "\",signature=\"" ++ sigB64 ++ "\"") =
        .ok ⟨keyId, "rsa-sha256", covered, sigB64⟩ := by
  have hwritten : "keyId=\"" ++ keyId ++ "\",algorithm=\"rsa-sha256\",headers=\"" ++
      Str.join " " covered ++ "\",signature=\"" ++ sigB64 ++ "\"" =
        Str.join [','] ((signatureAttrs keyId sigB64).map fun p => writeAttr p.1 p.2) := by
    simp [signatureAttrs, writeAttr, Str.join_cons]
  have hplain : ∀ p ∈ signatureAttrs keyId sigB64,
      (∀ c ∈ p.1, isNameChar c = true) ∧ '"' ∉ p.2 := by
    simp only [signatureAttrs, List.forall_mem_cons]
    exact ⟨⟨by decide, hquote⟩, ⟨by decide, by decide⟩, ⟨by decide, by decide⟩,
      ⟨by decide, hsigQuote⟩, by simp⟩
  have hread : (Str.join [','] ((signatureAttrs keyId sigB64).map fun p =>
      writeAttr p.1 p.2)).foldl AttrState.step .start =
        .between ((signatureAttrs keyId sigB64).map fun p => (toAsciiLowercase p.1, p.2)) :=
    foldl_step_join hplain
  have hcovered : (splitAsciiWhitespace (Str.join " " covered)).map toAsciiLowercase = covered := by
    decide
  have hassigned : ((signatureAttrs keyId sigB64).map fun p =>
      (toAsciiLowercase p.1, p.2)).foldl SignatureHeader.assign ⟨[], [], [], []⟩ =
        ⟨keyId, "rsa-sha256", covered, sigB64⟩ :=
    congrArg (fun headers : List Str => (⟨keyId, "rsa-sha256", headers, sigB64⟩ : SignatureHeader))
      hcovered
  have hfinish : ∀ attrs, (AttrState.between attrs).finish = attrs := fun attrs => rfl
  rw [parseSignatureHeader, hwritten, hread, hfinish, hassigned]
  dsimp only
  rw [if_neg (by simpa using hkeyId), if_neg (by simpa using hsig)]
  rfl

/-! ## The request as it is received -/

/-- The path of a URL with its query. -/
def Url.target (url : Url) : Str :=
  match url.query with
  | some q => url.path ++ "?" ++ q
  | none => url.path

/-- The values of a header, whatever the case of its name. -/
def headerValues (headers : List (Str × Str)) (name : Str) : List Str :=
  (headers.filter fun h => toAsciiLowercase h.1 == name).map Prod.snd

/-- The request as it arrives, the values of a header that is there more than once joined. -/
def OutboundRequest.received (req : OutboundRequest) (target : Str) : SignedRequest where
  method := req.method
  path := target
  headers := req.headers.map fun h =>
    (toAsciiLowercase h.1, Str.join ", " (headerValues req.headers (toAsciiLowercase h.1)))
  body := req.body

theorem lookup_map_of_mem {f : Str → Str} {headers : List (Str × Str)} {name : Str}
    (h : name ∈ headers.map fun h => toAsciiLowercase h.1) :
    (headers.map fun h => (toAsciiLowercase h.1, f (toAsciiLowercase h.1))).lookup name =
      some (f name) := by
  induction headers with
  | nil => cases h
  | cons header headers ih =>
      rw [List.map_cons, List.lookup_cons]
      by_cases hname : name = toAsciiLowercase header.1
      · rw [← hname, beq_self_eq_true]
      · rw [beq_false_of_ne hname]
        exact ih ((List.mem_cons.mp h).resolve_left hname)

theorem get_received {req : OutboundRequest} {target name v : Str}
    (h : headerValues req.headers name = [v]) : (req.received target).get name = some v := by
  have hmem : name ∈ req.headers.map fun h => toAsciiLowercase h.1 := by
    have hv : v ∈ headerValues req.headers name := by
      rw [h]
      exact List.mem_singleton_self v
    obtain ⟨header, hheader, -⟩ := List.mem_map.mp hv
    obtain ⟨hin, hname⟩ := List.mem_filter.mp hheader
    exact List.mem_map.mpr ⟨header, hin, eq_of_beq hname⟩
  have hlookup := lookup_map_of_mem (f := fun n => Str.join ", " (headerValues req.headers n)) hmem
  rw [h] at hlookup
  exact hlookup.trans (congrArg some (List.append_nil v))

/-- The values of a name that is signed are those that the signer puts there. -/
theorem headerValues_signed {headers added : List (Str × Str)} {name : Str}
    (h : isSignedName name = true) (hlower : toAsciiLowercase name = name) :
    headerValues (headers.filter (fun h => !isSignedName h.1) ++ added) name =
      headerValues added name := by
  have hnone : (headers.filter fun h => !isSignedName h.1).filter
      (fun h => toAsciiLowercase h.1 == name) = [] := by
    rw [List.filter_filter, List.filter_eq_nil_iff]
    rintro header - hboth
    obtain ⟨hname, hnot⟩ := Bool.and_eq_true_iff.mp hboth
    have hsame : isSignedName header.1 = isSignedName name := by
      rw [isSignedName, isSignedName, eq_of_beq hname, hlower]
    rw [hsame, h] at hnot
    cases hnot
  rw [headerValues, List.filter_append, hnone, List.nil_append, headerValues]

/-- The keys belong together: what one signs the other one verifies. -/
structure KeyPair (lib : SigLibrary) (sk : lib.PrivateKey) (pk : lib.PublicKey) : Prop where
  sign_ne_nil : ∀ m, lib.sign sk m ≠ []
  verify_sign : ∀ m, ∃ sig, lib.signatureFromBytes (lib.sign sk m) = .ok sig ∧
    lib.verify pk m sig = .ok ()

variable {lib : SigLibrary} {resolve : Str → Except SigError VerifiedActor} {req : OutboundRequest}
  {date privateKeyPem keyId : Str} {url : Url} {host : Str} {sk : lib.PrivateKey}
  {pk : lib.PublicKey} {actor : VerifiedActor}

/-- The lines that are signed. -/
def signedLines (lib : SigLibrary) (date host target : Str) (req : OutboundRequest) : Str :=
  Str.join ['\n'] ["(request-target): " ++ toAsciiLowercase req.method ++ " " ++ target,
    "host: " ++ host, "date: " ++ date, "digest: " ++ digestHeader lib req.body]

/-- The header that the signature is sent in. -/
def signatureValue (keyId : Str) (sig : Bytes) : Str :=
  "keyId=\"" ++ keyId ++ "\",algorithm=\"rsa-sha256\",headers=\"" ++ Str.join " " covered ++
    "\",signature=\"" ++ Base64.encode sig ++ "\""

/-- The headers that the signer adds. -/
def addedHeaders (date host digest signature : Str) : List (Str × Str) :=
  [("Host".toList, host), ("Date".toList, date), ("Digest".toList, digest),
    ("Signature".toList, signature)]

/-- The request with the headers that the signer leaves and adds. -/
def OutboundRequest.withHeaders (req : OutboundRequest) (added : List (Str × Str)) :
    OutboundRequest :=
  { req with headers := req.headers.filter (fun h => !isSignedName h.1) ++ added }

theorem signRequest_eq (hurl : lib.parseUrl req.url = .ok url) (hhost : url.host = some host)
    (hkey : lib.fromPkcs8Pem privateKeyPem = .ok sk) :
    signRequest lib date privateKeyPem keyId req =
      .ok (req.withHeaders (addedHeaders date host (digestHeader lib req.body)
        (signatureValue keyId
            (lib.sign sk (utf8 (signedLines lib date host url.target req)))))) := by
  rw [signRequest, hurl]
  simp only [Except.mapError, bind, Except.bind, hhost, hkey]
  rfl

/-- The digest that the signer sends is the one that the verifier computes. -/
theorem checkDigest_signed {req : SignedRequest}
    (h : req.get "digest" = some (digestHeader lib req.body)) :
    checkDigest lib req covered = .ok () := by
  rw [checkDigest, if_pos (by decide), h]
  exact if_neg fun hall => hall.1 rfl

theorem buildSignatureBase_signed {received : SignedRequest} {target : Str}
    (hmethod : received.method = req.method) (hpath : received.path = target)
    (hhost : received.get "host" = some host) (hdate : received.get "date" = some date)
    (hdigest : received.get "digest" = some (digestHeader lib req.body)) :
    buildSignatureBase received covered = .ok (signedLines lib date host target req) := by
  have hline : ∀ {name v : Str}, name ≠ "(request-target)" → received.get name = some v →
      coveredLine received name = .ok (name ++ ": " ++ v) := by
    intro name v hname hv
    rw [coveredLine, if_neg hname, hv]
  have htarget : coveredLine received "(request-target)" =
      .ok ("(request-target): " ++ toAsciiLowercase req.method ++ " " ++ target) := by
    rw [coveredLine, if_pos rfl, hmethod, hpath]
  rw [buildSignatureBase, covered]
  simp only [List.mapM_cons, List.mapM_nil, htarget, hline (by decide) hhost,
    hline (by decide) hdate, hline (by decide) hdigest, bind, Except.bind, pure, Except.pure,
    Except.map]
  rfl

theorem encode_ne_nil {b : Bytes} (h : b ≠ []) : Base64.encode b ≠ [] := by
  intro hnil
  exact h (Base64.encode_injective hnil)

/-- A signed request is verified as it arrives, and the actor is the one of its key. -/
theorem verifyRequestSignature_signRequest (hurl : lib.parseUrl req.url = .ok url)
    (hhost : url.host = some host) (hkey : lib.fromPkcs8Pem privateKeyPem = .ok sk)
    (hne : keyId ≠ []) (hquote : '"' ∉ keyId) (hresolve : resolve keyId = .ok actor)
    (hpublic : lib.fromPublicKeyPem actor.publicKeyPem = .ok pk) (hpair : KeyPair lib sk pk) :
    ∃ signed, signRequest lib date privateKeyPem keyId req = .ok signed ∧
      verifyRequestSignature lib resolve (signed.received url.target) = .ok actor := by
  refine ⟨_, signRequest_eq hurl hhost hkey, ?_⟩
  generalize hsigBytes : lib.sign sk (utf8 (signedLines lib date host url.target req)) = sigBytes
  generalize hadded : addedHeaders date host (digestHeader lib req.body)
    (signatureValue keyId sigBytes) = added
  have hget : ∀ {name v : Str}, isSignedName name = true → toAsciiLowercase name = name →
      headerValues added name = [v] →
        ((req.withHeaders added).received url.target).get name = some v := by
    intro name v hname hlower hv
    exact get_received ((headerValues_signed hname hlower).trans hv)
  have hdigest : ((req.withHeaders added).received url.target).get "digest" =
      some (digestHeader lib req.body) := hget (by decide) (by decide) (by rw [← hadded]; rfl)
  have hsignature : ((req.withHeaders added).received url.target).get "signature" =
      some (signatureValue keyId sigBytes) := hget (by decide) (by decide) (by rw [← hadded]; rfl)
  have hbase : buildSignatureBase ((req.withHeaders added).received url.target) covered =
      .ok (signedLines lib date host url.target req) :=
    buildSignatureBase_signed rfl rfl (hget (by decide) (by decide) (by rw [← hadded]; rfl))
      (hget (by decide) (by decide) (by rw [← hadded]; rfl)) hdigest
  have hsigned : sigBytes ≠ [] := hsigBytes ▸ hpair.sign_ne_nil _
  have hparse : parseSignatureHeader (signatureValue keyId sigBytes) =
      .ok ⟨keyId, "rsa-sha256", covered, Base64.encode sigBytes⟩ :=
    parseSignatureHeader_signed hne hquote (encode_ne_nil hsigned)
      (Base64.notMem_encode (by decide) (by decide) sigBytes)
  obtain ⟨sig, hsig, hverify⟩ := hpair.verify_sign (utf8 (signedLines lib date host url.target req))
  rw [hsigBytes] at hsig
  rw [verifyRequestSignature, hsignature]
  refine Fallible.bind_eq_ok_iff.mpr ⟨_, hparse, ?_⟩
  refine Fallible.guard_eq_ok_iff.mpr ⟨fun hother => hother.1 rfl, ?_⟩
  refine Fallible.bind_eq_ok_iff.mpr ⟨(), checkDigest_signed hdigest, ?_⟩
  refine Fallible.bind_eq_ok_iff.mpr ⟨actor, hresolve, ?_⟩
  refine Fallible.bind_eq_ok_iff.mpr ⟨pk, congrArg (Except.mapError SigError.rsa) hpublic, ?_⟩
  refine Fallible.bind_eq_ok_iff.mpr ⟨_, hbase, ?_⟩
  rw [Base64.decode_encode]
  refine Fallible.bind_eq_ok_iff.mpr
    ⟨sig, congrArg (Except.mapError SigError.malformedSignature) hsig, ?_⟩
  exact Fallible.bind_eq_ok_iff.mpr
    ⟨(), congrArg (Except.mapError SigError.verifyFailed) hverify, rfl⟩

/-- An inbox behind a query. -/
def inboxUrl : Url := ⟨some "remote.example", "/inbox", some "page=1"⟩

/-- A signature is its message, with an octet before it. -/
def echoLib : SigLibrary where
  sha256 _ := List.replicate 32 0
  parseUrl _ := .ok inboxUrl
  base64Error _ := []
  PrivateKey := Unit
  PublicKey := Unit
  RsaSignature := Bytes
  fromPkcs8Pem _ := .ok ()
  sign _ m := 1 :: m
  fromPublicKeyPem _ := .ok ()
  signatureFromBytes sig := .ok sig
  verify _ m sig := if sig = 1 :: m then .ok () else .error "signature error"

theorem keyPair_echoLib (sk : echoLib.PrivateKey) (pk : echoLib.PublicKey) :
    KeyPair echoLib sk pk where
  sign_ne_nil m := List.cons_ne_nil 1 m
  verify_sign m := ⟨1 :: m, rfl, if_pos rfl⟩

/-- A delivery that has a host and a digest already. -/
def staleDelivery : OutboundRequest where
  method := "POST"
  url := "https://remote.example/inbox?page=1"
  headers := [("host", "other.example"), ("Content-Type", "application/activity+json"),
    ("DIGEST", "SHA-256=")]
  body := []

def podKeyId : Str := "https://pod.example/#key"

/-- The actor of a key. -/
def keyOwner (keyId : Str) : VerifiedActor := ⟨keyId, "https://pod.example/", "pem"⟩

theorem verifyRequestSignature_staleDelivery :
    ∃ signed, signRequest echoLib "today" "pem" podKeyId staleDelivery = .ok signed ∧
      verifyRequestSignature echoLib (fun keyId => .ok (keyOwner keyId))
        (signed.received inboxUrl.target) = .ok (keyOwner podKeyId) := by
  have hurl : echoLib.parseUrl staleDelivery.url = .ok inboxUrl := rfl
  exact verifyRequestSignature_signRequest hurl rfl rfl (by decide) (by decide) rfl rfl
    (keyPair_echoLib () ())

end ActivityPub

end SolidPod
