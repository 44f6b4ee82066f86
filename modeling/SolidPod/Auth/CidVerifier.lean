import SolidPod.Auth.Nip98
import SolidPod.DidKey.SelfSigned
import SolidPod.Foundation.Choices

/-!
# Self-signed proofs

A proof of who sends a request comes in one of several formats. Each format has
a verifier, which passes on a proof that is not of its format, and a dispatcher
asks its verifiers in the order in which they were registered. A dispatcher is a
verifier itself, so it may be registered with another one.

The two formats here are a token signed by its `did:key` and a Nostr event. No
proof is of both, so it makes no difference how a dispatcher was put together
from their verifiers, and a proof stands for one subject and one request.
-/

namespace SolidPod

open Foundation Str

namespace Auth

structure ProofEnvelope where
  proof : Str
  method : Str
  uri : Str
  nowUnix : UInt64
  expectedSubjectHint : Option Str

structure VerifiedSubject where
  did : Str
  verificationMethod : Str
  deriving DecidableEq

inductive SelfSignedError where
  | malformed (msg : Str)
  | scopeMismatch (msg : Str)
  | invalidSignature (msg : Str)
  | outOfTimeWindow (msg : Str)
  | unrecognisedFormat
  | other (msg : Str)
  deriving DecidableEq

/-- The answer of a verifier, `none` for a panic. -/
abbrev Verdict := Option (Except SelfSignedError (Option VerifiedSubject))

abbrev SelfSignedVerifier := ProofEnvelope → Verdict

/-! ## The dispatcher -/

structure CidVerifier where
  inner : List SelfSignedVerifier

namespace CidVerifier

def new : CidVerifier := ⟨[]⟩

def withVerifier (c : CidVerifier) (v : SelfSignedVerifier) : CidVerifier := ⟨c.inner ++ [v]⟩

/-- The verifiers are asked one after the other. -/
def fanOut (envelope : ProofEnvelope) : List SelfSignedVerifier → Verdict
  | [] => some (.error .unrecognisedFormat)
  | v :: rest =>
    match v envelope with
    | none => none
    | some (.ok (some subj)) => some (.ok (some subj))
    | some (.ok none) => fanOut envelope rest
    | some (.error .unrecognisedFormat) => fanOut envelope rest
    | some (.error e) => some (.error e)

def verify (c : CidVerifier) (envelope : ProofEnvelope) : Verdict :=
  if c.inner.isEmpty then some (.error .unrecognisedFormat) else fanOut envelope c.inner

end CidVerifier

/-- The answers that a dispatcher stops at. -/
def decisive : Verdict → Option Verdict
  | some (.ok none) | some (.error .unrecognisedFormat) => none
  | verdict => some verdict

/-- How a dispatcher is put together from the verifiers of formats: they are registered with
it, or with another dispatcher that is. -/
inductive Built : CidVerifier → List SelfSignedVerifier → Prop
  | new : Built CidVerifier.new []
  | format {c ls} (v : SelfSignedVerifier) : Built c ls → Built (c.withVerifier v) (ls ++ [v])
  | nested {c ls c' ls'} : Built c ls → Built c' ls' → Built (c.withVerifier c'.verify) (ls ++ ls')

section Dispatch

variable {v w : SelfSignedVerifier} {c c' : CidVerifier} {ls ls' : List SelfSignedVerifier}
  {e : ProofEnvelope}

/-- What a verifier has to say about a proof of its format. -/
def answer (e : ProofEnvelope) (v : SelfSignedVerifier) : Option Verdict := decisive (v e)

theorem decisive_of_decisive {x y : Verdict} (h : decisive x = some y) : decisive y = some y := by
  cases x with
  | none =>
      cases h
      rfl
  | some x =>
      rcases x with e | _ | subj
      · cases e <;> cases h <;> rfl
      · cases h
      · cases h
        rfl

theorem eq_of_decisive_eq_ok {x : Verdict} {s : VerifiedSubject}
    (h : decisive x = some (some (.ok (some s)))) : x = some (.ok (some s)) := by
  cases x with
  | none => cases h
  | some x =>
      rcases x with e | _ | subj
      · cases e <;> cases h
      · cases h
      · cases h
        rfl

/-- The first verifier that has something to say gives the verdict. -/
theorem verify_eq (c : CidVerifier) (e : ProofEnvelope) :
    c.verify e = (c.inner.findSome? (answer e)).getD (some (.error .unrecognisedFormat)) := by
  have hfan : ∀ l, CidVerifier.fanOut e l =
      (l.findSome? (answer e)).getD (some (.error .unrecognisedFormat)) := by
    intro l
    induction l with
    | nil => rfl
    | cons v rest ih =>
        rw [CidVerifier.fanOut, List.findSome?_cons, answer]
        rcases v e with _ | e | _ | subj
        · rfl
        · cases e with
          | unrecognisedFormat => exact ih
          | _ => rfl
        · exact ih
        · rfl
  rw [CidVerifier.verify]
  cases hinner : c.inner with
  | nil => rfl
  | cons v rest =>
      rw [if_neg (by simp)]
      exact hfan _

/-- A dispatcher has to say what the first of its verifiers has to say. -/
theorem answer_verify (c : CidVerifier) (e : ProofEnvelope) :
    answer e c.verify = c.inner.findSome? (answer e) := by
  rw [answer, verify_eq]
  cases hfirst : c.inner.findSome? (answer e) with
  | none => rfl
  | some verdict =>
      obtain ⟨v, -, hv⟩ := List.exists_of_findSome?_eq_some hfirst
      exact decisive_of_decisive hv

/-- A dispatcher asks the verifiers of formats as if they were all registered with it. -/
theorem Built.findSome?_inner (h : Built c ls) (e : ProofEnvelope) :
    c.inner.findSome? (answer e) = ls.findSome? (answer e) := by
  induction h with
  | new => rfl
  | format v _ ih =>
      rw [CidVerifier.withVerifier, List.findSome?_append, List.findSome?_append, ih]
  | nested _ _ ih ih' =>
      rw [CidVerifier.withVerifier, List.findSome?_append, List.findSome?_append, ih,
        List.findSome?_singleton, answer_verify, ih']

/-- No proof is of the formats of both. -/
def Exclusive (v w : SelfSignedVerifier) : Prop :=
  ∀ e, answer e v = none ∨ answer e w = none

/-- Verifiers of different formats give a verdict that depends only on which they are. -/
theorem verify_eq_of_built (h : Built c ls) (h' : Built c' ls') (hset : ∀ v, v ∈ ls ↔ v ∈ ls')
    (hformats : ∀ v ∈ ls, ∀ w ∈ ls, v = w ∨ Exclusive v w) : c.verify = c'.verify := by
  funext e
  have hagree : ∀ v ∈ ls, ∀ w ∈ ls, ∀ x y, answer e v = some x → answer e w = some y → x = y := by
    intro v hv w hw x y hx hy
    rcases hformats v hv w hw with rfl | hexclusive
    · exact Option.some.inj (hx.symm.trans hy)
    · rcases hexclusive e with hnone | hnone
      · cases hnone.symm.trans hx
      · cases hnone.symm.trans hy
  rw [verify_eq, verify_eq, h.findSome?_inner, h'.findSome?_inner,
    FirstAnswer.findSome?_eq_of_agree hset hagree]

/-- What is accepted was accepted by one of the verifiers. -/
theorem exists_of_verify_eq_ok (h : Built c ls) {s : VerifiedSubject}
    (hok : c.verify e = some (.ok (some s))) : ∃ v ∈ ls, v e = some (.ok (some s)) := by
  rw [verify_eq, h.findSome?_inner] at hok
  cases hfirst : ls.findSome? (answer e) with
  | none =>
      rw [hfirst] at hok
      cases hok
  | some verdict =>
      rw [hfirst, Option.getD_some] at hok
      obtain ⟨v, hv, hverdict⟩ := List.exists_of_findSome?_eq_some hfirst
      rw [hok] at hverdict
      refine ⟨v, hv, ?_⟩
      rw [answer] at hverdict
      exact eq_of_decisive_eq_ok hverdict

end Dispatch

/-! ## The formats -/

structure DidKeyVerifier where
  skew : UInt64

namespace DidKeyVerifier

def defaultSkewSeconds : UInt64 := 60

def new : DidKeyVerifier := ⟨defaultSkewSeconds⟩

def withSkew (_ : DidKeyVerifier) (skewSeconds : UInt64) : DidKeyVerifier := ⟨skewSeconds⟩

/-- A character that is not ASCII has no byte that is allowed. -/
def looksLikeCompactJws (s : Str) : Bool :=
  s.count '.' = 2 ∧ ∀ c ∈ s, c.isAlphanum ∨ c ∈ ['-', '_', '.', '=']

/-- A token that is not bound to a `did:key` is of another format. -/
def refusal : DidKey.DidKeyError → Except SelfSignedError (Option VerifiedSubject)
  | .malformedJwt m => .error (.malformed m)
  | .invalidHeader _ | .notDidKey _ => .ok none
  | .invalidClaims m => .error (.scopeMismatch m)
  | .badSignature m => .error (.invalidSignature m)
  | e => .error (.other e.display)

def verify (keys : DidKey.DidKeyLibrary) (overflowChecks : Bool) (v : DidKeyVerifier) :
    SelfSignedVerifier := fun envelope =>
  if !looksLikeCompactJws envelope.proof then some (.ok none)
  else
    (DidKey.verifySelfSignedJwt keys overflowChecks envelope.proof envelope.uri envelope.method
      envelope.nowUnix v.skew).map fun result =>
        match result with
        | .ok verified => .ok (some ⟨verified.did, verified.verificationMethod⟩)
        | .error e => refusal e

end DidKeyVerifier

namespace Nip98Verifier

/-- The header of a proof, which may be the header or the token of one. -/
def header (proof : Str) : Str :=
  if startsWith nostrPrefix proof then proof else nostrPrefix ++ proof

def subject (pubkey : Str) : VerifiedSubject where
  did := "urn:nip98:" ++ pubkey
  verificationMethod := "urn:nip98:" ++ pubkey ++ "#key-0"

/-- The error for a message, by what it says. -/
def refusal (msg : Str) : SelfSignedError :=
  if containsStr "timestamp" msg then .outOfTimeWindow msg
  else if containsStr "URL mismatch" msg ∨ containsStr "method mismatch" msg then
    .scopeMismatch msg
  else if containsStr "schnorr" msg ∨ containsStr "id mismatch" msg then .invalidSignature msg
  else .malformed msg

/-- A bare token that is refused, for whatever reason, is taken to be of another format. -/
def verify (lib : Nip98Library) (schnorr : Bool) : SelfSignedVerifier := fun envelope =>
  match verifyAt lib schnorr (header envelope.proof) envelope.uri envelope.method none
    envelope.nowUnix with
  | .ok v => some (.ok (some (subject v.pubkey)))
  | .error e =>
    if startsWith nostrPrefix envelope.proof then
      match e with
      | .nip98 msg => some (.error (refusal msg))
      | e => some (.error (.malformed e.display))
    else some (.ok none)

end Nip98Verifier

/-- The verifiers of the two formats; every token is given the same time to spare. -/
def formats (lib : Nip98Library) (schnorr : Bool) (keys : DidKey.DidKeyLibrary)
    (overflowChecks : Bool) (d : DidKeyVerifier) : List SelfSignedVerifier :=
  [d.verify keys overflowChecks, Nip98Verifier.verify lib schnorr]

section Formats

variable {lib : Nip98Library} {schnorr : Bool} {keys : DidKey.DidKeyLibrary}
  {overflowChecks : Bool} {d : DidKeyVerifier} {e : ProofEnvelope} {s : VerifiedSubject}

theorem didKey_eq_ok_iff : d.verify keys overflowChecks e = some (.ok (some s)) ↔
    DidKeyVerifier.looksLikeCompactJws e.proof = true ∧ ∃ w,
      DidKey.verifySelfSignedJwt keys overflowChecks e.proof e.uri e.method e.nowUnix d.skew =
        some (.ok w) ∧ s = ⟨w.did, w.verificationMethod⟩ := by
  rw [DidKeyVerifier.verify]
  cases hjws : DidKeyVerifier.looksLikeCompactJws e.proof with
  | false => simp
  | true =>
      simp only [Bool.not_true, Bool.false_eq_true, if_false, true_and, Option.map_eq_some_iff]
      constructor
      · rintro ⟨result, hresult, hs⟩
        cases result with
        | ok w =>
            cases hs
            exact ⟨w, hresult, rfl⟩
        | error err => cases err <;> cases hs
      · rintro ⟨w, hw, rfl⟩
        exact ⟨.ok w, hw, rfl⟩

theorem nip98_eq_ok_iff : Nip98Verifier.verify lib schnorr e = some (.ok (some s)) ↔
    ∃ v, verifyAt lib schnorr (Nip98Verifier.header e.proof) e.uri e.method none e.nowUnix =
      .ok v ∧ s = Nip98Verifier.subject v.pubkey := by
  rw [Nip98Verifier.verify]
  cases verifyAt lib schnorr (Nip98Verifier.header e.proof) e.uri e.method none e.nowUnix with
  | ok v =>
      simp only [Option.some.injEq, Except.ok.injEq, exists_eq_left']
      exact eq_comm
  | error err =>
      simp only [reduceCtorEq, false_and, exists_false, iff_false]
      split_ifs
      · split <;> simp
      · simp

theorem recent_of_checkEvent {event : Nip98Event} {url method : Str} {body : Option Bytes}
    {now : UInt64} {v : Nip98Verified} (h : checkEvent lib event url method body now = .ok v) :
    now.toNat - event.createdAt.toNat ≤ timestampTolerance ∧
      event.createdAt.toNat - now.toNat ≤ timestampTolerance := by
  simp only [checkEvent, Fallible.guard_eq_ok_iff] at h
  obtain ⟨-, -, hrecent, -⟩ := h
  simpa only [not_or, gt_iff_lt, not_lt] using hrecent

/-- A compact token has no blank, and its dots are no digits of base64. -/
theorem nip98_of_compactJws (h : DidKeyVerifier.looksLikeCompactJws e.proof = true) :
    Nip98Verifier.verify lib schnorr e = some (.ok none) := by
  obtain ⟨hdots, hchars⟩ := of_decide_eq_true h
  have hheader : startsWith nostrPrefix e.proof = false := by
    rw [Bool.eq_false_iff]
    intro hstart
    obtain ⟨rest, hrest⟩ := List.isPrefixOf_iff_prefix.mp hstart
    have hblank : ' ' ∈ e.proof := by
      rw [← hrest]
      exact List.mem_append_left _ (by decide)
    exact absurd (hchars ' ' hblank) (by decide)
  have hdot : '.' ∈ trim e.proof := by
    obtain ⟨w, w', hproof, hw, hw'⟩ := exists_trim_eq e.proof
    have hmem : '.' ∈ e.proof := List.count_pos_iff.mp (by omega)
    rw [hproof, List.append_assoc, List.mem_append, List.mem_append] at hmem
    rcases hmem with hmem | hmem | hmem
    · exact absurd (hw _ hmem) (by decide)
    · exact hmem
    · exact absurd (hw' _ hmem) (by decide)
  have hread : ∃ err, readEvent lib (nostrPrefix ++ e.proof) = .error err := by
    rw [readEvent, stripPrefix_append]
    dsimp only
    split_ifs
    · exact ⟨_, rfl⟩
    · cases hdecode : Base64.decode (trim e.proof) with
      | none => exact ⟨_, rfl⟩
      | some b =>
          rw [← Base64.encode_of_decode hdecode] at hdot
          exact absurd hdot (Base64.notMem_encode (by decide) (by decide) b)
  obtain ⟨err, herr⟩ := hread
  simp only [Nip98Verifier.verify, Nip98Verifier.header, hheader, Bool.false_eq_true, if_false,
    verifyAt, herr]
  rfl

theorem exclusive_formats :
    Exclusive (d.verify keys overflowChecks) (Nip98Verifier.verify lib schnorr) := by
  intro e
  cases hjws : DidKeyVerifier.looksLikeCompactJws e.proof with
  | false =>
      refine Or.inl ?_
      rw [answer, DidKeyVerifier.verify, hjws]
      rfl
  | true =>
      refine Or.inr ?_
      rw [answer, nip98_of_compactJws hjws]
      rfl

/-- The order in which the verifiers are registered, and with which dispatcher, is of no
consequence. -/
theorem verify_eq_of_formats {c c' : CidVerifier} {ls ls' : List SelfSignedVerifier}
    (h : Built c ls) (h' : Built c' ls') (hset : ∀ v, v ∈ ls ↔ v ∈ ls')
    (hformats : ls ⊆ formats lib schnorr keys overflowChecks d) : c.verify = c'.verify := by
  refine verify_eq_of_built h h' hset ?_
  intro v hv w hw
  rcases List.mem_pair.mp (hformats hv) with rfl | rfl
  · rcases List.mem_pair.mp (hformats hw) with rfl | rfl
    · exact Or.inl rfl
    · exact Or.inr exclusive_formats
  · rcases List.mem_pair.mp (hformats hw) with rfl | rfl
    · exact Or.inr fun e => (exclusive_formats e).symm
    · exact Or.inl rfl

/-- Libraries that read no event. -/
def plainNip98 : Nip98Library where
  VerifyingKey := Unit
  Signature := Unit
  fromSlice _ := .error "expected value"
  jsonToString _ := .ok []
  sha256 _ := List.replicate 32 0
  toLowercase := toAsciiLowercase
  toUppercase s := s.map Char.toUpper
  base64Error _ := "Invalid symbol"
  hexError _ := "Invalid character"
  verifyingKey _ := .error "signature error"
  signature _ := .error "signature error"
  verify _ _ _ := .error "signature error"

/-- The verifiers of both formats, for tokens that get no time to spare. -/
def plainFormats : List SelfSignedVerifier :=
  formats plainNip98 true DidKey.lastingLibrary true ⟨0⟩

def keyVerifier : SelfSignedVerifier := DidKeyVerifier.verify DidKey.lastingLibrary true ⟨0⟩

def nostrVerifier : SelfSignedVerifier := Nip98Verifier.verify plainNip98 true

def keyFirst : CidVerifier := (CidVerifier.new.withVerifier keyVerifier).withVerifier nostrVerifier

def nostrFirst : CidVerifier :=
  (CidVerifier.new.withVerifier nostrVerifier).withVerifier keyVerifier

theorem built_keyFirst : Built keyFirst [keyVerifier, nostrVerifier] :=
  .format nostrVerifier (.format keyVerifier .new)

theorem built_nostrFirst : Built nostrFirst [nostrVerifier, keyVerifier] :=
  .format keyVerifier (.format nostrVerifier .new)

/-- The other order, and then both of them once more. -/
theorem verify_eq_nested :
    keyFirst.verify = (nostrFirst.withVerifier keyFirst.verify).verify := by
  refine verify_eq_of_formats built_keyFirst (.nested built_nostrFirst built_keyFirst) ?_
    (List.Subset.refl plainFormats)
  intro v
  simp only [List.cons_append, List.nil_append, List.mem_cons, List.not_mem_nil, or_false]
  tauto

/-! ## What an accepted proof stands for -/

/-- Two requests that are the same one, at times that are not far apart. -/
structure SameRequest (sameMethod sameUri : Str → Str → Prop) (window : Nat)
    (e e' : ProofEnvelope) : Prop where
  method : sameMethod e.method e'.method
  uri : sameUri e.uri e'.uri
  past : e.nowUnix.toNat - e'.nowUnix.toNat ≤ window
  future : e'.nowUnix.toNat - e.nowUnix.toNat ≤ window

variable {e' : ProofEnvelope} {s' : VerifiedSubject}

theorem sameRequest_of_didKey (hproof : e.proof = e'.proof)
    (h : d.verify keys overflowChecks e = some (.ok (some s)))
    (h' : d.verify keys overflowChecks e' = some (.ok (some s'))) :
    s = s' ∧ SameRequest ActivityPub.eqIgnoreAsciiCase (fun u u' => DidKey.htuEq u u' = true)
      (2 * d.skew.toNat) e e' := by
  obtain ⟨-, w, hw, rfl⟩ := didKey_eq_ok_iff.mp h
  obtain ⟨-, w', hw', rfl⟩ := didKey_eq_ok_iff.mp h'
  obtain ⟨key, hdecode, hdid, hclaims, -⟩ := DidKey.verifySelfSignedJwt_eq_ok_iff.mp hw
  obtain ⟨key', hdecode', hdid', hclaims', -⟩ := DidKey.verifySelfSignedJwt_eq_ok_iff.mp hw'
  rw [hproof, hdecode', Except.ok.injEq, Prod.mk.injEq, Prod.mk.injEq] at hdecode
  obtain ⟨hkey, hmethod, hclaimsEq⟩ := hdecode
  rw [← hclaimsEq] at hclaims
  obtain ⟨hmethods, huris, hpast, hfuture⟩ := DidKey.checkClaims_eq_ok_iff.mp hclaims
  obtain ⟨hmethods', huris', hpast', hfuture'⟩ := DidKey.checkClaims_eq_ok_iff.mp hclaims'
  refine ⟨by rw [hdid, hdid', hkey, hmethod], hmethods.symm.trans hmethods',
    DidKey.htuEq_iff.mpr (huris.symm.trans huris'), ?_, ?_⟩
  · omega
  · omega

theorem sameRequest_of_nip98 (hproof : e.proof = e'.proof)
    (h : Nip98Verifier.verify lib schnorr e = some (.ok (some s)))
    (h' : Nip98Verifier.verify lib schnorr e' = some (.ok (some s'))) :
    s = s' ∧ SameRequest (fun m m' => lib.toUppercase m = lib.toUppercase m')
      (fun u u' => normalizeUrl u = normalizeUrl u') (2 * timestampTolerance) e e' := by
  obtain ⟨v, hv, rfl⟩ := nip98_eq_ok_iff.mp h
  obtain ⟨v', hv', rfl⟩ := nip98_eq_ok_iff.mp h'
  obtain ⟨event, hread, hcheck, -⟩ := verifyAt_eq_ok_iff.mp hv
  obtain ⟨event', hread', hcheck', -⟩ := verifyAt_eq_ok_iff.mp hv'
  rw [hproof, hread', Except.ok.injEq] at hread
  subst hread
  have hbound := bound_of_checkEvent hcheck
  have hbound' := bound_of_checkEvent hcheck'
  have hurl : v.url = v'.url := Option.some.inj (hbound.tagUrl.symm.trans hbound'.tagUrl)
  have hmethod : v.method = v'.method :=
    Option.some.inj (hbound.tagMethod.symm.trans hbound'.tagMethod)
  obtain ⟨hpast, hfuture⟩ := recent_of_checkEvent hcheck
  obtain ⟨hpast', hfuture'⟩ := recent_of_checkEvent hcheck'
  refine ⟨by rw [hbound.pubkey, hbound'.pubkey], ?_, ?_, ?_, ?_⟩
  · exact hbound.method.symm.trans ((congrArg lib.toUppercase hmethod).trans hbound'.method)
  · exact hbound.url.symm.trans ((congrArg normalizeUrl hurl).trans hbound'.url)
  · omega
  · omega

/-- A request that carries the token which does not expire. -/
def lastingEnvelope (method uri : Str) : ProofEnvelope where
  proof := DidKey.lastingJwt
  method := method
  uri := uri
  nowUnix := 1700000002
  expectedSubjectHint := none

def lastingSubject : VerifiedSubject where
  did := DidKey.encode DidKey.lastingLibrary DidKey.lastingKey
  verificationMethod := DidKey.encode DidKey.lastingLibrary DidKey.lastingKey

theorem keyFirst_verify_lastingEnvelope {method uri : Str}
    (hmethod : ActivityPub.eqIgnoreAsciiCase "GET" method)
    (huri : DidKey.htuEq DidKey.lastingHtu uri = true) :
    keyFirst.verify (lastingEnvelope method uri) = some (.ok (some lastingSubject)) := by
  have hjws : DidKeyVerifier.looksLikeCompactJws DidKey.lastingJwt = true := by decide +kernel
  have hclaims : DidKey.checkClaims DidKey.lastingClaims uri method 1700000002 0 = .ok () :=
    DidKey.checkClaims_eq_ok_iff.mpr ⟨hmethod, DidKey.htuEq_iff.mp huri, by decide, by decide⟩
  have hexp : DidKey.checkExp true DidKey.lastingClaims.exp 1700000002 0 = some (.ok ()) := by
    decide
  have hkey : keyVerifier (lastingEnvelope method uri) = some (.ok (some lastingSubject)) := by
    refine didKey_eq_ok_iff.mpr ⟨hjws, ⟨_, _, "GET", DidKey.lastingHtu, 1700000002,
      some 18446744073709551615, none⟩, ?_, rfl⟩
    exact DidKey.verifySelfSignedJwt_eq_ok_iff.mpr ⟨DidKey.lastingKey,
      DidKey.decodeJwt_eq_ok_iff.mpr DidKey.signed_lastingJwt, rfl, hclaims, hexp⟩
  simp only [keyFirst, CidVerifier.verify, CidVerifier.withVerifier, CidVerifier.new,
    List.nil_append, List.cons_append, List.isEmpty_cons, Bool.false_eq_true, if_false,
    CidVerifier.fanOut, hkey]

/-- The request that the token is for, in other letters. -/
def lastingCapitals : ProofEnvelope := lastingEnvelope "get" "https://POD.example.org/notes"

/-- Where events are checked for a signature, an accepted subject is the key that signed. -/
theorem signed_of_accepted {Valid : Bytes → Bytes → Bytes → Prop} (hlib : lib.Sound Valid)
    (hkeys : DidKey.LawfulCodecs keys) {c : CidVerifier} {ls : List SelfSignedVerifier}
    (h : Built c ls) (hformats : ls ⊆ formats lib true keys overflowChecks d)
    (hok : c.verify e = some (.ok (some s))) :
    (∃ key claims, DidKey.Signed keys e.proof key s.verificationMethod claims ∧
        DidKey.decode keys s.did = .ok key) ∨
      ∃ pubkey, SignedCredential lib Valid (Nip98Verifier.header e.proof) pubkey ∧
        s = Nip98Verifier.subject pubkey := by
  obtain ⟨v, hv, hve⟩ := exists_of_verify_eq_ok h hok
  rcases List.mem_pair.mp (hformats hv) with rfl | rfl
  · obtain ⟨-, w, hw, rfl⟩ := didKey_eq_ok_iff.mp hve
    obtain ⟨key, hsigned, -, hdecode⟩ := (DidKey.sound_of_verifySelfSignedJwt hkeys hw).signed
    exact Or.inl ⟨key, _, hsigned, hdecode⟩
  · obtain ⟨w, hw, rfl⟩ := nip98_eq_ok_iff.mp hve
    exact Or.inr ⟨w.pubkey, signedCredential_of_verifyAt hlib hw, rfl⟩

theorem plainNip98_sound : plainNip98.Sound fun _ _ _ => False where
  lowercase s t h := by
    have hboth : toAsciiLowercase s = toAsciiLowercase t := h
    rw [← Hex.decode_toAsciiLowercase s, hboth, Hex.decode_toAsciiLowercase]
  bip340 _ _ _ _ _ h _ _ := by cases h

theorem signed_lastingSubject :
    (∃ key claims, DidKey.Signed DidKey.lastingLibrary DidKey.lastingJwt key
        lastingSubject.verificationMethod claims ∧
          DidKey.decode DidKey.lastingLibrary lastingSubject.did = .ok key) ∨
      ∃ pubkey, SignedCredential plainNip98 (fun _ _ _ => False)
        (Nip98Verifier.header DidKey.lastingJwt) pubkey ∧
          lastingSubject = Nip98Verifier.subject pubkey :=
  signed_of_accepted (e := lastingEnvelope "GET" DidKey.lastingHtu) plainNip98_sound
    DidKey.lawfulCodecs_lastingLibrary built_keyFirst (List.Subset.refl plainFormats)
    (keyFirst_verify_lastingEnvelope (by decide) (by decide))

end Formats

end Auth

end SolidPod
