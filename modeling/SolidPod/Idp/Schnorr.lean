import Mathlib.Logic.Relation
import SolidPod.Error
import SolidPod.Foundation.Encodings
import SolidPod.Foundation.Fallible
import SolidPod.Foundation.Handover

/-!
# Signing in with a Schnorr key

A challenge is drawn for a user and stored under the user's id; the answer to it is a
signature over the challenge, the user id and the public key. Calls run at the same
time: drawing, the change of the table and the checks of a call are separate steps,
and other calls may step in between. The hash and the signatures are the libraries'.
-/

namespace SolidPod

open Foundation Str Fallible Handover

namespace Idp

/-! ## Challenges and answers -/

inductive SchnorrError where
  | unimplemented
  | invalidSignature (msg : Str)
  | challenge (msg : Str)
  | unknownNpub (msg : Str)
  | rng (msg : Str)
  | parse (msg : Str)
  deriving DecidableEq

def SchnorrError.display : SchnorrError → Str
  | .unimplemented => "schnorr SSO backend not implemented"
  | .invalidSignature msg => "invalid signature: " ++ msg
  | .challenge msg => "challenge: " ++ msg
  | .unknownNpub msg => "no account for npub: " ++ msg
  | .rng msg => "rng: " ++ msg
  | .parse msg => "parse: " ++ msg

structure SchnorrChallenge where
  userId : Str
  token : Str
  createdAt : UInt64
  deriving DecidableEq

structure SchnorrAssertion where
  userId : Str
  pubkey : Str
  verifiedAt : UInt64
  deriving DecidableEq

/-- What is asked of the libraries. An error is given by its text. -/
structure SchnorrLibrary where
  VerifyingKey : Type
  Signature : Type
  sha256 : Bytes → Bytes
  hexError : Str → Str
  verifyingKey : Bytes → Except Str VerifyingKey
  signature : Bytes → Except Str Signature
  verify : VerifyingKey → Bytes → Signature → Except Str Unit

/-- Different texts have different hashes, and a signature is good for one message. -/
structure SchnorrLibrary.Sound (lib : SchnorrLibrary) : Prop where
  collisionFree : ∀ a b, lib.sha256 a = lib.sha256 b → a = b
  binds : ∀ vk vk' m m' sig, lib.verify vk m sig = .ok () → lib.verify vk' m' sig = .ok () → m = m'

/-- The hash is fed the octets of the three texts one after the other. -/
def canonicalDigest (lib : SchnorrLibrary) (token userId pubkeyHex : Str) : Bytes :=
  lib.sha256 (utf8 token ++ utf8 userId ++ utf8 pubkeyHex)

def orParse {α : Type*} (what : Str) : Except Str α → Except SchnorrError α
  | .ok a => .ok a
  | .error e => .error (.parse (what ++ e))

/-- A key or a signature as octets, of a fixed number. -/
def hexOctets (lib : SchnorrLibrary) (name : Str) (length : Nat) (s : Str) :
    Except SchnorrError Bytes :=
  match Hex.decode s with
  | none => .error (.parse (name ++ ": " ++ lib.hexError s))
  | some b =>
      if b.length ≠ length then
        .error (.parse (name ++ " must be " ++ decimal length ++ " bytes, got " ++
          decimal b.length))
      else .ok b

def orInvalid : Except Str Unit → Except SchnorrError Unit
  | .ok () => .ok ()
  | .error e => .error (.invalidSignature e)

/-- What is done with an answer after the challenge was taken out of the table. Instants
and durations are nanoseconds. -/
def verifyResponse (lib : SchnorrLibrary) (ttl now : Nat) (verifiedAt : UInt64)
    (userId pubkeyHex signatureHex : Str) :
    Option (SchnorrChallenge × Nat) → Except SchnorrError SchnorrAssertion
  | none => .error (.challenge "no active challenge for user")
  | some (challenge, issuedAt) =>
      if now - issuedAt > ttl then .error (.challenge "expired")
      else do
        let pubBytes ← hexOctets lib "pubkey" 32 pubkeyHex
        let sigBytes ← hexOctets lib "signature" 64 signatureHex
        let vk ← orParse "pubkey parse: " (lib.verifyingKey pubBytes)
        let sig ← orParse "signature parse: " (lib.signature sigBytes)
        orInvalid (lib.verify vk (canonicalDigest lib challenge.token userId pubkeyHex) sig)
        return ⟨userId, pubkeyHex, verifiedAt⟩

/-- A token is the text of 32 octets. -/
def IsToken (token : Str) : Prop := ∃ buf : Bytes, buf.length = 32 ∧ token = Hex.encode buf

/-- The signature covers the token, the user and the key, under the key. -/
def Covers (lib : SchnorrLibrary) (token userId pubkeyHex signatureHex : Str) : Prop :=
  ∃ pubBytes sigBytes vk sig, Hex.decode pubkeyHex = some pubBytes ∧ pubBytes.length = 32 ∧
    Hex.decode signatureHex = some sigBytes ∧ sigBytes.length = 64 ∧
      lib.verifyingKey pubBytes = .ok vk ∧ lib.signature sigBytes = .ok sig ∧
        lib.verify vk (canonicalDigest lib token userId pubkeyHex) sig = .ok ()

section Answers

variable {lib : SchnorrLibrary} {ttl now issuedAt : Nat} {verifiedAt : UInt64}
  {userId userId' pubkeyHex pubkeyHex' signatureHex signatureHex' token token' : Str}
  {challenge : SchnorrChallenge} {a : SchnorrAssertion}

theorem orParse_eq_ok_iff {α : Type*} {what : Str} {x : Except Str α} {b : α} :
    orParse what x = .ok b ↔ x = .ok b := by
  cases x with
  | ok c => simp [orParse]
  | error e => simp [orParse]

theorem orInvalid_eq_ok_iff {x : Except Str Unit} {u : Unit} :
    orInvalid x = .ok u ↔ x = .ok () := by
  cases x with
  | ok c => simp [orInvalid]
  | error e => simp [orInvalid]

theorem hexOctets_eq_ok_iff {name s : Str} {length : Nat} {b : Bytes} :
    hexOctets lib name length s = .ok b ↔ Hex.decode s = some b ∧ b.length = length := by
  rw [hexOctets]
  cases Hex.decode s with
  | none => simp
  | some b' =>
      simp only [guard_eq_ok_iff, not_not, Except.ok.injEq, Option.some.injEq]
      constructor
      · rintro ⟨hlength, rfl⟩
        exact ⟨rfl, hlength⟩
      · rintro ⟨rfl, hlength⟩
        exact ⟨hlength, rfl⟩

/-- An answer is good when it comes in time and its signature covers the challenge. -/
theorem verifyResponse_eq_ok_iff {found : Option (SchnorrChallenge × Nat)} :
    verifyResponse lib ttl now verifiedAt userId pubkeyHex signatureHex found = .ok a ↔
      ∃ challenge issuedAt, found = some (challenge, issuedAt) ∧ now ≤ issuedAt + ttl ∧
        Covers lib challenge.token userId pubkeyHex signatureHex ∧
          a = ⟨userId, pubkeyHex, verifiedAt⟩ := by
  cases found with
  | none => simp [verifyResponse]
  | some found =>
      obtain ⟨challenge, issuedAt⟩ := found
      have htime : ¬ now - issuedAt > ttl ↔ now ≤ issuedAt + ttl := by omega
      simp only [verifyResponse, guard_eq_ok_iff, bind_eq_ok_iff, hexOctets_eq_ok_iff,
        orParse_eq_ok_iff, orInvalid_eq_ok_iff, htime]
      constructor
      · rintro ⟨hnow, pub, ⟨hpub, hpubLen⟩, sigBytes, ⟨hsig, hsigLen⟩, vk, hvk, sig, hparse, _,
          hverify, hok⟩
        exact ⟨challenge, issuedAt, rfl, hnow,
          ⟨pub, sigBytes, vk, sig, hpub, hpubLen, hsig, hsigLen, hvk, hparse, hverify⟩,
          (Except.ok.inj hok).symm⟩
      · rintro ⟨_, _, hfound, hnow, ⟨pub, sigBytes, vk, sig, hpub, hpubLen, hsig, hsigLen, hvk,
          hparse, hverify⟩, rfl⟩
        cases hfound
        exact ⟨hnow, pub, ⟨hpub, hpubLen⟩, sigBytes, ⟨hsig, hsigLen⟩, vk, hvk, sig, hparse, (),
          hverify, rfl⟩

/-- The token and the key have fixed lengths, so the three texts can be told apart. -/
theorem eq_of_append_eq (hlength : token.length = token'.length)
    (hpub : pubkeyHex.length = pubkeyHex'.length)
    (h : utf8 token ++ utf8 userId ++ utf8 pubkeyHex =
      utf8 token' ++ utf8 userId' ++ utf8 pubkeyHex') :
    token = token' ∧ userId = userId' ∧ pubkeyHex = pubkeyHex' := by
  rw [← utf8_append, ← utf8_append, ← utf8_append, ← utf8_append] at h
  obtain ⟨hfront, hkey⟩ := List.append_inj' (utf8_injective h) hpub
  obtain ⟨htoken, huser⟩ := List.append_inj hfront hlength
  exact ⟨htoken, huser, hkey⟩

theorem IsToken.length (h : IsToken token) : token.length = 64 := by
  obtain ⟨buf, hbuf, rfl⟩ := h
  rw [Hex.length_encode, hbuf]

/-- A signature covers one token, for one user and one key. -/
theorem Covers.unique (hlib : lib.Sound) (htoken : IsToken token) (htoken' : IsToken token')
    (h : Covers lib token userId pubkeyHex signatureHex)
    (h' : Covers lib token' userId' pubkeyHex' signatureHex')
    (hsame : Hex.decode signatureHex = Hex.decode signatureHex') :
    token = token' ∧ userId = userId' ∧ pubkeyHex = pubkeyHex' := by
  obtain ⟨pub, sigBytes, vk, sig, hpub, hpubLen, hsig, -, -, hparse, hverify⟩ := h
  obtain ⟨pub', sigBytes', vk', sig', hpub', hpubLen', hsig', -, -, hparse', hverify'⟩ := h'
  obtain rfl : sigBytes = sigBytes' := Option.some.inj (hsig.symm.trans (hsame.trans hsig'))
  obtain rfl : sig = sig' := Except.ok.inj (hparse.symm.trans hparse')
  have hdigest := hlib.binds _ _ _ _ _ hverify hverify'
  refine eq_of_append_eq (htoken.length.trans htoken'.length.symm) ?_
    (hlib.collisionFree _ _ hdigest)
  rw [Hex.length_of_decode hpub, Hex.length_of_decode hpub', hpubLen, hpubLen']

end Answers

/-! ## Calls at the same time -/

/-- Where a call is. -/
inductive SsoStage where
  | idle
  | drawn (challenge : SchnorrChallenge) (issuedAt : Nat)
  | removed (userId pubkeyHex signatureHex : Str) (found : Option (SchnorrChallenge × Nat))
  | ended

/-- What has happened: a challenge was stored, a call took what was stored for its user,
and a call that took something, or nothing, was answered. -/
inductive SsoEvent (ι : Type*) where
  | inserted (i : ι) (challenge : SchnorrChallenge) (issuedAt : Nat)
  | removed (i : ι) (userId pubkeyHex signatureHex : Str) (found : Option (SchnorrChallenge × Nat))
  | answered (i : ι) (at' : Nat) (result : Except SchnorrError SchnorrAssertion)

def SsoEvent.call {ι : Type*} : SsoEvent ι → ι
  | .inserted i _ _ | .removed i _ _ _ _ | .answered i _ _ => i

/-- What an event did to the table of challenges. -/
def SsoEvent.move {ι : Type*} : SsoEvent ι → Option (Move Str (SchnorrChallenge × Nat))
  | .inserted _ challenge issuedAt => some (.put challenge.userId (challenge, issuedAt))
  | .removed _ userId _ _ found => some (.take userId found)
  | .answered _ _ _ => none

/-- The oldest event comes first. -/
structure Sso (ι : Type*) where
  now : Nat
  challenges : Str → Option (SchnorrChallenge × Nat)
  calls : ι → SsoStage
  log : List (SsoEvent ι)

def Sso.start {ι : Type*} : Sso ι := ⟨0, fun _ => none, fun _ => .idle, []⟩

section Steps

variable {ι : Type*} [DecidableEq ι] (lib : SchnorrLibrary) (ttl : Nat)

def Sso.goTo (s : Sso ι) (i : ι) (stage : SsoStage) : Sso ι :=
  { s with calls := fun j => if j = i then stage else s.calls j }

def Sso.record (s : Sso ι) (e : SsoEvent ι) : Sso ι := { s with log := s.log ++ [e] }

/-- The instant is read before the challenge is stored. -/
def Sso.draw (s : Sso ι) (i : ι) (userId : Str) (buf : Bytes) (createdAt : UInt64) : Sso ι :=
  s.goTo i (.drawn ⟨userId, Hex.encode buf, createdAt⟩ s.now)

def Sso.insert (s : Sso ι) (i : ι) (challenge : SchnorrChallenge) (issuedAt : Nat) : Sso ι :=
  { (s.goTo i .ended).record (.inserted i challenge issuedAt) with
    challenges := fun u => if u = challenge.userId then some (challenge, issuedAt)
      else s.challenges u }

def Sso.remove (s : Sso ι) (i : ι) (userId pubkeyHex signatureHex : Str) : Sso ι :=
  let found := s.challenges userId
  { (s.goTo i (.removed userId pubkeyHex signatureHex found)).record
      (.removed i userId pubkeyHex signatureHex found) with
    challenges := fun u => if u = userId then none else s.challenges u }

def Sso.answer (s : Sso ι) (i : ι) (userId pubkeyHex signatureHex : Str)
    (found : Option (SchnorrChallenge × Nat)) (verifiedAt : UInt64) : Sso ι :=
  (s.goTo i .ended).record (.answered i s.now
    (verifyResponse lib ttl s.now verifiedAt userId pubkeyHex signatureHex found))

/-- A call of `issue_challenge` draws and stores, unless the random generator fails; one
of `verify_response` takes and checks. -/
inductive SsoStep (s : Sso ι) : Sso ι → Prop where
  | wait (d : Nat) : SsoStep s { s with now := s.now + d }
  | draw (i : ι) (userId : Str) (buf : Bytes) (createdAt : UInt64) (idle : s.calls i = .idle)
      (filled : buf.length = 32) : SsoStep s (s.draw i userId buf createdAt)
  | drawFails (i : ι) (idle : s.calls i = .idle) : SsoStep s (s.goTo i .ended)
  | insert (i : ι) (challenge : SchnorrChallenge) (issuedAt : Nat)
      (stage : s.calls i = .drawn challenge issuedAt) : SsoStep s (s.insert i challenge issuedAt)
  | remove (i : ι) (userId pubkeyHex signatureHex : Str) (idle : s.calls i = .idle) :
      SsoStep s (s.remove i userId pubkeyHex signatureHex)
  | answer (i : ι) (userId pubkeyHex signatureHex : Str)
      (found : Option (SchnorrChallenge × Nat)) (verifiedAt : UInt64)
      (stage : s.calls i = .removed userId pubkeyHex signatureHex found) :
      SsoStep s (s.answer lib ttl i userId pubkeyHex signatureHex found verifiedAt)

end Steps

/-! ## What has to hold -/

section Safety

variable {ι : Type*}

/-- Call `i` took the challenge that call `j` stored for the same user, and nothing was
stored or taken for that user in between. -/
def Supplied (log : List (SsoEvent ι)) (j i : ι) (userId pubkeyHex signatureHex : Str)
    (challenge : SchnorrChallenge) (issuedAt : Nat) : Prop :=
  challenge.userId = userId ∧ ∃ m n, log[m]? = some (.inserted j challenge issuedAt) ∧
    log[n]? = some (.removed i userId pubkeyHex signatureHex (some (challenge, issuedAt))) ∧
      HandsOver SsoEvent.move log m n userId (challenge, issuedAt)

/-- The call took a challenge, whatever it was answered. -/
def Found (log : List (SsoEvent ι)) (i : ι) : Prop :=
  ∃ userId pubkeyHex signatureHex found,
    .removed i userId pubkeyHex signatureHex (some found) ∈ log

/-- Each call that took a challenge, with success or without, has a call of its own that
stored it; it succeeds in time and with a signature that covers what was stored. -/
structure SignInSafe (lib : SchnorrLibrary) (ttl : Nat) (s : Sso ι) (origin : ι → ι) : Prop where
  supplied : ∀ i userId pubkeyHex signatureHex challenge issuedAt,
    .removed i userId pubkeyHex signatureHex (some (challenge, issuedAt)) ∈ s.log →
      IsToken challenge.token ∧ Supplied s.log (origin i) i userId pubkeyHex signatureHex challenge
        issuedAt
  injective : ∀ i i', Found s.log i → Found s.log i' → origin i = origin i' → i = i'
  accepted : ∀ i at' a, .answered i at' (.ok a) ∈ s.log → ∃ signatureHex challenge issuedAt,
    .removed i a.userId a.pubkey signatureHex (some (challenge, issuedAt)) ∈ s.log ∧
      at' ≤ issuedAt + ttl ∧ Covers lib challenge.token a.userId a.pubkey signatureHex
  consumed : ∀ (n : ℕ) i userId pubkeyHex signatureHex found,
    s.log[n]? = some (.removed i userId pubkeyHex signatureHex found) →
      (∀ m : ℕ, n < m → ∀ j challenge issuedAt, s.log[m]? = some (.inserted j challenge issuedAt) →
        challenge.userId ≠ userId) → s.challenges userId = none

/-- What holds after every step. -/
structure SsoInv (lib : SchnorrLibrary) (ttl : Nat) (s : Sso ι) : Prop where
  agrees : Agrees SsoEvent.move s.challenges s.log
  caller : ∀ e ∈ s.log, s.calls e.call = .ended ∨ ∃ userId pubkeyHex signatureHex found,
    e = .removed e.call userId pubkeyHex signatureHex found ∧
      s.calls e.call = .removed userId pubkeyHex signatureHex found
  once : ∀ (n n' : ℕ) e e', s.log[n]? = some e → s.log[n']? = some e' →
    e.move.isSome → e'.move.isSome →
    e.call = e'.call → n = n'
  drawn : ∀ i challenge issuedAt, s.calls i = .drawn challenge issuedAt → IsToken challenge.token
  inserted : ∀ i challenge issuedAt, .inserted i challenge issuedAt ∈ s.log →
    IsToken challenge.token
  pending : ∀ i userId pubkeyHex signatureHex found,
    s.calls i = .removed userId pubkeyHex signatureHex found →
      .removed i userId pubkeyHex signatureHex found ∈ s.log
  answered : ∀ i at' result, .answered i at' result ∈ s.log →
    ∃ userId pubkeyHex signatureHex found verifiedAt,
      .removed i userId pubkeyHex signatureHex found ∈ s.log ∧
        result = verifyResponse lib ttl at' verifiedAt userId pubkeyHex signatureHex found

section Steps

variable {lib : SchnorrLibrary} {ttl : Nat} {s s' : Sso ι} {i : ι} {e : SsoEvent ι}

theorem SsoInv.start : SsoInv lib ttl (Sso.start : Sso ι) where
  agrees := .nil
  caller := nofun
  once n n' e e' he := by cases he
  drawn := nofun
  inserted := nofun
  pending := nofun
  answered := nofun

/-- A call that is under way has logged nothing yet. -/
theorem SsoInv.not_mem_of_stage (h : SsoInv lib ttl s)
    (hstage : s.calls e.call = .idle ∨ ∃ c t, s.calls e.call = .drawn c t) : e ∉ s.log := by
  intro hmem
  rcases h.caller e hmem with hended | ⟨u, pk, sig, found, -, hremoved⟩
  · rcases hstage with hidle | ⟨c, t, hdrawn⟩
    · cases hended.symm.trans hidle
    · cases hended.symm.trans hdrawn
  · rcases hstage with hidle | ⟨c, t, hdrawn⟩
    · cases hremoved.symm.trans hidle
    · cases hremoved.symm.trans hdrawn

variable [DecidableEq ι]

/-- A call goes on without an event. -/
theorem SsoInv.goTo (h : SsoInv lib ttl s) {stage : SsoStage}
    (hnew : s.calls i = .idle) (hdrawn : ∀ c t, stage = .drawn c t → IsToken c.token)
    (hremoved : ∀ u pk sig found, stage ≠ .removed u pk sig found) :
    SsoInv lib ttl (s.goTo i stage) where
  agrees := h.agrees
  caller e he := by
    have hne : e.call ≠ i := by
      intro heq
      exact h.not_mem_of_stage (Or.inl (heq ▸ hnew)) he
    rw [Sso.goTo]
    simp only [if_neg hne]
    exact h.caller e he
  once := h.once
  drawn j c t hj := by
    rw [Sso.goTo] at hj
    dsimp only at hj
    split_ifs at hj
    · exact hdrawn c t hj
    · exact h.drawn j c t hj
  inserted := h.inserted
  pending j u pk sig found hj := by
    rw [Sso.goTo] at hj
    dsimp only at hj
    split_ifs at hj
    · exact absurd hj (hremoved u pk sig found)
    · exact h.pending j u pk sig found hj
  answered := h.answered

/-- A call goes on with an event. Its first change of the table is its only one. -/
theorem SsoInv.record (h : SsoInv lib ttl s) {stage : SsoStage}
    {table : Str → Option (SchnorrChallenge × Nat)}
    (hagrees : Agrees SsoEvent.move table (s.log ++ [e]))
    (hstage : stage = .ended ∨ ∃ u pk sig found,
      e = .removed e.call u pk sig found ∧ stage = .removed u pk sig found)
    (honce : e.move.isSome → ∀ e' ∈ s.log, e'.call ≠ e.call)
    (htoken : ∀ i c t, e = .inserted i c t → IsToken c.token)
    (hanswered : ∀ i at' result, e = .answered i at' result →
      ∃ u pk sig found verifiedAt, .removed i u pk sig found ∈ s.log ∧
        result = verifyResponse lib ttl at' verifiedAt u pk sig found) :
    SsoInv lib ttl { (s.goTo e.call stage).record e with challenges := table } where
  agrees := hagrees
  caller e' he' := by
    simp only [Sso.record, Sso.goTo]
    rcases List.mem_append.mp he' with hold | hnew
    · split_ifs with hcall
      · rcases hstage with hended | ⟨u, pk, sig, found, he, hremoved⟩
        · exact Or.inl hended
        · exact absurd hcall (honce (by rw [he]; rfl) e' hold)
      · exact h.caller e' hold
    · rw [List.mem_singleton.mp hnew, if_pos rfl]
      rcases hstage with hended | ⟨u, pk, sig, found, he, hremoved⟩
      · exact Or.inl hended
      · exact Or.inr ⟨u, pk, sig, found, he, hremoved⟩
  once n n' e₁ e₂ h₁ h₂ hm₁ hm₂ hcall := by
    rcases getElem?_append_singleton_eq_some_iff.mp h₁ with hold₁ | ⟨rfl, rfl⟩
    · rcases getElem?_append_singleton_eq_some_iff.mp h₂ with hold₂ | ⟨rfl, rfl⟩
      · exact h.once n n' e₁ e₂ hold₁ hold₂ hm₁ hm₂ hcall
      · exact absurd hcall (honce hm₂ e₁ (List.mem_of_getElem? hold₁))
    · rcases getElem?_append_singleton_eq_some_iff.mp h₂ with hold₂ | ⟨rfl, rfl⟩
      · exact absurd hcall.symm (honce hm₁ e₂ (List.mem_of_getElem? hold₂))
      · rfl
  drawn j c t hj := by
    simp only [Sso.record, Sso.goTo] at hj
    split_ifs at hj
    · rcases hstage with hended | ⟨u, pk, sig, found, -, hremoved⟩
      · cases hended.symm.trans hj
      · cases hremoved.symm.trans hj
    · exact h.drawn j c t hj
  inserted j c t hj := by
    rcases List.mem_append.mp hj with hold | hnew
    · exact h.inserted j c t hold
    · exact htoken j c t (List.mem_singleton.mp hnew).symm
  pending j u pk sig found hj := by
    simp only [Sso.record, Sso.goTo] at hj ⊢
    split_ifs at hj with hcall
    · rcases hstage with hended | ⟨u', pk', sig', found', he, hremoved⟩
      · cases hended.symm.trans hj
      · cases hremoved.symm.trans hj
        rw [hcall, ← he]
        exact List.mem_append_right _ (List.mem_singleton_self _)
    · exact List.mem_append_left _ (h.pending j u pk sig found hj)
  answered j at' result hj := by
    have hmono : ∀ {e' : SsoEvent ι}, e' ∈ s.log → e' ∈ s.log ++ [e] := List.mem_append_left _
    rcases List.mem_append.mp hj with hold | hnew
    · obtain ⟨u, pk, sig, found, verifiedAt, hmem, hresult⟩ := h.answered j at' result hold
      exact ⟨u, pk, sig, found, verifiedAt, hmono hmem, hresult⟩
    · obtain ⟨u, pk, sig, found, verifiedAt, hmem, hresult⟩ :=
        hanswered j at' result (List.mem_singleton.mp hnew).symm
      exact ⟨u, pk, sig, found, verifiedAt, hmono hmem, hresult⟩

theorem SsoInv.step (h : SsoInv lib ttl s) (hstep : SsoStep lib ttl s s') :
    SsoInv lib ttl s' := by
  cases hstep with
  | wait d => exact ⟨h.agrees, h.caller, h.once, h.drawn, h.inserted, h.pending, h.answered⟩
  | draw i userId buf createdAt idle filled =>
      refine h.goTo idle (fun c t hc => ?_) nofun
      cases hc
      exact ⟨buf, filled, rfl⟩
  | drawFails i idle => exact h.goTo idle nofun nofun
  | insert i challenge issuedAt stage =>
      refine h.record (e := .inserted i challenge issuedAt) (h.agrees.put rfl) (Or.inl rfl)
        (fun _ e' he' hcall => ?_) (fun j c t he => ?_) nofun
      · exact h.not_mem_of_stage (Or.inr ⟨challenge, issuedAt, hcall ▸ stage⟩) he'
      · cases he
        exact h.drawn i challenge issuedAt stage
  | remove i userId pubkeyHex signatureHex idle =>
      refine h.record (e := .removed i userId pubkeyHex signatureHex (s.challenges userId))
        (h.agrees.take rfl) (Or.inr ⟨userId, pubkeyHex, signatureHex, _, rfl, rfl⟩)
        (fun _ e' he' hcall => ?_) nofun nofun
      exact h.not_mem_of_stage (Or.inl (hcall ▸ idle)) he'
  | answer i userId pubkeyHex signatureHex found verifiedAt stage =>
      refine h.record (e := .answered i s.now _) (h.agrees.other rfl) (Or.inl rfl) nofun nofun
        fun j at' result he => ?_
      cases he
      exact ⟨userId, pubkeyHex, signatureHex, found, verifiedAt, h.pending i _ _ _ _ stage, rfl⟩

theorem SsoInv.run (hrun : Relation.ReflTransGen (SsoStep lib ttl) Sso.start s) :
    SsoInv lib ttl s := by
  induction hrun with
  | refl => exact SsoInv.start
  | tail _ hstep ih => exact ih.step hstep

omit [DecidableEq ι]

/-- The event behind a put. -/
theorem inserted_of_put {log : List (SsoEvent ι)} {m : ℕ} {userId : Str}
    {challenge : SchnorrChallenge} {issuedAt : Nat}
    (h : moveAt SsoEvent.move log m = some (.put userId (challenge, issuedAt))) :
    challenge.userId = userId ∧ ∃ j, log[m]? = some (.inserted j challenge issuedAt) := by
  obtain ⟨e, he, hmove⟩ := Option.bind_eq_some_iff.mp h
  cases e with
  | inserted j c t =>
      cases hmove
      exact ⟨rfl, j, he⟩
  | removed j u pk sig found => cases hmove
  | answered j at' result => cases hmove

theorem moveAt_of_getElem? {log : List (SsoEvent ι)} {n : ℕ} (h : log[n]? = some e) :
    moveAt SsoEvent.move log n = e.move := by
  rw [moveAt, h, Option.bind_some]

theorem SsoInv.exists_origin (h : SsoInv lib ttl s) (i : ι) :
    ∃ j, ∀ userId pubkeyHex signatureHex challenge issuedAt,
      .removed i userId pubkeyHex signatureHex (some (challenge, issuedAt)) ∈ s.log →
        IsToken challenge.token ∧
          Supplied s.log j i userId pubkeyHex signatureHex challenge issuedAt := by
  by_cases hfound : Found s.log i
  · obtain ⟨u, pk, sig, ⟨c, t⟩, hmem⟩ := hfound
    obtain ⟨n, hn⟩ := List.mem_iff_getElem?.mp hmem
    obtain ⟨m, hands⟩ := h.agrees.handed (moveAt_of_getElem? hn)
    obtain ⟨huser, j, hm⟩ := inserted_of_put hands.put
    refine ⟨j, fun u' pk' sig' c' t' hmem' => ?_⟩
    obtain ⟨n', hn'⟩ := List.mem_iff_getElem?.mp hmem'
    obtain rfl := h.once n n' _ _ hn hn' rfl rfl rfl
    cases hn.symm.trans hn'
    exact ⟨h.inserted j c t (List.mem_of_getElem? hm), huser, m, n, hm, hn, hands⟩
  · exact ⟨i, fun u pk sig c t hmem => absurd ⟨u, pk, sig, (c, t), hmem⟩ hfound⟩

/-- What one call stored is taken by one call. -/
theorem SsoInv.eq_of_supplied (h : SsoInv lib ttl s) {i' j : ι}
    {u u' pk pk' sig sig' : Str} {c c' : SchnorrChallenge} {t t' : Nat}
    (hi : Supplied s.log j i u pk sig c t) (hi' : Supplied s.log j i' u' pk' sig' c' t') :
    i = i' := by
  obtain ⟨huser, m, n, hm, hn, hands⟩ := hi
  obtain ⟨huser', m', n', hm', hn', hands'⟩ := hi'
  obtain rfl := h.once m m' _ _ hm hm' rfl rfl rfl
  cases hm.symm.trans hm'
  obtain rfl : u = u' := huser.symm.trans huser'
  obtain rfl := hands.right_unique hands'
  cases hn.symm.trans hn'
  rfl

theorem SsoInv.consumed (h : SsoInv lib ttl s) {n : ℕ} {u pk sig : Str}
    {found : Option (SchnorrChallenge × Nat)} (hn : s.log[n]? = some (.removed i u pk sig found))
    (hlater : ∀ m : ℕ, n < m → ∀ j c t, s.log[m]? = some (.inserted j c t) → c.userId ≠ u) :
    s.challenges u = none := by
  cases hheld : s.challenges u with
  | none => rfl
  | some v =>
      obtain ⟨m, -, hput, hquiet⟩ := h.agrees.held hheld
      obtain ⟨huser, j, hm⟩ := inserted_of_put hput
      have hlt : n < s.log.length := (List.getElem?_eq_some_iff.mp hn).1
      rcases Nat.lt_trichotomy m n with hmn | rfl | hnm
      · exact absurd rfl (hquiet n hmn hlt _ (moveAt_of_getElem? hn))
      · cases hm.symm.trans hn
      · exact absurd huser (hlater m hnm j _ _ hm)

theorem SsoInv.safe (h : SsoInv lib ttl s) : ∃ origin, SignInSafe lib ttl s origin := by
  choose origin horigin using h.exists_origin
  refine ⟨origin, horigin, fun i i' hi hi' heq => ?_, fun i at' a hmem => ?_,
    fun n i u pk sig found hn hlater => h.consumed hn hlater⟩
  · obtain ⟨u, pk, sig, ⟨c, t⟩, hmem⟩ := hi
    obtain ⟨u', pk', sig', ⟨c', t'⟩, hmem'⟩ := hi'
    have hsupplied := (horigin i u pk sig c t hmem).2
    rw [heq] at hsupplied
    exact h.eq_of_supplied hsupplied (horigin i' u' pk' sig' c' t' hmem').2
  · obtain ⟨u, pk, sig, found, verifiedAt, hremoved, hresult⟩ := h.answered i at' (.ok a) hmem
    obtain ⟨c, t, rfl, htime, hcovers, rfl⟩ := verifyResponse_eq_ok_iff.mp hresult.symm
    exact ⟨sig, c, t, hremoved, htime, hcovers⟩

end Steps

/-- However the calls interleave, signing in is one-shot and for one account. -/
theorem signInSafe_of_run [DecidableEq ι] (lib : SchnorrLibrary) (hlib : lib.Sound) (ttl : Nat)
    (s : Sso ι) (hrun : Relation.ReflTransGen (SsoStep lib ttl) Sso.start s) :
    (∃ origin, SignInSafe lib ttl s origin) ∧
      ∀ token token' userId userId' pubkeyHex pubkeyHex' signatureHex signatureHex',
        IsToken token → IsToken token' → Covers lib token userId pubkeyHex signatureHex →
          Covers lib token' userId' pubkeyHex' signatureHex' →
            Hex.decode signatureHex = Hex.decode signatureHex' →
              token = token' ∧ userId = userId' ∧ pubkeyHex = pubkeyHex' :=
  ⟨(SsoInv.run hrun).safe, fun _ _ _ _ _ _ _ _ htoken htoken' h h' hsame =>
    h.unique hlib htoken htoken' h' hsame⟩

/-! ## One sign-in -/

def zeros (n : Nat) : Str := List.replicate n '0'

/-- A library for which one message is signed, and everything is its signature. -/
def sampleSso : SchnorrLibrary where
  VerifyingKey := Bytes
  Signature := Bytes
  sha256 b := b
  hexError _ := "Odd number of digits"
  verifyingKey := .ok
  signature := .ok
  verify _ m _ :=
    if m ≠ utf8 (zeros 64) ++ utf8 "alice" ++ utf8 (zeros 64) then .error "signature error"
    else .ok ()

theorem sampleSso_sound : sampleSso.Sound where
  collisionFree _ _ h := h
  binds vk vk' m m' sig h h' := by
    obtain ⟨hm, -⟩ := guard_eq_ok_iff.mp h
    obtain ⟨hm', -⟩ := guard_eq_ok_iff.mp h'
    exact (not_not.mp hm).trans (not_not.mp hm').symm

def sampleChallenge : SchnorrChallenge := ⟨"alice", Hex.encode (List.replicate 32 0), 0⟩

/-- The first call stores a challenge, the second one answers it. -/
def sampleSignIn : Sso Bool :=
  ((((Sso.start.draw false "alice" (List.replicate 32 0) 0).insert false sampleChallenge 0).remove
    true "alice" (zeros 64) (zeros 128)).answer sampleSso 60 true "alice" (zeros 64) (zeros 128)
      (some (sampleChallenge, 0)) 0)

theorem signInSafe_sampleSignIn :
    .answered true 0 (.ok ⟨"alice", zeros 64, 0⟩) ∈ sampleSignIn.log ∧
      (∃ origin, SignInSafe sampleSso 60 sampleSignIn origin) ∧
        ∀ token token' userId userId' pubkeyHex pubkeyHex' signatureHex signatureHex',
          IsToken token → IsToken token' → Covers sampleSso token userId pubkeyHex signatureHex →
            Covers sampleSso token' userId' pubkeyHex' signatureHex' →
              Hex.decode signatureHex = Hex.decode signatureHex' →
                token = token' ∧ userId = userId' ∧ pubkeyHex = pubkeyHex' := by
  have hrun : Relation.ReflTransGen (SsoStep sampleSso 60) Sso.start sampleSignIn :=
    (((Relation.ReflTransGen.single (.draw false "alice" (List.replicate 32 0) 0 rfl rfl)).tail
      (.insert false sampleChallenge 0 rfl)).tail
        (.remove true "alice" (zeros 64) (zeros 128) rfl)).tail
          (.answer true "alice" (zeros 64) (zeros 128) (some (sampleChallenge, 0)) 0 rfl)
  refine ⟨?_, signInSafe_of_run sampleSso sampleSso_sound 60 sampleSignIn hrun⟩
  have hok : verifyResponse sampleSso 60 0 0 "alice" (zeros 64) (zeros 128)
      (some (sampleChallenge, 0)) = .ok ⟨"alice", zeros 64, 0⟩ := by
    rfl
  rw [← hok]
  exact List.mem_append_right _ (List.mem_singleton_self _)

end Safety

end Idp

end SolidPod
