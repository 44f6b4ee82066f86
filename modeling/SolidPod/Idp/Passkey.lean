import Mathlib.Logic.Relation
import SolidPod.Foundation.Encodings
import SolidPod.Foundation.Fallible
import SolidPod.Foundation.Handover
import SolidPod.Json

/-!
# Passkeys

Registration and authentication with passkeys. A ceremony is started for an account,
its state is stored under the account and taken by the call that verifies the
response. Calls run at the same time: each access to one of the tables is a step of
its own. The ceremonies themselves are the WebAuthn library's, which are the
parameters of `WebauthnLibrary`. The result of an authentication, with the new
counter of the credential, is dropped.
-/

namespace SolidPod

open Foundation Str Fallible Handover

namespace Idp

/-! ## The functions between the tables -/

inductive PasskeyError where
  | unimplemented
  | verification (msg : Str)
  | backend (msg : Str)
  | config (msg : Str)
  | noCeremony (user : Str)
  | parse (msg : Str)
  deriving DecidableEq

def PasskeyError.display : PasskeyError → Str
  | .unimplemented => "passkey backend not implemented"
  | .verification msg => "verification failed: " ++ msg
  | .backend msg => "backend: " ++ msg
  | .config msg => "configuration: " ++ msg
  | .noCeremony user => "no in-flight ceremony for user: " ++ user
  | .parse msg => "response parse: " ++ msg

/-- A response of the browser: the credential id, and all the rest. -/
structure PasskeyResponse where
  id : Str
  raw : Json

/-- What an accepted assertion says. -/
structure AuthenticationResult where
  credId : Bytes
  counter : Nat
  deriving DecidableEq

/-- What is asked of the libraries. What is drawn at random is an argument, an error is
given by its text. -/
structure WebauthnLibrary where
  Passkey : Type
  PasskeyRegistration : Type
  PasskeyAuthentication : Type
  RegisterPublicKeyCredential : Type
  PublicKeyCredential : Type
  sha256 : Bytes → Bytes
  credId : Passkey → Bytes
  /-- The counter that a passkey holds. -/
  counter : Passkey → Nat
  /-- The passkeys that a ceremony was started from. -/
  started : PasskeyAuthentication → List Passkey
  assertedId : PublicKeyCredential → Bytes
  assertedCounter : PublicKeyCredential → Nat
  startRegistration : Bytes → Str → Str → Option (List Bytes) → Bytes →
    Except Str (Except Str Json × PasskeyRegistration)
  finishRegistration : RegisterPublicKeyCredential → PasskeyRegistration → Except Str Passkey
  startAuthentication : List Passkey → Bytes →
    Except Str (Except Str Json × PasskeyAuthentication)
  finishAuthentication : PublicKeyCredential → PasskeyAuthentication →
    Except Str AuthenticationResult
  registerCredential : Json → Except Str RegisterPublicKeyCredential
  credential : Json → Except Str PublicKeyCredential

/-- A ceremony keeps the passkeys that it was started from. An assertion is accepted for
one of them, if its counter exceeds the one that this passkey holds; the result says
which counter it was. Counters that are zero are not kept. -/
structure WebauthnLibrary.Documented (lib : WebauthnLibrary) : Prop where
  keeps : ∀ creds rng options st, lib.startAuthentication creds rng = .ok (options, st) →
    lib.started st = creds
  checks : ∀ cred st result, lib.finishAuthentication cred st = .ok result →
    result.credId = lib.assertedId cred ∧ result.counter = lib.assertedCounter cred ∧
      ∃ p ∈ lib.started st, lib.credId p = result.credId ∧
        (result.counter ≠ 0 → lib.counter p < result.counter)

/-- The URL-safe alphabet, without padding. -/
def base64UrlEncode (b : Bytes) : Str :=
  (trimEndMatches '=' (Base64.encode b)).map fun c =>
    if c = '+' then '-' else if c = '/' then '_' else c

def base64urlMatches (bin : Bytes) (txt : Str) : Bool :=
  base64UrlEncode bin = trimEndMatches '=' txt

def orVerification {α : Type*} : Except Str α → Except PasskeyError α
  | .ok a => .ok a
  | .error e => .error (.verification e)

def orResponse {α : Type*} : Except Str α → Except PasskeyError α
  | .ok a => .ok a
  | .error e => .error (.parse e)

theorem orVerification_eq_ok_iff {α : Type*} {x : Except Str α} {a : α} :
    orVerification x = .ok a ↔ x = .ok a := by
  cases x with
  | ok b => simp [orVerification]
  | error e => simp [orVerification]

theorem orResponse_eq_ok_iff {α : Type*} {x : Except Str α} {a : α} :
    orResponse x = .ok a ↔ x = .ok a := by
  cases x with
  | ok b => simp [orResponse]
  | error e => simp [orResponse]

/-- The options as they are sent. -/
def sentOptions (what : Str) : Except Str Json → Except PasskeyError Json
  | .ok raw => .ok raw
  | .error e => .error (.backend (what ++ e))

/-- The id is put back into the response before it is read. -/
def PasskeyResponse.value (resp : PasskeyResponse) : Json :=
  match resp.raw with
  | .object m => .object (Json.insertMember "id" (.string resp.id) m)
  | v => v

section Functions

variable (lib : WebauthnLibrary)

/-- The first octets of a hash, laid out as a UUID of version 4. -/
def accountUuid (accountId : Str) : Bytes :=
  (((lib.sha256 (utf8 accountId)).take 16).modify 6 fun b => (b &&& 0x0f) ||| 0x40).modify 8
    fun b => (b &&& 0x3f) ||| 0x80

def beginRegistration (accountId : Str) (existing : List lib.Passkey) (rng : Bytes) :
    Except PasskeyError (Except Str Json × lib.PasskeyRegistration) :=
  let ids := existing.map lib.credId
  let exclude := if ids.isEmpty then none else some ids
  orVerification (lib.startRegistration (accountUuid lib accountId) accountId accountId exclude rng)

def endRegistration (resp : PasskeyResponse) (st : lib.PasskeyRegistration) :
    Except PasskeyError lib.Passkey := do
  let reg ← orResponse (lib.registerCredential resp.value)
  orVerification (lib.finishRegistration reg st)

def beginAuthentication (accountId : Str) (creds : List lib.Passkey) (rng : Bytes) :
    Except PasskeyError (Except Str Json × lib.PasskeyAuthentication) :=
  if creds.isEmpty then .error (.noCeremony ("no passkeys registered for " ++ accountId))
  else orVerification (lib.startAuthentication creds rng)

/-- The first account that has the credential, in the order of the iteration. -/
def matchedAccount (credentials : Str → List lib.Passkey) (order : List Str) (id : Str) :
    Option Str :=
  order.find? fun a => (credentials a).any fun p => base64urlMatches (lib.credId p) id

def endAuthentication (resp : PasskeyResponse) (st : lib.PasskeyAuthentication) :
    Except PasskeyError AuthenticationResult := do
  let cred ← orResponse (lib.credential resp.value)
  orVerification (lib.finishAuthentication cred st)

end Functions

/-! ## Calls at the same time -/

/-- Where a call is. -/
inductive PasskeyStage (lib : WebauthnLibrary) where
  | idle
  | registering (accountId : Str) (st : lib.PasskeyRegistration)
  | attested (accountId : Str) (resp : PasskeyResponse) (st : lib.PasskeyRegistration)
  | authenticating (accountId : Str) (st : lib.PasskeyAuthentication)
  | matched (accountId : Str) (resp : PasskeyResponse)
  | asserted (accountId : Str) (resp : PasskeyResponse) (st : lib.PasskeyAuthentication)
  | ended

/-- What has happened: the state of a ceremony was stored or taken, a passkey was
stored, an authentication was answered. -/
inductive PasskeyEvent (lib : WebauthnLibrary) where
  | registrationStored (accountId : Str) (st : lib.PasskeyRegistration)
  | registrationTaken (accountId : Str) (found : Option lib.PasskeyRegistration)
  | registered (accountId : Str) (passkey : lib.Passkey)
  | authenticationStored (accountId : Str) (st : lib.PasskeyAuthentication)
  | authenticationTaken (accountId : Str) (resp : PasskeyResponse)
      (found : Option lib.PasskeyAuthentication)
  | answered (accountId : Str) (resp : PasskeyResponse)
      (result : Except PasskeyError AuthenticationResult)

section Calls

variable {lib : WebauthnLibrary}

def PasskeyEvent.registration : PasskeyEvent lib → Option (Move Str lib.PasskeyRegistration)
  | .registrationStored a st => some (.put a st)
  | .registrationTaken a found => some (.take a found)
  | _ => none

def PasskeyEvent.authentication : PasskeyEvent lib → Option (Move Str lib.PasskeyAuthentication)
  | .authenticationStored a st => some (.put a st)
  | .authenticationTaken a _ found => some (.take a found)
  | _ => none

/-- The tables, the calls, and what has happened, oldest first. -/
structure WebauthnPasskey (lib : WebauthnLibrary) (ι : Type*) where
  registrationState : Str → Option lib.PasskeyRegistration
  authenticationState : Str → Option lib.PasskeyAuthentication
  credentials : Str → List lib.Passkey
  calls : ι → PasskeyStage lib
  log : List (PasskeyEvent lib)

variable {ι : Type*} [DecidableEq ι]

def WebauthnPasskey.start : WebauthnPasskey lib ι :=
  ⟨fun _ => none, fun _ => none, fun _ => [], fun _ => .idle, []⟩

def WebauthnPasskey.goTo (s : WebauthnPasskey lib ι) (i : ι) (stage : PasskeyStage lib) :
    WebauthnPasskey lib ι :=
  { s with calls := fun j => if j = i then stage else s.calls j }

def WebauthnPasskey.record (s : WebauthnPasskey lib ι) (e : PasskeyEvent lib) :
    WebauthnPasskey lib ι :=
  { s with log := s.log ++ [e] }

/-- `registration_options`, up to the state of the new ceremony. -/
def WebauthnPasskey.beginRegistration (s : WebauthnPasskey lib ι) (i : ι) (accountId : Str)
    (rng : Bytes) : WebauthnPasskey lib ι :=
  match Idp.beginRegistration lib accountId (s.credentials accountId) rng with
  | .ok (_, st) => s.goTo i (.registering accountId st)
  | .error _ => s.goTo i .ended

/-- The state is stored, whether the options can be sent or not. -/
def WebauthnPasskey.storeRegistration (s : WebauthnPasskey lib ι) (i : ι) (accountId : Str)
    (st : lib.PasskeyRegistration) : WebauthnPasskey lib ι :=
  { (s.goTo i .ended).record (.registrationStored accountId st) with
    registrationState := fun a => if a = accountId then some st else s.registrationState a }

/-- `registration_verify`, up to the state that it takes. -/
def WebauthnPasskey.takeRegistration (s : WebauthnPasskey lib ι) (i : ι) (accountId : Str)
    (resp : PasskeyResponse) : WebauthnPasskey lib ι :=
  let found := s.registrationState accountId
  let stage := match found with
    | some st => .attested accountId resp st
    | none => .ended
  { (s.goTo i stage).record (.registrationTaken accountId found) with
    registrationState := fun a => if a = accountId then none else s.registrationState a }

/-- The passkey is stored with the account if the response is good. -/
def WebauthnPasskey.storePasskey (s : WebauthnPasskey lib ι) (i : ι) (accountId : Str)
    (resp : PasskeyResponse) (st : lib.PasskeyRegistration) : WebauthnPasskey lib ι :=
  match endRegistration lib resp st with
  | .ok passkey =>
      { (s.goTo i .ended).record (.registered accountId passkey) with
        credentials := fun a =>
          if a = accountId then s.credentials a ++ [passkey] else s.credentials a }
  | .error _ => s.goTo i .ended

/-- `authentication_options`, up to the state of the new ceremony. -/
def WebauthnPasskey.beginAuthentication (s : WebauthnPasskey lib ι) (i : ι) (accountId : Str)
    (rng : Bytes) : WebauthnPasskey lib ι :=
  match Idp.beginAuthentication lib accountId (s.credentials accountId) rng with
  | .ok (_, st) => s.goTo i (.authenticating accountId st)
  | .error _ => s.goTo i .ended

def WebauthnPasskey.storeAuthentication (s : WebauthnPasskey lib ι) (i : ι) (accountId : Str)
    (st : lib.PasskeyAuthentication) : WebauthnPasskey lib ι :=
  { (s.goTo i .ended).record (.authenticationStored accountId st) with
    authenticationState := fun a => if a = accountId then some st else s.authenticationState a }

/-- `authentication_verify`, up to the account that it looks for. -/
def WebauthnPasskey.matchAccount (s : WebauthnPasskey lib ι) (i : ι) (resp : PasskeyResponse)
    (order : List Str) : WebauthnPasskey lib ι :=
  match matchedAccount lib s.credentials order resp.id with
  | some accountId => s.goTo i (.matched accountId resp)
  | none => s.goTo i .ended

def WebauthnPasskey.takeAuthentication (s : WebauthnPasskey lib ι) (i : ι) (accountId : Str)
    (resp : PasskeyResponse) : WebauthnPasskey lib ι :=
  let found := s.authenticationState accountId
  let stage := match found with
    | some st => .asserted accountId resp st
    | none => .ended
  { (s.goTo i stage).record (.authenticationTaken accountId resp found) with
    authenticationState := fun a => if a = accountId then none else s.authenticationState a }

/-- The result is only looked at for being one: no passkey is updated. -/
def WebauthnPasskey.answerAuthentication (s : WebauthnPasskey lib ι) (i : ι) (accountId : Str)
    (resp : PasskeyResponse) (st : lib.PasskeyAuthentication) : WebauthnPasskey lib ι :=
  (s.goTo i .ended).record (.answered accountId resp (endAuthentication lib resp st))

/-- One step of one call. An assertion is answered where `Admits` lets it be. -/
inductive PasskeyStep
    (Admits : List (PasskeyEvent lib) → PasskeyResponse → lib.PasskeyAuthentication → Prop)
    (s : WebauthnPasskey lib ι) : WebauthnPasskey lib ι → Prop where
  | beginRegistration (i : ι) (accountId : Str) (rng : Bytes) (idle : s.calls i = .idle) :
      PasskeyStep Admits s (s.beginRegistration i accountId rng)
  | storeRegistration (i : ι) (accountId : Str) (st : lib.PasskeyRegistration)
      (stage : s.calls i = .registering accountId st) :
      PasskeyStep Admits s (s.storeRegistration i accountId st)
  | takeRegistration (i : ι) (accountId : Str) (resp : PasskeyResponse) (idle : s.calls i = .idle) :
      PasskeyStep Admits s (s.takeRegistration i accountId resp)
  | storePasskey (i : ι) (accountId : Str) (resp : PasskeyResponse) (st : lib.PasskeyRegistration)
      (stage : s.calls i = .attested accountId resp st) :
      PasskeyStep Admits s (s.storePasskey i accountId resp st)
  | beginAuthentication (i : ι) (accountId : Str) (rng : Bytes) (idle : s.calls i = .idle) :
      PasskeyStep Admits s (s.beginAuthentication i accountId rng)
  | storeAuthentication (i : ι) (accountId : Str) (st : lib.PasskeyAuthentication)
      (stage : s.calls i = .authenticating accountId st) :
      PasskeyStep Admits s (s.storeAuthentication i accountId st)
  | matchAccount (i : ι) (resp : PasskeyResponse) (order : List Str) (idle : s.calls i = .idle) :
      PasskeyStep Admits s (s.matchAccount i resp order)
  | takeAuthentication (i : ι) (accountId : Str) (resp : PasskeyResponse)
      (stage : s.calls i = .matched accountId resp) :
      PasskeyStep Admits s (s.takeAuthentication i accountId resp)
  | answerAuthentication (i : ι) (accountId : Str) (resp : PasskeyResponse)
      (st : lib.PasskeyAuthentication) (stage : s.calls i = .asserted accountId resp st)
      (admitted : Admits s.log resp st) :
      PasskeyStep Admits s (s.answerAuthentication i accountId resp st)

end Calls

end Idp

end SolidPod
