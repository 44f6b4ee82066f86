import SolidPod.Idp.Passkey

/-!
# The counters of passkeys

What holds over all runs of registration and authentication ceremonies: the state of a
ceremony is taken once, and by a response for a credential of the account. The counters
of the accepted assertions of a credential increase as long as no response has a counter
that an accepted one reached already and the stored passkey never learned of.
-/

namespace SolidPod

open Foundation Str Fallible Handover

namespace Idp

section Safety

variable {lib : WebauthnLibrary} {ι : Type*}

/-- Before a position, a passkey of the account was stored. -/
def RegisteredBefore (log : List (PasskeyEvent lib)) (n : ℕ) (accountId : Str)
    (P : lib.Passkey → Prop) : Prop :=
  ∃ m p, m < n ∧ log[m]? = some (.registered accountId p) ∧ P p

/-- The state of every ceremony is taken once, by a response for a credential of the account,
and the counters of the accepted assertions of a credential increase. -/
structure CeremoniesSafe (log : List (PasskeyEvent lib)) : Prop where
  registrationOnce : ∀ n a st,
    moveAt PasskeyEvent.registration log n = some (.take a (some st)) →
      ∃ m, HandsOver PasskeyEvent.registration log m n a st ∧
        ∀ n' a' st', HandsOver PasskeyEvent.registration log m n' a' st' → n' = n
  authenticationOnce : ∀ n a st,
    moveAt PasskeyEvent.authentication log n = some (.take a (some st)) →
      ∃ m, HandsOver PasskeyEvent.authentication log m n a st ∧
        ∀ n' a' st', HandsOver PasskeyEvent.authentication log m n' a' st' → n' = n
  owned : ∀ (n : ℕ) a resp found, log[n]? = some (.authenticationTaken a resp found) →
    RegisteredBefore log n a fun p => base64urlMatches (lib.credId p) resp.id = true
  accepted : ∀ (n : ℕ) a resp result, log[n]? = some (.answered a resp (.ok result)) →
    RegisteredBefore log n a fun p => lib.credId p = result.credId
  increasing : ∀ (n n' : ℕ) a a' resp resp' r r', n < n' →
    log[n]? = some (.answered a resp (.ok r)) → log[n']? = some (.answered a' resp' (.ok r')) →
      r.credId = r'.credId → r.counter ≠ 0 → r'.counter ≠ 0 → r.counter < r'.counter

/-- A counter that an accepted assertion reached already is not above the one in the
passkeys that the ceremony was started from. -/
def UpToDate (log : List (PasskeyEvent lib)) (resp : PasskeyResponse)
    (st : lib.PasskeyAuthentication) : Prop :=
  ∀ cred, lib.credential resp.value = .ok cred → ∀ a resp' r,
    .answered a resp' (.ok r) ∈ log → r.credId = lib.assertedId cred → r.counter ≠ 0 →
      lib.assertedCounter cred ≤ r.counter →
        ∀ p ∈ lib.started st, lib.credId p = r.credId → lib.assertedCounter cred ≤ lib.counter p

/-- All passkeys of the list were stored for the account. -/
def AllRegistered (log : List (PasskeyEvent lib)) (accountId : Str) (creds : List lib.Passkey) :
    Prop :=
  ∀ p ∈ creds, .registered accountId p ∈ log

/-- What holds after every step. -/
structure PasskeyInv (s : WebauthnPasskey lib ι) : Prop where
  registrations : Agrees PasskeyEvent.registration s.registrationState s.log
  authentications : Agrees PasskeyEvent.authentication s.authenticationState s.log
  credentials : ∀ a, AllRegistered s.log a (s.credentials a)
  stored : ∀ a st, s.authenticationState a = some st → AllRegistered s.log a (lib.started st)
  authenticating : ∀ i a st, s.calls i = .authenticating a st →
    AllRegistered s.log a (lib.started st)
  asserted : ∀ i a resp st, s.calls i = .asserted a resp st →
    AllRegistered s.log a (lib.started st)
  matched : ∀ i a resp, s.calls i = .matched a resp →
    ∃ p, .registered a p ∈ s.log ∧ base64urlMatches (lib.credId p) resp.id = true
  owned : ∀ (n : ℕ) a resp found, s.log[n]? = some (.authenticationTaken a resp found) →
    RegisteredBefore s.log n a fun p => base64urlMatches (lib.credId p) resp.id = true
  accepted : ∀ (n : ℕ) a resp result, s.log[n]? = some (.answered a resp (.ok result)) →
    RegisteredBefore s.log n a fun p => lib.credId p = result.credId
  increasing : ∀ (n n' : ℕ) a a' resp resp' r r', n < n' →
    s.log[n]? = some (.answered a resp (.ok r)) → s.log[n']? = some (.answered a' resp' (.ok r')) →
      r.credId = r'.credId → r.counter ≠ 0 → r'.counter ≠ 0 → r.counter < r'.counter

theorem PasskeyInv.safe {s : WebauthnPasskey lib ι} (h : PasskeyInv s) : CeremoniesSafe s.log :=
  ⟨fun _ _ _ htake => h.registrations.once htake, fun _ _ _ htake => h.authentications.once htake,
    h.owned, h.accepted, h.increasing⟩

section Steps

variable {s s' : WebauthnPasskey lib ι} {i : ι} {log : List (PasskeyEvent lib)}
  {e : PasskeyEvent lib} {a : Str} {P : lib.Passkey → Prop}

theorem RegisteredBefore.append {n : ℕ} (h : RegisteredBefore log n a P) :
    RegisteredBefore (log ++ [e]) n a P := by
  obtain ⟨m, p, hm, hp, hP⟩ := h
  exact ⟨m, p, hm, getElem?_append_singleton_eq_some_iff.mpr (Or.inl hp), hP⟩

theorem registeredBefore_length {p : lib.Passkey} (h : .registered a p ∈ log) (hP : P p) :
    RegisteredBefore (log ++ [e]) log.length a P := by
  obtain ⟨m, hm⟩ := List.mem_iff_getElem?.mp h
  exact ⟨m, p, (List.getElem?_eq_some_iff.mp hm).1,
    getElem?_append_singleton_eq_some_iff.mpr (Or.inl hm), hP⟩

theorem AllRegistered.append {creds : List lib.Passkey} (h : AllRegistered log a creds) :
    AllRegistered (log ++ [e]) a creds :=
  fun p hp => List.mem_append_left _ (h p hp)

theorem PasskeyInv.start : PasskeyInv (WebauthnPasskey.start : WebauthnPasskey lib ι) where
  registrations := .nil
  authentications := .nil
  credentials a p hp := by cases hp
  stored := nofun
  authenticating := nofun
  asserted := nofun
  matched := nofun
  owned n a resp found hn := by cases hn
  accepted n a resp result hn := by cases hn
  increasing n n' a a' resp resp' r r' _ hn := by cases hn

/-- An event is logged, and the tables change with it. -/
theorem PasskeyInv.record (h : PasskeyInv s)
    {registrationState : Str → Option lib.PasskeyRegistration}
    {authenticationState : Str → Option lib.PasskeyAuthentication}
    {credentials : Str → List lib.Passkey}
    (hreg : Agrees PasskeyEvent.registration registrationState (s.log ++ [e]))
    (hauth : Agrees PasskeyEvent.authentication authenticationState (s.log ++ [e]))
    (hcreds : ∀ a, AllRegistered (s.log ++ [e]) a (credentials a))
    (hstored : ∀ a st, authenticationState a = some st →
      AllRegistered (s.log ++ [e]) a (lib.started st))
    (howned : ∀ a resp found, e = .authenticationTaken a resp found →
      ∃ p, .registered a p ∈ s.log ∧ base64urlMatches (lib.credId p) resp.id = true)
    (haccepted : ∀ a resp result, e = .answered a resp (.ok result) →
      (∃ p, .registered a p ∈ s.log ∧ lib.credId p = result.credId) ∧
        ∀ a' resp' r, .answered a' resp' (.ok r) ∈ s.log → r.credId = result.credId →
          r.counter ≠ 0 → result.counter ≠ 0 → r.counter < result.counter) :
    PasskeyInv ⟨registrationState, authenticationState, credentials, s.calls, s.log ++ [e]⟩ where
  registrations := hreg
  authentications := hauth
  credentials := hcreds
  stored := hstored
  authenticating j a st hj := (h.authenticating j a st hj).append
  asserted j a resp st hj := (h.asserted j a resp st hj).append
  matched j a resp hj := by
    obtain ⟨p, hp, hmatch⟩ := h.matched j a resp hj
    exact ⟨p, List.mem_append_left _ hp, hmatch⟩
  owned n a resp found hn := by
    rcases getElem?_append_singleton_eq_some_iff.mp hn with hn | ⟨rfl, he⟩
    · exact (h.owned n a resp found hn).append
    · obtain ⟨p, hp, hmatch⟩ := howned a resp found he
      exact registeredBefore_length hp hmatch
  accepted n a resp result hn := by
    rcases getElem?_append_singleton_eq_some_iff.mp hn with hn | ⟨rfl, he⟩
    · exact (h.accepted n a resp result hn).append
    · obtain ⟨p, hp, hid⟩ := (haccepted a resp result he).1
      exact registeredBefore_length hp hid
  increasing n n' a a' resp resp' r r' hlt hn hn' hid hr hr' := by
    rcases getElem?_append_singleton_eq_some_iff.mp hn with hn | ⟨rfl, he⟩
    · rcases getElem?_append_singleton_eq_some_iff.mp hn' with hn' | ⟨rfl, he'⟩
      · exact h.increasing n n' a a' resp resp' r r' hlt hn hn' hid hr hr'
      · exact (haccepted a' resp' r' he').2 a resp r (List.mem_of_getElem? hn) hid hr hr'
    · have hbound := (List.getElem?_eq_some_iff.mp hn').1
      rw [List.length_append, List.length_singleton] at hbound
      omega

variable [DecidableEq ι]

/-- A call goes on without an event. -/
theorem PasskeyInv.goTo (h : PasskeyInv s) {stage : PasskeyStage lib}
    (hauth : ∀ a st, stage = .authenticating a st → AllRegistered s.log a (lib.started st))
    (hassert : ∀ a resp st, stage = .asserted a resp st → AllRegistered s.log a (lib.started st))
    (hmatch : ∀ a resp, stage = .matched a resp →
      ∃ p, .registered a p ∈ s.log ∧ base64urlMatches (lib.credId p) resp.id = true) :
    PasskeyInv (s.goTo i stage) where
  registrations := h.registrations
  authentications := h.authentications
  credentials := h.credentials
  stored := h.stored
  authenticating j a st hj := by
    simp only [WebauthnPasskey.goTo] at hj
    split_ifs at hj
    · exact hauth a st hj
    · exact h.authenticating j a st hj
  asserted j a resp st hj := by
    simp only [WebauthnPasskey.goTo] at hj
    split_ifs at hj
    · exact hassert a resp st hj
    · exact h.asserted j a resp st hj
  matched j a resp hj := by
    simp only [WebauthnPasskey.goTo] at hj
    split_ifs at hj
    · exact hmatch a resp hj
    · exact h.matched j a resp hj
  owned := h.owned
  accepted := h.accepted
  increasing := h.increasing

theorem PasskeyInv.ended (h : PasskeyInv s) : PasskeyInv (s.goTo i .ended) :=
  h.goTo nofun nofun nofun

theorem PasskeyInv.beginRegistration (h : PasskeyInv s) {rng : Bytes} :
    PasskeyInv (s.beginRegistration i a rng) := by
  rw [WebauthnPasskey.beginRegistration]
  split
  · exact h.goTo nofun nofun nofun
  · exact h.ended

theorem PasskeyInv.storeRegistration (h : PasskeyInv s) {st : lib.PasskeyRegistration} :
    PasskeyInv (s.storeRegistration i a st) :=
  have hended : PasskeyInv (s.goTo i .ended) := h.ended
  hended.record (e := .registrationStored a st) (h.registrations.put rfl)
    (h.authentications.other rfl) (fun a' => (h.credentials a').append)
    (fun a' st' hst => (h.stored a' st' hst).append) nofun nofun

theorem PasskeyInv.takeRegistration (h : PasskeyInv s) {resp : PasskeyResponse} :
    PasskeyInv (s.takeRegistration i a resp) := by
  have hgo : PasskeyInv { s with calls := (s.takeRegistration i a resp).calls } := by
    rw [WebauthnPasskey.takeRegistration]
    split
    · refine h.goTo (fun a' st' hst => ?_) (fun a' resp' st' hst => ?_) (fun a' resp' hst => ?_)
      all_goals cases hst
    · exact h.ended
  refine hgo.record (e := .registrationTaken a (s.registrationState a))
    (h.registrations.take rfl) (h.authentications.other rfl) (fun a' => (h.credentials a').append)
    (fun a' st' hst => (h.stored a' st' hst).append) (fun a' resp' found he => ?_)
    (fun a' resp' result he => ?_)
  all_goals cases he

theorem PasskeyInv.storePasskey (h : PasskeyInv s) {resp : PasskeyResponse}
    {st : lib.PasskeyRegistration} : PasskeyInv (s.storePasskey i a resp st) := by
  rw [WebauthnPasskey.storePasskey]
  split
  · rename_i passkey _
    have hended : PasskeyInv (s.goTo i .ended) := h.ended
    refine hended.record (e := .registered a passkey) (h.registrations.other rfl)
      (h.authentications.other rfl) (fun a' p hp => ?_)
      (fun a' st' hst => (h.stored a' st' hst).append) nofun nofun
    split_ifs at hp with ha
    · subst ha
      rcases List.mem_append.mp hp with hp | hp
      · exact List.mem_append_left _ (h.credentials a' p hp)
      · rw [List.mem_singleton.mp hp]
        exact List.mem_append_right _ (List.mem_singleton_self _)
    · exact List.mem_append_left _ (h.credentials a' p hp)
  · exact h.ended

/-- A ceremony is started from the passkeys of the account. -/
theorem PasskeyInv.beginAuthentication (hlib : lib.Documented) (h : PasskeyInv s) {rng : Bytes} :
    PasskeyInv (s.beginAuthentication i a rng) := by
  rw [WebauthnPasskey.beginAuthentication]
  split
  · rename_i options st hbegin
    refine h.goTo (fun a' st' hst => ?_) nofun nofun
    cases hst
    rw [Idp.beginAuthentication, guard_eq_ok_iff] at hbegin
    rw [hlib.keeps _ _ _ _ (orVerification_eq_ok_iff.mp hbegin.2)]
    exact h.credentials a
  · exact h.ended

theorem PasskeyInv.storeAuthentication (h : PasskeyInv s) {st : lib.PasskeyAuthentication}
    (hstage : s.calls i = .authenticating a st) : PasskeyInv (s.storeAuthentication i a st) := by
  have hended : PasskeyInv (s.goTo i .ended) := h.ended
  refine hended.record (e := .authenticationStored a st) (h.registrations.other rfl)
    (h.authentications.put rfl) (fun a' => (h.credentials a').append) (fun a' st' hst => ?_)
    nofun nofun
  split_ifs at hst with ha
  · cases hst
    subst ha
    exact (h.authenticating i a' st hstage).append
  · exact (h.stored a' st' hst).append

theorem PasskeyInv.matchAccount (h : PasskeyInv s) {resp : PasskeyResponse} {order : List Str} :
    PasskeyInv (s.matchAccount i resp order) := by
  rw [WebauthnPasskey.matchAccount]
  split
  · rename_i accountId hmatched
    refine h.goTo nofun nofun fun a' resp' hstage => ?_
    cases hstage
    have hany := List.find?_some hmatched
    obtain ⟨p, hp, hmatch⟩ := List.any_eq_true.mp hany
    exact ⟨p, h.credentials accountId p hp, hmatch⟩
  · exact h.ended

theorem PasskeyInv.takeAuthentication (h : PasskeyInv s) {resp : PasskeyResponse}
    (hstage : s.calls i = .matched a resp) : PasskeyInv (s.takeAuthentication i a resp) := by
  have hgo : PasskeyInv { s with calls := (s.takeAuthentication i a resp).calls } := by
    rw [WebauthnPasskey.takeAuthentication]
    split
    · rename_i st hfound
      refine h.goTo (fun a' st' hst => ?_) (fun a' resp' st' hst => ?_) (fun a' resp' hst => ?_)
      · cases hst
      · cases hst
        exact h.stored a st hfound
      · cases hst
    · exact h.ended
  refine hgo.record
    (e := .authenticationTaken a resp (s.authenticationState a)) (h.registrations.other rfl)
    (h.authentications.take rfl) (fun a' => (h.credentials a').append) (fun a' st' hst => ?_)
    (fun a' resp' found he => ?_) (fun a' resp' result he => ?_)
  · split_ifs at hst
    exact (h.stored a' st' hst).append
  · cases he
    exact h.matched i a resp hstage
  · cases he

theorem endAuthentication_eq_ok_iff {resp : PasskeyResponse} {st : lib.PasskeyAuthentication}
    {result : AuthenticationResult} :
    endAuthentication lib resp st = .ok result ↔ ∃ cred, lib.credential resp.value = .ok cred ∧
      lib.finishAuthentication cred st = .ok result := by
  simp only [endAuthentication, bind_eq_ok_iff, orResponse_eq_ok_iff, orVerification_eq_ok_iff]

theorem PasskeyInv.answerAuthentication (hlib : lib.Documented) (h : PasskeyInv s)
    {resp : PasskeyResponse} {st : lib.PasskeyAuthentication}
    (hstage : s.calls i = .asserted a resp st) (hadmitted : UpToDate s.log resp st) :
    PasskeyInv (s.answerAuthentication i a resp st) := by
  have hended : PasskeyInv (s.goTo i .ended) := h.ended
  refine hended.record (e := .answered a resp (endAuthentication lib resp st))
    (h.registrations.other rfl) (h.authentications.other rfl)
    (fun a' => (h.credentials a').append) (fun a' st' hst => (h.stored a' st' hst).append)
    nofun fun a' resp' result he => ?_
  injection he with ha hresp hresult
  subst ha
  obtain ⟨cred, hcred, hfinish⟩ := endAuthentication_eq_ok_iff.mp hresult
  obtain ⟨hid, hcounter, p, hp, hpid, habove⟩ := hlib.checks cred st result hfinish
  refine ⟨⟨p, h.asserted i a resp st hstage p hp, hpid⟩,
    fun a'' resp'' r hr hrid hr0 hresult0 => ?_⟩
  -- a counter that was reached already would be one the passkey holds
  by_contra hreached
  have hle : lib.assertedCounter cred ≤ r.counter := hcounter ▸ Nat.not_lt.mp hreached
  have hheld := hadmitted cred hcred a'' resp'' r hr (hrid.trans hid) hr0 hle p hp
    (hpid.trans hrid.symm)
  rw [← hcounter] at hheld
  exact absurd (habove hresult0) (Nat.not_lt.mpr hheld)

theorem PasskeyInv.step (hlib : lib.Documented) (h : PasskeyInv s)
    (hstep : PasskeyStep UpToDate s s') : PasskeyInv s' := by
  cases hstep with
  | beginRegistration i a rng idle => exact h.beginRegistration
  | storeRegistration i a st stage => exact h.storeRegistration
  | takeRegistration i a resp idle => exact h.takeRegistration
  | storePasskey i a resp st stage => exact h.storePasskey
  | beginAuthentication i a rng idle => exact h.beginAuthentication hlib
  | storeAuthentication i a st stage => exact h.storeAuthentication stage
  | matchAccount i resp order idle => exact h.matchAccount
  | takeAuthentication i a resp stage => exact h.takeAuthentication stage
  | answerAuthentication i a resp st stage admitted =>
      exact h.answerAuthentication hlib stage admitted

end Steps

/-- A run in which no counter comes again that the passkeys do not know of is safe. -/
theorem ceremoniesSafe_of_run [DecidableEq ι] (lib : WebauthnLibrary) (hlib : lib.Documented)
    (s : WebauthnPasskey lib ι)
    (hrun : Relation.ReflTransGen (PasskeyStep UpToDate) WebauthnPasskey.start s) :
    CeremoniesSafe s.log := by
  have hinv : PasskeyInv s := by
    induction hrun with
    | refl => exact .start
    | tail _ hstep ih => exact ih.step hlib hstep
  exact hinv.safe

end Safety

/-! ## One passkey, used twice -/

/-- A library that reads the counter off the response and knows one credential. -/
def sampleWebauthn : WebauthnLibrary where
  Passkey := Bytes × Nat
  PasskeyRegistration := Unit
  PasskeyAuthentication := List (Bytes × Nat)
  RegisterPublicKeyCredential := Bytes × Nat
  PublicKeyCredential := Bytes × Nat
  sha256 b := b
  credId := Prod.fst
  counter := Prod.snd
  started st := st
  assertedId := Prod.fst
  assertedCounter := Prod.snd
  startRegistration _ _ _ _ _ := .ok (.ok .null, ())
  finishRegistration reg _ := .ok reg
  startAuthentication creds _ := .ok (.ok .null, creds)
  finishAuthentication cred st :=
    if st.any fun p => p.1 = cred.1 ∧ (cred.2 = 0 ∨ p.2 < cred.2) then .ok ⟨cred.1, cred.2⟩
    else .error "CredentialPossibleCompromise"
  registerCredential _ := .ok ([1], 0)
  credential v := .ok ([1], match v with
    | .object m =>
      match Json.member "counter" m with
      | some (.number (.posInt n)) => n.toNat
      | _ => 0
    | _ => 0)

theorem sampleWebauthn_documented : sampleWebauthn.Documented where
  keeps creds rng options st h := by
    cases h
    rfl
  checks cred st result h := by
    simp only [sampleWebauthn] at h
    split_ifs at h with hany
    cases h
    obtain ⟨p, hp, hmatch⟩ := List.any_eq_true.mp hany
    obtain ⟨hid, hcounter⟩ := of_decide_eq_true hmatch
    exact ⟨rfl, rfl, p, hp, hid, fun hne => hcounter.resolve_left hne⟩

def sampleResponse (counter : UInt64) : PasskeyResponse :=
  ⟨"AQ", .object [("counter", .number (.posInt counter))]⟩

def samplePasskeys : sampleWebauthn.PasskeyAuthentication := [([1], 0)]

/-- The passkey was registered with the counter at zero. -/
def sampleRegistered : WebauthnPasskey sampleWebauthn Nat :=
  (((WebauthnPasskey.start.beginRegistration 0 "alice" []).storeRegistration 0 "alice"
    ()).takeRegistration 1 "alice" (sampleResponse 0)).storePasskey 1 "alice" (sampleResponse 0) ()

/-- A ceremony with two calls, up to the answer. -/
def sampleTaken (s : WebauthnPasskey sampleWebauthn Nat) (i : Nat) (counter : UInt64) :
    WebauthnPasskey sampleWebauthn Nat :=
  (((s.beginAuthentication i "alice" []).storeAuthentication i "alice" samplePasskeys).matchAccount
    (i + 1) (sampleResponse counter) ["alice"]).takeAuthentication (i + 1) "alice"
      (sampleResponse counter)

def sampleAnswered (s : WebauthnPasskey sampleWebauthn Nat) (i : Nat) (counter : UInt64) :
    WebauthnPasskey sampleWebauthn Nat :=
  (sampleTaken s i counter).answerAuthentication (i + 1) "alice" (sampleResponse counter)
    samplePasskeys

def sampleOnce : WebauthnPasskey sampleWebauthn Nat := sampleAnswered sampleRegistered 2 5

def sampleTwice : WebauthnPasskey sampleWebauthn Nat := sampleAnswered sampleOnce 4 5

section Reach

variable {Admits : List (PasskeyEvent sampleWebauthn) → PasskeyResponse →
  sampleWebauthn.PasskeyAuthentication → Prop}

theorem reaches_sampleRegistered :
    Relation.ReflTransGen (PasskeyStep Admits) WebauthnPasskey.start sampleRegistered :=
  (((Relation.ReflTransGen.single (.beginRegistration 0 "alice" [] rfl)).tail
    (.storeRegistration 0 "alice" () rfl)).tail
      (.takeRegistration 1 "alice" (sampleResponse 0) rfl)).tail
        (.storePasskey 1 "alice" (sampleResponse 0) () rfl)

theorem reaches_sampleOnce
    (h : Admits (sampleTaken sampleRegistered 2 5).log (sampleResponse 5) samplePasskeys) :
    Relation.ReflTransGen (PasskeyStep Admits) WebauthnPasskey.start sampleOnce :=
  ((((reaches_sampleRegistered.tail (.beginAuthentication 2 "alice" [] rfl)).tail
    (.storeAuthentication 2 "alice" samplePasskeys rfl)).tail
      (.matchAccount 3 (sampleResponse 5) ["alice"] rfl)).tail
        (.takeAuthentication 3 "alice" (sampleResponse 5) rfl)).tail
          (.answerAuthentication 3 "alice" (sampleResponse 5) samplePasskeys rfl h)

end Reach

theorem ceremoniesSafe_sampleOnce : sampleOnce.log.length = 6 ∧ CeremoniesSafe sampleOnce.log := by
  refine ⟨rfl, ceremoniesSafe_of_run sampleWebauthn sampleWebauthn_documented sampleOnce
    (reaches_sampleOnce fun cred _ a resp' r hmem => ?_)⟩
  have hlog : (sampleTaken sampleRegistered 2 5).log =
      [.registrationStored "alice" (), .registrationTaken "alice" (some ()),
        .registered "alice" ([1], 0), .authenticationStored "alice" samplePasskeys,
        .authenticationTaken "alice" (sampleResponse 5) (some samplePasskeys)] := rfl
  simp [hlog] at hmem

/-- The same assertion counter is accepted twice, since the passkey was not updated. -/
theorem not_ceremoniesSafe_sampleTwice :
    sampleWebauthn.Documented ∧
      Relation.ReflTransGen (PasskeyStep fun _ _ _ => True) WebauthnPasskey.start sampleTwice ∧
        ¬ CeremoniesSafe sampleTwice.log := by
  have hreach : Relation.ReflTransGen (PasskeyStep fun _ _ _ => True) WebauthnPasskey.start
      sampleTwice :=
    (((((reaches_sampleOnce trivial).tail (.beginAuthentication 4 "alice" [] rfl)).tail
      (.storeAuthentication 4 "alice" samplePasskeys rfl)).tail
        (.matchAccount 5 (sampleResponse 5) ["alice"] rfl)).tail
          (.takeAuthentication 5 "alice" (sampleResponse 5) rfl)).tail
            (.answerAuthentication 5 "alice" (sampleResponse 5) samplePasskeys rfl trivial)
  refine ⟨sampleWebauthn_documented, hreach, fun h => ?_⟩
  have hfirst : sampleTwice.log[5]? =
      some (.answered "alice" (sampleResponse 5) (.ok ⟨[1], 5⟩)) := rfl
  have hsecond : sampleTwice.log[8]? =
      some (.answered "alice" (sampleResponse 5) (.ok ⟨[1], 5⟩)) := rfl
  have hlt := h.increasing 5 8 _ _ _ _ _ _ (by decide) hfirst hsecond rfl (by decide) (by decide)
  exact absurd hlt (by decide)

end Idp

end SolidPod
