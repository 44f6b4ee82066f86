import Mathlib.Logic.Relation
import SolidPod.Foundation.OneTime
import SolidPod.Idp.Provider
import SolidPod.Idp.Usability

/-!
# The code flow under any interleaving

Calls of `authorize` and `token` run at the same time: one step of a call runs up to
the next point where it waits, and between two of its steps the others may take
theirs, time may pass and clients may be registered. The codes are one-time entries,
so that what a call has checked is what its token says.
-/

namespace SolidPod

open Foundation Str Fallible Oidc OneTime

namespace Idp

/-- Where a call is. -/
inductive Stage where
  | idle
  | looked (req : AuthorizeRequest) (found : Except RegError (Option ClientDocument))
  | redeemed (req : TokenRequest) (jkt : Str) (code : AuthCodeRecord)
  | ended

/-- What has happened: a client was looked up in the store, a code was issued, a call
with a good proof asked for its code, a token was minted. -/
inductive FlowEvent (ι : Type*) where
  | looked (i : ι) (req : AuthorizeRequest) (clients : ClientStore)
      (found : Except RegError (Option ClientDocument))
  | issued (i : ι) (req : AuthorizeRequest) (client : ClientDocument) (code : AuthCodeRecord)
  | named (i : ι) (req : TokenRequest) (jkt : Str) (at' : Nat) (answer : Option AuthCodeRecord)
  | minted (i : ι) (req : TokenRequest) (jkt : Str) (code : AuthCodeRecord) (token : AccessToken)

/-- The codes in the history. -/
def FlowEvent.use {ι : Type*} : FlowEvent ι → Option (Use Str AuthCodeRecord)
  | .issued _ _ _ code => some (.issue code.code code)
  | .named _ req _ _ answer => some (.ask req.code answer)
  | .looked _ _ _ _ | .minted _ _ _ _ _ => none

/-- The newest event comes first. -/
structure Flow (ι : Type*) where
  now : Nat
  clients : ClientStore
  sessions : SessionStore
  calls : ι → Stage
  history : List (FlowEvent ι)

def Flow.start {ι : Type*} (clients : ClientStore) (codeTtl : Nat) : Flow ι :=
  ⟨0, clients, SessionStore.empty codeTtl, fun _ => .idle, []⟩

section Steps

variable {ι : Type*} [DecidableEq ι] (jwt : JsonWebToken) (lib : IdpLibrary)
  (config : ProviderConfig)

def Flow.goTo (s : Flow ι) (i : ι) (stage : Stage) : Flow ι :=
  { s with calls := fun j => if j = i then stage else s.calls j }

/-- The first step of `authorize`. -/
def Flow.look (s : Flow ι) (i : ι) (req : AuthorizeRequest) (fetch : Str → Except RegError Json)
    (nowSecs : UInt64) : Flow ι :=
  let result := s.clients.find fetch s.now nowSecs req.clientId
  { s.goTo i (.looked req result.1) with
    clients := result.2
    history := .looked i req s.clients result.1 :: s.history }

/-- The second step of `authorize`. -/
def Flow.issue (s : Flow ι) (i : ι) (req : AuthorizeRequest)
    (found : Except RegError (Option ClientDocument)) (drawn : Str) : Flow ι :=
  { s.goTo i .ended with
    sessions := (authorize config req found drawn s.now s.sessions).2
    history := match authorizeCode req found drawn s.now with
      | .ok (some (client, code)) => .issued i req client code :: s.history
      | _ => s.history }

/-- The first step of `token`. -/
def Flow.name (s : Flow ι) (i : ι) (req : TokenRequest) : Flow ι :=
  let result := redeem jwt lib config req s.now s.sessions
  { s.goTo i (match result.1 with
      | .ok (jkt, code) => .redeemed req jkt code
      | .error _ => .ended) with
    sessions := result.2
    history := match checkGrant jwt config req with
      | .ok jkt => .named i req jkt s.now (s.sessions.takeCode req.code s.now).1 :: s.history
      | .error _ => s.history }

/-- The second step of `token`, which answers or panics. -/
def Flow.mint {lib : IdpLibrary} (s : Flow ι) (i : ι) (req : TokenRequest) (jkt : Str)
    (code : AuthCodeRecord) (overflowChecks : Bool) (jwks : Jwks lib) (users : UserStore)
    (jti : Str) : Flow ι :=
  { s.goTo i .ended with
    history := match account (users.findById code.accountId) with
      | .error _ => s.history
      | .ok user =>
        match Idp.mint overflowChecks config jwks jkt code user jti req.nowUnix with
        | some (.ok (token, _)) => .minted i req jkt code token :: s.history
        | _ => s.history }

/-- One step. Codes are drawn that were not drawn before; accounts and keys may change
at any time. -/
inductive Step (s : Flow ι) : Flow ι → Prop where
  | wait (d : Nat) : Step s { s with now := s.now + d }
  | register (client : ClientDocument) : Step s { s with clients := s.clients.insert client }
  | look (i : ι) (req : AuthorizeRequest) (fetch : Str → Except RegError Json) (nowSecs : UInt64)
      (idle : s.calls i = .idle) : Step s (s.look i req fetch nowSecs)
  | issue (i : ι) (req : AuthorizeRequest) (found : Except RegError (Option ClientDocument))
      (drawn : Str) (stage : s.calls i = .looked req found)
      (fresh : ¬ Issued FlowEvent.use s.history drawn) : Step s (s.issue config i req found drawn)
  | name (i : ι) (req : TokenRequest) (idle : s.calls i = .idle) :
      Step s (s.name jwt lib config i req)
  | mint (i : ι) (req : TokenRequest) (jkt : Str) (code : AuthCodeRecord) (overflowChecks : Bool)
      (jwks : Jwks lib) (users : UserStore) (jti : Str) (finds : users.Finds)
      (stage : s.calls i = .redeemed req jkt code) :
      Step s (s.mint config i req jkt code overflowChecks jwks users jti)

/-! ## What has to hold -/

/-- A code was issued to a client with the redirect URI registered, for the account that
was logged in. -/
structure IssuedRightly (history : List (FlowEvent ι)) (i : ι) (req : AuthorizeRequest)
    (client : ClientDocument) (code : AuthCodeRecord) : Prop where
  looked : ∃ clients fetch now nowSecs, .looked i req clients (.ok (some client)) ∈ history ∧
    (clients.find fetch now nowSecs req.clientId).1 = .ok (some client)
  clientId : code.clientId = req.clientId
  redirectUri : code.redirectUri = req.redirectUri
  registered : req.redirectUri ∈ client.redirectUris
  account : req.sessionAccountId = some code.accountId
  challenge : req.codeChallenge = code.codeChallenge ∧ code.codeChallenge ≠ none

/-- A token was minted for what its code was issued for, and for the key of the call that
named the code in time. -/
structure MintedRightly (codeTtl : Nat) (history : List (FlowEvent ι)) (i : ι)
    (req : TokenRequest) (jkt : Str) (code : AuthCodeRecord) (token : AccessToken) : Prop where
  first : ∀ j req' jkt' code' token', .minted j req' jkt' code' token' ∈ history →
    code'.code ≠ code.code
  issued : ∃ j areq client, .issued j areq client code ∈ history ∧
    IssuedRightly history j areq client code
  named : code.code = req.code ∧ ∃ at', .named i req jkt at' (some code) ∈ history ∧
    at' - code.issuedAt ≤ codeTtl
  account : token.payload.sub = code.accountId
  client : token.payload.clientId = code.clientId ∧ req.clientId = code.clientId
  redirectUri : req.redirectUri = code.redirectUri
  verifier : ∃ verifier, req.codeVerifier = some verifier ∧
    code.codeChallenge = some (pkceS256 lib verifier)
  bound : ∃ proof v, req.dpopProof = some proof ∧
    checkProof jwt config proof req.nowUnix = .ok v ∧ token.payload.cnf = some ⟨v.jkt⟩

/-- Every token was minted rightly, and a code that was named is not good again. -/
structure FlowSafe (codeTtl : Nat) (s : Flow ι) : Prop where
  minted : ∀ {i req jkt code token pre},
    (.minted i req jkt code token :: pre) <:+ s.history →
      MintedRightly jwt lib config codeTtl pre i req jkt code token
  once : ∀ {e pre code answer}, (e :: pre) <:+ s.history → Spent FlowEvent.use pre code →
    ¬ Yields FlowEvent.use e code answer

/-! ## The invariant -/

/-- What holds of the state of one call. -/
def StageRight (s : Flow ι) (i : ι) : Stage → Prop
  | .looked req found => ∃ clients fetch now nowSecs, .looked i req clients found ∈ s.history ∧
      found = (clients.find fetch now nowSecs req.clientId).1
  | .redeemed req jkt code => (∃ at', .named i req jkt at' (some code) ∈ s.history) ∧
      checkCode lib req code = .ok ()
  | _ => True

structure FlowInv (s : Flow ι) : Prop where
  tickets : Consistent FlowEvent.use s.sessions.codes s.history
  stages : ∀ i, StageRight lib s i (s.calls i)
  issued : ∀ {i req client code}, .issued i req client code ∈ s.history →
    IssuedRightly s.history i req client code
  named : ∀ {i req jkt at' code}, .named i req jkt at' (some code) ∈ s.history →
    checkGrant jwt config req = .ok jkt ∧ code.code = req.code ∧
      at' - code.issuedAt ≤ s.sessions.codeTtl ∧
        ∃ j areq client, .issued j areq client code ∈ s.history
  ended : ∀ {i req jkt code token}, .minted i req jkt code token ∈ s.history →
    s.calls i = .ended ∧ ∃ at', .named i req jkt at' (some code) ∈ s.history
  minted : ∀ {i req jkt code token pre}, (.minted i req jkt code token :: pre) <:+ s.history →
    MintedRightly jwt lib config s.sessions.codeTtl pre i req jkt code token

variable {jwt lib config}

omit [DecidableEq ι] in
theorem IssuedRightly.mono {history history' : List (FlowEvent ι)} {i : ι}
    {req : AuthorizeRequest} {client : ClientDocument} {code : AuthCodeRecord}
    (h : IssuedRightly history i req client code) (hsub : history ⊆ history') :
    IssuedRightly history' i req client code := by
  obtain ⟨clients, fetch, now, nowSecs, hmem, hfind⟩ := h.looked
  exact { h with looked := ⟨clients, fetch, now, nowSecs, hsub hmem, hfind⟩ }

omit [DecidableEq ι] in
theorem StageRight.mono {s s' : Flow ι} {i : ι} {stage : Stage} (h : StageRight lib s i stage)
    (hsub : s.history ⊆ s'.history) : StageRight lib s' i stage := by
  cases stage with
  | looked req found =>
      obtain ⟨clients, fetch, now, nowSecs, hmem, hfind⟩ := h
      exact ⟨clients, fetch, now, nowSecs, hsub hmem, hfind⟩
  | redeemed req jkt code =>
      obtain ⟨⟨at', hmem⟩, hcheck⟩ := h
      exact ⟨⟨at', hsub hmem⟩, hcheck⟩
  | idle => trivial
  | ended => trivial

/-- What an event has to be when it happens in a state, by a call that is ended then if
it is a minting. -/
def EventRight (jwt : JsonWebToken) (lib : IdpLibrary) (config : ProviderConfig) (s : Flow ι)
    (i : ι) (stage : Stage) : FlowEvent ι → Prop
  | .looked _ _ _ _ => True
  | .issued j req client code => IssuedRightly s.history j req client code
  | .named _ req jkt at' answer => ∀ code, answer = some code →
      checkGrant jwt config req = .ok jkt ∧ code.code = req.code ∧
        at' - code.issuedAt ≤ s.sessions.codeTtl ∧
          ∃ j areq client, .issued j areq client code ∈ s.history
  | .minted j req jkt code token => j = i ∧ stage = .ended ∧
      (∃ at', .named i req jkt at' (some code) ∈ s.history) ∧
        MintedRightly jwt lib config s.sessions.codeTtl s.history i req jkt code token

/-- A step of a call that is not ended adds at most one event. -/
theorem FlowInv.extend {s s' : Flow ι} (h : FlowInv jwt lib config s) (i : ι)
    (event : Option (FlowEvent ι)) (hhistory : s'.history = event.toList ++ s.history)
    (htickets : Consistent FlowEvent.use s'.sessions.codes s'.history)
    (httl : s'.sessions.codeTtl = s.sessions.codeTtl) (hlive : s.calls i ≠ .ended)
    (hothers : ∀ j, j ≠ i → s'.calls j = s.calls j) (hstage : StageRight lib s' i (s'.calls i))
    (hevent : ∀ e, event = some e → EventRight jwt lib config s i (s'.calls i) e) :
    FlowInv jwt lib config s' := by
  have hsub : s.history ⊆ s'.history := by
    rw [hhistory]
    exact List.subset_append_right _ _
  have hcases : ∀ e, e ∈ s'.history → e ∈ s.history ∨ event = some e := by
    intro e he
    rw [hhistory] at he
    rcases List.mem_append.mp he with he | he
    · exact Or.inr (by simpa using he)
    · exact Or.inl he
  refine ⟨htickets, ?_, ?_, ?_, ?_, ?_⟩
  · intro j
    by_cases hj : j = i
    · rw [hj]
      exact hstage
    · rw [hothers j hj]
      exact (h.stages j).mono hsub
  · intro j req client code hmem
    rcases hcases _ hmem with hold | hnew
    · exact (h.issued hold).mono hsub
    · have hright : IssuedRightly s.history j req client code := hevent _ hnew
      exact hright.mono hsub
  · intro j req jkt at' code hmem
    have hold : checkGrant jwt config req = .ok jkt ∧ code.code = req.code ∧
        at' - code.issuedAt ≤ s.sessions.codeTtl ∧
          ∃ k areq client, .issued k areq client code ∈ s.history := by
      rcases hcases _ hmem with hold | hnew
      · exact h.named hold
      · exact hevent _ hnew code rfl
    obtain ⟨hgrant, hcode, hage, k, areq, client, hissued⟩ := hold
    rw [httl]
    exact ⟨hgrant, hcode, hage, k, areq, client, hsub hissued⟩
  · intro j req jkt code token hmem
    rcases hcases _ hmem with hold | hnew
    · obtain ⟨hended, at', hnamed⟩ := h.ended hold
      have hne : j ≠ i := by
        rintro rfl
        exact hlive hended
      exact ⟨(hothers j hne).trans hended, at', hsub hnamed⟩
    · obtain ⟨rfl, hended, ⟨at', hnamed⟩, -⟩ := hevent _ hnew
      exact ⟨hended, at', hsub hnamed⟩
  · intro j req jkt code token pre hsuffix
    rw [httl]
    rw [hhistory] at hsuffix
    cases event with
    | none => exact h.minted hsuffix
    | some e =>
        rcases List.suffix_cons_iff.mp hsuffix with heq | hold
        · obtain ⟨rfl, rfl⟩ := List.cons.inj heq
          obtain ⟨rfl, -, -, hright⟩ := hevent _ rfl
          exact hright
        · exact h.minted hold

/-- A step that ends a call and does nothing else. -/
theorem FlowInv.quit {s s' : Flow ι} (h : FlowInv jwt lib config s) (i : ι)
    (hhistory : s'.history = s.history) (hsessions : s'.sessions = s.sessions)
    (hlive : s.calls i ≠ .ended) (hothers : ∀ j, j ≠ i → s'.calls j = s.calls j)
    (hended : s'.calls i = .ended) : FlowInv jwt lib config s' := by
  refine h.extend i none hhistory ?_ ?_ hlive hothers ?_ ?_
  · rw [hsessions, hhistory]
    exact h.tickets
  · rw [hsessions]
  · rw [hended]
    trivial
  · intro e he
    cases he

theorem FlowInv.look {s : Flow ι} (h : FlowInv jwt lib config s) {i : ι} {req : AuthorizeRequest}
    {fetch : Str → Except RegError Json} {nowSecs : UInt64} (hidle : s.calls i = .idle) :
    FlowInv jwt lib config (s.look i req fetch nowSecs) := by
  refine h.extend i (some _) rfl (h.tickets.other rfl) rfl ?_ ?_ ?_ ?_
  · rw [hidle]
    nofun
  · intro j hj
    exact if_neg hj
  · have hcalls : (s.look i req fetch nowSecs).calls i =
        .looked req (s.clients.find fetch s.now nowSecs req.clientId).1 := if_pos rfl
    rw [hcalls]
    exact ⟨s.clients, fetch, s.now, nowSecs, List.mem_cons_self, rfl⟩
  · rintro e ⟨⟩
    trivial

/-- Without a code, `authorize` only ends. -/
theorem FlowInv.issue_nothing {s : Flow ι} (h : FlowInv jwt lib config s) {i : ι}
    {req : AuthorizeRequest} {found : Except RegError (Option ClientDocument)} {drawn : Str}
    (hlive : s.calls i ≠ .ended)
    (hsessions : (authorize config req found drawn s.now s.sessions).2 = s.sessions)
    (hhistory : (s.issue config i req found drawn).history = s.history) :
    FlowInv jwt lib config (s.issue config i req found drawn) :=
  h.quit i hhistory hsessions hlive (fun _ hj => if_neg hj) (if_pos rfl)

theorem FlowInv.issue {s : Flow ι} (h : FlowInv jwt lib config s) {i : ι}
    {req : AuthorizeRequest} {found : Except RegError (Option ClientDocument)} {drawn : Str}
    (hstage : s.calls i = .looked req found)
    (hfresh : ¬ Issued FlowEvent.use s.history drawn) :
    FlowInv jwt lib config (s.issue config i req found drawn) := by
  have hlive : s.calls i ≠ .ended := by
    rw [hstage]
    nofun
  have hright := h.stages i
  rw [hstage] at hright
  obtain ⟨clients, fetch, now, nowSecs, hlooked, hfind⟩ := hright
  cases hcode : authorizeCode req found drawn s.now with
  | error e =>
      apply h.issue_nothing hlive
      · simp only [authorize, hcode]
      · simp only [Flow.issue, hcode]
  | ok answer =>
      cases answer with
      | none =>
          apply h.issue_nothing hlive
          · simp only [authorize, hcode]
          · simp only [Flow.issue, hcode]
      | some issued =>
          obtain ⟨client, code⟩ := issued
          have hsessions : (s.issue config i req found drawn).sessions =
              s.sessions.issueCode code := by
            simp only [Flow.issue, authorize, hcode]
          have hhistory : (s.issue config i req found drawn).history =
              .issued i req client code :: s.history := by
            simp only [Flow.issue, hcode]
          have hcalls : (s.issue config i req found drawn).calls i = .ended := if_pos rfl
          obtain ⟨rfl, hcheck, accountId, haccount, rfl⟩ :=
            authorizeCode_eq_ok_some_iff.mp hcode
          obtain ⟨-, hregistered, -, hchallenge⟩ := checkAuthorize_eq_ok_iff.mp hcheck
          refine h.extend i (some _) hhistory ?_ ?_ hlive (fun _ hj => if_neg hj) ?_ ?_
          · rw [hsessions, hhistory]
            exact h.tickets.issue rfl hfresh
          · rw [hsessions]
            rfl
          · rw [hcalls]
            trivial
          · rintro e ⟨⟩
            exact {
              looked := ⟨clients, fetch, now, nowSecs, hlooked, hfind.symm⟩
              clientId := ClientStore.clientId_of_find hfind.symm
              redirectUri := rfl
              registered := hregistered
              account := haccount
              challenge := ⟨rfl, hchallenge⟩ }

omit [DecidableEq ι] in
theorem eq_issued_of_use {e : FlowEvent ι} {c : Str} {code : AuthCodeRecord}
    (h : e.use = some (.issue c code)) :
    c = code.code ∧ ∃ j areq client, e = .issued j areq client code := by
  cases e with
  | issued j areq client code' =>
      cases h
      exact ⟨rfl, j, areq, client, rfl⟩
  | looked | named | minted => cases h

theorem FlowInv.name {s : Flow ι} (h : FlowInv jwt lib config s) {i : ι} {req : TokenRequest}
    (hidle : s.calls i = .idle) : FlowInv jwt lib config (s.name jwt lib config i req) := by
  have hlive : s.calls i ≠ .ended := by
    rw [hidle]
    nofun
  have hothers : ∀ j, j ≠ i → (s.name jwt lib config i req).calls j = s.calls j :=
    fun j hj => if_neg hj
  have hcalls : (s.name jwt lib config i req).calls i =
      match (redeem jwt lib config req s.now s.sessions).1 with
      | .ok (jkt, code) => .redeemed req jkt code
      | .error _ => .ended := if_pos rfl
  cases hgrant : checkGrant jwt config req with
  | error e =>
      have hsessions : (s.name jwt lib config i req).sessions = s.sessions := by
        simp only [Flow.name, redeem_snd, hgrant]
      have hhistory : (s.name jwt lib config i req).history = s.history := by
        simp only [Flow.name, hgrant]
      have hredeem : (redeem jwt lib config req s.now s.sessions).1 = .error e := by
        simp only [redeem, hgrant]
      refine h.quit i hhistory hsessions hlive hothers ?_
      rw [hcalls, hredeem]
  | ok jkt =>
      have hsessions : (s.name jwt lib config i req).sessions =
          (s.sessions.takeCode req.code s.now).2 := by
        simp only [Flow.name, redeem_snd, hgrant]
      have hhistory : (s.name jwt lib config i req).history =
          .named i req jkt s.now (s.sessions.takeCode req.code s.now).1 :: s.history := by
        simp only [Flow.name, hgrant]
      refine h.extend i (some _) hhistory ?_ ?_ hlive hothers ?_ ?_
      · rw [hsessions, hhistory]
        exact h.tickets.ask rfl fun code hcode => (takeCode_eq_some_iff.mp hcode).1
      · rw [hsessions]
        rfl
      · rw [hcalls]
        cases hredeem : (redeem jwt lib config req s.now s.sessions).1 with
        | error e => trivial
        | ok grant =>
            obtain ⟨jkt', code⟩ := grant
            obtain ⟨hgrant', htake, hcheck⟩ := redeem_eq_ok_iff.mp hredeem
            cases hgrant.symm.trans hgrant'
            refine ⟨⟨s.now, ?_⟩, hcheck⟩
            rw [hhistory, htake]
            exact List.mem_cons_self
      · rintro e ⟨⟩
        intro code hcode
        obtain ⟨hstored, hage⟩ := takeCode_eq_some_iff.mp hcode
        obtain ⟨e, hmem, huse⟩ := h.tickets.issued hstored
        obtain ⟨hkey, j, areq, client, rfl⟩ := eq_issued_of_use huse
        exact ⟨hgrant, hkey.symm, hage, j, areq, client, hmem⟩

omit [DecidableEq ι] in
/-- What a call mints after all its checks. -/
theorem FlowInv.mintedRightly {s : Flow ι} (h : FlowInv jwt lib config s) {i : ι}
    {req : TokenRequest} {jkt : Str} {code : AuthCodeRecord} {overflowChecks : Bool}
    {jwks : Jwks lib} {users : UserStore} {jti : Str} {user : User} {token : AccessToken}
    {response : TokenResponse} (hfinds : users.Finds) (hstage : s.calls i = .redeemed req jkt code)
    (huser : users.findById code.accountId = .ok (some user))
    (hmint : Idp.mint overflowChecks config jwks jkt code user jti req.nowUnix =
      some (.ok (token, response))) :
    MintedRightly jwt lib config s.sessions.codeTtl s.history i req jkt code token := by
  have hright := h.stages i
  rw [hstage] at hright
  obtain ⟨⟨at', hnamed⟩, hcheck⟩ := hright
  obtain ⟨hgrant, hcode, hage, j, areq, client, hissued⟩ := h.named hnamed
  have hissuedRightly := h.issued hissued
  obtain ⟨hclient, hredirect, hpkce⟩ := checkCode_eq_ok_iff.mp hcheck
  obtain ⟨-, proof, v, hproof, hverified, rfl⟩ := checkGrant_eq_ok_iff.mp hgrant
  obtain ⟨hissue, -⟩ := mint_eq_ok_iff.mp hmint
  obtain ⟨exp, -, hpayload, -⟩ := issueAccessToken_eq_ok_iff.mp hissue
  constructor
  · -- an earlier token for the code would come from this very call, which is not ended
    intro j' req' jkt' code' token' hminted heq
    obtain ⟨hended, at'', hnamed'⟩ := h.ended hminted
    have hcode' := (h.named hnamed').2.1
    have hyields : Yields FlowEvent.use (.named i req v.jkt at' (some code)) req.code code := rfl
    have hyields' :
        Yields FlowEvent.use (.named j' req' jkt' at'' (some code')) req.code code' := by
      rw [← hcode, ← heq, hcode']
      rfl
    cases h.tickets.eq_of_yields hnamed hnamed' hyields hyields'
    rw [hstage] at hended
    cases hended
  · exact ⟨j, areq, client, hissued, hissuedRightly⟩
  · exact ⟨hcode, at', hnamed, hage⟩
  · rw [hpayload]
    exact hfinds.id huser
  · rw [hpayload]
    exact ⟨rfl, hclient.symm⟩
  · exact hredirect.symm
  · obtain ⟨challenge, hchallenge⟩ :=
      Option.ne_none_iff_exists'.mp hissuedRightly.challenge.2
    obtain ⟨verifier, hverifier, hmatch⟩ := hpkce challenge hchallenge
    rw [← hmatch] at hchallenge
    exact ⟨verifier, hverifier, hchallenge⟩
  · rw [hpayload]
    exact ⟨proof, v, hproof, hverified, rfl⟩

theorem FlowInv.mint {s : Flow ι} (h : FlowInv jwt lib config s) {i : ι} {req : TokenRequest}
    {jkt : Str} {code : AuthCodeRecord} {overflowChecks : Bool} {jwks : Jwks lib}
    {users : UserStore} {jti : Str} (hfinds : users.Finds)
    (hstage : s.calls i = .redeemed req jkt code) :
    FlowInv jwt lib config (s.mint config i req jkt code overflowChecks jwks users jti) := by
  have hlive : s.calls i ≠ .ended := by
    rw [hstage]
    nofun
  have hothers : ∀ j, j ≠ i →
      (s.mint config i req jkt code overflowChecks jwks users jti).calls j = s.calls j :=
    fun j hj => if_neg hj
  have hcalls : (s.mint config i req jkt code overflowChecks jwks users jti).calls i = .ended :=
    if_pos rfl
  cases huser : account (users.findById code.accountId) with
  | error e => exact h.quit i (by simp only [Flow.mint, huser]) rfl hlive hothers hcalls
  | ok user =>
      cases hmint : Idp.mint overflowChecks config jwks jkt code user jti req.nowUnix with
      | none => exact h.quit i (by simp only [Flow.mint, huser, hmint]) rfl hlive hothers hcalls
      | some result =>
          cases result with
          | error e =>
              exact h.quit i (by simp only [Flow.mint, huser, hmint]) rfl hlive hothers hcalls
          | ok minted =>
              obtain ⟨token, response⟩ := minted
              have hhistory :
                  (s.mint config i req jkt code overflowChecks jwks users jti).history =
                    .minted i req jkt code token :: s.history := by
                simp only [Flow.mint, huser, hmint]
              have hright := h.mintedRightly hfinds hstage (account_eq_ok_iff.mp huser) hmint
              refine h.extend i (some _) hhistory ?_ rfl hlive hothers ?_ ?_
              · rw [hhistory]
                exact h.tickets.other rfl
              · rw [hcalls]
                trivial
              · rintro e ⟨⟩
                obtain ⟨-, at', hnamed, -⟩ := hright.named
                exact ⟨rfl, hcalls, ⟨at', hnamed⟩, hright⟩

theorem FlowInv.step {s s' : Flow ι} (h : FlowInv jwt lib config s)
    (hstep : Step jwt lib config s s') : FlowInv jwt lib config s' := by
  cases hstep with
  | wait d => exact ⟨h.tickets, h.stages, h.issued, h.named, h.ended, h.minted⟩
  | register client => exact ⟨h.tickets, h.stages, h.issued, h.named, h.ended, h.minted⟩
  | look i req fetch nowSecs idle => exact h.look idle
  | issue i req found drawn stage fresh => exact h.issue stage fresh
  | name i req idle => exact h.name idle
  | mint i req jkt code overflowChecks jwks users jti finds stage => exact h.mint finds stage

omit [DecidableEq ι] in
theorem flowInv_start (clients : ClientStore) (codeTtl : Nat) :
    FlowInv jwt lib config (Flow.start clients codeTtl : Flow ι) where
  tickets := Consistent.nil
  stages _ := trivial
  issued h := by cases h
  named h := by cases h
  ended h := by cases h
  minted h := by cases List.suffix_nil.mp h

theorem flowInv_of_run {clients : ClientStore} {codeTtl : Nat} {s : Flow ι}
    (hrun : Relation.ReflTransGen (Step jwt lib config) (Flow.start clients codeTtl) s) :
    FlowInv jwt lib config s := by
  induction hrun with
  | refl => exact flowInv_start clients codeTtl
  | tail _ hstep ih => exact ih.step hstep

theorem Step.codeTtl {s s' : Flow ι} (h : Step jwt lib config s s') :
    s'.sessions.codeTtl = s.sessions.codeTtl := by
  cases h with
  | issue i req found drawn =>
      simp only [Flow.issue, authorize]
      cases authorizeCode req found drawn s.now with
      | error e => rfl
      | ok answer =>
          cases answer with
          | none => rfl
          | some issued => rfl
  | name i req =>
      simp only [Flow.name, redeem_snd]
      cases checkGrant jwt config req with
      | error e => rfl
      | ok jkt => rfl
  | wait | register | look | mint => rfl

theorem codeTtl_of_run {clients : ClientStore} {codeTtl : Nat} {s : Flow ι}
    (hrun : Relation.ReflTransGen (Step jwt lib config) (Flow.start clients codeTtl) s) :
    s.sessions.codeTtl = codeTtl := by
  induction hrun with
  | refl => rfl
  | tail _ hstep ih => exact hstep.codeTtl.trans ih

/-- Whatever the calls do, in whatever order: every token was minted rightly, and no code
is good once it was named. -/
theorem flowSafe_of_run {clients : ClientStore} {codeTtl : Nat} {s : Flow ι}
    (hrun : Relation.ReflTransGen (Step jwt lib config) (Flow.start clients codeTtl) s) :
    FlowSafe jwt lib config codeTtl s where
  minted hsuffix := by
    rw [← codeTtl_of_run hrun]
    exact (flowInv_of_run hrun).minted hsuffix
  once hsuffix hspent := (flowInv_of_run hrun).tickets.once hsuffix hspent

end Steps

/-! ## One code and its token -/

def sampleClient : ClientDocument :=
  ⟨"credentials_client", none, 0, ["cb"], none, [], ["code"], "none", none, none, none⟩

def sampleAuthorize : AuthorizeRequest :=
  ⟨"credentials_client", "code", "cb", none, some [], some "S256", none, some "acct-1"⟩

def sampleToken : TokenRequest :=
  ⟨"authorization_code", "c", "cb", "credentials_client", some [], some [], 0⟩

def sampleCode : AuthCodeRecord :=
  ⟨"c", "credentials_client", "acct-1", "cb", some [], 0, none⟩

/-- Libraries that read every token as the same proof. -/
def sampleJwt : JsonWebToken where
  LibJwk := Unit
  DecodingKey := Unit
  decodeHeader _ := .ok ⟨some "dpop+jwt", .ES256, some ()⟩
  toValue _ := .ok .null
  jwkOfValue _ := .ok ⟨"EC", some [], some [], some [], none, none, none⟩
  libJwkOfValue _ := .ok ()
  decodingKey _ := .ok ()
  decode _ _ _ := .ok ⟨"https://pod/idp/token", "POST", 0, [], none⟩
  sha256Base64Url _ := "jkt"
  toVec _ := .ok []
  toUppercase s := s

def sampleLib : IdpLibrary := sampleLibrary "https://pod/" "https://me"

def samplePod : ProviderConfig := sampleConfig "https://pod/"

def sampleLooked : Flow Bool :=
  (Flow.start (ClientStore.empty.insert sampleClient) 600).look true sampleAuthorize
    (fun _ => .error (.fetch [])) 0

def sampleIssued : Flow Bool :=
  sampleLooked.issue samplePod true sampleAuthorize (.ok (some sampleClient)) "c"

def sampleNamed : Flow Bool := sampleIssued.name sampleJwt sampleLib samplePod false sampleToken

def sampleMinted : Flow Bool :=
  sampleNamed.mint samplePod false sampleToken "jkt" sampleCode true
    (sampleJwks "https://pod/" "https://me") (sampleUsers "https://me") "j"

theorem sampleMinted_safe : sampleMinted.history.length = 4 ∧
    FlowSafe sampleJwt sampleLib samplePod 600 sampleMinted := by
  have hlooked : Step sampleJwt sampleLib samplePod
      (Flow.start (ClientStore.empty.insert sampleClient) 600) sampleLooked :=
    .look true sampleAuthorize _ 0 rfl
  have hissued : Step sampleJwt sampleLib samplePod sampleLooked sampleIssued := by
    refine .issue true sampleAuthorize (.ok (some sampleClient)) "c" rfl ?_
    rintro ⟨e, hmem, v, huse⟩
    cases List.mem_singleton.mp hmem
    cases huse
  have hnamed : Step sampleJwt sampleLib samplePod sampleIssued sampleNamed :=
    .name false sampleToken rfl
  have hminted : Step sampleJwt sampleLib samplePod sampleNamed sampleMinted :=
    .mint false sampleToken "jkt" sampleCode true _ _ "j" (sampleUsers_finds "https://me") rfl
  exact ⟨by decide, flowSafe_of_run
    (.tail (.tail (.tail (.single hlooked) hissued) hnamed) hminted)⟩

end Idp

end SolidPod
