import SolidPod.Server.ReadMediation

/-!
# What the `WAC-Allow` header says

The header lists the modes of the agent and of the public. The response to a read
is given the header of no document at all, and a refusal the one of the effective
ACL with the dispatcher that knows no condition. The first tells the truth when
nothing is granted, the second when nothing is granted through a condition only.
-/

namespace SolidPod

namespace Server

open Foundation Str Wac Ldp

/-! ## Reading the header -/

def userKey : Str := "user=\""

def publicKey : Str := ", public=\""

/-- The words that the header lists for the user and for the public. -/
def readWacAllow (v : Str) : Option (List Str × List Str) := do
  let rest ← stripPrefix userKey v
  let (user, rest) ← splitOnce '"' rest
  let rest ← stripPrefix publicKey rest
  let (pub, _) ← splitOnce '"' rest
  return (user.splitOn ' ', pub.splitOn ' ')

/-- The text of a header with these lists. -/
def wacAllowText (user pub : Str) : Str :=
  userKey ++ (user ++ '"' :: (publicKey ++ (pub ++ ['"'])))

theorem readWacAllow_wacAllowText {user pub : Str} (huser : '"' ∉ user) (hpub : '"' ∉ pub) :
    readWacAllow (wacAllowText user pub) = some (user.splitOn ' ', pub.splitOn ' ') := by
  rw [readWacAllow, wacAllowText, stripPrefix_append]
  simp only [Option.bind_eq_bind, Option.bind_some]
  rw [splitOnce_append huser]
  simp only [Option.bind_some]
  rw [stripPrefix_append, Option.bind_some, splitOnce_append hpub]
  rfl

/-- The names of the modes that a predicate selects. -/
def modeNames (f : AccessMode → Bool) : List Str := (allModes.filter f).map modeName

theorem modeName_injective : Function.Injective modeName := by
  intro m n h
  cases m <;> cases n <;> first | rfl | exact absurd h (by decide)

theorem mem_modeNames_iff {f : AccessMode → Bool} {m : AccessMode} :
    modeName m ∈ modeNames f ↔ f m = true := by
  rw [modeNames, List.mem_map_of_injective modeName_injective, List.mem_filter]
  exact and_iff_right (by cases m <;> decide)

theorem forall_mem_modeNames {f : AccessMode → Bool} {P : Str → Prop} (h : ∀ m, P (modeName m)) :
    ∀ w ∈ modeNames f, P w := by
  intro w hw
  obtain ⟨m, -, rfl⟩ := List.mem_map.mp hw
  exact h m

theorem visible_join_modeNames {f : AccessMode → Bool} {c : Char}
    (h : c ∈ join " " (modeNames f)) : 0x20 ≤ c.toNat ∧ c.toNat < 0x7F ∧ c ≠ '"' := by
  rcases mem_join h with ⟨w, hw, hc⟩ | hc
  · refine forall_mem_modeNames (P := fun w => ∀ c ∈ w, 0x20 ≤ c.toNat ∧ c.toNat < 0x7F ∧ c ≠ '"')
      ?_ w hw c hc
    intro m
    cases m <;> decide
  · rw [List.mem_singleton.mp hc]
    decide

theorem mem_splitOn_join_modeNames {f : AccessMode → Bool} {m : AccessMode} :
    modeName m ∈ (join " " (modeNames f)).splitOn ' ' ↔ f m = true := by
  rw [← mem_modeNames_iff]
  cases hnames : modeNames f with
  | nil =>
      refine iff_of_false ?_ List.not_mem_nil
      cases m <;> decide
  | cons w ws =>
      have hspace : ∀ w ∈ modeNames f, ' ' ∉ w := by
        refine forall_mem_modeNames ?_
        intro m
        cases m <;> decide
      rw [hnames] at hspace
      have hsplit : (join " " (w :: ws)).splitOn ' ' = w :: ws :=
        List.splitOn_intercalate ' ' hspace (List.cons_ne_nil _ _)
      rw [hsplit]

theorem wacAllowHeader_eq (feature : OriginFeature) (acl : Option AclDocument)
    (agent : Option Str) (path : Str) :
    wacAllowHeader feature acl agent path = wacAllowText
      (join " " (modeNames fun m => evaluateAccess feature acl agent path m none))
      (join " " (modeNames fun m => evaluateAccess feature acl none path m none)) := by
  have hmiddle : ("\", public=\"" : Str) = '"' :: publicKey := by decide
  have hlast : ("\"" : Str) = ['"'] := by decide
  unfold wacAllowHeader wacAllowText userKey modeNames
  simp only [hmiddle, hlast, List.append_assoc, List.cons_append]

/-! ## The two decisions -/

/-- An authorisation without conditions grants the mode. -/
def GrantsPlainly (acl : Option AclDocument) (path : Str) (mode : AccessMode)
    (agent : Option Str) : Prop :=
  ∃ graph, acl = some ⟨some graph⟩ ∧ ∃ auth ∈ graph, auth.conditions = [] ∧
    (getModes auth).contains mode = true ∧
      agentMatchesWithGroups auth agent noGroupMembership = true ∧ pathOk auth path = true

/-- The gate that the document puts before the grants of its authorisations. -/
def passesOrigin (feature : OriginFeature) (doc : AclDocument) (mode : AccessMode) : Bool :=
  if mode == .control then true
  else if !feature.enabled then true
  else
    match checkOrigin feature.urlParse doc none with
    | .noPolicySet | .permitted => true
    | .rejectedMismatch | .rejectedNoOrigin => false

/-- The decision is that of the authorisations and that of the gate. -/
theorem evaluateAccessCtxInner_iff {feature : OriginFeature} {acl : Option AclDocument}
    {ctx : RequestContext} {path : Str} {mode : AccessMode} {groups : GroupMembership}
    {dispatcher : ConditionDispatcher} :
    evaluateAccessCtxInner feature acl ctx path mode none groups dispatcher = true ↔
      ∃ graph, acl = some ⟨some graph⟩ ∧
        (∃ auth ∈ graph, authGrants auth ctx path mode groups dispatcher = true) ∧
          passesOrigin feature ⟨some graph⟩ mode = true := by
  constructor
  · intro h
    rcases acl with - | ⟨- | graph⟩
    · cases h
    · cases h
    · refine ⟨graph, rfl, exists_authGrants h, ?_⟩
      rw [evaluateAccessCtxInner] at h
      simp only at h
      split at h
      · cases h
      · exact h
  · rintro ⟨graph, rfl, ⟨auth, hmem, hauth⟩, hpasses⟩
    have hany : (graph.any fun auth => authGrants auth ctx path mode groups dispatcher) = true :=
      List.any_eq_true.mpr ⟨auth, hmem, hauth⟩
    rw [evaluateAccessCtxInner]
    simp only [hany]
    exact hpasses

theorem authGrants_emptyDispatcher_iff {auth : AclAuthorization} {ctx : RequestContext}
    {path : Str} {mode : AccessMode} {groups : GroupMembership} :
    authGrants auth ctx path mode groups emptyDispatcher = true ↔ auth.conditions = [] ∧
      (getModes auth).contains mode = true ∧
        agentMatchesWithGroups auth ctx.webId groups = true ∧ pathOk auth path = true := by
  have hconditions : (auth.conditions.all fun c => emptyDispatcher c ctx groups == .satisfied) =
      true ↔ auth.conditions = [] := by
    cases auth.conditions with
    | nil => exact iff_of_true rfl rfl
    | cons c cs => exact iff_of_false Bool.false_ne_true (List.cons_ne_nil c cs)
  rw [authGrants, Bool.and_eq_true, Bool.and_eq_true, Bool.and_eq_true, hconditions]
  tauto

/-- Without conditions the dispatcher makes no difference. -/
theorem authGrants_of_no_conditions {auth : AclAuthorization} (h : auth.conditions = [])
    (ctx : RequestContext) (path : Str) (mode : AccessMode) (groups : GroupMembership)
    (dispatcher dispatcher' : ConditionDispatcher) :
    authGrants auth ctx path mode groups dispatcher =
      authGrants auth ctx path mode groups dispatcher' := by
  rw [authGrants, authGrants, h, List.all_nil, List.all_nil]

theorem staticGroupMembership_nil : staticGroupMembership [] = noGroupMembership := rfl

/-- What the header lists is what is granted without looking at a condition. -/
theorem evaluateAccess_iff {sv : Services} {acl : Option AclDocument} {agent : Option Str}
    {path : Str} {mode : AccessMode} :
    evaluateAccess sv.feature acl agent path mode none = true ↔
      granted sv acl path mode agent = true ∧ GrantsPlainly acl path mode agent := by
  rw [evaluateAccess, evaluateAccessWithGroups, granted, evaluateAccessCtxWithRegistry,
    evaluateAccessCtxInner_iff, evaluateAccessCtxInner_iff, staticGroupMembership_nil]
  constructor
  · rintro ⟨graph, rfl, ⟨auth, hmem, hauth⟩, hpasses⟩
    have hplain := authGrants_emptyDispatcher_iff.mp hauth
    rw [authGrants_of_no_conditions hplain.1 _ _ _ _ _
      ConditionRegistry.defaultWithClientAndIssuer.dispatch] at hauth
    exact ⟨⟨graph, rfl, ⟨auth, hmem, hauth⟩, hpasses⟩, graph, rfl, auth, hmem, hplain⟩
  · rintro ⟨⟨graph, rfl, -, hpasses⟩, graph', hgraph, auth, hmem, hplain⟩
    cases hgraph
    exact ⟨graph, rfl, ⟨auth, hmem, authGrants_emptyDispatcher_iff.mpr hplain⟩, hpasses⟩

/-! ## The truth of a header -/

def HttpResponse.header (rsp : HttpResponse) (name : Str) : Option Str := rsp.headers.lookup name

section Responses

variable {σ : Type*} [Storage σ] (sv : Services)

/-- The header lists the modes that `enforceWrite` grants, to the agent and to a
request without one. -/
def Truthful (s : σ) (path : Str) (agent : Option Str) (v : Str) : Prop :=
  ∃ user pub, readWacAllow v = some (user, pub) ∧ ∀ mode,
    (modeName mode ∈ user ↔ enforceWrite sv s path mode agent = .ok ()) ∧
      (modeName mode ∈ pub ↔ enforceWrite sv s path mode none = .ok ())

/-- The response carries a header that tells the truth. -/
def TellsTruth (s : σ) (path : Str) (agent : Option Str) (rsp : HttpResponse) : Prop :=
  ∃ v, rsp.header "wac-allow" = some v ∧ Truthful sv s path agent v

/-- The responses of `handleGet` that are a success. -/
def ReadTellsTruth (s : σ) (req : HttpRequest) : Prop :=
  (handleGet sv s req).status = 200 →
    TellsTruth sv s req.path (agentUri req.pubkey) (handleGet sv s req)

/-- The responses of `enforceWrite` to a mode that the effective ACL does not
grant. -/
def RefusalTellsTruth (s : σ) (path : Str) (mode : AccessMode) (agent : Option Str) : Prop :=
  ∀ acl rsp, effectiveAcl sv s path = .ok acl → enforceWrite sv s path mode agent = .error rsp →
    TellsTruth sv s path agent rsp

/-- There is something to read at the path. -/
def Found (s : σ) (path : Str) : Prop :=
  if isContainer path then
    ∃ children, (Storage.list s path : Except PodError (List Str)) = .ok children
  else Stored s path

/-- No authorisation of the effective ACL grants the agent or the public a mode
that the gate lets through. -/
def NothingGranted (s : σ) (path : Str) (agent : Option Str) : Prop :=
  ∀ graph, effectiveAcl sv s path = .ok (some ⟨some graph⟩) → ∀ auth ∈ graph, ∀ mode who,
    who = agent ∨ who = none → passesOrigin sv.feature ⟨some graph⟩ mode = true →
      authGrants auth ⟨who, none, none⟩ path mode noGroupMembership
        ConditionRegistry.defaultWithClientAndIssuer.dispatch = false

/-- What the agent or the public may do is granted without a condition. -/
def PlainlyGranted (acl : Option AclDocument) (path : Str) (agent : Option Str) : Prop :=
  ∀ mode who, who = agent ∨ who = none → granted sv acl path mode who = true →
    GrantsPlainly acl path mode who

variable {sv} {s : σ} {path : Str} {agent : Option Str}

theorem truthful_wacAllowHeader_iff {acl : Option AclDocument} :
    Truthful sv s path agent (wacAllowHeader sv.feature acl agent path) ↔ ∀ mode,
      (evaluateAccess sv.feature acl agent path mode none = true ↔
          Permitted sv s path mode agent) ∧
        (evaluateAccess sv.feature acl none path mode none = true ↔
          Permitted sv s path mode none) := by
  have hquote : ∀ f, '"' ∉ join " " (modeNames f) := fun f hmem =>
    (visible_join_modeNames hmem).2.2 rfl
  simp only [Truthful, wacAllowHeader_eq, readWacAllow_wacAllowText (hquote _) (hquote _),
    enforceWrite_eq_ok_iff]
  constructor
  · rintro ⟨user, pub, hread, htruth⟩ mode
    cases hread
    obtain ⟨huser, hpub⟩ := htruth mode
    exact ⟨mem_splitOn_join_modeNames.symm.trans huser,
      mem_splitOn_join_modeNames.symm.trans hpub⟩
  · intro htruth
    refine ⟨_, _, rfl, fun mode => ?_⟩
    exact ⟨mem_splitOn_join_modeNames.trans (htruth mode).1,
      mem_splitOn_join_modeNames.trans (htruth mode).2⟩

theorem permitted_iff_exists_authGrants {mode : AccessMode} {who : Option Str} :
    Permitted sv s path mode who ↔ ∃ graph, effectiveAcl sv s path = .ok (some ⟨some graph⟩) ∧
      (∃ auth ∈ graph, authGrants auth ⟨who, none, none⟩ path mode noGroupMembership
        ConditionRegistry.defaultWithClientAndIssuer.dispatch = true) ∧
          passesOrigin sv.feature ⟨some graph⟩ mode = true := by
  simp only [Permitted, granted, evaluateAccessCtxWithRegistry, evaluateAccessCtxInner_iff,
    staticGroupMembership_nil]
  constructor
  · rintro ⟨acl, hacl, graph, rfl, hgrants⟩
    exact ⟨graph, hacl, hgrants⟩
  · rintro ⟨graph, hacl, hgrants⟩
    exact ⟨_, hacl, graph, rfl, hgrants⟩

theorem nothingGranted_iff : NothingGranted sv s path agent ↔
    ∀ mode, ¬ Permitted sv s path mode agent ∧ ¬ Permitted sv s path mode none := by
  constructor
  · intro h mode
    have hwho : ∀ who, who = agent ∨ who = none → ¬ Permitted sv s path mode who := by
      intro who hwho hpermitted
      obtain ⟨graph, hacl, ⟨auth, hmem, hauth⟩, hpasses⟩ :=
        permitted_iff_exists_authGrants.mp hpermitted
      rw [h graph hacl auth hmem mode who hwho hpasses] at hauth
      cases hauth
    exact ⟨hwho agent (Or.inl rfl), hwho none (Or.inr rfl)⟩
  · intro h graph hacl auth hmem mode who hwho hpasses
    rw [← Bool.not_eq_true]
    intro hauth
    have hpermitted : Permitted sv s path mode who :=
      permitted_iff_exists_authGrants.mpr ⟨graph, hacl, ⟨auth, hmem, hauth⟩, hpasses⟩
    rcases hwho with rfl | rfl
    · exact (h mode).1 hpermitted
    · exact (h mode).2 hpermitted

/-- The header of no document lists nothing. -/
theorem truthful_none_iff : Truthful sv s path agent (wacAllowHeader sv.feature none agent path) ↔
    NothingGranted sv s path agent := by
  rw [truthful_wacAllowHeader_iff, nothingGranted_iff]
  refine forall_congr' fun mode => ?_
  have hnone : ∀ who, evaluateAccess sv.feature none who path mode none = true ↔ False :=
    fun who => iff_of_false Bool.false_ne_true id
  rw [hnone, hnone, false_iff, false_iff]

theorem permitted_iff_of_effectiveAcl {acl : Option AclDocument}
    (hacl : effectiveAcl sv s path = .ok acl) (mode : AccessMode) (who : Option Str) :
    Permitted sv s path mode who ↔ granted sv acl path mode who = true := by
  constructor
  · rintro ⟨acl', hacl', hgranted⟩
    cases hacl.symm.trans hacl'
    exact hgranted
  · intro hgranted
    exact ⟨acl, hacl, hgranted⟩

/-- The header of the effective ACL misses what a condition must grant. -/
theorem truthful_effectiveAcl_iff {acl : Option AclDocument}
    (hacl : effectiveAcl sv s path = .ok acl) :
    Truthful sv s path agent (wacAllowHeader sv.feature acl agent path) ↔
      PlainlyGranted sv acl path agent := by
  simp only [truthful_wacAllowHeader_iff, permitted_iff_of_effectiveAcl hacl, evaluateAccess_iff,
    and_iff_left_iff_imp]
  constructor
  · rintro h mode who (rfl | rfl)
    · exact (h mode).1
    · exact (h mode).2
  · intro h mode
    exact ⟨h mode agent (Or.inl rfl), h mode none (Or.inr rfl)⟩

/-! ## The responses -/

theorem visible_wacAllowHeader {feature : OriginFeature} {acl : Option AclDocument} :
    ∀ c ∈ wacAllowHeader feature acl agent path, 0x20 ≤ c.toNat ∧ c.toNat < 0x7F := by
  have hjoin : ∀ f, ∀ c ∈ join " " (modeNames f), 0x20 ≤ c.toNat ∧ c.toNat < 0x7F := fun f c hc =>
    ⟨(visible_join_modeNames hc).1, (visible_join_modeNames hc).2.1⟩
  have huser : ∀ c ∈ userKey, 0x20 ≤ c.toNat ∧ c.toNat < 0x7F := by decide
  have hpublic : ∀ c ∈ publicKey, 0x20 ≤ c.toNat ∧ c.toNat < 0x7F := by decide
  have hquote : 0x20 ≤ '"'.toNat ∧ '"'.toNat < 0x7F := by decide
  intro c hc
  simp only [wacAllowHeader_eq, wacAllowText, List.mem_append, List.mem_cons, List.not_mem_nil,
    or_false] at hc
  rcases hc with hc | hc | rfl | hc | hc | rfl
  · exact huser c hc
  · exact hjoin _ c hc
  · exact hquote
  · exact hpublic c hc
  · exact hjoin _ c hc
  · exact hquote

theorem header_setHeader_self {name value : Str} {rsp : HttpResponse}
    (hvalue : sv.headerValue value = true) (h : rsp.header name = none) :
    (setHeader sv name value rsp).header name = some value := by
  rw [setHeader, if_pos hvalue, HttpResponse.header, List.lookup_append, ← HttpResponse.header, h,
    Option.none_or, List.lookup_cons_self]

theorem header_setHeader_of_ne {name name' value : Str} (rsp : HttpResponse) (h : name ≠ name') :
    (setHeader sv name' value rsp).header name = rsp.header name := by
  rw [setHeader]
  split
  · have hne : (name == name') = false := beq_eq_false_iff_ne.mpr h
    rw [HttpResponse.header, List.lookup_append, List.lookup_cons, hne]
    exact Option.or_none
  · rfl

theorem status_setHeader {name value : Str} (rsp : HttpResponse) :
    (setHeader sv name value rsp).status = rsp.status := by
  rw [setHeader]
  split
  · rfl
  · rfl

theorem status_toActix_ne (e : PodError) : (toActix e).status ≠ 200 := by
  cases e <;> simp [toActix, textResponse]

section Answers

variable (hheader : ∀ v, (∀ c ∈ v, 0x20 ≤ c.toNat ∧ c.toNat < 0x7F) → sv.headerValue v = true)
include hheader

/-- A response that gets the header before its links has it. -/
theorem header_setLinkHeaders_setWacAllow {acl : Option AclDocument} {rsp : HttpResponse}
    (h : rsp.header "wac-allow" = none) :
    (setLinkHeaders sv path (setWacAllow sv (wacAllowHeader sv.feature acl agent path)
      rsp)).header "wac-allow" = some (wacAllowHeader sv.feature acl agent path) := by
  rw [setLinkHeaders, header_setHeader_of_ne _ (by decide), setWacAllow]
  exact header_setHeader_self (hheader _ visible_wacAllowHeader) h

theorem handleGet_of_found {req : HttpRequest} (h : Found s req.path) :
    (handleGet sv s req).status = 200 ∧ (handleGet sv s req).header "wac-allow" =
      some (wacAllowHeader sv.feature none (agentUri req.pubkey) req.path) := by
  rw [Found] at h
  cases hcontainer : isContainer req.path with
  | true =>
      rw [hcontainer, if_pos rfl] at h
      obtain ⟨children, hlist⟩ := h
      rw [handleGet, hcontainer, hlist]
      simp only [if_true]
      refine ⟨?_, header_setLinkHeaders_setWacAllow hheader rfl⟩
      rw [setLinkHeaders, setWacAllow, status_setHeader, status_setHeader]
  | false =>
      rw [hcontainer, if_neg Bool.false_ne_true] at h
      obtain ⟨⟨body, metadata⟩, hstored⟩ := h
      rw [handleGet, hcontainer, hstored]
      simp only [Bool.false_eq_true, if_false, resourceResponse]
      refine ⟨?_, header_setLinkHeaders_setWacAllow hheader ?_⟩
      · rw [setLinkHeaders, setWacAllow, setEtag, status_setHeader, status_setHeader,
          status_setHeader]
      · rw [setEtag, header_setHeader_of_ne _ (by decide)]
        rfl

omit hheader in
theorem status_handleGet_of_not_found {req : HttpRequest} (h : ¬ Found s req.path) :
    (handleGet sv s req).status ≠ 200 := by
  rw [Found] at h
  cases hcontainer : isContainer req.path with
  | true =>
      rw [hcontainer, if_pos rfl] at h
      rw [handleGet, hcontainer]
      cases hlist : (Storage.list s req.path : Except PodError (List Str)) with
      | ok children => exact absurd ⟨children, hlist⟩ h
      | error e => exact status_toActix_ne e
  | false =>
      rw [hcontainer, if_neg Bool.false_ne_true] at h
      rw [handleGet, hcontainer]
      cases hstored : (Storage.get s req.path : Except PodError (Bytes × ResourceMeta)) with
      | ok r => exact absurd ⟨r, hstored⟩ h
      | error e =>
          simp only [Bool.false_eq_true, if_false]
          cases e with
          | notFound p => exact (by decide : (emptyResponse 404).status ≠ 200)
          | _ => exact status_toActix_ne _

theorem header_denied {acl : Option AclDocument} :
    (denied sv acl path agent).header "wac-allow" =
      some (wacAllowHeader sv.feature acl agent path) := by
  rw [denied, HttpResponse.header]
  simp only [hheader _ visible_wacAllowHeader, if_true]
  exact List.lookup_cons_self

theorem readTellsTruth_iff (req : HttpRequest) : ReadTellsTruth sv s req ↔
    (Found s req.path → NothingGranted sv s req.path (agentUri req.pubkey)) := by
  by_cases hfound : Found s req.path
  · obtain ⟨hstatus, hvalue⟩ := handleGet_of_found hheader hfound
    rw [ReadTellsTruth, TellsTruth, hvalue, imp_iff_right hstatus, imp_iff_right hfound,
      ← truthful_none_iff]
    simp only [Option.some.injEq, exists_eq_left']
  · exact iff_of_true (fun h => absurd h (status_handleGet_of_not_found hfound))
      fun h => absurd h hfound

theorem refusalTellsTruth_iff (mode : AccessMode) : RefusalTellsTruth sv s path mode agent ↔
    ∀ acl, effectiveAcl sv s path = .ok acl → granted sv acl path mode agent = false →
      PlainlyGranted sv acl path agent := by
  refine forall_congr' fun acl => ?_
  constructor
  · intro h hacl hrefused
    have henforce : enforceWrite sv s path mode agent = .error (denied sv acl path agent) := by
      rw [enforceWrite, hacl]
      simp only [hrefused, Bool.false_eq_true, if_false]
    obtain ⟨v, hv, htruth⟩ := h _ hacl henforce
    rw [header_denied hheader, Option.some.injEq] at hv
    subst hv
    exact (truthful_effectiveAcl_iff hacl).mp htruth
  · intro h rsp hacl henforce
    rw [enforceWrite, hacl] at henforce
    simp only at henforce
    split at henforce
    · cases henforce
    · rename_i hrefused
      cases henforce
      exact ⟨_, header_denied hheader, (truthful_effectiveAcl_iff hacl).mpr
        (h hacl (Bool.eq_false_iff.mpr hrefused))⟩

/-- The header tells the truth on a read exactly when there is nothing to read or
nothing is granted, and on a refusal exactly when all that is granted is granted
without a condition. -/
theorem wacAllow_tellsTruth_iff (s : σ) (req : HttpRequest) (path : Str) (mode : AccessMode)
    (agent : Option Str) :
    (ReadTellsTruth sv s req ↔
      (Found s req.path → NothingGranted sv s req.path (agentUri req.pubkey))) ∧
    (RefusalTellsTruth sv s path mode agent ↔
      ∀ acl, effectiveAcl sv s path = .ok acl → granted sv acl path mode agent = false →
        PlainlyGranted sv acl path agent) :=
  ⟨readTellsTruth_iff hheader req, refusalTellsTruth_iff hheader mode⟩

end Answers

end Responses

/-! ## A document that everyone may read -/

theorem headerValue_turtleServices (v : Str) (h : ∀ c ∈ v, 0x20 ≤ c.toNat ∧ c.toNat < 0x7F) :
    turtleServices.headerValue v = true := by
  simpa [turtleServices, List.all_eq_true] using h

theorem get_readPod_doc :
    readPod.get "/doc" = .ok (utf8 (toNtriples docGraph), turtleMeta (toNtriples docGraph)) := by
  rw [readPod, MemoryBackend.get_put _ (by decide) (by decide), if_pos rfl, turtleMeta]

/-- A refused write of the document is told that everyone may read it. -/
theorem refusalTellsTruth_readPod :
    RefusalTellsTruth turtleServices readPod "/doc" .write none := by
  refine (wacAllow_tellsTruth_iff headerValue_turtleServices readPod getDoc "/doc" .write
    none).2.mpr ?_
  intro acl hacl _ mode who hwho hgranted
  cases effectiveAcl_readPod_doc.symm.trans hacl
  obtain rfl : who = none := hwho.elim id id
  refine ⟨_, rfl, _, List.mem_cons_self, rfl, ?_⟩
  cases mode with
  | read => decide
  | _ => exact absurd hgranted (by decide)

/-- A read of the document is told that nobody may do anything. -/
theorem not_readTellsTruth_readPod :
    ¬ ∀ req : HttpRequest, ReadTellsTruth turtleServices readPod req := by
  intro h
  have hfound : Found readPod getDoc.path := by
    refine (if_neg (by decide)).mpr ⟨_, get_readPod_doc⟩
  have hpermitted : Permitted turtleServices readPod "/doc" .read none :=
    ⟨readAcl, effectiveAcl_readPod_doc, by decide⟩
  have hnothing := (readTellsTruth_iff headerValue_turtleServices getDoc).mp (h getDoc) hfound
  exact (nothingGranted_iff.mp hnothing .read).2 hpermitted

end Server

end SolidPod
