import SolidPod.Provision.OwnerRule
import SolidPod.Server.ReadMediation

/-!
# The access rules of a provisioned pod

The owner of a pod is to hold the public type index, everyone else is to read it, and the
private one is to be the owner's alone. The ACL next to the public index names an absolute
address, which is never the path that the index is stored at, so its rules keep this only
when the resolver does not read them and the root ACL of the plan says the same.
-/

namespace SolidPod

namespace Provision

open Foundation Str Wac Ldp Server

variable (sv : Services)

/-- The decision on what the resolver found; where it failed nothing is granted. -/
def decided (found : Except PodError (Option AclDocument)) (path : Str) (mode : AccessMode)
    (agent : Option Str) : Bool :=
  match found with
  | .ok acl => granted sv acl path mode agent
  | .error _ => false

/-- The access that a pod is provisioned for, with what was found for the two indexes. -/
structure Promise (webid : Str) (onPublic onPrivate : Except PodError (Option AclDocument)) :
    Prop where
  owner : ∀ mode ∈ [AccessMode.read, .write, .control],
    decided sv onPublic publicTypeIndexPath mode (some webid) = true
  others : ∀ agent ≠ some webid, ∀ mode,
    decided sv onPublic publicTypeIndexPath mode agent = true ↔ mode = .read
  hidden : ∀ agent ≠ some webid, ∀ mode,
    decided sv onPrivate privateTypeIndexPath mode agent = false

/-- The promise, of the ACLs that the server resolves. -/
def KeepsPromise {σ : Type*} [Storage σ] (s : σ) (webid : Str) : Prop :=
  Promise sv webid (effectiveAcl sv s publicTypeIndexPath) (effectiveAcl sv s privateTypeIndexPath)

/-! ## The rules next to the public index -/

/-- What the decision on a mode asks of the document is the same for all agents. -/
theorem granted_of_authGrants {graph : List AclAuthorization} {path : Str} {mode : AccessMode}
    {agent agent' : Option Str} (h : granted sv (some ⟨some graph⟩) path mode agent = true)
    {auth : AclAuthorization} (hauth : auth ∈ graph)
    (hgrants : authGrants auth ⟨agent', none, none⟩ path mode (staticGroupMembership [])
      ConditionRegistry.defaultWithClientAndIssuer.dispatch = true) :
    granted sv (some ⟨some graph⟩) path mode agent' = true := by
  have hany : (graph.any fun auth => authGrants auth ⟨agent', none, none⟩ path mode
      (staticGroupMembership []) ConditionRegistry.defaultWithClientAndIssuer.dispatch) = true :=
    List.any_eq_true.mpr ⟨auth, hauth, hgrants⟩
  simp only [granted, evaluateAccessCtxWithRegistry, evaluateAccessCtxInner] at h ⊢
  rw [hany, if_neg (by simp)]
  split at h
  · cases h
  · exact h

/-- A rule grants an agent without a client and an issuer what it grants another, when it
matches both. -/
theorem authGrants_of_matches {auth : AclAuthorization} {agent agent' : Option Str} {path : Str}
    {mode : AccessMode}
    (h : authGrants auth ⟨agent, none, none⟩ path mode (staticGroupMembership [])
      ConditionRegistry.defaultWithClientAndIssuer.dispatch = true)
    (hmatch : agentMatchesWithGroups auth agent' (staticGroupMembership []) = true) :
    authGrants auth ⟨agent', none, none⟩ path mode (staticGroupMembership [])
      ConditionRegistry.defaultWithClientAndIssuer.dispatch = true := by
  have hdispatch : ∀ cond, ConditionRegistry.defaultWithClientAndIssuer.dispatch cond
      ⟨agent, none, none⟩ (staticGroupMembership []) =
      ConditionRegistry.defaultWithClientAndIssuer.dispatch cond ⟨agent', none, none⟩
        (staticGroupMembership []) := by
    intro cond
    cases cond <;> rfl
  simp only [authGrants, hdispatch, hmatch, Bool.and_eq_true] at h ⊢
  exact ⟨⟨⟨h.1.1.1, trivial⟩, h.1.2⟩, h.2⟩

/-- What a rule has that matches an agent by no group. -/
theorem agentMatches_cases {auth : AclAuthorization} {agent : Option Str}
    (h : agentMatchesWithGroups auth agent (staticGroupMembership []) = true) :
    (∃ uri, agent = some uri ∧ uri ∈ getIds auth.agent) ∨
      (∃ cls ∈ getIds auth.agentClass, isPublicClass cls = true) ∨
      (agent.isSome = true ∧ ∃ cls ∈ getIds auth.agentClass, isAuthenticatedClass cls = true) := by
  have hgroups : (agent.map fun uri => (getIds auth.agentGroup).any fun g =>
      staticGroupMembership [] g uri).getD false = false := by
    cases agent with
    | none => rfl
    | some uri => simp [staticGroupMembership]
  rw [agentMatchesWithGroups, hgroups, Bool.or_false, Bool.or_eq_true, List.any_eq_true] at h
  rcases h with hagent | ⟨cls, hcls, hmatch⟩
  · left
    cases agent with
    | none => cases hagent
    | some uri => exact ⟨uri, rfl, by simpa using hagent⟩
  · right
    rw [Bool.or_eq_true, Bool.and_eq_true] at hmatch
    exact hmatch.imp (fun hpublic => ⟨cls, hcls, hpublic⟩) fun hauth =>
      ⟨hauth.1, cls, hcls, hauth.2⟩

theorem agentMatches_of_class {auth : AclAuthorization} {cls : Str}
    (hcls : cls ∈ getIds auth.agentClass) {agent : Option Str}
    (h : isPublicClass cls = true ∨ agent.isSome = true ∧ isAuthenticatedClass cls = true) :
    agentMatchesWithGroups auth agent (staticGroupMembership []) = true := by
  rw [agentMatchesWithGroups, Bool.or_eq_true, Bool.or_eq_true]
  refine Or.inl (Or.inr (List.any_eq_true.mpr ⟨cls, hcls, ?_⟩))
  rw [Bool.or_eq_true, Bool.and_eq_true]
  exact h

/-- Where one rule names the owner, and no other states a mode when it covers the index, the
owner alone does not write what everyone reads. -/
theorem not_promise_of_graph {webid : Str} {graph : List AclAuthorization}
    {onPrivate : Except PodError (Option AclDocument)}
    (h : ∀ auth ∈ graph, webid ∈ getIds auth.agent → pathOk auth publicTypeIndexPath = true →
      ∀ auth' ∈ graph, getModes auth' ≠ [] → auth' = auth) :
    ¬ Promise sv webid (.ok (some ⟨some graph⟩)) onPrivate := by
  intro hpromise
  have howner := hpromise.owner .write (by simp)
  have hnobody : ∀ agent ≠ some webid,
      granted sv (some ⟨some graph⟩) publicTypeIndexPath .write agent ≠ true := by
    intro agent hagent hgranted
    exact absurd ((hpromise.others agent hagent .write).mp hgranted) (by simp)
  have hread := (hpromise.others none (by simp) .read).mpr rfl
  obtain ⟨auth, hauth, hgrants⟩ := exists_authGrants howner
  obtain ⟨auth', hauth', hgrants'⟩ := exists_authGrants hread
  have hparts := hgrants
  simp only [authGrants, Bool.and_eq_true] at hparts
  have hparts' := hgrants'
  simp only [authGrants, Bool.and_eq_true] at hparts'
  -- what everyone or everyone with a WebID may write, someone else may
  have hclass : ∀ cls ∈ getIds auth.agentClass, isPublicClass cls = false ∧
      isAuthenticatedClass cls = false := by
    intro cls hcls
    have hother : some (webid ++ ['x']) ≠ some webid := by simp
    constructor
    · rw [← Bool.not_eq_true]
      intro hpublic
      exact hnobody _ hother (granted_of_authGrants sv howner hauth
        (authGrants_of_matches hgrants (agentMatches_of_class hcls (Or.inl hpublic))))
    · rw [← Bool.not_eq_true]
      intro hauthenticated
      exact hnobody _ hother (granted_of_authGrants sv howner hauth
        (authGrants_of_matches hgrants (agentMatches_of_class hcls (Or.inr ⟨rfl, hauthenticated⟩))))
  rcases agentMatches_cases hparts.1.1.2 with ⟨uri, huri, hmem⟩ | ⟨cls, hcls, hpublic⟩ |
    ⟨-, cls, hcls, hauthenticated⟩
  · obtain rfl := Option.some.inj huri
    have hmodes : getModes auth' ≠ [] := by
      intro hnone
      have hreads := hparts'.1.1.1
      rw [hnone] at hreads
      cases hreads
    obtain rfl := h auth hauth hmem hparts.1.2 auth' hauth' hmodes
    rcases agentMatches_cases hparts'.1.1.2 with ⟨uri, huri, -⟩ | ⟨cls, hcls, hpublic⟩ | ⟨hsome, -⟩
    · cases huri
    · rw [(hclass cls hcls).1] at hpublic
      cases hpublic
    · cases hsome
  · rw [(hclass cls hcls).1] at hpublic
    cases hpublic
  · rw [(hclass cls hcls).2] at hauthenticated
    cases hauthenticated

/-- Every rule of a document is read from one of the statements. -/
theorem exists_statement {input : Str} {maxBytes : ℕ} {doc : AclDocument}
    (h : parseTurtleAclWithLimit input maxBytes = .ok doc) {graph : List AclAuthorization}
    (hgraph : doc.graph = some graph) {auth : AclAuthorization} (hauth : auth ∈ graph) :
    ∃ stmt ∈ statementSplitter.pieces (0, false) [] (readPrefixes (stripTurtleComments input)).2,
      parseTurtleAuthorization (readPrefixes (stripTurtleComments input)).1 stmt = some auth := by
  rw [parseTurtleAclWithLimit] at h
  split at h
  · cases h
  · simp only [turtleStatements, Except.ok.injEq] at h
    rw [← h] at hgraph
    have hall : ∀ l : List AclAuthorization,
        (if l.isEmpty then none else some l) = some graph → l = graph := by
      intro l hl
      cases l with
      | nil => cases hl
      | cons a l => exact Option.some.inj hl
    rw [← hall _ hgraph, List.mem_filterMap] at hauth
    obtain ⟨stmt, hstmt, hparse⟩ := hauth
    refine ⟨stmt, ?_, ?_⟩
    · simp only [splitTurtleStatements, splitNonblankTail] at hstmt
      split at hstmt
      · exact List.dropLast_subset _ hstmt
      · exact hstmt
    · split at hparse
      · cases hparse
      · exact hparse

/-- The rules of the ACL, once it is read, do not give what they were written for. -/
theorem not_promise_of_text {x : Str} (hx : IsPodAddress x) (n : ℕ) {maxBytes : ℕ}
    {doc : AclDocument}
    (h : parseTurtleAclWithLimit (serializeTurtleAcl (buildPublicTypeIndexAcl (x ++ ownerTail n)
      (x ++ publicTypeIndexPath))) maxBytes = .ok doc)
    (onPrivate : Except PodError (Option AclDocument)) :
    ¬ Promise sv (x ++ ownerTail n) (.ok (some doc)) onPrivate := by
  rw [serializeTurtleAcl_index hx rfl] at h
  cases hgraph : doc.graph with
  | none =>
      intro hpromise
      have howner := hpromise.owner .read (by simp)
      simp only [decided, granted, evaluateAccessCtxWithRegistry, evaluateAccessCtxInner,
        hgraph] at howner
      cases howner
  | some graph =>
      obtain ⟨g⟩ := doc
      obtain rfl : g = some graph := hgraph
      refine not_promise_of_graph sv fun auth hauth howner hpath auth' hauth' hmodes => ?_
      obtain ⟨stmt, hstmt, hparse⟩ := exists_statement h rfl hauth
      obtain ⟨stmt', hstmt', hparse'⟩ := exists_statement h rfl hauth'
      obtain ⟨hread, hfirst⟩ := exists_ownerStatement hx rfl hstmt hparse howner
      rw [hread] at hstmt' hparse'
      exact hfirst.eq_of_pathOk hx rfl hpath hstmt' hparse' hmodes

/-! ## The address of a plan -/

/-- The address of the pod, without the slashes at its end. -/
def ProvisionPlan.address (plan : ProvisionPlan) : Str := trimEndMatches '/' plan.podRoot

theorem exists_replicate (c : Char) (t : Str) :
    ∃ n, t = trimEndMatches c t ++ List.replicate n c := by
  refine ⟨(t.reverse.takeWhile (· == c)).length, ?_⟩
  have hsame : t.reverse.takeWhile (· == c) =
      List.replicate (t.reverse.takeWhile (· == c)).length c :=
    List.eq_replicate_iff.mpr ⟨rfl, fun d hd => by simpa using List.mem_takeWhile_imp hd⟩
  rw [← List.reverse_replicate, ← hsame]
  change t = (t.reverse.dropWhile (· == c)).reverse ++ _
  rw [← List.reverse_append, List.takeWhile_append_dropWhile, List.reverse_reverse]

theorem ProvisionPlan.exists_slashes (plan : ProvisionPlan) :
    ∃ n, plan.podRoot = plan.address ++ '/' :: List.replicate n '/' ∧
      ("/pods" : Str) <:+: plan.address := by
  have hroot : plan.podRoot =
      (trimEndMatches '/' plan.podBase ++ "/pods/" ++ plan.pubkey) ++ ['/'] :=
    rfl
  have haddress : plan.address =
      trimEndMatches '/' (trimEndMatches '/' plan.podBase ++ "/pods/" ++ plan.pubkey) := by
    rw [ProvisionPlan.address, hroot, trimEndMatches, List.rdropWhile_concat_pos _ _ _ rfl]
    rfl
  obtain ⟨n, hn⟩ := exists_replicate '/'
    (trimEndMatches '/' plan.podBase ++ "/pods/" ++ plan.pubkey)
  rw [← haddress] at hn
  have hno : 's' ∉ List.replicate n '/' :=
    fun hc => absurd (List.eq_of_mem_replicate hc) (by decide)
  have hpods : ("/pods/" : Str) = "/pod" ++ ['s', '/'] := by decide
  have hsides : (trimEndMatches '/' plan.podBase ++ "/pod") ++ 's' :: ('/' :: plan.pubkey) =
      plan.address ++ List.replicate n '/' := by
    rw [← hn, hpods]
    simp
  refine ⟨n, ?_, ?_⟩
  · rw [hroot, hn, List.append_assoc, ← List.replicate_succ', List.replicate_succ]
  · rcases List.append_eq_append_iff.mp hsides with ⟨t, ht, hrest⟩ | ⟨t, -, hrest⟩
    · cases t with
      | nil =>
          rw [List.nil_append] at hrest
          exact absurd (hrest ▸ List.mem_cons_self) hno
      | cons c t =>
          obtain ⟨rfl, -⟩ := List.cons.inj hrest
          have hname : ("/pods" : Str) = "/pod" ++ ['s'] := by decide
          refine ⟨trimEndMatches '/' plan.podBase, t, ?_⟩
          rw [ht, hname]
          simp
    · exact absurd (hrest ▸ by simp) hno

/-- The ids that the ACL is written with. -/
theorem ProvisionPlan.exists_publicAclTtl (plan : ProvisionPlan) :
    ∃ n, IsPodAddress plan.address ∧ plan.webid = plan.address ++ ownerTail n ∧
      plan.publicAclTtl = serializeTurtleAcl (buildPublicTypeIndexAcl (plan.address ++ ownerTail n)
        (plan.address ++ publicTypeIndexPath)) := by
  obtain ⟨n, hroot, hpods⟩ := plan.exists_slashes
  have hwebid : plan.webid = plan.address ++ ownerTail n := by
    rw [ProvisionPlan.webid, hroot, ownerTail]
    simp
  refine ⟨n, ⟨hpods⟩, hwebid, ?_⟩
  rw [ProvisionPlan.publicAclTtl, hwebid, ProvisionPlan.publicAclResourceIri, ProvisionPlan.address]

/-! ## What provisioning leaves at the keys of the walk -/

/-- A storage that reads no ACL where the sidecar of a container was put under a relative
name. Under an absolute one that is so in every lawful storage. -/
class SidecarStorage (σ : Type*) [Storage σ] : Prop where
  get_put_relative : ∀ {s : σ} {container key : Str} (body : Bytes) (contentType : Str),
    ¬ IsAbsolute (metaKey container) → IsAbsolute key → (".acl" : Str) <:+ key →
      Storage.get (Storage.put s (metaKey container) body contentType).2 key = Storage.get s key

theorem metaKey_ne {container key : Str} (h : (".acl" : Str) <:+ key) :
    metaKey container ≠ key := by
  rintro rfl
  have hmeta : (".meta" : Str) <:+ metaKey container := List.suffix_append _ _
  have hlast := List.suffix_of_suffix_length_le h hmeta (by decide)
  exact absurd hlast (by decide)

instance {digest : Bytes → Str} : SidecarStorage (MemoryBackend digest) where
  get_put_relative := by
    intro s container key body contentType hrelative hkey hacl
    have hne : key ≠ MemoryBackend.normalize (metaKey container) := by
      have hempty : metaKey container ≠ [] := List.append_ne_nil_of_right_ne_nil _ (by decide)
      have hslash : startsWith "/" (metaKey container) = false := by
        rw [← Bool.not_eq_true, startsWith, List.isPrefixOf_iff_prefix]
        rintro ⟨t, ht⟩
        exact hrelative (by rw [← ht]; rfl)
      rw [MemoryBackend.normalize, List.isEmpty_eq_false_iff.mpr hempty, hslash]
      intro hsame
      rw [hsame] at hacl
      have hmeta : (".meta" : Str) <:+ '/' :: metaKey container :=
        (List.suffix_append _ _).trans (List.suffix_cons _ _)
      exact absurd (List.suffix_of_suffix_length_le hacl hmeta (by decide)) (by decide)
    rw [MemoryBackend.storage_get, MemoryBackend.storage_get, MemoryBackend.storage_put,
      MemoryBackend.put, MemoryBackend.get_of_isAbsolute _ hkey,
      MemoryBackend.get_of_isAbsolute _ hkey]
    simp only [AList.lookup_insert_ne hne]

section Frame

variable {σ : Type} [Storage σ] [LawfulStorage σ]

/-- The invariant that what is stored at a key is `found`. -/
def StoredAt (key : Str) (found : Except PodError (Bytes × ResourceMeta)) (s : σ) : Prop :=
  Storage.get s key = found

variable {key : Str} {found : Except PodError (Bytes × ResourceMeta)}

theorem keeps_put {k : Str} (hk : IsAbsolute k) (hkey : IsAbsolute key) (hne : k ≠ key)
    (body : Bytes) (contentType : Str) :
    Program.Keeps (StoredAt (σ := σ) key found) (put k body contentType) fun _ => True := by
  intro s hs
  refine ⟨?_, fun _ _ => trivial⟩
  exact (LawfulStorage.get_put_ne body contentType hk hkey hne).trans hs

variable [SidecarStorage σ]

omit [LawfulStorage σ] [SidecarStorage σ] in
/-- Whatever the answer, the state is that of the put. -/
theorem snd_exec_putContainer (container : Str) (s : σ) :
    ((putContainer container).exec s).2 =
      (Storage.put s (metaKey container) (utf8 "\x7b\x7d") "application/ld+json").2 := by
  rw [putContainer, Program.exec, Program.step]
  split <;> rename_i heq <;> rw [heq]

theorem keeps_createContainers (hkey : IsAbsolute key) (hacl : (".acl" : Str) <:+ key)
    (containers : List Str) :
    Program.Keeps (StoredAt (σ := σ) key found) (createContainers containers) fun _ => True := by
  induction containers with
  | nil => exact .pure trivial
  | cons container rest ih =>
      refine .bind (Q := fun _ => True) ?_ fun _ _ => ?_
      · exact (Program.Keeps.rejectIf _ _).weaken fun _ _ => trivial
      · refine .bind (Q := fun _ => True) ?_ fun _ _ => ?_
        · intro s hs
          refine ⟨?_, fun _ _ => trivial⟩
          have hget : Storage.get (Storage.put s (metaKey container) (utf8 "\x7b\x7d")
              "application/ld+json").2 key = found := by
            refine Eq.trans ?_ hs
            by_cases habs : IsAbsolute (metaKey container)
            · exact LawfulStorage.get_put_ne _ _ habs hkey (metaKey_ne hacl)
            · exact SidecarStorage.get_put_relative _ _ habs hkey hacl
          rw [snd_exec_putContainer]
          exact hget
        · exact .bind ih fun _ _ => .pure trivial

omit [SidecarStorage σ] in
theorem get_of_put {k : Str} (hk : IsAbsolute k) {body : Bytes} {contentType : Str} {s : σ}
    {u : Unit} (h : ((put k body contentType).exec s).1 = .ok u) :
    ∃ metadata, Storage.get ((put k body contentType).exec s).2 k = .ok (body, metadata) ∧
      metadata.contentType = contentType := by
  cases hput : Storage.put s k body contentType with
  | mk r s' =>
      have hexec : (put k body contentType).exec s = (r.map fun _ => (), s') := by
        change ((Storage.put s k body contentType).1.map (fun _ => ()),
          (Storage.put s k body contentType).2) = _
        rw [hput]
      rw [hexec] at h ⊢
      cases r with
      | error e => cases h
      | ok metadata => exact ⟨metadata, LawfulStorage.get_put_self hk hput⟩

/-- What is stored at the root ACL: the one of the plan, or what was there. -/
def RootStored (w : JsonWriter) (plan : ProvisionPlan)
    (found : Except PodError (Bytes × ResourceMeta)) (s : σ) : Prop :=
  match plan.rootAcl with
  | none => Storage.get s "/.acl" = found
  | some acl => ∃ body metadata, w.toVec acl = .ok body ∧
      Storage.get s "/.acl" = .ok (body, metadata) ∧ metadata.contentType = "application/ld+json"

/-- Seeding a pod puts no ACL but that of the plan. -/
theorem keeps_seedPod (w : JsonWriter) (plan : ProvisionPlan) (hkey : IsAbsolute key)
    (hacl : (".acl" : Str) <:+ key) (hroot : key ≠ "/.acl" ∨ plan.rootAcl = none) :
    Program.Keeps (StoredAt (σ := σ) key found) (seedPod w plan) fun _ => True := by
  have hput : ∀ k : Str, IsAbsolute k → ¬ (".acl" : Str) <:+ k → ∀ body contentType,
      Program.Keeps (StoredAt (σ := σ) key found) (put k body contentType) fun _ => True := by
    intro k hk hno body contentType
    refine keeps_put hk hkey ?_ body contentType
    rintro rfl
    exact hno hacl
  refine .bind (keeps_createContainers hkey hacl _) fun created _ => ?_
  refine .bind (hput _ (by decide) (by decide) _ _) fun _ _ => ?_
  refine .bind (Q := fun _ => True) ?_ fun _ _ => ?_
  · cases hplan : plan.rootAcl with
    | none => exact .pure trivial
    | some acl =>
        refine .bind ((Program.Keeps.ofMapped _).weaken fun _ _ => trivial) fun body _ => ?_
        refine keeps_put (by decide) hkey ?_ body _
        exact fun hsame => hroot.elim (fun hne => hne hsame.symm) (by simp [hplan])
  · refine .bind (hput _ (by decide) (by decide) _ _) fun _ _ => ?_
    refine .bind (hput _ (by decide) (by decide) _ _) fun _ _ => ?_
    exact .pure trivial

/-- The root ACL of the plan is stored as it was written. -/
theorem rootStored_seedPod {w : JsonWriter} {plan : ProvisionPlan} {s : σ} {created : List Str}
    (h : ((seedPod w plan).exec s).1 = .ok created) :
    RootStored w plan (Storage.get s "/.acl") ((seedPod w plan).exec s).2 := by
  cases hplan : plan.rootAcl with
  | none =>
      rw [RootStored, hplan]
      have hkept : Program.Keeps (StoredAt (σ := σ) "/.acl" (Storage.get s "/.acl"))
          (seedPod w plan) fun _ => True :=
        keeps_seedPod w plan (by decide) (by decide) (Or.inr hplan)
      exact hkept.after rfl
  | some acl =>
      rw [RootStored, hplan]
      obtain ⟨_, -, hcard, hstate⟩ := Program.exists_of_exec_bind h
      obtain ⟨_, -, hindexes, hstate'⟩ := Program.exists_of_exec_bind hcard
      obtain ⟨_, hroot, -, hstate''⟩ := Program.exists_of_exec_bind hindexes
      rw [hplan] at hroot
      obtain ⟨body, hbody, hput, hstored⟩ := Program.exists_of_exec_bind hroot
      obtain ⟨metadata, hget, htype⟩ := get_of_put (by decide) hput
      have hvec : w.toVec acl = .ok body := by
        cases hvec : w.toVec acl with
        | error e =>
            rw [hvec] at hbody
            cases hbody
        | ok body' =>
            rw [hvec] at hbody
            cases hbody
            rfl
      refine ⟨body, metadata, hvec, ?_, htype⟩
      rw [seedPod, hstate, hstate', hstate'']
      have hkept : ∀ k : Str, IsAbsolute k → k ≠ "/.acl" → ∀ body contentType found,
          Program.Keeps (StoredAt (σ := σ) "/.acl" found) (put k body contentType) fun _ => True :=
        fun k hk hne body contentType found => keeps_put hk (by decide) hne body contentType
      refine Program.Keeps.after (I := StoredAt "/.acl" (.ok (body, metadata))) (Q := fun _ => True)
        (.bind (hkept _ (by decide) (by decide) _ _ _) fun _ _ =>
          .bind (hkept _ (by decide) (by decide) _ _ _) fun _ _ => .pure trivial) ?_
      rw [StoredAt, hplan]
      exact (congrArg (Storage.get · "/.acl") hstored).trans hget

theorem get_provisionPod {w : JsonWriter} {plan : ProvisionPlan} {s : σ} {out : ProvisionOutcome}
    (h : ((provisionPod w plan).exec s).1 = .ok out) :
    (∃ metadata, Storage.get ((provisionPod w plan).exec s).2 publicTypeIndexAclPath =
      .ok (utf8 plan.publicAclTtl, metadata) ∧ metadata.contentType = "text/turtle") ∧
    (∀ key ∈ (["/settings.acl", "/settings/privateTypeIndex.jsonld.acl"] : List Str),
      Storage.get ((provisionPod w plan).exec s).2 key = Storage.get s key) ∧
    RootStored w plan (Storage.get s "/.acl") ((provisionPod w plan).exec s).2 := by
  obtain ⟨created, hseed, h, hstate⟩ := Program.exists_of_exec_bind h
  obtain ⟨_, hput, -, hstate'⟩ := Program.exists_of_exec_bind h
  have hfinal : ((provisionPod w plan).exec s).2 = ((put publicTypeIndexAclPath
      (utf8 plan.publicAclTtl) "text/turtle").exec ((seedPod w plan).exec s).2).2 :=
    hstate.trans hstate'
  have hkept : ∀ key : Str, IsAbsolute key → publicTypeIndexAclPath ≠ key →
      Storage.get ((provisionPod w plan).exec s).2 key =
        Storage.get ((seedPod w plan).exec s).2 key := by
    intro key hkey hne
    rw [hfinal]
    exact (keeps_put (by decide) hkey hne _ _).after rfl
  refine ⟨?_, ?_, ?_⟩
  · rw [hfinal]
    exact get_of_put (by decide) hput
  · have hkeys : ∀ key ∈ (["/settings.acl", "/settings/privateTypeIndex.jsonld.acl"] : List Str),
        IsAbsolute key ∧ (".acl" : Str) <:+ key ∧ publicTypeIndexAclPath ≠ key ∧ key ≠ "/.acl" := by
      decide
    intro key hmem
    obtain ⟨hkey, hacl, hne, hroot⟩ := hkeys key hmem
    rw [hkept key hkey hne]
    exact (keeps_seedPod w plan hkey hacl (Or.inl hroot)).after rfl
  · have hroot := rootStored_seedPod hseed
    rw [RootStored] at hroot ⊢
    rwa [hkept "/.acl" (by decide) (by decide)]

end Frame

/-! ## What the server resolves -/

/-- The root ACL of the plan as the server reads it back. -/
def readRootAcl (w : JsonWriter) (plan : ProvisionPlan) : Except PodError (Option AclDocument) :=
  match plan.rootAcl with
  | none => .ok none
  | some acl =>
    match w.toVec acl with
    | .error _ => .ok none
    | .ok body =>
      match visitAcl jsonldFatalDyn sv.reader
        (.ok (body, ⟨[], body.length, "application/ld+json"⟩)) with
      | none => .ok none
      | some (.ok doc) => .ok (some doc)
      | some (.error e) => .error e

/-- The reader refuses what begins like a directive: that is no JSON. -/
def RefusesDirectives (reader : AclReader) : Prop :=
  ∀ rest, ∃ e, reader.fromSlice (utf8 ('@' :: rest)) = .error e

/-- Where neither the resource nor its container has an ACL that is read, the root ACL of
the plan decides. -/
theorem effectiveAcl_eq_readRootAcl {σ : Type} [Storage σ] {s : σ} {w : JsonWriter}
    {plan : ProvisionPlan} {path key : Str} (hkeys : aclKeys path = [key, "/settings.acl", "/.acl"])
    (hkey : visitAcl jsonldFatalDyn sv.reader (Storage.get s key) = none) {e e' : PodError}
    (hsettings : Storage.get s "/settings.acl" = .error e)
    (hroot : RootStored w plan (.error e') s) :
    effectiveAcl sv s path = readRootAcl sv w plan := by
  have hwalk : effectiveAcl sv s path =
      match visitAcl jsonldFatalDyn sv.reader (Storage.get s "/.acl") with
      | none => .ok none
      | some (.ok doc) => .ok (some doc)
      | some (.error e) => .error e := by
    have hnone : visitAcl jsonldFatalDyn sv.reader (Storage.get s "/settings.acl") = none := by
      rw [hsettings]
      rfl
    rw [effectiveAcl, findEffectiveAclDyn, walkAcl, hkeys, List.findSome?_cons, hkey,
      List.findSome?_cons, hnone, List.findSome?_cons, List.findSome?_nil]
    cases visitAcl jsonldFatalDyn sv.reader (Storage.get s "/.acl") with
    | none => rfl
    | some r => cases r <;> rfl
  rw [hwalk, readRootAcl]
  cases hplan : plan.rootAcl with
  | none =>
      rw [RootStored, hplan] at hroot
      have hget : Storage.get s "/.acl" = .error e' := hroot
      rw [hget]
      rfl
  | some acl =>
      rw [RootStored, hplan] at hroot
      obtain ⟨body, metadata, hvec, hget, htype⟩ := hroot
      have hread : visitAcl jsonldFatalDyn sv.reader (.ok (body, metadata)) =
          visitAcl jsonldFatalDyn sv.reader
            (.ok (body, ⟨[], body.length, "application/ld+json"⟩)) :=
        visitAcl_congr_contentType (by rw [htype])
      rw [hget, hread]
      dsimp only
      rw [hvec]

/-- The text of the ACL begins with a directive. -/
theorem exists_publicAclTtl_eq (plan : ProvisionPlan) :
    ∃ rest, plan.publicAclTtl = '@' :: rest := by
  rw [ProvisionPlan.publicAclTtl, serializeTurtleAcl]
  split
  · exact ⟨_, rfl⟩
  · exact ⟨_, rfl⟩

/-- An ACL over the reader's limit is passed over. -/
theorem visitAcl_oversized {body : Bytes} {metadata : ResourceMeta}
    (h : sv.reader.maxBytes < body.length) (hbyte : byteLen (bodyText body) = body.length) :
    visitAcl jsonldFatalDyn sv.reader (.ok (body, metadata)) = none := by
  have hjson : parseJsonldAcl sv.reader body = .error (.payloadTooLarge
      ("ACL body exceeds " ++ decimal sv.reader.maxBytes ++ " bytes")) := by
    rw [parseJsonldAcl, parseJsonldAclWithLimits, if_pos h]
  have hturtle : parseTurtleAcl sv.reader (bodyText body) = .error (.payloadTooLarge
      ("ACL body exceeds " ++ decimal sv.reader.maxBytes ++ " bytes")) := by
    rw [parseTurtleAcl, parseTurtleAclWithLimit, if_pos (by rw [hbyte]; exact h)]
  simp only [visitAcl, hjson, jsonldFatalDyn, hturtle]
  split <;> rfl

/-- One that is read leaves a document of its rules, or an error. -/
theorem effectiveAcl_of_fits {σ : Type} [Storage σ] {s : σ} {t : Str} {message : Str}
    (hreader : sv.reader.fromSlice (utf8 t) = .error message) {metadata : ResourceMeta}
    (hget : Storage.get s publicTypeIndexAclPath = .ok (utf8 t, metadata))
    (htype : metadata.contentType = "text/turtle") (hfits : (utf8 t).length ≤ sv.reader.maxBytes) :
    (∃ e, effectiveAcl sv s publicTypeIndexPath = .error e) ∨
      ∃ doc, parseTurtleAclWithLimit t sv.reader.maxBytes = .ok doc ∧
        effectiveAcl sv s publicTypeIndexPath = .ok (some doc) := by
  have hjson : ∃ e, parseJsonldAcl sv.reader (utf8 t) = .error e := by
    rw [parseJsonldAcl, parseJsonldAclWithLimits, if_neg (Nat.not_lt.mpr hfits)]
    cases checkJsonDepth (utf8 t) sv.reader.maxDepth with
    | error e => exact ⟨e, rfl⟩
    | ok u => exact ⟨_, by rw [hreader]⟩
  obtain ⟨e', he'⟩ := hjson
  have hkeys : aclKeys publicTypeIndexPath =
      [publicTypeIndexAclPath, "/settings.acl", "/.acl"] := by
    decide
  have hlimit : ¬ byteLen t > sv.reader.maxBytes := Nat.not_lt.mpr hfits
  have htext : bodyText (utf8 t) = t := by
    rw [bodyText, fromUtf8_utf8]
    rfl
  have hturtle : triesTurtle (utf8 t) metadata.contentType = true := by
    have hlooks : looksTurtle "text/turtle" = true := by decide
    rw [triesTurtle, htype, hlooks]
    rfl
  rw [effectiveAcl, findEffectiveAclDyn, walkAcl, hkeys, List.findSome?_cons, hget]
  cases hfatal : jsonldFatalDyn e' with
  | some e'' =>
      refine Or.inl ⟨e'', ?_⟩
      simp only [visitAcl, he', hfatal]
  | none =>
      cases hparse : parseTurtleAclWithLimit t sv.reader.maxBytes with
      | error e'' =>
          rw [parseTurtleAclWithLimit, if_neg hlimit] at hparse
          cases hparse
      | ok doc =>
          refine Or.inr ⟨doc, rfl, ?_⟩
          simp only [visitAcl, he', hfatal, hturtle, htext, parseTurtleAcl, hparse, if_true]

/-- The ACL next to the public index is read, so the promise is broken. -/
theorem not_keepsPromise_of_fits {σ : Type} [Storage σ] [LawfulStorage σ] [SidecarStorage σ]
    {w : JsonWriter} {plan : ProvisionPlan} {s : σ} {out : ProvisionOutcome}
    (hreader : RefusesDirectives sv.reader)
    (hrun : ((provisionPod w plan).exec s).1 = .ok out)
    (hfits : (utf8 plan.publicAclTtl).length ≤ sv.reader.maxBytes) :
    ¬ KeepsPromise sv ((provisionPod w plan).exec s).2 plan.webid := by
  obtain ⟨⟨metadata, hget, htype⟩, -, -⟩ := get_provisionPod hrun
  obtain ⟨n, hx, hwebid, httl⟩ := plan.exists_publicAclTtl
  obtain ⟨rest, hrest⟩ := exists_publicAclTtl_eq plan
  obtain ⟨message, hmessage⟩ := hreader rest
  rw [← hrest] at hmessage
  intro hpromise
  rw [KeepsPromise] at hpromise
  rcases effectiveAcl_of_fits sv hmessage hget htype hfits with ⟨e, he⟩ | ⟨doc, hparse, hdoc⟩
  · rw [he] at hpromise
    exact absurd (hpromise.owner .read (by simp)) (by simp [decided])
  · rw [hdoc, hwebid] at hpromise
    rw [httl] at hparse
    exact not_promise_of_text sv hx n hparse _ hpromise

/-- The promise is kept exactly when the ACL next to the public index is over the reader's
limit and the root ACL of the plan keeps it alone. -/
theorem keepsPromise_iff {σ : Type} [Storage σ] [LawfulStorage σ] [SidecarStorage σ]
    {w : JsonWriter} {plan : ProvisionPlan} {s : σ} {out : ProvisionOutcome}
    (hreader : RefusesDirectives sv.reader) (hempty : ∀ key, ¬ Stored s key)
    (hrun : ((provisionPod w plan).exec s).1 = .ok out) :
    KeepsPromise sv ((provisionPod w plan).exec s).2 plan.webid ↔
      sv.reader.maxBytes < (utf8 plan.publicAclTtl).length ∧
        Promise sv plan.webid (readRootAcl sv w plan) (readRootAcl sv w plan) := by
  by_cases hfits : (utf8 plan.publicAclTtl).length ≤ sv.reader.maxBytes
  · have hnot := not_keepsPromise_of_fits sv hreader hrun hfits
    constructor
    · exact fun h => absurd h hnot
    · exact fun h => absurd hfits (Nat.not_le.mpr h.1)
  · have hover := Nat.not_le.mp hfits
    rw [and_iff_right hover]
    obtain ⟨⟨metadata, hget, htype⟩, hkeys, hroot⟩ := get_provisionPod hrun
    have habsent : ∀ key, ∃ e, Storage.get s key = .error e := by
      intro key
      cases h : Storage.get s key with
      | error e => exact ⟨e, rfl⟩
      | ok r => exact absurd ⟨r, h⟩ (hempty key)
    obtain ⟨e, he⟩ := habsent "/settings.acl"
    obtain ⟨e', he'⟩ := habsent "/settings/privateTypeIndex.jsonld.acl"
    obtain ⟨e'', he''⟩ := habsent "/.acl"
    have hsettings := (hkeys "/settings.acl" (by simp)).trans he
    have hprivate := (hkeys "/settings/privateTypeIndex.jsonld.acl" (by simp)).trans he'
    rw [he''] at hroot
    have hpublicAcl : effectiveAcl sv ((provisionPod w plan).exec s).2 publicTypeIndexPath =
        readRootAcl sv w plan := by
      have hchain : aclKeys publicTypeIndexPath =
          [publicTypeIndexAclPath, "/settings.acl", "/.acl"] := by
        decide
      refine effectiveAcl_eq_readRootAcl sv hchain ?_ hsettings hroot
      rw [hget]
      refine visitAcl_oversized sv hover ?_
      rw [bodyText, fromUtf8_utf8]
      rfl
    have hprivateAcl : effectiveAcl sv ((provisionPod w plan).exec s).2 privateTypeIndexPath =
        readRootAcl sv w plan := by
      have hchain : aclKeys privateTypeIndexPath =
          ["/settings/privateTypeIndex.jsonld.acl", "/settings.acl", "/.acl"] := by
        decide
      refine effectiveAcl_eq_readRootAcl sv hchain ?_ hsettings hroot
      rw [hprivate]
      rfl
    rw [KeepsPromise, hpublicAcl, hprivateAcl]

/-! ## A pod in memory -/

def quoted (s : Str) : Str :=
  '"' :: s.flatMap (fun c => if c = '"' || c = '\\' then ['\\', c] else [c]) ++ ['"']

mutual

/-- The usual indents of a document of strings. -/
def prettyJson (indent : Str) : Json → Str
  | .string s => quoted s
  | .array [] => "[]"
  | .array a => "[\n" ++ join ",\n" (prettyItems (indent ++ "  ") a) ++ "\n" ++ indent ++ "]"
  | .object [] => "\x7b\x7d"
  | .object m =>
    "\x7b\n" ++ join ",\n" (prettyMembers (indent ++ "  ") m) ++ "\n" ++ indent ++ "\x7d"
  | _ => "null"

def prettyItems (indent : Str) : List Json → List Str
  | [] => []
  | v :: a => (indent ++ prettyJson indent v) :: prettyItems indent a

def prettyMembers (indent : Str) : List (Str × Json) → List Str
  | [] => []
  | (key, v) :: m => (indent ++ quoted key ++ ": " ++ prettyJson indent v) :: prettyMembers indent m

end

/-- A writer for plans without a root ACL. -/
def prettyWriter : JsonWriter := ⟨prettyJson [], fun _ => .error "no document"⟩

/-- In memory a plan whose containers are named as such, without a root ACL, is provisioned. -/
theorem returns_provisionPod {digest : Bytes → Str} (w : JsonWriter) {plan : ProvisionPlan}
    (hroot : plan.rootAcl = none) (hcontainers : ∀ c ∈ plan.containers, isContainer c = true) :
    Program.Returns (σ := MemoryBackend digest) (provisionPod w plan)
      (plan.outcome plan.allContainers) := by
  have hput : ∀ key body contentType,
      Program.Returns (σ := MemoryBackend digest) (put key body contentType) () :=
    fun _ _ _ _ => rfl
  have hcreate : ∀ l : List Str, (∀ c ∈ l, isContainer c = true) →
      Program.Returns (σ := MemoryBackend digest) (createContainers l) l := by
    intro l
    induction l with
    | nil => exact fun _ => .pure []
    | cons c l ih =>
        intro h
        rw [List.forall_mem_cons] at h
        refine .bind (.rejectIf (by simp [h.1]) _) ?_
        refine .bind (a := [c]) (fun _ => rfl) ?_
        exact .bind (ih h.2) (.pure _)
  have hdefault : ∀ c ∈ ProvisionPlan.defaultContainers, isContainer c = true := by decide
  have hall : ∀ c ∈ plan.allContainers, isContainer c = true := by
    intro c hc
    have hmem := (List.destutter_sublist _ _).mem hc
    rw [List.mem_insertionSort, List.mem_append] at hmem
    rcases hmem with hmem | hmem
    · exact hcontainers c hmem
    · exact hdefault c hmem
  have hseed : Program.Returns (σ := MemoryBackend digest) (seedPod w plan) plan.allContainers := by
    refine .bind (hcreate _ hall) (.bind (hput _ _ _) (.bind (a := ()) ?_
      (.bind (hput _ _ _) (.bind (hput _ _ _) (.pure _)))))
    rw [hroot]
    exact .pure ()
  exact .bind hseed (.bind (hput _ _ _) (.pure _))

def examplePlan : ProvisionPlan where
  pubkey := List.replicate 64 'a'
  displayName := none
  podBase := "https://pod.example.org"
  containers := ["/notes/"]
  rootAcl := none
  quotaBytes := none

theorem keepsPromise_iff_examplePlan :
    KeepsPromise turtleServices
        ((provisionPod prettyWriter examplePlan).exec (MemoryBackend.empty : Pod)).2
        examplePlan.webid ↔
      turtleServices.reader.maxBytes < (utf8 examplePlan.publicAclTtl).length ∧
        Promise turtleServices examplePlan.webid
          (readRootAcl turtleServices prettyWriter examplePlan)
          (readRootAcl turtleServices prettyWriter examplePlan) := by
  refine keepsPromise_iff turtleServices (fun _ => ⟨_, rfl⟩) ?_
    (returns_provisionPod prettyWriter rfl (by decide) MemoryBackend.empty)
  rintro key ⟨r, hr⟩
  cases hr

/-- The usual plan: not even the owner may write to the public index. -/
theorem not_keepsPromise_examplePlan :
    ¬ KeepsPromise turtleServices
      ((provisionPod prettyWriter examplePlan).exec (MemoryBackend.empty : Pod)).2
      examplePlan.webid := by
  refine not_keepsPromise_of_fits turtleServices (fun _ => ⟨_, rfl⟩)
    (returns_provisionPod prettyWriter rfl (by decide) MemoryBackend.empty) ?_
  decide +kernel

end Provision

end SolidPod
