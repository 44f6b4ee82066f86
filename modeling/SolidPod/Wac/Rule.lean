import SolidPod.Foundation.UnixPath
import SolidPod.Wac.Evaluator

/-!
# The rule of access control

What a document says, apart from how it is evaluated: an agent has a mode at a
place if one of the authorisations says so. A place is the list of segments below
the root of the pod. The evaluator decides this rule, so neither the order of the
authorisations nor that of their lists matters, and no authorisation takes away
what another one grants.
-/

namespace SolidPod

namespace Wac

open Foundation Str Segments

/-! ## Places -/

def absolute (path : Str) : Str := if startsWith "/" path then path else '/' :: path

/-- A text that begins with a dot is relative to the root of the pod. -/
def fromRoot : Str → Str
  | '.' :: '/' :: rest => absolute rest
  | '.' :: rest => absolute rest
  | path => path

/-- The path from the root, without slashes at its end. -/
def rooted (path : Str) : Str := trimEndMatches '/' (fromRoot path)

/-- The segments that lead to a path. -/
def place (path : Str) : List Str := (rooted path).splitOn '/'

/-- The target is the place itself or its direct parent. -/
def Reaches (target path : Str) : Prop :=
  place path = place target ∨ ∃ name, place path = place target ++ [name]

/-- The target is the place itself or above it. -/
def Inherits (target path : Str) : Prop := place target <+: place path

theorem fromRoot_of_ne_dot {c : Char} (h : c ≠ '.') (path : Str) :
    fromRoot (c :: path) = c :: path := by
  rw [fromRoot]
  · intro rest heq
    exact h (List.cons.inj heq).1
  · intro rest heq
    exact h (List.cons.inj heq).1

theorem fromRoot_dot_of_ne_slash {c : Char} (h : c ≠ '/') (path : Str) :
    fromRoot ('.' :: c :: path) = absolute (c :: path) := by
  rw [fromRoot]
  intro rest heq
  exact h (List.cons.inj heq).1

theorem normalizePath_eq (path : Str) :
    normalizePath path = if rooted path = [] then ['/'] else rooted path := by
  have hdot : ∀ {c : Char} (path : Str), c ≠ '.' → stripPrefix "." (c :: path) = none := by
    intro c path h
    exact (stripPrefix_singleton_cons '.' c path).trans (if_neg h)
  suffices h : normalizePath path = if (rooted path).isEmpty then ['/'] else rooted path by
    rw [h]
    simp only [List.isEmpty_iff]
  rw [rooted]
  rcases path with _ | ⟨c, path⟩
  · rfl
  · by_cases hc : c = '.'
    · subst hc
      rcases path with _ | ⟨d, path⟩
      · rfl
      · by_cases hd : d = '/'
        · subst hd
          cases path with
          | nil => rfl
          | cons e path => rfl
        · have hnone : stripPrefix "./" ('.' :: d :: path) = none := by
            refine stripPrefix_eq_none.mpr ?_
            rintro ⟨rest, heq⟩
            exact hd (List.cons.inj (List.cons.inj heq).2).1.symm
          rw [fromRoot_dot_of_ne_slash hd, normalizePath, hnone]
          rfl
    · have hnone : stripPrefix "./" (c :: path) = none := by
        refine stripPrefix_eq_none.mpr ?_
        rintro ⟨rest, heq⟩
        exact hc (List.cons.inj heq).1.symm
      rw [fromRoot_of_ne_dot hc, normalizePath, hnone, hdot path hc]
      rfl

theorem rooted_ne_append_slash (path s : Str) : rooted path ≠ s ++ ['/'] := by
  intro h
  have hne : rooted path ≠ [] := by
    rw [h]
    exact List.append_ne_nil_of_right_ne_nil s (List.cons_ne_nil _ _)
  have hlast := List.rdropWhile_last_not (· == '/') (fromRoot path) hne
  simp only [← trimEndMatches.eq_1, ← rooted.eq_1, h, List.getLast_append_singleton] at hlast
  exact hlast rfl

theorem normalizePath_inj {path path' : Str} :
    normalizePath path = normalizePath path' ↔ rooted path = rooted path' := by
  rw [normalizePath_eq, normalizePath_eq]
  split_ifs with h h' h'
  · exact iff_of_true rfl (h.trans h'.symm)
  · rw [h]
    exact iff_of_false (fun heq => rooted_ne_append_slash path' [] heq.symm) (Ne.symm h')
  · rw [h']
    exact iff_of_false (rooted_ne_append_slash path []) h
  · rfl

/-- The text that an authorisation asks for before a name below its target. -/
theorem normalizePath_slash (path : Str) :
    (if normalizePath path == "/" then "/" else normalizePath path ++ ['/'] : Str) =
      rooted path ++ ['/'] := by
  rw [normalizePath_eq]
  by_cases hroot : rooted path = []
  · rw [if_pos hroot, hroot]
    rfl
  · have hne : (rooted path == "/") = false := beq_false_of_ne (rooted_ne_append_slash path [])
    rw [if_neg hroot, hne]
    rfl

/-- A path that goes on after that text is not the root. -/
theorem normalizePath_eq_append {path t rest : Str} (h : rooted path ≠ t) :
    normalizePath path = t ++ '/' :: rest ↔ rooted path = t ++ '/' :: rest := by
  rw [normalizePath_eq]
  split_ifs with hroot
  · rw [hroot] at h ⊢
    refine iff_of_false (fun heq => ?_) (by simp)
    cases t with
    | nil => exact h rfl
    | cons c t => exact absurd (List.cons.inj heq).2 (by simp)
  · rfl

theorem place_inj {path path' : Str} : place path = place path' ↔ rooted path = rooted path' :=
  ⟨splitOn_injective, fun h => congrArg (List.splitOn '/') h⟩

theorem pathMatches_self {target path : Str} (h : rooted path = rooted target) (isDefault : Bool) :
    pathMatches target path isDefault = true := by
  simp only [pathMatches, normalizePath_inj.mpr h, beq_self_eq_true, if_true]

theorem pathMatches_accessTo (target path : Str) :
    pathMatches target path false = true ↔ Reaches target path := by
  by_cases heq : rooted path = rooted target
  · exact iff_of_true (pathMatches_self heq false) (Or.inl (place_inj.mpr heq))
  · have hdiff : (normalizePath path == normalizePath target) = false :=
      beq_false_of_ne fun h => heq (normalizePath_inj.mp h)
    have hreaches : Reaches target path ↔
        ∃ name, rooted path = rooted target ++ '/' :: name ∧ '/' ∉ name := by
      rw [Reaches, place_inj, or_iff_right heq]
      simp only [place, splitOn_eq_append_singleton_iff]
    simp only [pathMatches, hdiff, Bool.false_eq_true, if_false, Bool.not_false, if_true]
    rw [normalizePath_slash, hreaches]
    cases hstrip : stripPrefix (rooted target ++ ['/']) (normalizePath path) with
    | none =>
        refine iff_of_false Bool.false_ne_true ?_
        rintro ⟨name, hname, -⟩
        refine stripPrefix_eq_none.mp hstrip ⟨name, ?_⟩
        rw [List.append_assoc, List.singleton_append, (normalizePath_eq_append heq).mpr hname]
    | some rest =>
        have hpath := stripPrefix_eq_some.mp hstrip
        rw [List.append_assoc, List.singleton_append, normalizePath_eq_append heq] at hpath
        have hne : rest ≠ [] := by
          rintro rfl
          exact rooted_ne_append_slash path (rooted target) hpath
        simp only [Bool.and_eq_true, Bool.not_eq_true', List.isEmpty_eq_false_iff, hpath,
          List.append_cancel_left_eq, List.cons.injEq, true_and, exists_eq_left', hne, ne_eq,
          not_false_eq_true]
        rw [← Bool.not_eq_true, List.contains_iff_mem]

theorem pathMatches_default (target path : Str) :
    pathMatches target path true = true ↔ Inherits target path := by
  rw [Inherits, place, place, splitOn_isPrefix_iff]
  by_cases heq : rooted path = rooted target
  · exact iff_of_true (pathMatches_self heq true) (Or.inl heq)
  · have hdiff : (normalizePath path == normalizePath target) = false :=
      beq_false_of_ne fun h => heq (normalizePath_inj.mp h)
    have hcommon : pathMatches target path true =
        startsWith (rooted target ++ ['/']) (normalizePath path) := by
      rw [← normalizePath_slash]
      simp only [pathMatches, hdiff, Bool.false_eq_true, if_false, Bool.not_true]
      split_ifs with hroot
      · rfl
      · rfl
    rw [hcommon, startsWith, List.isPrefixOf_iff_prefix, or_iff_right heq]
    refine exists_congr fun rest => ?_
    rw [List.append_assoc, List.singleton_append, eq_comm, normalizePath_eq_append heq, eq_comm]

/-! ## What an authorisation says -/

/-- The names of a mode. -/
def modeIris : AccessMode → List Str
  | .read => ["acl:Read", "http://www.w3.org/ns/auth/acl#Read"]
  | .write => ["acl:Write", "http://www.w3.org/ns/auth/acl#Write"]
  | .append => ["acl:Append", "http://www.w3.org/ns/auth/acl#Append"]
  | .control => ["acl:Control", "http://www.w3.org/ns/auth/acl#Control"]

/-- The mode is listed; whoever may write may append. -/
def Lists (auth : AclAuthorization) (mode : AccessMode) : Prop :=
  ∃ modeRef ∈ getIds auth.mode,
    modeRef ∈ modeIris mode ∨ mode = .append ∧ modeRef ∈ modeIris .write

/-- The agent is named, or belongs to a class or a group that is. -/
def Names (auth : AclAuthorization) (webId : Option Str) (groups : GroupMembership) : Prop :=
  (∃ cls ∈ getIds auth.agentClass, isPublicClass cls) ∨
    ∃ uri, webId = some uri ∧
      (uri ∈ getIds auth.agent ∨ (∃ cls ∈ getIds auth.agentClass, isAuthenticatedClass cls) ∨
        ∃ group ∈ getIds auth.agentGroup, groups group uri)

/-- One of the targets leads to the path. -/
def Covers (auth : AclAuthorization) (path : Str) : Prop :=
  (∃ target ∈ getIds auth.accessTo, Reaches target path) ∨
    ∃ target ∈ getIds auth.default, Inherits target path

structure Authorises (auth : AclAuthorization) (ctx : RequestContext) (path : Str)
    (mode : AccessMode) (groups : GroupMembership) (dispatcher : ConditionDispatcher) : Prop where
  lists : Lists auth mode
  names : Names auth ctx.webId groups
  covers : Covers auth path
  conditions : ∀ cond ∈ auth.conditions, dispatcher cond ctx groups = .satisfied

/-- One of the authorisations of the document says so. -/
def Permits (doc : AclDocument) (ctx : RequestContext) (path : Str) (mode : AccessMode)
    (groups : GroupMembership) (dispatcher : ConditionDispatcher) : Prop :=
  ∃ graph, doc.graph = some graph ∧
    ∃ auth ∈ graph, Authorises auth ctx path mode groups dispatcher

theorem mem_mapMode_iff (modeRef : Str) (mode : AccessMode) : mode ∈ mapMode modeRef ↔
    modeRef ∈ modeIris mode ∨ mode = .append ∧ modeRef ∈ modeIris .write := by
  have hclosed : ∀ l ∈ allModes, ∀ r ∈ modeIris l, ∀ m ∈ allModes, m ∈ mapMode r ↔
      r ∈ modeIris m ∨ m = .append ∧ r ∈ modeIris .write := by
    decide
  have hall : ∀ m, m ∈ allModes := by
    intro m
    cases m <;> decide
  by_cases h : ∃ l, modeRef ∈ modeIris l
  · obtain ⟨l, hl⟩ := h
    exact hclosed l (hall l) modeRef hl mode (hall mode)
  · have hno : ∀ l a b, modeIris l = [a, b] → ¬ (modeRef == a || modeRef == b) = true := by
      intro l a b hl hor
      rw [Bool.or_eq_true, beq_iff_eq, beq_iff_eq] at hor
      refine h ⟨l, ?_⟩
      rw [hl, List.mem_cons, List.mem_singleton]
      exact hor
    rw [mapMode, if_neg (hno .read _ _ rfl), if_neg (hno .write _ _ rfl),
      if_neg (hno .append _ _ rfl), if_neg (hno .control _ _ rfl)]
    refine iff_of_false (List.not_mem_nil) ?_
    rintro (hmode | ⟨-, hwrite⟩)
    · exact h ⟨mode, hmode⟩
    · exact h ⟨.write, hwrite⟩

theorem contains_getModes_iff (auth : AclAuthorization) (mode : AccessMode) :
    (getModes auth).contains mode = true ↔ Lists auth mode := by
  rw [List.contains_iff_mem, getModes, List.mem_flatMap]
  exact exists_congr fun modeRef => and_congr_right fun _ => mem_mapMode_iff modeRef mode

theorem agentMatchesWithGroups_iff (auth : AclAuthorization) (webId : Option Str)
    (groups : GroupMembership) :
    agentMatchesWithGroups auth webId groups = true ↔ Names auth webId groups := by
  rw [agentMatchesWithGroups, Names]
  cases webId with
  | none => simp
  | some uri =>
      simp only [Option.map_some, Option.getD_some, Option.isSome_some, Bool.true_and,
        Bool.or_eq_true, List.contains_iff_mem, List.any_eq_true, Option.some.injEq,
        exists_eq_left', and_or_left, exists_or]
      rw [or_assoc, or_assoc]
      exact or_left_comm

theorem pathOk_iff (auth : AclAuthorization) (path : Str) :
    pathOk auth path = true ↔ Covers auth path := by
  rw [pathOk, Covers, Bool.or_eq_true, List.any_eq_true, List.any_eq_true]
  exact or_congr
    (exists_congr fun target => and_congr_right fun _ => pathMatches_accessTo target path)
    (exists_congr fun target => and_congr_right fun _ => pathMatches_default target path)

section Evaluation

variable {auth auth' : AclAuthorization} {ctx ctx' : RequestContext} {path : Str}
  {mode : AccessMode} {groups : GroupMembership} {dispatcher : ConditionDispatcher}

theorem authGrants_iff : authGrants auth ctx path mode groups dispatcher = true ↔
    Authorises auth ctx path mode groups dispatcher := by
  rw [authGrants, Bool.and_eq_true, Bool.and_eq_true, Bool.and_eq_true, contains_getModes_iff,
    agentMatchesWithGroups_iff, pathOk_iff, List.all_eq_true]
  constructor
  · rintro ⟨⟨⟨hlists, hnames⟩, hcovers⟩, hconditions⟩
    exact ⟨hlists, hnames, hcovers, fun cond hcond => beq_iff_eq.mp (hconditions cond hcond)⟩
  · intro h
    exact ⟨⟨⟨h.lists, h.names⟩, h.covers⟩,
      fun cond hcond => beq_iff_eq.mpr (h.conditions cond hcond)⟩

theorem evaluateAccessCtx_iff {feature : OriginFeature} (hoff : feature.enabled = false)
    (doc : AclDocument) (requestOrigin : Option Origin) :
    evaluateAccessCtx feature (some doc) ctx path mode requestOrigin groups dispatcher = true ↔
      Permits doc ctx path mode groups dispatcher := by
  rw [evaluateAccessCtx, evaluateAccessCtxInner, Permits]
  cases hgraph : doc.graph with
  | none => simp
  | some graph =>
      simp only [Option.some.injEq, exists_eq_left', ← authGrants_iff, ← List.any_eq_true, hoff]
      cases graph.any fun auth => authGrants auth ctx path mode groups dispatcher with
      | false => simp
      | true => simp

/-! ## Order -/

/-- The same condition with its lists in another order. -/
inductive Condition.Rearranged : Condition → Condition → Prop
  | client {body body' : ClientConditionBody}
      (client : (getIds body.client).Perm (getIds body'.client))
      (clientGroup : (getIds body.clientGroup).Perm (getIds body'.clientGroup))
      (clientClass : (getIds body.clientClass).Perm (getIds body'.clientClass)) :
      Condition.Rearranged (.client body) (.client body')
  | issuer {body body' : IssuerConditionBody}
      (issuer : (getIds body.issuer).Perm (getIds body'.issuer))
      (issuerGroup : (getIds body.issuerGroup).Perm (getIds body'.issuerGroup))
      (issuerClass : (getIds body.issuerClass).Perm (getIds body'.issuerClass)) :
      Condition.Rearranged (.issuer body) (.issuer body')
  | unknown (typeIri : Str) : Condition.Rearranged (.unknown typeIri) (.unknown typeIri)

/-- The same authorisation with its lists in another order, and conditions that
correspond by a relation. -/
structure AclAuthorization.Rearranged (R : Condition → Condition → Prop)
    (auth auth' : AclAuthorization) : Prop where
  agent : (getIds auth.agent).Perm (getIds auth'.agent)
  agentClass : (getIds auth.agentClass).Perm (getIds auth'.agentClass)
  agentGroup : (getIds auth.agentGroup).Perm (getIds auth'.agentGroup)
  origin : (getIds auth.origin).Perm (getIds auth'.origin)
  accessTo : (getIds auth.accessTo).Perm (getIds auth'.accessTo)
  default : (getIds auth.default).Perm (getIds auth'.default)
  mode : (getIds auth.mode).Perm (getIds auth'.mode)
  condition : ∃ conds, auth.conditions.Perm conds ∧ List.Forall₂ R conds auth'.conditions

section Rearranged

variable {α β : Type*} {R : α → β → Prop} {p : α → Prop} {q : β → Prop} {l : List α} {l' : List β}

theorem exists_mem_iff_of_forall₂ (h : List.Forall₂ R l l') (hpq : ∀ a b, R a b → (p a ↔ q b)) :
    (∃ a ∈ l, p a) ↔ ∃ b ∈ l', q b := by
  induction h with
  | nil => simp
  | cons hab _ ih => rw [List.exists_mem_cons_iff, List.exists_mem_cons_iff, hpq _ _ hab, ih]

theorem forall_mem_iff_of_forall₂ (h : List.Forall₂ R l l') (hpq : ∀ a b, R a b → (p a ↔ q b)) :
    (∀ a ∈ l, p a) ↔ ∀ b ∈ l', q b := by
  induction h with
  | nil => simp
  | cons hab _ ih => rw [List.forall_mem_cons, List.forall_mem_cons, hpq _ _ hab, ih]

theorem exists_mem_iff_of_perm {l l' : List α} (h : l.Perm l') :
    (∃ a ∈ l, p a) ↔ ∃ a ∈ l', p a :=
  exists_congr fun _ => and_congr_left' h.mem_iff

end Rearranged

/-- Every list of an authorisation counts by its members only. -/
theorem authorises_iff_of_rearranged {R : Condition → Condition → Prop}
    (hR : ∀ cond cond', R cond cond' →
      dispatcher cond ctx groups = dispatcher cond' ctx groups)
    (h : auth.Rearranged R auth') : Authorises auth ctx path mode groups dispatcher ↔
      Authorises auth' ctx path mode groups dispatcher := by
  have hlists : Lists auth mode ↔ Lists auth' mode := exists_mem_iff_of_perm h.mode
  have hnames : Names auth ctx.webId groups ↔ Names auth' ctx.webId groups := by
    refine or_congr (exists_mem_iff_of_perm h.agentClass) (exists_congr fun uri => ?_)
    exact and_congr_right fun _ => or_congr h.agent.mem_iff
      (or_congr (exists_mem_iff_of_perm h.agentClass) (exists_mem_iff_of_perm h.agentGroup))
  have hcovers : Covers auth path ↔ Covers auth' path :=
    or_congr (exists_mem_iff_of_perm h.accessTo) (exists_mem_iff_of_perm h.default)
  have hconditions : (∀ cond ∈ auth.conditions, dispatcher cond ctx groups = .satisfied) ↔
      ∀ cond ∈ auth'.conditions, dispatcher cond ctx groups = .satisfied := by
    obtain ⟨conds, hperm, hall⟩ := h.condition
    refine (forall_congr' fun cond => imp_congr_left hperm.mem_iff).trans
      (forall_mem_iff_of_forall₂ hall fun cond cond' hcond => ?_)
    rw [hR cond cond' hcond]
  constructor
  · intro ha
    exact ⟨hlists.mp ha.lists, hnames.mp ha.names, hcovers.mp ha.covers,
      hconditions.mp ha.conditions⟩
  · intro ha
    exact ⟨hlists.mpr ha.lists, hnames.mpr ha.names, hcovers.mpr ha.covers,
      hconditions.mpr ha.conditions⟩

theorem evaluateSubject_congr {classes classes' ids ids' groupIds groupIds' : List Str}
    (hclasses : classes.Perm classes') (hids : ids.Perm ids') (hgroups : groupIds.Perm groupIds')
    (subject : Option Str) (groups : GroupMembership) :
    evaluateSubject classes ids groupIds subject groups =
      evaluateSubject classes' ids' groupIds' subject groups := by
  unfold evaluateSubject
  rw [hclasses.any_eq]
  cases subject with
  | none => rfl
  | some x => simp only [hids.any_eq, hgroups.any_eq]

theorem dispatch_of_rearranged (registry : ConditionRegistry) {cond cond' : Condition}
    (h : cond.Rearranged cond') :
    registry.dispatch cond ctx groups = registry.dispatch cond' ctx groups := by
  cases h with
  | client client clientGroup clientClass =>
      simp only [ConditionRegistry.dispatch, ClientConditionEvaluator.evaluate,
        evaluateSubject_congr clientClass client clientGroup]
  | issuer issuer issuerGroup issuerClass =>
      simp only [ConditionRegistry.dispatch, IssuerConditionEvaluator.evaluate,
        evaluateSubject_congr issuerClass issuer issuerGroup]
  | unknown typeIri => rfl

/-! ## Agents -/

/-- The second request tells all that the first one tells of its client and issuer. -/
structure RequestContext.Tells (ctx ctx' : RequestContext) : Prop where
  clientId : ∀ client, ctx.clientId = some client → ctx'.clientId = some client
  issuer : ∀ iss, ctx.issuer = some iss → ctx'.issuer = some iss

theorem evaluateSubject_mono {classes ids groupIds : List Str} {subject subject' : Option Str}
    (h : ∀ x, subject = some x → subject' = some x)
    (hsat : evaluateSubject classes ids groupIds subject groups = .satisfied) :
    evaluateSubject classes ids groupIds subject' groups = .satisfied := by
  cases subject with
  | some x => rwa [h x rfl]
  | none =>
      unfold evaluateSubject at hsat ⊢
      split_ifs at hsat ⊢ with hpublic
      rfl

theorem dispatch_of_tells (registry : ConditionRegistry) (htells : ctx.Tells ctx')
    {cond : Condition} (h : registry.dispatch cond ctx groups = .satisfied) :
    registry.dispatch cond ctx' groups = .satisfied := by
  cases cond with
  | client body =>
      simp only [ConditionRegistry.dispatch] at h ⊢
      cases heval : registry.clientEval with
      | none =>
          rw [heval] at h
          cases h
      | some e =>
          rw [heval] at h
          exact evaluateSubject_mono htells.clientId h
  | issuer body =>
      simp only [ConditionRegistry.dispatch] at h ⊢
      cases heval : registry.issuerEval with
      | none =>
          rw [heval] at h
          cases h
      | some e =>
          rw [heval] at h
          exact evaluateSubject_mono htells.issuer h
  | unknown typeIri => cases h

theorem Names.of_none (h : Names auth none groups) (webId : Option Str) :
    Names auth webId groups := by
  rcases h with hpublic | ⟨uri, huri, -⟩
  · exact Or.inl hpublic
  · cases huri

/-- What is granted to nobody in particular is granted to everyone. -/
theorem Authorises.of_anonymous {registry : ConditionRegistry} (hnone : ctx.webId = none)
    (htells : ctx.Tells ctx') (h : Authorises auth ctx path mode groups registry.dispatch) :
    Authorises auth ctx' path mode groups registry.dispatch where
  lists := h.lists
  names := by
    have hnames := h.names
    rw [hnone] at hnames
    exact hnames.of_none ctx'.webId
  covers := h.covers
  conditions cond hcond := dispatch_of_tells registry htells (h.conditions cond hcond)

/-! ## Evaluation and the rule -/

section Documents

variable {graph graph' : List AclAuthorization}

theorem permits_graph_iff : Permits ⟨some graph⟩ ctx path mode groups dispatcher ↔
    ∃ auth ∈ graph, Authorises auth ctx path mode groups dispatcher := by
  simp only [Permits, Option.some.injEq, exists_eq_left']

theorem permits_iff_of_rearranged {R : Condition → Condition → Prop}
    (hR : ∀ cond cond', R cond cond' →
      dispatcher cond ctx groups = dispatcher cond' ctx groups)
    (h : List.Forall₂ (AclAuthorization.Rearranged R) graph graph') :
    Permits ⟨some graph⟩ ctx path mode groups dispatcher ↔
      Permits ⟨some graph'⟩ ctx path mode groups dispatcher := by
  rw [permits_graph_iff, permits_graph_iff]
  exact exists_mem_iff_of_forall₂ h fun _ _ hauth => authorises_iff_of_rearranged hR hauth

end Documents

end Evaluation

/-- With the origin gate off the evaluator decides the rule. So the order of the
graph and that of the lists in it do not matter, an authorisation that is added
revokes nothing, and what is granted without a WebID is granted with any. -/
theorem evaluateAccessCtx_decides_rule (feature : OriginFeature) (hoff : feature.enabled = false)
    (ctx : RequestContext) (path : Str) (mode : AccessMode) (requestOrigin : Option Origin)
    (groups : GroupMembership) :
    (∀ doc dispatcher,
      evaluateAccessCtx feature (some doc) ctx path mode requestOrigin groups dispatcher = true ↔
        Permits doc ctx path mode groups dispatcher) ∧
    (∀ graph graph' dispatcher, graph.Perm graph' →
      evaluateAccessCtx feature (some ⟨some graph⟩) ctx path mode requestOrigin groups dispatcher =
        evaluateAccessCtx feature (some ⟨some graph'⟩) ctx path mode requestOrigin groups
          dispatcher) ∧
    (∀ graph graph' dispatcher, List.Forall₂ (AclAuthorization.Rearranged Eq) graph graph' →
      evaluateAccessCtx feature (some ⟨some graph⟩) ctx path mode requestOrigin groups dispatcher =
        evaluateAccessCtx feature (some ⟨some graph'⟩) ctx path mode requestOrigin groups
          dispatcher) ∧
    (∀ graph graph' (registry : ConditionRegistry),
      List.Forall₂ (AclAuthorization.Rearranged Condition.Rearranged) graph graph' →
        evaluateAccessCtx feature (some ⟨some graph⟩) ctx path mode requestOrigin groups
            registry.dispatch =
          evaluateAccessCtx feature (some ⟨some graph'⟩) ctx path mode requestOrigin groups
            registry.dispatch) ∧
    (∀ before auth after dispatcher,
      evaluateAccessCtx feature (some ⟨some (before ++ after)⟩) ctx path mode requestOrigin groups
          dispatcher = true →
        evaluateAccessCtx feature (some ⟨some (before ++ auth :: after)⟩) ctx path mode
          requestOrigin groups dispatcher = true) ∧
    ∀ doc (registry : ConditionRegistry) ctx', ctx.webId = none → ctx.Tells ctx' →
      evaluateAccessCtx feature (some doc) ctx path mode requestOrigin groups
          registry.dispatch = true →
        evaluateAccessCtx feature (some doc) ctx' path mode requestOrigin groups
          registry.dispatch = true := by
  have hrule : ∀ (ctx : RequestContext) doc dispatcher,
      evaluateAccessCtx feature (some doc) ctx path mode requestOrigin groups dispatcher = true ↔
        Permits doc ctx path mode groups dispatcher :=
    fun ctx doc dispatcher => evaluateAccessCtx_iff hoff doc requestOrigin
  refine ⟨hrule ctx, ?_, ?_, ?_, ?_, ?_⟩
  · intro graph graph' dispatcher hperm
    rw [Bool.eq_iff_iff, hrule, hrule, permits_graph_iff, permits_graph_iff]
    exact exists_mem_iff_of_perm hperm
  · intro graph graph' dispatcher hrearranged
    rw [Bool.eq_iff_iff, hrule, hrule]
    exact permits_iff_of_rearranged (fun cond cond' heq => by rw [heq]) hrearranged
  · intro graph graph' registry hrearranged
    rw [Bool.eq_iff_iff, hrule, hrule]
    exact permits_iff_of_rearranged (fun _ _ => dispatch_of_rearranged registry) hrearranged
  · intro before auth after dispatcher
    rw [hrule, hrule, permits_graph_iff, permits_graph_iff]
    rintro ⟨granting, hmem, hgrants⟩
    refine ⟨granting, ?_, hgrants⟩
    rw [List.mem_append, List.mem_cons]
    exact (List.mem_append.mp hmem).imp_right Or.inr
  · intro doc registry ctx' hnone htells
    rw [hrule, hrule]
    rintro ⟨graph, hgraph, auth, hmem, hauth⟩
    exact ⟨graph, hgraph, auth, hmem, hauth.of_anonymous hnone htells⟩

/-- A document that lets everyone read below the root. -/
def publicReadBelowRoot : AclDocument :=
  ⟨some [{ AclAuthorization.empty with
    agentClass := some (.single ⟨"foaf:Agent"⟩)
    default := some (.single ⟨"/"⟩)
    mode := some (.single ⟨"acl:Read"⟩) }]⟩

theorem evaluateAccessCtx_decides_publicRead :
    (evaluateAccessCtx ⟨false, fun _ => none⟩ (some publicReadBelowRoot) ⟨none, none, none⟩
        "/a/b" .read none noGroupMembership emptyDispatcher = true ↔
      Permits publicReadBelowRoot ⟨none, none, none⟩ "/a/b" .read noGroupMembership
        emptyDispatcher) ∧
    evaluateAccessCtx ⟨false, fun _ => none⟩ (some publicReadBelowRoot)
      ⟨some "alice", none, none⟩ "/a/b" .read none noGroupMembership
      ConditionRegistry.defaultWithClientAndIssuer.dispatch = true := by
  have h := evaluateAccessCtx_decides_rule ⟨false, fun _ => none⟩ rfl ⟨none, none, none⟩ "/a/b"
    .read none noGroupMembership
  refine ⟨h.1 publicReadBelowRoot emptyDispatcher, ?_⟩
  exact h.2.2.2.2.2 publicReadBelowRoot .defaultWithClientAndIssuer ⟨some "alice", none, none⟩ rfl
    ⟨nofun, nofun⟩ (by decide)

end Wac

end SolidPod
