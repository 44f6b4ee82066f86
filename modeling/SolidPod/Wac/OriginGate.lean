import SolidPod.Wac.Evaluator

/-!
# What the origin gate guarantees

The gate collects the patterns of every authorisation of the document, skips
those it has seen, and opens for a request that one of them permits, or when
there is none. So it is a gate on the document and not on the authorisation
that grants, and an entry that does not parse is as good as absent.
-/

namespace SolidPod

namespace Wac

open Foundation Str

/-- The request carries an origin, and the pattern matches it. -/
def OriginPattern.Permits (p : OriginPattern) (requestOrigin : Option Origin) : Prop :=
  (requestOrigin.map fun req => p.matches req).getD false = true

instance (p : OriginPattern) (requestOrigin : Option Origin) :
    Decidable (p.Permits requestOrigin) :=
  inferInstanceAs (Decidable (_ = true))

/-- The schemes a parsed wildcard can have. -/
def OriginPattern.WellFormed : OriginPattern → Prop
  | .wildcard scheme _ => scheme = "https" ∨ scheme = "http"
  | _ => True

/-- The patterns of a whole document, rule by rule. -/
def documentPatterns (urlParse : UrlParse) (graph : List AclAuthorization) :
    List OriginPattern :=
  graph.flatMap (extractOriginPatterns urlParse)

/-- No rule of the document declares a pattern, or a pattern of some rule, not
necessarily the one that grants, permits the request. -/
def GateOpen (urlParse : UrlParse) (graph : List AclAuthorization)
    (requestOrigin : Option Origin) : Prop :=
  (∀ rule ∈ graph, extractOriginPatterns urlParse rule = []) ∨
    ∃ rule ∈ graph, ∃ p ∈ extractOriginPatterns urlParse rule, p.Permits requestOrigin

theorem parseWildcard_wellFormed {scheme suffixPart : Str} {p : OriginPattern}
    (hscheme : scheme = "https" ∨ scheme = "http")
    (h : OriginPattern.parseWildcard scheme suffixPart = some p) : p.WellFormed := by
  unfold OriginPattern.parseWildcard at h
  split at h
  · exact absurd h (by simp)
  · split at h
    · exact absurd h (by simp)
    · split at h
      · exact absurd h (by simp)
      · rw [Option.some.injEq] at h
        rw [← h]
        exact hscheme

theorem parse_wellFormed {urlParse : UrlParse} {s : Str} {p : OriginPattern}
    (h : OriginPattern.parse urlParse s = some p) : p.WellFormed := by
  simp only [OriginPattern.parse] at h
  split at h
  · exact absurd h (by simp)
  split at h
  · rw [Option.some.injEq] at h
    rw [← h]
    exact trivial
  split at h
  · exact parseWildcard_wellFormed (Or.inl rfl) h
  split at h
  · exact parseWildcard_wellFormed (Or.inr rfl) h
  split at h
  · exact absurd h (by simp)
  rw [Option.bind_eq_some_iff] at h
  obtain ⟨origin, -, hsome⟩ := h
  split at hsome
  · rw [Option.some.injEq] at hsome
    rw [← hsome]
    exact trivial
  · exact absurd hsome (by simp)

/-- The first character of a key, which tells the kind of the pattern. -/
def OriginPattern.keyTag : OriginPattern → Char
  | .any => '*'
  | .exact _ => 'e'
  | .wildcard _ _ => 'w'

theorem head?_key (p : OriginPattern) : p.key.head? = some p.keyTag := by
  cases p with
  | any => rfl
  | exact o => rfl
  | wildcard scheme suffix => rfl

theorem wildcard_key_ne (suffix suffix' : Str) :
    (OriginPattern.wildcard "https" suffix).key ≠ (OriginPattern.wildcard "http" suffix').key := by
  intro h
  have hchar : some 's' = some ':' := congrArg (fun l : Str => l[9]?) h
  exact absurd hchar (by decide)

/-- Different well-formed patterns have different keys, so the scan skips no
pattern it has not looked at. -/
theorem key_injective {p q : OriginPattern} (hp : p.WellFormed) (hq : q.WellFormed)
    (h : p.key = q.key) : p = q := by
  have htag : p.keyTag = q.keyTag := by
    have hhead := congrArg List.head? h
    rw [head?_key, head?_key] at hhead
    exact Option.some.inj hhead
  cases p with
  | any =>
      cases q with
      | any => rfl
      | exact o => exact absurd htag (by simp [OriginPattern.keyTag])
      | wildcard scheme suffix => exact absurd htag (by simp [OriginPattern.keyTag])
  | exact o =>
      cases q with
      | any => exact absurd htag (by simp [OriginPattern.keyTag])
      | exact o' =>
          have hs : o.serialised = o'.serialised := List.append_cancel_left h
          exact congrArg OriginPattern.exact (congrArg Origin.mk hs)
      | wildcard scheme suffix => exact absurd htag (by simp [OriginPattern.keyTag])
  | wildcard scheme suffix =>
      cases q with
      | any => exact absurd htag (by simp [OriginPattern.keyTag])
      | exact o => exact absurd htag (by simp [OriginPattern.keyTag])
      | wildcard scheme' suffix' =>
          rcases hp with rfl | rfl
          · rcases hq with rfl | rfl
            · exact congrArg (OriginPattern.wildcard _) (List.append_cancel_left h)
            · exact absurd h (wildcard_key_ne suffix suffix')
          · rcases hq with rfl | rfl
            · exact absurd h.symm (wildcard_key_ne suffix' suffix)
            · exact congrArg (OriginPattern.wildcard _) (List.append_cancel_left h)

/-- What the scan knows after the patterns `ps`. -/
structure Scanned (requestOrigin : Option Origin) (ps : List OriginPattern)
    (st : List Str × Bool × Bool) : Prop where
  seen : ∀ k, k ∈ st.1 ↔ ∃ p ∈ ps, p.key = k
  anyPatterns : st.2.1 = true ↔ ps ≠ []
  matched : st.2.2 = true ↔ ∃ p ∈ ps, p.Permits requestOrigin

theorem scanned_nil (requestOrigin : Option Origin) :
    Scanned requestOrigin [] ([], false, false) :=
  ⟨by simp, by simp, by simp⟩

theorem Scanned.step {requestOrigin : Option Origin} {ps : List OriginPattern}
    {st : List Str × Bool × Bool} {p : OriginPattern} (hps : ∀ q ∈ ps, q.WellFormed)
    (hp : p.WellFormed) (h : Scanned requestOrigin ps st) :
    Scanned requestOrigin (ps ++ [p]) (checkPattern requestOrigin st p) := by
  obtain ⟨seen, any, matched⟩ := st
  by_cases hseen : seen.contains p.key = true
  · -- the pattern was scanned before, so it adds nothing
    have hmem : p ∈ ps := by
      obtain ⟨q, hq, hkey⟩ := (h.seen p.key).1 (by simpa using hseen)
      rwa [← key_injective (hps q hq) hp hkey]
    have hstep : checkPattern requestOrigin (seen, any, matched) p = (seen, any, matched) := by
      simp only [checkPattern, hseen, if_true]
    have hsame : ∀ q, q ∈ ps ++ [p] ↔ q ∈ ps := by
      intro q
      simp only [List.mem_append, List.mem_singleton, or_iff_left_iff_imp]
      rintro rfl
      exact hmem
    rw [hstep]
    constructor
    · intro k
      simp only [h.seen, hsame]
    · rw [h.anyPatterns]
      simp [List.ne_nil_of_mem hmem]
    · rw [h.matched]
      simp only [hsame]
  · have hstep : checkPattern requestOrigin (seen, any, matched) p = (p.key :: seen, true,
        matched || (requestOrigin.map fun req => p.matches req).getD false) := by
      simp only [checkPattern, hseen]
      rfl
    rw [hstep]
    constructor
    · intro k
      have hk : k ∈ seen ↔ ∃ q ∈ ps, q.key = k := h.seen k
      rw [List.mem_cons, hk]
      simp only [List.mem_append, List.mem_singleton]
      constructor
      · rintro (rfl | ⟨q, hq, hkey⟩)
        · exact ⟨p, Or.inr rfl, rfl⟩
        · exact ⟨q, Or.inl hq, hkey⟩
      · rintro ⟨q, hq | rfl, hkey⟩
        · exact Or.inr ⟨q, hq, hkey⟩
        · exact Or.inl hkey.symm
    · simp
    · have hm := h.matched
      simp only at hm
      simp only [Bool.or_eq_true, hm, List.mem_append, List.mem_singleton, or_and_right,
        exists_or, exists_eq_left]
      rfl

theorem scanned_foldl {requestOrigin : Option Origin} (todo : List OriginPattern) :
    ∀ {ps : List OriginPattern} {st : List Str × Bool × Bool},
      (∀ q ∈ ps ++ todo, q.WellFormed) → Scanned requestOrigin ps st →
      Scanned requestOrigin (ps ++ todo) (todo.foldl (checkPattern requestOrigin) st) := by
  induction todo with
  | nil =>
      intro ps st _ h
      simpa using h
  | cons p todo ih =>
      intro ps st hwf h
      rw [List.append_cons] at hwf ⊢
      refine ih hwf (h.step ?_ ?_)
      · intro q hq
        exact hwf q (by simp [hq])
      · exact hwf p (by simp)

theorem documentPatterns_wellFormed (urlParse : UrlParse) (graph : List AclAuthorization) :
    ∀ p ∈ documentPatterns urlParse graph, p.WellFormed := by
  intro p hp
  obtain ⟨rule, -, hrule⟩ := List.mem_flatMap.1 hp
  obtain ⟨entry, -, hentry⟩ := List.mem_filterMap.1 hrule
  exact parse_wellFormed hentry

theorem scanned_document (urlParse : UrlParse) (graph : List AclAuthorization)
    (requestOrigin : Option Origin) :
    Scanned requestOrigin (documentPatterns urlParse graph)
      ((documentPatterns urlParse graph).foldl (checkPattern requestOrigin)
        ([], false, false)) := by
  have h := scanned_foldl (documentPatterns urlParse graph)
    (by simpa using documentPatterns_wellFormed urlParse graph) (scanned_nil requestOrigin)
  simpa using h

/-- The gate lets a request through exactly when it is open. -/
theorem checkOrigin_lets_through_iff (urlParse : UrlParse) (graph : List AclAuthorization)
    (requestOrigin : Option Origin) :
    (checkOrigin urlParse ⟨some graph⟩ requestOrigin = .noPolicySet ∨
      checkOrigin urlParse ⟨some graph⟩ requestOrigin = .permitted) ↔
        GateOpen urlParse graph requestOrigin := by
  have h := scanned_document urlParse graph requestOrigin
  have hcheck : checkOrigin urlParse ⟨some graph⟩ requestOrigin =
      if !((documentPatterns urlParse graph).foldl (checkPattern requestOrigin)
        ([], false, false)).2.1 then .noPolicySet
      else if ((documentPatterns urlParse graph).foldl (checkPattern requestOrigin)
        ([], false, false)).2.2 then .permitted
      else if requestOrigin.isNone then .rejectedNoOrigin
      else .rejectedMismatch := rfl
  have hnone : documentPatterns urlParse graph = [] ↔
      ∀ rule ∈ graph, extractOriginPatterns urlParse rule = [] := List.flatMap_eq_nil_iff
  have hsome : (∃ p ∈ documentPatterns urlParse graph, p.Permits requestOrigin) ↔
      ∃ rule ∈ graph, ∃ p ∈ extractOriginPatterns urlParse rule, p.Permits requestOrigin := by
    simp only [documentPatterns, List.mem_flatMap]
    grind
  rw [hcheck, GateOpen, ← hnone, ← hsome, ← h.matched, ← not_iff_not.2 h.anyPatterns |>.trans
    not_not]
  split_ifs <;> simp_all

theorem evaluateAccessCtx_eq_true_iff {feature : OriginFeature} (henabled : feature.enabled = true)
    (graph : List AclAuthorization) (ctx : RequestContext) (resourcePath : Str)
    {requiredMode : AccessMode} (hmode : requiredMode ≠ .control) (requestOrigin : Option Origin)
    (groups : GroupMembership) (dispatcher : ConditionDispatcher) :
    evaluateAccessCtx feature (some ⟨some graph⟩) ctx resourcePath requiredMode requestOrigin
        groups dispatcher = true ↔
      (∃ auth ∈ graph, authGrants auth ctx resourcePath requiredMode groups dispatcher = true) ∧
        GateOpen feature.urlParse graph requestOrigin := by
  have hany : (∃ auth ∈ graph,
        authGrants auth ctx resourcePath requiredMode groups dispatcher = true) ↔
      (graph.any fun auth =>
        authGrants auth ctx resourcePath requiredMode groups dispatcher) = true :=
    List.any_eq_true.symm
  rw [hany, ← checkOrigin_lets_through_iff]
  simp only [evaluateAccessCtx, evaluateAccessCtxInner, henabled, beq_false_of_ne hmode]
  cases graph.any fun auth => authGrants auth ctx resourcePath requiredMode groups dispatcher with
  | false => simp
  | true => cases checkOrigin feature.urlParse ⟨some graph⟩ requestOrigin <;> simp

theorem exists_graph_of_granted {feature : OriginFeature} {aclDoc : Option AclDocument}
    {ctx : RequestContext} {resourcePath : Str} {requiredMode : AccessMode}
    {requestOrigin : Option Origin} {groups : GroupMembership} {dispatcher : ConditionDispatcher}
    (h : evaluateAccessCtx feature aclDoc ctx resourcePath requiredMode requestOrigin groups
      dispatcher = true) : ∃ graph, aclDoc = some ⟨some graph⟩ := by
  rcases aclDoc with _ | ⟨_ | graph⟩
  · exact absurd h (by simp [evaluateAccessCtx, evaluateAccessCtxInner])
  · exact absurd h (by simp [evaluateAccessCtx, evaluateAccessCtxInner])
  · exact ⟨graph, rfl⟩

/-- The entry `e'` is `e`, or a well-formed pattern that the request does not
match in the place of a malformed `e`. -/
def TightensEntry (urlParse : UrlParse) (requestOrigin : Option Origin) (e e' : Str) : Prop :=
  e' = e ∨ (OriginPattern.parse urlParse e = none ∧
    ∃ p, OriginPattern.parse urlParse e' = some p ∧ ¬p.Permits requestOrigin)

/-- The rule `rule'` is `rule` up to its `acl:origin` entries, some malformed
ones of which were replaced. -/
def TightensRule (urlParse : UrlParse) (requestOrigin : Option Origin)
    (rule rule' : AclAuthorization) : Prop :=
  ∃ origin', rule' = { rule with origin := origin' } ∧
    List.Forall₂ (TightensEntry urlParse requestOrigin) (getIds rule.origin) (getIds origin')

theorem exists_of_forall₂_of_mem {α β : Type*} {R : α → β → Prop} {l : List α} {l' : List β}
    (h : List.Forall₂ R l l') {a : α} (ha : a ∈ l) : ∃ b ∈ l', R a b := by
  induction h with
  | nil => exact absurd ha List.not_mem_nil
  | @cons x y l l' hxy _ ih =>
      rcases List.mem_cons.1 ha with rfl | hmem
      · exact ⟨y, List.mem_cons_self, hxy⟩
      · obtain ⟨b, hb, hab⟩ := ih hmem
        exact ⟨b, List.mem_cons_of_mem y hb, hab⟩

theorem mem_extractOriginPatterns_of_tightens {urlParse : UrlParse}
    {requestOrigin : Option Origin} {rule rule' : AclAuthorization}
    (h : TightensRule urlParse requestOrigin rule rule') {p : OriginPattern}
    (hp : p ∈ extractOriginPatterns urlParse rule) : p ∈ extractOriginPatterns urlParse rule' := by
  obtain ⟨origin', rfl, hentries⟩ := h
  obtain ⟨entry, hentry, hparse⟩ := List.mem_filterMap.1 hp
  obtain ⟨entry', hentry', hrel⟩ := exists_of_forall₂_of_mem hentries hentry
  rcases hrel with rfl | ⟨hnone, -⟩
  · exact List.mem_filterMap.2 ⟨entry', hentry', hparse⟩
  · rw [hnone] at hparse
    exact absurd hparse (by simp)

/-- In a document that declares some pattern, a malformed entry is never worth
more to a request than a well-formed one that it does not match. -/
theorem gateOpen_of_tightens {urlParse : UrlParse} {requestOrigin : Option Origin}
    {graph graph' : List AclAuthorization}
    (h : List.Forall₂ (TightensRule urlParse requestOrigin) graph graph')
    (hdeclares : ∃ rule ∈ graph, extractOriginPatterns urlParse rule ≠ [])
    (hopen : GateOpen urlParse graph requestOrigin) : GateOpen urlParse graph' requestOrigin := by
  rcases hopen with hnone | ⟨rule, hrule, p, hp, hpermits⟩
  · obtain ⟨rule, hrule, hne⟩ := hdeclares
    exact absurd (hnone rule hrule) hne
  · obtain ⟨rule', hrule', htightens⟩ := exists_of_forall₂_of_mem h hrule
    exact Or.inr ⟨rule', hrule', p, mem_extractOriginPatterns_of_tightens htightens hp, hpermits⟩

/-- The origin gate is sound for the document: a request that is granted comes
under a rule that grants it, from an origin that a pattern of the document
permits unless the document has none, and malformed entries of a document that
has a pattern do not widen the gate. -/
theorem evaluateAccessCtx_origin_sound (feature : OriginFeature)
    (henabled : feature.enabled = true) (aclDoc : Option AclDocument) (ctx : RequestContext)
    (resourcePath : Str) {requiredMode : AccessMode} (hmode : requiredMode ≠ .control)
    (requestOrigin : Option Origin) (groups : GroupMembership)
    (dispatcher : ConditionDispatcher)
    (hgranted : evaluateAccessCtx feature aclDoc ctx resourcePath requiredMode
      requestOrigin groups dispatcher = true) :
    ∃ graph, aclDoc = some ⟨some graph⟩ ∧
      (∃ auth ∈ graph, authGrants auth ctx resourcePath requiredMode groups dispatcher = true) ∧
      GateOpen feature.urlParse graph requestOrigin ∧
      ∀ graph' : List AclAuthorization,
        List.Forall₂ (TightensRule feature.urlParse requestOrigin) graph graph' →
        (∃ rule ∈ graph, extractOriginPatterns feature.urlParse rule ≠ []) →
        evaluateAccessCtx feature (some ⟨some graph'⟩) ctx resourcePath requiredMode
          requestOrigin groups dispatcher = true := by
  obtain ⟨graph, rfl⟩ := exists_graph_of_granted hgranted
  have hsplit := (evaluateAccessCtx_eq_true_iff henabled graph ctx resourcePath hmode
    requestOrigin groups dispatcher).1 hgranted
  obtain ⟨⟨auth, hauth, hgrants⟩, hopen⟩ := hsplit
  refine ⟨graph, rfl, ⟨auth, hauth, hgrants⟩, hopen, ?_⟩
  intro graph' htightens hdeclares
  rw [evaluateAccessCtx_eq_true_iff henabled graph' ctx resourcePath hmode]
  obtain ⟨auth', hauth', origin', rfl, -⟩ := exists_of_forall₂_of_mem htightens hauth
  -- a grant does not read the origins of the rule
  exact ⟨⟨_, hauth', hgrants⟩, gateOpen_of_tightens htightens hdeclares hopen⟩

/-- The rule by which an agent may read `/r` from one origin. -/
def perOriginRule (agent origin : Str) : AclAuthorization :=
  { AclAuthorization.empty with
    agent := some (.single ⟨agent⟩)
    origin := some (.single ⟨origin⟩)
    accessTo := some (.single ⟨"/r"⟩)
    mode := some (.single ⟨"acl:Read"⟩) }

/-- Alice may read from the subdomains of `a.example`, Bob from those of
`b.example`. -/
def perOriginGraph : List AclAuthorization :=
  [perOriginRule "alice" "https://*.a.example", perOriginRule "bob" "https://*.b.example"]

theorem evaluateAccessCtx_origin_sound_perOriginGraph :
    ∃ graph, some ⟨some perOriginGraph⟩ = some (AclDocument.mk (some graph)) ∧
      (∃ auth ∈ graph,
        authGrants auth ⟨some "alice", none, none⟩ "/r" .read noGroupMembership emptyDispatcher =
          true) ∧
      GateOpen (fun _ => none) graph (some ⟨"https://app.a.example"⟩) ∧
      ∀ graph' : List AclAuthorization,
        List.Forall₂ (TightensRule (fun _ => none) (some ⟨"https://app.a.example"⟩)) graph
          graph' →
        (∃ rule ∈ graph, extractOriginPatterns (fun _ => none) rule ≠ []) →
        evaluateAccessCtx ⟨true, fun _ => none⟩ (some ⟨some graph'⟩) ⟨some "alice", none, none⟩
          "/r" .read (some ⟨"https://app.a.example"⟩) noGroupMembership emptyDispatcher = true :=
  evaluateAccessCtx_origin_sound ⟨true, fun _ => none⟩ rfl
    (some ⟨some perOriginGraph⟩) ⟨some "alice", none, none⟩ "/r" (by decide)
    (some ⟨"https://app.a.example"⟩) noGroupMembership emptyDispatcher (by decide)

/-- The gate does not tell one rule's patterns from another's: Alice's request
comes from the origin of Bob's rule, and her own rule is what grants it. -/
theorem perOriginGraph_crosses_rules :
    ¬∀ (feature : OriginFeature) (graph : List AclAuthorization) (ctx : RequestContext)
      (resourcePath : Str) (requiredMode : AccessMode) (requestOrigin : Option Origin)
      (groups : GroupMembership) (dispatcher : ConditionDispatcher),
      feature.enabled = true → requiredMode ≠ .control →
      evaluateAccessCtx feature (some ⟨some graph⟩) ctx resourcePath requiredMode requestOrigin
        groups dispatcher = true →
      ∃ auth ∈ graph,
        authGrants auth ctx resourcePath requiredMode groups dispatcher = true ∧
          (getIds auth.origin = [] ∨
            ∃ p ∈ extractOriginPatterns feature.urlParse auth, p.Permits requestOrigin) := by
  intro h
  have hgranted := h ⟨true, fun _ => none⟩ perOriginGraph ⟨some "alice", none, none⟩ "/r" .read
    (some ⟨"https://app.b.example"⟩) noGroupMembership emptyDispatcher rfl (by decide) (by decide)
  obtain ⟨auth, hauth, hgrants, hallowed⟩ := hgranted
  simp only [perOriginGraph, List.mem_cons, List.not_mem_nil, or_false] at hauth
  rcases hauth with rfl | rfl
  · rcases hallowed with hnil | ⟨p, hp, hpermits⟩
    · exact absurd hnil (by decide)
    · have hp' : p = .wildcard "https" "a.example" := by
        simpa using (show p ∈ [OriginPattern.wildcard "https" "a.example"] from hp)
      rw [hp'] at hpermits
      exact absurd hpermits (by decide)
  · exact absurd hgrants (by decide)

end Wac

end SolidPod
