import SolidPod.Wac.Document

/-!
# Conditions when an ACL is written

The validator of a write looks for a condition of an unknown type. Reading asks the registry
about every condition. The two agree when each built-in evaluator that the document needs is
registered, or when the document carries an unknown condition anyway.
-/

namespace SolidPod

namespace Wac

open Foundation

structure UnsupportedCondition where
  iri : Str
  deriving DecidableEq

def UnsupportedCondition.display (e : UnsupportedCondition) : Str :=
  "unsupported acl:condition type: " ++ e.iri

def checkConditions : List Condition → Except UnsupportedCondition Unit
  | [] => .ok ()
  | .unknown typeIri :: _ => .error ⟨typeIri⟩
  | .client _ :: rest => checkConditions rest
  | .issuer _ :: rest => checkConditions rest

def checkGraph : List AclAuthorization → Except UnsupportedCondition Unit
  | [] => .ok ()
  | auth :: rest => do
    checkConditions auth.conditions
    checkGraph rest

/-- The registry is not looked at. -/
def validateForWrite (doc : AclDocument) (_registry : ConditionRegistry) :
    Except UnsupportedCondition Unit :=
  match doc.graph with
  | none => .ok ()
  | some graph => checkGraph graph

def validateAclDocument (doc : AclDocument) : Except UnsupportedCondition Unit :=
  validateForWrite doc .defaultWithClientAndIssuer

/-! ## What each side decides -/

namespace Condition

def IsUnknown (c : Condition) : Prop := ∃ typeIri, c = .unknown typeIri

end Condition

/-- The conditions of a document, in the order in which they stand. -/
def AclDocument.conditions (doc : AclDocument) : List Condition :=
  (doc.graph.getD []).flatMap AclAuthorization.conditions

/-- The evaluators for a condition are registered. -/
def ConditionRegistry.Supports (registry : ConditionRegistry) : Condition → Prop
  | .client _ => registry.clientEval.isSome
  | .issuer _ => registry.issuerEval.isSome
  | .unknown _ => False

theorem checkConditions_eq_ok_iff {conditions : List Condition} :
    checkConditions conditions = .ok () ↔ ∀ c ∈ conditions, ¬ c.IsUnknown := by
  induction conditions with
  | nil => simp [checkConditions]
  | cons c rest ih =>
      cases c with
      | client body => simp [checkConditions, ih, Condition.IsUnknown]
      | issuer body => simp [checkConditions, ih, Condition.IsUnknown]
      | unknown typeIri => simp [checkConditions, Condition.IsUnknown]

/-- The error is the first unknown condition. -/
theorem checkConditions_eq_error_iff {conditions : List Condition} {e : UnsupportedCondition} :
    checkConditions conditions = .error e ↔ ∃ before after,
      conditions = before ++ .unknown e.iri :: after ∧ ∀ c ∈ before, ¬ c.IsUnknown := by
  constructor
  · intro h
    induction conditions with
    | nil => cases h
    | cons c rest ih =>
        cases c with
        | unknown typeIri =>
            cases h
            exact ⟨[], rest, rfl, by simp⟩
        | client body =>
            obtain ⟨before, after, rfl, hbefore⟩ := ih h
            exact ⟨.client body :: before, after, rfl, by simpa [Condition.IsUnknown] using hbefore⟩
        | issuer body =>
            obtain ⟨before, after, rfl, hbefore⟩ := ih h
            exact ⟨.issuer body :: before, after, rfl, by simpa [Condition.IsUnknown] using hbefore⟩
  · rintro ⟨before, after, rfl, hbefore⟩
    induction before with
    | nil => rfl
    | cons c before ih =>
        obtain ⟨hc, hrest⟩ := List.forall_mem_cons.mp hbefore
        cases c with
        | unknown typeIri => exact absurd ⟨typeIri, rfl⟩ hc
        | client body => exact ih hrest
        | issuer body => exact ih hrest

theorem checkConditions_append (a b : List Condition) :
    checkConditions (a ++ b) = checkConditions a >>= fun _ => checkConditions b := by
  induction a with
  | nil => rfl
  | cons c a ih =>
      cases c with
      | unknown typeIri => rfl
      | client body => exact ih
      | issuer body => exact ih

theorem checkGraph_eq (graph : List AclAuthorization) :
    checkGraph graph = checkConditions (graph.flatMap AclAuthorization.conditions) := by
  induction graph with
  | nil => rfl
  | cons auth rest ih => rw [checkGraph, List.flatMap_cons, checkConditions_append, ih]

/-- The validator walks the conditions of the document. -/
theorem validateForWrite_eq (doc : AclDocument) (registry : ConditionRegistry) :
    validateForWrite doc registry = checkConditions doc.conditions := by
  rw [validateForWrite, AclDocument.conditions]
  cases doc.graph with
  | none => rfl
  | some graph => exact checkGraph_eq graph

/-- The type that a refusal names is one that is never evaluated. -/
theorem mem_conditions_of_validateForWrite {doc : AclDocument} {registry : ConditionRegistry}
    {e : UnsupportedCondition} (h : validateForWrite doc registry = .error e) :
    .unknown e.iri ∈ doc.conditions := by
  rw [validateForWrite_eq] at h
  obtain ⟨before, after, hsplit, -⟩ := checkConditions_eq_error_iff.mp h
  rw [hsplit]
  exact List.mem_append_right _ List.mem_cons_self

theorem validateForWrite_eq_ok_iff {doc : AclDocument} {registry : ConditionRegistry} :
    validateForWrite doc registry = .ok () ↔ ∀ c ∈ doc.conditions, ¬ c.IsUnknown := by
  rw [validateForWrite_eq, checkConditions_eq_ok_iff]

/-- An evaluator says yes or no. -/
theorem evaluateSubject_ne_notApplicable {classes ids groupIds : List Str} {subject : Option Str}
    {groups : GroupMembership} :
    evaluateSubject classes ids groupIds subject groups ≠ .notApplicable := by
  unfold evaluateSubject
  cases subject with
  | none => split_ifs <;> simp
  | some x =>
      dsimp only
      split_ifs <;> simp

/-- Only a missing evaluator leaves a condition without an answer. -/
theorem dispatch_eq_notApplicable_iff {registry : ConditionRegistry} {c : Condition}
    {ctx : RequestContext} {groups : GroupMembership} :
    registry.dispatch c ctx groups = .notApplicable ↔ ¬ registry.Supports c := by
  cases c with
  | unknown typeIri => simp [ConditionRegistry.dispatch, ConditionRegistry.Supports]
  | client body =>
      rw [ConditionRegistry.dispatch, ConditionRegistry.Supports]
      cases registry.clientEval with
      | none => simp
      | some e => simp [ClientConditionEvaluator.evaluate, evaluateSubject_ne_notApplicable]
  | issuer body =>
      rw [ConditionRegistry.dispatch, ConditionRegistry.Supports]
      cases registry.issuerEval with
      | none => simp
      | some e => simp [IssuerConditionEvaluator.evaluate, evaluateSubject_ne_notApplicable]

/-! ## Whether they agree -/

/-- A document that may be written has an answer for each of its conditions, and one with a
condition that has none is refused. -/
structure GuaranteesDispatch (doc : AclDocument) (registry : ConditionRegistry) : Prop where
  dispatched : validateForWrite doc registry = .ok () → ∀ c ∈ doc.conditions, ∀ ctx groups,
    registry.dispatch c ctx groups ≠ .notApplicable
  refused : (∃ c ∈ doc.conditions, ∀ ctx groups, registry.dispatch c ctx groups = .notApplicable) →
    ∃ e, validateForWrite doc registry = .error e

/-- The document has an unknown condition, or else needs registered evaluators only. -/
def Equipped (doc : AclDocument) (registry : ConditionRegistry) : Prop :=
  (∃ c ∈ doc.conditions, c.IsUnknown) ∨
    ((∀ body, .client body ∈ doc.conditions → registry.clientEval.isSome) ∧
      ∀ body, .issuer body ∈ doc.conditions → registry.issuerEval.isSome)

theorem supports_of_equipped {doc : AclDocument} {registry : ConditionRegistry}
    (h : Equipped doc registry) (hok : validateForWrite doc registry = .ok ()) :
    ∀ c ∈ doc.conditions, registry.Supports c := by
  have hknown := validateForWrite_eq_ok_iff.mp hok
  intro c hc
  rcases h with ⟨c', hc', hunknown⟩ | ⟨hclient, hissuer⟩
  · exact absurd hunknown (hknown c' hc')
  · cases c with
    | client body => exact hclient body hc
    | issuer body => exact hissuer body hc
    | unknown typeIri => exact hknown _ hc ⟨typeIri, rfl⟩

theorem guaranteesDispatch_iff_equipped (doc : AclDocument) (registry : ConditionRegistry) :
    GuaranteesDispatch doc registry ↔ Equipped doc registry := by
  constructor
  · intro h
    by_cases hunknown : ∃ c ∈ doc.conditions, c.IsUnknown
    · exact .inl hunknown
    · have hok : validateForWrite doc registry = .ok () := by
        apply validateForWrite_eq_ok_iff.mpr
        intro c hc hc'
        exact hunknown ⟨c, hc, hc'⟩
      have hsupports : ∀ c ∈ doc.conditions, registry.Supports c := by
        intro c hc
        by_contra hmissing
        exact h.dispatched hok c hc ⟨none, none, none⟩ noGroupMembership
          (dispatch_eq_notApplicable_iff.mpr hmissing)
      exact .inr ⟨fun body hbody => hsupports _ hbody, fun body hbody => hsupports _ hbody⟩
  · intro h
    constructor
    · intro hok c hc ctx groups hmissing
      exact dispatch_eq_notApplicable_iff.mp hmissing (supports_of_equipped h hok c hc)
    · rintro ⟨c, hc, hmissing⟩
      cases hresult : validateForWrite doc registry with
      | error e => exact ⟨e, rfl⟩
      | ok u =>
          have hnot := dispatch_eq_notApplicable_iff.mp
            (hmissing ⟨none, none, none⟩ noGroupMembership)
          exact absurd (supports_of_equipped h hresult c hc) hnot

/-- With both evaluators nothing is missing. -/
theorem equipped_default (doc : AclDocument) :
    Equipped doc .defaultWithClientAndIssuer :=
  .inr ⟨fun _ _ => rfl, fun _ _ => rfl⟩

/-- A document with one client condition. -/
def clientDocument : AclDocument :=
  ⟨some [{ AclAuthorization.empty with
    condition := some [.client ⟨some (.single ⟨"https://app.example"⟩), none, none⟩] }]⟩

/-- The registry without evaluators lets a client condition pass that it cannot evaluate. -/
theorem not_guaranteesDispatch_clientDocument :
    ¬ GuaranteesDispatch clientDocument ⟨none, none⟩ := by
  intro h
  exact h.dispatched rfl _ List.mem_cons_self ⟨none, none, none⟩ noGroupMembership rfl

end Wac

end SolidPod
