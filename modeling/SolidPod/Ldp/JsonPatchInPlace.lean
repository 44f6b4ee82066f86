import SolidPod.Foundation.Fallible
import SolidPod.Ldp.JsonPatch

/-!
# What a failed patch leaves

`apply_json_patch` gets its target by reference and works on it operation by
operation. `applyJsonPatch` is its result for a caller that drops the target of a
failed patch; here the target is followed through the failure. Nothing is rolled
back: the operations before the failing one stay, and a move that cannot insert
has removed its source.
-/

namespace SolidPod

namespace Ldp

open Foundation InPlace

/-- A JSON value behind a mutable reference. -/
abbrev Patching := InPlace PodError Json Unit

def jsonPointerRemoveMut (path : Str) : Patching :=
  commit fun target => jsonPointerRemove target path

def jsonPointerSetMut (path : Str) (value : Json) (addMode : Bool) : Patching :=
  commit fun target => jsonPointerSet target path value addMode

/-- A part of the operation, or the error that it is not there. -/
def field {α : Type} (o : Option α) (e : PodError) : InPlace PodError Json α :=
  reads fun _ => required o e

/-- A part of the target, or the error that it is not there. -/
def part (path : Str) (e : PodError) : InPlace PodError Json Json :=
  reads fun target => required (jsonPointerGet target path) e

def applyJsonPatchOpMut (op : Json) : Patching := do
  let opName ← field ((getKey op "op").bind asStr) (.unsupported "JSON Patch op missing 'op'")
  let path ← field ((getKey op "path").bind asStr) (.unsupported "JSON Patch op missing 'path'")
  if opName == "add" then
    let value ← field (getKey op "value") (.unsupported "add requires value")
    jsonPointerSetMut path value true
  else if opName == "replace" then
    let value ← field (getKey op "value") (.unsupported "replace requires value")
    jsonPointerSetMut path value false
  else if opName == "remove" then jsonPointerRemoveMut path
  else if opName == "test" then
    let value ← field (getKey op "value") (.unsupported "test requires value")
    let actual ← part path (.preconditionFailed ("test path missing: " ++ path))
    commit fun target =>
      if actual = value then .ok target
      else .error (.preconditionFailed ("test failed at " ++ path))
  else if opName == "copy" then
    let src ← field ((getKey op "from").bind asStr) (.unsupported "copy requires from")
    let value ← part src (.preconditionFailed ("copy from missing: " ++ src))
    jsonPointerSetMut path value true
  else if opName == "move" then
    let src ← field ((getKey op "from").bind asStr) (.unsupported "move requires from")
    let value ← part src (.preconditionFailed ("move from missing: " ++ src))
    jsonPointerRemoveMut src
    jsonPointerSetMut path value true
  else commit fun _ => .error (.unsupported ("unsupported JSON Patch op: " ++ opName))

def applyJsonPatchMut (patch : Json) : Patching :=
  match patch with
  | .array ops => forEach applyJsonPatchOpMut ops
  | _ => commit fun _ => .error (.unsupported "JSON Patch must be an array")

/-! ## The result -/

theorem outcome_ite {p : Prop} [Decidable p] (u v : Patching) (target : Json) :
    outcome (if p then u else v) target = if p then outcome u target else outcome v target := by
  split <;> rfl

theorem outcome_applyJsonPatchOpMut (op target : Json) :
    outcome (applyJsonPatchOpMut op) target = applyJsonPatchOp target op := by
  simp only [applyJsonPatchOpMut, applyJsonPatchOp, field, part, jsonPointerSetMut,
    jsonPointerRemoveMut, outcome_reads_bind, outcome_ite, outcome_commit, outcome_bind]

/-- Following the target changes nothing for a caller that drops it on failure. -/
theorem outcome_applyJsonPatchMut (patch target : Json) :
    outcome (applyJsonPatchMut patch) target = applyJsonPatch target patch := by
  cases patch with
  | array ops =>
      rw [applyJsonPatchMut, applyJsonPatch, outcome_forEach]
      simp only [outcome_applyJsonPatchOpMut]
  | null | bool | number | string | object => rfl

/-! ## The target of a failed patch -/

/-- The operation is a move, and `doc'` is the document without what it moves. -/
def Unplugged (op doc doc' : Json) : Prop :=
  getKey op "op" = some (.string "move") ∧
    ∃ src, getKey op "from" = some (.string src) ∧ jsonPointerRemove doc src = .ok doc'

theorem eq_string_of_asStr {o : Option Json} {s : Str} (h : o.bind asStr = some s) :
    o = some (.string s) := by
  obtain ⟨v, rfl, hv⟩ := Option.bind_eq_some_iff.mp h
  cases v with
  | string t => exact congrArg (fun s => some (Json.string s)) (Option.some.inj hv)
  | null | bool | number | array | object => cases hv

theorem required_eq_ok {α : Type} {o : Option α} {e : PodError} {a : α}
    (h : required o e = .ok a) : o = some a := by
  cases o with
  | none => cases h
  | some b => exact congrArg some (Except.ok.inj h)

theorem atomicUpTo_field {α : Type} {left : Json → Json → Prop} {o : Option α} {e : PodError}
    {g : α → Patching} (h : ∀ a, o = some a → AtomicUpTo left (g a)) :
    AtomicUpTo left (field o e >>= g) :=
  atomicUpTo_reads_bind fun s a ha => h a (required_eq_ok ha) s

theorem atomicUpTo_part {left : Json → Json → Prop} {path : Str} {e : PodError}
    {g : Json → Patching} (h : ∀ a, AtomicUpTo left (g a)) :
    AtomicUpTo left (part path e >>= g) :=
  atomicUpTo_reads_bind fun s a _ => h a s

/-- A removal before an insertion: the insertion may fail on what the removal has
left. -/
theorem atomicUpTo_commit_bind {left : Json → Json → Prop} {f g : Json → Except PodError Json}
    (h : ∀ s t, f s = .ok t → left s t) :
    AtomicUpTo left (commit f >>= fun _ => commit g) := by
  intro s e s' hs
  rw [bind_apply, commit] at hs
  cases hf : f s with
  | error e' =>
      rw [hf] at hs
      cases hs
      exact .inl rfl
  | ok t =>
      rw [hf] at hs
      obtain rfl := (atomic_commit g t e s' hs).resolve_right id
      exact .inr (h s s' hf)

/-- One operation that fails: only a move leaves a trace. -/
theorem atomicUpTo_applyJsonPatchOpMut (op : Json) :
    AtomicUpTo (Unplugged op) (applyJsonPatchOpMut op) := by
  refine atomicUpTo_field fun opName hname => atomicUpTo_field fun path _ => ?_
  by_cases hadd : (opName == "add") = true
  · rw [if_pos hadd]
    exact atomicUpTo_field fun value _ => (atomic_commit _).upTo
  rw [if_neg hadd]
  by_cases hreplace : (opName == "replace") = true
  · rw [if_pos hreplace]
    exact atomicUpTo_field fun value _ => (atomic_commit _).upTo
  rw [if_neg hreplace]
  by_cases hremove : (opName == "remove") = true
  · rw [if_pos hremove]
    exact (atomic_commit _).upTo
  rw [if_neg hremove]
  by_cases htest : (opName == "test") = true
  · rw [if_pos htest]
    exact atomicUpTo_field fun value _ => atomicUpTo_part fun actual => (atomic_commit _).upTo
  rw [if_neg htest]
  by_cases hcopy : (opName == "copy") = true
  · rw [if_pos hcopy]
    exact atomicUpTo_field fun src _ => atomicUpTo_part fun value => (atomic_commit _).upTo
  rw [if_neg hcopy]
  by_cases hmove : (opName == "move") = true
  · rw [if_pos hmove]
    refine atomicUpTo_field fun src hsrc => atomicUpTo_part fun value => ?_
    refine atomicUpTo_commit_bind fun s t ht => ?_
    rw [beq_iff_eq] at hmove
    subst hmove
    exact ⟨eq_string_of_asStr hname, src, eq_string_of_asStr hsrc, ht⟩
  rw [if_neg hmove]
  exact (atomic_commit _).upTo

/-- A failed patch leaves its target as the operations before the failing one have
made it; a move that fails to insert has taken its source away besides. -/
theorem applyJsonPatchMut_of_error {patch target target' : Json} {e : PodError}
    (h : applyJsonPatchMut patch target = (.error e, target')) :
    (∀ ops, patch ≠ .array ops) ∧ target' = target ∨
      ∃ done op rest doc, patch = .array (done ++ op :: rest) ∧
        applyJsonPatchMut (.array done) target = (.ok (), doc) ∧
          applyJsonPatchOpMut op doc = (.error e, target') ∧
            (target' = doc ∨ Unplugged op doc target') := by
  cases patch with
  | array ops =>
      obtain ⟨done, op, rest, doc, rfl, hdone, hop⟩ := exists_of_forEach_eq_error h
      exact .inr ⟨done, op, rest, doc, rfl, hdone, hop,
        atomicUpTo_applyJsonPatchOpMut op doc e target' hop⟩
  | null | bool | number | string | object =>
      refine .inl ⟨?_, (congrArg Prod.snd h).symm⟩
      rintro ops ⟨⟩

/-! ## A guard that comes too late -/

def lateGuard : Json :=
  .array [.object [("op", .string "add"), ("path", .string "/a"), ("value", .null)],
    .object [("op", .string "test"), ("path", .string "/b"), ("value", .null)]]

theorem applyJsonPatchMut_lateGuard :
    applyJsonPatchMut lateGuard (.object []) =
      (.error (.preconditionFailed "test path missing: /b"), .object [("a", .null)]) := by
  decide

theorem not_atomic_applyJsonPatchMut : ¬ ∀ patch, Atomic (applyJsonPatchMut patch) := by
  intro h
  rcases h _ _ _ _ applyJsonPatchMut_lateGuard with heq | hfalse
  · cases heq
  · exact hfalse

theorem applyJsonPatchMut_of_error_lateGuard :
    (∀ ops, lateGuard ≠ .array ops) ∧ Json.object [("a", .null)] = .object [] ∨
      ∃ done op rest doc, lateGuard = .array (done ++ op :: rest) ∧
        applyJsonPatchMut (.array done) (.object []) = (.ok (), doc) ∧
          applyJsonPatchOpMut op doc =
              (.error (.preconditionFailed "test path missing: /b"), .object [("a", .null)]) ∧
            (Json.object [("a", .null)] = doc ∨ Unplugged op doc (.object [("a", .null)])) :=
  applyJsonPatchMut_of_error applyJsonPatchMut_lateGuard

end Ldp

end SolidPod
