import Mathlib.Data.Fin.VecNotation
import Mathlib.Data.List.FinRange
import Mathlib.Tactic.FinCases
import SolidPod.Foundation.ReadModifyWrite
import SolidPod.Server.GraphPatch

/-!
# PATCH requests at the same time

Between its read and its write a `PATCH` is a task that other requests may
overtake. What an RDF patch stores for an existing resource does not depend on
what it has read, so only a JSON patch that another write overtakes can lose an
update. Without such a patch every schedule ends as the requests one after the
other do, in the order of their writes.
-/

namespace SolidPod

namespace Server

open Foundation Str Ldp ReadModifyWrite

/-- A `PATCH` that has passed its checks. -/
structure PatchTask where
  dialect : PatchDialect
  patch : Str

section Tasks

variable {σ : Type*} [Storage σ] (sv : Services) (path : Str) {n : Nat} (task : Fin n → PatchTask)

def loadResource (s : σ) : Except PodError (Bytes × ResourceMeta) := Storage.get s path

/-- The write of a task, for what it has read, and its answer. -/
def commitPatch (i : Fin n) (found : Except PodError (Bytes × ResourceMeta)) (s : σ) :
    HttpResponse × σ :=
  runPlan s path (planPatch sv (task i).dialect (task i).patch found)

/-- The storage after a schedule, the views that are held, and the answers. -/
def runPatches (s : σ) (es : List (Event (Fin n))) :
    Config (Fin n) σ (Except PodError (Bytes × ResourceMeta)) HttpResponse :=
  run (loadResource path) (commitPatch sv path task) (start s) es

variable {sv path task}

/-- A task that is not overtaken is what the handler does past its checks. -/
theorem run_load_store_eq_handlePatch {req : HttpRequest} {i : Fin n}
    (c : Config (Fin n) σ (Except PodError (Bytes × ResourceMeta)) HttpResponse)
    (hpasses : admitPatch sv c.state req = .ok ((task i).dialect, (task i).patch)) :
    (run (loadResource req.path) (commitPatch sv req.path task) c [.load i, .store i]).state =
        (handlePatch sv c.state req).2 ∧
      (run (loadResource req.path) (commitPatch sv req.path task) c [.load i, .store i]).log =
        c.log ++ [(i, (handlePatch sv c.state req).1)] := by
  rw [handlePatch, hpasses]
  exact run_load_store c i

/-- An RDF patch of an existing resource does not look at what is stored. -/
theorem planPatch_rdf {rdf : RdfDialect} {patch : Str} (found found' : Bytes × ResourceMeta) :
    planPatch sv rdf.toDialect patch (.ok found) =
      planPatch sv rdf.toDialect patch (.ok found') := by
  obtain ⟨current, metadata⟩ := found
  obtain ⟨current', metadata'⟩ := found'
  change patchExisting sv rdf.toDialect patch current metadata =
    patchExisting sv rdf.toDialect patch current' metadata'
  rw [patchExisting_toDialect, patchExisting_toDialect]

theorem eq_jsonPatch_or_toDialect (dialect : PatchDialect) :
    dialect = .jsonPatch ∨ ∃ rdf : RdfDialect, dialect = rdf.toDialect := by
  cases dialect with
  | n3 => exact Or.inr ⟨.n3, rfl⟩
  | sparqlUpdate => exact Or.inr ⟨.sparqlUpdate, rfl⟩
  | jsonPatch => exact Or.inl rfl

variable [LawfulStorage σ]

/-- No plan removes the resource. -/
theorem stored_runPlan (hpath : IsAbsolute path) {s : σ} (h : Stored s path) (plan : PatchPlan) :
    Stored (runPlan s path plan).2 path := by
  cases plan with
  | answer rsp => exact h
  | store body contentType status =>
      rw [runPlan]
      cases hput : Storage.put s path body contentType with
      | mk answer s' =>
          cases answer with
          | error e =>
              obtain ⟨found, hfound⟩ := h
              exact ⟨found, (LawfulStorage.get_put_error hput path).trans hfound⟩
          | ok m => exact ⟨_, (LawfulStorage.get_put_self hpath hput).1⟩

/-- In every interleaving that overtakes no JSON patch, the storage and the
answers are those of the requests one after the other, in the order of their
writes. -/
theorem runPatches_eq_oneByOne (hpath : IsAbsolute path) {s : σ} (hstored : Stored s path)
    {es : List (Event (Fin n))} (hes : Interleaving es)
    (hjson : ∀ i, (task i).dialect = .jsonPatch → Undisturbed i es) :
    ∃ order : List (Fin n), order.Perm (List.finRange n) ∧
      (runPatches sv path task s es).state = (runPatches sv path task s (oneByOne order)).state ∧
      (runPatches sv path task s es).log = (runPatches sv path task s (oneByOne order)).log := by
  refine ⟨stores es, ?_, ?_⟩
  · rw [List.perm_iff_count]
    intro i
    rw [count_stores hes, List.count_eq_one_of_mem (List.nodup_finRange n) (List.mem_finRange i)]
  · refine run_eq_oneByOne_of_undisturbed (P := fun s => Stored s path) ?_ hstored hes ?_
    · intro i found s hs
      exact stored_runPlan hpath hs _
    · intro i
      rcases eq_jsonPatch_or_toDialect (task i).dialect with hdialect | ⟨rdf, hdialect⟩
      · exact Or.inl (hjson i hdialect)
      · refine Or.inr ?_
        rintro s s' ⟨found, hfound⟩ ⟨found', hfound'⟩
        rw [commitPatch, commitPatch, loadResource, loadResource, hfound, hfound', hdialect,
          planPatch_rdf found found']

end Tasks

/-! ## Two tasks of one document -/

def addA : Str := "[\x7b\"op\":\"add\",\"path\":\"/a\",\"value\":true\x7d]"

def addB : Str := "[\x7b\"op\":\"add\",\"path\":\"/b\",\"value\":true\x7d]"

def withA : Str := "\x7b\"a\":true\x7d"

def withB : Str := "\x7b\"b\":true\x7d"

def withBoth : Str := "\x7b\"a\":true,\"b\":true\x7d"

/-- The JSON texts of these documents and patches. -/
def jsonTexts : List (Str × Json) :=
  [("\x7b\x7d", .object []), (withA, .object [("a", .bool true)]),
    (withB, .object [("b", .bool true)]),
    (withBoth, .object [("a", .bool true), ("b", .bool true)]),
    (addA, .array [.object [("op", .string "add"), ("path", .string "/a"), ("value", .bool true)]]),
    (addB, .array [.object [("op", .string "add"), ("path", .string "/b"), ("value", .bool true)]])]

/-- Services whose JSON library knows these texts. -/
def jsonServices : Services :=
  { turtleServices with
    jsonFromSlice := fun body =>
      match jsonTexts.find? (fun e => utf8 e.1 = body) with
      | some e => .ok e.2
      | none => .error "expected value"
    jsonFromStr := fun text =>
      match jsonTexts.find? (fun e => e.1 = text) with
      | some e => .ok e.2
      | none => .error "expected value"
    jsonToVec := fun v =>
      match jsonTexts.find? (fun e => e.2 = v) with
      | some e => utf8 e.1
      | none => [] }

def jsonMeta (text : Str) : ResourceMeta :=
  (MemoryBackend.newEntry (fun _ => []) (utf8 text) "application/json").metadata

/-- The pod after `/doc` was put. -/
def putDoc (text : Str) (s : Pod) : Pod := (s.put "/doc" (utf8 text) "application/json").2

theorem loadResource_putDoc (text : Str) (s : Pod) :
    loadResource "/doc" (putDoc text s) = .ok (utf8 text, jsonMeta text) := by
  rw [loadResource, MemoryBackend.storage_get, putDoc,
    MemoryBackend.get_put _ (by decide) (by decide), if_pos rfl, jsonMeta]

theorem commitPatch_putDoc {n : Nat} (task : Fin n → PatchTask) (i : Fin n) (text text' : Str)
    (hplan : planPatch jsonServices (task i).dialect (task i).patch
      (.ok (utf8 text, jsonMeta text)) = .store (utf8 text') "application/json" 204) (s s' : Pod) :
    commitPatch jsonServices "/doc" task i (loadResource "/doc" (putDoc text s)) s' =
      (emptyResponse 204, putDoc text' s') := by
  rw [commitPatch, loadResource_putDoc, hplan]
  rfl

/-- Two clients that add a member each. -/
def addMembers : Fin 2 → PatchTask := ![⟨.jsonPatch, addA⟩, ⟨.jsonPatch, addB⟩]

def jsonPod : Pod := putDoc "\x7b\x7d" MemoryBackend.empty

/-- An RDF patch that a JSON patch overtakes. -/
def insertAndAdd : Fin 2 → PatchTask := ![⟨.n3, insertB⟩, ⟨.jsonPatch, addA⟩]

def overtakenInsert : List (Event (Fin 2)) := [.load 0, .load 1, .store 1, .store 0]

theorem runPatches_overtakenInsert : ∃ order : List (Fin 2), order.Perm (List.finRange 2) ∧
    (runPatches jsonServices "/doc" insertAndAdd jsonPod overtakenInsert).state =
      (runPatches jsonServices "/doc" insertAndAdd jsonPod (oneByOne order)).state ∧
    (runPatches jsonServices "/doc" insertAndAdd jsonPod overtakenInsert).log =
      (runPatches jsonServices "/doc" insertAndAdd jsonPod (oneByOne order)).log := by
  refine runPatches_eq_oneByOne (by decide) ⟨_, loadResource_putDoc "\x7b\x7d" _⟩ (by decide) ?_
  intro i hi
  have hi : i = 1 := by
    fin_cases i
    · cases hi
    · rfl
  subst hi
  exact undisturbed_of_nodup (a := [.load 0]) (b := [.store 0]) (by decide)

/-- Both load before either stores. -/
def overtaken : List (Event (Fin 2)) := [.load 0, .load 1, .store 0, .store 1]

/-- The second client's write undoes the first one's, although both are told
that they succeeded. -/
theorem overtaken_losesUpdate : Interleaving overtaken ∧
    (runPatches jsonServices "/doc" addMembers jsonPod overtaken).log =
      [(0, emptyResponse 204), (1, emptyResponse 204)] ∧
    ¬ ∃ order : List (Fin 2), order.Perm (List.finRange 2) ∧
      Storage.get (runPatches jsonServices "/doc" addMembers jsonPod overtaken).state "/doc" =
        Storage.get (runPatches jsonServices "/doc" addMembers jsonPod (oneByOne order)).state
          "/doc" := by
  have hadd₀ := commitPatch_putDoc addMembers 0 "\x7b\x7d" withA (by decide +kernel)
    MemoryBackend.empty
  have hadd₁ := commitPatch_putDoc addMembers 1 "\x7b\x7d" withB (by decide +kernel)
    MemoryBackend.empty
  have hafter₀ := commitPatch_putDoc addMembers 0 withB withBoth (by decide +kernel) jsonPod
  have hafter₁ := commitPatch_putDoc addMembers 1 withA withBoth (by decide +kernel) jsonPod
  obtain ⟨hstate, hlog⟩ :
      (runPatches jsonServices "/doc" addMembers jsonPod overtaken).state = _ ∧
        (runPatches jsonServices "/doc" addMembers jsonPod overtaken).log = _ :=
    run_overtaken jsonPod (Fin.zero_ne_one)
  rw [jsonPod, hadd₀, hadd₁, ← jsonPod] at hstate hlog
  refine ⟨by decide, hlog, ?_⟩
  rintro ⟨order, horder, hsame⟩
  have hserial : ∃ s, (runPatches jsonServices "/doc" addMembers jsonPod (oneByOne order)).state =
      putDoc withBoth s := by
    obtain ⟨i, j, rfl⟩ := List.length_eq_two.mp horder.length_eq
    have hne : i ≠ j := by
      simpa using horder.nodup_iff.mpr (List.nodup_finRange 2)
    rw [runPatches, state_run_oneByOne, List.foldl_cons, List.foldl_cons, List.foldl_nil]
    change ∃ s, (commitPatch jsonServices "/doc" addMembers j (loadResource "/doc"
      (commitPatch jsonServices "/doc" addMembers i (loadResource "/doc" jsonPod) jsonPod).2)
      (commitPatch jsonServices "/doc" addMembers i (loadResource "/doc" jsonPod) jsonPod).2).2 = _
    have hcases : i = 0 ∧ j = 1 ∨ i = 1 ∧ j = 0 := by omega
    rcases hcases with ⟨rfl, rfl⟩ | ⟨rfl, rfl⟩
    · rw [jsonPod, hadd₀, ← jsonPod, hafter₁]
      exact ⟨_, rfl⟩
    · rw [jsonPod, hadd₁, ← jsonPod, hafter₀]
      exact ⟨_, rfl⟩
  obtain ⟨s, hs⟩ := hserial
  have hsame : loadResource "/doc" (putDoc withB (putDoc withA jsonPod)) =
      loadResource "/doc" (putDoc withBoth s) := by
    rw [← hs]
    exact (congrArg (loadResource "/doc") hstate.symm).trans hsame
  rw [loadResource_putDoc, loadResource_putDoc] at hsame
  exact absurd (congrArg Prod.fst (Except.ok.inj hsame)) (by decide +kernel)

end Server

end SolidPod
