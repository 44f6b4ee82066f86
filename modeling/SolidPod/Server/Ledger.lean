import SolidPod.Foundation.Register
import SolidPod.Server.Escalation
import SolidPod.Server.PatchSafety
import SolidPod.Server.ReadMediation
import SolidPod.Server.WacAllow

/-!
# The pod as a table of registers

A client that keeps a ledger of its requests and their answers knows what the pod
holds: a write that was acknowledged has set its register, and one that was not has
changed nothing, whatever the reason. A read is answered from the ledger, in every
state that a sequence of requests leads to. And whatever has changed in a pod was
changed by a request that the access rules of that moment allowed.
-/

namespace SolidPod

open Foundation

/-- A storage that does not give back what it has deleted. -/
class ErasingStorage (σ : Type*) [Storage σ] : Prop extends LawfulStorage σ where
  get_delete_self : ∀ {s s' : σ} {p : Str}, IsAbsolute p → Storage.delete s p = (.ok (), s') →
    ¬ Stored s' p

namespace MemoryBackend

variable {digest : Bytes → Str}

instance : ErasingStorage (MemoryBackend digest) where
  get_delete_self := by
    rintro s s' p hp hdelete ⟨r, hr⟩
    change s.delete p = _ at hdelete
    rw [delete, normalize_of_isAbsolute hp] at hdelete
    rw [storage_get, get_of_isAbsolute _ hp] at hr
    cases hl : s.data.lookup p with
    | none =>
        rw [hl] at hdelete
        cases hdelete
    | some e =>
        rw [hl] at hdelete
        cases hdelete
        rw [AList.lookup_erase] at hr
        cases hr

end MemoryBackend

namespace Server

open Str Wac Ldp Register

/-- What is known to be stored at each path: a body and its content type. -/
abbrev Ledger := Str → Option (Bytes × Str)

section Ledgers

variable {σ : Type*} [Storage σ] (sv : Services)

/-- What a pod holds at a path. -/
def contents (s : σ) (path : Str) : Option (Bytes × Str) :=
  match Storage.get s path with
  | .ok (body, metadata) => some (body, metadata.contentType)
  | .error _ => none

/-- The read that a ledger answers. -/
def found (path : Str) : Option (Bytes × Str) → Except PodError (Bytes × ResourceMeta)
  | some (body, contentType) => .ok (body, ⟨[], body.length, contentType⟩)
  | none => .error (.notFound path)

/-- A patch is acknowledged with the status that its plan has for what the ledger knows. -/
def patchAcknowledged (ledger : Ledger) (req : HttpRequest) (rsp : HttpResponse) :
    List (Register.Write Str (Bytes × Str)) :=
  match patchDialectFromMime (req.contentType.getD []), fromUtf8 req.body with
  | some dialect, some patch =>
    match planPatch sv dialect patch (found req.path (ledger req.path)) with
    | .store body contentType status =>
      if rsp.status = status then [(req.path, some (body, contentType))] else []
    | .answer _ => []
  | _, _ => []

/-- The write that an answer acknowledges. -/
def acknowledged (ledger : Ledger) (req : HttpRequest) (rsp : HttpResponse) :
    List (Register.Write Str (Bytes × Str)) :=
  match req.method with
  | .get | .head => []
  | .put => if rsp.status = 201 then [(req.path, some (req.body, storedType req))] else []
  | .post =>
    if rsp.status = 201 then
      match resolveSlug sv.printable req.uuid req.path req.slug with
      | .ok target => [(target, some (req.body, storedType req))]
      | .error _ => []
    else []
  | .patch => patchAcknowledged sv ledger req rsp
  | .delete => if rsp.status = 204 then [(req.path, none)] else []

/-- The requests of a run with their answers. -/
def exchanges (s : σ) (reqs : List HttpRequest) : List (HttpRequest × HttpResponse) :=
  reqs.zip (Lockstep.run (serve sv) s reqs)

/-- The register of a path, after what it held at first and what was acknowledged since. -/
def knownAt (s : σ) (reqs : List HttpRequest) (path : Str) : Option (Bytes × Str) :=
  (lastWrite path (writesOf (acknowledged sv) (contents s) (exchanges sv s reqs))).getD
    (contents s path)

/-- The answer of a read is the one that the register calls for. -/
inductive ReadsRegister (req : HttpRequest) (rsp : HttpResponse) : Option (Bytes × Str) → Prop where
  | present (body : Bytes) (contentType : Str) (hstatus : rsp.status = 200)
      (hbody : rsp.body = if req.method = .head then [] else body)
      (htype : rsp.headers.head? = some (("content-type" : Str),
        if sv.headerValue contentType then contentType else "application/octet-stream")) :
      ReadsRegister req rsp (some (body, contentType))
  | absent (hstatus : 400 ≤ rsp.status) : ReadsRegister req rsp none

variable {sv} {s s' : σ} {ledger : Ledger} {req : HttpRequest} {target path : Str}

/-- The pod holds what the ledger says. -/
abbrev Agrees (s : σ) (ledger : Ledger) : Prop := Shows contents IsAbsolute s ledger

/-! ## Writes of a storage -/

theorem contents_congr (h : Storage.get s' path = Storage.get s path) :
    contents s' path = contents s path := by
  rw [contents, contents, h]

theorem Agrees.keep (h : Agrees s ledger) (hsame : ∀ q, Storage.get s' q = Storage.get s q) :
    Agrees s' (replay ledger []) := fun q hq => (contents_congr (hsame q)).trans (h q hq)

theorem Agrees.write {v : Option (Bytes × Str)} (h : Agrees s ledger)
    (htarget : contents s' target = v)
    (helse : ∀ q, IsAbsolute q → target ≠ q → Storage.get s' q = Storage.get s q) :
    Agrees s' (replay ledger [(target, v)]) := by
  intro q hq
  rw [replay, List.foldl_cons, List.foldl_nil]
  by_cases hqt : q = target
  · rw [hqt, htarget, write_self]
  · rw [write_of_ne hqt, contents_congr (helse q hq (Ne.symm hqt))]
    exact h q hq

/-- A put fails and changes nothing, or it sets the register. -/
theorem put_cases [LawfulStorage σ] (s : σ) (htarget : IsAbsolute target) (body : Bytes)
    (contentType : Str) :
    (∃ e s', Storage.put s target body contentType = (.error e, s') ∧
      ∀ q, Storage.get s' q = Storage.get s q) ∨
    ∃ m s', Storage.put s target body contentType = (.ok m, s') ∧
      contents s' target = some (body, contentType) ∧
        ∀ q, IsAbsolute q → target ≠ q → Storage.get s' q = Storage.get s q := by
  have hne := fun q (hq : IsAbsolute q) (h : target ≠ q) =>
    LawfulStorage.get_put_ne (s := s) body contentType htarget hq h
  cases hput : Storage.put s target body contentType with
  | mk answer s' =>
      rw [hput] at hne
      cases answer with
      | error e => exact Or.inl ⟨e, s', rfl, LawfulStorage.get_put_error hput⟩
      | ok m =>
          obtain ⟨hget, htype⟩ := LawfulStorage.get_put_self htarget hput
          refine Or.inr ⟨m, s', rfl, ?_, hne⟩
          rw [contents, hget, ← htype]

/-- A deletion fails and changes nothing, or it clears the register. -/
theorem delete_cases [ErasingStorage σ] (s : σ) (htarget : IsAbsolute target) :
    (∃ e s', Storage.delete s target = (.error e, s') ∧
      ∀ q, Storage.get s' q = Storage.get s q) ∨
    ∃ s', Storage.delete s target = (.ok (), s') ∧ contents s' target = none ∧
      ∀ q, IsAbsolute q → target ≠ q → Storage.get s' q = Storage.get s q := by
  have hne := fun q (hq : IsAbsolute q) (h : target ≠ q) =>
    LawfulStorage.get_delete_ne (s := s) htarget hq h
  cases hdelete : Storage.delete s target with
  | mk answer s' =>
      rw [hdelete] at hne
      cases answer with
      | error e => exact Or.inl ⟨e, s', rfl, LawfulStorage.get_delete_error hdelete⟩
      | ok =>
          refine Or.inr ⟨s', rfl, ?_, hne⟩
          have hgone := ErasingStorage.get_delete_self htarget hdelete
          rw [contents]
          cases hget : Storage.get s' target with
          | error e => rfl
          | ok r => exact absurd ⟨r, hget⟩ hgone

/-! ## One request -/

theorem le_status_enforceWrite {mode : AccessMode} {agent : Option Str} {rsp : HttpResponse}
    (h : enforceWrite sv s path mode agent = .error rsp) : 400 ≤ rsp.status := by
  rw [enforceWrite] at h
  split at h
  · cases h
    exact le_status_toActix _
  · split at h
    · cases h
    · cases h
      rw [denied]
      dsimp only
      split <;> decide

theorem status_setLinkHeaders (rsp : HttpResponse) :
    (setLinkHeaders sv path rsp).status = rsp.status := status_setHeader rsp

theorem status_setEtag (metadata : ResourceMeta) (rsp : HttpResponse) :
    (setEtag sv metadata rsp).status = rsp.status := status_setHeader rsp

/-- A plan that writes answers with a status of success. -/
theorem status_of_planPatch {dialect : PatchDialect} {patch : Str}
    {existing : Except PodError (Bytes × ResourceMeta)} {body : Bytes} {contentType : Str}
    {status : Nat} (h : planPatch sv dialect patch existing = .store body contentType status) :
    status < 400 := by
  rw [planPatch.eq_def] at h
  split at h
  · rcases @patchExisting_cases sv _ _ dialect patch with
      ⟨rsp, hplan, -⟩ | ⟨ops, v, -, -, -, hplan⟩ | ⟨rdf, o, -, -, hplan⟩
    · rw [hplan] at h
      cases h
    · rw [hplan] at h
      cases h
      decide
    · rw [hplan] at h
      cases h
      decide
  · rw [patchAbsent] at h
    split at h
    · cases h
    · cases h
      decide
    · cases h
  · cases h

/-- A plan that does not write answers with an error. -/
theorem le_status_of_answer {dialect : PatchDialect} {patch : Str}
    {existing : Except PodError (Bytes × ResourceMeta)} {rsp : HttpResponse}
    (h : planPatch sv dialect patch existing = .answer rsp) : 400 ≤ rsp.status := by
  rw [planPatch.eq_def] at h
  split at h
  · rcases @patchExisting_cases sv _ _ dialect patch with
      ⟨rsp, hplan, hstatus⟩ | ⟨ops, v, -, -, -, hplan⟩ | ⟨rdf, o, -, -, hplan⟩
    · rw [hplan] at h
      cases h
      exact hstatus
    · rw [hplan] at h
      cases h
    · rw [hplan] at h
      cases h
  · rw [patchAbsent] at h
    split at h
    · cases h
      exact le_status_patchParseErr _
    · cases h
    · cases h
      exact le_status_toActix _
  · cases h
    exact le_status_toActix _

/-- An error acknowledges nothing. -/
theorem acknowledged_of_error {rsp : HttpResponse} (h : 400 ≤ rsp.status) :
    acknowledged sv ledger req rsp = [] := by
  rw [acknowledged]
  cases req.method with
  | get => rfl
  | head => rfl
  | put => exact if_neg (by omega)
  | post => exact if_neg (by omega)
  | delete => exact if_neg (by omega)
  | patch =>
      simp only [patchAcknowledged]
      split
      · split
        · rename_i hplan
          have hstatus := status_of_planPatch hplan
          exact if_neg (by omega)
        · rfl
      · rfl

/-- A request that is answered with an error has changed nothing. -/
theorem Agrees.refused {rsp : HttpResponse} (h : Agrees s ledger) (hstatus : 400 ≤ rsp.status)
    (hsame : ∀ q, Storage.get s' q = Storage.get s q) :
    Agrees s' (replay ledger (acknowledged sv ledger req rsp)) := by
  rw [acknowledged_of_error hstatus]
  exact h.keep hsame

theorem agrees_handlePut [LawfulStorage σ] (h : Agrees s ledger) (hmethod : req.method = .put) :
    Agrees (handlePut sv s req).2
      (replay ledger (acknowledged sv ledger req (handlePut sv s req).1)) := by
  rw [handlePut]
  split
  · exact h.refused (of_decide_eq_true rfl) fun _ => rfl
  · split
    · rename_i rsp hrsp
      exact h.refused (le_status_enforceWrite hrsp) fun _ => rfl
    · rcases put_cases s req.canonical.absolute req.body (storedType req) with
        ⟨e, s', hput, hsame⟩ | ⟨m, s', hput, hself, helse⟩
      · rw [storedType] at hput
        simp only [hput]
        exact h.refused (le_status_toActix e) hsame
      · rw [storedType] at hput
        simp only [hput]
        rw [acknowledged, hmethod]
        simp only [status_setLinkHeaders, status_setEtag, emptyResponse, if_true]
        exact h.write hself helse

theorem agrees_handlePost [LawfulStorage σ] (h : Agrees s ledger) (hmethod : req.method = .post)
    (hroute : isPostRoute req.path = true) : Agrees (handlePost sv s req).2
      (replay ledger (acknowledged sv ledger req (handlePost sv s req).1)) := by
  rw [handlePost]
  split
  · rename_i rsp hrsp
    exact h.refused (le_status_enforceWrite hrsp) fun _ => rfl
  · rename_i hok
    split
    · exact h.refused (le_status_toActix _) fun _ => rfl
    · rename_i target htarget
      have habs : IsAbsolute target := Writes.isAbsolute sv
        (.post hmethod hroute ((enforceWrite_eq_ok_iff sv).mp hok) htarget)
      rcases put_cases s habs req.body (storedType req) with
        ⟨e, s', hput, hsame⟩ | ⟨m, s', hput, hself, helse⟩
      · rw [storedType] at hput
        simp only [hput]
        exact h.refused (le_status_toActix e) hsame
      · rw [storedType] at hput
        simp only [hput]
        rw [acknowledged, hmethod]
        simp only [status_setLinkHeaders, status_setEtag, status_setHeader, emptyResponse, if_true,
          htarget]
        exact h.write hself helse

theorem agrees_handleDelete [ErasingStorage σ] (h : Agrees s ledger)
    (hmethod : req.method = .delete) : Agrees (handleDelete sv s req).2
      (replay ledger (acknowledged sv ledger req (handleDelete sv s req).1)) := by
  rw [handleDelete]
  split
  · rename_i rsp hrsp
    exact h.refused (le_status_enforceWrite hrsp) fun _ => rfl
  · rcases delete_cases s req.canonical.absolute with
      ⟨e, s', hdelete, hsame⟩ | ⟨s', hdelete, hself, helse⟩
    · rw [hdelete]
      cases e with
      | notFound => exact h.refused (of_decide_eq_true rfl) hsame
      | _ => exact h.refused (le_status_toActix _) hsame
    · rw [hdelete, acknowledged, hmethod]
      exact h.write hself helse

/-- The dialect and the text of a patch that passes its checks. -/
theorem of_admitPatch {dialect : PatchDialect} {patch : Str}
    (h : admitPatch sv s req = .ok (dialect, patch)) :
    patchDialectFromMime (req.contentType.getD []) = some dialect ∧
      fromUtf8 req.body = some patch := by
  rw [admitPatch] at h
  split at h
  · cases h
  · split at h
    · cases h
    · dsimp only at h
      split at h
      · cases h
      · rename_i hdialect
        split at h
        · cases h
        · rename_i hbody
          cases h
          exact ⟨hdialect, hbody⟩

/-- The plan for what the ledger knows is the plan for what is stored, or the handler answers
with an error. -/
theorem planPatch_found (h : Agrees s ledger) (dialect : PatchDialect) (patch : Str) :
    planPatch sv dialect patch (Storage.get s req.path) =
      planPatch sv dialect patch (found req.path (ledger req.path)) ∨
    ∃ rsp, planPatch sv dialect patch (Storage.get s req.path) = .answer rsp ∧
      400 ≤ rsp.status := by
  rw [← h _ req.canonical.absolute, contents]
  cases hget : Storage.get s req.path with
  | ok r =>
      refine Or.inl ?_
      simp only [planPatch, found]
      cases dialect <;> rfl
  | error e =>
      cases e with
      | notFound => exact Or.inl rfl
      | _ => exact Or.inr ⟨_, rfl, le_status_toActix _⟩

theorem agrees_handlePatch [LawfulStorage σ] (h : Agrees s ledger) (hmethod : req.method = .patch) :
    Agrees (handlePatch sv s req).2
      (replay ledger (acknowledged sv ledger req (handlePatch sv s req).1)) := by
  rw [handlePatch]
  split
  · rename_i rsp hrsp
    exact h.refused (le_status_of_admitPatch hrsp) fun _ => rfl
  · rename_i dialect patch hpasses
    obtain ⟨hdialect, hbody⟩ := of_admitPatch hpasses
    rcases @planPatch_found _ _ sv s ledger req h dialect patch with
      hplan | ⟨rsp, hplan, hstatus⟩
    · rw [hplan]
      cases hfound : planPatch sv dialect patch (found req.path (ledger req.path)) with
      | answer rsp => exact h.refused (le_status_of_answer hfound) fun _ => rfl
      | store body contentType status =>
          rcases put_cases s req.canonical.absolute body contentType with
            ⟨e, s', hput, hsame⟩ | ⟨m, s', hput, hself, helse⟩
          · rw [runPlan, hput]
            exact h.refused (le_status_toActix e) hsame
          · rw [runPlan, hput, acknowledged, hmethod]
            simp only [patchAcknowledged, hdialect, hbody, hfound, emptyResponse, if_true]
            exact h.write hself helse
    · rw [hplan]
      exact h.refused hstatus fun _ => rfl

/-- What a pod holds after a request is what the ledger says after the exchange. -/
theorem agrees_serve [ErasingStorage σ] (h : Agrees s ledger) (req : HttpRequest) :
    Agrees (serve sv s req).2 (replay ledger (acknowledged sv ledger req (serve sv s req).1)) := by
  cases hmethod : req.method with
  | get =>
      rw [acknowledged, hmethod, serve, hmethod]
      simp only []
      split <;> exact h
  | head =>
      rw [acknowledged, hmethod, serve, hmethod]
      exact h
  | put =>
      rw [serve, hmethod]
      exact agrees_handlePut h hmethod
  | post =>
      rw [serve, hmethod]
      simp only []
      split
      · rename_i hroute
        exact agrees_handlePost h hmethod hroute
      · exact h.refused (of_decide_eq_true rfl) fun _ => rfl
  | patch =>
      rw [serve, hmethod]
      exact agrees_handlePatch h hmethod
  | delete =>
      rw [serve, hmethod]
      exact agrees_handleDelete h hmethod

/-! ## Reads -/

theorem body_setHeader {name value : Str} (rsp : HttpResponse) :
    (setHeader sv name value rsp).body = rsp.body := by
  rw [setHeader]
  split <;> rfl

/-- The answer to a read without its body for `HEAD`. -/
theorem serve_fst_of_read (hmethod : req.method = .get ∨ req.method = .head)
    (hserves : ServesStored sv req) :
    (serve sv s req).1.status = (handleGet sv s req).status ∧
      (serve sv s req).1.body = if req.method = .head then [] else (handleGet sv s req).body := by
  rcases hmethod with hmethod | hmethod
  · have hget : (serve sv s req).1 = handleGet sv s req := by
      rw [serve, hmethod]
      simp only [hserves.2 hmethod]
    rw [hget, hmethod]
    exact ⟨rfl, rfl⟩
  · rw [serve, hmethod]
    exact ⟨rfl, rfl⟩

theorem readsRegister_serve (hmethod : req.method = .get ∨ req.method = .head)
    (hserves : ServesStored sv req) :
    ReadsRegister sv req (serve sv s req).1 (contents s req.path) := by
  obtain ⟨hstatus, hbody⟩ := serve_fst_of_read (s := s) hmethod hserves
  rw [contents]
  cases hget : Storage.get s req.path with
  | ok r =>
      obtain ⟨body, metadata⟩ := r
      have hresponse : handleGet sv s req = resourceResponse sv req.path
          (wacAllowHeader sv.feature none (agentUri req.pubkey) req.path) body metadata := by
        rw [handleGet, hserves.1, hget]
        rfl
      refine .present body metadata.contentType ?_ ?_
        (headers_serve_of_servesStored hmethod hserves hget)
      · rw [hstatus, hresponse, resourceResponse, status_setLinkHeaders, setWacAllow,
          status_setHeader, status_setEtag]
      · rw [hbody, hresponse, resourceResponse, setLinkHeaders, setWacAllow, setEtag,
          body_setHeader, body_setHeader, body_setHeader]
  | error e =>
      refine .absent ?_
      rw [hstatus, handleGet, hserves.1, if_neg Bool.false_ne_true, hget]
      cases e with
      | notFound => exact of_decide_eq_true rfl
      | _ => exact le_status_toActix _

/-- Every read is answered from what was acknowledged before it: by the last acknowledged write
at its path, or by what the pod held there at first. -/
theorem serve_reads_register [ErasingStorage σ] (sv : Services) (s : σ) (reqs : List HttpRequest)
    (req : HttpRequest) (hmethod : req.method = .get ∨ req.method = .head)
    (hserves : ServesStored sv req) :
    ReadsRegister sv req (serve sv (runRequests sv s reqs) req).1
      (knownAt sv s reqs req.path) := by
  have hstart : Agrees s (contents s) := fun _ _ => rfl
  have hstep : ∀ (s : σ) ledger req, Agrees s ledger → Agrees (serve sv s req).2
      (replay ledger (acknowledged sv ledger req (serve sv s req).1)) :=
    fun s ledger req h => agrees_serve h req
  have hshows := shows_final hstep hstart reqs
  have hat := hshows req.path req.canonical.absolute
  rw [replay_apply] at hat
  rw [knownAt, exchanges, ← hat]
  exact readsRegister_serve hmethod hserves

/-! ## What may change -/

/-- The storage carries the write out. -/
def Write.Done (s : σ) : Write → Prop
  | .put target body contentType => ∃ m s', Storage.put s target body contentType = (.ok m, s')
  | .delete target => ∃ s', Storage.delete s target = (.ok (), s')

theorem Write.get_run_of_not_done [LawfulStorage σ] {w : Write} (h : ¬ w.Done s) (q : Str) :
    Storage.get (w.run s) q = Storage.get s q := by
  cases w with
  | put target body contentType =>
      rw [Write.run]
      cases hput : Storage.put s target body contentType with
      | mk answer s' =>
          cases answer with
          | error e => exact LawfulStorage.get_put_error hput q
          | ok m => exact absurd ⟨m, s', hput⟩ h
  | delete target =>
      rw [Write.run]
      cases hdelete : Storage.delete s target with
      | mk answer s' =>
          cases answer with
          | error e => exact LawfulStorage.get_delete_error hdelete q
          | ok => exact absurd ⟨s', hdelete⟩ h

/-- A write that is carried out is answered with success. -/
theorem status_of_done {w : Write} (hw : Writes sv s req w) (hdone : w.Done s) :
    (serve sv s req).1.status < 400 := by
  cases hw with
  | put hmethod hcontainer hpermitted =>
      obtain ⟨m, s', hput⟩ := hdone
      rw [storedType] at hput
      rw [serve, hmethod]
      simp only [handlePut, hcontainer, (enforceWrite_eq_ok_iff sv).mpr hpermitted,
        if_neg Bool.false_ne_true, hput, status_setLinkHeaders, status_setEtag]
      exact of_decide_eq_true rfl
  | post hmethod hroute hpermitted htarget =>
      obtain ⟨m, s', hput⟩ := hdone
      rw [storedType] at hput
      rw [serve, hmethod]
      simp only [handlePost, hroute, (enforceWrite_eq_ok_iff sv).mpr hpermitted, htarget, if_true,
        hput, status_setLinkHeaders, status_setEtag, status_setHeader]
      exact of_decide_eq_true rfl
  | patch hmethod hpermitted hpasses hplan =>
      obtain ⟨m, s', hput⟩ := hdone
      rw [serve, hmethod]
      simp only [handlePatch, hpasses, hplan, runPlan, hput]
      exact status_of_planPatch hplan
  | delete hmethod hpermitted =>
      obtain ⟨s', hdelete⟩ := hdone
      rw [serve, hmethod]
      simp only [handleDelete, (enforceWrite_eq_ok_iff sv).mpr hpermitted, hdelete]
      exact of_decide_eq_true rfl

/-- If one request changes what is stored at a path, it makes a write there, which its agent
was permitted, and it is answered with success. -/
theorem writes_of_changed [LawfulStorage σ] (hpath : IsAbsolute path)
    (h : Storage.get (serve sv s req).2 path ≠ Storage.get s path) :
    ∃ w, Writes sv s req w ∧ w.target = path ∧ (serve sv s req).1.status < 400 := by
  rcases serve_snd sv s req with hs | ⟨w, hw, hs⟩
  · rw [hs] at h
    exact absurd rfl h
  · rw [hs] at h
    refine ⟨w, hw, ?_, status_of_done hw ?_⟩
    · by_contra hne
      exact h (w.get_run_of_ne s (hw.isAbsolute sv) hpath hne)
    · by_contra hdone
      exact h (Write.get_run_of_not_done hdone path)

/-- What has changed in a run was changed by a request that was permitted the write in the
state in which it came, and that was told so. -/
theorem writes_of_changed_by_run [LawfulStorage σ] (sv : Services) (s : σ)
    (reqs : List HttpRequest) {path : Str} (hpath : IsAbsolute path)
    (h : Storage.get (runRequests sv s reqs) path ≠ Storage.get s path) :
    ∃ pre req post w, reqs = pre ++ req :: post ∧
      Writes sv (runRequests sv s pre) req w ∧ w.target = path ∧
        (serve sv (runRequests sv s pre) req).1.status < 400 := by
  induction reqs generalizing s with
  | nil => exact absurd rfl h
  | cons req reqs ih =>
      by_cases hfirst : Storage.get (serve sv s req).2 path = Storage.get s path
      · rw [runRequests_cons, ← hfirst] at h
        obtain ⟨pre, req', post, w, rfl, hw, hpath', hstatus⟩ := ih (serve sv s req).2 h
        exact ⟨req :: pre, req', post, w, rfl, hw, hpath', hstatus⟩
      · obtain ⟨w, hw, htarget, hstatus⟩ := writes_of_changed hpath hfirst
        exact ⟨[], req, reqs, w, rfl, hw, htarget, hstatus⟩

end Ledgers

/-! ## A note that is posted and read -/

theorem writes_postNote :
    Writes turtleServices appendPod postNote (.put "/c/note" (utf8 malloryAclText) "text/turtle") :=
  .post rfl (by decide)
    (permitted_append_container get_appendPod_root (get_appendPod_of_ne (by decide) (by decide)))
    (by decide)

def getNote : HttpRequest :=
  { postNote with method := .get, path := "/c/note", canonical := by decide }

theorem get_note : Storage.get (runRequests turtleServices appendPod [postNote]) "/c/note" =
    .ok (utf8 malloryAclText, turtleMeta malloryAclText) := by
  have hserve := serve_snd_of_writes turtleServices writes_postNote
  rw [runRequests_cons, hserve]
  change (appendPod.put "/c/note" (utf8 malloryAclText) "text/turtle").2.get "/c/note" = _
  rw [MemoryBackend.get_put _ (by decide) (by decide), if_pos rfl, turtleMeta]

/-- The note that was posted is read. -/
theorem serve_reads_register_note : ReadsRegister turtleServices getNote
    (serve turtleServices (runRequests turtleServices appendPod [postNote]) getNote).1
      (knownAt turtleServices appendPod [postNote] "/c/note") :=
  serve_reads_register turtleServices appendPod [postNote] getNote (Or.inl rfl)
    ⟨by decide, fun _ => rfl⟩

theorem writes_of_changed_by_run_note : ∃ pre req post w, [postNote] = pre ++ req :: post ∧
    Writes turtleServices (runRequests turtleServices appendPod pre) req w ∧
      w.target = "/c/note" ∧
        (serve turtleServices (runRequests turtleServices appendPod pre) req).1.status < 400 := by
  refine writes_of_changed_by_run turtleServices appendPod [postNote] (by decide) ?_
  rw [get_note, MemoryBackend.storage_get, get_appendPod_of_ne (by decide) (by decide)]
  intro h
  cases h

end Server

end SolidPod
