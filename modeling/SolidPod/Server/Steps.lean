import SolidPod.Server.Handlers
import SolidPod.Wac.Walk

/-!
# What one request does to the storage

A request leaves the storage as it is, or it makes one write, which `Writes`
describes handler by handler: the check it passed, and the path it is made at.
So a path that no write of a request is made at keeps what is stored there, and
an effective ACL is kept as long as no write is made at the keys its walk asks.
-/

namespace SolidPod

namespace Server

open Foundation Str Wac Ldp

section Steps

variable {σ : Type*} [Storage σ] (sv : Services)

/-- The check of a handler lets the agent through. -/
def Permitted (s : σ) (path : Str) (mode : AccessMode) (agent : Option Str) : Prop :=
  ∃ acl, effectiveAcl sv s path = .ok acl ∧ granted sv acl path mode agent = true

/-- One call of the storage that writes. -/
inductive Write where
  | put (target : Str) (body : Bytes) (contentType : Str)
  | delete (target : Str)

def Write.target : Write → Str
  | .put target _ _ => target
  | .delete target => target

def Write.run (s : σ) : Write → σ
  | .put target body contentType => (Storage.put s target body contentType).2
  | .delete target => (Storage.delete s target).2

/-- The media type a body is stored with. -/
def storedType (req : HttpRequest) : Str := req.contentType.getD "application/octet-stream"

/-- The write that a request makes, once it has passed the checks of its
handler. -/
inductive Writes (s : σ) (req : HttpRequest) : Write → Prop where
  | put (hmethod : req.method = .put) (hcontainer : isContainer req.path = false)
      (hpermitted : Permitted sv s req.path .write (agentUri req.pubkey)) :
      Writes s req (.put req.path req.body (storedType req))
  | post {target : Str} (hmethod : req.method = .post) (hroute : isPostRoute req.path = true)
      (hpermitted : Permitted sv s req.path .append (agentUri req.pubkey))
      (htarget : resolveSlug sv.printable req.uuid req.path req.slug = .ok target) :
      Writes s req (.put target req.body (storedType req))
  | patch {dialect : PatchDialect} {patch : Str} {body : Bytes} {contentType : Str} {status : Nat}
      (hmethod : req.method = .patch)
      (hpermitted : Permitted sv s req.path .append (agentUri req.pubkey))
      (hpasses : admitPatch sv s req = .ok (dialect, patch))
      (hplan : planPatch sv dialect patch (Storage.get s req.path) =
        .store body contentType status) :
      Writes s req (.put req.path body contentType)
  | delete (hmethod : req.method = .delete)
      (hpermitted : Permitted sv s req.path .write (agentUri req.pubkey)) :
      Writes s req (.delete req.path)

theorem enforceWrite_eq_ok_iff {s : σ} {path : Str} {mode : AccessMode} {agent : Option Str} :
    enforceWrite sv s path mode agent = .ok () ↔ Permitted sv s path mode agent := by
  rw [enforceWrite, Permitted]
  cases effectiveAcl sv s path with
  | error e => simp
  | ok acl =>
      by_cases h : granted sv acl path mode agent = true
      · simp [h]
      · simp [h]

/-- What the checks of a `PATCH` let through. -/
theorem permitted_of_admitPatch {s : σ} {req : HttpRequest} {dp : PatchDialect × Str}
    (h : admitPatch sv s req = .ok dp) :
    Permitted sv s req.path .append (agentUri req.pubkey) := by
  rw [admitPatch] at h
  split at h
  · cases h
  · split at h
    · cases h
    · rename_i hok
      exact (enforceWrite_eq_ok_iff sv).mp hok

/-- A `PATCH` that passes its checks. -/
theorem admitPatch_of_permitted {s : σ} {req : HttpRequest} {dialect : PatchDialect} {patch : Str}
    (hcontainer : isContainer req.path = false)
    (hpermitted : Permitted sv s req.path .append (agentUri req.pubkey))
    (hdialect : patchDialectFromMime (req.contentType.getD []) = some dialect)
    (hbody : req.body = utf8 patch) : admitPatch sv s req = .ok (dialect, patch) := by
  rw [admitPatch, hcontainer, if_neg (Bool.false_ne_true),
    (enforceWrite_eq_ok_iff sv).mpr hpermitted]
  simp only [hdialect, hbody, fromUtf8_utf8]

/-- A request changes nothing, or it makes its one write. -/
theorem serve_snd (s : σ) (req : HttpRequest) :
    (serve sv s req).2 = s ∨ ∃ w, Writes sv s req w ∧ (serve sv s req).2 = w.run s := by
  rw [serve]
  cases hmethod : req.method with
  | get =>
      refine Or.inl ?_
      simp only []
      split <;> rfl
  | head => exact Or.inl rfl
  | put =>
      simp only []
      rw [handlePut]
      split
      · exact Or.inl rfl
      · rename_i hcontainer
        split
        · exact Or.inl rfl
        · rename_i hok
          refine Or.inr ⟨_, .put hmethod (by simpa using hcontainer)
            ((enforceWrite_eq_ok_iff sv).mp hok), ?_⟩
          simp only [Write.run, storedType]
          split <;> rename_i hput <;> rw [hput]
  | post =>
      simp only []
      split
      · rename_i hroute
        rw [handlePost]
        split
        · exact Or.inl rfl
        · rename_i hok
          split
          · exact Or.inl rfl
          · rename_i target htarget
            refine Or.inr ⟨_, .post hmethod hroute ((enforceWrite_eq_ok_iff sv).mp hok) htarget, ?_⟩
            simp only [Write.run, storedType]
            split <;> rename_i hput <;> rw [hput]
      · exact Or.inl rfl
  | patch =>
      simp only []
      rw [handlePatch]
      split
      · exact Or.inl rfl
      · rename_i dialect patch hpasses
        cases hplan : planPatch sv dialect patch (Storage.get s req.path) with
        | answer rsp => exact Or.inl rfl
        | store body contentType status =>
            refine Or.inr ⟨_, .patch hmethod (permitted_of_admitPatch sv hpasses) hpasses hplan, ?_⟩
            rw [runPlan]
            simp only [Write.run]
            split <;> rename_i hput <;> rw [hput]
  | delete =>
      simp only []
      rw [handleDelete]
      split
      · exact Or.inl rfl
      · rename_i hok
        refine Or.inr ⟨_, .delete hmethod ((enforceWrite_eq_ok_iff sv).mp hok), ?_⟩
        simp only [Write.run]
        split <;> rename_i hdelete <;> rw [hdelete]

/-- The write of a request that passed its checks is made. -/
theorem serve_snd_of_writes {s : σ} {req : HttpRequest} {w : Write} (h : Writes sv s req w) :
    (serve sv s req).2 = w.run s := by
  cases h with
  | put hmethod hcontainer hpermitted =>
      have hok := (enforceWrite_eq_ok_iff sv).mpr hpermitted
      rw [serve, hmethod]
      simp only [handlePut, hcontainer, hok, if_neg (Bool.false_ne_true), Write.run, storedType]
      split <;> rename_i hput <;> rw [hput]
  | post hmethod hroute hpermitted htarget =>
      have hok := (enforceWrite_eq_ok_iff sv).mpr hpermitted
      rw [serve, hmethod]
      simp only [handlePost, hroute, hok, htarget, if_true, Write.run, storedType]
      split <;> rename_i hput <;> rw [hput]
  | patch hmethod hpermitted hpasses hplan =>
      rw [serve, hmethod]
      simp only [handlePatch, hpasses, hplan, runPlan, Write.run]
      split <;> rename_i hput <;> rw [hput]
  | delete hmethod hpermitted =>
      have hok := (enforceWrite_eq_ok_iff sv).mpr hpermitted
      rw [serve, hmethod]
      simp only [handleDelete, hok, Write.run]
      split <;> rename_i hdelete <;> rw [hdelete]

/-- The path of a write is absolute. -/
theorem Writes.isAbsolute {s : σ} {req : HttpRequest} {w : Write} (h : Writes sv s req w) :
    IsAbsolute w.target := by
  cases h with
  | put hmethod hcontainer hpermitted => exact req.canonical.absolute
  | @post target hmethod hroute hpermitted htarget =>
      have hslash : endsWith ['/'] req.path = true := by
        rw [isPostRoute, Bool.and_eq_true] at hroute
        exact hroute.2
      rcases eq_append_of_resolveSlug hslash htarget with rfl | ⟨name, -, rfl⟩
      · exact req.canonical.absolute.append _
      · exact req.canonical.absolute.append _
  | patch hmethod hpermitted hpasses hplan => exact req.canonical.absolute
  | delete hmethod hpermitted => exact req.canonical.absolute

variable [LawfulStorage σ]

/-- A write changes nothing elsewhere. -/
theorem Write.get_run_of_ne {w : Write} (s : σ) {q : Str} (hw : IsAbsolute w.target)
    (hq : IsAbsolute q) (hne : w.target ≠ q) : Storage.get (w.run s) q = Storage.get s q := by
  cases w with
  | put target body contentType => exact LawfulStorage.get_put_ne body contentType hw hq hne
  | delete target => exact LawfulStorage.get_delete_ne hw hq hne

/-- A path keeps what is stored there unless a request writes at it. -/
theorem get_serve_of_forall_ne {s : σ} {req : HttpRequest} {q : Str} (hq : IsAbsolute q)
    (h : ∀ w, Writes sv s req w → w.target ≠ q) :
    Storage.get (serve sv s req).2 q = Storage.get s q := by
  rcases serve_snd sv s req with hs | ⟨w, hw, hs⟩
  · rw [hs]
  · rw [hs]
    exact w.get_run_of_ne s (hw.isAbsolute sv) hq (h w hw)

/-! ## The effective ACL -/

/-- The keys that the walk for a path asks, up to the one that answers. -/
def consultedKeys (s : σ) (path : Str) : List Str :=
  consulted (fun key => visitAcl jsonldFatalDyn sv.reader (Storage.get s key)) (aclKeys path)

omit [LawfulStorage σ] in
theorem mem_aclKeys_of_mem_consultedKeys {s : σ} {path key : Str}
    (h : key ∈ consultedKeys sv s path) : key ∈ aclKeys path := by
  obtain ⟨p, q, hkeys, -⟩ := mem_consulted_iff.mp h
  rw [hkeys]
  simp

omit [LawfulStorage σ] in
/-- The effective ACL of a path depends on the consulted keys alone. -/
theorem effectiveAcl_congr {s s' : σ} {path : Str}
    (h : ∀ key ∈ consultedKeys sv s path, Storage.get s' key = Storage.get s key) :
    effectiveAcl sv s' path = effectiveAcl sv s path := by
  have hfind : (aclKeys path).findSome?
        (fun key => visitAcl jsonldFatalDyn sv.reader (Storage.get s' key)) =
      (aclKeys path).findSome? fun key =>
        visitAcl jsonldFatalDyn sv.reader (Storage.get s key) := by
    refine findSome?_eq_of_consulted ?_
    intro key hkey
    rw [h key hkey]
  rw [effectiveAcl, effectiveAcl, findEffectiveAclDyn, findEffectiveAclDyn, walkAcl, walkAcl, hfind]

/-- A request that writes at no consulted key leaves the effective ACL as it
is. -/
theorem effectiveAcl_serve {s : σ} {req : HttpRequest} {path : Str} (hpath : IsCanonical path)
    (h : ∀ w, Writes sv s req w → w.target ∉ consultedKeys sv s path) :
    effectiveAcl sv (serve sv s req).2 path = effectiveAcl sv s path := by
  refine effectiveAcl_congr sv ?_
  intro key hkey
  refine get_serve_of_forall_ne sv ?_ ?_
  · exact isAbsolute_of_mem_aclKeys hpath (mem_aclKeys_of_mem_consultedKeys sv hkey)
  · rintro w hw rfl
    exact h w hw hkey

/-! ## Runs -/

omit [LawfulStorage σ] in
theorem runRequests_append (s : σ) (reqs reqs' : List HttpRequest) :
    runRequests sv s (reqs ++ reqs') = runRequests sv (runRequests sv s reqs) reqs' := by
  simp [runRequests]

omit [LawfulStorage σ] in
theorem runRequests_cons (s : σ) (req : HttpRequest) (reqs : List HttpRequest) :
    runRequests sv s (req :: reqs) = runRequests sv (serve sv s req).2 reqs := rfl

/-- Every request of a run has the property in the state in which it is
served. -/
def AlongRun (P : σ → HttpRequest → Prop) : σ → List HttpRequest → Prop
  | _, [] => True
  | s, req :: reqs => P s req ∧ AlongRun P (serve sv s req).2 reqs

omit [LawfulStorage σ] in
theorem AlongRun.mono {P Q : σ → HttpRequest → Prop} (h : ∀ s req, P s req → Q s req) {s : σ}
    {reqs : List HttpRequest} (hrun : AlongRun sv P s reqs) : AlongRun sv Q s reqs := by
  induction reqs generalizing s with
  | nil => trivial
  | cons req reqs ih => exact ⟨h s req hrun.1, ih hrun.2⟩

omit [LawfulStorage σ] in
theorem AlongRun.and {P Q : σ → HttpRequest → Prop} {s : σ} {reqs : List HttpRequest}
    (hP : AlongRun sv P s reqs) (hQ : AlongRun sv Q s reqs) :
    AlongRun sv (fun s req => P s req ∧ Q s req) s reqs := by
  induction reqs generalizing s with
  | nil => trivial
  | cons req reqs ih => exact ⟨⟨hP.1, hQ.1⟩, ih hP.2 hQ.2⟩

end Steps

/-! ## A pod that everyone may append to -/

/-- Services of a pod whose ACL documents are Turtle. -/
def turtleServices : Services where
  reader := noJsonReader
  feature := ⟨false, fun _ => none⟩
  jsonFromSlice := fun _ => .error "expected value"
  jsonFromStr := fun _ => .error "expected value"
  jsonToVec := fun _ => []
  updateParser := fun _ => .error "expected SPARQL"
  printable := fun c => 0x20 ≤ c.toNat && c.toNat < 0x7F
  headerValue := fun s => s.all fun c => 0x20 ≤ c.toNat && c.toNat < 0x7F
  wellKnown := fun _ => none

def appendAclText : Str :=
  "<#p> a acl:Authorization; acl:agentClass foaf:Agent; acl:default </>; acl:mode acl:Append ."

def appendAcl : AclDocument :=
  ⟨some [{ AclAuthorization.empty with
    agentClass := some (.single ⟨"http://xmlns.com/foaf/0.1/Agent"⟩)
    default := some (.single ⟨"/"⟩)
    mode := some (.single ⟨"http://www.w3.org/ns/auth/acl#Append"⟩) }]⟩

/-- The example backend, whose digest is empty. -/
abbrev Pod := MemoryBackend fun _ => []

def turtleMeta (text : Str) : ResourceMeta :=
  (MemoryBackend.newEntry (fun _ => []) (utf8 text) "text/turtle").metadata

theorem visitAcl_appendAclText : visitAcl jsonldFatalDyn noJsonReader
    (.ok (utf8 appendAclText, turtleMeta appendAclText)) = some (.ok appendAcl) := by
  have htext : appendAclText = _ := String.toList_ofList
  rw [htext]
  exact visitAcl_of_turtle (fun _ => rfl) (by decide +kernel) (by decide +kernel) rfl
    (by decide +kernel) (by decide +kernel)

/-- Where nothing is stored at the nearer keys, the ACL of the root governs. -/
theorem effectiveAcl_of_rootAcl {s : Pod} {path text : Str} {doc : AclDocument}
    (nearer : List Str) (hkeys : aclKeys path = nearer ++ [("/.acl" : Str)])
    (hnearer : ∀ k ∈ nearer, s.get k = .error (.notFound k))
    (hroot : s.get "/.acl" = .ok (utf8 text, turtleMeta text))
    (hvisit : visitAcl jsonldFatalDyn noJsonReader (.ok (utf8 text, turtleMeta text)) =
      some (.ok doc)) : effectiveAcl turtleServices s path = .ok (some doc) := by
  have hnone : nearer.findSome?
      (fun key => visitAcl jsonldFatalDyn noJsonReader (s.get key)) = none := by
    rw [List.findSome?_eq_none_iff]
    intro k hk
    rw [hnearer k hk]
    rfl
  change walkAcl jsonldFatalDyn noJsonReader s.get path = _
  rw [walkAcl, hkeys, List.findSome?_append, hnone, Option.none_or, List.findSome?_cons, hroot,
    hvisit]

def appendPod : Pod := (MemoryBackend.empty.put "/.acl" (utf8 appendAclText) "text/turtle").2

theorem get_appendPod_root :
    appendPod.get "/.acl" = .ok (utf8 appendAclText, turtleMeta appendAclText) := by
  rw [appendPod, MemoryBackend.get_put _ (by decide) (by decide), if_pos rfl, turtleMeta]

theorem get_appendPod_of_ne {p : Str} (hp : IsAbsolute p) (h : ("/.acl" : Str) ≠ p) :
    appendPod.get p = .error (.notFound p) := by
  rw [appendPod, MemoryBackend.get_put _ (by decide) hp, if_neg h, MemoryBackend.get_empty hp]

/-- An agent that may append may create children of `/c/`. -/
theorem permitted_append_container {s : Pod} (hroot : s.get "/.acl" =
      .ok (utf8 appendAclText, turtleMeta appendAclText))
    (hnearer : s.get "/c.acl" = .error (.notFound "/c.acl")) :
    Permitted turtleServices s "/c/" .append (some "did:nostr:mallory") :=
  ⟨appendAcl, effectiveAcl_of_rootAcl ["/c.acl"] (by decide)
    (by simpa using hnearer) hroot visitAcl_appendAclText, by decide⟩

def tripleA : Triple := ⟨.iri "a", .iri "p", .iri "x"⟩

def tripleB : Triple := ⟨.iri "b", .iri "p", .iri "y"⟩

def docGraph : Graph := SortedSet.ofList [tripleA]

/-- The pod with one resource, which holds one triple. -/
def docPod : Pod := (appendPod.put "/doc" (utf8 (toNtriples docGraph)) "text/turtle").2

theorem get_docPod_doc :
    docPod.get "/doc" = .ok (utf8 (toNtriples docGraph), turtleMeta (toNtriples docGraph)) := by
  rw [docPod, MemoryBackend.get_put _ (by decide) (by decide), if_pos rfl, turtleMeta]

theorem effectiveAcl_docPod {path : Str} (nearer : List Str)
    (hkeys : aclKeys path = nearer ++ [("/.acl" : Str)])
    (hnearer : ∀ k ∈ nearer, IsAbsolute k ∧ ("/doc" : Str) ≠ k ∧ ("/.acl" : Str) ≠ k) :
    effectiveAcl turtleServices docPod path = .ok (some appendAcl) := by
  refine effectiveAcl_of_rootAcl nearer hkeys ?_ ?_ visitAcl_appendAclText
  · intro k hk
    obtain ⟨habs, hdoc, hroot⟩ := hnearer k hk
    rw [docPod, MemoryBackend.get_put _ (by decide) habs, if_neg hdoc]
    exact get_appendPod_of_ne habs hroot
  · rw [docPod, MemoryBackend.get_put _ (by decide) (by decide), if_neg (by decide)]
    exact get_appendPod_root

theorem effectiveAcl_docPod_doc :
    effectiveAcl turtleServices docPod "/doc" = .ok (some appendAcl) :=
  effectiveAcl_docPod ["/doc.acl"] (by decide) (by decide)

theorem isCanonical_doc : IsCanonical "/doc" := by decide

/-- An N3 patch of `/doc`, by an agent that may append there and not write. -/
def patchDoc (patch : Str) : HttpRequest where
  method := .patch
  path := "/doc"
  canonical := isCanonical_doc
  pubkey := some "mallory"
  slug := none
  contentType := some "text/n3"
  body := utf8 patch
  uuid := []

theorem permitted_patchDoc :
    Permitted turtleServices docPod "/doc" .append (some "did:nostr:mallory") :=
  ⟨appendAcl, effectiveAcl_docPod_doc, by decide⟩

theorem admitPatch_patchDoc (patch : Str) :
    admitPatch turtleServices docPod (patchDoc patch) = .ok (.n3, patch) :=
  admitPatch_of_permitted turtleServices (by rfl) permitted_patchDoc (by rfl) rfl

end Server

end SolidPod
