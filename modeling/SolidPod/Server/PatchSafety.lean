import SolidPod.Server.ConcurrentPatch

/-!
# What a PATCH does to the stored document

A `PATCH` that is answered with an error leaves the stored document as it was.
A stored document that is not of the dialect's model is taken for the empty one,
so a patch that can be applied to the empty document replaces it.
-/

namespace SolidPod

namespace Server

open Foundation Str Ldp

section Safety

variable {σ : Type*} [Storage σ] (sv : Services) (s : σ) (req : HttpRequest)

/-- The stored body is a document of the dialect's model. -/
def Readable (current : Bytes) : PatchDialect → Prop
  | .jsonPatch => ∃ v, sv.jsonFromSlice current = .ok v
  | .n3 | .sparqlUpdate => ∃ g, ParsesTo current g

def Refused : Prop := 400 ≤ (handlePatch sv s req).1.status

def Succeeds : Prop := (handlePatch sv s req).1.status = 204

/-- What is stored afterwards parses to the patched value, under the same content type. -/
def StoresPatched (metadata : ResourceMeta) (patch : Str) (old : Json) : Prop :=
  ∃ ops v body metadata', sv.jsonFromStr patch = .ok ops ∧ applyJsonPatch old ops = .ok v ∧
    Storage.get (handlePatch sv s req).2 req.path = .ok (body, metadata') ∧
    metadata'.contentType = metadata.contentType ∧ sv.jsonFromSlice body = .ok v

/-- What is stored afterwards is the text of the patch of the empty graph. -/
def StoresBlankPatched (rdf : RdfDialect) (patch : Str) : Prop :=
  ∃ o metadata', applyRdfPatch sv.printable sv.updateParser rdf ∅ patch = .ok o ∧
    Storage.get (handlePatch sv s req).2 req.path = .ok (utf8 (toNtriples o.graph), metadata')

/-- An error changes nothing, a document that cannot be read is not patched, and a JSON patch
is applied to the stored document. -/
structure LeavesAlone (current : Bytes) (metadata : ResourceMeta) : Prop where
  unchanged : Refused sv s req →
    Storage.get (handlePatch sv s req).2 req.path = .ok (current, metadata)
  refused : ∀ dialect patch, admitPatch sv s req = .ok (dialect, patch) →
    ¬ Readable sv current dialect → Refused sv s req
  patched : ∀ patch old, admitPatch sv s req = .ok (.jsonPatch, patch) →
    sv.jsonFromSlice current = .ok old → Succeeds sv s req →
      StoresPatched sv s req metadata patch old

/-- An error changes nothing, a document that cannot be read counts as the empty one, and a JSON
patch is applied to the stored document. -/
structure PatchesOrBlanks (current : Bytes) (metadata : ResourceMeta) : Prop where
  unchanged : Refused sv s req →
    Storage.get (handlePatch sv s req).2 req.path = .ok (current, metadata)
  answered : Refused sv s req ∨ Succeeds sv s req
  patched : ∀ patch old, admitPatch sv s req = .ok (.jsonPatch, patch) →
    sv.jsonFromSlice current = .ok old → Succeeds sv s req →
      StoresPatched sv s req metadata patch old
  blankJson : ∀ patch, admitPatch sv s req = .ok (.jsonPatch, patch) →
    ¬ Readable sv current .jsonPatch → Succeeds sv s req →
      StoresPatched sv s req metadata patch (.object [])
  blankGraph : ∀ (rdf : RdfDialect) patch, admitPatch sv s req = .ok (rdf.toDialect, patch) →
    ¬ Readable sv current rdf.toDialect → Succeeds sv s req → StoresBlankPatched sv s req rdf patch

variable {sv s req} {current : Bytes} {metadata : ResourceMeta}

theorem le_status_toActix (e : PodError) : 400 ≤ (toActix e).status := by
  cases e <;> exact of_decide_eq_true rfl

theorem le_status_patchParseErr (e : PodError) : 400 ≤ (patchParseErr e).status := by
  cases e <;> exact of_decide_eq_true rfl

theorem le_status_of_admitPatch {rsp : HttpResponse} (h : admitPatch sv s req = .error rsp) :
    400 ≤ rsp.status := by
  rw [admitPatch] at h
  split at h
  · cases h
    exact of_decide_eq_true rfl
  · split at h
    · rename_i hwrite
      cases h
      rw [enforceWrite] at hwrite
      split at hwrite
      · cases hwrite
        exact le_status_toActix _
      · split at hwrite
        · cases hwrite
        · cases hwrite
          rw [denied]
          dsimp only
          split <;> decide
    · dsimp only at h
      split at h
      · cases h
        exact of_decide_eq_true rfl
      · split at h
        · cases h
          exact of_decide_eq_true rfl
        · cases h

/-- The plan for a stored document refuses the patch or stores its result. -/
theorem patchExisting_cases (dialect : PatchDialect) (patch : Str) :
    (∃ rsp, patchExisting sv dialect patch current metadata = .answer rsp ∧ 400 ≤ rsp.status) ∨
      (∃ ops v, dialect = .jsonPatch ∧ sv.jsonFromStr patch = .ok ops ∧
        applyJsonPatch (currentJson sv current) ops = .ok v ∧
        patchExisting sv dialect patch current metadata =
          .store (sv.jsonToVec v) metadata.contentType 204) ∨
      ∃ (rdf : RdfDialect) (o : PatchOutcome), dialect = rdf.toDialect ∧
        applyRdfPatch sv.printable sv.updateParser rdf ∅ patch = .ok o ∧
        patchExisting sv dialect patch current metadata =
          .store (utf8 (toNtriples o.graph)) "text/turtle" 204 := by
  rcases eq_jsonPatch_or_toDialect dialect with rfl | ⟨rdf, rfl⟩
  · rw [patchExisting]
    cases hops : sv.jsonFromStr patch with
    | error e => exact Or.inl ⟨_, rfl, le_status_toActix _⟩
    | ok ops =>
        dsimp only
        cases hv : applyJsonPatch (currentJson sv current) ops with
        | error e => exact Or.inl ⟨_, rfl, le_status_toActix _⟩
        | ok v => exact Or.inr (Or.inl ⟨ops, v, rfl, rfl, hv, rfl⟩)
  · rw [patchExisting_toDialect]
    cases ho : applyRdfPatch sv.printable sv.updateParser rdf ∅ patch with
    | error e => exact Or.inl ⟨_, rfl, le_status_patchParseErr _⟩
    | ok o => exact Or.inr (Or.inr ⟨rdf, o, rfl, ho, rfl⟩)

variable [LawfulStorage σ]

/-- A write fails and changes nothing, or it is answered with the status of the plan. -/
theorem runPlan_store_cases (hpath : IsAbsolute req.path) (body : Bytes) (contentType : Str)
    (status : Nat) :
    (400 ≤ (runPlan s req.path (.store body contentType status)).1.status ∧
      Storage.get (runPlan s req.path (.store body contentType status)).2 req.path =
        Storage.get s req.path) ∨
    ∃ metadata', (runPlan s req.path (.store body contentType status)).1 = emptyResponse status ∧
      Storage.get (runPlan s req.path (.store body contentType status)).2 req.path =
        .ok (body, metadata') ∧ metadata'.contentType = contentType := by
  rw [runPlan]
  cases hput : Storage.put s req.path body contentType with
  | mk answer s' =>
      cases answer with
      | error e => exact Or.inl ⟨le_status_toActix e, LawfulStorage.get_put_error hput _⟩
      | ok m =>
          obtain ⟨hget, htype⟩ := LawfulStorage.get_put_self hpath hput
          exact Or.inr ⟨m, rfl, hget, htype⟩

/-- The JSON library reads back what it has written for the patched value. -/
def ReadsBack (sv : Services) (s : σ) (req : HttpRequest) (current : Bytes) : Prop :=
  ∀ patch ops v, admitPatch sv s req = .ok (.jsonPatch, patch) → sv.jsonFromStr patch = .ok ops →
    applyJsonPatch (currentJson sv current) ops = .ok v → sv.jsonFromSlice (sv.jsonToVec v) = .ok v

/-- The handler refuses the request and keeps what is stored, or stores the patched value, or
stores the patch of the empty graph. -/
theorem handlePatch_cases (hstored : Storage.get s req.path = .ok (current, metadata))
    (hjson : ReadsBack sv s req current) :
    (Refused sv s req ∧
      Storage.get (handlePatch sv s req).2 req.path = .ok (current, metadata)) ∨
    (Succeeds sv s req ∧ ∃ patch, admitPatch sv s req = .ok (.jsonPatch, patch) ∧
      StoresPatched sv s req metadata patch (currentJson sv current)) ∨
    (Succeeds sv s req ∧ ∃ (rdf : RdfDialect) (patch : Str),
      admitPatch sv s req = .ok (rdf.toDialect, patch) ∧
        StoresBlankPatched sv s req rdf patch) := by
  cases hpassed : admitPatch sv s req with
  | error rsp =>
      left
      rw [Refused, handlePatch, hpassed]
      exact ⟨le_status_of_admitPatch hpassed, hstored⟩
  | ok dp =>
      obtain ⟨dialect, patch⟩ := dp
      have hrun : handlePatch sv s req =
          runPlan s req.path (patchExisting sv dialect patch current metadata) := by
        rw [handlePatch, hpassed, hstored]
        rfl
      rcases patchExisting_cases dialect patch with
        ⟨rsp, hplan, hle⟩ | ⟨ops, v, rfl, hops, hv, hplan⟩ | ⟨rdf, o, rfl, ho, hplan⟩
      · left
        rw [hplan] at hrun
        rw [Refused, hrun]
        exact ⟨hle, hstored⟩
      · rw [hplan] at hrun
        have hput := runPlan_store_cases (s := s) req.canonical.absolute (sv.jsonToVec v)
          metadata.contentType 204
        rw [← hrun] at hput
        rcases hput with ⟨hle, hget⟩ | ⟨metadata', hrsp, hget, htype⟩
        · exact Or.inl ⟨hle, hget.trans hstored⟩
        · refine Or.inr (Or.inl ⟨?_, patch, rfl, ops, v, _, metadata', hops, hv, hget, htype, ?_⟩)
          · rw [Succeeds, hrsp]
            rfl
          · exact hjson patch ops v hpassed hops hv
      · rw [hplan] at hrun
        have hput := runPlan_store_cases (s := s) req.canonical.absolute
          (utf8 (toNtriples o.graph)) "text/turtle" 204
        rw [← hrun] at hput
        rcases hput with ⟨hle, hget⟩ | ⟨metadata', hrsp, hget, -⟩
        · exact Or.inl ⟨hle, hget.trans hstored⟩
        · refine Or.inr (Or.inr ⟨?_, rdf, patch, rfl, o, metadata', ho, hget⟩)
          rw [Succeeds, hrsp]
          rfl

omit [LawfulStorage σ] in
theorem not_refused_of_succeeds (h : Succeeds sv s req) : ¬ Refused sv s req := by
  rw [Refused, h]
  decide

theorem currentJson_of_ok {v : Json} (h : sv.jsonFromSlice current = .ok v) :
    currentJson sv current = v := by
  rw [currentJson, h]

theorem currentJson_of_not_readable (h : ¬ Readable sv current .jsonPatch) :
    currentJson sv current = .object [] := by
  rw [currentJson]
  cases hv : sv.jsonFromSlice current with
  | error e => rfl
  | ok v => exact absurd ⟨v, hv⟩ h

end Safety

/-! ## A JSON patch of a plain text -/

/-- The pod that everyone may append to, with a plain text at `/doc`. -/
def notePod : Pod := (appendPod.put "/doc" (utf8 "hello") "text/plain").2

def noteMeta : ResourceMeta :=
  (MemoryBackend.newEntry (fun _ => []) (utf8 "hello") "text/plain").metadata

theorem get_notePod_doc : notePod.get "/doc" = .ok (utf8 "hello", noteMeta) := by
  rw [notePod, MemoryBackend.get_put _ (by decide) (by decide), if_pos rfl, noteMeta]

theorem permitted_notePod :
    Permitted jsonServices notePod "/doc" .append (some "did:nostr:mallory") := by
  refine ⟨appendAcl, effectiveAcl_of_rootAcl ["/doc.acl"] (by decide) ?_ ?_
    visitAcl_appendAclText, by decide⟩
  · intro k hk
    obtain rfl := List.mem_singleton.mp hk
    rw [notePod, MemoryBackend.get_put _ (by decide) (by decide), if_neg (by decide)]
    exact get_appendPod_of_ne (by decide) (by decide)
  · rw [notePod, MemoryBackend.get_put _ (by decide) (by decide), if_neg (by decide)]
    exact get_appendPod_root

/-- A JSON patch of `/doc`. -/
def addToDoc : HttpRequest :=
  { patchDoc addA with contentType := some "application/json-patch+json" }

theorem admitPatch_addToDoc :
    admitPatch jsonServices notePod addToDoc = .ok (.jsonPatch, addA) :=
  admitPatch_of_permitted jsonServices (by rfl) permitted_notePod (by rfl) rfl

theorem not_readable_note : ¬ Readable jsonServices (utf8 "hello") .jsonPatch := by
  rintro ⟨v, hv⟩
  have herror : jsonServices.jsonFromSlice (utf8 "hello") = .error "expected value" := by
    decide +kernel
  rw [herror] at hv
  cases hv

theorem applyJsonPatch_addA {v : Json} {ops : Json}
    (hops : jsonServices.jsonFromStr addA = .ok ops)
    (hv : applyJsonPatch (.object []) ops = .ok v) : v = .object [("a", .bool true)] := by
  have hread : jsonServices.jsonFromStr addA =
      .ok (.array [.object [("op", .string "add"), ("path", .string "/a"),
        ("value", .bool true)]]) := by
    decide +kernel
  rw [hread] at hops
  cases hops
  have happly : applyJsonPatch (.object []) (.array [.object [("op", .string "add"),
      ("path", .string "/a"), ("value", .bool true)]]) = .ok (.object [("a", .bool true)]) := by
    decide +kernel
  rw [happly] at hv
  cases hv
  rfl

theorem readsBack_addToDoc : ReadsBack jsonServices notePod addToDoc (utf8 "hello") := by
  intro patch ops v hpassed hops hv
  rw [admitPatch_addToDoc] at hpassed
  cases hpassed
  rw [currentJson_of_not_readable not_readable_note] at hv
  rw [applyJsonPatch_addA hops hv]
  decide +kernel

end Server

end SolidPod
