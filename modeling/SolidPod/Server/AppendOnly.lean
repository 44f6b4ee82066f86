import SolidPod.Server.GraphPatch

/-!
# What an agent may do that may append and not write

`PUT` and `DELETE` ask for the write mode, so they leave alone what such an agent
may only append to. `POST` and `PATCH` ask for the append mode, and both replace
what is stored: `POST` where the slug names an existing child, `PATCH` because
its patch is applied to a new document. Nothing is lost in a run in which no slug
does so and every patch brings along what is stored.
-/

namespace SolidPod

namespace Server

open Foundation Str Wac Ldp

/-- The container of a resource: its path without the last segment. -/
def containerOf (path : Str) : Str := (beforeLast '/' (trimEndMatches '/' path)).getD [] ++ ['/']

/-- What is stored stays: the same bytes, or a graph with all the triples. -/
def Kept (before after : Except PodError (Bytes × ResourceMeta)) : Prop :=
  ∀ body metadata, before = .ok (body, metadata) → ∃ body' metadata',
    after = .ok (body', metadata') ∧
      (body' = body ∨ ∃ g g', ParsesTo body g ∧ ParsesTo body' g' ∧ ∀ t ∈ g, t ∈ g')

theorem ParsesTo.unique {body : Bytes} {g g' : Graph} (h : ParsesTo body g)
    (h' : ParsesTo body g') : g = g' := by
  rw [ParsesTo] at h h'
  exact Except.ok.inj (Option.some.inj (h.symm.trans h'))

theorem Kept.refl (found : Except PodError (Bytes × ResourceMeta)) : Kept found found := by
  intro body metadata h
  exact ⟨body, metadata, h, Or.inl rfl⟩

theorem Kept.trans {found₁ found₂ found₃ : Except PodError (Bytes × ResourceMeta)}
    (h₁ : Kept found₁ found₂) (h₂ : Kept found₂ found₃) : Kept found₁ found₃ := by
  intro body₁ metadata₁ hfound
  obtain ⟨body₂, metadata₂, hfound₂, hkept₁⟩ := h₁ body₁ metadata₁ hfound
  obtain ⟨body₃, metadata₃, hfound₃, hkept₂⟩ := h₂ body₂ metadata₂ hfound₂
  refine ⟨body₃, metadata₃, hfound₃, ?_⟩
  rcases hkept₁ with rfl | ⟨g₁, g₂, hg₁, hg₂, hsub₁⟩
  · exact hkept₂
  · rcases hkept₂ with rfl | ⟨g₂', g₃, hg₂', hg₃, hsub₂⟩
    · exact Or.inr ⟨g₁, g₂, hg₁, hg₂, hsub₁⟩
    · obtain rfl := hg₂.unique hg₂'
      exact Or.inr ⟨g₁, g₃, hg₁, hg₃, fun t ht => hsub₂ t (hsub₁ t ht)⟩

section Runs

variable {σ : Type*} [Storage σ] (sv : Services)

/-- The agent may append to a resource and to its container, and write
neither. -/
structure AppendOnly (path : Str) (agent : Option Str) (s : σ) : Prop where
  append : Permitted sv s path .append agent
  appendContainer : Permitted sv s (containerOf path) .append agent
  notWrite : ¬ Permitted sv s path .write agent
  notWriteContainer : ¬ Permitted sv s (containerOf path) .write agent

/-- A patch that brings along all that is stored: an RDF patch that asks for no
triple inserts every stored triple, in a form that is read back, and a JSON patch
gives the stored bytes. -/
def PatchBringsAlong (dialect : PatchDialect) (patch : Str) (current : Bytes) : Prop :=
  (∀ rdf : RdfDialect, dialect = rdf.toDialect →
    ∀ p, readPatch sv.updateParser rdf patch = .ok p → p.condition = ∅ →
      (∀ t ∈ Edit.added p.edits, t.Storable) ∧
        ∃ g, ParsesTo current g ∧ ∀ t ∈ g, t ∈ Edit.added p.edits) ∧
  (dialect = .jsonPatch →
    ∀ ops json, sv.jsonFromStr patch = .ok ops →
      applyJsonPatch (currentJson sv current) ops = .ok json →
        sv.jsonToVec json = current)

/-- A request of the agent that spares what is stored: no slug names the
resource, and a patch of it brings along what is stored. -/
structure SparesStored (path : Str) (current : Bytes) (s : σ) (req : HttpRequest) : Prop where
  post : req.method = .post → isPostRoute req.path = true →
    Permitted sv s req.path .append (agentUri req.pubkey) →
      resolveSlug sv.printable req.uuid req.path req.slug ≠ .ok path
  patch : req.method = .patch → req.path = path → ∀ dialect patch,
    admitPatch sv s req = .ok (dialect, patch) → PatchBringsAlong sv dialect patch current

/-- The requests of the agent spare what is stored at the path, where it may only
append. -/
def SparesWhereAppendOnly (path : Str) (agent : Option Str) (s : σ) (req : HttpRequest) : Prop :=
  agentUri req.pubkey = agent → AppendOnly sv path agent s → ∀ current metadata,
    Storage.get s path = .ok (current, metadata) → SparesStored sv path current s req

/-- The requests of the agent keep what is stored at the path, where it may only
append. -/
def KeepsWhereAppendOnly (path : Str) (agent : Option Str) (s : σ) (req : HttpRequest) : Prop :=
  agentUri req.pubkey = agent → AppendOnly sv path agent s →
    Kept (Storage.get s path) (Storage.get (serve sv s req).2 path)

variable {sv}

/-- A patch of the empty graph goes through only if it asks for no triple. -/
theorem condition_eq_empty_of_applyRdfPatch {dialect : RdfDialect} {patch : Str}
    {outcome : PatchOutcome} {p : GraphPatch}
    (h : applyRdfPatch sv.printable sv.updateParser dialect ∅ patch = .ok outcome)
    (hread : readPatch sv.updateParser dialect patch = .ok p) : p.condition = ∅ := by
  have hspec := applyRdfPatch_spec sv.printable sv.updateParser dialect ∅ patch
  rw [h, hread] at hspec
  simp only [bind, Except.bind, checkWhere_empty] at hspec
  cases hitems : p.condition.items with
  | nil =>
      ext t
      rw [SortedSet.mem_def, hitems]
      simp
  | cons t ts =>
      rw [hitems] at hspec
      cases hspec

/-- What a patch that brings along what is stored leaves. -/
theorem kept_of_patchExisting (hparse : Grammatical sv.updateParser) {dialect : PatchDialect}
    {patch : Str} {current body : Bytes} {metadata : ResourceMeta} {contentType : Str}
    {status : Nat} (hbrings : PatchBringsAlong sv dialect patch current)
    (hplan : patchExisting sv dialect patch current metadata = .store body contentType status) :
    body = current ∨
      ∃ g g', ParsesTo current g ∧ ParsesTo body g' ∧ ∀ t ∈ g, t ∈ g' := by
  have hrdf : ∀ rdf : RdfDialect, dialect = rdf.toDialect →
      ∃ g g', ParsesTo current g ∧ ParsesTo body g' ∧ ∀ t ∈ g, t ∈ g' := by
    rintro rdf rfl
    rw [patchExisting_toDialect] at hplan
    cases happly : applyRdfPatch sv.printable sv.updateParser rdf ∅ patch with
    | error e =>
        rw [happly] at hplan
        cases hplan
    | ok outcome =>
        rw [happly] at hplan
        cases hplan
        obtain ⟨p, hread, hgraph⟩ := readPatch_of_applyRdfPatch happly
        obtain ⟨hstorable, g, hcurrent, hadded⟩ :=
          hbrings.1 rdf rfl p hread (condition_eq_empty_of_applyRdfPatch happly hread)
        have hreadBack := (parseNtriples_apply_empty_iff (g := g)
          (wellFormed_of_readPatch hparse hread)).mpr ⟨fun t ht => Or.inr (hadded t ht), hstorable⟩
        refine ⟨g, Edit.apply p.edits g, hcurrent, ?_, ?_⟩
        · rw [hgraph]
          exact parsesTo_utf8_iff.mpr hreadBack
        · intro t ht
          exact Edit.mem_apply.mpr (Or.inl (hadded t ht))
  cases dialect with
  | n3 => exact Or.inr (hrdf .n3 rfl)
  | sparqlUpdate => exact Or.inr (hrdf .sparqlUpdate rfl)
  | jsonPatch =>
      rw [patchExisting] at hplan
      cases hops : sv.jsonFromStr patch with
      | error e =>
          rw [hops] at hplan
          cases hplan
      | ok ops =>
          rw [hops] at hplan
          simp only [] at hplan
          cases happly : applyJsonPatch (currentJson sv current) ops with
          | error e =>
              rw [happly] at hplan
              cases hplan
          | ok json =>
              rw [happly] at hplan
              cases hplan
              exact Or.inl (hbrings.2 rfl ops json hops happly)

variable [LawfulStorage σ]

/-- What is read after a `put`: the new body, or what was there if the backend
refused it. -/
theorem get_run_put (s : σ) {path : Str} (hpath : IsAbsolute path) (body : Bytes)
    (contentType : Str) :
    Storage.get ((Write.put path body contentType).run s) path = Storage.get s path ∨
      ∃ m, Storage.get ((Write.put path body contentType).run s) path = .ok (body, m) := by
  rw [Write.run]
  cases hput : Storage.put s path body contentType with
  | mk answer s' =>
      cases answer with
      | error e => exact Or.inl (LawfulStorage.get_put_error hput path)
      | ok m => exact Or.inr ⟨m, (LawfulStorage.get_put_self hpath hput).1⟩

/-- One request of an agent that may only append: a write at the path is a `POST`
or a `PATCH`, because the agent may not write there. -/
theorem keeps_of_spares (hparse : Grammatical sv.updateParser) {path : Str} {agent : Option Str}
    (hpath : IsCanonical path) (s : σ) (req : HttpRequest)
    (h : SparesWhereAppendOnly sv path agent s req) : KeepsWhereAppendOnly sv path agent s req := by
  intro hagent hac current metadata hcurrent
  have hspares := h hagent hac current metadata hcurrent
  by_cases hne : ∀ w, Writes sv s req w → w.target ≠ path
  · rw [get_serve_of_forall_ne sv hpath.absolute hne]
    exact Kept.refl _ current metadata hcurrent
  · simp only [ne_eq, not_forall, not_not] at hne
    obtain ⟨w, hw, htarget⟩ := hne
    rw [serve_snd_of_writes sv hw]
    cases hw with
    | put hmethod hcontainer hpermitted =>
        have hreq : req.path = path := htarget
        rw [hreq, hagent] at hpermitted
        exact absurd hpermitted hac.notWrite
    | @post target hmethod hroute hpermitted hslug =>
        have hreq : target = path := htarget
        rw [hreq] at hslug
        exact absurd hslug (hspares.post hmethod hroute hpermitted)
    | @patch dialect patch body contentType status hmethod hpermitted hpasses hplan =>
        have hreq : req.path = path := htarget
        rw [hreq]
        rcases get_run_put s hpath.absolute body contentType with hget | ⟨m, hget⟩
        · rw [hget]
          exact ⟨current, metadata, hcurrent, Or.inl rfl⟩
        · rw [hreq, hcurrent] at hplan
          exact ⟨body, m, hget, kept_of_patchExisting hparse
            (hspares.patch hmethod hreq dialect patch hpasses) hplan⟩
    | delete hmethod hpermitted =>
        have hreq : req.path = path := htarget
        rw [hreq, hagent] at hpermitted
        exact absurd hpermitted hac.notWrite

omit [LawfulStorage σ] in
/-- A run whose requests keep what is stored in each step keeps it to its end. -/
theorem kept_of_alongRun {path : Str} {s : σ} {reqs : List HttpRequest}
    (h : AlongRun sv (fun s req =>
      Kept (Storage.get s path) (Storage.get (serve sv s req).2 path)) s reqs) :
    Kept (Storage.get s path) (Storage.get (runRequests sv s reqs) path) := by
  induction reqs generalizing s with
  | nil => exact Kept.refl _
  | cons req reqs ih =>
      rw [runRequests_cons]
      exact h.1.trans (ih h.2)

end Runs

/-! ## Two patches of an agent that may only append -/

theorem appendOnly_docPod : AppendOnly turtleServices "/doc" (some "did:nostr:mallory") docPod := by
  have hroot : effectiveAcl turtleServices docPod "/" = .ok (some appendAcl) :=
    effectiveAcl_docPod [] (by decide +kernel) (by simp)
  have hcontainer : containerOf "/doc" = "/" := by decide +kernel
  constructor
  · exact permitted_patchDoc
  · rw [hcontainer]
    exact ⟨appendAcl, hroot, by decide +kernel⟩
  · rintro ⟨acl, hacl, hgranted⟩
    rw [effectiveAcl_docPod_doc] at hacl
    cases hacl
    exact absurd hgranted (by decide +kernel)
  · rw [hcontainer]
    rintro ⟨acl, hacl, hgranted⟩
    rw [hroot] at hacl
    cases hacl
    exact absurd hgranted (by decide +kernel)

/-- What is stored at `/doc` after a patch of it that asks for no triple. -/
theorem get_serve_patchDoc {patch : Str} {es : List (Edit Triple)}
    (hread : readPatch turtleServices.updateParser .n3 patch = .ok ⟨∅, es⟩) :
    ∃ m, Storage.get (serve turtleServices docPod (patchDoc patch)).2 "/doc" =
      .ok (utf8 (toNtriples (Edit.apply es ∅)), m) := by
  have hpasses : admitPatch turtleServices docPod (patchDoc patch) =
      .ok (RdfDialect.n3.toDialect, patch) := admitPatch_patchDoc patch
  have hpatch := handlePatch_toDialect hpasses get_docPod_doc hread
  have hserve : (serve turtleServices docPod (patchDoc patch)).2 =
      (runPlan docPod "/doc" (storeGraph (Edit.apply es ∅) 204)).2 := congrArg Prod.snd hpatch
  rw [hserve]
  exact ⟨_, (runPlan_storeGraph (by decide) 204 (MemoryBackend.put_fst _ _ _ _)).2⟩

def insertAB : Str := "insert \x7b <a> <p> <x> .\n<b> <p> <y> . \x7d"

end Server

end SolidPod
