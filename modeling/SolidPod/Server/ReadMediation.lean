import SolidPod.Server.Steps

/-!
# What a request that reads may depend on

No handler that reads asks for the effective ACL. The answer of a `GET` or `HEAD`
is independent of what the agent may not read exactly when the request is not
answered from a stored body, or the agent may read that body.
-/

namespace SolidPod

namespace Server

open Foundation Str Wac Ldp

/-! ## The content type and the walk -/

/-- A visit uses the content type only to decide whether to try Turtle. -/
theorem visitAcl_congr_contentType {fatal : PodError → Option PodError} {r : AclReader}
    {body : Bytes} {metadata metadata' : ResourceMeta}
    (h : triesTurtle body metadata'.contentType = triesTurtle body metadata.contentType) :
    visitAcl fatal r (.ok (body, metadata')) = visitAcl fatal r (.ok (body, metadata)) := by
  rw [visitAcl, visitAcl]
  simp only [h]

/-- Another content type, which is visible ASCII and leads the walk the same
way. -/
theorem exists_contentType (body : Bytes) (contentType shown : Str) :
    ∃ contentType', (∀ c ∈ contentType', 0x20 ≤ c.toNat ∧ c.toNat < 0x7F) ∧
      contentType' ≠ shown ∧ triesTurtle body contentType' = triesTurtle body contentType := by
  have hturtle : looksTurtle "text/turtle" = true := by decide
  have hturtle' : looksTurtle "application/turtle" = true := by decide
  have hplain : looksTurtle "text/plain" = false := by decide
  have hplain' : looksTurtle "text/html" = false := by decide
  cases hlooks : looksTurtle contentType with
  | true =>
      by_cases hshown : shown = "text/turtle"
      · refine ⟨"application/turtle", by decide, ?_, ?_⟩
        · rw [hshown]
          decide
        · rw [triesTurtle, triesTurtle, hlooks, hturtle']
      · exact ⟨"text/turtle", by decide, Ne.symm hshown,
          by rw [triesTurtle, triesTurtle, hlooks, hturtle]⟩
  | false =>
      by_cases hshown : shown = "text/plain"
      · refine ⟨"text/html", by decide, ?_, ?_⟩
        · rw [hshown]
          decide
        · rw [triesTurtle, triesTurtle, hlooks, hplain']
      · exact ⟨"text/plain", by decide, Ne.symm hshown,
          by rw [triesTurtle, triesTurtle, hlooks, hplain]⟩

section Reads

variable {σ : Type*} [Storage σ] (sv : Services)

/-- Two states that differ at most in the contents of resources that the agent
may not read. -/
structure ReadEquiv (agent : Option Str) (s s' : σ) : Prop where
  acl : ∀ q, IsCanonical q → effectiveAcl sv s' q = effectiveAcl sv s q
  get : ∀ q, IsAbsolute q → Storage.get s' q = Storage.get s q ∨
    (¬ Permitted sv s q .read agent ∧ Stored s q ∧ Stored s' q)
  list : ∀ q, (Storage.list s' q : Except PodError (List Str)) = Storage.list s q

/-- A request whose answer is made of the body stored at its path. Containers
are rendered from the names of their children, and the well-known documents are
built in. -/
def ServesStored (req : HttpRequest) : Prop :=
  isContainer req.path = false ∧ (req.method = .get → sv.wellKnown req.path = none)

/-- The answer depends on nothing that the agent may not read, and it is no body
that the agent may not read. -/
structure Mediated (s : σ) (req : HttpRequest) : Prop where
  same : ∀ s', ReadEquiv sv (agentUri req.pubkey) s s' → (serve sv s' req).1 = (serve sv s req).1
  closed : ServesStored sv req → req.method = .get → ∀ body metadata,
    Storage.get s req.path = .ok (body, metadata) →
      ¬ Permitted sv s req.path .read (agentUri req.pubkey) →
        ¬ ((serve sv s req).1.status = 200 ∧ (serve sv s req).1.body = body)

variable {sv}

theorem head?_headers_resourceResponse (path wacAllow : Str) (body : Bytes)
    (metadata : ResourceMeta) :
    (resourceResponse sv path wacAllow body metadata).headers.head? =
      some (("content-type" : Str), shownContentType sv metadata) := by
  have hset : ∀ (name value : Str) (rsp : HttpResponse) (h : Str × Str),
      rsp.headers.head? = some h → (setHeader sv name value rsp).headers.head? = some h := by
    intro name value rsp h hrsp
    rw [setHeader]
    split
    · rw [List.head?_append, hrsp, Option.some_or]
    · exact hrsp
  exact hset _ _ _ _ (hset _ _ _ _ (hset _ _ _ _ rfl))

/-- The answer to a request that is served from the stored body. -/
theorem headers_serve_of_servesStored {s : σ} {req : HttpRequest}
    (hmethod : req.method = .get ∨ req.method = .head) (hserves : ServesStored sv req)
    {body : Bytes} {metadata : ResourceMeta}
    (hstored : Storage.get s req.path = .ok (body, metadata)) :
    (serve sv s req).1.headers.head? =
      some (("content-type" : Str), shownContentType sv metadata) := by
  have hget : handleGet sv s req = resourceResponse sv req.path
      (wacAllowHeader sv.feature none (agentUri req.pubkey) req.path) body metadata := by
    rw [handleGet, hserves.1, hstored]
    rfl
  rcases hmethod with hmethod | hmethod
  · rw [serve, hmethod]
    simp only [hserves.2 hmethod, hget]
    exact head?_headers_resourceResponse _ _ _ _
  · rw [serve, hmethod]
    simp only [hget]
    exact head?_headers_resourceResponse _ _ _ _

/-- The answer depends on the listing and on what is stored at the path. -/
theorem serve_fst_congr {s s' : σ} {req : HttpRequest}
    (hmethod : req.method = .get ∨ req.method = .head)
    (hget : isContainer req.path = false → (req.method = .get → sv.wellKnown req.path = none) →
      Storage.get s' req.path = Storage.get s req.path)
    (hlist : (Storage.list s' req.path : Except PodError (List Str)) = Storage.list s req.path) :
    (serve sv s' req).1 = (serve sv s req).1 := by
  have hhandle : (req.method = .get → sv.wellKnown req.path = none) →
      handleGet sv s' req = handleGet sv s req := by
    intro hknown
    rw [handleGet, handleGet]
    cases hcontainer : isContainer req.path with
    | true =>
        rw [hlist]
        rfl
    | false =>
        rw [hget hcontainer hknown]
        rfl
  rcases hmethod with hmethod | hmethod
  · rw [serve, serve, hmethod]
    cases hknown : sv.wellKnown req.path with
    | some rsp => rfl
    | none => exact hhandle fun _ => hknown
  · have hhead : req.method ≠ .get := by
      rw [hmethod]
      intro h
      cases h
    rw [serve, serve, hmethod]
    simp only [hhandle fun h => absurd h hhead]

variable [LawfulStorage σ]

/-- A resource that is stored again with a content type that leads the walk the
same way. -/
theorem readEquiv_put {s : σ} {path contentType : Str} {agent : Option Str} {body : Bytes}
    {metadata m : ResourceMeta} (hpath : IsAbsolute path)
    (hdenied : ¬ Permitted sv s path .read agent)
    (hstored : Storage.get s path = .ok (body, metadata))
    (hput : (Storage.put s path body contentType).1 = .ok m)
    (htype : triesTurtle body contentType = triesTurtle body metadata.contentType) :
    ReadEquiv sv agent s (Storage.put s path body contentType).2 := by
  have hself : Storage.get (Storage.put s path body contentType).2 path = .ok (body, m) ∧
      m.contentType = contentType :=
    LawfulStorage.get_put_self (s := s) hpath (by rw [← hput])
  have hget : ∀ q, IsAbsolute q → q ≠ path →
      Storage.get (Storage.put s path body contentType).2 q = Storage.get s q := by
    intro q hq hne
    exact LawfulStorage.get_put_ne body contentType hpath hq hne.symm
  constructor
  · intro q hq
    have hvisit : ∀ key ∈ aclKeys q,
        visitAcl jsonldFatalDyn sv.reader
          (Storage.get (Storage.put s path body contentType).2 key) =
        visitAcl jsonldFatalDyn sv.reader (Storage.get s key) := by
      intro key hkey
      by_cases hne : key = path
      · rw [hne, hself.1, hstored]
        refine visitAcl_congr_contentType ?_
        rw [hself.2, htype]
      · rw [hget key (isAbsolute_of_mem_aclKeys hq hkey) hne]
    rw [effectiveAcl, effectiveAcl, findEffectiveAclDyn, findEffectiveAclDyn, walkAcl, walkAcl,
      findSome?_eq_of_consulted fun key hkey =>
        hvisit key (mem_aclKeys_of_mem_consultedKeys sv hkey)]
  · intro q hq
    by_cases hne : q = path
    · subst hne
      exact Or.inr ⟨hdenied, ⟨_, hstored⟩, ⟨_, hself.1⟩⟩
    · exact Or.inl (hget q hq hne)
  · intro q
    exact LawfulStorage.list_put body contentType q hpath ⟨_, hstored⟩

/-- A `GET` or `HEAD` is mediated exactly when it is not served from a stored
body, nothing is stored at its path, or the agent may read what is. -/
theorem mediated_iff
    (hheader : ∀ v, (∀ c ∈ v, 0x20 ≤ c.toNat ∧ c.toNat < 0x7F) → sv.headerValue v = true)
    {s : σ} {req : HttpRequest} (hmethod : req.method = .get ∨ req.method = .head)
    (hput : ∀ body contentType, ∃ m, (Storage.put s req.path body contentType).1 = .ok m) :
    Mediated sv s req ↔ ¬ ServesStored sv req ∨ ¬ Stored s req.path ∨
      Permitted sv s req.path .read (agentUri req.pubkey) := by
  constructor
  · intro hmediated
    by_contra hcond
    simp only [not_or, not_not] at hcond
    obtain ⟨hserves, ⟨⟨body, metadata⟩, hstored⟩, hdenied⟩ := hcond
    obtain ⟨contentType, hvisible, hne, htype⟩ :=
      exists_contentType body metadata.contentType (shownContentType sv metadata)
    obtain ⟨m, hm⟩ := hput body contentType
    have hequiv := readEquiv_put req.canonical.absolute hdenied hstored hm htype
    have hself : Storage.get (Storage.put s req.path body contentType).2 req.path =
        .ok (body, m) ∧ m.contentType = contentType :=
      LawfulStorage.get_put_self (s := s) req.canonical.absolute (by rw [← hm])
    have hhead := congrArg (fun rsp => rsp.headers.head?) (hmediated.same _ hequiv)
    simp only [headers_serve_of_servesStored hmethod hserves hself.1,
      headers_serve_of_servesStored hmethod hserves hstored] at hhead
    have hshown : shownContentType sv m = contentType := by
      rw [shownContentType, hself.2, hheader contentType hvisible, if_pos rfl]
    rw [hshown] at hhead
    exact hne (Prod.mk.inj (Option.some.inj hhead)).2
  · intro hcond
    constructor
    · intro s' hequiv
      refine serve_fst_congr hmethod ?_ (hequiv.list req.path)
      intro hcontainer hknown
      rcases hequiv.get req.path req.canonical.absolute with hget | ⟨hdenied, hstored, -⟩
      · exact hget
      · rcases hcond with h | h | h
        · exact absurd ⟨hcontainer, hknown⟩ h
        · exact absurd hstored h
        · exact absurd h hdenied
    · intro hserves _ body metadata hstored hdenied
      rcases hcond with h | h | h
      · exact absurd hserves h
      · exact absurd ⟨_, hstored⟩ h
      · exact absurd h hdenied

end Reads

/-! ## One document that everyone may read, and one that nobody may -/

/-- A request without credentials. -/
def getDoc : HttpRequest where
  method := .get
  path := "/doc"
  canonical := isCanonical_doc
  pubkey := none
  slug := none
  contentType := none
  body := []
  uuid := []

def readAclText : Str :=
  "<#p> a acl:Authorization; acl:agentClass foaf:Agent; acl:default </>; acl:mode acl:Read ."

def readAcl : AclDocument :=
  ⟨some [{ AclAuthorization.empty with
    agentClass := some (.single ⟨"http://xmlns.com/foaf/0.1/Agent"⟩)
    default := some (.single ⟨"/"⟩)
    mode := some (.single ⟨"http://www.w3.org/ns/auth/acl#Read"⟩) }]⟩

def readPod : Pod :=
  ((MemoryBackend.empty.put "/.acl" (utf8 readAclText) "text/turtle").2.put "/doc"
    (utf8 (toNtriples docGraph)) "text/turtle").2

theorem effectiveAcl_readPod_doc :
    effectiveAcl turtleServices readPod "/doc" = .ok (some readAcl) := by
  have hroot : readPod.get "/.acl" = .ok (utf8 readAclText, turtleMeta readAclText) := by
    rw [readPod, MemoryBackend.get_put _ (by decide) (by decide), if_neg (by decide),
      MemoryBackend.get_put _ (by decide) (by decide), if_pos rfl, turtleMeta]
  have hnearer : readPod.get "/doc.acl" = .error (.notFound "/doc.acl") := by
    rw [readPod, MemoryBackend.get_put _ (by decide) (by decide), if_neg (by decide),
      MemoryBackend.get_put _ (by decide) (by decide), if_neg (by decide),
      MemoryBackend.get_empty (by decide)]
  have hvisit : visitAcl jsonldFatalDyn noJsonReader
      (.ok (utf8 readAclText, turtleMeta readAclText)) = some (.ok readAcl) := by
    have htext : readAclText = _ := String.toList_ofList
    rw [htext]
    exact visitAcl_of_turtle (fun _ => rfl) (by decide +kernel) (by decide +kernel) rfl
      (by decide +kernel) (by decide +kernel)
  exact effectiveAcl_of_rootAcl ["/doc.acl"] (by decide +kernel) (by simpa using hnearer)
    hroot hvisit

theorem mediated_readPod : Mediated turtleServices readPod getDoc := by
  refine (mediated_iff ?_ (Or.inl rfl) ?_).mpr (Or.inr (Or.inr ⟨readAcl, effectiveAcl_readPod_doc,
    by decide⟩))
  · intro v hv
    simpa [turtleServices, List.all_eq_true] using hv
  · intro body contentType
    exact ⟨_, MemoryBackend.put_fst _ _ _ _⟩

/-- A request without credentials gets a body that only an append is granted
on. -/
theorem not_mediated_docPod : ¬ Mediated turtleServices docPod getDoc := by
  intro h
  have hdenied : ¬ Permitted turtleServices docPod "/doc" .read none := by
    rintro ⟨acl, hacl, hgranted⟩
    rw [effectiveAcl_docPod_doc] at hacl
    cases hacl
    exact absurd hgranted (by decide)
  refine h.closed ⟨by decide, fun _ => rfl⟩ rfl _ _ get_docPod_doc hdenied ?_
  have hget : (serve turtleServices docPod getDoc).1 = resourceResponse turtleServices "/doc"
      (wacAllowHeader turtleServices.feature none none "/doc") (utf8 (toNtriples docGraph))
      (turtleMeta (toNtriples docGraph)) := by
    change handleGet turtleServices docPod getDoc = _
    have hstored : Storage.get docPod getDoc.path = _ := get_docPod_doc
    rw [handleGet, hstored]
    rfl
  have hset : ∀ (name value : Str) (rsp : HttpResponse),
      (setHeader turtleServices name value rsp).status = rsp.status ∧
        (setHeader turtleServices name value rsp).body = rsp.body := by
    intro name value rsp
    rw [setHeader]
    split
    · exact ⟨rfl, rfl⟩
    · exact ⟨rfl, rfl⟩
  rw [hget, resourceResponse, setLinkHeaders, setWacAllow, setEtag]
  constructor
  · rw [(hset _ _ _).1, (hset _ _ _).1, (hset _ _ _).1]
  · rw [(hset _ _ _).2, (hset _ _ _).2, (hset _ _ _).2]

end Server

end SolidPod
