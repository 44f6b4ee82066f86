import SolidPod.Storage.Memory
import SolidPod.Wac.Resolver

/-!
# Which ACL document governs

A key of the walk is decisive when the document stored there can be read as
JSON-LD or, where that is tried, as Turtle, or when it exceeds the bounds of the
reader. The library's resolver answers with the first decisive key. The server's
copy does not stop at a document over the byte limit, so the two agree as long
as none is met before a decisive key.
-/

namespace SolidPod

namespace Wac

open Foundation Str

/-- What a storage answers for each key. -/
abbrev Lookup := Str → Except PodError (Bytes × ResourceMeta)

variable (r : AclReader) (get : Lookup)

/-- The body is longer than the byte limit. -/
def Oversized (body : Bytes) : Prop := r.maxBytes < body.length

/-- The body is refused before it is parsed: by its length, or by the depth of
its JSON. -/
def ExceedsBounds (body : Bytes) : Prop :=
  Oversized r body ∨ ∃ e, checkJsonDepth body r.maxDepth = .error e

/-- A stored body is read as a document: as JSON-LD, or as Turtle where that is
tried. -/
def Reads (body : Bytes) (contentType : Str) (doc : AclDocument) : Prop :=
  r.fromSlice body = .ok doc ∨
    ((∃ e, r.fromSlice body = .error e) ∧ triesTurtle body contentType = true ∧
      parseTurtleAcl r (bodyText body) = .ok doc)

/-- The document at a key decides the walk. -/
def Decisive (key : Str) : Prop :=
  ∃ body metadata, get key = .ok (body, metadata) ∧
    (ExceedsBounds r body ∨ ∃ doc, Reads r body metadata.contentType doc)

/-- `key` is the first decisive key of the walk. -/
def Governs (path key : Str) : Prop :=
  ∃ nearer further, aclKeys path = nearer ++ key :: further ∧ Decisive r get key ∧
    ∀ k ∈ nearer, ¬ Decisive r get k

/-! ## One key -/

variable {r}

theorem parseJsonldAcl_of_oversized {body : Bytes} (h : Oversized r body) :
    parseJsonldAcl r body =
      .error (.payloadTooLarge ("ACL body exceeds " ++ decimal r.maxBytes ++ " bytes")) := by
  have hlen : body.length > r.maxBytes := h
  rw [parseJsonldAcl, parseJsonldAclWithLimits, if_pos hlen]

theorem checkJsonDepthFrom_error {max depth : Nat} {inStr esc : Bool} {body : Bytes}
    {e : PodError} (h : checkJsonDepthFrom max depth inStr esc body = .error e) :
    ∃ msg, e = .badRequest msg := by
  induction body generalizing depth inStr esc with
  | nil => cases inStr <;> cases h
  | cons b bs ih =>
      cases inStr with
      | true =>
          rw [checkJsonDepthFrom] at h
          split_ifs at h <;> exact ih h
      | false =>
          rw [checkJsonDepthFrom] at h
          split_ifs at h
          · exact ih h
          · exact ⟨_, (Except.error.inj h).symm⟩
          · exact ih h
          · exact ih h
          · exact ih h

theorem parseJsonldAcl_of_not_oversized {body : Bytes} (h : ¬ Oversized r body) :
    parseJsonldAcl r body =
      match checkJsonDepth body r.maxDepth with
      | .error e => .error e
      | .ok () =>
        match r.fromSlice body with
        | .ok doc => .ok doc
        | .error e => .error (.aclParse ("JSON-LD ACL parse: " ++ e)) := by
  have hlen : ¬ body.length > r.maxBytes := h
  exact if_neg hlen

/-- A body over the byte limit ends the library's walk and not the server's. -/
theorem visitAcl_of_oversized {body : Bytes} {metadata : ResourceMeta} (h : Oversized r body) :
    visitAcl jsonldFatal r (.ok (body, metadata)) = some (.error (.payloadTooLarge
        ("ACL body exceeds " ++ decimal r.maxBytes ++ " bytes"))) ∧
      ∀ e, visitAcl jsonldFatalDyn r (.ok (body, metadata)) ≠ some (.error e) := by
  constructor
  · rw [visitAcl, parseJsonldAcl_of_oversized h]
    rfl
  · intro e
    rw [visitAcl, parseJsonldAcl_of_oversized h]
    simp only [jsonldFatalDyn]
    split
    · split <;> simp
    · simp

/-- Below the byte limit both resolvers visit a key in the same way. -/
theorem visitAcl_of_not_oversized {body : Bytes} (metadata : ResourceMeta)
    (h : ¬ Oversized r body) (fatal : PodError → Option PodError)
    (hdepth : ∀ msg, fatal (.badRequest msg) = some (.badRequest "ACL document exceeds bounds"))
    (hparse : ∀ msg, fatal (.aclParse msg) = none) :
    visitAcl fatal r (.ok (body, metadata)) =
      match checkJsonDepth body r.maxDepth with
      | .error _ => some (.error (.badRequest "ACL document exceeds bounds"))
      | .ok () =>
        match r.fromSlice body with
        | .ok doc => some (.ok doc)
        | .error _ =>
          if triesTurtle body metadata.contentType then
            match parseTurtleAcl r (bodyText body) with
            | .ok doc => some (.ok doc)
            | .error _ => none
          else none := by
  rw [visitAcl, parseJsonldAcl_of_not_oversized h]
  cases hcheck : checkJsonDepth body r.maxDepth with
  | error e =>
      obtain ⟨msg, rfl⟩ := checkJsonDepthFrom_error hcheck
      simp only [hdepth]
  | ok u =>
      cases r.fromSlice body with
      | error e =>
          have hnone := hparse ("JSON-LD ACL parse: ".toList ++ e)
          dsimp only
          cases hfatal : fatal (.aclParse ("JSON-LD ACL parse: ".toList ++ e)) with
          | none => rfl
          | some fatalError =>
              rw [hfatal] at hnone
              cases hnone
      | ok doc => rfl

theorem visitAcl_dyn_of_not_oversized {body : Bytes} {metadata : ResourceMeta}
    (h : ¬ Oversized r body) : visitAcl jsonldFatalDyn r (.ok (body, metadata)) =
      visitAcl jsonldFatal r (.ok (body, metadata)) := by
  rw [visitAcl_of_not_oversized _ h jsonldFatalDyn (fun _ => rfl) (fun _ => rfl),
    visitAcl_of_not_oversized _ h jsonldFatal (fun _ => rfl) (fun _ => rfl)]

theorem bodyText_utf8 (text : Str) : bodyText (utf8 text) = text := by
  simp [bodyText]

/-- A text that is no JSON and is read as Turtle. -/
theorem visitAcl_of_turtle {text : Str} {metadata : ResourceMeta} {doc : AclDocument} {e : Str}
    {fatal : PodError → Option PodError} (hfatal : ∀ msg, fatal (.aclParse msg) = none)
    (hsize : (utf8 text).length ≤ r.maxBytes)
    (hdepth : checkJsonDepth (utf8 text) r.maxDepth = .ok ())
    (hjson : r.fromSlice (utf8 text) = .error e) (htype : looksTurtle metadata.contentType = true)
    (hdoc : parseTurtleAcl r text = .ok doc) :
    visitAcl fatal r (.ok (utf8 text, metadata)) = some (.ok doc) := by
  have htry : triesTurtle (utf8 text) metadata.contentType = true := by
    rw [triesTurtle, htype]
    rfl
  rw [visitAcl, parseJsonldAcl_of_not_oversized (Nat.not_lt.mpr hsize), hdepth]
  simp only [hjson, hfatal, htry, if_true, bodyText_utf8, hdoc]

/-- A text that is neither read as JSON nor tried as Turtle. -/
theorem visitAcl_of_malformed {body : Bytes} {metadata : ResourceMeta} {e : Str}
    {fatal : PodError → Option PodError} (hfatal : ∀ msg, fatal (.aclParse msg) = none)
    (hsize : body.length ≤ r.maxBytes) (hdepth : checkJsonDepth body r.maxDepth = .ok ())
    (hjson : r.fromSlice body = .error e) (htry : triesTurtle body metadata.contentType = false) :
    visitAcl fatal r (.ok (body, metadata)) = none := by
  rw [visitAcl, parseJsonldAcl_of_not_oversized (Nat.not_lt.mpr hsize), hdepth]
  simp only [hjson, hfatal, htry, if_neg (Bool.false_ne_true)]

/-- What a visit of the library's walk returns, by what is stored. -/
theorem visitAcl_spec (body : Bytes) (metadata : ResourceMeta) :
    (ExceedsBounds r body ∧ ∃ e, visitAcl jsonldFatal r (.ok (body, metadata)) = some (.error e)) ∨
      (¬ ExceedsBounds r body ∧ ∃ doc, Reads r body metadata.contentType doc ∧
        visitAcl jsonldFatal r (.ok (body, metadata)) = some (.ok doc)) ∨
      (¬ ExceedsBounds r body ∧ (∀ doc, ¬ Reads r body metadata.contentType doc) ∧
        visitAcl jsonldFatal r (.ok (body, metadata)) = none) := by
  by_cases hsize : Oversized r body
  · exact Or.inl ⟨Or.inl hsize, _, (visitAcl_of_oversized hsize).1⟩
  · have hvisit := visitAcl_of_not_oversized metadata hsize jsonldFatal
      (fun _ => rfl) (fun _ => rfl)
    cases hdepth : checkJsonDepth body r.maxDepth with
    | error e =>
        rw [hdepth] at hvisit
        exact Or.inl ⟨Or.inr ⟨e, hdepth⟩, _, hvisit⟩
    | ok u =>
        have hbounds : ¬ ExceedsBounds r body := by
          rintro (h | ⟨e, he⟩)
          · exact hsize h
          · rw [hdepth] at he
            cases he
        rw [hdepth] at hvisit
        simp only [] at hvisit
        refine Or.inr ?_
        cases hjson : r.fromSlice body with
        | ok doc =>
            rw [hjson] at hvisit
            exact Or.inl ⟨hbounds, doc, Or.inl hjson, hvisit⟩
        | error e =>
            rw [hjson] at hvisit
            simp only [] at hvisit
            cases htry : triesTurtle body metadata.contentType with
            | false =>
                rw [htry, if_neg (by simp)] at hvisit
                refine Or.inr ⟨hbounds, ?_, hvisit⟩
                rintro doc (h | ⟨-, h, -⟩)
                · rw [hjson] at h
                  cases h
                · rw [htry] at h
                  cases h
            | true =>
                rw [htry, if_pos rfl] at hvisit
                cases hturtle : parseTurtleAcl r (bodyText body) with
                | ok doc =>
                    rw [hturtle] at hvisit
                    exact Or.inl ⟨hbounds, doc, Or.inr ⟨⟨e, hjson⟩, htry, hturtle⟩, hvisit⟩
                | error e' =>
                    rw [hturtle] at hvisit
                    refine Or.inr ⟨hbounds, ?_, hvisit⟩
                    rintro doc (h | ⟨-, -, h⟩)
                    · rw [hjson] at h
                      cases h
                    · rw [hturtle] at h
                      cases h

theorem Reads.unique {body : Bytes} {contentType : Str} {doc doc' : AclDocument}
    (h : Reads r body contentType doc) (h' : Reads r body contentType doc') : doc = doc' := by
  rcases h with h | ⟨⟨e, he⟩, -, h⟩ <;> rcases h' with h' | ⟨⟨e', he'⟩, -, h'⟩
  · exact Except.ok.inj (h.symm.trans h')
  · rw [h] at he'
    cases he'
  · rw [h'] at he
    cases he
  · exact Except.ok.inj (h.symm.trans h')

theorem visitAcl_of_reads {body : Bytes} {metadata : ResourceMeta} {doc : AclDocument}
    (hbounds : ¬ ExceedsBounds r body) (hreads : Reads r body metadata.contentType doc) :
    visitAcl jsonldFatal r (.ok (body, metadata)) = some (.ok doc) := by
  rcases visitAcl_spec (r := r) body metadata with ⟨hb, -⟩ | ⟨-, doc', hd, hv⟩ | ⟨-, hd, -⟩
  · exact absurd hb hbounds
  · rw [hv, hd.unique hreads]
  · exact absurd hreads (hd doc)

variable {get}

/-- A visit returns exactly at a decisive key. -/
theorem visitAcl_eq_none_iff {key : Str} :
    visitAcl jsonldFatal r (get key) = none ↔ ¬ Decisive r get key := by
  cases hget : get key with
  | error e =>
      constructor
      · rintro - ⟨body, metadata, h, -⟩
        rw [hget] at h
        cases h
      · intro _
        rfl
  | ok found =>
      obtain ⟨body, metadata⟩ := found
      have hdecisive : Decisive r get key ↔
          ExceedsBounds r body ∨ ∃ doc, Reads r body metadata.contentType doc := by
        constructor
        · rintro ⟨body', metadata', h, hd⟩
          rw [hget] at h
          cases h
          exact hd
        · intro hd
          exact ⟨body, metadata, hget, hd⟩
      rw [hdecisive]
      rcases visitAcl_spec (r := r) body metadata with ⟨hb, e, hv⟩ | ⟨hb, doc, hd, hv⟩ |
        ⟨hb, hd, hv⟩
      · simp [hv, hb]
      · rw [hv]
        simp only [reduceCtorEq, false_iff, not_not]
        exact Or.inr ⟨doc, hd⟩
      · simp [hv, hb, hd]

/-! ## The whole walk -/

/-- The library's walk returns what its visit of the governing key returns. -/
theorem findEffectiveAcl_of_governs {path key : Str} (h : Governs r get path key) :
    findEffectiveAcl r get path =
      match visitAcl jsonldFatal r (get key) with
      | none => .ok none
      | some (.ok doc) => .ok (some doc)
      | some (.error e) => .error e := by
  obtain ⟨nearer, further, hkeys, hdec, hnearer⟩ := h
  have hnone : nearer.findSome? (fun k => visitAcl jsonldFatal r (get k)) = none := by
    rw [List.findSome?_eq_none_iff]
    intro k hk
    exact visitAcl_eq_none_iff.mpr (hnearer k hk)
  rw [findEffectiveAcl, walkAcl, hkeys, List.findSome?_append, hnone, Option.none_or,
    List.findSome?_cons]
  cases hvisit : visitAcl jsonldFatal r (get key) with
  | none => exact absurd (visitAcl_eq_none_iff.mp hvisit) (not_not.mpr hdec)
  | some o => cases o <;> rfl

/-- Either a key governs, or no key of the walk is decisive. -/
theorem governs_or_forall (r : AclReader) (get : Lookup) (path : Str) :
    (∃ key, Governs r get path key) ∨ ∀ k ∈ aclKeys path, ¬ Decisive r get k := by
  cases h : (aclKeys path).findSome? fun k => visitAcl jsonldFatal r (get k) with
  | none =>
      refine Or.inr ?_
      intro k hk
      exact visitAcl_eq_none_iff.mp (List.findSome?_eq_none_iff.mp h k hk)
  | some o =>
      obtain ⟨nearer, key, further, hkeys, hvisit, hnearer⟩ := List.findSome?_eq_some_iff.mp h
      refine Or.inl ⟨key, nearer, further, hkeys, ?_, ?_⟩
      · by_contra hdec
        rw [visitAcl_eq_none_iff.mpr hdec] at hvisit
        cases hvisit
      · intro k hk
        exact visitAcl_eq_none_iff.mp (hnearer k hk)

theorem findEffectiveAcl_of_forall {path : Str}
    (h : ∀ k ∈ aclKeys path, ¬ Decisive r get k) : findEffectiveAcl r get path = .ok none := by
  have hnone : (aclKeys path).findSome? (fun k => visitAcl jsonldFatal r (get k)) = none := by
    rw [List.findSome?_eq_none_iff]
    intro k hk
    exact visitAcl_eq_none_iff.mpr (h k hk)
  rw [findEffectiveAcl, walkAcl, hnone]

/-- The first decisive key governs: a document there that can be read is the
effective one, a document there that exceeds the bounds is an error, and only a
walk without a decisive key finds none. Keys whose document is missing,
malformed or cannot be fetched are passed over. -/
theorem findEffectiveAcl_spec (r : AclReader) (get : Lookup) (path : Str) :
    (∀ key, Governs r get path key → ∀ body metadata, get key = .ok (body, metadata) →
      (ExceedsBounds r body → ∃ e, findEffectiveAcl r get path = .error e) ∧
      (¬ ExceedsBounds r body → ∃ doc, Reads r body metadata.contentType doc ∧
        findEffectiveAcl r get path = .ok (some doc))) ∧
    ((∀ k ∈ aclKeys path, ¬ Decisive r get k) → findEffectiveAcl r get path = .ok none) := by
  refine ⟨?_, findEffectiveAcl_of_forall⟩
  intro key hgov body metadata hget
  have hfind := findEffectiveAcl_of_governs hgov
  rw [hget] at hfind
  rcases visitAcl_spec (r := r) body metadata with ⟨hb, e, hv⟩ | ⟨hb, doc, hd, hv⟩ | ⟨hb, hd, hv⟩
  · rw [hv] at hfind
    exact ⟨fun _ => ⟨e, hfind⟩, fun hnb => absurd hb hnb⟩
  · rw [hv] at hfind
    exact ⟨fun hb' => absurd hb' hb, fun _ => ⟨doc, hd, hfind⟩⟩
  · obtain ⟨-, -, -, hdec, -⟩ := hgov
    rw [← hget] at hv
    exact absurd hdec (visitAcl_eq_none_iff.mp hv)

/-- The nearest stored document governs, and no failure is passed over: the
walk answers from the first key at which something is stored or the storage
fails, with the document there or with an error. -/
def NearestGoverns (r : AclReader) (get : Lookup) (path : Str) : Prop :=
  ∀ nearer key further, aclKeys path = nearer ++ key :: further →
    (∀ k ∈ nearer, ∃ p, get k = .error (.notFound p)) →
    (¬ ∃ p, get key = .error (.notFound p)) →
    (∃ e, findEffectiveAcl r get path = .error e) ∨
      ∃ body metadata doc, get key = .ok (body, metadata) ∧
        Reads r body metadata.contentType doc ∧ findEffectiveAcl r get path = .ok (some doc)

/-- The shipped limits, with a JSON reader that accepts nothing. -/
def noJsonReader : AclReader := ⟨1048576, 32, fun _ => .error "expected value"⟩

def parentAclText : Str :=
  "<#a> a acl:Authorization; acl:agent <did:nostr:alice>; acl:default </a>; acl:mode acl:Read ."

def parentAcl : AclDocument :=
  ⟨some [{ AclAuthorization.empty with
    agent := some (.single ⟨"did:nostr:alice"⟩)
    default := some (.single ⟨"/a"⟩)
    mode := some (.single ⟨"http://www.w3.org/ns/auth/acl#Read"⟩) }]⟩

/-- A truncated document next to a resource, and a sound one at its parent. -/
def brokenChildStore : MemoryBackend fun _ => [] :=
  ((MemoryBackend.empty.put "/a/b.acl" (utf8 "\x7b\"@graph\": [") "application/ld+json").2.put
    "/a.acl"
    (utf8 parentAclText) "text/turtle").2

theorem get_brokenChildStore_child : Storage.get brokenChildStore "/a/b.acl" =
    .ok (utf8 "\x7b\"@graph\": [", ⟨[], 12, "application/ld+json"⟩) := by
  rw [MemoryBackend.storage_get, brokenChildStore,
    MemoryBackend.get_put _ (by decide) (by decide), if_neg (by decide),
    MemoryBackend.get_put _ (by decide) (by decide), if_pos rfl]
  rfl

/-- A malformed document is passed over, and the parent's one is inherited. -/
theorem not_nearestGoverns :
    ¬ NearestGoverns noJsonReader (Storage.get brokenChildStore) "/a/b" := by
  intro h
  have hkeys : aclKeys "/a/b" = [] ++ ("/a/b.acl" : Str) :: ["/a.acl", "/.acl"] := by decide +kernel
  have hchild := get_brokenChildStore_child
  have hparent : ∃ metadata, metadata.contentType = ("text/turtle" : Str) ∧
      Storage.get brokenChildStore "/a.acl" = .ok (utf8 parentAclText, metadata) := by
    refine ⟨(MemoryBackend.newEntry (fun _ => []) (utf8 parentAclText) "text/turtle").metadata,
      rfl, ?_⟩
    rw [MemoryBackend.storage_get, brokenChildStore,
      MemoryBackend.get_put _ (by decide) (by decide), if_pos rfl]
  obtain ⟨metadata, htype, hparent⟩ := hparent
  have htry : triesTurtle (utf8 "\x7b\"@graph\": [") "application/ld+json" = false := by
    rw [triesTurtle, bodyText_utf8]
    decide +kernel
  have hnone : visitAcl jsonldFatal noJsonReader (Storage.get brokenChildStore "/a/b.acl") =
      none := by
    rw [hchild]
    exact visitAcl_of_malformed (fun _ => rfl) (by decide +kernel) (by decide +kernel) rfl htry
  have hsome : visitAcl jsonldFatal noJsonReader (Storage.get brokenChildStore "/a.acl") =
      some (.ok parentAcl) := by
    have htext : parentAclText = _ := String.toList_ofList
    rw [hparent, htext]
    exact visitAcl_of_turtle (fun _ => rfl) (by decide +kernel) (by decide +kernel) rfl
      (by rw [htype]; decide +kernel) (by decide +kernel)
  have hfind : findEffectiveAcl noJsonReader (Storage.get brokenChildStore) "/a/b" =
      .ok (some parentAcl) := by
    rw [findEffectiveAcl, walkAcl, hkeys, List.nil_append, List.findSome?_cons, hnone]
    simp only []
    rw [List.findSome?_cons, hsome]
  have hstored : ¬ ∃ p, Storage.get brokenChildStore "/a/b.acl" = .error (.notFound p) := by
    rintro ⟨p, hp⟩
    rw [hchild] at hp
    cases hp
  rcases h [] "/a/b.acl" _ hkeys (by simp) hstored with ⟨e, he⟩ | ⟨body, metadata, doc, hg, hd, -⟩
  · rw [hfind] at he
    cases he
  · rw [hchild] at hg
    cases hg
    rcases hd with hd | ⟨-, hd, -⟩
    · cases hd
    · rw [htry] at hd
      cases hd

/-- The server's walk ends with no other error than a bad request. -/
theorem badRequest_of_visitAcl_dyn {found : Except PodError (Bytes × ResourceMeta)} {e : PodError}
    (h : visitAcl jsonldFatalDyn r found = some (.error e)) : ∃ msg, e = .badRequest msg := by
  cases found with
  | error e' => cases h
  | ok found =>
      obtain ⟨body, metadata⟩ := found
      by_cases hsize : Oversized r body
      · exact absurd h ((visitAcl_of_oversized hsize).2 e)
      · rw [visitAcl_of_not_oversized _ hsize jsonldFatalDyn (fun _ => rfl) (fun _ => rfl)] at h
        split at h
        · exact ⟨_, (Except.error.inj (Option.some.inj h)).symm⟩
        · split at h
          · cases h
          · split at h
            · split at h <;> cases h
            · cases h

theorem badRequest_of_findEffectiveAclDyn {path : Str} {e : PodError}
    (h : findEffectiveAclDyn r get path = .error e) : ∃ msg, e = .badRequest msg := by
  rw [findEffectiveAclDyn, walkAcl] at h
  cases hfind : (aclKeys path).findSome? fun k => visitAcl jsonldFatalDyn r (get k) with
  | none =>
      rw [hfind] at h
      cases h
  | some o =>
      rw [hfind] at h
      cases o with
      | ok doc => cases h
      | error e' =>
          cases h
          obtain ⟨-, key, -, -, hvisit, -⟩ := List.findSome?_eq_some_iff.mp hfind
          exact badRequest_of_visitAcl_dyn hvisit

/-- A document over the byte limit that governs is an error for the library and
not for the server. -/
theorem findEffectiveAcl_of_governs_oversized {path key : Str} {body : Bytes}
    {metadata : ResourceMeta} (h : Governs r get path key) (hget : get key = .ok (body, metadata))
    (hsize : Oversized r body) : findEffectiveAcl r get path =
      .error (.payloadTooLarge ("ACL body exceeds " ++ decimal r.maxBytes ++ " bytes")) := by
  have hfind := findEffectiveAcl_of_governs h
  rw [hget, (visitAcl_of_oversized hsize).1] at hfind
  exact hfind

theorem decisive_of_oversized {key : Str} {body : Bytes} {metadata : ResourceMeta}
    (hget : get key = .ok (body, metadata)) (hsize : Oversized r body) : Decisive r get key :=
  ⟨body, metadata, hget, Or.inl (Or.inl hsize)⟩

/-- At a key without a document over the byte limit both walks do the same. -/
theorem visitAcl_dyn_eq {key : Str}
    (h : ∀ body metadata, get key = .ok (body, metadata) → ¬ Oversized r body) :
    visitAcl jsonldFatalDyn r (get key) = visitAcl jsonldFatal r (get key) := by
  cases hget : get key with
  | error e => rfl
  | ok found => exact visitAcl_dyn_of_not_oversized (h found.1 found.2 hget)

/-- Both resolvers give the same answer exactly when every body over the byte
limit is met after a decisive key. -/
theorem findEffectiveAclDyn_eq_iff (r : AclReader) (get : Lookup) (path : Str) :
    findEffectiveAclDyn r get path = findEffectiveAcl r get path ↔
      ∀ nearer key further body metadata, aclKeys path = nearer ++ key :: further →
        get key = .ok (body, metadata) → Oversized r body →
          ∃ k ∈ nearer, Decisive r get k := by
  constructor
  · intro heq nearer key further body metadata hkeys hget hsize
    by_contra hnone
    have hgov : Governs r get path key := by
      refine ⟨nearer, further, hkeys, decisive_of_oversized hget hsize, ?_⟩
      intro k hk hd
      exact hnone ⟨k, hk, hd⟩
    rw [findEffectiveAcl_of_governs_oversized hgov hget hsize] at heq
    obtain ⟨msg, hmsg⟩ := badRequest_of_findEffectiveAclDyn heq
    cases hmsg
  · intro hlater
    rw [findEffectiveAclDyn, findEffectiveAcl, walkAcl, walkAcl]
    have hsame : (aclKeys path).findSome? (fun k => visitAcl jsonldFatalDyn r (get k)) =
        (aclKeys path).findSome? fun k => visitAcl jsonldFatal r (get k) := by
      refine findSome?_eq_of_consulted ?_
      intro key hkey
      obtain ⟨nearer, further, hkeys, hnearer⟩ := mem_consulted_iff.mp hkey
      refine visitAcl_dyn_eq ?_
      intro body metadata hget hsize
      obtain ⟨k, hk, hd⟩ := hlater nearer key further body metadata hkeys hget hsize
      exact visitAcl_eq_none_iff.mp (hnearer k hk) hd
    rw [hsame]

/-- A byte limit below the length of every document here. -/
def smallReader : AclReader := ⟨8, 32, fun _ => .error "expected value"⟩

/-- The server passes over the document that the library refuses to read. -/
theorem findEffectiveAclDyn_ne_findEffectiveAcl :
    findEffectiveAclDyn smallReader (Storage.get brokenChildStore) "/a/b" ≠
      findEffectiveAcl smallReader (Storage.get brokenChildStore) "/a/b" := by
  intro h
  have hchild := get_brokenChildStore_child
  have hsize : Oversized smallReader (utf8 "\x7b\"@graph\": [") := by
    change 8 < (utf8 "\x7b\"@graph\": [").length
    decide
  have hgov : Governs smallReader (Storage.get brokenChildStore) "/a/b" "/a/b.acl" :=
    ⟨[], ["/a.acl", "/.acl"], by decide, decisive_of_oversized hchild hsize, by simp⟩
  rw [findEffectiveAcl_of_governs_oversized hgov hchild hsize] at h
  obtain ⟨msg, hmsg⟩ := badRequest_of_findEffectiveAclDyn h
  cases hmsg

end Wac

end SolidPod
