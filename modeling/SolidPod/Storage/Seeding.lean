import SolidPod.Storage.FsPaths
import SolidPod.Storage.Memory

/-!
# Writing the same resources again

What a sequence of writes needs of a backend, by the paths of the resources: a write is held
until another one touches its files, and to write what is held already changes nothing that
can be read or listed. Both backends have these laws, the one that keeps a map and the one that
keeps a file and a sidecar for every resource.
-/

namespace SolidPod

open Foundation Str

/-- A backend, with what it means that it holds a resource and that two of its states look the
same to every read. -/
class SeedStorage (σ : Type) extends Storage σ where
  Holds : σ → ResourcePath → Bytes → Str → Prop
  Same : σ → σ → Prop
  same_refl : ∀ s, Same s s
  get_of_same : ∀ {s s' : σ}, Same s s' → ∀ path, Storage.get s path = Storage.get s' path
  list_of_same : ∀ {s s' : σ}, Same s s' → ∀ path, Storage.list s path = Storage.list s' path
  holds_of_same : ∀ {s s' : σ} {p : ResourcePath} {b : Bytes} {ct : Str}, Same s s' →
    Holds s p b ct → Holds s' p b ct
  put_relative : ∀ (s : σ) {key : Str} (b : Bytes) (ct : Str), key ≠ [] → ¬ IsAbsolute key →
    Storage.put s key b ct = Storage.put s ('/' :: key) b ct
  put_ne_alreadyExists : ∀ (s : σ) (key : Str) (b : Bytes) (ct : Str) (path : Str),
    (Storage.put s key b ct).1 ≠ .error (.alreadyExists path)
  holds_put_self : ∀ {s : σ} {p : ResourcePath} {b : Bytes} {ct : Str} {m : ResourceMeta},
    (Storage.put s p.text b ct).1 = .ok m → Holds (Storage.put s p.text b ct).2 p b ct
  /-- A write elsewhere, whatever comes of it. -/
  holds_put : ∀ {s : σ} {p q : ResourcePath} {b : Bytes} {ct : Str} (b' : Bytes) (ct' : Str),
    p ≠ q → q.sidecar ≠ p → q ≠ p.sidecar → Holds s p b ct →
      Holds (Storage.put s q.text b' ct').2 p b ct
  same_put : ∀ {s s' : σ} {p : ResourcePath} {b : Bytes} {ct : Str}, Same s s' →
    Holds s p b ct → Same s (Storage.put s' p.text b ct).2
  stored_put : ∀ {s : σ} {p q : ResourcePath} {b : Bytes} {ct : Str},
    Stored (Storage.put s q.text b ct).2 p.text → Stored s p.text ∨ p = q ∨ p = q.sidecar

/-! ## Memory -/

namespace MemoryBackend

variable {digest : Bytes → Str}

/-- The same entries under the same keys. -/
def Same (s s' : MemoryBackend digest) : Prop := ∀ key, s.data.lookup key = s'.data.lookup key

theorem normalize_relative {key : Str} (hne : key ≠ []) (h : ¬ IsAbsolute key) :
    normalize key = '/' :: key := by
  have hslash : startsWith "/" key = false := by
    rw [← Bool.not_eq_true, startsWith, List.isPrefixOf_iff_prefix]
    rintro ⟨t, ht⟩
    exact h (by rw [← ht]; rfl)
  rw [normalize, List.isEmpty_eq_false_iff.mpr hne, hslash]
  rfl

theorem list_of_same {s s' : MemoryBackend digest} (h : Same s s') (path : Str) :
    s.list path = s'.list path := by
  have hkeys : ∀ key, key ∈ s.data.keys ↔ key ∈ s'.data.keys := by
    intro key
    rw [← AList.mem_keys, ← AList.mem_keys, ← AList.lookup_isSome, ← AList.lookup_isSome, h key]
  rw [list, list]
  refine congrArg Except.ok (congrArg (Finset.sort · (· ≤ ·)) ?_)
  ext name
  simp only [List.mem_toFinset, List.mem_filterMap, hkeys]

theorem data_put_text (s : MemoryBackend digest) (p : ResourcePath) (b : Bytes) (ct : Str) :
    (Storage.put s p.text b ct).2.data = s.data.insert p.text (newEntry digest b ct) := by
  rw [storage_put, put, normalize_of_isAbsolute p.isAbsolute_text]

instance : SeedStorage (MemoryBackend digest) where
  Holds s p b ct := s.data.lookup p.text = some (newEntry digest b ct)
  Same := Same
  same_refl _ _ := rfl
  get_of_same := by
    intro s s' h path
    rw [storage_get, storage_get, get, get, h]
  list_of_same := list_of_same
  holds_of_same := fun hsame h => (hsame _).symm.trans h
  put_relative := by
    intro s key b ct hne h
    rw [storage_put, storage_put, put, put, normalize_relative hne h,
      normalize_of_isAbsolute (p := '/' :: key) rfl]
  put_ne_alreadyExists := by
    intro s key b ct path h
    cases h
  holds_put_self := by
    intro s p b ct m _
    rw [data_put_text, AList.lookup_insert]
  holds_put := by
    intro s p q b ct b' ct' hne _ _ h
    rw [data_put_text, AList.lookup_insert_ne (fun heq => hne (ResourcePath.text_injective heq)), h]
  same_put := by
    intro s s' p b ct hsame h key
    rw [data_put_text]
    by_cases hkey : key = p.text
    · rw [hkey, h, AList.lookup_insert]
    · rw [AList.lookup_insert_ne hkey, hsame]
  stored_put := by
    rintro s p q b ct ⟨r, hr⟩
    by_cases hpq : p = q
    · exact Or.inr (Or.inl hpq)
    · left
      refine ⟨r, ?_⟩
      have hkey : p.text ≠ q.text := fun heq => hpq (ResourcePath.text_injective heq)
      rw [storage_get, get_of_isAbsolute _ p.isAbsolute_text] at hr ⊢
      rwa [data_put_text, AList.lookup_insert_ne hkey] at hr

end MemoryBackend

/-! ## The filesystem -/

namespace FsBackend

variable {digest : Bytes → Str} {codec : SidecarCodec} {s s' : FsBackend digest codec}
  {p q : ResourcePath} {b : Bytes} {ct : Str} {m : ResourceMeta}

section Reads

theorem readAt_of_alike {t t' : FileTree Str Bytes} (h : t.Alike t') (d : DiskPath) :
    readAt t d = readAt t' d := by
  rw [readAt, readAt, h.readFile]

theorem get_of_alike (h : s.tree.Alike s'.tree) (path : Str) : s.get path = s'.get path := by
  have htype : ∀ rel, s.sidecarType path rel = s'.sidecarType path rel := by
    intro rel
    rw [sidecarType, sidecarType, readAt_of_alike h]
  have hmeta : s.readMeta path = s'.readMeta path := by
    funext body
    simp only [readMeta, htype]
  have hbody : s.readBody path = s'.readBody path := by
    simp only [readBody, readAt_of_alike h]
  rw [get, get, hbody, hmeta]

theorem list_of_alike (h : s.tree.Alike s'.tree) (path : Str) : s.list path = s'.list path := by
  rw [list, list]
  cases resolve path with
  | error e => rfl
  | ok rel =>
      simp only
      rw [FileTree.readDir, FileTree.readDir, ← h (DiskPath.parse rel).names, ← h.missing]
      rcases s.tree.node (DiskPath.parse rel).names with _ | ⟨content⟩ | _
      · rfl
      · rfl
      · have hperm := ((h.children_perm (DiskPath.parse rel).names).filter
          fun e => !endsWith metaSuffix e.1).map entryName
        refine congrArg Except.ok ?_
        refine List.Perm.eq_of_pairwise' (r := (· ≤ ·)) (List.pairwise_insertionSort _ _)
          (List.pairwise_insertionSort _ _) ?_
        exact (List.perm_insertionSort _ _).trans (hperm.trans (List.perm_insertionSort _ _).symm)

end Reads

section Writes

theorem resolve_of_dotted (h : p.Dotted) : resolve p.text = .error (.invalidPath p.text) := by
  have hpath : (if p.text.isEmpty then ("/" : Str)
      else if startsWith "/" p.text then p.text else '/' :: p.text) = p.text :=
    MemoryBackend.normalize_of_isAbsolute p.isAbsolute_text
  have hcontains : containsStr ".." p.text = true := h
  rw [resolve, normalize]
  simp only [hpath, hcontains, Bool.true_or, if_true]
  rfl

theorem resolve_relative {key : Str} (hne : key ≠ []) (h : ¬ IsAbsolute key) :
    resolve key = resolve ('/' :: key) := by
  have hkey : (if key.isEmpty then ("/" : Str)
      else if startsWith "/" key then key else '/' :: key) = '/' :: key :=
    MemoryBackend.normalize_relative hne h
  have hslash : (if ('/' :: key).isEmpty then ("/" : Str)
      else if startsWith "/" ('/' :: key) then '/' :: key else '/' :: '/' :: key) = '/' :: key :=
    MemoryBackend.normalize_of_isAbsolute rfl
  rw [resolve, resolve, normalize, normalize]
  simp only [hkey, hslash]

theorem put_of_resolve_eq {path path' : Str} (h : resolve path = resolve path') :
    s.put path b ct = s.put path' b ct := by
  simp only [put, writeBody, writeSidecar, h]

/-- The path or the system refuses, and neither says that a resource is there already. -/
theorem put_ne_alreadyExists (s : FsBackend digest codec) (path : Str) (b : Bytes)
    (ct other : Str) :
    (s.put path b ct).1 ≠ .error (.alreadyExists other) := by
  have hresolve : resolve path ≠ .error (.alreadyExists other) := by
    have hrefused : ∀ refused (p : Str), (if refused = true then
        (Except.error (.invalidPath p) : Except PodError Str) else .ok p).map
          (trimStartMatches '/') ≠ .error (.alreadyExists other) := by
      intro refused p
      cases refused <;> simp [Except.map]
    exact hrefused _ _
  rw [put, writeBody]
  cases hpath : resolve path with
  | error e =>
      rw [hpath] at hresolve
      simpa using hresolve
  | ok rel =>
      simp only
      cases s.tree.createDirAll (DiskPath.parse rel).names.dropLast with
      | error e => simp
      | ok t =>
          simp only
          cases writeAt t (DiskPath.parse rel) b with
          | error e => simp
          | ok t' =>
              simp only [writeSidecar, hpath]
              cases writeAt t' (DiskPath.parse (metaPath rel)) (codec.toVec ct) with
              | error e => simp
              | ok t'' => simp

/-- What a put may do: it is refused, it stops at the directories, at the file or at the
sidecar, or it writes both. -/
theorem put_cases (s : FsBackend digest codec) (q : ResourcePath) (b : Bytes) (ct : Str) :
    (∃ e, s.put q.text b ct = (.error e, s)) ∨
      ¬q.Dotted ∧ ∃ t, s.tree.createDirAll q.segments.dropLast = .ok t ∧
        ((∃ e, s.put q.text b ct = (.error e, ⟨t⟩)) ∨
          ∃ t', t.writeFile q.segments b = .ok t' ∧
            ((∃ e, s.put q.text b ct = (.error e, ⟨t'⟩)) ∨
              ∃ t'' m, t'.writeFile q.sidecar.segments (codec.toVec ct) = .ok t'' ∧
                s.put q.text b ct = (.ok m, ⟨t''⟩))) := by
  by_cases hdots : q.Dotted
  · exact Or.inl ⟨_, by rw [put, writeBody, resolve_of_dotted hdots]⟩
  rw [put, writeBody, ResourcePath.resolve_text hdots]
  simp only [ResourcePath.parse_rel, writeAt_mk_false]
  cases hdirs : s.tree.createDirAll q.segments.dropLast with
  | error e => exact Or.inl ⟨_, rfl⟩
  | ok t =>
      refine Or.inr ⟨hdots, t, rfl, ?_⟩
      simp only
      cases hbody : t.writeFile q.segments b with
      | error e => exact Or.inl ⟨_, rfl⟩
      | ok t' =>
          refine Or.inr ⟨t', rfl, ?_⟩
          simp only [writeSidecar, ResourcePath.resolve_text hdots,
            ResourcePath.parse_metaPath_rel, writeAt_mk_false]
          cases t'.writeFile q.sidecar.segments (codec.toVec ct) with
          | error e => exact Or.inl ⟨_, rfl⟩
          | ok t'' => exact Or.inr ⟨t'', _, rfl, rfl⟩

theorem segments_ne (h : p ≠ q) : p.segments ≠ q.segments := fun heq =>
  h (ResourcePath.ext_segments heq)

/-- Away from its two files a put makes directories where nothing was, whatever comes of it. -/
theorem node_put (s : FsBackend digest codec) {q : ResourcePath} (b : Bytes) (ct : Str)
    {names : List Str} (hfile : names ≠ q.segments) (hsidecar : names ≠ q.sidecar.segments) :
    (s.put q.text b ct).2.tree.node names = s.tree.node names ∨
      s.tree.node names = none ∧ (s.put q.text b ct).2.tree.node names = some .dir := by
  rcases put_cases s q b ct with ⟨e, h⟩ | ⟨-, t, hdirs, hrest⟩
  · exact Or.inl (by rw [h])
  have hdir : t.node names = s.tree.node names ∨
      s.tree.node names = none ∧ t.node names = some .dir := by
    have hnode := FileTree.node_of_createDirAll hdirs names
    have hfree := FileTree.not_blocked_of_createDirAll hdirs
    by_cases hpre : names <+: q.segments.dropLast
    · rw [if_pos hpre] at hnode
      rw [hnode]
      rcases hold : s.tree.node names with _ | ⟨content⟩ | _
      · exact Or.inr ⟨rfl, rfl⟩
      · exact absurd ⟨names, (List.mem_inits _ _).2 hpre, content, hold⟩ hfree
      · exact Or.inl rfl
    · rw [if_neg hpre] at hnode
      exact Or.inl hnode
  rcases hrest with ⟨e, h⟩ | ⟨t', hbody, hrest⟩
  · rwa [h]
  have hbody' : t'.node names = t.node names := by
    rw [FileTree.node_of_writeFile hbody, if_neg hfile]
  rcases hrest with ⟨e, h⟩ | ⟨t'', m, hmeta, h⟩
  · rw [h]
    simpa only [hbody'] using hdir
  · have hmeta' : t''.node names = t'.node names := by
      rw [FileTree.node_of_writeFile hmeta, if_neg hsidecar]
    rw [h]
    simpa only [hmeta', hbody'] using hdir

/-- A file that is none of the two that a put writes stays as it is. -/
theorem node_put_of_file (h : s.tree.node p.segments = some (.file b)) (hfile : p ≠ q)
    (hsidecar : p ≠ q.sidecar) (b' : Bytes) (ct' : Str) :
    (s.put q.text b' ct').2.tree.node p.segments = some (.file b) := by
  rcases node_put s b' ct' (segments_ne hfile) (segments_ne hsidecar) with heq | ⟨hnone, -⟩
  · rw [heq, h]
  · rw [h] at hnone
    cases hnone

theorem keeps_of_put (h : (s.put p.text b ct).1 = .ok m) :
    ¬p.Dotted ∧ (s.put p.text b ct).2.Keeps p b ct := by
  rcases put_cases s p b ct with ⟨e, hput⟩ | ⟨hdots, t, -, ⟨e, hput⟩ | ⟨t', hbody, ⟨e, hput⟩ |
    ⟨t'', m', hmeta, hput⟩⟩⟩
  · rw [hput] at h
    cases h
  · rw [hput] at h
    cases h
  · rw [hput] at h
    cases h
  · rw [hput]
    have hne := segments_ne (ResourcePath.sidecar_ne_self (p := p)).symm
    refine ⟨hdots, ?_, ?_⟩
    · rw [FileTree.node_of_writeFile hmeta, if_neg hne, FileTree.node_of_writeFile hbody,
        if_pos rfl]
    · rw [FileTree.node_of_writeFile hmeta, if_pos rfl]

/-- To write what is kept changes no node. -/
theorem alike_put (hsame : s.tree.Alike s'.tree) (hdots : ¬p.Dotted) (h : s.Keeps p b ct) :
    s.tree.Alike (s'.put p.text b ct).2.tree := by
  have habove : ∀ names, names <+: p.segments.dropLast → s'.tree.node names = some .dir := by
    intro names hpre
    rw [← hsame]
    refine s.tree.node_of_prefix (hpre.trans (List.dropLast_prefix _)) ?_ (by rw [h.body]; simp)
    rintro rfl
    exact not_prefix_dropLast hpre
  have hfree : ¬s'.tree.Blocked p.segments.dropLast := by
    rintro ⟨names, hmem, content, hcontent⟩
    rw [habove names ((List.mem_inits _ _).1 hmem)] at hcontent
    cases hcontent
  have hplace : s'.tree.node p.segments ≠ some .dir := by
    rw [← hsame, h.body]
    simp
  have hsidecar : s'.tree.node p.sidecar.segments ≠ some .dir := by
    rw [← hsame, h.sidecar]
    simp
  obtain ⟨t, hput, hnode⟩ := put_text hdots b ct hfree hplace hsidecar
  intro names
  rw [hput, hnode]
  split_ifs with hside hbody hpre
  · rw [hside, h.sidecar]
  · rw [hbody, h.body]
  · rw [hsame, habove names hpre]
  · exact hsame names

theorem stored_iff : Stored s p.text ↔
    ¬p.Dotted ∧ ∃ content, s.tree.node p.segments = some (.file content) := by
  by_cases hdots : p.Dotted
  · have hget : s.get p.text = .error (.invalidPath p.text) := by
      rw [get, readBody, resolve_of_dotted hdots]
    constructor
    · rintro ⟨r, hr⟩
      have hr : s.get p.text = .ok r := hr
      rw [hget] at hr
      cases hr
    · exact fun h => absurd hdots h.1
  · rw [and_iff_right hdots]
    have herror : ∀ e, s.tree.readFile p.segments = .error e →
        s.get p.text = .error (readError p.text e) := by
      intro e he
      rw [get, readBody_text hdots, he]
      rfl
    have hok : ∀ content, s.tree.readFile p.segments = .ok content →
        ∃ r, s.get p.text = .ok r := by
      intro content hcontent
      rw [get, readBody_text hdots, hcontent]
      change ∃ r, (s.readMeta p.text content).map _ = .ok r
      rw [readMeta, ResourcePath.resolve_text hdots]
      exact ⟨_, rfl⟩
    constructor
    · rintro ⟨r, hr⟩
      have hr : s.get p.text = .ok r := hr
      rcases hnode : s.tree.node p.segments with _ | ⟨content⟩ | _
      · have hread := herror _ (by rw [FileTree.readFile, hnode])
        rw [hr] at hread
        cases hread
      · exact ⟨content, rfl⟩
      · have hread := herror _ (by rw [FileTree.readFile, hnode])
        rw [hr] at hread
        cases hread
    · rintro ⟨content, hcontent⟩
      exact hok content (readFile_of_file hcontent)

/-- What is stored after a put was stored before, or is one of the files written. -/
theorem stored_of_put (h : Stored (s.put q.text b ct).2 p.text) :
    Stored s p.text ∨ p = q ∨ p = q.sidecar := by
  by_cases hfile : p = q
  · exact Or.inr (Or.inl hfile)
  by_cases hsidecar : p = q.sidecar
  · exact Or.inr (Or.inr hsidecar)
  left
  rw [stored_iff] at h ⊢
  obtain ⟨hdots, content, hcontent⟩ := h
  refine ⟨hdots, content, ?_⟩
  rcases node_put s b ct (segments_ne hfile) (segments_ne hsidecar) with heq | ⟨-, hdir⟩
  · rw [← heq, hcontent]
  · rw [hcontent] at hdir
    cases hdir

end Writes

instance : SeedStorage (FsBackend digest codec) where
  Holds s p b ct := ¬p.Dotted ∧ s.Keeps p b ct
  Same s s' := s.tree.Alike s'.tree
  same_refl _ _ := rfl
  get_of_same := get_of_alike
  list_of_same := list_of_alike
  holds_of_same := fun hsame h =>
    ⟨h.1, ⟨(hsame _).symm.trans h.2.body, (hsame _).symm.trans h.2.sidecar⟩⟩
  put_relative := fun _ _ _ _ hne h => put_of_resolve_eq (resolve_relative hne h)
  put_ne_alreadyExists := fun s path b ct other => put_ne_alreadyExists s path b ct other
  holds_put_self := keeps_of_put
  holds_put := by
    intro s p q b ct b' ct' hfile hsidecar hsidecar' h
    refine ⟨h.1, node_put_of_file h.2.body hfile hsidecar.symm b' ct', ?_⟩
    refine node_put_of_file h.2.sidecar hsidecar'.symm ?_ b' ct'
    exact fun heq => hfile (ResourcePath.sidecar_injective heq)
  same_put := fun hsame h => alike_put hsame h.1 h.2
  stored_put := stored_of_put

end FsBackend

end SolidPod
