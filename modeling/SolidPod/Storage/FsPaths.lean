import SolidPod.Storage.Fs

/-!
# The filesystem backend on canonical paths

A canonical path is a list of segments, and these are the names that the system
is given. What a call on such a path does is said here in terms of the nodes of
the tree, once for each step.
-/

namespace SolidPod

open Foundation Str

/-- A segment of a canonical path. -/
structure IsSegment (s : Str) : Prop where
  ne_nil : s ≠ []
  ne_dot : s ≠ "."
  ne_dots : s ≠ ".."
  slash : '/' ∉ s
  nul : '\x00' ∉ s

/-- A canonical path other than the root, by its segments. -/
structure ResourcePath where
  segments : List Str
  ne_nil : segments ≠ []
  proper : ∀ s ∈ segments, IsSegment s
  deriving DecidableEq

/-- The segments as a text, each with a slash before it. -/
def pathText (l : List Str) : Str := l.flatMap fun s => '/' :: s

section Slashes

open DiskPath

theorem pathText_cons (s : Str) (l : List Str) : pathText (s :: l) = '/' :: (s ++ pathText l) := rfl

theorem pathText_append (l r : List Str) : pathText (l ++ r) = pathText l ++ pathText r :=
  List.flatMap_append

theorem slashes_neutral {s : Str} (h : '/' ∉ s) : slashes.Neutral () s := by
  refine slashes.neutral_of_forall ?_
  intro c hc
  refine ⟨?_, rfl⟩
  have hne : c ≠ '/' := by
    rintro rfl
    exact h hc
  simp [slashes, hne]

theorem pieces_append_pathText {l : List Str} (hl : ∀ s ∈ l, '/' ∉ s) :
    ∀ {a : Str}, '/' ∉ a → slashes.pieces () [] (a ++ pathText l) = a :: l := by
  induction l with
  | nil =>
      intro a ha
      rw [pathText, List.flatMap_nil, List.append_nil,
        slashes.pieces_of_passes (slashes_neutral ha).1, List.nil_append]
  | cons s l ih =>
      intro a ha
      have hs : '/' ∉ s := hl s List.mem_cons_self
      rw [pathText_cons, slashes.pieces_append_of_passes (slashes_neutral ha).1,
        slashes.pieces_cons_of_cuts rfl, ih (fun t ht => hl t (List.mem_cons_of_mem s ht)) hs,
        List.nil_append]

/-- Two texts of segments are equal only when the segments are. -/
theorem pathText_injective {l r : List Str} (hl : ∀ s ∈ l, '/' ∉ s) (hr : ∀ s ∈ r, '/' ∉ s)
    (h : pathText l = pathText r) : l = r := by
  have hpieces := congrArg (fun t => slashes.pieces () [] ([] ++ t)) h
  simp only [pieces_append_pathText hl List.not_mem_nil,
    pieces_append_pathText hr List.not_mem_nil] at hpieces
  exact (List.cons.inj hpieces).2

/-- A text below another one, cut at the next slash. -/
theorem pathText_eq_append_slash {l q : List Str} (hl : ∀ s ∈ l, '/' ∉ s)
    (hq : ∀ s ∈ q, '/' ∉ s) {r : Str} (h : pathText q = pathText l ++ '/' :: r) :
    ∃ n rest, q = l ++ n :: rest ∧ r = n ++ pathText rest := by
  induction l generalizing q with
  | nil =>
      cases q with
      | nil => exact absurd h (by simp [pathText])
      | cons n rest => exact ⟨n, rest, rfl, (List.cons.inj h).2.symm⟩
  | cons s l ih =>
      cases q with
      | nil => exact absurd h (by simp [pathText])
      | cons s' q =>
          rw [pathText_cons, pathText_cons, List.cons_append] at h
          have htail := (List.cons.inj h).2
          rw [List.append_assoc] at htail
          have hs : '/' ∉ s := hl s List.mem_cons_self
          have hs' : '/' ∉ s' := hq s' List.mem_cons_self
          -- the first piece of either side is its first segment
          have hpieces : (slashes.pieces () [] (s' ++ pathText q)).head? =
              (slashes.pieces () [] (s ++ (pathText l ++ '/' :: r))).head? := by
            rw [htail]
          rw [pieces_append_pathText (fun t ht => hq t (List.mem_cons_of_mem s' ht)) hs',
            slashes.pieces_append_of_passes (slashes_neutral hs).1] at hpieces
          have hfirst : s' = s := by
            cases l with
            | nil =>
                rw [show pathText [] ++ '/' :: r = '/' :: r from rfl,
                  slashes.pieces_cons_of_cuts rfl] at hpieces
                simpa using hpieces
            | cons a l =>
                rw [pathText_cons, List.cons_append, slashes.pieces_cons_of_cuts rfl] at hpieces
                simpa using hpieces
          subst hfirst
          obtain ⟨n, rest, rfl, hr⟩ := ih (fun t ht => hl t (List.mem_cons_of_mem s' ht))
            (fun t ht => hq t (List.mem_cons_of_mem s' ht)) (List.append_cancel_left htail)
          exact ⟨n, rest, rfl, hr⟩

end Slashes

namespace ResourcePath

variable (p q : ResourcePath)

def text : Str := pathText p.segments

/-- The text contains `..`, be it inside a longer name. -/
def Dotted : Prop := containsStr ".." p.text = true

instance : Decidable p.Dotted := inferInstanceAs (Decidable (_ = true))

variable {p q}

theorem slash_notMem : ∀ s ∈ p.segments, '/' ∉ s := fun s hs => (p.proper s hs).slash

theorem ext_segments (h : p.segments = q.segments) : p = q := by
  cases p
  cases q
  cases h
  rfl

theorem text_injective (h : p.text = q.text) : p = q :=
  ext_segments (pathText_injective slash_notMem slash_notMem h)

theorem isAbsolute_text : IsAbsolute p.text := by
  obtain ⟨s, l, hsegments⟩ := List.exists_cons_of_ne_nil p.ne_nil
  rw [IsAbsolute, text, hsegments, pathText_cons]
  rfl

theorem length_metaSuffix : metaSuffix.length = 10 := rfl

theorem isSegment_append_metaSuffix {s : Str} (h : IsSegment s) : IsSegment (s ++ metaSuffix) where
  ne_nil := by simp [h.ne_nil]
  ne_dot := by
    intro heq
    have hlength : s.length + 10 = 1 := by
      rw [← length_metaSuffix, ← List.length_append, heq]
      rfl
    omega
  ne_dots := by
    intro heq
    have hlength : s.length + 10 = 2 := by
      rw [← length_metaSuffix, ← List.length_append, heq]
      rfl
    omega
  slash := by
    rw [List.mem_append, not_or]
    exact ⟨h.slash, by decide⟩
  nul := by
    rw [List.mem_append, not_or]
    exact ⟨h.nul, by decide⟩

/-- The path of the sidecar file. -/
def sidecar (p : ResourcePath) : ResourcePath where
  segments := p.segments.dropLast ++ [p.segments.getLast p.ne_nil ++ metaSuffix]
  ne_nil := by simp
  proper := by
    intro s hs
    rw [List.mem_append, List.mem_singleton] at hs
    rcases hs with hs | rfl
    · exact p.proper s (List.mem_of_mem_dropLast hs)
    · exact isSegment_append_metaSuffix (p.proper _ (List.getLast_mem p.ne_nil))

@[simp] theorem dropLast_sidecar : p.sidecar.segments.dropLast = p.segments.dropLast := by
  simp [sidecar]

theorem length_sidecar : p.sidecar.segments.length = p.segments.length := by
  have hpos : 0 < p.segments.length := List.length_pos_of_ne_nil p.ne_nil
  simp only [sidecar, List.length_append, List.length_dropLast, List.length_singleton]
  omega

theorem text_eq_dropLast (p : ResourcePath) :
    p.text = pathText p.segments.dropLast ++ '/' :: p.segments.getLast p.ne_nil := by
  have happend := pathText_append p.segments.dropLast [p.segments.getLast p.ne_nil]
  rw [List.dropLast_append_getLast p.ne_nil] at happend
  rw [text, happend]
  simp [pathText]

theorem text_sidecar : p.sidecar.text = p.text ++ metaSuffix := by
  rw [text_eq_dropLast p, text, sidecar, pathText_append]
  simp [pathText]

theorem sidecar_injective (h : p.sidecar = q.sidecar) : p = q := by
  have htext := congrArg text h
  rw [text_sidecar, text_sidecar] at htext
  exact text_injective (List.append_cancel_right htext)

theorem sidecar_ne_self : p.sidecar ≠ p := by
  intro h
  have hlength : p.text.length + 10 = p.text.length := by
    rw [← length_metaSuffix, ← List.length_append, ← text_sidecar, h]
  omega

/-- A path that ends like a sidecar's. -/
theorem endsWith_of_sidecar {l : List Str} {n : Str} (h : l ++ [n] = p.sidecar.segments) :
    endsWith metaSuffix n = true := by
  have hlast : n = p.segments.getLast p.ne_nil ++ metaSuffix := by
    have := (List.append_inj' h rfl).2
    simpa using this
  rw [hlast, endsWith, List.isSuffixOf_iff_suffix]
  exact List.suffix_append _ _

/-- The text below the root. -/
def rel (p : ResourcePath) : Str := p.text.tail

theorem parse_rel : DiskPath.parse p.rel = ⟨p.segments, false⟩ := by
  obtain ⟨s, l, hsegments⟩ := List.exists_cons_of_ne_nil p.ne_nil
  have hrel : p.rel = s ++ pathText l := by
    rw [rel, text, hsegments, pathText_cons]
    rfl
  have hs : '/' ∉ s := p.slash_notMem s (by simp [hsegments])
  have hl : ∀ t ∈ l, '/' ∉ t := fun t ht => p.slash_notMem t (by simp [hsegments, ht])
  have hvoid : ∀ t ∈ s :: l, (t == [] || t == ".") = false := by
    intro t ht
    have hseg := p.proper t (by rwa [hsegments])
    rw [beq_false_of_ne hseg.ne_nil, beq_false_of_ne hseg.ne_dot]
    rfl
  rw [DiskPath.parse, hrel, pieces_append_pathText hl hs, hsegments, DiskPath.mk.injEq]
  constructor
  · rw [List.filter_eq_self]
    intro t ht
    simp only [hvoid t ht, Bool.not_false]
  · rw [List.getLast?_eq_some_getLast (List.cons_ne_nil s l)]
    exact hvoid _ (List.getLast_mem _)

theorem metaPath_rel : FsBackend.metaPath p.rel = p.sidecar.rel := by
  obtain ⟨s, l, hsegments⟩ := List.exists_cons_of_ne_nil p.ne_nil
  rw [rel, rel, text_sidecar, FsBackend.metaPath, text, hsegments, pathText_cons]
  rfl

theorem parse_metaPath_rel :
    DiskPath.parse (FsBackend.metaPath p.rel) = ⟨p.sidecar.segments, false⟩ := by
  rw [metaPath_rel, parse_rel]

theorem resolve_text (h : ¬p.Dotted) : FsBackend.resolve p.text = .ok p.rel := by
  have hnul : p.text.contains '\x00' = false := by
    rw [List.contains_eq_mem, decide_eq_false_iff_not, text, pathText, List.mem_flatMap]
    rintro ⟨s, hs, hmem⟩
    rcases List.mem_cons.1 hmem with heq | hmem
    · exact absurd heq (by decide)
    · exact (p.proper s hs).nul hmem
  have hdots : containsStr ".." p.text = false := by simpa [Dotted] using h
  obtain ⟨s, l, hsegments⟩ := List.exists_cons_of_ne_nil p.ne_nil
  have hseg := p.proper s (by simp [hsegments])
  obtain ⟨c, cs, rfl⟩ := List.exists_cons_of_ne_nil hseg.ne_nil
  have hc : (c == '/') = false := by
    rw [beq_eq_false_iff_ne]
    rintro rfl
    exact hseg.slash List.mem_cons_self
  have hnormalize : FsBackend.normalize p.text = .ok p.text := by
    rw [FsBackend.normalize]
    have hstart : startsWith "/" p.text = true := by
      rw [text, hsegments, pathText_cons]
      simp [startsWith, List.isPrefixOf]
    have hne : p.text.isEmpty = false := by
      rw [text, hsegments, pathText_cons]
      rfl
    simp only [hne, hstart, if_true, Bool.false_eq_true, if_false, hdots, hnul, Bool.or_self]
  rw [FsBackend.resolve, hnormalize]
  change Except.ok (trimStartMatches '/' p.text) = _
  rw [rel, text, hsegments, pathText_cons, trimStartMatches]
  simp [List.dropWhile, hc]

end ResourcePath

/-- A path of one segment. -/
def oneSegment (s : Str) (h : IsSegment s) : ResourcePath := ⟨[s], by simp, by simpa using h⟩

theorem isSegment_x : IsSegment "x" := ⟨by decide, by decide, by decide, by decide, by decide⟩

/-- `/x`. -/
def pathX : ResourcePath := oneSegment "x" isSegment_x

namespace FsBackend

variable {digest : Bytes → Str} {codec : SidecarCodec} {t : FileTree Str Bytes}
  {s : FsBackend digest codec} {p : ResourcePath} {names : List Str} {b : Bytes}

theorem readAt_mk_false : readAt t ⟨names, false⟩ = t.readFile names := by
  rw [readAt]
  cases t.readFile names with
  | error e => rfl
  | ok b => rfl

theorem readFile_of_file (h : t.node names = some (.file b)) : t.readFile names = .ok b := by
  rw [FileTree.readFile, h]

theorem readFile_of_missing (h : t.node names = none) (hfree : ¬t.Blocked names) :
    t.readFile names = .error .notFound := by
  rw [FileTree.readFile, h, ← FileTree.missing_eq_notFound hfree]

theorem statAt_of_file (h : t.node names = some (.file b)) :
    statAt t ⟨names, false⟩ = .ok (.file b) := by
  rw [statAt, FileTree.stat, h]
  rfl

theorem statAt_of_missing (h : t.node names = none) :
    statAt t ⟨names, false⟩ = .error (t.missing names) := by
  rw [statAt, FileTree.stat, h]

theorem removeAt_mk_false : removeAt t ⟨names, false⟩ = t.removeFile names := rfl

theorem writeAt_mk_false : writeAt t ⟨names, false⟩ b = t.writeFile names b := rfl

theorem readBody_text (hdots : ¬p.Dotted) :
    s.readBody p.text = (s.tree.readFile p.segments).mapError (readError p.text) := by
  rw [readBody, ResourcePath.resolve_text hdots]
  simp only [ResourcePath.parse_rel, readAt_mk_false]

theorem readMeta_text (hdots : ¬p.Dotted) (body : Bytes) {contentType : Str}
    (h : s.tree.node p.sidecar.segments = some (.file (codec.toVec contentType))) :
    s.readMeta p.text body = .ok ⟨digest body, body.length, contentType⟩ := by
  have hread : readAt s.tree (.parse (metaPath p.rel)) = .ok (codec.toVec contentType) := by
    rw [ResourcePath.parse_metaPath_rel, readAt_mk_false, readFile_of_file h]
  have htype : s.sidecarType p.text p.rel = contentType := by
    simp only [sidecarType, hread, codec.fromSlice_toVec, Option.getD_some]
  rw [readMeta, ResourcePath.resolve_text hdots, Except.map, htype]

/-- A resource and its sidecar, as the two files hold them. -/
structure Keeps (s : FsBackend digest codec) (p : ResourcePath) (body : Bytes)
    (contentType : Str) : Prop where
  body : s.tree.node p.segments = some (.file body)
  sidecar : s.tree.node p.sidecar.segments = some (.file (codec.toVec contentType))

/-- There is nothing at the path, and nothing in the way of making it. -/
structure Vacant (s : FsBackend digest codec) (p : ResourcePath) : Prop where
  missing : s.tree.node p.segments = none
  free : ¬s.tree.Blocked p.segments

theorem get_of_keeps (hdots : ¬p.Dotted) {body : Bytes} {contentType : Str}
    (h : s.Keeps p body contentType) :
    s.get p.text = .ok (body, ⟨digest body, body.length, contentType⟩) := by
  rw [get, readBody_text hdots, readFile_of_file h.body]
  change Except.map _ (s.readMeta p.text body) = _
  rw [readMeta_text hdots body h.sidecar]
  rfl

theorem get_of_vacant (hdots : ¬p.Dotted) (h : s.Vacant p) :
    s.get p.text = .error (.notFound p.text) := by
  rw [get, readBody_text hdots, readFile_of_missing h.missing h.free]
  rfl

theorem head_of_keeps (hdots : ¬p.Dotted) {body : Bytes} {contentType : Str}
    (h : s.Keeps p body contentType) :
    s.head p.text = .ok ⟨digest body, body.length, contentType⟩ := by
  rw [head, ResourcePath.resolve_text hdots]
  simp only [ResourcePath.parse_rel, statAt_of_file h.body, readAt_mk_false,
    readFile_of_file h.body]
  exact readMeta_text hdots body h.sidecar

theorem head_of_vacant (hdots : ¬p.Dotted) (h : s.Vacant p) :
    s.head p.text = .error (.notFound p.text) := by
  rw [head, ResourcePath.resolve_text hdots]
  simp only [ResourcePath.parse_rel, statAt_of_missing h.missing,
    FileTree.missing_eq_notFound h.free]
  rfl

theorem exists_of_keeps (hdots : ¬p.Dotted) {body : Bytes} {contentType : Str}
    (h : s.Keeps p body contentType) : s.exists p.text = .ok true := by
  rw [FsBackend.exists, ResourcePath.resolve_text hdots, Except.map, ResourcePath.parse_rel,
    statAt_of_file h.body]
  rfl

theorem exists_of_missing (hdots : ¬p.Dotted) (h : s.tree.node p.segments = none) :
    s.exists p.text = .ok false := by
  rw [FsBackend.exists, ResourcePath.resolve_text hdots, Except.map, ResourcePath.parse_rel,
    statAt_of_missing h]
  rfl

theorem not_prefix_dropLast : ¬p.segments <+: p.segments.dropLast := by
  intro hpre
  have hle := hpre.length_le
  have hpos := List.length_pos_of_ne_nil p.ne_nil
  rw [List.length_dropLast] at hle
  omega

/-- The first step of a put writes the file, below directories it makes. -/
theorem writeBody_text (hdots : ¬p.Dotted) (body : Bytes)
    (hfree : ¬s.tree.Blocked p.segments.dropLast) (hplace : s.tree.node p.segments ≠ some .dir) :
    ∃ t, s.writeBody p.text body = (.ok (), ⟨t⟩) ∧
      ∀ q, t.node q = if q = p.segments then some (.file body)
        else if q <+: p.segments.dropLast then some .dir else s.tree.node q := by
  obtain ⟨t, hmade, hnode⟩ := FileTree.createDirAll_of_not_blocked hfree
  have hparent : t.node p.segments.dropLast = some .dir := by
    rw [hnode, if_pos List.prefix_rfl]
  have hplace' : t.node p.segments ≠ some .dir := by
    rwa [hnode, if_neg not_prefix_dropLast]
  obtain ⟨t', hwritten, hnode'⟩ := FileTree.writeFile_of_parent p.ne_nil body hparent hplace'
  refine ⟨t', ?_, ?_⟩
  · rw [writeBody, ResourcePath.resolve_text hdots]
    simp only [ResourcePath.parse_rel, hmade, writeAt_mk_false, hwritten]
  · intro q
    rw [hnode', hnode]

/-- The second step of a put writes the sidecar. -/
theorem writeSidecar_text (hdots : ¬p.Dotted) (contentType : Str)
    (hparent : s.tree.node p.segments.dropLast = some .dir)
    (hplace : s.tree.node p.sidecar.segments ≠ some .dir) :
    ∃ t, s.writeSidecar p.text contentType = (.ok (), ⟨t⟩) ∧
      ∀ q, t.node q = if q = p.sidecar.segments then some (.file (codec.toVec contentType))
        else s.tree.node q := by
  obtain ⟨t, hwritten, hnode⟩ := FileTree.writeFile_of_parent p.sidecar.ne_nil
    (codec.toVec contentType) (by rwa [ResourcePath.dropLast_sidecar]) hplace
  refine ⟨t, ?_, hnode⟩
  rw [writeSidecar, ResourcePath.resolve_text hdots]
  simp only [ResourcePath.parse_metaPath_rel, writeAt_mk_false, hwritten]

theorem not_sidecar_prefix_dropLast : ¬p.sidecar.segments <+: p.segments.dropLast := by
  intro hpre
  have hle := hpre.length_le
  have hpos := List.length_pos_of_ne_nil p.ne_nil
  rw [List.length_dropLast, ResourcePath.length_sidecar] at hle
  omega

theorem put_text (hdots : ¬p.Dotted) (body : Bytes) (contentType : Str)
    (hfree : ¬s.tree.Blocked p.segments.dropLast) (hplace : s.tree.node p.segments ≠ some .dir)
    (hsidecar : s.tree.node p.sidecar.segments ≠ some .dir) :
    ∃ t, s.put p.text body contentType =
        (.ok ⟨digest body, body.length, contentType⟩, ⟨t⟩) ∧
      ∀ q, t.node q = if q = p.sidecar.segments then some (.file (codec.toVec contentType))
        else if q = p.segments then some (.file body)
        else if q <+: p.segments.dropLast then some .dir else s.tree.node q := by
  obtain ⟨t, hbody, hnode⟩ := writeBody_text hdots body hfree hplace
  have hne : p.sidecar.segments ≠ p.segments := fun h =>
    ResourcePath.sidecar_ne_self (ResourcePath.ext_segments h)
  have hparent : t.node p.segments.dropLast = some .dir := by
    rw [hnode, if_neg, if_pos List.prefix_rfl]
    intro heq
    have hlength := congrArg List.length heq
    have hpos := List.length_pos_of_ne_nil p.ne_nil
    rw [List.length_dropLast] at hlength
    omega
  have hplace' : t.node p.sidecar.segments ≠ some .dir := by
    rwa [hnode, if_neg hne, if_neg not_sidecar_prefix_dropLast]
  obtain ⟨t', hwritten, hnode'⟩ :=
    writeSidecar_text (s := (⟨t⟩ : FsBackend digest codec)) hdots contentType hparent hplace'
  refine ⟨t', ?_, ?_⟩
  · rw [put, hbody]
    simp only [hwritten]
  · intro q
    rw [hnode', hnode]

theorem delete_of_keeps (hdots : ¬p.Dotted) {body : Bytes} {contentType : Str}
    (h : s.Keeps p body contentType) :
    ∃ t, s.delete p.text = (.ok (), ⟨t⟩) ∧
      ∀ q, t.node q = if q = p.sidecar.segments then none
        else if q = p.segments then none else s.tree.node q := by
  obtain ⟨t, hremoved, hnode⟩ := FileTree.removeFile_of_file h.body
  have hne : p.sidecar.segments ≠ p.segments := fun heq =>
    ResourcePath.sidecar_ne_self (ResourcePath.ext_segments heq)
  have hsidecar : t.node p.sidecar.segments = some (.file (codec.toVec contentType)) := by
    rw [hnode, if_neg hne, h.sidecar]
  obtain ⟨t', hremoved', hnode'⟩ := FileTree.removeFile_of_file hsidecar
  refine ⟨t', ?_, ?_⟩
  · rw [delete, ResourcePath.resolve_text hdots]
    simp only [ResourcePath.parse_rel, ResourcePath.parse_metaPath_rel, removeAt_mk_false,
      hremoved, hremoved']
  · intro q
    rw [hnode', hnode]

theorem delete_of_vacant (hdots : ¬p.Dotted) (h : s.Vacant p) :
    s.delete p.text = (.error (.notFound p.text), s) := by
  rw [delete, ResourcePath.resolve_text hdots]
  simp only [ResourcePath.parse_rel, removeAt_mk_false, FileTree.removeFile_of_none h.missing,
    FileTree.missing_eq_notFound h.free]
  rfl

end FsBackend

end SolidPod
