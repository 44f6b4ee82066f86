import SolidPod.Foundation.SplitRegister
import SolidPod.Storage.FsPaths

/-!
# Reads of a resource that is being written

A resource of the filesystem backend is a register in two cells, the file and
its sidecar: `put` writes the two in two steps, and `get` reads them in two.
Nothing holds the steps of one call together, so a `get` returns what one `put`
has written only in the schedules that match its two reads.
-/

namespace SolidPod

open Foundation Str SplitRegister

namespace FsBackend

variable {digest : Bytes → Str} {codec : SidecarCodec} {p : ResourcePath}
  {s : FsBackend digest codec}

/-- The steps of `put` and `get` at a path. -/
def pathAccess (p : ResourcePath) : Access (FsBackend digest codec) Bytes Str where
  writeFirst s body := (s.writeBody p.text body).2
  writeSecond s contentType := (s.writeSidecar p.text contentType).2
  readFirst s := (s.readBody p.text).toOption
  readSecond s := s.sidecarType p.text p.rel

/-- Nothing is in the way of the two files of a resource. -/
structure Unobstructed (p : ResourcePath) (s : FsBackend digest codec) : Prop where
  free : ¬s.tree.Blocked p.segments.dropLast
  body : s.tree.node p.segments ≠ some .dir
  sidecar : s.tree.node p.sidecar.segments ≠ some .dir

/-- The directory of the resource is there as well. -/
structure Opened (p : ResourcePath) (s : FsBackend digest codec) : Prop
    extends Unobstructed p s where
  parent : s.tree.node p.segments.dropLast = some .dir

theorem segments_ne_sidecar : p.segments ≠ p.sidecar.segments := fun h =>
  ResourcePath.sidecar_ne_self (ResourcePath.ext_segments h.symm)

theorem not_blocked_of_parent {t : FileTree Str Bytes} {names : List Str}
    (h : t.node names = some .dir) : ¬t.Blocked names := by
  rintro ⟨q, hq, b, hfile⟩
  have hpre : q <+: names := (List.mem_inits q names).1 hq
  have hdir : t.node q = some .dir := by
    by_cases heq : q = names
    · rw [heq, h]
    · exact t.node_of_prefix hpre heq (by rw [h]; simp)
  rw [hfile] at hdir
  exact absurd hdir (by simp)

theorem readFile_congr {t t' : FileTree Str Bytes} {names : List Str}
    (h : t'.node names = t.node names) :
    (t'.readFile names).toOption = (t.readFile names).toOption := by
  rw [FileTree.readFile, FileTree.readFile, h]
  rcases t.node names with _ | ⟨b⟩ | _
  · rfl
  · rfl
  · rfl

theorem readFirst_eq (hdots : ¬p.Dotted) :
    (pathAccess p).readFirst s = (s.tree.readFile p.segments).toOption := by
  change (s.readBody p.text).toOption = _
  rw [readBody_text hdots]
  cases s.tree.readFile p.segments with
  | error e => rfl
  | ok b => rfl

theorem readSecond_eq : (pathAccess p).readSecond s =
    ((s.tree.readFile p.sidecar.segments).toOption.bind codec.fromSlice).getD
      ((Ldp.inferDotfileContentType p.text).getD "application/octet-stream") := by
  change s.sidecarType p.text p.rel = _
  rw [sidecarType, ResourcePath.parse_metaPath_rel, readAt_mk_false]
  cases s.tree.readFile p.sidecar.segments with
  | error e => rfl
  | ok bytes => rfl

/-- A `get` takes the two reading steps. -/
theorem get_eq_reads (hdots : ¬p.Dotted) : (s.get p.text).toOption =
    ((pathAccess p).readFirst s).map fun body =>
      (body, ⟨digest body, body.length, (pathAccess p).readSecond s⟩) := by
  change _ = ((s.readBody p.text).toOption).map _
  rw [get]
  cases s.readBody p.text with
  | error e => rfl
  | ok body =>
      simp only
      rw [readMeta, ResourcePath.resolve_text hdots]
      rfl

theorem pathAccess_lawful (hdots : ¬p.Dotted) :
    (pathAccess p : Access (FsBackend digest codec) Bytes Str).Lawful (Unobstructed p)
      (Opened p) where
  ready_of_opened s h := h.toUnobstructed
  opened_writeFirst s body h := by
    obtain ⟨t, hwrite, hnode⟩ := writeBody_text hdots body h.free h.body
    change Opened p (s.writeBody p.text body).2
    rw [hwrite]
    have hparent : t.node p.segments.dropLast = some .dir := by
      rw [hnode, if_neg, if_pos List.prefix_rfl]
      intro heq
      exact not_prefix_dropLast ⟨[], by rw [List.append_nil, heq]⟩
    refine ⟨⟨not_blocked_of_parent hparent, ?_, ?_⟩, hparent⟩
    · rw [hnode, if_pos rfl]
      simp
    · rw [hnode, if_neg segments_ne_sidecar.symm, if_neg not_sidecar_prefix_dropLast]
      exact h.sidecar
  opened_writeSecond s contentType h := by
    obtain ⟨t, hwrite, hnode⟩ := writeSidecar_text hdots contentType h.parent h.sidecar
    change Opened p (s.writeSidecar p.text contentType).2
    rw [hwrite]
    have hparent : t.node p.segments.dropLast = some .dir := by
      rw [hnode, if_neg, h.parent]
      intro heq
      exact not_sidecar_prefix_dropLast ⟨[], by rw [List.append_nil, heq]⟩
    refine ⟨⟨not_blocked_of_parent hparent, ?_, ?_⟩, hparent⟩
    · rw [hnode, if_neg segments_ne_sidecar]
      exact h.body
    · rw [hnode, if_pos rfl]
      simp
  readFirst_writeFirst s body h := by
    obtain ⟨t, hwrite, hnode⟩ := writeBody_text hdots body h.free h.body
    change (pathAccess p).readFirst (s.writeBody p.text body).2 = some body
    rw [hwrite, readFirst_eq hdots, readFile_of_file (by rw [hnode, if_pos rfl])]
    rfl
  readSecond_writeFirst s body h := by
    obtain ⟨t, hwrite, hnode⟩ := writeBody_text hdots body h.free h.body
    change (pathAccess p).readSecond (s.writeBody p.text body).2 = _
    have hsame : t.node p.sidecar.segments = s.tree.node p.sidecar.segments := by
      rw [hnode, if_neg segments_ne_sidecar.symm, if_neg not_sidecar_prefix_dropLast]
    rw [hwrite, readSecond_eq, readSecond_eq, readFile_congr hsame]
  readFirst_writeSecond s contentType h := by
    obtain ⟨t, hwrite, hnode⟩ := writeSidecar_text hdots contentType h.parent h.sidecar
    change (pathAccess p).readFirst (s.writeSidecar p.text contentType).2 = _
    have hsame : t.node p.segments = s.tree.node p.segments := by
      rw [hnode, if_neg segments_ne_sidecar]
    rw [hwrite, readFirst_eq hdots, readFirst_eq hdots, readFile_congr hsame]
  readSecond_writeSecond s contentType h := by
    obtain ⟨t, hwrite, hnode⟩ := writeSidecar_text hdots contentType h.parent h.sidecar
    change (pathAccess p).readSecond (s.writeSidecar p.text contentType).2 = contentType
    rw [hwrite, readSecond_eq, readFile_of_file (by rw [hnode, if_pos rfl])]
    simp only [Except.toOption, Option.bind_some, codec.fromSlice_toVec, Option.getD_some]

theorem unobstructed_empty (p : ResourcePath) :
    Unobstructed p (empty : FsBackend digest codec) where
  free := by
    rintro ⟨q, hq, b, hfile⟩
    by_cases hnil : q = []
    · rw [hnil, FileTree.node_nil] at hfile
      exact absurd hfile (by simp)
    · rw [empty, FileTree.node_empty hnil] at hfile
      exact absurd hfile (by simp)
  body := by
    rw [empty, FileTree.node_empty p.ne_nil]
    simp
  sidecar := by
    rw [empty, FileTree.node_empty p.sidecar.ne_nil]
    simp

/-- A `put` takes the two writing steps. -/
theorem put_eq_writes (hdots : ¬p.Dotted) (h : Unobstructed p s) (body : Bytes)
    (contentType : Str) : (s.put p.text body contentType).2 =
      (pathAccess p).writeSecond ((pathAccess p).writeFirst s body) contentType := by
  obtain ⟨t, hbody, -⟩ := writeBody_text hdots body h.free h.body
  obtain ⟨t', hput, -⟩ := put_text hdots body contentType h.free h.body h.sidecar
  change _ = ((s.writeBody p.text body).2.writeSidecar p.text contentType).2
  rw [put, hbody] at hput ⊢
  simp only at hput ⊢
  rcases hside : (⟨t⟩ : FsBackend digest codec).writeSidecar p.text contentType with ⟨_ | _, s'⟩
  · rfl
  · rfl

/-- No `get` is torn, and no failing `put` leaves anything behind, whatever is
written: this is so in the schedules, and in no other, in which the `put` that
wrote the file last before the first read of a `get` is the one that wrote the
sidecar last before its second read, and no `put` fails at its second step
unless another one has written since its first. -/
theorem fsBackend_untorn_iff (digest : Bytes → Str) (codec : SidecarCodec) (p : ResourcePath)
    (hdots : ¬p.Dotted) {es : List (Event ℕ ℕ)} (h : Interleaving es) :
    (∀ (s : FsBackend digest codec) (val : ℕ → Bytes × Str), Unobstructed p s →
      Untorn (pathAccess p) val s es) ↔ Matched es ∧ FailsOvertaken es := by
  have hlawful : (pathAccess p : Access (FsBackend digest codec) Bytes Str).Lawful
    (Unobstructed p) (Opened p) := pathAccess_lawful hdots
  constructor
  · intro huntorn
    -- the resource is stored empty, and each put writes parts of a length of its own
    have hempty : Unobstructed p (empty : FsBackend digest codec) := unobstructed_empty p
    have hopened := hlawful.opened_writeFirst empty [] hempty
    have hready := hlawful.ready_of_opened _ (hlawful.opened_writeSecond _ [] hopened)
    refine matched_of_untorn hlawful hready h (f := fun i => List.replicate (i + 1) 0)
      (g := fun i => List.replicate (i + 1) 'a') (a := []) (fun i => rfl) ?_ ?_ ?_ ?_ ?_
      (huntorn _ (fun i => (List.replicate (i + 1) 0, List.replicate (i + 1) 'a')) hready)
    · intro i j hij
      have hlength := congrArg List.length hij
      simpa using hlength
    · intro i j hij
      have hlength := congrArg List.length hij
      simpa using hlength
    · rw [hlawful.readFirst_writeSecond _ _ hopened, hlawful.readFirst_writeFirst _ _ hempty]
    · intro i
      simp
    · intro i
      rw [hlawful.readSecond_writeSecond _ _ hopened]
      simp
  · rintro ⟨hmatched, hfails⟩ s val hs
    exact untorn_of_matched hlawful hs h hmatched hfails

/-- A `put` finishes before a `get` starts. -/
theorem interleaving_put_get :
    Interleaving ([.writeFirst 0, .writeSecond 0, .readFirst 0, .readSecond 0] :
      List (Event ℕ ℕ)) :=
  (((interleaving_nil.concat (e := .writeFirst 0) (by decide)).concat (e := .writeSecond 0)
    (by decide)).concat (e := .readFirst 0) (by decide)).concat (e := .readSecond 0) (by decide)

theorem fsBackend_untorn_iff_put_get :
    (∀ (s : FsBackend (fun _ => "etag") plainSidecar) (val : ℕ → Bytes × Str),
      Unobstructed pathX s → Untorn (pathAccess pathX) val s
        [.writeFirst 0, .writeSecond 0, .readFirst 0, .readSecond 0]) ↔
      Matched ([.writeFirst 0, .writeSecond 0, .readFirst 0, .readSecond 0] :
        List (Event ℕ ℕ)) ∧
      FailsOvertaken ([.writeFirst 0, .writeSecond 0, .readFirst 0, .readSecond 0] :
        List (Event ℕ ℕ)) :=
  fsBackend_untorn_iff (fun _ => "etag") plainSidecar pathX (by decide) interleaving_put_get

/-- A `get` that comes between the two steps of a `put`. -/
def tornSchedule : List (Event ℕ ℕ) := [.writeFirst 0, .readFirst 0, .readSecond 0]

theorem interleaving_tornSchedule : Interleaving tornSchedule :=
  ((interleaving_nil.concat (e := .writeFirst 0) (by decide)).concat (e := .readFirst 0)
    (by decide)).concat (e := .readSecond 0) (by decide)

/-- `/x` is stored. -/
def storedX : FsBackend (fun _ => "etag") plainSidecar :=
  (empty.put pathX.text [111, 108, 100] "text/plain").2

theorem unobstructed_storedX : Unobstructed pathX storedX := by
  have hdots : ¬pathX.Dotted := by decide
  have hempty : Unobstructed pathX (empty : FsBackend (fun _ => "etag") plainSidecar) :=
    unobstructed_empty pathX
  have hlawful : (pathAccess pathX :
      Access (FsBackend (fun _ => "etag") plainSidecar) Bytes Str).Lawful
    (Unobstructed pathX) (Opened pathX) := pathAccess_lawful hdots
  rw [storedX, put_eq_writes hdots hempty]
  exact (hlawful.opened_writeSecond _ _ (hlawful.opened_writeFirst _ _ hempty)).toUnobstructed

/-- The `get` returns the new body with the content type of the old one. -/
theorem fsBackend_torn :
    ¬∀ (digest : Bytes → Str) (codec : SidecarCodec) (p : ResourcePath)
      (s : FsBackend digest codec) (val : ℕ → Bytes × Str) (es : List (Event ℕ ℕ)),
      ¬p.Dotted → Unobstructed p s → Interleaving es → Untorn (pathAccess p) val s es := by
  intro h
  have huntorn := h (fun _ => "etag") plainSidecar pathX storedX
    (fun _ => ([110, 101, 119], "text/html")) tornSchedule (by decide) unobstructed_storedX
    interleaving_tornSchedule
  rcases huntorn.read 0 [110, 101, 119] "text/plain" (by decide) with ⟨hbody, -⟩ | ⟨i, -, hi, -⟩
  · exact absurd hbody (by decide)
  · exact absurd hi (by simp [tornSchedule])

end FsBackend

end SolidPod
