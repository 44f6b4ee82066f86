import SolidPod.Storage.FsPaths
import SolidPod.Storage.Memory

/-!
# The two backends hold the same entries

The in-memory backend is a map from paths to entries; the filesystem backend
keeps each entry in two files of one tree. `Mirrors` says that the tree holds
the entries of the map and no other file. It is kept by every call whose path
stays clear of what the filesystem backend keeps for itself, and such a call is
answered alike.
-/

namespace SolidPod

open Foundation Str

variable {digest : Bytes → Str} {codec : SidecarCodec}

namespace MemoryBackend

variable {m : MemoryBackend digest} {p q : ResourcePath}

/-- The entry at a canonical path. -/
def entry (m : MemoryBackend digest) (p : ResourcePath) : Option Entry := m.data.lookup p.text

theorem stored_iff : Stored m p.text ↔ m.entry p ≠ none := by
  rw [Stored, storage_get, get_of_isAbsolute m ResourcePath.isAbsolute_text, entry]
  cases m.data.lookup p.text with
  | none => simp
  | some e => simp

theorem stored_of_entry {e : Entry} (h : m.entry p = some e) : Stored m p.text := by
  rw [stored_iff, h]
  exact Option.some_ne_none e

theorem exists_entry (h : Stored m p.text) : ∃ e, m.entry p = some e :=
  Option.ne_none_iff_exists'.1 (stored_iff.1 h)

theorem entry_put (body : Bytes) (contentType : Str) :
    (m.put p.text body contentType).2.entry q =
      if q = p then some (newEntry digest body contentType) else m.entry q := by
  rw [entry, put, normalize_of_isAbsolute ResourcePath.isAbsolute_text]
  split_ifs with h
  · rw [h, AList.lookup_insert]
  · rw [AList.lookup_insert_ne (fun htext => h (ResourcePath.text_injective htext)), entry]

theorem delete_of_entry {e : Entry} (h : m.entry p = some e) :
    m.delete p.text = (.ok (), ⟨m.data.erase p.text⟩) := by
  rw [delete, normalize_of_isAbsolute ResourcePath.isAbsolute_text]
  simp only [show m.data.lookup p.text = some e from h]

theorem delete_of_none (h : m.entry p = none) :
    m.delete p.text = (.error (.notFound p.text), m) := by
  rw [delete, normalize_of_isAbsolute ResourcePath.isAbsolute_text]
  simp only [show m.data.lookup p.text = none from h]

theorem entry_erase : entry (⟨m.data.erase p.text⟩ : MemoryBackend digest) q =
    if q = p then none else m.entry q := by
  rw [entry]
  split_ifs with h
  · rw [h, AList.lookup_erase]
  · rw [AList.lookup_erase_ne (fun htext => h (ResourcePath.text_injective htext)), entry]

theorem get_text : m.get p.text = match m.entry p with
    | some e => .ok (e.body, e.metadata)
    | none => .error (.notFound p.text) :=
  get_of_isAbsolute m ResourcePath.isAbsolute_text

theorem head_text : m.head p.text = match m.entry p with
    | some e => .ok e.metadata
    | none => .error (.notFound p.text) := by
  rw [head, normalize_of_isAbsolute ResourcePath.isAbsolute_text]
  rfl

theorem exists_text : m.exists p.text = .ok (m.entry p).isSome := by
  rw [MemoryBackend.exists, normalize_of_isAbsolute ResourcePath.isAbsolute_text]
  rfl

end MemoryBackend

/-- The filesystem backend holds the entries of the in-memory one, each in its
two files, and no other file; its directories lie above resources of the run. -/
structure Mirrors (run : ResourcePath → Prop) (s : FsBackend digest codec)
    (m : MemoryBackend digest) : Prop where
  keys : ∀ k ∈ m.data, ∃ p, run p ∧ k = p.text
  keeps : ∀ p e, m.entry p = some e →
    s.Keeps p e.body e.metadata.contentType ∧
      e.metadata = ⟨digest e.body, e.body.length, e.metadata.contentType⟩
  files : ∀ k b, s.tree.node k = some (.file b) →
    ∃ p : ResourcePath, Stored m p.text ∧ (k = p.segments ∨ k = p.sidecar.segments)
  dirs : ∀ k, s.tree.node k = some .dir → k = [] ∨
    ∃ p, run p ∧ k <+: p.segments ∧ k ≠ p.segments
  apart : ∀ p q : ResourcePath, Stored m p.text → Stored m q.text → p.sidecar ≠ q

namespace Mirrors

variable {run : ResourcePath → Prop} {s : FsBackend digest codec} {m : MemoryBackend digest}
  {p : ResourcePath}

theorem empty : Mirrors run (FsBackend.empty : FsBackend digest codec) MemoryBackend.empty where
  keys := by
    intro k hk
    exact absurd hk (AList.notMem_empty k)
  keeps := by
    intro p e he
    exact absurd he (by simp [MemoryBackend.entry, MemoryBackend.empty])
  files := by
    intro k b hk
    by_cases hnil : k = []
    · rw [hnil, FileTree.node_nil] at hk
      exact absurd hk (by simp)
    · rw [FsBackend.empty, FileTree.node_empty hnil] at hk
      exact absurd hk (by simp)
  dirs := by
    intro k hk
    by_cases hnil : k = []
    · exact Or.inl hnil
    · rw [FsBackend.empty, FileTree.node_empty hnil] at hk
      exact absurd hk (by simp)
  apart := by
    intro p q hp
    rw [MemoryBackend.stored_iff] at hp
    exact absurd rfl hp

theorem run_of_stored (h : Mirrors run s m) {q : ResourcePath} (hq : Stored m q.text) : run q := by
  obtain ⟨e, he⟩ := MemoryBackend.exists_entry hq
  have hmem : q.text ∈ m.data := AList.lookup_isSome.1 (by
    rw [show m.data.lookup q.text = some e from he]
    rfl)
  obtain ⟨p, hp, htext⟩ := h.keys q.text hmem
  rwa [ResourcePath.text_injective htext]

/-- No resource of the run lies below another one. -/
abbrev Free (run : ResourcePath → Prop) : Prop :=
  ∀ p q : ResourcePath, run p → run q → p.segments <+: q.segments → p = q

theorem node_ne_dir (h : Mirrors run s m) (hfree : Free run) (hp : run p) :
    s.tree.node p.segments ≠ some .dir := by
  intro hdir
  rcases h.dirs p.segments hdir with hnil | ⟨q, hq, hpre, hne⟩
  · exact p.ne_nil hnil
  · exact hne (congrArg ResourcePath.segments (hfree p q hp hq hpre))

theorem node_eq_none (h : Mirrors run s m) (hfree : Free run) (hp : run p)
    (hentry : m.entry p = none) (hsidecar : ∀ q : ResourcePath, Stored m q.text → q.sidecar ≠ p) :
    s.tree.node p.segments = none := by
  rcases hnode : s.tree.node p.segments with _ | ⟨b⟩ | _
  · rfl
  · obtain ⟨q, hq, hk | hk⟩ := h.files p.segments b hnode
    · rw [← ResourcePath.ext_segments hk, MemoryBackend.stored_iff] at hq
      exact absurd hentry hq
    · exact absurd (ResourcePath.ext_segments hk).symm (hsidecar q hq)
  · exact absurd hnode (h.node_ne_dir hfree hp)

/-- No file is in the way of a resource that keeps clear of the sidecars. -/
theorem not_blocked (h : Mirrors run s m) (hfree : Free run) (hp : run p)
    (hsidecar : ∀ q : ResourcePath, Stored m q.text → ¬q.sidecar.segments <+: p.segments)
    {k : List Str} (hk : k <+: p.segments) (hentry : k = p.segments → m.entry p = none) :
    ¬s.tree.Blocked k := by
  rintro ⟨r, hr, b, hfile⟩
  have hpre : r <+: k := (List.mem_inits r k).1 hr
  obtain ⟨q, hq, rfl | rfl⟩ := h.files r b hfile
  · have heq : q = p := hfree q p (h.run_of_stored hq) hp (hpre.trans hk)
    subst heq
    have hsame : k = q.segments := hk.eq_of_length (le_antisymm hk.length_le hpre.length_le)
    rw [MemoryBackend.stored_iff] at hq
    exact hq (hentry hsame)
  · exact hsidecar q hq (hpre.trans hk)

theorem vacant (h : Mirrors run s m) (hfree : Free run) (hp : run p) (hentry : m.entry p = none)
    (hsidecar : ∀ q : ResourcePath, Stored m q.text → ¬q.sidecar.segments <+: p.segments) :
    s.Vacant p where
  missing := h.node_eq_none hfree hp hentry fun q hq heq =>
    hsidecar q hq (heq ▸ List.prefix_rfl)
  free := h.not_blocked hfree hp hsidecar List.prefix_rfl fun _ => hentry

theorem get_eq (h : Mirrors run s m) (hfree : Free run) (hp : run p) (hdots : ¬p.Dotted)
    (hsidecar : ∀ q : ResourcePath, Stored m q.text → ¬q.sidecar.segments <+: p.segments) :
    s.get p.text = m.get p.text := by
  rw [MemoryBackend.get_text]
  cases hentry : m.entry p with
  | none => exact FsBackend.get_of_vacant hdots (h.vacant hfree hp hentry hsidecar)
  | some e =>
      obtain ⟨hkeeps, hmeta⟩ := h.keeps p e hentry
      rw [FsBackend.get_of_keeps hdots hkeeps, ← hmeta]

theorem head_eq (h : Mirrors run s m) (hfree : Free run) (hp : run p) (hdots : ¬p.Dotted)
    (hsidecar : ∀ q : ResourcePath, Stored m q.text → ¬q.sidecar.segments <+: p.segments) :
    s.head p.text = m.head p.text := by
  rw [MemoryBackend.head_text]
  cases hentry : m.entry p with
  | none => exact FsBackend.head_of_vacant hdots (h.vacant hfree hp hentry hsidecar)
  | some e =>
      obtain ⟨hkeeps, hmeta⟩ := h.keeps p e hentry
      rw [FsBackend.head_of_keeps hdots hkeeps, ← hmeta]

theorem exists_eq (h : Mirrors run s m) (hfree : Free run) (hp : run p) (hdots : ¬p.Dotted)
    (hsidecar : ∀ q : ResourcePath, Stored m q.text → q.sidecar ≠ p) :
    s.exists p.text = m.exists p.text := by
  rw [MemoryBackend.exists_text]
  cases hentry : m.entry p with
  | none => exact FsBackend.exists_of_missing hdots (h.node_eq_none hfree hp hentry hsidecar)
  | some e => exact FsBackend.exists_of_keeps hdots (h.keeps p e hentry).1

/-- A put is answered alike and leaves the two stores alike. -/
theorem put (h : Mirrors run s m) (hfree : Free run) (hp : run p) (hdots : ¬p.Dotted)
    (hsidecar : ∀ q : ResourcePath, Stored m q.text →
      ¬q.sidecar.segments <+: p.segments ∧ p.sidecar ≠ q)
    (hplace : s.tree.node p.sidecar.segments ≠ some .dir) (body : Bytes) (contentType : Str) :
    (s.put p.text body contentType).1 = (m.put p.text body contentType).1 ∧
      Mirrors run (s.put p.text body contentType).2 (m.put p.text body contentType).2 := by
  have hdropLast : p.segments.dropLast <+: p.segments := List.dropLast_prefix _
  have hnotBlocked : ¬s.tree.Blocked p.segments.dropLast := by
    refine h.not_blocked hfree hp (fun q hq => (hsidecar q hq).1) hdropLast ?_
    intro heq
    have hlength := congrArg List.length heq
    have hpos := List.length_pos_of_ne_nil p.ne_nil
    rw [List.length_dropLast] at hlength
    omega
  obtain ⟨t, hput, hnode⟩ := FsBackend.put_text hdots body contentType hnotBlocked
    (h.node_ne_dir hfree hp) hplace
  have hstored : ∀ q : ResourcePath, Stored (m.put p.text body contentType).2 q.text ↔
      q = p ∨ Stored m q.text := by
    intro q
    rw [MemoryBackend.stored_iff, MemoryBackend.stored_iff, MemoryBackend.entry_put]
    split_ifs with hq
    · simp [hq]
    · simp [hq]
  rw [hput]
  refine ⟨rfl, ?_, ?_, ?_, ?_, ?_⟩
  · intro k hk
    rw [MemoryBackend.put, MemoryBackend.normalize_of_isAbsolute ResourcePath.isAbsolute_text,
      AList.mem_insert] at hk
    rcases hk with rfl | hk
    · exact ⟨p, hp, rfl⟩
    · exact h.keys k hk
  · intro q e he
    rw [MemoryBackend.entry_put] at he
    have hne : p.segments ≠ p.sidecar.segments := fun heq =>
      ResourcePath.sidecar_ne_self (ResourcePath.ext_segments heq.symm)
    split_ifs at he with hq
    · rw [Option.some.injEq] at he
      subst hq
      subst he
      refine ⟨⟨?_, ?_⟩, rfl⟩
      · rw [hnode, if_neg hne, if_pos rfl]
        rfl
      · rw [hnode, if_pos rfl]
        rfl
    · obtain ⟨hkeeps, hmeta⟩ := h.keeps q e he
      have hqs : Stored m q.text := MemoryBackend.stored_of_entry he
      refine ⟨⟨?_, ?_⟩, hmeta⟩
      · rw [hnode, if_neg, if_neg, if_neg, hkeeps.body]
        · intro hpre
          exact hq (hfree q p (h.run_of_stored hqs) hp (hpre.trans hdropLast))
        · exact fun heq => hq (ResourcePath.ext_segments heq)
        · exact fun heq => (hsidecar q hqs).2 (ResourcePath.ext_segments heq).symm
      · rw [hnode, if_neg, if_neg, if_neg, hkeeps.sidecar]
        · exact fun hpre => (hsidecar q hqs).1 (hpre.trans hdropLast)
        · intro heq
          exact (hsidecar q hqs).1 (heq ▸ List.prefix_rfl)
        · intro heq
          exact hq (ResourcePath.sidecar_injective (ResourcePath.ext_segments heq))
  · intro k b hk
    rw [hnode] at hk
    split_ifs at hk with hside hself
    · exact ⟨p, (hstored p).2 (Or.inl rfl), Or.inr hside⟩
    · exact ⟨p, (hstored p).2 (Or.inl rfl), Or.inl hself⟩
    · exact absurd hk (by simp)
    · obtain ⟨q, hq, hwhere⟩ := h.files k b hk
      exact ⟨q, (hstored q).2 (Or.inr hq), hwhere⟩
  · intro k hk
    rw [hnode] at hk
    split_ifs at hk with hside hself hpre
    · exact absurd hk (by simp)
    · exact absurd hk (by simp)
    · exact Or.inr ⟨p, hp, hpre.trans hdropLast, hself⟩
    · exact h.dirs k hk
  · intro q r hq hr
    rw [hstored] at hq hr
    rcases hq with rfl | hq <;> rcases hr with rfl | hr
    · exact ResourcePath.sidecar_ne_self
    · exact (hsidecar r hr).2
    · intro heq
      exact (hsidecar q hq).1 (heq ▸ List.prefix_rfl)
    · exact h.apart q r hq hr

/-- A delete is answered alike and leaves the two stores alike. -/
theorem delete (h : Mirrors run s m) (hfree : Free run) (hp : run p) (hdots : ¬p.Dotted)
    (hsidecar : ∀ q : ResourcePath, Stored m q.text → ¬q.sidecar.segments <+: p.segments) :
    (s.delete p.text).1 = (m.delete p.text).1 ∧
      Mirrors run (s.delete p.text).2 (m.delete p.text).2 := by
  cases hentry : m.entry p with
  | none =>
      rw [FsBackend.delete_of_vacant hdots (h.vacant hfree hp hentry hsidecar),
        MemoryBackend.delete_of_none hentry]
      exact ⟨rfl, h⟩
  | some e =>
      have hps : Stored m p.text := MemoryBackend.stored_of_entry hentry
      obtain ⟨hkeeps, -⟩ := h.keeps p e hentry
      obtain ⟨t, hdelete, hnode⟩ := FsBackend.delete_of_keeps hdots hkeeps
      have hstored : ∀ q : ResourcePath,
          Stored (⟨m.data.erase p.text⟩ : MemoryBackend digest) q.text ↔
            q ≠ p ∧ Stored m q.text := by
        intro q
        rw [MemoryBackend.stored_iff, MemoryBackend.stored_iff, MemoryBackend.entry_erase]
        split_ifs with hq
        · simp [hq]
        · simp [hq]
      rw [hdelete, MemoryBackend.delete_of_entry hentry]
      refine ⟨rfl, ?_, ?_, ?_, ?_, ?_⟩
      · intro k hk
        exact h.keys k (AList.mem_erase.1 hk).2
      · intro q f hf
        rw [MemoryBackend.entry_erase] at hf
        split_ifs at hf with hq
        obtain ⟨hkeepsq, hmeta⟩ := h.keeps q f hf
        have hqs : Stored m q.text := MemoryBackend.stored_of_entry hf
        refine ⟨⟨?_, ?_⟩, hmeta⟩
        · rw [hnode, if_neg, if_neg, hkeepsq.body]
          · exact fun heq => hq (ResourcePath.ext_segments heq)
          · exact fun heq => h.apart p q hps hqs (ResourcePath.ext_segments heq).symm
        · rw [hnode, if_neg, if_neg, hkeepsq.sidecar]
          · exact fun heq => h.apart q p hqs hps (ResourcePath.ext_segments heq)
          · intro heq
            exact hq (ResourcePath.sidecar_injective (ResourcePath.ext_segments heq))
      · intro k b hk
        rw [hnode] at hk
        split_ifs at hk with hside hself
        obtain ⟨q, hq, hwhere⟩ := h.files k b hk
        refine ⟨q, (hstored q).2 ⟨?_, hq⟩, hwhere⟩
        rintro rfl
        rcases hwhere with heq | heq
        · exact hself heq
        · exact hside heq
      · intro k hk
        rw [hnode] at hk
        split_ifs at hk with hside hself
        exact h.dirs k hk
      · intro q r hq hr
        exact h.apart q r ((hstored q).1 hq).2 ((hstored r).1 hr).2

end Mirrors

/-- How a listing of `c` names what lies at or below `c.segments ++ [n]`. -/
def listedAs (n : Str) (rest : List Str) : Str := if rest = [] then n else n ++ ['/']

theorem childName_text {c q : ResourcePath} {name : Str} :
    MemoryBackend.childName (c.text ++ ['/']) q.text = some name ↔
      ∃ n rest, q.segments = c.segments ++ n :: rest ∧ name = listedAs n rest := by
  have hbelow : ∀ n rest, q.segments = c.segments ++ n :: rest →
      MemoryBackend.childName (c.text ++ ['/']) q.text = some (listedAs n rest) := by
    intro n rest hq
    have hseg : IsSegment n := q.proper n (by simp [hq])
    have htext : q.text = (c.text ++ ['/']) ++ (n ++ pathText rest) := by
      rw [ResourcePath.text, hq, pathText_append, pathText_cons, ResourcePath.text]
      simp
    obtain ⟨a, n', rfl⟩ := List.exists_cons_of_ne_nil hseg.ne_nil
    rw [MemoryBackend.childName, htext, stripPrefix_append]
    cases rest with
    | nil =>
        rw [pathText, List.flatMap_nil, List.append_nil]
        simp only [splitOnce_eq_none hseg.slash]
        rfl
    | cons b rest =>
        rw [pathText_cons]
        have hsplit := splitOnce_append hseg.slash (b ++ pathText rest)
        rw [List.cons_append] at hsplit ⊢
        simp only [hsplit]
        rfl
  constructor
  · intro h
    cases hstrip : stripPrefix (c.text ++ ['/']) q.text with
    | none =>
        rw [MemoryBackend.childName, hstrip] at h
        exact absurd h (by simp)
    | some r =>
        have htext : pathText q.segments = pathText c.segments ++ '/' :: r := by
          have := stripPrefix_eq_some.1 hstrip
          rwa [List.append_assoc, List.singleton_append] at this
        obtain ⟨n, rest, hq, -⟩ := pathText_eq_append_slash c.slash_notMem q.slash_notMem htext
        rw [hbelow n rest hq, Option.some.injEq] at h
        exact ⟨n, rest, hq, h.symm⟩
  · rintro ⟨n, rest, hq, rfl⟩
    exact hbelow n rest hq

theorem list_text (m : MemoryBackend digest) (c : ResourcePath) :
    m.list c.text = .ok
      ((m.data.keys.filterMap (MemoryBackend.childName (c.text ++ ['/']))).toFinset.sort
        (· ≤ ·)) := by
  have hend : endsWith "/" c.text = false := by
    have hne : c.segments.getLast c.ne_nil ≠ [] :=
      (c.proper _ (List.getLast_mem c.ne_nil)).ne_nil
    have hslash := (c.proper _ (List.getLast_mem c.ne_nil)).slash
    rw [Bool.eq_false_iff, endsWith, ne_eq, List.isSuffixOf_iff_suffix]
    intro hsuffix
    obtain ⟨front, hfront⟩ := hsuffix
    have hlast := congrArg List.getLast? hfront
    rw [c.text_eq_dropLast, List.getLast?_append, List.getLast?_append, List.getLast?_cons,
      List.getLast?_eq_some_getLast hne] at hlast
    have hlast : some '/' = some ((c.segments.getLast c.ne_nil).getLast hne) := hlast
    rw [Option.some.injEq] at hlast
    exact hslash (hlast ▸ List.getLast_mem hne)
  rw [MemoryBackend.list, MemoryBackend.normalize_of_isAbsolute ResourcePath.isAbsolute_text]
  simp only [hend]
  rfl

/-- Two lists of the same names, sorted, are the same list. -/
theorem insertionSort_eq_sort {A B : List Str} (hA : A.Nodup) (h : ∀ x, x ∈ A ↔ x ∈ B) :
    A.insertionSort (· ≤ ·) = B.toFinset.sort (· ≤ ·) := by
  refine List.Perm.eq_of_pairwise' (r := (· ≤ ·)) (List.pairwise_insertionSort _ A)
    (Finset.pairwise_sort _ _) ?_
  refine (List.perm_insertionSort _ A).trans ?_
  rw [List.perm_ext_iff_of_nodup hA (Finset.sort_nodup _ _)]
  intro x
  rw [h x, Finset.mem_sort, List.mem_toFinset]

namespace Mirrors

variable {run : ResourcePath → Prop} {s : FsBackend digest codec} {m : MemoryBackend digest}
  {c : ResourcePath}

/-- The names the filesystem backend shows of the nodes below `c`. -/
def shown (s : FsBackend digest codec) (c : ResourcePath) : List Str :=
  ((s.tree.children c.segments).filter fun e => !endsWith metaSuffix e.1).map
    FsBackend.entryName

theorem mem_shown {name : Str} : name ∈ shown s c ↔ ∃ n v,
    s.tree.node (c.segments ++ [n]) = some v ∧ endsWith metaSuffix n = false ∧
      name = FsBackend.entryName (n, v) := by
  simp only [shown, List.mem_map, List.mem_filter, Prod.exists, FileTree.mem_children,
    Bool.not_eq_true']
  constructor
  · rintro ⟨n, v, ⟨hnode, hsuffix⟩, rfl⟩
    exact ⟨n, v, hnode, hsuffix, rfl⟩
  · rintro ⟨n, v, hnode, hsuffix, rfl⟩
    exact ⟨n, v, ⟨hnode, hsuffix⟩, rfl⟩

theorem slash_notMem_of_file (h : Mirrors run s m) {n : Str} {b : Bytes}
    (hn : s.tree.node (c.segments ++ [n]) = some (.file b)) : '/' ∉ n := by
  obtain ⟨q, -, hk | hk⟩ := h.files _ b hn
  · exact q.slash_notMem n (by simp [← hk])
  · exact q.sidecar.slash_notMem n (by simp [← hk])

theorem nodup_shown (h : Mirrors run s m) : (shown s c).Nodup := by
  refine List.Nodup.map_on ?_ ((s.tree.nodup_children c.segments).filter _)
  rintro ⟨n, v⟩ hv ⟨n', v'⟩ hv' heq
  rw [List.mem_filter, FileTree.mem_children] at hv hv'
  cases v with
  | file b =>
      have hslash := h.slash_notMem_of_file hv.1
      cases v' with
      | file b' =>
          have hn : n = n' := heq
          subst hn
          have hb := hv.1.symm.trans hv'.1
          rw [Option.some.injEq] at hb
          rw [hb]
      | dir =>
          have hn : n = n' ++ ['/'] := heq
          exact absurd (by rw [hn]; simp) hslash
  | dir =>
      cases v' with
      | file b' =>
          have hn : n ++ ['/'] = n' := heq
          exact absurd (by rw [← hn]; simp) (h.slash_notMem_of_file hv'.1)
      | dir =>
          have hn : n ++ ['/'] = n' ++ ['/'] := heq
          rw [List.append_cancel_right hn]

/-- Below a stored path, each name leads to a directory but the last one. -/
theorem node_of_stored (h : Mirrors run s m) {q : ResourcePath} (hq : Stored m q.text) {n : Str}
    {rest : List Str} (hsegments : q.segments = c.segments ++ n :: rest) :
    ∃ v, s.tree.node (c.segments ++ [n]) = some v ∧
      FsBackend.entryName (n, v) = listedAs n rest := by
  obtain ⟨e, he⟩ := MemoryBackend.exists_entry hq
  have hbody := (h.keeps q e he).1.body
  have hsplit : q.segments = (c.segments ++ [n]) ++ rest := by simp [hsegments]
  cases rest with
  | nil =>
      rw [List.append_nil] at hsplit
      exact ⟨.file e.body, by rw [← hsplit, hbody], rfl⟩
  | cons a rest =>
      refine ⟨.dir, ?_, rfl⟩
      refine s.tree.node_of_prefix ⟨a :: rest, hsplit.symm⟩ ?_ (by rw [hbody]; simp)
      intro heq
      rw [hsplit] at heq
      exact absurd (List.append_right_eq_self.1 heq.symm) (by simp)

theorem mem_shown_iff (h : Mirrors run s m)
    (hvisible : ∀ (q : ResourcePath) (n : Str), Stored m q.text →
      c.segments ++ [n] <+: q.segments → endsWith metaSuffix n = false)
    (hfull : ∀ n, s.tree.node (c.segments ++ [n]) = some .dir → endsWith metaSuffix n = false →
      ∃ q : ResourcePath, Stored m q.text ∧ c.segments ++ [n] <+: q.segments)
    (hclear : ∀ q : ResourcePath, Stored m q.text → ∀ n, s.tree.node (c.segments ++ [n]) =
      some .dir → q.segments ≠ c.segments ++ [n]) (name : Str) :
    name ∈ shown s c ↔ ∃ (q : ResourcePath) (n : Str) (rest : List Str), Stored m q.text ∧
      q.segments = c.segments ++ n :: rest ∧ name = listedAs n rest := by
  rw [mem_shown]
  constructor
  · rintro ⟨n, v, hnode, hsuffix, rfl⟩
    cases v with
    | file b =>
        obtain ⟨q, hq, hk | hk⟩ := h.files _ b hnode
        · exact ⟨q, n, [], hq, hk.symm, rfl⟩
        · rw [ResourcePath.endsWith_of_sidecar hk] at hsuffix
          exact absurd hsuffix (by simp)
    | dir =>
        obtain ⟨q, hq, rest, hrest⟩ := hfull n hnode hsuffix
        cases rest with
        | nil =>
            rw [List.append_nil] at hrest
            exact absurd hrest.symm (hclear q hq n hnode)
        | cons a rest => exact ⟨q, n, a :: rest, hq, by simp [← hrest], rfl⟩
  · rintro ⟨q, n, rest, hq, hsegments, rfl⟩
    obtain ⟨v, hnode, hname⟩ := h.node_of_stored hq hsegments
    exact ⟨n, v, hnode, hvisible q n hq ⟨rest, by simp [hsegments]⟩, hname.symm⟩

theorem list_eq (h : Mirrors run s m) (hdots : ¬c.Dotted)
    (hclear : ∀ q : ResourcePath, Stored m q.text →
      ¬q.segments <+: c.segments ∧ ¬q.sidecar.segments <+: c.segments)
    (hvisible : ∀ (q : ResourcePath) (n : Str), Stored m q.text →
      c.segments ++ [n] <+: q.segments → endsWith metaSuffix n = false)
    (hfull : ∀ n, s.tree.node (c.segments ++ [n]) = some .dir → endsWith metaSuffix n = false →
      ∃ q : ResourcePath, Stored m q.text ∧ c.segments ++ [n] <+: q.segments) :
    s.list c.text = m.list c.text := by
  have hfiles : ∀ q : ResourcePath, Stored m q.text → ∀ n,
      s.tree.node (c.segments ++ [n]) = some .dir → q.segments ≠ c.segments ++ [n] := by
    intro q hq n hdir heq
    obtain ⟨e, he⟩ := MemoryBackend.exists_entry hq
    rw [← heq, (h.keeps q e he).1.body] at hdir
    exact absurd hdir (by simp)
  have hsame : (shown s c).insertionSort (· ≤ ·) =
      (m.data.keys.filterMap (MemoryBackend.childName (c.text ++ ['/']))).toFinset.sort
        (· ≤ ·) := by
    refine insertionSort_eq_sort h.nodup_shown ?_
    intro name
    rw [h.mem_shown_iff hvisible hfull hfiles, List.mem_filterMap]
    constructor
    · rintro ⟨q, n, rest, hq, hsegments, rfl⟩
      refine ⟨q.text, ?_, childName_text.2 ⟨n, rest, hsegments, rfl⟩⟩
      obtain ⟨e, he⟩ := MemoryBackend.exists_entry hq
      exact AList.mem_keys.1 (AList.lookup_isSome.1 (by
        rw [show m.data.lookup q.text = some e from he]
        rfl))
    · rintro ⟨k, hk, hname⟩
      obtain ⟨q, -, rfl⟩ := h.keys k (AList.mem_keys.2 hk)
      obtain ⟨n, rest, hsegments, hlisted⟩ := childName_text.1 hname
      refine ⟨q, n, rest, ?_, hsegments, hlisted⟩
      rw [MemoryBackend.stored_iff, Option.ne_none_iff_isSome]
      exact AList.lookup_isSome.2 (AList.mem_keys.2 hk)
  have hnotBlocked : ¬s.tree.Blocked c.segments := by
    rintro ⟨r, hr, b, hfile⟩
    have hpre : r <+: c.segments := (List.mem_inits r c.segments).1 hr
    obtain ⟨q, hq, rfl | rfl⟩ := h.files r b hfile
    · exact (hclear q hq).1 hpre
    · exact (hclear q hq).2 hpre
  rw [list_text, ← hsame, FsBackend.list, ResourcePath.resolve_text hdots]
  simp only [ResourcePath.parse_rel, FileTree.readDir]
  rcases hnode : s.tree.node c.segments with _ | ⟨b⟩ | _
  · -- there is no directory, so there is nothing below it
    have hnone : shown s c = [] := by
      rw [List.eq_nil_iff_forall_not_mem]
      intro name hname
      obtain ⟨n, v, hv, -⟩ := mem_shown.1 hname
      have hdir := s.tree.node_parent (by rw [hv]; simp : s.tree.node (c.segments ++ [n]) ≠ none)
      rw [hnode] at hdir
      exact absurd hdir (by simp)
    rw [hnone, FileTree.missing_eq_notFound hnotBlocked]
    rfl
  · exact absurd ⟨c.segments, by simp, b, hnode⟩ hnotBlocked
  · rfl

end Mirrors

end SolidPod
