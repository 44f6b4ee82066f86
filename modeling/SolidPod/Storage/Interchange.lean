import SolidPod.Foundation.Lockstep
import SolidPod.Storage.Mirrors

/-!
# The two backends side by side

The calls of a run are answered alike by the two backends as long as no path
strays into what the filesystem backend keeps for itself: a name that contains
`..`, the sidecar of another resource, a directory that has been emptied.
-/

namespace SolidPod

open Foundation Str Lockstep

/-- A call of the storage trait. -/
inductive StorageCall where
  | get (p : ResourcePath)
  | head (p : ResourcePath)
  | «exists» (p : ResourcePath)
  | put (p : ResourcePath) (body : Bytes) (contentType : Str)
  | delete (p : ResourcePath)
  | list (container : ResourcePath)

inductive StorageAnswer where
  | fetched (r : Except PodError (Bytes × ResourceMeta))
  | described (r : Except PodError ResourceMeta)
  | present (r : Except PodError Bool)
  | stored (r : Except PodError ResourceMeta)
  | deleted (r : Except PodError Unit)
  | listed (r : Except PodError (List Str))
  deriving DecidableEq

namespace StorageCall

def perform {σ : Type*} [InspectableStorage σ] (s : σ) : StorageCall → StorageAnswer × σ
  | .get p => (.fetched (Storage.get s p.text), s)
  | .head p => (.described (InspectableStorage.head s p.text), s)
  | .exists p => (.present (InspectableStorage.exists s p.text), s)
  | .put p body contentType =>
    let (r, s') := Storage.put s p.text body contentType
    (.stored r, s')
  | .delete p =>
    let (r, s') := Storage.delete s p.text
    (.deleted r, s')
  | .list c => (.listed (Storage.list s c.text), s)

/-- The resource a call is about; a listing is about a container. -/
def resource : StorageCall → Option ResourcePath
  | .get p | .head p | .exists p | .put p _ _ | .delete p => some p
  | .list _ => none

/-- The call changes the resource at `p`, if any. -/
def WritesAt (p : ResourcePath) : StorageCall → Prop
  | .put p' _ _ | .delete p' => p' = p
  | _ => False

/-- The call looks at the resource at `q`. -/
def LooksAt (q : ResourcePath) : StorageCall → Prop
  | .get q' | .head q' | .exists q' => q' = q
  | _ => False

end StorageCall

/-- No resource of the run lies below another one. -/
def PrefixFree (calls : List StorageCall) : Prop :=
  ∀ call ∈ calls, ∀ call' ∈ calls, ∀ p q, call.resource = some p → call'.resource = some q →
    p.segments <+: q.segments → p = q

variable {digest : Bytes → Str} {codec : SidecarCodec}

/-- What the call asks of the two stores: that its path does not stray into what
the filesystem backend keeps for itself. -/
def Untangled (s : FsBackend digest codec) (m : MemoryBackend digest) : StorageCall → Prop
  | .get p | .head p | .delete p =>
    ¬p.Dotted ∧ ∀ q : ResourcePath, Stored m q.text → ¬q.sidecar.segments <+: p.segments
  | .exists p => ¬p.Dotted ∧ ∀ q : ResourcePath, Stored m q.text → q.sidecar ≠ p
  | .put p _ _ =>
    ¬p.Dotted ∧
      (∀ q : ResourcePath, Stored m q.text → ¬q.sidecar.segments <+: p.segments ∧ p.sidecar ≠ q) ∧
      s.tree.node p.sidecar.segments ≠ some .dir
  | .list c =>
    ¬c.Dotted ∧
      (∀ q : ResourcePath, Stored m q.text →
        ¬q.segments <+: c.segments ∧ ¬q.sidecar.segments <+: c.segments) ∧
      (∀ (q : ResourcePath) (n : Str), Stored m q.text → c.segments ++ [n] <+: q.segments →
        endsWith metaSuffix n = false) ∧
      ∀ n, s.tree.node (c.segments ++ [n]) = some .dir → endsWith metaSuffix n = false →
        ∃ q : ResourcePath, Stored m q.text ∧ c.segments ++ [n] <+: q.segments

/-- The resources that a run is about. -/
def OfRun (calls : List StorageCall) (p : ResourcePath) : Prop :=
  ∃ call ∈ calls, call.resource = some p

open StorageCall in
/-- One call, on two stores that are alike. -/
theorem simulates_perform {calls : List StorageCall} (hfree : PrefixFree calls) :
    Simulates perform perform (· ∈ calls) Untangled
      (Mirrors (OfRun calls) : FsBackend digest codec → MemoryBackend digest → Prop) := by
  have hrun : Mirrors.Free (OfRun calls) := by
    rintro p q ⟨call, hcall, hp⟩ ⟨call', hcall', hq⟩ hpre
    exact hfree call hcall call' hcall' p q hp hq hpre
  intro s m call h hcall huntangled
  cases call with
  | get p =>
      obtain ⟨hdots, hsidecar⟩ := huntangled
      exact ⟨congrArg _ (h.get_eq hrun ⟨_, hcall, rfl⟩ hdots hsidecar), h⟩
  | head p =>
      obtain ⟨hdots, hsidecar⟩ := huntangled
      exact ⟨congrArg _ (h.head_eq hrun ⟨_, hcall, rfl⟩ hdots hsidecar), h⟩
  | «exists» p =>
      obtain ⟨hdots, hsidecar⟩ := huntangled
      exact ⟨congrArg _ (h.exists_eq hrun ⟨_, hcall, rfl⟩ hdots hsidecar), h⟩
  | put p body contentType =>
      obtain ⟨hdots, hsidecar, hplace⟩ := huntangled
      obtain ⟨hanswer, hnext⟩ :=
        h.put hrun ⟨_, hcall, rfl⟩ hdots hsidecar hplace body contentType
      exact ⟨congrArg StorageAnswer.stored hanswer, hnext⟩
  | delete p =>
      obtain ⟨hdots, hsidecar⟩ := huntangled
      obtain ⟨hanswer, hnext⟩ := h.delete hrun ⟨_, hcall, rfl⟩ hdots hsidecar
      exact ⟨congrArg StorageAnswer.deleted hanswer, hnext⟩
  | list c =>
      obtain ⟨hdots, hclear, hvisible, hfull⟩ := huntangled
      exact ⟨congrArg StorageAnswer.listed (h.list_eq hdots hclear hvisible hfull), h⟩

open StorageCall in
/-- In memory, a call that writes at one path is not seen at another one. -/
theorem MemoryBackend.perform_after_write (m : MemoryBackend digest) {w o : StorageCall}
    {p q : ResourcePath} (hw : w.WritesAt p) (ho : o.LooksAt q) (hne : p ≠ q) :
    (perform (perform m w).2 o).1 = (perform m o).1 := by
  have hentry : (perform m w).2.entry q = m.entry q := by
    cases w with
    | put p' body contentType =>
        obtain rfl : p' = p := hw
        exact (MemoryBackend.entry_put body contentType).trans (if_neg (Ne.symm hne))
    | delete p' =>
        obtain rfl : p' = p := hw
        change (m.delete p'.text).2.entry q = m.entry q
        cases hp : m.entry p' with
        | none => rw [MemoryBackend.delete_of_none hp]
        | some e =>
            rw [MemoryBackend.delete_of_entry hp]
            exact MemoryBackend.entry_erase.trans (if_neg (Ne.symm hne))
    | get p' => exact absurd hw id
    | head p' => exact absurd hw id
    | «exists» p' => exact absurd hw id
    | list p' => exact absurd hw id
  cases o with
  | get q' =>
      obtain rfl : q' = q := ho
      refine congrArg StorageAnswer.fetched ?_
      change (perform m w).2.get q'.text = m.get q'.text
      rw [MemoryBackend.get_text, MemoryBackend.get_text, hentry]
  | head q' =>
      obtain rfl : q' = q := ho
      refine congrArg StorageAnswer.described ?_
      change (perform m w).2.head q'.text = m.head q'.text
      rw [MemoryBackend.head_text, MemoryBackend.head_text, hentry]
  | «exists» q' =>
      obtain rfl : q' = q := ho
      refine congrArg StorageAnswer.present ?_
      change (perform m w).2.exists q'.text = m.exists q'.text
      rw [MemoryBackend.exists_text, MemoryBackend.exists_text, hentry]
  | put q' body contentType => exact absurd ho id
  | delete q' => exact absurd ho id
  | list q' => exact absurd ho id

open StorageCall in
/-- In a run that keeps clear of what the filesystem backend keeps for itself,
the two backends answer every call alike, and a put or a delete at one path is
not seen at another one. -/
theorem fsBackend_answers_as_memory (digest : Bytes → Str) (codec : SidecarCodec)
    (calls : List StorageCall) (hfree : PrefixFree calls)
    (halong : Along perform perform Untangled (FsBackend.empty : FsBackend digest codec)
      MemoryBackend.empty calls) :
    run perform (FsBackend.empty : FsBackend digest codec) calls =
        run perform (MemoryBackend.empty : MemoryBackend digest) calls ∧
      ∀ (before : List StorageCall) (w o : StorageCall) (p q : ResourcePath),
        calls = before ++ [w, o] → w.WritesAt p → o.LooksAt q → p ≠ q →
        Along perform perform Untangled (FsBackend.empty : FsBackend digest codec)
          MemoryBackend.empty (before ++ [o]) →
        (perform
            (perform (final perform (FsBackend.empty : FsBackend digest codec) before) w).2 o).1 =
          (perform (final perform (FsBackend.empty : FsBackend digest codec) before) o).1 := by
  refine ⟨run_eq (simulates_perform hfree) .empty (fun call hcall => hcall) halong, ?_⟩
  rintro before w o p q rfl hw ho hne halong'
  rw [along_append] at halong halong'
  obtain ⟨hbefore, hcondw, hcondo, -⟩ := halong
  obtain ⟨-, hcondo', -⟩ := halong'
  have hsim : Simulates perform perform (· ∈ before ++ [w, o]) Untangled
      (Mirrors (OfRun (before ++ [w, o])) :
        FsBackend digest codec → MemoryBackend digest → Prop) := simulates_perform hfree
  have hrel := rel_final hsim .empty (fun call hcall => List.mem_append_left _ hcall) hbefore
  have hstepw := hsim _ _ w hrel (by simp) hcondw
  rw [(hsim _ _ o hstepw.2 (by simp) hcondo).1, (hsim _ _ o hrel (by simp) hcondo').1]
  exact MemoryBackend.perform_after_write _ hw ho hne

theorem prefixFree_pair {a b : StorageCall} {p q : ResourcePath} (ha : a.resource = some p)
    (hb : b.resource = some q) (hpq : p.segments <+: q.segments → p = q)
    (hqp : q.segments <+: p.segments → q = p) : PrefixFree [a, b] := by
  intro call hcall call' hcall' r r' hr hr' hpre
  simp only [List.mem_cons, List.not_mem_nil, or_false] at hcall hcall'
  rcases hcall with rfl | rfl
  · rw [ha, Option.some.injEq] at hr
    subst hr
    rcases hcall' with rfl | rfl
    · rw [ha, Option.some.injEq] at hr'
      exact hr'
    · rw [hb, Option.some.injEq] at hr'
      subst hr'
      exact hpq hpre
  · rw [hb, Option.some.injEq] at hr
    subst hr
    rcases hcall' with rfl | rfl
    · rw [ha, Option.some.injEq] at hr'
      subst hr'
      exact hqp hpre
    · rw [hb, Option.some.injEq] at hr'
      exact hr'

open StorageCall in
/-- `/x` is put and fetched. -/
theorem fsBackend_answers_as_memory_pathX :
    run perform (FsBackend.empty : FsBackend (fun _ => "etag") plainSidecar)
        [.put pathX [104, 105] "text/plain", .get pathX] =
        run perform (MemoryBackend.empty : MemoryBackend fun _ => "etag")
          [.put pathX [104, 105] "text/plain", .get pathX] ∧
      ∀ (before : List StorageCall) (w o : StorageCall) (p q : ResourcePath),
        [.put pathX [104, 105] "text/plain", .get pathX] = before ++ [w, o] → w.WritesAt p →
        o.LooksAt q → p ≠ q →
        Along perform perform Untangled
          (FsBackend.empty : FsBackend (fun _ => "etag") plainSidecar) MemoryBackend.empty
          (before ++ [o]) →
        (perform
            (perform (final perform
              (FsBackend.empty : FsBackend (fun _ => "etag") plainSidecar) before) w).2 o).1 =
          (perform (final perform
            (FsBackend.empty : FsBackend (fun _ => "etag") plainSidecar) before) o).1 := by
  refine fsBackend_answers_as_memory (fun _ => "etag") plainSidecar _
    (prefixFree_pair rfl rfl (fun _ => rfl) (fun _ => rfl)) ⟨⟨by decide, ?_, by decide⟩, ?_⟩
  · intro q hq
    rw [MemoryBackend.stored_iff] at hq
    exact absurd rfl hq
  · refine ⟨⟨by decide, ?_⟩, trivial⟩
    intro q hq
    rw [MemoryBackend.stored_iff] at hq
    have hqx : q = pathX := by
      by_contra hne
      exact hq ((MemoryBackend.entry_put [104, 105] "text/plain").trans (if_neg hne))
    rw [hqx]
    decide

open StorageCall in
/-- After `/x` is put, the filesystem backend has its sidecar as a resource of
its own. -/
theorem fsBackend_answers_differ :
    ¬∀ (digest : Bytes → Str) (codec : SidecarCodec) (calls : List StorageCall),
      PrefixFree calls →
        run perform (FsBackend.empty : FsBackend digest codec) calls =
          run perform (MemoryBackend.empty : MemoryBackend digest) calls := by
  intro h
  refine absurd (h (fun _ => "etag") plainSidecar
    [.put pathX [104, 105] "text/plain", .get pathX.sidecar] ?_) (by decide)
  exact prefixFree_pair rfl rfl (fun hpre => absurd hpre (by decide))
    (fun hpre => absurd hpre (by decide))

end SolidPod
