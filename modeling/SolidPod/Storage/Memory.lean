import Mathlib.Data.Finset.Sort
import Mathlib.Data.List.AList
import SolidPod.Storage.Basic

/-!
# The in-memory backend

A map from normalised paths to entries. The hash that makes an ETag is a
parameter of the backend's type. The backend is a lawful storage, and it never
fails to write.
-/

namespace SolidPod

open Foundation Str

structure Entry where
  body : Bytes
  metadata : ResourceMeta
  deriving DecidableEq

structure MemoryBackend (digest : Bytes → Str) where
  data : AList fun _ : Str => Entry

namespace MemoryBackend

variable {digest : Bytes → Str}

def empty : MemoryBackend digest := ⟨∅⟩

def normalize (path : Str) : Str :=
  if path.isEmpty then "/" else if startsWith "/" path then path else '/' :: path

/-- The entry that a put of `body` writes. -/
def newEntry (digest : Bytes → Str) (body : Bytes) (contentType : Str) : Entry :=
  ⟨body, digest body, body.length, contentType⟩

def get (s : MemoryBackend digest) (path : Str) : Except PodError (Bytes × ResourceMeta) :=
  let path := normalize path
  match s.data.lookup path with
  | some e => .ok (e.body, e.metadata)
  | none => .error (.notFound path)

def put (s : MemoryBackend digest) (path : Str) (body : Bytes) (contentType : Str) :
    Except PodError ResourceMeta × MemoryBackend digest :=
  let e := newEntry digest body contentType
  (.ok e.metadata, ⟨s.data.insert (normalize path) e⟩)

def delete (s : MemoryBackend digest) (path : Str) :
    Except PodError Unit × MemoryBackend digest :=
  let path := normalize path
  match s.data.lookup path with
  | some _ => (.ok (), ⟨s.data.erase path⟩)
  | none => (.error (.notFound path), s)

/-- The name of the child of `container` that `key` lies at or below. -/
def childName (container key : Str) : Option Str :=
  match stripPrefix container key with
  | none => none
  | some [] => none
  | some remainder =>
    match splitOnce '/' remainder with
    | some (name, _) => some (name ++ ['/'])
    | none => some remainder

def list (s : MemoryBackend digest) (container : Str) : Except PodError (List Str) :=
  let container := normalize container
  let container := if endsWith "/" container then container else container ++ ['/']
  .ok ((s.data.keys.filterMap (childName container)).toFinset.sort (· ≤ ·))

def head (s : MemoryBackend digest) (path : Str) : Except PodError ResourceMeta :=
  let path := normalize path
  match s.data.lookup path with
  | some e => .ok e.metadata
  | none => .error (.notFound path)

def «exists» (s : MemoryBackend digest) (path : Str) : Except PodError Bool :=
  .ok (s.data.lookup (normalize path)).isSome

instance : Storage (MemoryBackend digest) where
  get := get
  put := put
  delete := delete
  list := list

instance : InspectableStorage (MemoryBackend digest) where
  head := head
  «exists» := «exists»

theorem storage_get (s : MemoryBackend digest) (p : Str) : Storage.get s p = s.get p := rfl

theorem storage_put (s : MemoryBackend digest) (p : Str) (b : Bytes) (ct : Str) :
    Storage.put s p b ct = s.put p b ct := rfl

theorem normalize_of_isAbsolute {p : Str} (h : IsAbsolute p) : normalize p = p := by
  cases p with
  | nil => simp [IsAbsolute] at h
  | cons c p =>
      have hc : c = '/' := by simpa [IsAbsolute] using h
      subst hc
      simp [normalize, startsWith, List.isPrefixOf]

theorem get_of_isAbsolute (s : MemoryBackend digest) {p : Str} (h : IsAbsolute p) :
    s.get p = match s.data.lookup p with
      | some e => .ok (e.body, e.metadata)
      | none => .error (.notFound p) := by
  rw [get, normalize_of_isAbsolute h]

theorem mem_keys_of_stored {s : MemoryBackend digest} {p : Str} (hp : IsAbsolute p)
    (h : Stored s p) : p ∈ s.data := by
  obtain ⟨found, hfound⟩ := h
  rw [storage_get, get_of_isAbsolute _ hp] at hfound
  cases hl : s.data.lookup p with
  | none =>
      rw [hl] at hfound
      cases hfound
  | some e => exact AList.lookup_isSome.mp (by rw [hl]; rfl)

/-- Replacing an entry changes no name of a child. -/
theorem list_put_of_stored {s : MemoryBackend digest} {p : Str} (hp : IsAbsolute p)
    (h : Stored s p) (b : Bytes) (ct q : Str) : (s.put p b ct).2.list q = s.list q := by
  have hkeys : ∀ k, k ∈ (s.put p b ct).2.data.keys ↔ k ∈ s.data.keys := by
    intro k
    rw [put, normalize_of_isAbsolute hp, ← AList.mem_keys, ← AList.mem_keys, AList.mem_insert]
    constructor
    · rintro (rfl | hk)
      · exact mem_keys_of_stored hp h
      · exact hk
    · exact Or.inr
  rw [list, list]
  refine congrArg Except.ok (congrArg (Finset.sort · (· ≤ ·)) ?_)
  ext name
  simp only [List.mem_toFinset, List.mem_filterMap, hkeys]

instance : LawfulStorage (MemoryBackend digest) where
  get_put_self := by
    intro s s' p b ct m hp h
    rw [storage_put, put, normalize_of_isAbsolute hp] at h
    obtain ⟨hm, rfl⟩ := Prod.mk.inj h
    have hm : (newEntry digest b ct).metadata = m := Except.ok.inj hm
    refine ⟨?_, ?_⟩
    · rw [storage_get, get_of_isAbsolute _ hp]
      simp only [AList.lookup_insert]
      rw [hm]
      rfl
    · rw [← hm]
      rfl
  get_put_ne := by
    intro s p q b ct hp hq hne
    rw [storage_get, storage_get, storage_put, put, normalize_of_isAbsolute hp,
      get_of_isAbsolute _ hq, get_of_isAbsolute _ hq]
    simp only [AList.lookup_insert_ne (Ne.symm hne)]
  get_put_error := by
    intro s s' p b ct e h
    rw [storage_put, put] at h
    cases (Prod.mk.inj h).1
  get_delete_ne := by
    intro s p q hp hq hne
    change (delete s p).2.get q = s.get q
    rw [delete, normalize_of_isAbsolute hp]
    cases h : s.data.lookup p with
    | none => rfl
    | some e =>
        rw [get_of_isAbsolute _ hq, get_of_isAbsolute _ hq]
        simp only [AList.lookup_erase_ne (Ne.symm hne)]
  get_delete_error := by
    intro s s' p e h q
    change delete s p = _ at h
    rw [delete] at h
    cases hl : s.data.lookup (normalize p) with
    | none =>
        rw [hl] at h
        rw [(Prod.mk.inj h).2]
    | some e =>
        rw [hl] at h
        cases (Prod.mk.inj h).1
  list_put := fun b ct q hp h => list_put_of_stored hp h b ct q

theorem get_empty {p : Str} (h : IsAbsolute p) :
    (empty : MemoryBackend digest).get p = .error (.notFound p) := by
  rw [get_of_isAbsolute _ h]
  rfl

/-- A put is read back where it was made, and nowhere else. -/
theorem get_put (s : MemoryBackend digest) {p q : Str} (hp : IsAbsolute p) (hq : IsAbsolute q)
    (b : Bytes) (ct : Str) : (s.put p b ct).2.get q =
      if p = q then .ok (b, (newEntry digest b ct).metadata) else s.get q := by
  by_cases h : p = q
  · subst h
    rw [if_pos rfl, get_of_isAbsolute _ hp, put, normalize_of_isAbsolute hp]
    simp only [AList.lookup_insert]
    rfl
  · rw [if_neg h]
    exact LawfulStorage.get_put_ne (s := s) b ct hp hq h

/-- A put to memory always succeeds. -/
theorem put_fst (s : MemoryBackend digest) (p : Str) (b : Bytes) (ct : Str) :
    (Storage.put s p b ct).1 = .ok (newEntry digest b ct).metadata := rfl

end MemoryBackend

end SolidPod
