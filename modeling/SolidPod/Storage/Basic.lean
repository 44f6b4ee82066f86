import SolidPod.Error

/-!
# The storage trait

`Storage σ` is the interface between the protocol layer and a backend whose
state is `σ`. Every call is one atomic step: a call that writes returns the
state it leaves. `LawfulStorage` is what the handlers rely on: a write is read
back where it was made and nowhere else, and a call that fails changes nothing.
Paths that start with `/` are the canonical ones, so the laws are about these.
-/

namespace SolidPod

open Foundation

/-- Metadata of a stored resource. -/
structure ResourceMeta where
  etag : Str
  size : Nat
  contentType : Str
  deriving DecidableEq

class Storage (σ : Type*) where
  /-- Fetch a body and its metadata. -/
  get : σ → Str → Except PodError (Bytes × ResourceMeta)
  /-- Create or replace a resource. -/
  put : σ → Str → Bytes → Str → Except PodError ResourceMeta × σ
  delete : σ → Str → Except PodError Unit × σ
  /-- The direct children of a container, relative to it; a sub-container ends
  in `/`. -/
  list : σ → Str → Except PodError (List Str)

/-- The calls of the trait that look at a resource without its body. -/
class InspectableStorage (σ : Type*) extends Storage σ where
  head : σ → Str → Except PodError ResourceMeta
  «exists» : σ → Str → Except PodError Bool

/-- A path in the form the trait asks for. -/
def IsAbsolute (path : Str) : Prop := path.head? = some '/'

instance (path : Str) : Decidable (IsAbsolute path) :=
  inferInstanceAs (Decidable (path.head? = some '/'))

theorem IsAbsolute.append {p : Str} (h : IsAbsolute p) (q : Str) : IsAbsolute (p ++ q) := by
  cases p with
  | nil => simp [IsAbsolute] at h
  | cons c p => simpa [IsAbsolute] using h

/-- A path as requests name resources: it starts with `/`, and no two slashes
meet. -/
structure IsCanonical (path : Str) : Prop where
  absolute : IsAbsolute path
  merged : ¬ ['/', '/'] <:+: path

instance (path : Str) : Decidable (IsCanonical path) :=
  decidable_of_iff (IsAbsolute path ∧ ¬ Str.containsStr ['/', '/'] path = true)
    ⟨fun h => ⟨h.1, fun hm => h.2 (Str.containsStr_iff.mpr hm)⟩,
      fun h => ⟨h.absolute, fun hm => h.merged (Str.containsStr_iff.mp hm)⟩⟩

theorem IsAbsolute.of_prefix {p q : Str} (h : IsAbsolute q) (hp : p <+: q) (hne : p ≠ []) :
    IsAbsolute p := by
  obtain ⟨t, rfl⟩ := hp
  cases p with
  | nil => exact absurd rfl hne
  | cons c p => simpa [IsAbsolute] using h

/-- A non-empty front part of a canonical path is canonical. -/
theorem IsCanonical.of_prefix {p q : Str} (h : IsCanonical q) (hp : p <+: q) (hne : p ≠ []) :
    IsCanonical p :=
  ⟨h.absolute.of_prefix hp hne, fun hm => h.merged (hm.trans hp.isInfix)⟩

/-- A resource is stored at `p`. -/
def Stored {σ : Type*} [Storage σ] (s : σ) (p : Str) : Prop :=
  ∃ r, Storage.get s p = .ok r

/-- What every backend promises: what was put is read back, nothing else changes,
a call that fails changes nothing, and replacing a resource lists no other
children. -/
class LawfulStorage (σ : Type*) [Storage σ] : Prop where
  get_put_self : ∀ {s s' : σ} {p : Str} {b : Bytes} {ct : Str} {m : ResourceMeta},
    IsAbsolute p → Storage.put s p b ct = (.ok m, s') →
      Storage.get s' p = .ok (b, m) ∧ m.contentType = ct
  get_put_ne : ∀ {s : σ} {p q : Str} (b : Bytes) (ct : Str),
    IsAbsolute p → IsAbsolute q → p ≠ q →
      Storage.get (Storage.put s p b ct).2 q = Storage.get s q
  get_put_error : ∀ {s s' : σ} {p : Str} {b : Bytes} {ct : Str} {e : PodError},
    Storage.put s p b ct = (.error e, s') → ∀ q, Storage.get s' q = Storage.get s q
  get_delete_ne : ∀ {s : σ} {p q : Str}, IsAbsolute p → IsAbsolute q → p ≠ q →
      Storage.get (Storage.delete s p).2 q = Storage.get s q
  get_delete_error : ∀ {s s' : σ} {p : Str} {e : PodError},
    Storage.delete s p = (.error e, s') → ∀ q, Storage.get s' q = Storage.get s q
  list_put : ∀ {s : σ} {p : Str} (b : Bytes) (ct q : Str), IsAbsolute p → Stored s p →
    Storage.list (Storage.put s p b ct).2 q = Storage.list s q

end SolidPod
