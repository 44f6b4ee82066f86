import Mathlib.Data.Finset.Card
import Mathlib.Data.List.AList
import Mathlib.Data.List.Induction
import Mathlib.Data.PNat.Basic

/-!
# A bounded cache that forgets what was used least recently

`LruCache L κ υ` is the interface of a cache type `L` with keys in `κ` and
values in `υ`. `LawfulLruCache` is what a user may rely on: as long as there is
room, a call changes the entry it names and no other. `LruList` keeps its
entries in the order of their last use.
-/

namespace Foundation

class LruCache (L : Type*) (κ υ : outParam (Type*)) where
  /-- The empty cache with room for so many entries. -/
  new : ℕ+ → L
  cap : L → ℕ+
  /-- Look an entry up without using it. -/
  peek : L → κ → Option υ
  /-- Make or replace an entry; a full cache drops the one used least recently. -/
  put : L → κ → υ → L
  pop : L → κ → L
  /-- The entries, the one used last first. -/
  iter : L → List (κ × υ)

open LruCache

class LawfulLruCache (L : Type*) {κ υ : Type*} [LruCache L κ υ] : Prop where
  cap_new (n : ℕ+) : cap (new n : L) = n
  cap_put (l : L) (k : κ) (v : υ) : cap (put l k v) = cap l
  cap_pop (l : L) (k : κ) : cap (pop l k) = cap l
  peek_new (n : ℕ+) (k : κ) : peek (new n : L) k = none
  mem_iter (l : L) (k : κ) (v : υ) : (k, v) ∈ iter l ↔ peek l k = some v
  nodup_iter (l : L) : ((iter l).map Prod.fst).Nodup
  peek_put_self (l : L) (k : κ) (v : υ) : peek (put l k v) k = some v
  peek_put_of_ne {l : L} {k k' : κ} (v : υ) (hne : k' ≠ k)
    (hroom : (peek l k).isSome ∨ (iter l).length < cap l) : peek (put l k v) k' = peek l k'
  peek_pop_self (l : L) (k : κ) : peek (pop l k) k = none
  peek_pop_of_ne {l : L} {k k' : κ} (hne : k' ≠ k) : peek (pop l k) k' = peek l k'

namespace LawfulLruCache

variable {L κ υ : Type*} [LruCache L κ υ] [LawfulLruCache L]

attribute [simp] cap_new cap_put cap_pop peek_new peek_put_self peek_pop_self

/-- A cache whose keys are among few others has room. -/
theorem length_iter_le_card [DecidableEq κ] {l : L} {ks : Finset κ}
    (h : ∀ k, (peek l k).isSome → k ∈ ks) : (iter l).length ≤ ks.card := by
  have hsub : ((iter l).map Prod.fst).toFinset ⊆ ks := by
    intro k hk
    obtain ⟨⟨k, v⟩, hmem, rfl⟩ := List.mem_map.mp (List.mem_toFinset.mp hk)
    exact h k (by rw [(mem_iter l k v).mp hmem]; rfl)
  calc
    (iter l).length = ((iter l).map Prod.fst).toFinset.card := by
      rw [List.toFinset_card_of_nodup (nodup_iter l), List.length_map]
    _ ≤ ks.card := Finset.card_le_card hsub

theorem peek_foldl_pop_of_mem {ks : List κ} {l : L} {k : κ} (h : k ∈ ks) :
    peek (ks.foldl pop l) k = none := by
  induction ks using List.reverseRecOn with
  | nil => exact absurd h List.not_mem_nil
  | append_singleton ks j ih =>
      rw [List.foldl_append, List.foldl_cons, List.foldl_nil]
      by_cases hk : k = j
      · rw [hk, peek_pop_self]
      · rw [peek_pop_of_ne hk]
        apply ih
        simpa [hk] using h

theorem peek_foldl_pop_of_not_mem {ks : List κ} {l : L} {k : κ} (h : k ∉ ks) :
    peek (ks.foldl pop l) k = peek l k := by
  induction ks generalizing l with
  | nil => rfl
  | cons j ks ih =>
      rw [List.mem_cons, not_or] at h
      rw [List.foldl_cons, ih h.2, peek_pop_of_ne h.1]

theorem cap_foldl_pop (ks : List κ) (l : L) : cap (ks.foldl pop l) = cap l := by
  induction ks generalizing l with
  | nil => rfl
  | cons j ks ih => rw [List.foldl_cons, ih, cap_pop]

end LawfulLruCache

/-- A cache as the list of its entries, the one used last first. -/
structure LruList (κ υ : Type*) where
  cap : ℕ+
  entries : AList fun _ : κ => υ
  bounded : entries.entries.length ≤ cap

namespace LruList

variable {κ υ : Type*} [DecidableEq κ]

/-- The entries without the one used least recently. -/
def dropOldest (a : AList fun _ : κ => υ) : AList fun _ : κ => υ :=
  ⟨a.entries.dropLast, a.nodupKeys.sublist (List.dropLast_sublist a.entries)⟩

/-- The entries that stay when one is put under a key. -/
def makeRoom (l : LruList κ υ) (k : κ) : AList fun _ : κ => υ :=
  if k ∈ l.entries ∨ l.entries.entries.length < l.cap then l.entries
  else dropOldest l.entries

theorem length_insert_makeRoom (l : LruList κ υ) (k : κ) (v : υ) :
    ((l.makeRoom k).insert k v).entries.length ≤ l.cap := by
  have hbound := l.bounded
  have hpos := l.cap.pos
  have herase (a : AList fun _ : κ => υ) :
      (List.kerase k a.entries).length ≤ a.entries.length :=
    (List.kerase_sublist k a.entries).length_le
  rw [AList.entries_insert, List.length_cons, makeRoom]
  split_ifs with hroom
  · rcases hroom with hmem | hlt
    · have hlen : (List.kerase k l.entries.entries).length + 1 = l.entries.entries.length := by
        have hkeys := congrArg List.length (AList.keys_erase k l.entries)
        have hk : k ∈ l.entries.keys := hmem
        rw [List.length_erase_of_mem hk] at hkeys
        have hpos' : 0 < l.entries.keys.length := List.length_pos_of_mem hk
        have hlength : l.entries.keys.length = l.entries.entries.length := List.length_map _
        have herased : (l.entries.erase k).keys.length =
            (List.kerase k l.entries.entries).length := List.length_map _
        omega
      omega
    · have := herase l.entries
      omega
  · have hdrop := herase (dropOldest l.entries)
    rw [dropOldest, List.length_dropLast] at hdrop
    rw [dropOldest]
    omega

instance : LruCache (LruList κ υ) κ υ where
  new n := ⟨n, ∅, Nat.zero_le _⟩
  cap l := l.cap
  peek l k := l.entries.lookup k
  put l k v := ⟨l.cap, (l.makeRoom k).insert k v, l.length_insert_makeRoom k v⟩
  pop l k := ⟨l.cap, l.entries.erase k,
    (List.kerase_sublist k l.entries.entries).length_le.trans l.bounded⟩
  iter l := l.entries.entries.map fun e => (e.1, e.2)

theorem makeRoom_of_room {l : LruList κ υ} {k : κ}
    (hroom : (LruCache.peek l k).isSome ∨ (LruCache.iter l).length < LruCache.cap l) :
    l.makeRoom k = l.entries := by
  apply if_pos
  rcases hroom with hpresent | hlt
  · exact Or.inl (AList.lookup_isSome.mp hpresent)
  · right
    change (l.entries.entries.map fun e => (e.1, e.2)).length < l.cap at hlt
    rwa [List.length_map] at hlt

instance : LawfulLruCache (LruList κ υ) where
  cap_new _ := rfl
  cap_put _ _ _ := rfl
  cap_pop _ _ := rfl
  peek_new _ _ := rfl
  mem_iter l k v := by
    change (k, v) ∈ l.entries.entries.map (fun e => (e.1, e.2)) ↔ l.entries.lookup k = some v
    rw [← Option.mem_def, AList.mem_lookup_iff, List.mem_map]
    constructor
    · rintro ⟨⟨j, w⟩, hmem, heq⟩
      cases heq
      exact hmem
    · intro hmem
      exact ⟨⟨k, v⟩, hmem, rfl⟩
  nodup_iter l := by
    change ((l.entries.entries.map fun e => (e.1, e.2)).map Prod.fst).Nodup
    rw [List.map_map]
    exact l.entries.keys_nodup
  peek_put_self l k v := AList.lookup_insert (l.makeRoom k)
  peek_put_of_ne := by
    intro l k k' v hne hroom
    change AList.lookup k' ((l.makeRoom k).insert k v) = l.entries.lookup k'
    rw [makeRoom_of_room hroom, AList.lookup_insert_ne hne]
  peek_pop_self l k := AList.lookup_erase k l.entries
  peek_pop_of_ne hne := AList.lookup_erase_ne hne

end LruList

end Foundation
