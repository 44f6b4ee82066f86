import Mathlib.Data.List.AList
import Mathlib.Data.List.Basic
import Mathlib.Order.Nat

/-!
# Tables

A table finds a value by its key. A value may also have a name of its own, and
then the table is gone through, in whatever order, until the name is found. As
long as no two values have the same name, the value that is found does not
depend on the order, and without its row the name is gone. A table with serial
numbers numbers its rows in the order in which they come, and gives no number
out twice, also when a row is gone. So a row that is gone does not come back,
and the first row with a property is the one with the smallest number.
-/

namespace Foundation

namespace SecondKey

variable {κ υ ι : Type*} (name : υ → ι)

/-- The first row whose value has a name. -/
def rowNamed [DecidableEq ι] (t : AList fun _ : κ => υ) (i : ι) : Option (Σ _ : κ, υ) :=
  t.entries.find? fun r => name r.2 = i

def names (t : AList fun _ : κ => υ) : List ι := t.entries.map fun r => name r.2

variable {name} {t t' : AList fun _ : κ => υ} {k : κ} {v : υ} {i : ι} {r : Σ _ : κ, υ}

theorem mem_names : i ∈ names name t ↔ ∃ r ∈ t.entries, name r.2 = i := List.mem_map

theorem names_perm (h : t.entries.Perm t'.entries) : (names name t).Perm (names name t') := h.map _

theorem rowNamed_eq_none_iff [DecidableEq ι] : rowNamed name t i = none ↔ i ∉ names name t := by
  rw [rowNamed, List.find?_eq_none, mem_names]
  simp only [decide_eq_true_eq, not_exists, not_and]

theorem rowNamed_eq_some [DecidableEq ι] (h : rowNamed name t i = some r) :
    r ∈ t.entries ∧ name r.2 = i := by
  rw [rowNamed, List.find?_eq_some_iff_append] at h
  obtain ⟨hname, front, back, heq, -⟩ := h
  rw [heq]
  exact ⟨List.mem_append_right _ List.mem_cons_self, of_decide_eq_true hname⟩

variable [DecidableEq κ]

theorem mem_entries_erase : r ∈ (t.erase k).entries ↔ r.1 ≠ k ∧ r ∈ t.entries := by
  obtain ⟨k', v⟩ := r
  rw [← AList.mem_lookup_iff, ← AList.mem_lookup_iff]
  by_cases hk : k' = k
  · rw [hk, AList.lookup_erase]
    exact iff_of_false (Option.not_mem_none v) (fun h => h.1 rfl)
  · rw [AList.lookup_erase_ne hk, and_iff_right hk]

theorem nodup_names_erase (h : (names name t).Nodup) : (names name (t.erase k)).Nodup :=
  h.sublist ((List.kerase_sublist k t.entries).map _)

/-- A name that no other value has is gone with its row. -/
theorem not_mem_names_erase [DecidableEq ι] (hdistinct : (names name t).Nodup)
    (h : rowNamed name t i = some r) : i ∉ names name (t.erase r.1) := by
  obtain ⟨hr, hname⟩ := rowNamed_eq_some h
  rw [mem_names]
  rintro ⟨r', hr', hname'⟩
  obtain ⟨hne, hmem⟩ := mem_entries_erase.mp hr'
  have heq : r' = r := List.inj_on_of_nodup_map hdistinct hmem hr (hname'.trans hname.symm)
  exact hne (congrArg Sigma.fst heq)

end SecondKey

structure SerialTable (α : Type*) where
  rows : List (Nat × α)
  /-- The last number that was given out. -/
  last : Nat
  ordered : rows.Pairwise fun r r' => r.1 < r'.1
  fresh : ∀ r ∈ rows, r.1 ≤ last

namespace SerialTable

variable {α : Type*}

def empty : SerialTable α := ⟨[], 0, .nil, fun _ h => nomatch h⟩

def get? (t : SerialTable α) (i : Nat) : Option α := t.rows.lookup i

/-- The row with the smallest number among those with a property. -/
def first (t : SerialTable α) (p : α → Bool) : Option (Nat × α) := t.rows.find? fun r => p r.2

def push (t : SerialTable α) (a : α) : SerialTable α where
  rows := t.rows ++ [(t.last + 1, a)]
  last := t.last + 1
  ordered := by
    rw [List.pairwise_append]
    refine ⟨t.ordered, List.pairwise_singleton _ _, ?_⟩
    intro r hr r' hr'
    rw [List.mem_singleton.mp hr']
    exact Nat.lt_succ_of_le (t.fresh r hr)
  fresh := by
    intro r hr
    rcases List.mem_append.mp hr with hr | hr
    · exact Nat.le_succ_of_le (t.fresh r hr)
    · exact (congrArg Prod.fst (List.mem_singleton.mp hr)).le

def remove (t : SerialTable α) (i : Nat) : SerialTable α where
  rows := t.rows.filter fun r => r.1 ≠ i
  last := t.last
  ordered := t.ordered.filter _
  fresh r hr := t.fresh r (List.mem_filter.mp hr).1

def modify (t : SerialTable α) (i : Nat) (f : α → α) : SerialTable α where
  rows := t.rows.map fun r => if r.1 = i then (r.1, f r.2) else r
  last := t.last
  ordered := by
    rw [List.pairwise_map]
    refine t.ordered.imp fun {r r'} h => ?_
    split_ifs <;> exact h
  fresh := by
    intro r hr
    obtain ⟨r', hr', rfl⟩ := List.mem_map.mp hr
    split_ifs <;> exact t.fresh r' hr'

/-- The number of the rows with a property. -/
def count (t : SerialTable α) (p : Nat → α → Bool) : Nat := t.rows.countP fun r => p r.1 r.2

variable {t : SerialTable α} {i j : Nat} {a : α}

theorem rows_remove : (t.remove i).rows = t.rows.filter fun r => r.1 ≠ i := rfl

theorem rows_modify (f : α → α) :
    (t.modify i f).rows = t.rows.map fun r => if r.1 = i then (r.1, f r.2) else r := rfl

theorem get?_eq_some_iff : t.get? i = some a ↔ (i, a) ∈ t.rows := by
  rw [get?, List.lookup_eq_some_iff]
  constructor
  · rintro ⟨l, l', heq, -⟩
    rw [heq]
    exact List.mem_append_right l List.mem_cons_self
  · intro hmem
    obtain ⟨l, l', heq⟩ := List.mem_iff_append.mp hmem
    refine ⟨l, l', heq, ?_⟩
    intro r hr
    have hlt := t.ordered
    rw [heq, List.pairwise_append] at hlt
    have := hlt.2.2 r hr (i, a) List.mem_cons_self
    simpa using (Nat.ne_of_lt this).symm

/-- The rows before and after a row. -/
theorem exists_split (h : t.get? i = some a) :
    ∃ l l', t.rows = l ++ (i, a) :: l' ∧ (∀ r ∈ l, r.1 < i) ∧ ∀ r ∈ l', i < r.1 := by
  obtain ⟨l, l', heq⟩ := List.mem_iff_append.mp (get?_eq_some_iff.mp h)
  have hlt := t.ordered
  rw [heq, List.pairwise_append, List.pairwise_cons] at hlt
  exact ⟨l, l', heq, fun r hr => hlt.2.2 r hr (i, a) List.mem_cons_self, hlt.2.1.1⟩

theorem first_eq_some_iff {p : α → Bool} : t.first p = some (i, a) ↔
    t.get? i = some a ∧ p a = true ∧ ∀ j b, t.get? j = some b → p b = true → i ≤ j := by
  rw [first, List.find?_eq_some_iff_append]
  constructor
  · rintro ⟨hp, l, l', heq, hnone⟩
    have hmem : (i, a) ∈ t.rows := by
      rw [heq]
      exact List.mem_append_right l List.mem_cons_self
    refine ⟨get?_eq_some_iff.mpr hmem, hp, ?_⟩
    intro j b hj hb
    have hlt := t.ordered
    rw [heq, List.pairwise_append, List.pairwise_cons] at hlt
    have hrow := get?_eq_some_iff.mp hj
    rw [heq] at hrow
    rcases List.mem_append.mp hrow with hl | hl
    · have hnot := hnone (j, b) hl
      rw [hb] at hnot
      cases hnot
    · rcases List.mem_cons.mp hl with heq' | hl
      · exact Nat.le_of_eq (congrArg Prod.fst heq').symm
      · exact Nat.le_of_lt (hlt.2.1.1 (j, b) hl)
  · rintro ⟨hi, hp, hleast⟩
    obtain ⟨l, l', heq, hl, -⟩ := exists_split hi
    refine ⟨hp, l, l', heq, ?_⟩
    intro r hr
    by_contra hnot
    have hmem : (r.1, r.2) ∈ t.rows := by
      rw [heq]
      exact List.mem_append_left _ hr
    have hle := hleast r.1 r.2 (get?_eq_some_iff.mpr hmem) (by simpa using hnot)
    exact absurd (hl r hr) (Nat.not_lt.mpr hle)

theorem first_eq_none_iff {p : α → Bool} :
    t.first p = none ↔ ∀ i a, t.get? i = some a → p a = false := by
  rw [first, List.find?_eq_none]
  constructor
  · intro h i a ha
    simpa using h (i, a) (get?_eq_some_iff.mp ha)
  · intro h r hr
    simpa using h r.1 r.2 (get?_eq_some_iff.mpr hr)

theorem get?_remove : (t.remove i).get? j = if j = i then none else t.get? j := by
  refine Option.ext fun a => ?_
  rw [get?_eq_some_iff, remove, List.mem_filter]
  split_ifs with h
  · simp [h]
  · simp [h, get?_eq_some_iff]

theorem get?_modify {f : α → α} :
    (t.modify i f).get? j = if j = i then (t.get? i).map f else t.get? j := by
  refine Option.ext fun a => ?_
  rw [get?_eq_some_iff, modify, List.mem_map]
  constructor
  · rintro ⟨r, hr, heq⟩
    split_ifs at heq with hi
    · cases heq
      rw [if_pos hi, ← hi, Option.map_eq_some_iff]
      exact ⟨r.2, get?_eq_some_iff.mpr hr, rfl⟩
    · subst heq
      rw [if_neg hi]
      exact get?_eq_some_iff.mpr hr
  · split_ifs with hi
    · intro h
      obtain ⟨b, hb, rfl⟩ := Option.map_eq_some_iff.mp h
      exact ⟨(i, b), get?_eq_some_iff.mp hb, by rw [if_pos rfl, hi]⟩
    · intro h
      exact ⟨(j, a), get?_eq_some_iff.mp h, if_neg hi⟩

/-! ## Counting rows -/

theorem count_remove {p : Nat → α → Bool} (h : t.get? i = some a) (hp : p i a = true) :
    (t.remove i).count p + 1 = t.count p := by
  obtain ⟨l, l', heq, hl, hl'⟩ := exists_split h
  have hrows : (t.remove i).rows = l ++ l' := by
    rw [rows_remove, heq, List.filter_append, List.filter_cons_of_neg (by simp),
      List.filter_eq_self.mpr fun r hr => by simpa using (hl r hr).ne,
      List.filter_eq_self.mpr fun r hr => by simpa using (hl' r hr).ne']
  rw [count, hrows, count, heq, List.countP_append, List.countP_append,
    List.countP_cons_of_pos (by simpa using hp), Nat.add_assoc]

theorem count_modify {p : Nat → α → Bool} {f : α → α} (h : t.get? i = some a) (hp : p i a = true)
    (hf : p i (f a) = false) : (t.modify i f).count p + 1 = t.count p := by
  obtain ⟨l, l', heq, hl, hl'⟩ := exists_split h
  have hsame : ∀ m : List (Nat × α), (∀ r ∈ m, r.1 ≠ i) →
      (m.map fun r => if r.1 = i then (r.1, f r.2) else r) = m := by
    intro m hm
    exact (List.map_congr_left fun r hr => if_neg (hm r hr)).trans (List.map_id m)
  have hrows : (t.modify i f).rows = l ++ (i, f a) :: l' := by
    rw [rows_modify, heq, List.map_append, List.map_cons, if_pos rfl,
      hsame l fun r hr => (hl r hr).ne, hsame l' fun r hr => (hl' r hr).ne']
  rw [count, hrows, count, heq, List.countP_append, List.countP_append,
    List.countP_cons_of_neg (by simpa using hf), List.countP_cons_of_pos (by simpa using hp),
    Nat.add_assoc]

theorem count_pos {p : Nat → α → Bool} (h : t.get? i = some a) (hp : p i a = true) :
    0 < t.count p :=
  List.countP_pos_iff.mpr ⟨(i, a), get?_eq_some_iff.mp h, hp⟩

theorem count_le_length (p : Nat → α → Bool) : t.count p ≤ t.rows.length :=
  List.countP_le_length

end SerialTable

end Foundation
