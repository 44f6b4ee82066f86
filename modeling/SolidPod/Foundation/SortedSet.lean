import Mathlib.Algebra.BigOperators.Group.List.Basic
import Mathlib.Algebra.Order.BigOperators.Group.List
import Mathlib.Algebra.Order.Group.Int
import Mathlib.Data.List.Perm.Subperm
import Mathlib.Order.Basic

/-!
# Ordered sets and edit scripts

A `SortedSet` is a finite set kept as the strictly increasing list of its
members, so two sets with the same members are equal. An edit script inserts and
deletes members one after the other; what it does to a set is fixed by two sets
that do not depend on that set: the members it removes at some point, and the
members whose last edit inserts them.
-/

namespace Foundation

variable {α : Type*} [LinearOrder α]

/-- A finite set, as the strictly increasing list of its members. -/
structure SortedSet (α : Type*) [LinearOrder α] where
  items : List α
  sorted : items.Pairwise (· < ·)

namespace SortedSet

def insertItem (a : α) : List α → List α
  | [] => [a]
  | b :: l => if a < b then a :: b :: l else if a = b then b :: l else b :: insertItem a l

theorem mem_insertItem {a b : α} {l : List α} : b ∈ insertItem a l ↔ b = a ∨ b ∈ l := by
  induction l with
  | nil => simp [insertItem]
  | cons c l ih =>
      rw [insertItem]
      split
      · simp
      · split
        · rename_i h
          simp [h]
        · simp only [List.mem_cons, ih]
          exact or_left_comm

theorem pairwise_insertItem (a : α) {l : List α} (h : l.Pairwise (· < ·)) :
    (insertItem a l).Pairwise (· < ·) := by
  induction l with
  | nil => simp [insertItem]
  | cons c l ih =>
      obtain ⟨hc, hl⟩ := List.pairwise_cons.mp h
      rw [insertItem]
      split
      · rename_i hac
        refine List.pairwise_cons.mpr ⟨?_, h⟩
        intro b hb
        rcases List.mem_cons.mp hb with rfl | hb
        · exact hac
        · exact hac.trans (hc b hb)
      · split
        · exact h
        · rename_i hlt hne
          refine List.pairwise_cons.mpr ⟨?_, ih hl⟩
          intro b hb
          rcases mem_insertItem.mp hb with rfl | hb
          · exact lt_of_le_of_ne (not_lt.mp hlt) (Ne.symm hne)
          · exact hc b hb

def empty : SortedSet α := ⟨[], List.Pairwise.nil⟩

instance : EmptyCollection (SortedSet α) := ⟨empty⟩

instance : Membership α (SortedSet α) := ⟨fun s a => a ∈ s.items⟩

instance (a : α) (s : SortedSet α) : Decidable (a ∈ s) :=
  inferInstanceAs (Decidable (a ∈ s.items))

instance : DecidableEq (SortedSet α) := fun s t =>
  decidable_of_iff (s.items = t.items) (by cases s; cases t; simp)

def insert (a : α) (s : SortedSet α) : SortedSet α :=
  ⟨insertItem a s.items, pairwise_insertItem a s.sorted⟩

def remove (a : α) (s : SortedSet α) : SortedSet α :=
  ⟨s.items.filter (· ≠ a), s.sorted.filter _⟩

/-- The members of a list, inserted from the left. -/
def ofList (l : List α) : SortedSet α := l.foldl (fun s a => s.insert a) ∅

theorem mem_def {a : α} {s : SortedSet α} : a ∈ s ↔ a ∈ s.items := Iff.rfl

@[simp] theorem notMem_empty (a : α) : a ∉ (∅ : SortedSet α) := List.not_mem_nil

@[simp] theorem items_empty : (∅ : SortedSet α).items = [] := rfl

@[simp] theorem mem_insert {a b : α} {s : SortedSet α} : b ∈ s.insert a ↔ b = a ∨ b ∈ s :=
  mem_insertItem

@[simp] theorem mem_remove {a b : α} {s : SortedSet α} : b ∈ s.remove a ↔ b ∈ s ∧ b ≠ a := by
  simp [remove, mem_def]

/-- A set is determined by its members. -/
@[ext] theorem ext {s t : SortedSet α} (h : ∀ a, a ∈ s ↔ a ∈ t) : s = t := by
  have hperm : s.items.Perm t.items :=
    (List.perm_ext_iff_of_nodup (s.sorted.imp ne_of_lt) (t.sorted.imp ne_of_lt)).mpr h
  have heq : s.items = t.items :=
    hperm.eq_of_pairwise (fun a b _ _ hab hba => absurd hab (not_lt.mpr hba.le))
      s.sorted t.sorted
  cases s
  cases t
  simpa using heq

theorem mem_foldl_insert {l : List α} {s : SortedSet α} {a : α} :
    a ∈ l.foldl (fun s a => s.insert a) s ↔ a ∈ l ∨ a ∈ s := by
  induction l generalizing s with
  | nil => simp
  | cons b l ih =>
      rw [List.foldl_cons, ih, mem_insert, List.mem_cons, ← or_assoc, or_comm (a := a = b)]

@[simp] theorem mem_ofList {l : List α} {a : α} : a ∈ ofList l ↔ a ∈ l := by
  simp [ofList, mem_foldl_insert]

theorem ofList_items (s : SortedSet α) : ofList s.items = s := by
  ext a
  exact mem_ofList

theorem length_ofList_le (l : List α) : (ofList l).items.length ≤ l.length := by
  have hsub : (ofList l).items ⊆ l := by
    intro a ha
    exact mem_ofList.mp ha
  have hnodup : (ofList l).items.Nodup := (ofList l).sorted.imp ne_of_lt
  exact (hnodup.subperm hsub).length_le

/-- A set that holds all members of a set at least as large is that set. -/
theorem eq_of_subset_of_length_le {s t : SortedSet α} (hsub : ∀ a ∈ s, a ∈ t)
    (hlen : t.items.length ≤ s.items.length) : s = t := by
  have hnodup : s.items.Nodup := s.sorted.imp ne_of_lt
  have hperm : s.items.Perm t.items := (hnodup.subperm hsub).perm_of_length_le hlen
  ext a
  exact hperm.mem_iff

/-- A map that sends the members of a set onto that set permutes them. So a
weight that the map never lowers is one that it keeps. -/
theorem weight_eq_of_ofList_map_eq {s : SortedSet α} {f : α → α} {w : α → Int}
    (h : ofList (s.items.map f) = s) (hw : ∀ a ∈ s, w a ≤ w (f a)) {a : α} (ha : a ∈ s) :
    w (f a) = w a := by
  have hsub : s.items ⊆ s.items.map f := by
    intro b hb
    have hmem : b ∈ ofList (s.items.map f) := by
      rw [h]
      exact hb
    exact mem_ofList.mp hmem
  have hnodup : s.items.Nodup := s.sorted.imp ne_of_lt
  have hperm : s.items.Perm (s.items.map f) :=
    (hnodup.subperm hsub).perm_of_length_le (by simp)
  have hsum : (s.items.map w).sum = (s.items.map fun b => w (f b)).sum := by
    rw [(hperm.map w).sum_eq, List.map_map]
    rfl
  have hrest (l : List α) (hl : ∀ b ∈ l, w b ≤ w (f b)) :
      (l.map w).sum ≤ (l.map fun b => w (f b)).sum := List.sum_le_sum hl
  obtain ⟨p, q, hpq⟩ := List.append_of_mem (mem_def.mp ha)
  have hp := hrest p fun b hb => hw b (mem_def.mpr (by simp [hpq, hb]))
  have hq := hrest q fun b hb => hw b (mem_def.mpr (by simp [hpq, hb]))
  have ha := hw a ha
  simp only [hpq, List.map_append, List.map_cons, List.sum_append, List.sum_cons] at hsum
  omega

end SortedSet

/-- One step of an edit script. -/
inductive Edit (α : Type*) where
  | insert (a : α)
  | delete (a : α)
  deriving DecidableEq

namespace Edit

def run (s : SortedSet α) : Edit α → SortedSet α
  | .insert a => s.insert a
  | .delete a => s.remove a

/-- The effect of a script on a set. -/
def apply (es : List (Edit α)) (s : SortedSet α) : SortedSet α := es.foldl run s

/-- The members that the script removes at some point. -/
def removed : List (Edit α) → List α
  | [] => []
  | .insert _ :: es => removed es
  | .delete a :: es => a :: removed es

/-- The members that the script inserts and does not remove afterwards. -/
def added : List (Edit α) → List α
  | [] => []
  | .insert a :: es => if a ∈ removed es then added es else a :: added es
  | .delete _ :: es => added es

/-- A member survives a script when the script adds it, or when it was there and
the script does not remove it. -/
theorem mem_apply {es : List (Edit α)} {s : SortedSet α} {a : α} :
    a ∈ apply es s ↔ a ∈ added es ∨ (a ∈ s ∧ a ∉ removed es) := by
  induction es generalizing s with
  | nil => simp [apply, added, removed]
  | cons e es ih =>
      change a ∈ apply es (run s e) ↔ _
      rw [ih]
      cases e with
      | insert b =>
          simp only [run, SortedSet.mem_insert, added, removed]
          split
          · grind
          · grind
      | delete b =>
          simp only [run, SortedSet.mem_remove, added, removed, List.mem_cons]
          grind

theorem mem_apply_empty {es : List (Edit α)} {a : α} : a ∈ apply es ∅ ↔ a ∈ added es := by
  simp [mem_apply]

theorem apply_append (es fs : List (Edit α)) (s : SortedSet α) :
    apply (es ++ fs) s = apply fs (apply es s) := by
  simp [apply]

/-- A script does to a set what it does to the empty one exactly when it removes
or adds every member of that set. -/
theorem apply_empty_eq_apply_iff {es : List (Edit α)} {s : SortedSet α} :
    apply es ∅ = apply es s ↔ ∀ a ∈ s, a ∈ removed es ∨ a ∈ added es := by
  constructor
  · intro h a ha
    by_cases hrem : a ∈ removed es
    · exact Or.inl hrem
    · have hmem : a ∈ apply es s := mem_apply.mpr (Or.inr ⟨ha, hrem⟩)
      rw [← h, mem_apply_empty] at hmem
      exact Or.inr hmem
  · intro h
    ext a
    rw [mem_apply_empty, mem_apply]
    constructor
    · exact Or.inl
    · rintro (hadd | ⟨ha, hrem⟩)
      · exact hadd
      · exact (h a ha).resolve_left hrem

end Edit

end Foundation
