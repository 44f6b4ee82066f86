import Mathlib.Data.List.MinMax
import Mathlib.Order.Nat

/-!
# Choices from a list

The first entry with the largest key depends on the order of a list: each of the entries with
the largest key comes first in some order. What is read off the first one is the same in every
order exactly when it is the same for all of them.

Where the key is a time and some entries may be the same, a choice of the latest ones takes as
many as a limit allows, none of them twice, and leaves out nothing that is later than what it
takes. If the list is in the order of the times and has no entry twice, its end is such a
choice.

The first answer that is given does not depend on who is asked first, or how often, if those
who answer give the same answer.
-/

namespace Foundation

namespace FirstMaximum

variable {α β γ δ : Type*} [LinearOrder β] {f : α → β} {l l' : List α} {a : α}

def IsTop (f : α → β) (l : List α) (a : α) : Prop := a ∈ l ∧ ∀ b ∈ l, f b ≤ f a

theorem isTop_of_argmax (h : l.argmax f = some a) : IsTop f l a :=
  ⟨List.argmax_mem h, fun _ hb => List.le_of_mem_argmax hb h⟩

theorem isTop_perm (h : l'.Perm l) : IsTop f l' a ↔ IsTop f l a := by
  simp only [IsTop, h.mem_iff]

theorem argmax_cons_of_forall_le (h : ∀ b ∈ l, f b ≤ f a) : (a :: l).argmax f = some a := by
  rw [List.argmax_cons]
  cases hmax : l.argmax f with
  | none => rfl
  | some c => exact if_neg (not_lt.mpr (h c (List.argmax_mem hmax)))

variable {pick : δ → Option α} {g : α → γ} {L : List δ}

/-- An entry with the largest key is the first of them in some order. -/
theorem exists_perm_argmax (h : IsTop f (L.filterMap pick) a) :
    ∃ L' : List δ, L'.Perm L ∧ (L'.filterMap pick).argmax f = some a := by
  obtain ⟨hmem, hle⟩ := h
  obtain ⟨i, hi, hpick⟩ := List.mem_filterMap.mp hmem
  obtain ⟨s, t, rfl⟩ := List.append_of_mem hi
  refine ⟨i :: (s ++ t), List.perm_middle.symm, ?_⟩
  rw [List.filterMap_cons_some hpick]
  refine argmax_cons_of_forall_le fun b hb => hle b ?_
  have hperm : ((i :: (s ++ t)).filterMap pick).Perm ((s ++ i :: t).filterMap pick) :=
    List.perm_middle.symm.filterMap pick
  rw [← hperm.mem_iff, List.filterMap_cons_some hpick]
  exact List.mem_cons_of_mem a hb

theorem argmax_perm_iff (d : γ) :
    (∀ L' : List δ, L'.Perm L → ((L'.filterMap pick).argmax f).elim d g =
      ((L.filterMap pick).argmax f).elim d g) ↔
      ∀ a b, IsTop f (L.filterMap pick) a → IsTop f (L.filterMap pick) b → g a = g b := by
  constructor
  · intro h a b ha hb
    obtain ⟨La, hLa, hmaxa⟩ := exists_perm_argmax ha
    obtain ⟨Lb, hLb, hmaxb⟩ := exists_perm_argmax hb
    have hsame := (h La hLa).trans (h Lb hLb).symm
    rwa [hmaxa, hmaxb] at hsame
  · intro h L' hperm
    have hfilter := hperm.filterMap pick
    cases hmax : (L.filterMap pick).argmax f with
    | none =>
        rw [List.argmax_eq_none] at hmax
        rw [hmax] at hfilter
        rw [hfilter.eq_nil]
        rfl
    | some a =>
        cases hmax' : (L'.filterMap pick).argmax f with
        | none =>
            rw [List.argmax_eq_none] at hmax'
            rw [hmax'] at hfilter
            rw [← hfilter.nil_eq] at hmax
            cases hmax
        | some b =>
            exact h b a ((isTop_perm hfilter).mp (isTop_of_argmax hmax')) (isTop_of_argmax hmax)

end FirstMaximum

section Latest

variable {α : Type*}

/-- The last entries of a list, all of them if there is no limit. -/
def lastOf (limit : Option ℕ) (l : List α) : List α :=
  match limit with
  | none => l
  | some n => l.drop (l.length - n)

structure IsLatest (same : α → α → Prop) (time : α → ℕ) (limit : Option ℕ) (l t : List α) :
    Prop where
  subset : ∀ x ∈ t, x ∈ l
  distinct : t.Pairwise fun x y => ¬ same x y
  length_le : ∀ n, limit = some n → t.length ≤ n
  /-- Nothing is left out as long as there is room. -/
  all : (∀ n, limit = some n → t.length < n) → ∀ y ∈ l, ∃ x ∈ t, same x y
  latest : ∀ x ∈ t, ∀ y ∈ l, (∀ z ∈ t, ¬ same z y) → time y ≤ time x

variable {same : α → α → Prop} {time : α → ℕ} {limit : Option ℕ} {l : List α}

theorem lastOf_sublist (limit : Option ℕ) (l : List α) : (lastOf limit l).Sublist l := by
  cases limit with
  | none => exact .refl l
  | some n => exact List.drop_sublist _ l

/-- The end of a list in the order of its times. -/
theorem isLatest_lastOf (hrefl : ∀ x, same x x) (hdistinct : l.Pairwise fun x y => ¬ same x y)
    (hsorted : l.Pairwise fun x y => time x ≤ time y) :
    IsLatest same time limit l (lastOf limit l) where
  subset _ hx := (lastOf_sublist limit l).subset hx
  distinct := hdistinct.sublist (lastOf_sublist limit l)
  length_le := by
    rintro n rfl
    rw [lastOf, List.length_drop]
    omega
  all := by
    intro hroom y hy
    refine ⟨y, ?_, hrefl y⟩
    cases limit with
    | none => exact hy
    | some n =>
        have hlt := hroom n rfl
        rw [lastOf, List.length_drop] at hlt
        have hall : l.length - n = 0 := by omega
        rw [lastOf, hall]
        exact hy
  latest := by
    intro x hx y hy hleft
    cases limit with
    | none => exact absurd (hrefl y) (hleft y hy)
    | some n =>
        rw [lastOf] at hx hleft
        rw [← List.take_append_drop (l.length - n) l] at hy hsorted
        rw [List.pairwise_append] at hsorted
        rcases List.mem_append.mp hy with hfront | hback
        · exact hsorted.2.2 y hfront x hx
        · exact absurd (hrefl y) (hleft y hback)

/-- Of two entries that are not the same, a choice of one takes the later one. -/
theorem IsLatest.le_of_pair {x y : α} {t : List α} (h : IsLatest same time (some 1) [x, y] t)
    (hx : ∀ z ∈ t, ¬ same z x) (hy : ∃ z ∈ t, same z y) (hne : ¬ same x y) :
    time x ≤ time y := by
  obtain ⟨z, hz, hzy⟩ := hy
  rcases List.mem_pair.mp (h.subset z hz) with rfl | rfl
  · exact absurd hzy hne
  · exact h.latest z hz x List.mem_cons_self hx

end Latest

namespace FirstAnswer

variable {α β : Type*} {f : α → Option β} {l l' : List α}

theorem findSome?_eq_of_agree (hset : ∀ x, x ∈ l ↔ x ∈ l')
    (hagree : ∀ x ∈ l, ∀ y ∈ l, ∀ a b, f x = some a → f y = some b → a = b) :
    l.findSome? f = l'.findSome? f := by
  cases h : l.findSome? f with
  | none =>
      have hnone := List.findSome?_eq_none_iff.mp h
      exact (List.findSome?_eq_none_iff.mpr fun x hx => hnone x ((hset x).mpr hx)).symm
  | some a =>
      obtain ⟨x, hx, ha⟩ := List.exists_of_findSome?_eq_some h
      cases h' : l'.findSome? f with
      | none =>
          have hnone := List.findSome?_eq_none_iff.mp h' x ((hset x).mp hx)
          cases hnone.symm.trans ha
      | some b =>
          obtain ⟨y, hy, hb⟩ := List.exists_of_findSome?_eq_some h'
          rw [hagree x hx y ((hset y).mpr hy) a b ha hb]

end FirstAnswer

end Foundation
