import Mathlib.Algebra.BigOperators.Group.List.Basic
import Mathlib.Algebra.Ring.Int.Defs
import Mathlib.Data.Finset.Basic

/-!
# Change feeds

A change names a key and says whether the key is there before it and after it. A
feed is coherent when each change finds what it says. The keys that a feed leaves
depend on its order, but two coherent feeds with the same changes leave the same
keys, and a change may be moved before the changes of other keys.
-/

namespace Foundation

structure Change (K : Type*) where
  key : K
  before : Bool
  after : Bool
  deriving DecidableEq

namespace Change

variable {K : Type*} [DecidableEq K]

def Fits (keys : Finset K) (c : Change K) : Prop := decide (c.key ∈ keys) = c.before

instance (keys : Finset K) (c : Change K) : Decidable (Fits keys c) :=
  inferInstanceAs (Decidable (_ = _))

def apply (keys : Finset K) (c : Change K) : Finset K :=
  if c.after then insert c.key keys else keys.erase c.key

def replay (keys : Finset K) (feed : List (Change K)) : Finset K := feed.foldl apply keys

/-- Each change fits the keys that the changes before it leave. -/
def Coherent : Finset K → List (Change K) → Prop
  | _, [] => True
  | keys, c :: feed => Fits keys c ∧ Coherent (apply keys c) feed

variable {keys : Finset K} {c d : Change K} {feed feed' : List (Change K)} {k : K}

theorem mem_apply : k ∈ apply keys c ↔ if c.key = k then c.after = true else k ∈ keys := by
  rw [apply]
  by_cases hkey : c.key = k
  · subst hkey
    cases c.after with
    | true => simp
    | false => simp
  · cases c.after with
    | true => simp [hkey, Ne.symm hkey]
    | false => simp [hkey, Ne.symm hkey]

theorem mem_apply_of_ne (h : c.key ≠ k) : k ∈ apply keys c ↔ k ∈ keys := by
  rw [mem_apply, if_neg h]

@[simp] theorem replay_nil : replay keys [] = keys := rfl

@[simp] theorem replay_cons : replay keys (c :: feed) = replay (apply keys c) feed := rfl

theorem replay_append : replay keys (feed ++ feed') = replay (replay keys feed) feed' :=
  List.foldl_append

theorem coherent_append :
    Coherent keys (feed ++ feed') ↔ Coherent keys feed ∧ Coherent (replay keys feed) feed' := by
  induction feed generalizing keys with
  | nil => simp [Coherent]
  | cons c feed ih => rw [List.cons_append, Coherent, Coherent, ih, replay_cons, and_assoc]

theorem coherent_concat :
    Coherent keys (feed ++ [c]) ↔ Coherent keys feed ∧ Fits (replay keys feed) c := by
  rw [coherent_append, Coherent, Coherent, and_true]

/-! ## The balance of a key -/

/-- What the changes of a feed add to the occurrences of a key. -/
def gain (k : K) (feed : List (Change K)) : ℤ :=
  (feed.map fun c => if c.key = k then (c.after.toNat : ℤ) - c.before.toNat else 0).sum

theorem gain_append : gain k (feed ++ feed') = gain k feed + gain k feed' := by
  rw [gain, List.map_append, List.sum_append, gain, gain]

theorem gain_perm (h : feed.Perm feed') : gain k feed = gain k feed' :=
  (h.map _).sum_eq

theorem Coherent.toNat_mem (h : Coherent keys feed) (k : K) :
    ((decide (k ∈ replay keys feed)).toNat : ℤ) =
      (decide (k ∈ keys)).toNat + gain k feed := by
  induction feed generalizing keys with
  | nil => rw [replay_nil, gain, List.map_nil, List.sum_nil, add_zero]
  | cons c feed ih =>
      obtain ⟨hfits, hrest⟩ := h
      rw [replay_cons, ih hrest, ← List.singleton_append, gain_append, ← add_assoc]
      congr 1
      by_cases hkey : c.key = k
      · subst hkey
        have hafter : decide (c.key ∈ apply keys c) = c.after := by
          simp [mem_apply]
        rw [hafter, hfits]
        simp [gain]
      · simp [gain, hkey, mem_apply_of_ne hkey]

theorem toNat_inj {a b : Bool} (h : a.toNat = b.toNat) : a = b := by
  cases a with
  | false => exact (Bool.toNat_eq_zero.mp h.symm).symm
  | true => exact (Bool.toNat_eq_one.mp h.symm).symm

/-- Coherent feeds with the same changes leave the same keys. -/
theorem Coherent.replay_eq_of_perm (h : Coherent keys feed) (h' : Coherent keys feed')
    (hperm : feed.Perm feed') : replay keys feed = replay keys feed' := by
  ext k
  have hmem := h.toNat_mem k
  rw [gain_perm hperm, ← h'.toNat_mem k, Int.natCast_inj] at hmem
  exact decide_eq_decide.mp (toNat_inj hmem)

/-! ## Changes of other keys -/

theorem fits_apply_of_ne (h : c.key ≠ d.key) : Fits (apply keys c) d ↔ Fits keys d := by
  rw [Fits, Fits, decide_eq_decide.mpr (mem_apply_of_ne h)]

theorem apply_comm (h : c.key ≠ d.key) :
    apply (apply keys c) d = apply (apply keys d) c := by
  ext k
  rw [mem_apply, mem_apply, mem_apply, mem_apply]
  by_cases hd : d.key = k
  · rw [if_pos hd, if_neg (by rw [← hd]; exact h), if_pos hd]
  · rw [if_neg hd, if_neg hd]

/-- A change may be moved before the changes of other keys. -/
theorem coherent_cons_of_forall_ne (h : ∀ d ∈ feed, d.key ≠ c.key) :
    Coherent keys (feed ++ c :: feed') ↔ Coherent keys (c :: (feed ++ feed')) := by
  induction feed generalizing keys with
  | nil => rfl
  | cons d feed ih =>
      have hd := h d List.mem_cons_self
      rw [List.cons_append, Coherent, ih fun e he => h e (List.mem_cons_of_mem d he), Coherent,
        fits_apply_of_ne hd, apply_comm hd, List.cons_append, Coherent, Coherent,
        fits_apply_of_ne (Ne.symm hd)]
      exact and_left_comm

/-! ## A part of the keys -/

theorem apply_filter (P : K → Bool) :
    (apply keys c).filter (P ·) =
      if P c.key then apply (keys.filter (P ·)) c else keys.filter (P ·) := by
  ext k
  by_cases hkey : c.key = k
  · subst hkey
    by_cases hP : P c.key = true
    · simp [hP, mem_apply]
    · simp [hP]
  · by_cases hP : P c.key = true
    · simp [hP, mem_apply_of_ne hkey]
    · simp [hP, mem_apply_of_ne hkey]

/-- What concerns a part of the keys is a feed for this part. -/
theorem replay_filter (P : K → Bool) : replay (keys.filter (P ·)) (feed.filter fun c => P c.key) =
    (replay keys feed).filter (P ·) := by
  induction feed generalizing keys with
  | nil => rfl
  | cons c feed ih =>
      rw [replay_cons, ← ih, apply_filter]
      by_cases hP : P c.key = true
      · rw [if_pos hP, List.filter_cons, if_pos hP, replay_cons]
      · rw [if_neg hP, List.filter_cons, if_neg hP]

theorem Coherent.filter (h : Coherent keys feed) (P : K → Bool) :
    Coherent (keys.filter (P ·)) (feed.filter fun c => P c.key) := by
  induction feed generalizing keys with
  | nil => trivial
  | cons c feed ih =>
      have hrest := ih h.2
      rw [apply_filter] at hrest
      by_cases hP : P c.key = true
      · rw [if_pos hP] at hrest
        rw [List.filter_cons, if_pos hP]
        refine ⟨?_, hrest⟩
        rw [Fits, ← h.1]
        simp [hP]
      · rw [if_neg hP] at hrest
        rw [List.filter_cons, if_neg hP]
        exact hrest

end Change

end Foundation
