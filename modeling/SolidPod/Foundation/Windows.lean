import Mathlib.Data.Int.Order.Basic
import Mathlib.Data.List.Basic
import Mathlib.Data.List.Induction

/-!
# Windows of time

A log of instants, oldest first, is limited if each entry had fewer than `max`
entries in the `window` before it. Then no stretch of time that is shorter than
the window, so no half-open interval of its length, holds more than `max`
entries. To know the entries of a window it is enough to keep those of an
earlier one and what came since. A thing that is replaced is retired and kept
with the time of its retirement, until a pruning finds that it was kept for the
retention. A use needs its thing up to a deadline, which lies less than the
retention after the use, so the thing is not pruned before.
-/

namespace Foundation

namespace SlidingWindow

/-- The entries after an instant. -/
def after (cutoff : Int) (log : List Int) : List Int := log.filter fun t => cutoff < t

/-- Each entry had room in the window before it. -/
def Limited (max window : Nat) (log : List Int) : Prop :=
  ∀ pre t post, log = pre ++ t :: post → (after (t - window) pre).length < max

variable {max window : Nat} {log : List Int} {t c c' : Int}

@[simp] theorem after_nil (c : Int) : after c [] = [] := rfl

theorem after_append (c : Int) (l l' : List Int) : after c (l ++ l') = after c l ++ after c l' :=
  List.filter_append l l'

theorem after_after (h : c ≤ c') (log : List Int) : after c' (after c log) = after c' log := by
  rw [after, after, List.filter_filter]
  refine List.filter_congr fun t _ => ?_
  by_cases ht : c' < t
  · rw [decide_eq_true ht, decide_eq_true (Int.lt_of_le_of_lt h ht), Bool.and_self]
  · rw [decide_eq_false ht, Bool.false_and]

theorem Limited.nil : Limited max window [] := by
  intro pre t post heq
  exact absurd heq (by simp)

theorem Limited.concat (h : Limited max window log)
    (hroom : (after (t - window) log).length < max) : Limited max window (log ++ [t]) := by
  intro pre s post heq
  rcases List.eq_nil_or_concat' post with rfl | ⟨front, r, rfl⟩
  · obtain ⟨rfl, hlast⟩ := List.append_inj' heq rfl
    cases hlast
    exact hroom
  · rw [← List.cons_append, ← List.append_assoc] at heq
    obtain ⟨hlog, -⟩ := List.append_inj' heq rfl
    exact h pre s front hlog

theorem Limited.left {log' : List Int} (h : Limited max window (log ++ log')) :
    Limited max window log := by
  intro pre t post heq
  exact h pre t (post ++ log') (by rw [heq, List.append_assoc, List.cons_append])

/-- Entries that lie less than a window apart are at most `max`. -/
theorem Limited.countP_le (h : Limited max window log) {p : Int → Bool}
    (hp : ∀ s t, p s = true → p t = true → t - window < s) : log.countP p ≤ max := by
  induction log using List.reverseRecOn with
  | nil => exact Nat.zero_le _
  | append_singleton log t ih =>
      rw [List.countP_append]
      by_cases ht : p t = true
      · have hroom := h log t [] rfl
        have hle : log.countP p ≤ (after (t - window) log).length := by
          rw [after, ← List.countP_eq_length_filter]
          refine List.countP_mono_left fun s _ hs => ?_
          exact decide_eq_true (hp s t hs ht)
        rw [List.countP_cons_of_pos ht, List.countP_nil]
        omega
      · rw [List.countP_cons_of_neg ht, List.countP_nil, Nat.add_zero]
        exact ih h.left

theorem Limited.countP_Ico_le (h : Limited max window log) (a : Int) :
    (log.countP fun t => a ≤ t ∧ t < a + window) ≤ max := by
  refine h.countP_le fun s t hs ht => ?_
  have hs := of_decide_eq_true hs
  have ht := of_decide_eq_true ht
  omega

theorem Limited.countP_Ioc_le (h : Limited max window log) (a : Int) :
    (log.countP fun t => a < t ∧ t ≤ a + window) ≤ max := by
  refine h.countP_le fun s t hs ht => ?_
  have hs := of_decide_eq_true hs
  have ht := of_decide_eq_true ht
  omega

end SlidingWindow

end Foundation

namespace Foundation

namespace Retirement

variable {κ : Type*}

/-- The retired things that were not kept for the retention yet. The clock is read
once for each of them. -/
def prune (retention : ℕ) (clock : ℕ → ℕ) (retired : List (κ × ℕ)) : List (κ × ℕ) :=
  (retired.zipIdx.filter fun e => clock e.2 - e.1.2 < retention).map Prod.fst

/-- What is needed up to a deadline is there, or the deadline has passed. -/
inductive Covered (retention : ℕ) (active : κ) (retired : List (κ × ℕ)) (now : ℕ) (k : κ)
    (deadline : ℕ) : Prop where
  | active (hk : k = active) (hdeadline : deadline < now + retention)
  | retired (since : ℕ) (hmem : (k, since) ∈ retired) (hsince : since ≤ now)
      (hdeadline : deadline < since + retention)
  | passed (hdeadline : deadline < now)

variable {retention now now' deadline since : ℕ} {active k : κ} {retired : List (κ × ℕ)}
  {clock : ℕ → ℕ}

theorem mem_of_mem_prune {e : κ × ℕ} (h : e ∈ prune retention clock retired) : e ∈ retired := by
  obtain ⟨⟨e', i⟩, hmem, rfl⟩ := List.mem_map.mp h
  exact List.fst_mem_of_mem_zipIdx (List.mem_filter.mp hmem).1

/-- A pruning drops what some reading of the clock finds kept for long enough. -/
theorem mem_prune_or (retention : ℕ) (clock : ℕ → ℕ) {e : κ × ℕ} (h : e ∈ retired) :
    e ∈ prune retention clock retired ∨
      ∃ i < retired.length, e.2 + retention ≤ max (clock i) e.2 := by
  obtain ⟨i, hi, rfl⟩ := List.getElem_of_mem h
  have hmem : (retired[i], i) ∈ retired.zipIdx := by
    rw [List.mk_mem_zipIdx_iff_getElem?, List.getElem?_eq_getElem hi]
  by_cases hkept : clock i - retired[i].2 < retention
  · refine Or.inl (List.mem_map.mpr ⟨(retired[i], i), List.mem_filter.mpr ⟨hmem, ?_⟩, rfl⟩)
    exact decide_eq_true hkept
  · exact Or.inr ⟨i, hi, by omega⟩

theorem Covered.mono (h : Covered retention active retired now k deadline) (hnow : now ≤ now') :
    Covered retention active retired now' k deadline := by
  cases h with
  | active hk hdeadline => exact .active hk (by omega)
  | retired since hmem hsince hdeadline =>
      exact .retired since hmem (Nat.le_trans hsince hnow) hdeadline
  | passed hdeadline => exact .passed (by omega)

/-- Another thing is put into use, and the time is written down. -/
theorem Covered.retire (h : Covered retention active retired now k deadline) (hnow : now ≤ since)
    (next : κ) :
    Covered retention next (retired ++ [(active, since)]) since k deadline := by
  cases h.mono hnow with
  | active hk hdeadline =>
      subst hk
      exact .retired since (List.mem_append_right retired (List.mem_singleton_self _))
        (Nat.le_refl _)
        hdeadline
  | retired since' hmem hsince hdeadline =>
      exact .retired since' (List.mem_append_left _ hmem) hsince hdeadline
  | passed hdeadline => exact .passed hdeadline

theorem Covered.prune (h : Covered retention active retired now k deadline)
    (hclock : ∀ i < retired.length, clock i ≤ now) :
    Covered retention active (prune retention clock retired) now k deadline := by
  cases h with
  | active hk hdeadline => exact .active hk hdeadline
  | passed hdeadline => exact .passed hdeadline
  | retired since hmem hsince hdeadline =>
      rcases mem_prune_or retention clock hmem with hkept | ⟨i, hi, hold⟩
      · exact .retired since hkept hsince hdeadline
      · have hread : max (clock i) since ≤ now := Nat.max_le.mpr ⟨hclock i hi, hsince⟩
        exact .passed (by omega)

/-- While the deadline has not passed, the thing is there. -/
theorem Covered.mem (h : Covered retention active retired now k deadline) (hlive : now ≤ deadline) :
    k ∈ active :: retired.map Prod.fst := by
  cases h with
  | active hk _ => exact hk ▸ List.mem_cons_self
  | retired since hmem _ _ =>
      exact List.mem_cons_of_mem active (List.mem_map.mpr ⟨(k, since), hmem, rfl⟩)
  | passed hdeadline => exact absurd hlive (Nat.not_le.mpr hdeadline)

end Retirement

end Foundation
