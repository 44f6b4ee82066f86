import Mathlib.Data.List.Infix

/-!
# A breaker

Misses in a row are counted, and a hit sets the count back. Once the count has
reached the threshold nothing is tried any more, so the count stays where it is:
the breaker is open exactly when some stretch of the tries was as many misses as
the threshold says.
-/

namespace Foundation

namespace Breaker

/-- The count after one more try, which is made only below the threshold. -/
def count (threshold n : ℕ) (hit : Bool) : ℕ :=
  if threshold ≤ n then n else if hit then 0 else n + 1

/-- The misses since the last hit. -/
def missesAtEnd (hits : List Bool) : ℕ := (hits.reverse.takeWhile (!·)).length

variable {threshold n k : ℕ} {hit : Bool} {hits : List Bool}

theorem count_of_le (h : threshold ≤ n) : count threshold n hit = n := if_pos h

theorem count_of_lt (h : n < threshold) :
    count threshold n hit = if hit then 0 else n + 1 := if_neg (Nat.not_le.mpr h)

theorem missesAtEnd_append_singleton :
    missesAtEnd (hits ++ [hit]) = if hit then 0 else missesAtEnd hits + 1 := by
  cases hit <;> simp [missesAtEnd]

theorem replicate_suffix_iff : List.replicate k false <:+ hits ↔ k ≤ missesAtEnd hits := by
  induction hits using List.reverseRecOn generalizing k with
  | nil => simp [missesAtEnd]
  | append_singleton hits hit ih =>
      rw [missesAtEnd_append_singleton]
      cases k with
      | zero => simp
      | succ k =>
          have hlength : [false].length = [hit].length := rfl
          rw [List.replicate_succ', List.suffix_append_inj_of_length_eq hlength, ih]
          cases hit <;> simp

/-- The breaker is open when the tries had a stretch of misses as long as the
threshold. Until then the count is that of the misses since the last hit. -/
theorem le_foldl_count_iff (threshold : ℕ) (hits : List Bool) :
    (threshold ≤ hits.foldl (count threshold) 0 ↔ List.replicate threshold false <:+: hits) ∧
      (¬ List.replicate threshold false <:+: hits →
        hits.foldl (count threshold) 0 = missesAtEnd hits) := by
  induction hits using List.reverseRecOn with
  | nil => simp [missesAtEnd]
  | append_singleton hits hit ih =>
      obtain ⟨hopen, hcount⟩ := ih
      rw [List.foldl_append, List.foldl_cons, List.foldl_nil, List.infix_concat_iff,
        replicate_suffix_iff, missesAtEnd_append_singleton]
      by_cases hin : List.replicate threshold false <:+: hits
      · have hle := hopen.mpr hin
        rw [count_of_le hle]
        exact ⟨iff_of_true hle (Or.inr hin), fun h => absurd (Or.inr hin) h⟩
      · have hlt := Nat.lt_of_not_le fun hle => hin (hopen.mp hle)
        rw [count_of_lt hlt, hcount hin]
        exact ⟨⟨Or.inl, fun h => h.resolve_right hin⟩, fun _ => rfl⟩

end Breaker

end Foundation
