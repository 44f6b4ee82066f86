import SolidPod.Foundation.Text

/-!
# The place of a text in another

`firstInfix` gives the place of the first occurrence of a list in another, `find`
is the same for texts, and `rfind` gives the place of the last occurrence of a
character.
-/

namespace Foundation

section FirstInfix

variable {α : Type*} [DecidableEq α]

/-- Where `p` first occurs in a list. -/
def firstInfix (p : List α) : List α → Option Nat
  | [] => if p = [] then some 0 else none
  | c :: cs => if p.isPrefixOf (c :: cs) then some 0 else (firstInfix p cs).map (· + 1)

theorem firstInfix_eq_none {p s : List α} : firstInfix p s = none ↔ ¬ p <:+: s := by
  induction s with
  | nil =>
      rw [firstInfix, List.infix_nil]
      split_ifs with h <;> simp [h]
  | cons c cs ih =>
      rw [firstInfix, List.infix_cons_iff, not_or, ← List.isPrefixOf_iff_prefix]
      split_ifs with h
      · simp [h]
      · rw [Option.map_eq_none_iff, ih]
        simp [h]

/-- The first occurrence, and no other one lies before it. -/
theorem firstInfix_eq_some {p s : List α} {n : Nat} (h : firstInfix p s = some n) :
    (∃ a b, s = a ++ (p ++ b) ∧ a.length = n) ∧ ∀ a b, s = a ++ (p ++ b) → n ≤ a.length := by
  induction s generalizing n with
  | nil =>
      rw [firstInfix] at h
      split_ifs at h with hp
      cases h
      exact ⟨⟨[], [], by rw [hp]; rfl, rfl⟩, fun a b _ => Nat.zero_le _⟩
  | cons c cs ih =>
      rw [firstInfix] at h
      split_ifs at h with hp
      · cases h
        obtain ⟨b, hb⟩ := List.isPrefixOf_iff_prefix.mp hp
        exact ⟨⟨[], b, hb.symm, rfl⟩, fun a b _ => Nat.zero_le _⟩
      · obtain ⟨m, hm, rfl⟩ := Option.map_eq_some_iff.mp h
        obtain ⟨⟨a, b, hab, ha⟩, hmin⟩ := ih hm
        refine ⟨⟨c :: a, b, by rw [hab, List.cons_append], by rw [List.length_cons, ha]⟩, ?_⟩
        intro a' b' heq
        cases a' with
        | nil =>
            refine absurd (List.isPrefixOf_iff_prefix.mpr ⟨b', ?_⟩) hp
            exact heq.symm
        | cons d a' =>
            rw [List.length_cons]
            exact Nat.succ_le_succ (hmin a' b' (List.cons.inj heq).2)

/-- A place that no occurrence ends before is the first one. -/
theorem firstInfix_append_append {p a b : List α} (hfirst : ¬ p <:+: a ++ p.dropLast) :
    firstInfix p (a ++ (p ++ b)) = some a.length := by
  cases h : firstInfix p (a ++ (p ++ b)) with
  | none =>
      refine absurd ?_ (firstInfix_eq_none.mp h)
      exact (List.prefix_append p b).isInfix.trans (List.suffix_append a _).isInfix
  | some n =>
      obtain ⟨⟨a', b', heq, hlen⟩, hmin⟩ := firstInfix_eq_some h
      have hle := hmin a b rfl
      rcases hle.eq_or_lt with hn | hn
      · rw [hn]
      · refine absurd ?_ hfirst
        have hshort : (a' ++ p).length ≤ (a ++ p.dropLast).length := by
          rw [List.length_append, List.length_append, List.length_dropLast]
          omega
        have hleft : a' ++ p <+: a ++ (p ++ b) := ⟨b', by rw [heq, List.append_assoc]⟩
        have hright : a ++ p.dropLast <+: a ++ (p ++ b) := by
          rw [List.prefix_append_right_inj]
          exact (List.dropLast_prefix p).trans (List.prefix_append p b)
        have hprefix := List.prefix_of_prefix_length_le hleft hright hshort
        exact (List.suffix_append a' p).isInfix.trans hprefix.isInfix

theorem exists_append_firstInfix {p s : List α} (hp : p ≠ []) (h : p <:+: s) :
    ∃ a b, s = a ++ (p ++ b) ∧ ¬ p <:+: a ++ p.dropLast := by
  obtain ⟨n, hn⟩ := Option.ne_none_iff_exists'.mp fun hnone => firstInfix_eq_none.mp hnone h
  obtain ⟨⟨a, b, hs, ha⟩, hmin⟩ := firstInfix_eq_some hn
  refine ⟨a, b, hs, ?_⟩
  rintro ⟨x, y, hxy⟩
  have hpos := List.length_pos_of_ne_nil hp
  obtain ⟨z, hz⟩ := List.dropLast_prefix p
  have hsplit : s = x ++ (p ++ (y ++ (z ++ b))) := by
    calc s = a ++ p.dropLast ++ (z ++ b) := by
          rw [hs, List.append_assoc, ← List.append_assoc p.dropLast, hz]
      _ = x ++ (p ++ (y ++ (z ++ b))) := by
          rw [← hxy, List.append_assoc, List.append_assoc]
  have hle := hmin x _ hsplit
  have hlen := congrArg List.length hxy
  simp only [List.length_append, List.length_dropLast] at hlen
  omega

end FirstInfix

namespace Str

/-- Where `p` first occurs. -/
def find (p : Str) : Str → Option Nat
  | [] => if p = [] then some 0 else none
  | c :: cs => if p.isPrefixOf (c :: cs) then some 0 else (find p cs).map (· + 1)

/-- Where `c` last occurs. -/
def rfind (c : Char) : Str → Option Nat
  | [] => none
  | d :: ds =>
    match rfind c ds with
    | some n => some (n + 1)
    | none => if d = c then some 0 else none

theorem find_eq_firstInfix (p s : Str) : find p s = firstInfix p s := by
  induction s with
  | nil => rfl
  | cons c cs ih => rw [find, firstInfix, ih]

theorem find_eq_none {p s : Str} : find p s = none ↔ ¬ p <:+: s := by
  rw [find_eq_firstInfix, firstInfix_eq_none]

/-- The first occurrence, and no other one lies before it. -/
theorem find_eq_some {p s : Str} {n : Nat} (h : find p s = some n) :
    (∃ a b, s = a ++ (p ++ b) ∧ a.length = n) ∧ ∀ a b, s = a ++ (p ++ b) → n ≤ a.length := by
  rw [find_eq_firstInfix] at h
  exact firstInfix_eq_some h

/-- A place that no occurrence ends before is the first one. -/
theorem find_append_of_not_infix {p a b : Str} (hfirst : ¬ p <:+: a ++ p.dropLast) :
    find p (a ++ (p ++ b)) = some a.length := by
  rw [find_eq_firstInfix]
  exact firstInfix_append_append hfirst

theorem exists_first_infix {p s : Str} (hp : p ≠ []) (h : p <:+: s) :
    ∃ a b, s = a ++ (p ++ b) ∧ ¬ p <:+: a ++ p.dropLast :=
  exists_append_firstInfix hp h

theorem rfind_eq_none {c : Char} {s : Str} : rfind c s = none ↔ c ∉ s := by
  induction s with
  | nil => simp [rfind]
  | cons d ds ih =>
      rw [rfind, List.mem_cons, not_or, ← ih]
      cases rfind c ds with
      | some n => simp
      | none =>
          by_cases h : d = c
          · simp [h]
          · simp [h, Ne.symm h]

/-- The last occurrence, and none follows it. -/
theorem rfind_eq_some {c : Char} {s : Str} {n : Nat} (h : rfind c s = some n) :
    ∃ p r, s = p ++ c :: r ∧ p.length = n ∧ c ∉ r := by
  induction s generalizing n with
  | nil => cases h
  | cons d ds ih =>
      rw [rfind] at h
      cases hrest : rfind c ds with
      | some m =>
          rw [hrest] at h
          cases h
          obtain ⟨p, r, hds, hp, hr⟩ := ih hrest
          exact ⟨d :: p, r, by rw [hds, List.cons_append], by rw [List.length_cons, hp], hr⟩
      | none =>
          rw [hrest] at h
          simp only at h
          split_ifs at h with hd
          cases h
          exact ⟨[], ds, by rw [hd]; rfl, rfl, rfind_eq_none.mp hrest⟩

/-- The beginnings of a text that end in `c` end at its last `c` or before. -/
theorem append_singleton_prefix_iff {c : Char} {p q r : Str} (hr : c ∉ r) :
    p ++ [c] <+: q ++ c :: r ↔ p = q ∨ p ++ [c] <+: q := by
  constructor
  · rintro ⟨z, hz⟩
    rw [List.append_assoc, List.singleton_append] at hz
    rcases List.append_eq_append_iff.mp hz with ⟨w, rfl, hw⟩ | ⟨w, rfl, hw⟩
    · cases w with
      | nil => exact Or.inl (List.append_nil p).symm
      | cons d w =>
          obtain ⟨rfl, -⟩ := List.cons.inj hw
          exact Or.inr ⟨w, by rw [List.append_assoc, List.singleton_append]⟩
    · cases w with
      | nil => exact Or.inl (List.append_nil q)
      | cons d w =>
          obtain ⟨-, rfl⟩ := List.cons.inj hw
          exact absurd (List.mem_append_right w List.mem_cons_self) hr
  · rintro (rfl | h)
    · exact ⟨r, by rw [List.append_assoc, List.singleton_append]⟩
    · exact h.trans (List.prefix_append q (c :: r))

/-- The last `c` from a place on is the last one of the text. -/
theorem split_of_rfind_drop {c : Char} {s : Str} {m n : Nat} (h : rfind c (s.drop m) = some n) :
    ∃ q r, s = q ++ c :: r ∧ q.length = m + n ∧ c ∉ r := by
  obtain ⟨p, r, hsplit, hp, hr⟩ := rfind_eq_some h
  have hlength := congrArg List.length hsplit
  rw [List.length_drop, List.length_append, List.length_cons] at hlength
  refine ⟨s.take m ++ p, r, ?_, ?_, hr⟩
  · rw [List.append_assoc, ← hsplit, List.take_append_drop]
  · rw [List.length_append, List.length_take, hp]
    omega

end Str

end Foundation
