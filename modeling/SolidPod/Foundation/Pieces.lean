import SolidPod.Foundation.Occurrence
import SolidPod.Foundation.Splitter

/-!
# Where a piece lies

A piece of a text is passed from the state it is met in, it starts where the
text starts or behind a cut, and it ends where the text ends or before a cut. A
text that is put together from parts with a separator between them has pieces
that start where a part starts, when no part is cut inside.
-/

namespace Foundation

namespace Str

variable {a p b q r : Str} {c : Char}

/-- A front part of two texts ends in the first or goes on in the second. -/
theorem isPrefix_append_iff {t : Str} :
    t <+: a ++ b ↔ t <+: a ∨ ∃ t', t = a ++ t' ∧ t' <+: b := by
  constructor
  · intro h
    rcases List.prefix_or_prefix_of_prefix h (List.prefix_append a b) with hshort | ⟨t', rfl⟩
    · exact Or.inl hshort
    · exact Or.inr ⟨t', rfl, (List.prefix_append_right_inj a).mp h⟩
  · rintro (h | ⟨t', rfl, h⟩)
    · exact h.trans (List.prefix_append a b)
    · exact (List.prefix_append_right_inj a).mpr h

/-- An occurrence lies on one side of a character that is not in it. -/
theorem append_eq_append_cons (hc : c ∉ p) (h : a ++ p ++ b = q ++ c :: r) :
    (∃ b', q = a ++ p ++ b' ∧ b = b' ++ c :: r) ∨ ∃ a', a = q ++ c :: a' ∧ r = a' ++ p ++ b := by
  rcases List.append_eq_append_iff.mp h with ⟨b', hq, hb⟩ | ⟨t, hap, hr⟩
  · exact Or.inl ⟨b', hq, hb⟩
  · cases t with
    | nil =>
        refine Or.inl ⟨[], ?_, ?_⟩
        · rw [List.append_nil] at hap ⊢
          exact hap.symm
        · rw [List.nil_append] at hr ⊢
          exact hr.symm
    | cons d t =>
        obtain ⟨rfl, rfl⟩ := List.cons.inj hr
        rcases List.append_eq_append_iff.mp hap with ⟨s, rfl, rfl⟩ | ⟨s, rfl, hs⟩
        · exact absurd (by simp) hc
        · cases s with
          | nil =>
              rw [List.nil_append] at hs
              exact absurd (hs ▸ List.mem_cons_self) hc
          | cons e s =>
              obtain ⟨rfl, rfl⟩ := List.cons.inj hs
              exact Or.inr ⟨s, rfl, rfl⟩

/-- An occurrence that ends before a separator ends before the first one, or
lies behind it. -/
theorem append_cons_eq_append_cons (hc : c ∉ p) (hq : c ∉ q)
    (h : a ++ p ++ c :: b = q ++ c :: r) :
    (a ++ p = q ∧ b = r) ∨ ∃ a', a = q ++ c :: a' ∧ r = a' ++ p ++ c :: b := by
  rcases append_eq_append_cons hc h with ⟨b', rfl, hb⟩ | hright
  · cases b' with
    | nil =>
        rw [List.nil_append] at hb
        exact Or.inl ⟨(List.append_nil _).symm, (List.cons.inj hb).2⟩
    | cons d b' =>
        obtain ⟨rfl, -⟩ := List.cons.inj hb
        exact absurd (by simp) hq
  · exact Or.inr hright

/-- What is behind the last of a character tells what is before it. -/
theorem eq_of_append_cons {t : Str} (ht : c ∉ t)
    (h : p ++ c :: t = q ++ c :: r) : p = q ∨ q ++ [c] <+: p := by
  rcases List.append_eq_append_iff.mp h with ⟨s, hs, hright⟩ | ⟨s, hs, hright⟩
  · cases s with
    | nil => exact Or.inl (by rw [hs, List.append_nil])
    | cons d s =>
        obtain ⟨-, htail⟩ := List.cons.inj hright
        exact absurd (htail ▸ by simp) ht
  · cases s with
    | nil => exact Or.inl (by rw [hs, List.append_nil])
    | cons d s =>
        obtain ⟨rfl, -⟩ := List.cons.inj hright
        exact Or.inr ⟨s, by rw [hs]; simp⟩

/-- No part ends in `p`, so `p` stands before no separator. -/
theorem not_closed_of_parts (parts : List Str) (last : Str) (hp : c ∉ p)
    (hparts : ∀ q ∈ parts, c ∉ q ∧ ¬ p <:+ q) (hlast : c ∉ last) :
    parts.flatMap (fun q => q ++ [c]) ++ last ≠ a ++ p ++ c :: b := by
  induction parts generalizing a with
  | nil =>
      intro h
      rw [List.flatMap_nil, List.nil_append] at h
      exact hlast (h ▸ by simp)
  | cons q parts ih =>
      rw [List.forall_mem_cons] at hparts
      obtain ⟨⟨hq, hsuffix⟩, hparts⟩ := hparts
      intro h
      rw [List.flatMap_cons, List.append_assoc, List.append_assoc, List.singleton_append] at h
      rcases append_cons_eq_append_cons hp hq h.symm with ⟨hend, -⟩ | ⟨a', -, hrest⟩
      · exact hsuffix ⟨a, hend⟩
      · exact ih hparts hrest

end Str

namespace Splitter

variable {σ : Type*} (m : Splitter σ)

variable {m} in
/-- A text without the separator is passed. -/
theorem passes_of_notMem {c : Char} (hcut : ∀ s d, m.cuts s d = true → d = c) {t : Str}
    (h : c ∉ t) (s : σ) : m.Passes s t := by
  induction t generalizing s with
  | nil => trivial
  | cons d t ih =>
      rw [List.mem_cons, not_or] at h
      refine ⟨Bool.eq_false_iff.mpr fun hd => h.1 (hcut s d hd).symm, ih h.2 _⟩

/-- Where a piece lies: behind a cut, and before one. -/
theorem mem_pieces {s : σ} {t p : Str} (h : p ∈ m.pieces s [] t) :
    ∃ a b, t = a ++ p ++ b ∧ m.Passes (m.run s a) p ∧
      (a = [] ∨ ∃ a' c, a = a' ++ [c] ∧ m.cuts (m.run s a') c = true) ∧
      (b = [] ∨ ∃ c b', b = c :: b' ∧ m.cuts (m.run s (a ++ p)) c = true) := by
  generalize hn : t.length = n
  induction n using Nat.strong_induction_on generalizing s t with
  | _ n ih =>
      rcases m.pieces_cases s [] t with ⟨hpass, hp⟩ | ⟨q, c, rest, rfl, hpass, hcut, hp⟩
      · rw [hp, List.nil_append, List.mem_singleton] at h
        subst h
        exact ⟨[], [], by simp, hpass, Or.inl rfl, Or.inl rfl⟩
      · rw [hp, List.nil_append, List.mem_cons] at h
        rcases h with rfl | h
        · exact ⟨[], c :: rest, by simp, hpass, Or.inl rfl, Or.inr ⟨c, rest, rfl, hcut⟩⟩
        · have hlt : rest.length < n := by
            rw [← hn, List.length_append, List.length_cons]
            omega
          obtain ⟨a, b, rfl, hpiece, hbefore, hafter⟩ := ih _ hlt h rfl
          have hrun : ∀ u, m.run s (q ++ c :: u) = m.run (m.step (m.run s q) c) u := by
            intro u
            rw [m.run_append, m.run_cons]
          refine ⟨q ++ c :: a, b, by simp, ?_, Or.inr ?_, ?_⟩
          · rw [hrun]
            exact hpiece
          · rcases hbefore with rfl | ⟨a', d, rfl, hd⟩
            · exact ⟨q, c, rfl, hcut⟩
            · exact ⟨q ++ c :: a', d, by simp, by rw [hrun]; exact hd⟩
          · rcases hafter with rfl | ⟨d, b', rfl, hd⟩
            · exact Or.inl rfl
            · refine Or.inr ⟨d, b', rfl, ?_⟩
              rw [List.append_assoc, List.cons_append, hrun]
              exact hd

variable {m} in
/-- The first piece of a text ends where the first cut is. -/
theorem eq_of_first_piece {s : σ} {p q b r : Str} (h : p ++ b = q ++ r) (hp : m.Passes s p)
    (hq : m.Passes s q) (hb : b = [] ∨ ∃ c b', b = c :: b' ∧ m.cuts (m.run s p) c = true)
    (hr : r = [] ∨ ∃ c r', r = c :: r' ∧ m.cuts (m.run s q) c = true) : p = q := by
  have hends : ∀ {p t b r : Str}, m.Passes s (p ++ t) → b = t ++ r →
      (b = [] ∨ ∃ c b', b = c :: b' ∧ m.cuts (m.run s p) c = true) → t = [] := by
    rintro p t b r hpass rfl hb
    cases t with
    | nil => rfl
    | cons c t =>
        rcases hb with hnil | ⟨d, b', hd, hcut⟩
        · cases hnil
        · rw [List.cons_append] at hd
          obtain ⟨rfl, -⟩ := List.cons.inj hd
          have hno := ((m.passes_append s p (c :: t)).mp hpass).2.1
          rw [hcut] at hno
          cases hno
  rcases List.append_eq_append_iff.mp h with ⟨t, rfl, hbt⟩ | ⟨t, rfl, hrt⟩
  · rw [hends hq hbt hb, List.append_nil]
  · rw [hends hp hrt hr, List.append_nil]

/-! ## Parts with a separator between them -/

/-- No part is cut inside. -/
def PassesParts (c : Char) : σ → Str → List Str → Prop
  | s, t, [] => m.Passes s t
  | s, t, u :: us => m.Passes s t ∧ PassesParts c (m.step (m.run s t) c) u us

variable {m} in
/-- What holds of the state before a part, and lets the part pass, holds before every
part. -/
theorem PassesParts.of_invariant {P : σ → Prop} {c : Char} {s : σ} {t : Str} {ts : List Str}
    (hs : P s) (h : ∀ u ∈ t :: ts, ∀ s, P s → m.Passes s u ∧ P (m.step (m.run s u) c)) :
    m.PassesParts c s t ts := by
  induction ts generalizing s t with
  | nil => exact (h t (by simp) s hs).1
  | cons u us ih =>
      obtain ⟨hpass, hnext⟩ := h t (by simp) s hs
      exact ⟨hpass, ih hnext fun v hv => h v (List.mem_cons_of_mem t hv)⟩

variable {m} in
/-- A text that is put together from parts is cut at separators between them, and nowhere
else. -/
theorem PassesParts.of_cuts {c d : Char} {s : σ} {t : Str} {ts : List Str} {a b : Str}
    (hparts : m.PassesParts c s t ts) (htext : t ++ ts.flatMap (c :: ·) = a ++ d :: b)
    (hcut : m.cuts (m.run s a) d = true) :
    ∃ front u us, ts = front ++ u :: us ∧ b = u ++ us.flatMap (c :: ·) := by
  have hinside : ∀ e, m.Passes s t → t ≠ a ++ d :: e := by
    rintro e hpass rfl
    have hno := (m.passes_append s a (d :: e)).mp hpass
    rw [hno.2.1] at hcut
    cases hcut
  induction ts generalizing s t a with
  | nil =>
      rw [List.flatMap_nil, List.append_nil] at htext
      exact absurd htext (hinside b hparts)
  | cons u us ih =>
      obtain ⟨hpass, hrest⟩ := hparts
      rw [List.flatMap_cons, List.cons_append] at htext
      rcases List.append_eq_append_iff.mp htext with ⟨a', rfl, hright⟩ | ⟨t', rfl, hright⟩
      · cases a' with
        | nil =>
            rw [List.nil_append] at hright
            exact ⟨[], u, us, rfl, (List.cons.inj hright).2.symm⟩
        | cons e a' =>
            obtain ⟨rfl, htail⟩ := List.cons.inj hright
            rw [m.run_append, m.run_cons] at hcut
            have hinside' : ∀ e, m.Passes (m.step (m.run s t) c) u → u ≠ a' ++ d :: e := by
              rintro e hpassu rfl
              have hno := (m.passes_append _ a' (d :: e)).mp hpassu
              rw [hno.2.1] at hcut
              cases hcut
            obtain ⟨front, v, vs, rfl, hb⟩ := ih hrest htail hcut hinside'
            exact ⟨u :: front, v, vs, rfl, hb⟩
      · cases t' with
        | nil =>
            rw [List.nil_append] at hright
            exact ⟨[], u, us, rfl, (List.cons.inj hright).2⟩
        | cons e t' =>
            obtain ⟨rfl, -⟩ := List.cons.inj hright
            exact absurd rfl (hinside t' hpass)

end Splitter

/-! ## Brackets that are open already -/

namespace Splitter

variable {m : Splitter (Nat × Bool)}

/-- A cutter that counts open brackets, and cuts the less the more are open. -/
structure Monotone (m : Splitter (Nat × Bool)) : Prop where
  step : ∀ {d d' : Nat} (q : Bool) (c : Char), d ≤ d' →
    (m.step (d, q) c).1 ≤ (m.step (d', q) c).1 ∧ (m.step (d, q) c).2 = (m.step (d', q) c).2
  cuts : ∀ {d d' : Nat} {q : Bool} {c : Char}, d ≤ d' → m.cuts (d, q) c = false →
    m.cuts (d', q) c = false

/-- What is passed with some brackets open is passed with more of them open. -/
theorem Monotone.passes (hm : Monotone m) {d d' : Nat} (h : d ≤ d') {q : Bool} {t : Str}
    (hpass : m.Passes (d, q) t) :
    m.Passes (d', q) t ∧ (m.run (d, q) t).1 ≤ (m.run (d', q) t).1 ∧
      (m.run (d, q) t).2 = (m.run (d', q) t).2 := by
  induction t generalizing d d' q with
  | nil => exact ⟨trivial, h, rfl⟩
  | cons c t ih =>
      obtain ⟨hcut, hrest⟩ := hpass
      obtain ⟨hdepth, hquote⟩ := hm.step q c h
      rw [m.run_cons, m.run_cons, passes_cons]
      have hstep : m.step (d', q) c = ((m.step (d', q) c).1, (m.step (d, q) c).2) := by
        rw [hquote]
      obtain ⟨hpass', hrun⟩ := ih hdepth hrest
      rw [← hstep] at hpass' hrun
      exact ⟨⟨hm.cuts h hcut, hpass'⟩, hrun⟩

end Splitter

end Foundation
