import SolidPod.Foundation.Text

/-!
# Cutting a text at its top level

A splitter reads a text from left to right, keeps a state (how many brackets
are open, whether a string is open), and cuts at the characters its state says
are separators. What lies between two cuts is one piece. The rules below say
how a text put together from known parts is cut: a part that holds no separator
for the state it is met in only extends the current piece.
-/

namespace Foundation

/-- A left-to-right cutter: its state after a character, and whether it cuts
there. -/
structure Splitter (σ : Type*) where
  step : σ → Char → σ
  cuts : σ → Char → Bool

namespace Splitter

variable {σ : Type*} (m : Splitter σ)

/-- The state after a text. -/
def run (s : σ) (t : Str) : σ := t.foldl m.step s

/-- The pieces of a text, `cur` being what the current piece already holds.
The last piece is there even when it is empty. -/
def pieces : σ → Str → Str → List Str
  | _, cur, [] => [cur]
  | s, cur, c :: cs =>
    if m.cuts s c then cur :: pieces (m.step s c) [] cs
    else pieces (m.step s c) (cur ++ [c]) cs

/-- No character of the text is a separator in the state it is met in. -/
def Passes : σ → Str → Prop
  | _, [] => True
  | s, c :: cs => m.cuts s c = false ∧ Passes (m.step s c) cs

@[simp] theorem run_nil (s : σ) : m.run s [] = s := rfl

theorem run_cons (s : σ) (c : Char) (cs : Str) : m.run s (c :: cs) = m.run (m.step s c) cs := rfl

theorem run_append (s : σ) (a b : Str) : m.run s (a ++ b) = m.run (m.run s a) b := by
  simp [run]

@[simp] theorem passes_nil (s : σ) : m.Passes s [] := trivial

theorem passes_cons (s : σ) (c : Char) (cs : Str) :
    m.Passes s (c :: cs) ↔ m.cuts s c = false ∧ m.Passes (m.step s c) cs := Iff.rfl

theorem passes_append (s : σ) (a b : Str) :
    m.Passes s (a ++ b) ↔ m.Passes s a ∧ m.Passes (m.run s a) b := by
  induction a generalizing s with
  | nil => simp
  | cons c a ih => rw [List.cons_append, passes_cons, passes_cons, ih, and_assoc, run_cons]

theorem pieces_ne_nil (s : σ) (cur t : Str) : m.pieces s cur t ≠ [] := by
  induction t generalizing s cur with
  | nil => simp [pieces]
  | cons c t ih =>
      rw [pieces]
      split
      · simp
      · exact ih _ _

/-- A part without separators extends the current piece. -/
theorem pieces_append_of_passes {s : σ} {a : Str} (h : m.Passes s a) (cur b : Str) :
    m.pieces s cur (a ++ b) = m.pieces (m.run s a) (cur ++ a) b := by
  induction a generalizing s cur with
  | nil => simp
  | cons c a ih =>
      rw [passes_cons] at h
      rw [List.cons_append, pieces, h.1, if_neg (by simp), ih h.2, run_cons]
      simp

theorem pieces_of_passes {s : σ} {a : Str} (h : m.Passes s a) (cur : Str) :
    m.pieces s cur a = [cur ++ a] := by
  simpa [pieces] using m.pieces_append_of_passes h cur []

theorem pieces_cons_of_cuts {s : σ} {c : Char} (h : m.cuts s c = true) (cur b : Str) :
    m.pieces s cur (c :: b) = cur :: m.pieces (m.step s c) [] b := by
  rw [pieces, if_pos h]

/-- A text is one piece, or its first piece ends at the first separator. -/
theorem pieces_cases (s : σ) (cur t : Str) :
    (m.Passes s t ∧ m.pieces s cur t = [cur ++ t]) ∨
      ∃ p c rest, t = p ++ c :: rest ∧ m.Passes s p ∧ m.cuts (m.run s p) c = true ∧
        m.pieces s cur t = (cur ++ p) :: m.pieces (m.step (m.run s p) c) [] rest := by
  induction t generalizing s cur with
  | nil => exact Or.inl ⟨trivial, by simp [pieces]⟩
  | cons d t ih =>
      rw [pieces]
      by_cases hd : m.cuts s d = true
      · refine Or.inr ⟨[], d, t, rfl, trivial, hd, ?_⟩
        rw [if_pos hd, List.append_nil, m.run_nil]
      · rw [if_neg hd]
        rcases ih (m.step s d) (cur ++ [d]) with ⟨hpass, hp⟩ | ⟨p, c, rest, rfl, hpass, hcut, hp⟩
        · refine Or.inl ⟨⟨by simpa using hd, hpass⟩, ?_⟩
          rw [hp, List.append_assoc, List.singleton_append]
        · refine Or.inr ⟨d :: p, c, rest, rfl, ⟨by simpa using hd, hpass⟩, hcut, ?_⟩
          rw [hp, List.append_assoc, List.singleton_append, m.run_cons]

/-- A part that the splitter passes through and leaves in the state it was
entered in. -/
def Neutral (s : σ) (a : Str) : Prop := m.Passes s a ∧ m.run s a = s

theorem neutral_nil (s : σ) : m.Neutral s [] := ⟨trivial, rfl⟩

instance decidablePasses : (s : σ) → (t : Str) → Decidable (m.Passes s t)
  | _, [] => isTrue trivial
  | s, c :: cs =>
    have := decidablePasses (m.step s c) cs
    inferInstanceAs (Decidable (m.cuts s c = false ∧ m.Passes (m.step s c) cs))

instance [DecidableEq σ] (s : σ) (t : Str) : Decidable (m.Neutral s t) :=
  inferInstanceAs (Decidable (_ ∧ _))

variable {m}

theorem Neutral.append {s : σ} {a b : Str} (ha : m.Neutral s a) (hb : m.Neutral s b) :
    m.Neutral s (a ++ b) := by
  refine ⟨(m.passes_append s a b).mpr ⟨ha.1, ?_⟩, ?_⟩
  · rw [ha.2]
    exact hb.1
  · rw [m.run_append, ha.2, hb.2]

/-- A part that is neutral where it stands can be put in. -/
theorem Neutral.insert {s : σ} {a r b : Str} (h : m.Neutral s (a ++ b))
    (hr : m.Neutral (m.run s a) r) : m.Neutral s (a ++ r ++ b) := by
  obtain ⟨hpass, hrun⟩ := h
  rw [m.passes_append] at hpass
  rw [m.run_append] at hrun
  constructor
  · rw [m.passes_append, m.passes_append, m.run_append, hr.2]
    exact ⟨⟨hpass.1, hr.1⟩, hpass.2⟩
  · rw [m.run_append, m.run_append, hr.2, hrun]

theorem Neutral.flatMap {ι : Type*} {s : σ} {l : List ι} {f : ι → Str}
    (h : ∀ i ∈ l, m.Neutral s (f i)) : m.Neutral s (l.flatMap f) := by
  induction l with
  | nil => exact m.neutral_nil s
  | cons i l ih =>
      rw [List.flatMap_cons]
      exact (h i (by simp)).append (ih fun j hj => h j (by simp [hj]))

/-- A character that neither cuts nor changes the state is neutral. -/
theorem neutral_of_forall {s : σ} {a : Str}
    (h : ∀ c ∈ a, m.cuts s c = false ∧ m.step s c = s) : m.Neutral s a := by
  induction a with
  | nil => exact m.neutral_nil s
  | cons c a ih =>
      obtain ⟨hcut, hstep⟩ := h c (by simp)
      have hrest := ih fun d hd => h d (by simp [hd])
      refine ⟨⟨hcut, ?_⟩, ?_⟩
      · rw [hstep]
        exact hrest.1
      · rw [m.run_cons, hstep, hrest.2]

theorem Neutral.join {s : σ} {sep : Str} {l : List Str} (hsep : m.Neutral s sep)
    (h : ∀ a ∈ l, m.Neutral s a) : m.Neutral s (Str.join sep l) := by
  cases l with
  | nil => exact m.neutral_nil s
  | cons a l =>
      rw [Str.join_cons]
      exact (h a (by simp)).append (Neutral.flatMap fun b hb => hsep.append (h b (by simp [hb])))

/-- A splitter that starts afresh on every line passes through each of them. -/
theorem passes_of_mem_lines {s : σ} (hnewline : ∀ s', m.step s' '\n' = s) {ls : List Str}
    (h : m.Passes s (ls.flatMap fun l => l ++ ['\n'])) : ∀ l ∈ ls, m.Passes s l := by
  induction ls with
  | nil => simp
  | cons l ls ih =>
      rw [List.flatMap_cons, List.append_assoc, passes_append] at h
      obtain ⟨hl, -, hrest⟩ := h
      rw [hnewline] at hrest
      exact List.forall_mem_cons.mpr ⟨hl, ih hrest⟩

/-! ## Pieces up to white space -/

/-- Text that is passed in every state, as white space is, extends the last
piece. -/
theorem map_trim_pieces_append_blank {w : Str} (hw : ∀ c ∈ w, Str.isWhitespace c = true)
    (hpass : ∀ s, m.Passes s w) (s : σ) (cur t : Str) :
    (m.pieces s cur (t ++ w)).map Str.trim = (m.pieces s cur t).map Str.trim := by
  induction t generalizing s cur with
  | nil =>
      rw [List.nil_append, m.pieces_of_passes (hpass s)]
      simp [pieces, Str.trim_append_blank hw]
  | cons c t ih =>
      rw [List.cons_append, pieces, pieces]
      by_cases hc : m.cuts s c = true
      · rw [if_pos hc, if_pos hc, List.map_cons, List.map_cons, ih]
      · rw [if_neg hc, if_neg hc, ih]

/-- The pieces of parts that a separator stands before. -/
theorem map_trim_pieces_separated {ι : Type*} {s : σ} {c : Char} {w : Str}
    (hw : ∀ c ∈ w, Str.isWhitespace c = true) (hpass : m.Neutral s w) (hc : m.cuts s c = true)
    (hs : m.step s c = s) {l : List ι} {f : ι → Str} (h : ∀ i ∈ l, m.Neutral s (f i)) (cur : Str) :
    (m.pieces s cur (l.flatMap fun i => w ++ c :: f i)).map Str.trim =
      Str.trim cur :: l.map fun i => Str.trim (f i) := by
  induction l generalizing cur with
  | nil => simp [pieces]
  | cons i l ih =>
      obtain ⟨hpart, hrun⟩ := h i (by simp)
      rw [List.flatMap_cons, List.append_assoc, m.pieces_append_of_passes hpass.1, hpass.2,
        List.cons_append, m.pieces_cons_of_cuts hc, hs, m.pieces_append_of_passes hpart, hrun,
        List.map_cons, ih (fun j hj => h j (by simp [hj])), Str.trim_append_blank hw]
      simp

/-- The pieces of parts that are each ended by a separator and white space. -/
theorem map_trim_pieces_ended {ι : Type*} {s : σ} {c : Char} {w : Str}
    (hw : ∀ c ∈ w, Str.isWhitespace c = true) (hpass : m.Neutral s w) (hc : m.cuts s c = true)
    (hs : m.step s c = s) {l : List ι} {f : ι → Str} (h : ∀ i ∈ l, m.Neutral s (f i)) {cur : Str}
    (hcur : ∀ c ∈ cur, Str.isWhitespace c = true) :
    (m.pieces s cur (l.flatMap fun i => f i ++ c :: w)).map Str.trim =
      (l.map fun i => Str.trim (f i)) ++ [[]] := by
  induction l generalizing cur with
  | nil => simp [pieces, Str.trim_of_blank hcur]
  | cons i l ih =>
      obtain ⟨hpart, hrun⟩ := h i (by simp)
      rw [List.flatMap_cons, List.append_assoc, m.pieces_append_of_passes hpart, hrun,
        List.cons_append, m.pieces_cons_of_cuts hc, hs, m.pieces_append_of_passes hpass.1, hpass.2,
        List.map_cons, List.nil_append, ih (fun j hj => h j (by simp [hj])) hw,
        Str.trim_blank_append hcur]
      simp

end Splitter

end Foundation
