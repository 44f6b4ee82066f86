import Mathlib.Logic.Basic

/-!
# What a program keeps

Programs with a state that may fail. `Keeps I p Q` says that `p` leads from states with the
invariant `I` to states with `I`, whether it fails or not, and that `Q` holds of the value it
returns. `Returns p a` says that `p` succeeds with `a`, whatever the state is. There is one rule
for each way of building a program.
-/

namespace Foundation

variable {σ ε ε' α β : Type}

abbrev Program (σ ε α : Type) := ExceptT ε (StateM σ) α

namespace Program

/-- A step that looks at the state, replaces it and succeeds or fails. -/
def step (f : σ → Except ε α × σ) : Program σ ε α := f

/-- The result and the state after a run. -/
def exec (p : Program σ ε α) (s : σ) : Except ε α × σ := p s

/-- The steps of `p`, with its errors renamed. -/
def mapError (f : ε → ε') (p : Program σ ε α) : Program σ ε' α :=
  fun s => ((p.exec s).1.mapError f, (p.exec s).2)

/-- A computation that does not touch the state. -/
def ofResult (r : Except ε α) : Program σ ε α := fun s => (r, s)

def fail (e : ε) : Program σ ε α := ofResult (.error e)

/-- Fail with `e` when `p` holds. -/
def rejectIf (p : Prop) [Decidable p] (e : ε) : Program σ ε Unit :=
  if p then fail e else ofResult (.ok ())

/-- What `p` does to the state stays when it fails and `q` takes over. -/
def orElse (p q : Program σ ε α) : Program σ ε α := fun s =>
  match p.exec s with
  | (.ok a, s') => (.ok a, s')
  | (.error _, s') => q.exec s'

theorem exec_bind (p : Program σ ε α) (f : α → Program σ ε β) (s : σ) :
    (p >>= f).exec s = match p.exec s with
      | (.ok a, s') => (f a).exec s'
      | (.error e, s') => (.error e, s') := by
  change (ExceptT.bind p f) s = _
  simp only [ExceptT.bind, ExceptT.mk, exec, bind, StateT.bind]
  cases h : p s with
  | mk r s' =>
      cases r with
      | error e => rfl
      | ok a => rfl

/-- A run that succeeds is a run of each part that succeeds. -/
theorem exists_of_exec_bind {p : Program σ ε α} {f : α → Program σ ε β} {s : σ} {b : β}
    (h : ((p >>= f).exec s).1 = .ok b) :
    ∃ a, (p.exec s).1 = .ok a ∧ ((f a).exec (p.exec s).2).1 = .ok b ∧
      ((p >>= f).exec s).2 = ((f a).exec (p.exec s).2).2 := by
  rw [exec_bind] at h ⊢
  cases hp : p.exec s with
  | mk r s' =>
      rw [hp] at h
      cases r with
      | error e => cases h
      | ok a => exact ⟨a, rfl, h, rfl⟩

theorem exec_orElse (p q : Program σ ε α) (s : σ) :
    (p.orElse q).exec s = match p.exec s with
      | (.ok a, s') => (.ok a, s')
      | (.error _, s') => q.exec s' := rfl

theorem exec_rejectIf (p : Prop) [Decidable p] (e : ε) (s : σ) :
    (rejectIf p e).exec s = (if p then .error e else .ok (), s) := by
  by_cases hp : p
  · rw [rejectIf, if_pos hp, if_pos hp]
    rfl
  · rw [rejectIf, if_neg hp, if_neg hp]
    rfl

/-- `p` keeps the invariant `I` and returns values that satisfy `Q`. -/
def Keeps (I : σ → Prop) (p : Program σ ε α) (Q : α → Prop) : Prop :=
  ∀ s, I s → I (p.exec s).2 ∧ ∀ a, (p.exec s).1 = .ok a → Q a

namespace Keeps

variable {I : σ → Prop} {p q : Program σ ε α} {Q Q' : α → Prop}

theorem weaken (h : Keeps I p Q) (hQ : ∀ a, Q a → Q' a) : Keeps I p Q' :=
  fun s hs => ⟨(h s hs).1, fun a ha => hQ a ((h s hs).2 a ha)⟩

theorem ofResult {r : Except ε α} (h : ∀ a, r = .ok a → Q a) : Keeps I (ofResult r) Q :=
  fun _ hs => ⟨hs, h⟩

/-- A value that a computation returned, and not one of its errors. -/
theorem ofMapped {r : Except ε α} (g : ε → ε') :
    Keeps I (Program.ofResult (r.mapError g)) (fun a => r = .ok a) := by
  apply ofResult
  intro a ha
  cases r with
  | error e => cases ha
  | ok b =>
      cases ha
      rfl

theorem fail (e : ε) : Keeps I (fail e : Program σ ε α) Q := ofResult nofun

theorem pure {a : α} (h : Q a) : Keeps I (Pure.pure a : Program σ ε α) Q := by
  intro s hs
  constructor
  · exact hs
  · intro b hb
    cases hb
    exact h

theorem rejectIf (c : Prop) [Decidable c] (e : ε) :
    Keeps I (rejectIf c e : Program σ ε Unit) (fun _ => ¬ c) := by
  by_cases hc : c
  · rw [Program.rejectIf, if_pos hc]
    exact fail e
  · rw [Program.rejectIf, if_neg hc]
    exact ofResult fun _ _ => hc

theorem bind {f : α → Program σ ε β} {R : β → Prop} (hp : Keeps I p Q)
    (hf : ∀ a, Q a → Keeps I (f a) R) : Keeps I (p >>= f) R := by
  intro s hs
  have hafter := hp s hs
  rw [exec_bind]
  cases h : p.exec s with
  | mk r s' =>
      rw [h] at hafter
      cases r with
      | error e =>
          constructor
          · exact hafter.1
          · intro b hb
            cases hb
      | ok a => exact hf a (hafter.2 a rfl) s' hafter.1

theorem mapError (g : ε → ε') (h : Keeps I p Q) : Keeps I (p.mapError g) Q := by
  intro s hs
  have hafter := h s hs
  constructor
  · exact hafter.1
  · intro a ha
    exact hafter.2 a ((ofMapped (I := I) g s hs).2 a ha)

theorem orElse (hp : Keeps I p Q) (hq : Keeps I q Q) : Keeps I (p.orElse q) Q := by
  intro s hs
  have hafter := hp s hs
  rw [exec_orElse]
  cases h : p.exec s with
  | mk r s' =>
      rw [h] at hafter
      cases r with
      | error e => exact hq s' hafter.1
      | ok a => exact hafter

/-- The state after a run. -/
theorem after (h : Keeps I p Q) {s : σ} (hs : I s) : I (p.exec s).2 := (h s hs).1

end Keeps

/-- From every state, `p` returns `a`. -/
def Returns (p : Program σ ε α) (a : α) : Prop := ∀ s, (p.exec s).1 = .ok a

namespace Returns

variable {p : Program σ ε α} {a : α}

theorem ofResult {r : Except ε α} (h : r = .ok a) : Returns (ofResult r : Program σ ε α) a :=
  fun _ => h

theorem pure (a : α) : Returns (Pure.pure a : Program σ ε α) a := fun _ => rfl

theorem rejectIf {c : Prop} [Decidable c] (h : ¬ c) (e : ε) :
    Returns (rejectIf c e : Program σ ε Unit) () := by
  intro s
  rw [exec_rejectIf, if_neg h]

theorem mapError (g : ε → ε') (h : Returns p a) : Returns (p.mapError g) a := by
  intro s
  change (p.exec s).1.mapError g = .ok a
  rw [h s]
  rfl

theorem bind {f : α → Program σ ε β} {b : β} (hp : Returns p a) (hf : Returns (f a) b) :
    Returns (p >>= f) b := by
  intro s
  have hpa := hp s
  rw [exec_bind]
  cases h : p.exec s with
  | mk r s' =>
      rw [h] at hpa
      cases r with
      | error e => cases hpa
      | ok a' =>
          cases hpa
          exact hf s'

end Returns

end Program

end Foundation
