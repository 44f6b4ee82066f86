import Mathlib.Logic.Basic

/-!
# Fallible steps and updates in place

What it takes for a sequence of steps that may fail to succeed: every step of it
succeeds, and every guard lets it through. An update in place may fail, and by
then it may have changed the state. `Atomic u` says that a failure of `u` leaves
no trace; a loop over atomic updates leaves what the rounds before the failing
one have done. `outcome` is what a caller sees that drops the state of a failed
update.
-/

namespace Foundation

namespace Fallible

universe u

variable {ε : Type*} {α β : Type u}

theorem bind_eq_ok_iff {x : Except ε α} {f : α → Except ε β} {b : β} :
    x >>= f = .ok b ↔ ∃ a, x = .ok a ∧ f a = .ok b := by
  cases x with
  | error e =>
      constructor
      · intro h
        cases h
      · rintro ⟨a, ha, -⟩
        cases ha
  | ok a =>
      constructor
      · intro h
        exact ⟨a, rfl, h⟩
      · rintro ⟨a', ha, h⟩
        cases ha
        exact h

theorem map_eq_ok_iff {x : Except ε α} {f : α → β} {b : β} :
    x.map f = .ok b ↔ ∃ a, x = .ok a ∧ f a = b := by
  cases x with
  | error e => simp [Except.map]
  | ok a => simp [Except.map]

theorem guard_eq_ok_iff {p : Prop} [Decidable p] {e : ε} {x : Except ε α} {a : α} :
    (if p then .error e else x) = .ok a ↔ ¬ p ∧ x = .ok a := by
  by_cases hp : p
  · simp [hp]
  · simp [hp]

/-- A guard that throws, in front of the steps `f` that nothing comes to. -/
theorem throw_guard_eq_ok_iff {β : Type u} {p : Prop} [Decidable p] {e : ε}
    {f : β → Except ε α} {x : Except ε α} {a : α} :
    (if p then (throw e : Except ε β) >>= f else x) = .ok a ↔ ¬ p ∧ x = .ok a :=
  guard_eq_ok_iff

end Fallible

end Foundation

namespace Foundation

def InPlace (ε σ α : Type*) := σ → Except ε α × σ

namespace InPlace

variable {ε ι : Type*} {σ α β : Type}

instance : Monad (InPlace ε σ) where
  pure a := fun s => (.ok a, s)
  bind u f := fun s =>
    match u s with
    | (.ok a, s') => f a s'
    | (.error e, s') => (.error e, s')

/-- A computation that only reads. -/
def reads (f : σ → Except ε α) : InPlace ε σ α := fun s => (f s, s)

/-- An update that writes in its last step, behind every check. -/
def commit (f : σ → Except ε σ) : InPlace ε σ Unit := fun s =>
  match f s with
  | .ok s' => (.ok (), s')
  | .error e => (.error e, s)

def forEach (f : ι → InPlace ε σ Unit) : List ι → InPlace ε σ Unit
  | [] => pure ()
  | i :: l => f i >>= fun _ => forEach f l

def outcome (u : InPlace ε σ Unit) (s : σ) : Except ε σ := (u s).1.map fun _ => (u s).2

/-- What a failure can leave: the state from before, or one that `left` allows. -/
def AtomicUpTo (left : σ → σ → Prop) (u : InPlace ε σ α) : Prop :=
  ∀ s e s', u s = (.error e, s') → s' = s ∨ left s s'

def Atomic (u : InPlace ε σ α) : Prop := AtomicUpTo (fun _ _ => False) u

theorem bind_apply (u : InPlace ε σ α) (f : α → InPlace ε σ β) (s : σ) :
    (u >>= f) s =
      match u s with
      | (.ok a, s') => f a s'
      | (.error e, s') => (.error e, s') :=
  rfl

theorem Atomic.upTo {left : σ → σ → Prop} {u : InPlace ε σ α} (h : Atomic u) :
    AtomicUpTo left u := by
  intro s e s' hs
  exact .inl ((h s e s' hs).resolve_right id)

theorem atomic_commit (f : σ → Except ε σ) : Atomic (commit f) := by
  intro s e s' h
  rw [commit] at h
  cases hf : f s with
  | ok t =>
      rw [hf] at h
      cases h
  | error e' =>
      rw [hf] at h
      cases h
      exact .inl rfl

/-- Reading first adds nothing that a failure could leave. -/
theorem atomicUpTo_reads_bind {left : σ → σ → Prop} {f : σ → Except ε α}
    {g : α → InPlace ε σ β} (h : ∀ s a, f s = .ok a → ∀ e s', g a s = (.error e, s') →
      s' = s ∨ left s s') : AtomicUpTo left (reads f >>= g) := by
  intro s e s' hs
  rw [bind_apply, reads] at hs
  cases hf : f s with
  | ok a =>
      rw [hf] at hs
      exact h s a hf e s' hs
  | error e' =>
      rw [hf] at hs
      cases hs
      exact .inl rfl

/-! ## What a caller sees -/

theorem outcome_reads_bind (f : σ → Except ε α) (g : α → InPlace ε σ Unit) (s : σ) :
    outcome (reads f >>= g) s = f s >>= fun a => outcome (g a) s := by
  rw [outcome, bind_apply, reads]
  cases f s with
  | ok a => rfl
  | error e => rfl

theorem outcome_commit (f : σ → Except ε σ) (s : σ) : outcome (commit f) s = f s := by
  rw [outcome, commit]
  cases f s with
  | ok t => rfl
  | error e => rfl

theorem outcome_bind (u v : InPlace ε σ Unit) (s : σ) :
    outcome (u >>= fun _ => v) s = outcome u s >>= fun t => outcome v t := by
  rw [outcome, bind_apply, outcome]
  rcases u s with ⟨r, t⟩
  cases r with
  | ok a => rfl
  | error e => rfl

theorem outcome_forEach (f : ι → InPlace ε σ Unit) (l : List ι) (s : σ) :
    outcome (forEach f l) s = l.foldlM (fun s i => outcome (f i) s) s := by
  induction l generalizing s with
  | nil => rfl
  | cons i l ih =>
      rw [forEach, outcome_bind, List.foldlM_cons]
      exact congrArg (outcome (f i) s >>= ·) (funext ih)

/-- A loop that fails has gone through the rounds before the failing one, and that
round has left the rest. -/
theorem exists_of_forEach_eq_error {f : ι → InPlace ε σ Unit} {l : List ι} {s s' : σ} {e : ε}
    (h : forEach f l s = (.error e, s')) :
    ∃ done i rest t, l = done ++ i :: rest ∧ forEach f done s = (.ok (), t) ∧
      f i t = (.error e, s') := by
  induction l generalizing s with
  | nil => cases h
  | cons i l ih =>
      rw [forEach, bind_apply] at h
      rcases hi : f i s with ⟨r, t⟩
      rw [hi] at h
      cases r with
      | error e' =>
          cases h
          exact ⟨[], i, l, s, rfl, rfl, hi⟩
      | ok a =>
          obtain ⟨done, j, rest, t', rfl, hdone, hj⟩ := ih h
          refine ⟨i :: done, j, rest, t', rfl, ?_, hj⟩
          rw [forEach, bind_apply, hi]
          exact hdone

end InPlace

end Foundation
