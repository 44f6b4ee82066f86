import Mathlib.Data.List.Induction
import Mathlib.Logic.Function.Basic
import SolidPod.Foundation.Lockstep

/-!
# Registers

A table of registers holds a value or nothing under each key. A write sets one
register. After a list of writes a register holds what the last write to its key has
set, and what it held before if there was none. A machine that answers questions shows a
table when what it holds under the keys is the table. If each of its steps does to the table
what the answer tells, then after a run it shows the table that the history of questions
and answers tells of.
-/

namespace Foundation

namespace Register

variable {K V : Type*} [DecidableEq K]

/-- One write, of a value or of nothing. -/
abbrev Write (K V : Type*) := K × Option V

def write (table : K → Option V) (w : Write K V) : K → Option V := Function.update table w.1 w.2

/-- The table after some writes, the first one first. -/
def replay (table : K → Option V) (ws : List (Write K V)) : K → Option V := ws.foldl write table

/-- The last write to a key. -/
def lastWrite (k : K) (ws : List (Write K V)) : Option (Option V) :=
  ws.reverse.findSome? fun w => if w.1 = k then some w.2 else none

variable {table : K → Option V} {ws ws' : List (Write K V)} {k : K} {v : Option V}

@[simp] theorem replay_nil : replay table [] = table := rfl

theorem replay_append : replay table (ws ++ ws') = replay (replay table ws) ws' :=
  List.foldl_append

theorem replay_concat (w : Write K V) : replay table (ws ++ [w]) = write (replay table ws) w :=
  List.foldl_append

theorem write_self : write table (k, v) k = v := by
  rw [write]
  exact Function.update_self k v table

theorem write_of_ne {k' : K} (h : k' ≠ k) : write table (k, v) k' = table k' := by
  rw [write]
  exact Function.update_of_ne h v table

theorem lastWrite_concat (w : Write K V) :
    lastWrite k (ws ++ [w]) = if w.1 = k then some w.2 else lastWrite k ws := by
  rw [lastWrite, List.reverse_append, List.reverse_singleton, List.singleton_append,
    List.findSome?_cons]
  by_cases h : w.1 = k
  · simp only [if_pos h]
  · simp only [if_neg h]
    rfl

/-- A register holds what its last write has set. -/
theorem replay_apply : replay table ws k = (lastWrite k ws).getD (table k) := by
  induction ws using List.reverseRecOn with
  | nil => rfl
  | append_singleton ws w ih =>
      rw [replay_concat, lastWrite_concat]
      by_cases h : w.1 = k
      · subst h
        rw [if_pos rfl]
        exact write_self
      · rw [if_neg h, ← ih]
        exact write_of_ne (Ne.symm h)

/-- The writes that a history of questions and answers tells of, where the write of one
question may depend on the table it is asked of. -/
def writesOf {A R : Type*} (told : (K → Option V) → A → R → List (Write K V)) :
    (K → Option V) → List (A × R) → List (Write K V)
  | _, [] => []
  | table, (a, r) :: history =>
    told table a r ++ writesOf told (replay table (told table a r)) history

/-- A state shows a table under the keys that are asked for. -/
def Shows {S : Type*} (shown : S → K → Option V) (asked : K → Prop) (s : S)
    (table : K → Option V) : Prop :=
  ∀ k, asked k → shown s k = table k

/-- If each step does to what is shown what its answer tells of, then what is shown after a run
is the table after the writes that its history tells of. -/
theorem shows_final {S A R : Type*} {step : S → A → R × S} {shown : S → K → Option V}
    {asked : K → Prop} {told : (K → Option V) → A → R → List (Write K V)}
    (hstep : ∀ s table a, Shows shown asked s table →
      Shows shown asked (step s a).2 (replay table (told table a (step s a).1)))
    {s : S} {table : K → Option V} (h : Shows shown asked s table) (as : List A) :
    Shows shown asked (Lockstep.final step s as)
      (replay table (writesOf told table (as.zip (Lockstep.run step s as)))) := by
  induction as generalizing s table with
  | nil => exact h
  | cons a as ih =>
      rw [Lockstep.run, List.zip_cons_cons, writesOf, replay_append]
      exact ih (hstep s table a h)

end Register

end Foundation
