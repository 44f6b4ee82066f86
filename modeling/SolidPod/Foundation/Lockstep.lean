import Mathlib.Data.List.Basic

/-!
# Two machines in lockstep, and traces

A machine answers a call and moves to its next state. Two machines that are
given the same calls answer alike, as long as a relation between their states is
kept by every step. The steps may ask for a condition on the states they start
from: then it is asked of the whole run. Two machines whose steps may fail end
alike on every beginning of a run exactly when they agree at each of its steps.
A machine that may answer a call in several ways has a relation for its steps
instead: its traces list the calls, each with the state after it.
-/

namespace Foundation

namespace Lockstep

variable {S T C R : Type*}

/-- The answers to the calls of a run. -/
def run (step : S → C → R × S) (s : S) : List C → List R
  | [] => []
  | c :: cs => (step s c).1 :: run step (step s c).2 cs

/-- The state after the calls of a run. -/
def final (step : S → C → R × S) (s : S) (cs : List C) : S :=
  cs.foldl (fun s c => (step s c).2) s

/-- The condition holds before each step of the two runs. -/
def Along (step₁ : S → C → R × S) (step₂ : T → C → R × T) (P : S → T → C → Prop) :
    S → T → List C → Prop
  | _, _, [] => True
  | s, t, c :: cs => P s t c ∧ Along step₁ step₂ P (step₁ s c).2 (step₂ t c).2 cs

/-- Related states answer alike and stay related, under the condition. -/
def Simulates (step₁ : S → C → R × S) (step₂ : T → C → R × T) (D : C → Prop)
    (P : S → T → C → Prop) (rel : S → T → Prop) : Prop :=
  ∀ s t c, rel s t → D c → P s t c →
    (step₁ s c).1 = (step₂ t c).1 ∧ rel (step₁ s c).2 (step₂ t c).2

variable {step₁ : S → C → R × S} {step₂ : T → C → R × T} {D : C → Prop}
  {P : S → T → C → Prop} {rel : S → T → Prop} {s : S} {t : T}

@[simp] theorem final_nil : final step₁ s [] = s := rfl

@[simp] theorem final_cons (c : C) (cs : List C) :
    final step₁ s (c :: cs) = final step₁ (step₁ s c).2 cs := rfl

theorem run_append (cs ds : List C) :
    run step₁ s (cs ++ ds) = run step₁ s cs ++ run step₁ (final step₁ s cs) ds := by
  induction cs generalizing s with
  | nil => rfl
  | cons c cs ih => rw [List.cons_append, run, run, ih, final_cons, List.cons_append]

theorem along_append (cs ds : List C) :
    Along step₁ step₂ P s t (cs ++ ds) ↔ Along step₁ step₂ P s t cs ∧
      Along step₁ step₂ P (final step₁ s cs) (final step₂ t cs) ds := by
  induction cs generalizing s t with
  | nil => simp [Along]
  | cons c cs ih => rw [List.cons_append, Along, Along, ih, final_cons, final_cons, and_assoc]

theorem along_of_forall (h : ∀ s t c, P s t c) (cs : List C) :
    Along step₁ step₂ P s t cs := by
  induction cs generalizing s t with
  | nil => trivial
  | cons c cs ih => exact ⟨h s t c, ih⟩

theorem run_eq (hstep : Simulates step₁ step₂ D P rel) {cs : List C} (hrel : rel s t)
    (hD : ∀ c ∈ cs, D c) (halong : Along step₁ step₂ P s t cs) :
    run step₁ s cs = run step₂ t cs := by
  induction cs generalizing s t with
  | nil => rfl
  | cons c cs ih =>
      obtain ⟨hP, hrest⟩ := halong
      obtain ⟨hanswer, hnext⟩ := hstep s t c hrel (hD c List.mem_cons_self) hP
      rw [run, run, hanswer, ih hnext (fun d hd => hD d (List.mem_cons_of_mem c hd)) hrest]

theorem rel_final (hstep : Simulates step₁ step₂ D P rel) {cs : List C} (hrel : rel s t)
    (hD : ∀ c ∈ cs, D c) (halong : Along step₁ step₂ P s t cs) :
    rel (final step₁ s cs) (final step₂ t cs) := by
  induction cs generalizing s t with
  | nil => exact hrel
  | cons c cs ih =>
      obtain ⟨hP, hrest⟩ := halong
      obtain ⟨-, hnext⟩ := hstep s t c hrel (hD c List.mem_cons_self) hP
      exact ih hnext (fun d hd => hD d (List.mem_cons_of_mem c hd)) hrest

/-! ## Steps that may fail -/

/-- The steps agree from each state that the run gets to. -/
def AgreeAlong (f g : S → C → Option S) : S → List C → Prop
  | _, [] => True
  | s, c :: cs => f s c = g s c ∧ ∀ t, g s c = some t → AgreeAlong f g t cs

theorem forall_prefix_foldlM_eq_iff {f g : S → C → Option S} {cs : List C} {s : S} :
    (∀ pre, pre <+: cs → pre.foldlM f s = pre.foldlM g s) ↔ AgreeAlong f g s cs := by
  induction cs generalizing s with
  | nil =>
      constructor
      · intro _
        trivial
      · intro _ pre hpre
        rw [List.prefix_nil.mp hpre]
        rfl
  | cons c cs ih =>
      rw [AgreeAlong]
      constructor
      · intro hall
        have hstep : f s c = g s c := by
          simpa using hall [c] (List.prefix_append [c] cs)
        refine ⟨hstep, ?_⟩
        intro t ht
        rw [← ih]
        intro pre hpre
        have hcons := hall (c :: pre) (List.cons_prefix_cons.mpr ⟨rfl, hpre⟩)
        rw [List.foldlM_cons, List.foldlM_cons, hstep, ht] at hcons
        exact hcons
      · rintro ⟨hstep, hrest⟩ pre hpre
        cases pre with
        | nil => rfl
        | cons d pre =>
            obtain ⟨rfl, htail⟩ := List.cons_prefix_cons.mp hpre
            rw [List.foldlM_cons, List.foldlM_cons, hstep]
            cases hg : g s d with
            | none => rfl
            | some t => exact ih.mpr (hrest t hg) pre htail

end Lockstep

namespace Trace

variable {S A : Type*}

/-- The state that a trace leads to. -/
def last (s : S) : List (A × S) → S
  | [] => s
  | (_, t) :: run => last t run

/-- Each call leads to the state that stands beside it. -/
def IsRun (step : S → A → S → Prop) : S → List (A × S) → Prop
  | _, [] => True
  | s, (a, t) :: run => step s a t ∧ IsRun step t run

variable {step : S → A → S → Prop} {s t : S} {a : A} {run run' : List (A × S)}

@[simp] theorem last_nil : last s ([] : List (A × S)) = s := rfl

@[simp] theorem last_cons : last s ((a, t) :: run) = last t run := rfl

theorem isRun_append : IsRun step s (run ++ run') ↔ IsRun step s run ∧
    IsRun step (last s run) run' := by
  induction run generalizing s with
  | nil => exact (iff_of_eq (true_and _)).symm
  | cons c run ih => rw [List.cons_append, IsRun, ih, IsRun, and_assoc, last]

/-- What each step keeps holds at the end. -/
theorem IsRun.keeps {P : S → Prop} (hrun : IsRun step s run) (hstart : P s)
    (hstep : ∀ pre a t post, run = pre ++ (a, t) :: post → step (last s pre) a t →
      P (last s pre) → P t) : P (last s run) := by
  induction run generalizing s with
  | nil => exact hstart
  | cons c run ih =>
      obtain ⟨a, t⟩ := c
      refine ih hrun.2 (hstep [] a t run rfl hrun.1 hstart) ?_
      intro pre b u post heq
      exact hstep ((a, t) :: pre) b u post (congrArg ((a, t) :: ·) heq)

end Trace

end Foundation
