import Mathlib.Data.List.Induction
import Mathlib.Data.Option.Basic

/-!
# Schedules of interleaved calls

Calls that run at the same time take their steps in the order of a schedule,
which names the call that goes next. A call that has ended takes no further
step, so a schedule may have no run.
-/

namespace Foundation

namespace Schedule

variable {S ι : Type*}

/-- The state after the steps of a schedule. -/
def run (step : S → ι → Option S) (s : S) (sched : List ι) : Option S := sched.foldlM step s

/-- A condition on the state each step starts from. -/
def Along (step : S → ι → Option S) (G : S → ι → Prop) (s : S) (sched : List ι) : Prop :=
  ∀ pre i post u, sched = pre ++ i :: post → run step s pre = some u → G u i

/-- A condition on each state that is reached. -/
def Throughout (step : S → ι → Option S) (P : S → Prop) (s : S) (sched : List ι) : Prop :=
  ∀ pre post u, sched = pre ++ post → run step s pre = some u → P u

variable {step : S → ι → Option S} {G : S → ι → Prop} {s t : S} {sched : List ι}

@[simp] theorem run_nil : run step s [] = some s := rfl

theorem run_append (pre post : List ι) :
    run step s (pre ++ post) = (run step s pre).bind fun u => run step u post :=
  List.foldlM_append

theorem run_concat (pre : List ι) (i : ι) :
    run step s (pre ++ [i]) = (run step s pre).bind fun u => step u i := by
  rw [run_append]
  congr 1
  funext u
  exact bind_pure (step u i)

theorem Along.left {pre post : List ι} (h : Along step G s (pre ++ post)) :
    Along step G s pre := by
  intro front i back u heq hrun
  exact h front i (back ++ post) u (by rw [heq, List.append_assoc, List.cons_append]) hrun

/-- What holds at the start and is kept by each step holds at the end. It may
speak about the steps taken so far. -/
theorem induct {P : List ι → S → Prop} (hrun : run step s sched = some t) (hstart : P [] s)
    (halong : Along step G s sched)
    (hstep : ∀ pre i u v, P pre u → G u i → step u i = some v → P (pre ++ [i]) v) : P sched t := by
  induction sched using List.reverseRecOn generalizing t with
  | nil =>
      cases hrun
      exact hstart
  | append_singleton pre i ih =>
      rw [run_concat] at hrun
      obtain ⟨u, hpre, hi⟩ := Option.bind_eq_some_iff.mp hrun
      exact hstep pre i u t (ih hpre halong.left) (halong pre i [] u rfl hpre) hi

theorem run_cons (i : ι) :
    run step s (i :: sched) = (step s i).bind fun u => run step u sched :=
  List.foldlM_cons

theorem throughout_nil {P : S → Prop} : Throughout step P s [] ↔ P s := by
  constructor
  · intro h
    exact h [] [] s rfl rfl
  · intro h pre post u heq hrun
    rw [(List.nil_eq_append_iff.mp heq).1] at hrun
    cases hrun
    exact h

theorem throughout_cons {P : S → Prop} {i : ι} : Throughout step P s (i :: sched) ↔
    P s ∧ ∀ u, step s i = some u → Throughout step P u sched := by
  constructor
  · intro h
    refine ⟨h [] (i :: sched) s rfl rfl, fun u hstep pre post v heq hrun => ?_⟩
    refine h (i :: pre) post v (by rw [heq, List.cons_append]) ?_
    rw [run_cons, hstep]
    exact hrun
  · rintro ⟨hstart, hrest⟩ pre post v heq hrun
    cases pre with
    | nil =>
        cases hrun
        exact hstart
    | cons j pre =>
        obtain ⟨rfl, htail⟩ := List.cons.inj heq
        rw [run_cons] at hrun
        obtain ⟨u, hstep, hpre⟩ := Option.bind_eq_some_iff.mp hrun
        exact hrest u hstep pre post v htail hpre

theorem along_cons {i : ι} : Along step G s (i :: sched) ↔
    G s i ∧ ∀ u, step s i = some u → Along step G u sched := by
  constructor
  · intro h
    refine ⟨h [] i sched s rfl rfl, fun u hstep pre j post v heq hrun => ?_⟩
    refine h (i :: pre) j post v (by rw [heq, List.cons_append]) ?_
    rw [run_cons, hstep]
    exact hrun
  · rintro ⟨hstart, hrest⟩ pre j post v heq hrun
    cases pre with
    | nil =>
        obtain ⟨rfl, -⟩ := List.cons.inj heq
        cases hrun
        exact hstart
    | cons k pre =>
        obtain ⟨rfl, htail⟩ := List.cons.inj heq
        rw [run_cons] at hrun
        obtain ⟨u, hstep, hpre⟩ := Option.bind_eq_some_iff.mp hrun
        exact hrest u hstep pre j post v htail hpre

/-- A condition on the states holds throughout exactly when each step keeps it.
What every step keeps may be used for this, and what the calls promise. -/
theorem throughout_iff_along_of {I P : S → Prop} {H : S → ι → Prop}
    (hnone : ∀ s i, step s i = none → G s i)
    (hstep : ∀ s i t, H s i → I s → P s → step s i = some t → I t ∧ (P t ↔ G s i))
    (hH : Along step H s sched) (hI : I s) (hP : P s) :
    Throughout step P s sched ↔ Along step G s sched := by
  induction sched generalizing s with
  | nil =>
      rw [throughout_nil]
      refine iff_of_true hP ?_
      intro pre i post u heq
      cases pre <;> cases heq
  | cons i sched ih =>
      rw [along_cons] at hH
      rw [throughout_cons, along_cons, and_iff_right hP]
      cases hi : step s i with
      | none =>
          refine iff_of_true ?_ ⟨hnone s i hi, ?_⟩
          · intro u hu
            cases hu
          · intro u hu
            cases hu
      | some t =>
          obtain ⟨hIt, hPt⟩ := hstep s i t hH.1 hI hP hi
          simp only [Option.some.injEq, forall_eq']
          by_cases h : P t
          · rw [ih (hH.2 t hi) hIt h, and_iff_right (hPt.mp h)]
          · refine iff_of_false ?_ ?_
            · intro hall
              exact h (hall [] sched t rfl rfl)
            · intro hall
              exact h (hPt.mpr hall.1)

theorem throughout_iff_along {I P : S → Prop} (hnone : ∀ s i, step s i = none → G s i)
    (hstep : ∀ s i t, I s → P s → step s i = some t → I t ∧ (P t ↔ G s i))
    (hI : I s) (hP : P s) : Throughout step P s sched ↔ Along step G s sched :=
  throughout_iff_along_of (H := fun _ _ => True) hnone (fun s i t _ => hstep s i t)
    (fun _ _ _ _ _ _ => trivial) hI hP

end Schedule

end Foundation
