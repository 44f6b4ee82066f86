import Mathlib.Data.Fintype.Basic
import Mathlib.Data.List.Induction
import Mathlib.Data.List.Nodup
import Mathlib.Logic.Function.Basic

/-!
# Tasks that read, modify and write

Each task loads a view of a shared state and later commits what it has made of
the view. A schedule is a list of the loads and stores of all tasks. A schedule
amounts to the tasks one after the other, in the order of their stores, when
every task commits what it would have committed for the state it stores to.
-/

namespace Foundation

namespace ReadModifyWrite

inductive Event (ι : Type*) where
  | load (i : ι)
  | store (i : ι)
  deriving DecidableEq

variable {ι S V A : Type*}

def Event.task : Event ι → ι
  | .load i => i
  | .store i => i

/-- The shared state, the views that are held, and the answers given so far. -/
structure Config (ι S V A : Type*) where
  state : S
  view : ι → Option V
  log : List (ι × A)

def start (s : S) : Config ι S V A := ⟨s, fun _ => none, []⟩

/-- The tasks in the order of their stores. -/
def stores : List (Event ι) → List ι
  | [] => []
  | .load _ :: es => stores es
  | .store i :: es => i :: stores es

/-- The schedule that lets each task finish before the next one starts. -/
def oneByOne (order : List ι) : List (Event ι) := order.flatMap fun i => [.load i, .store i]

/-- No task stores between the load and the store of `i`. -/
def Undisturbed (i : ι) (es : List (Event ι)) : Prop :=
  ∀ pre mid post, es = pre ++ .load i :: (mid ++ .store i :: post) → ∀ j, .store j ∉ mid

/-- A task that stores right after its load. -/
theorem undisturbed_of_nodup {i : ι} {a b : List (Event ι)}
    (h : (a ++ .load i :: .store i :: b).Nodup) :
    Undisturbed i (a ++ .load i :: .store i :: b) := by
  intro pre mid post hes j hj
  have hload : Event.load i ∉ a ∧ Event.load i ∉ Event.store i :: b := by
    rw [List.nodup_middle, List.nodup_cons, List.mem_append, not_or] at h
    exact h.1
  have hstore : Event.store i ∉ b := by
    have htail := (List.nodup_append.mp h).2.1
    exact (List.nodup_cons.mp (List.nodup_cons.mp htail).2).1
  obtain ⟨-, -, hrest⟩ := (List.append_cons_inj_of_notMem hload.1 hload.2).mp hes
  have hrest : [] ++ Event.store i :: b = mid ++ Event.store i :: post := hrest
  have hnil := (List.append_cons_inj_of_notMem List.not_mem_nil hstore).mp hrest
  rw [← hnil.1] at hj
  exact List.not_mem_nil hj

theorem stores_append (es es' : List (Event ι)) : stores (es ++ es') = stores es ++ stores es' := by
  induction es with
  | nil => rfl
  | cons e es ih =>
      cases e with
      | load i => exact ih
      | store i => exact congrArg (i :: ·) ih

theorem oneByOne_append (is js : List ι) : oneByOne (is ++ js) = oneByOne is ++ oneByOne js :=
  List.flatMap_append

section Schedules

variable [DecidableEq ι]

/-- Every task loads once, and then stores once. -/
def Interleaving (es : List (Event ι)) : Prop :=
  ∀ i, es.filter (fun e => e.task = i) = [.load i, .store i]

instance [Fintype ι] (es : List (Event ι)) : Decidable (Interleaving es) :=
  inferInstanceAs (Decidable (∀ i, es.filter (fun e => e.task = i) = [.load i, .store i]))

theorem filter_stores (es : List (Event ι)) (i : ι) :
    (stores es).filter (fun j => j = i) = stores (es.filter fun e => e.task = i) := by
  induction es with
  | nil => rfl
  | cons e es ih =>
      cases e with
      | load j =>
          by_cases h : j = i
          · simpa [stores, List.filter_cons, Event.task, h] using ih
          · simpa [stores, List.filter_cons, Event.task, h] using ih
      | store j =>
          by_cases h : j = i
          · simpa [stores, List.filter_cons, Event.task, h] using ih
          · simpa [stores, List.filter_cons, Event.task, h] using ih

/-- In an interleaving every task stores exactly once. -/
theorem count_stores {es : List (Event ι)} (h : Interleaving es) (i : ι) :
    (stores es).count i = 1 := by
  have hfilter := filter_stores es i
  rw [h i] at hfilter
  have hcount : (stores es).count i = ((stores es).filter fun j => j = i).length := by
    rw [List.count, List.countP_eq_length_filter]
    rfl
  rw [hcount, hfilter]
  rfl

/-- Before a task stores it has loaded, and has done nothing since. -/
theorem Interleaving.exists_load {es pre post : List (Event ι)} {i : ι} (h : Interleaving es)
    (hes : es = pre ++ .store i :: post) :
    ∃ a b, pre = a ++ .load i :: b ∧ ∀ e ∈ b, e.task ≠ i := by
  have hfilter := h i
  rw [hes, List.filter_append, List.filter_cons_of_pos (by simp [Event.task])] at hfilter
  have hpre : pre.filter (fun e => e.task = i) = [.load i] := by
    rcases hp : pre.filter (fun e => e.task = i) with _ | ⟨e, rest⟩
    · rw [hp] at hfilter
      cases hfilter
    · rw [hp, List.cons_append, List.cons.injEq] at hfilter
      obtain ⟨rfl, hrest⟩ := hfilter
      have hlength := congrArg List.length hrest
      rw [List.length_append, List.length_cons, List.length_singleton] at hlength
      rw [hp, List.length_eq_zero_iff.mp (by omega : rest.length = 0)]
  obtain ⟨a, b, rfl, -, -, hb⟩ := List.filter_eq_cons_iff.mp hpre
  refine ⟨a, b, rfl, ?_⟩
  intro e he
  simpa using List.filter_eq_nil_iff.mp hb e he

variable (read : S → V) (commit : ι → V → S → A × S)

def step (c : Config ι S V A) : Event ι → Config ι S V A
  | .load i => { c with view := Function.update c.view i (some (read c.state)) }
  | .store i =>
    match c.view i with
    | none => c
    | some v =>
      { state := (commit i v c.state).2
        view := Function.update c.view i none
        log := c.log ++ [(i, (commit i v c.state).1)] }

def run (c : Config ι S V A) (es : List (Event ι)) : Config ι S V A :=
  es.foldl (step read commit) c

theorem run_append (c : Config ι S V A) (es es' : List (Event ι)) :
    run read commit c (es ++ es') = run read commit (run read commit c es) es' :=
  List.foldl_append

theorem run_cons (c : Config ι S V A) (e : Event ι) (es : List (Event ι)) :
    run read commit c (e :: es) = run read commit (step read commit c e) es := rfl

variable {read commit}

theorem step_store {c : Config ι S V A} {i : ι} {v : V} (h : c.view i = some v) :
    step read commit c (.store i) =
      { state := (commit i v c.state).2
        view := Function.update c.view i none
        log := c.log ++ [(i, (commit i v c.state).1)] } := by
  rw [step, h]

/-- A task's view is its own. -/
theorem view_step_of_ne {c : Config ι S V A} {e : Event ι} {i : ι} (h : e.task ≠ i) :
    (step read commit c e).view i = c.view i := by
  cases e with
  | load j => exact Function.update_of_ne (Ne.symm h) _ _
  | store j =>
      rw [step]
      split
      · rfl
      · exact Function.update_of_ne (Ne.symm h) _ _

theorem view_run_of_forall_ne {es : List (Event ι)} {i : ι} (h : ∀ e ∈ es, e.task ≠ i)
    (c : Config ι S V A) : (run read commit c es).view i = c.view i := by
  induction es generalizing c with
  | nil => rfl
  | cons e es ih =>
      rw [run_cons, ih (fun e' he' => h e' (List.mem_cons_of_mem _ he'))]
      exact view_step_of_ne (h e List.mem_cons_self)

/-- Only stores change the state. -/
theorem state_run_of_forall_notMem {es : List (Event ι)} (h : ∀ j, .store j ∉ es)
    (c : Config ι S V A) : (run read commit c es).state = c.state := by
  induction es generalizing c with
  | nil => rfl
  | cons e es ih =>
      rw [run_cons, ih (fun j hj => h j (List.mem_cons_of_mem _ hj))]
      cases e with
      | load i => rfl
      | store i => exact absurd List.mem_cons_self (h i)

/-- What every commit keeps is kept by every schedule. -/
theorem run_induction {P : S → Prop} (hP : ∀ i v s, P s → P (commit i v s).2)
    {c : Config ι S V A} (hc : P c.state) (es : List (Event ι)) :
    P (run read commit c es).state := by
  induction es generalizing c with
  | nil => exact hc
  | cons e es ih =>
      rw [run_cons]
      refine ih ?_
      cases e with
      | load i => exact hc
      | store i =>
          rw [step]
          split
          · exact hc
          · exact hP _ _ _ hc

/-- A load followed by the store of the same task. -/
theorem run_load_store (c : Config ι S V A) (i : ι) :
    (run read commit c [.load i, .store i]).state = (commit i (read c.state) c.state).2 ∧
      (run read commit c [.load i, .store i]).log =
        c.log ++ [(i, (commit i (read c.state) c.state).1)] := by
  have hview : (step read commit c (.load i)).view i = some (read c.state) :=
    Function.update_self _ _ _
  rw [run_cons, run_cons, step_store hview]
  exact ⟨rfl, rfl⟩

/-- One after the other, each task commits for the state that it finds. -/
theorem state_run_oneByOne (c : Config ι S V A) (order : List ι) :
    (run read commit c (oneByOne order)).state =
      order.foldl (fun s i => (commit i (read s) s).2) c.state := by
  induction order generalizing c with
  | nil => rfl
  | cons i order ih =>
      have happend : oneByOne (i :: order) = [.load i, .store i] ++ oneByOne order := rfl
      rw [happend, run_append, ih, (run_load_store c i).1, List.foldl_cons]

/-- A task that another one overtakes commits for a state that is gone. -/
theorem run_overtaken (s : S) {i j : ι} (h : i ≠ j) :
    (run read commit (start s) [.load i, .load j, .store i, .store j]).state =
        (commit j (read s) (commit i (read s) s).2).2 ∧
      (run read commit (start s) [.load i, .load j, .store i, .store j]).log =
        [(i, (commit i (read s) s).1), (j, (commit j (read s) (commit i (read s) s).2).1)] := by
  simp [run, step, start, Function.update, h, Ne.symm h]

/-- A schedule whose tasks commit what they would have committed for the state
they store to. -/
theorem run_eq_oneByOne {s : S} {es : List (Event ι)}
    (h : ∀ pre i post, es = pre ++ .store i :: post → ∃ v,
      (run read commit (start s) pre).view i = some v ∧
        commit i v (run read commit (start s) pre).state =
          commit i (read (run read commit (start s) pre).state)
            (run read commit (start s) pre).state) :
    (run read commit (start s) es).state =
        (run read commit (start s) (oneByOne (stores es))).state ∧
      (run read commit (start s) es).log =
        (run read commit (start s) (oneByOne (stores es))).log := by
  induction es using List.reverseRecOn with
  | nil => exact ⟨rfl, rfl⟩
  | append_singleton es e ih =>
      obtain ⟨hstate, hlog⟩ := ih fun pre i post hes =>
        h pre i (post ++ [e]) (by rw [hes, List.append_assoc, List.cons_append])
      rw [run_append, stores_append, oneByOne_append, run_append]
      cases e with
      | load i => exact ⟨hstate, hlog⟩
      | store i =>
          obtain ⟨v, hview, hcommit⟩ := h es i [] rfl
          have hserial := @run_load_store _ _ _ _ _ read commit
            (run read commit (start s) (oneByOne (stores es))) i
          rw [← hstate, ← hlog] at hserial
          rw [run_cons, step_store hview, hcommit]
          exact ⟨hserial.1.symm, hserial.2.symm⟩

/-- A schedule in which each task is undisturbed, or commits the same whatever
state it has loaded, amounts to the tasks one after the other. -/
theorem run_eq_oneByOne_of_undisturbed {P : S → Prop} (hP : ∀ i v s, P s → P (commit i v s).2)
    {s : S} (hs : P s) {es : List (Event ι)} (hes : Interleaving es)
    (h : ∀ i, Undisturbed i es ∨
      ∀ s s', P s → P s' → commit i (read s) s' = commit i (read s') s') :
    (run read commit (start s) es).state =
        (run read commit (start s) (oneByOne (stores es))).state ∧
      (run read commit (start s) es).log =
        (run read commit (start s) (oneByOne (stores es))).log := by
  refine run_eq_oneByOne ?_
  intro pre i post hsplit
  obtain ⟨a, b, rfl, hb⟩ := hes.exists_load hsplit
  refine ⟨read (run read commit (start s) a).state, ?_, ?_⟩
  · rw [run_append, run_cons, view_run_of_forall_ne hb]
    exact Function.update_self _ _ _
  · rcases h i with hundisturbed | hsame
    · have hmid := hundisturbed a b post (by rw [hsplit, List.append_assoc, List.cons_append])
      rw [run_append, run_cons, state_run_of_forall_notMem hmid]
      rfl
    · exact hsame _ _ (run_induction hP hs a) (run_induction hP hs _)

end Schedules

end ReadModifyWrite

end Foundation
