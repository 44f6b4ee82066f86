import SolidPod.Foundation.Lockstep
import SolidPod.Foundation.LruCache

/-!
# Cells of a bounded cache

A call works on the one entry of a cache that it names: it reads the entry,
answers, and writes the entry back. While there is room for every name that is
called, the calls of one name get the answers that they would get alone, on a cell
of their own (`answers_step`).
-/

namespace Foundation

namespace Isolation

open LruCache LawfulLruCache

variable {L κ υ C R S : Type*}

/-- A call on a cell of its own. -/
def cellStep (serve : C → Option υ → R × υ) (o : Option υ) (c : C) : R × Option υ :=
  ((serve c o).1, some (serve c o).2)

/-- A call on the entry of the cache that it names. -/
def step [LruCache L κ υ] (name : C → κ) (serve : C → Option υ → R × υ) (l : L) (c : C) : R × L :=
  ((serve c (peek l (name c))).1, put l (name c) (serve c (peek l (name c))).2)

/-- The answers to some of the calls of a run. -/
def answers (f : S → C → R × S) (mine : C → Bool) (s : S) (cs : List C) : List R :=
  ((cs.zip (Lockstep.run f s cs)).filter fun x => mine x.1).map Prod.snd

theorem answers_nil (f : S → C → R × S) (mine : C → Bool) (s : S) : answers f mine s [] = [] :=
  rfl

theorem answers_cons (f : S → C → R × S) (mine : C → Bool) (s : S) (c : C) (cs : List C) :
    answers f mine s (c :: cs) =
      (if mine c then [(f s c).1] else []) ++ answers f mine (f s c).2 cs := by
  rw [answers, Lockstep.run, List.zip_cons_cons, List.filter_cons]
  split
  · rfl
  · rfl

theorem answers_append (f : S → C → R × S) (mine : C → Bool) (s : S) (cs ds : List C) :
    answers f mine s (cs ++ ds) =
      answers f mine s cs ++ answers f mine (Lockstep.final f s cs) ds := by
  induction cs generalizing s with
  | nil => rfl
  | cons c cs ih =>
      rw [List.cons_append, answers_cons, answers_cons, ih, Lockstep.final_cons,
        List.append_assoc]

theorem answers_eq_nil (f : S → C → R × S) {mine : C → Bool} (s : S) {cs : List C}
    (h : ∀ c ∈ cs, ¬ mine c = true) : answers f mine s cs = [] := by
  induction cs generalizing s with
  | nil => rfl
  | cons c cs ih =>
      rw [answers_cons, if_neg (h c List.mem_cons_self),
        ih _ fun d hd => h d (List.mem_cons_of_mem c hd)]
      rfl

/-- A name that is not in the cache finds room, if there is room for all names. -/
theorem hasRoom [LruCache L κ υ] [LawfulLruCache L] [DecidableEq κ] {l : L} {names : Finset κ}
    {k : κ} (hkeys : ∀ j, (peek l j).isSome → j ∈ names) (hcard : names.card ≤ cap l)
    (hk : k ∈ names) : (peek l k).isSome ∨ (iter l).length < cap l := by
  by_cases hpresent : (peek l k).isSome
  · exact .inl hpresent
  · right
    have hothers : (iter l).length ≤ (names.erase k).card := by
      refine length_iter_le_card fun j hj => Finset.mem_erase.mpr ⟨?_, hkeys j hj⟩
      rintro rfl
      exact hpresent hj
    have hfewer := Finset.card_erase_lt_of_mem hk
    omega

/-- The calls of one name answer as on a cell of their own. -/
theorem answers_step [LruCache L κ υ] [LawfulLruCache L] [DecidableEq κ] {name : C → κ}
    {serve : C → Option υ → R × υ} {names : Finset κ} {cs : List C} {l : L}
    (hkeys : ∀ j, (peek l j).isSome → j ∈ names) (hcard : names.card ≤ cap l)
    (hcalls : ∀ c ∈ cs, name c ∈ names) (k : κ) :
    answers (step name serve) (fun c => name c = k) l cs =
      Lockstep.run (cellStep serve) (peek l k) (cs.filter fun c => name c = k) := by
  induction cs generalizing l with
  | nil => rfl
  | cons c cs ih =>
      have hc := hcalls c List.mem_cons_self
      have hother (j : κ) (hj : j ≠ name c) :
          peek (step name serve l c).2 j = peek l j :=
        peek_put_of_ne _ hj (hasRoom hkeys hcard hc)
      have hkeys' (j : κ) (hj : (peek (step name serve l c).2 j).isSome) : j ∈ names := by
        by_cases hjc : j = name c
        · rwa [hjc]
        · rw [hother j hjc] at hj
          exact hkeys j hj
      have hcard' : names.card ≤ cap (step name serve l c).2 := by
        rwa [step, cap_put]
      rw [answers_cons, ih hkeys' hcard' fun d hd => hcalls d (List.mem_cons_of_mem c hd),
        List.filter_cons]
      by_cases hk : name c = k
      · subst hk
        simp only [decide_true, if_true, Lockstep.run]
        rw [step, peek_put_self]
        rfl
      · simp only [decide_eq_true_eq, if_neg hk, List.nil_append]
        rw [hother k (Ne.symm hk)]

/-- So the other calls can be left out. -/
theorem answers_step_eq_run [LruCache L κ υ] [LawfulLruCache L] [DecidableEq κ] {name : C → κ}
    {serve : C → Option υ → R × υ} {names : Finset κ} {cs : List C} {l : L}
    (hkeys : ∀ j, (peek l j).isSome → j ∈ names) (hcard : names.card ≤ cap l)
    (hcalls : ∀ c ∈ cs, name c ∈ names) (k : κ) :
    answers (step name serve) (fun c => name c = k) l cs =
      Lockstep.run (step name serve) l (cs.filter fun c => name c = k) := by
  have hsim : Lockstep.Simulates (cellStep serve) (step name serve) (fun c => name c = k)
      (fun _ _ _ => True) fun o (l : L) => o = peek l k := by
    rintro o l' c rfl rfl -
    exact ⟨rfl, (peek_put_self l' (name c) _).symm⟩
  rw [answers_step hkeys hcard hcalls]
  refine Lockstep.run_eq hsim rfl (fun c hc => ?_)
    (Lockstep.along_of_forall (fun _ _ _ => trivial) _)
  simpa using (List.mem_filter.mp hc).2

end Isolation

end Foundation
