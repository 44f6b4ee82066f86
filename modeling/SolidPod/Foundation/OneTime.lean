import Mathlib.Data.List.Infix
import Mathlib.Logic.Function.Basic

/-!
# One-time entries

A table hands out entries under keys that are used once: an entry is issued under a
key that was not issued before, and it leaves the table when somebody asks for its
key, whether the answer is the entry or not. The history of a system, newest event
first, tells what was issued and asked for; `view` reads that off an event.
-/

namespace Foundation

namespace OneTime

variable {E K V : Type*}

/-- What an event did to the table. -/
inductive Use (K V : Type*) where
  | issue (k : K) (v : V)
  | ask (k : K) (answer : Option V)

section View

variable (view : E → Option (Use K V))

def Issued (history : List E) (k : K) : Prop := ∃ e ∈ history, ∃ v, view e = some (.issue k v)

def Yields (e : E) (k : K) (v : V) : Prop := view e = some (.ask k (some v))

/-- The key was asked for after it was issued. -/
def Spent : List E → K → Prop
  | [], _ => False
  | e :: history, k => Spent history k ∨ (∃ answer, view e = some (.ask k answer)) ∧
      Issued view history k

/-- What the table holds agrees with the history, and no key was good twice. -/
structure Consistent (entries : K → Option V) (history : List E) : Prop where
  issued : ∀ {k v}, entries k = some v → ∃ e ∈ history, view e = some (.issue k v)
  gone : ∀ {k}, Spent view history k → entries k = none
  earned : ∀ {e pre}, (e :: pre) <:+ history → ∀ {k v}, Yields view e k v →
    ∃ e' ∈ pre, view e' = some (.issue k v)
  once : ∀ {e pre}, (e :: pre) <:+ history → ∀ {k v}, Spent view pre k → ¬ Yields view e k v

end View

variable {view : E → Option (Use K V)} {entries : K → Option V} {history pre : List E} {e : E}
  {k : K} {v : V}

theorem Spent.mono (h : Spent view pre k) (hsuffix : pre <:+ history) : Spent view history k := by
  obtain ⟨front, rfl⟩ := hsuffix
  induction front with
  | nil => exact h
  | cons e front ih => exact Or.inl ih

theorem issued_of_spent (h : Spent view history k) : Issued view history k := by
  induction history with
  | nil => exact h.elim
  | cons e history ih =>
      have hissued : Issued view history k := by
        rcases h with h | ⟨-, h⟩
        · exact ih h
        · exact h
      obtain ⟨e', hmem, hview⟩ := hissued
      exact ⟨e', List.mem_cons_of_mem e hmem, hview⟩

theorem Consistent.nil : Consistent view (fun _ : K => (none : Option V)) ([] : List E) where
  issued h := by cases h
  gone _ := rfl
  earned hsuffix := by cases List.suffix_nil.mp hsuffix
  once hsuffix := by cases List.suffix_nil.mp hsuffix

/-- An event that answers no one. -/
theorem Consistent.cons (h : Consistent view entries history) {entries' : K → Option V}
    (hissued : ∀ {k v}, entries' k = some v → ∃ e' ∈ e :: history, view e' = some (.issue k v))
    (hgone : ∀ {k}, Spent view (e :: history) k → entries' k = none)
    (hearned : ∀ {k v}, Yields view e k v → ∃ e' ∈ history, view e' = some (.issue k v))
    (honce : ∀ {k v}, Spent view history k → ¬ Yields view e k v) :
    Consistent view entries' (e :: history) where
  issued := hissued
  gone := hgone
  earned hsuffix := by
    rcases List.suffix_cons_iff.mp hsuffix with heq | hsuffix
    · cases heq
      exact hearned
    · exact h.earned hsuffix
  once hsuffix := by
    rcases List.suffix_cons_iff.mp hsuffix with heq | hsuffix
    · cases heq
      exact honce
    · exact h.once hsuffix

theorem Consistent.other (h : Consistent view entries history) (hview : view e = none) :
    Consistent view entries (e :: history) := by
  refine h.cons ?_ ?_ ?_ ?_
  · intro k v hk
    obtain ⟨e', hmem, hissue⟩ := h.issued hk
    exact ⟨e', List.mem_cons_of_mem e hmem, hissue⟩
  · rintro k (hspent | ⟨⟨answer, hask⟩, -⟩)
    · exact h.gone hspent
    · cases hview.symm.trans hask
  · intro k v hyields
    cases hview.symm.trans hyields
  · intro k v _ hyields
    cases hview.symm.trans hyields

variable [DecidableEq K]

/-- A new entry, under a key of its own. -/
theorem Consistent.issue (h : Consistent view entries history)
    (hview : view e = some (.issue k v)) (hfresh : ¬ Issued view history k) :
    Consistent view (fun k' => if k' = k then some v else entries k') (e :: history) := by
  refine h.cons ?_ ?_ ?_ ?_
  · intro k' v' hk
    split_ifs at hk with hkk
    · cases hk
      subst hkk
      exact ⟨e, List.mem_cons_self, hview⟩
    · obtain ⟨e', hmem, hissue⟩ := h.issued hk
      exact ⟨e', List.mem_cons_of_mem e hmem, hissue⟩
  · rintro k' (hspent | ⟨⟨answer, hask⟩, -⟩)
    · have hne : k' ≠ k := by
        rintro rfl
        exact hfresh (issued_of_spent hspent)
      rw [if_neg hne]
      exact h.gone hspent
    · cases hview.symm.trans hask
  · intro k' v' hyields
    cases hview.symm.trans hyields
  · intro k' v' _ hyields
    cases hview.symm.trans hyields

/-- A key is asked for: the answer may be its entry or not, the entry is gone. -/
theorem Consistent.ask (h : Consistent view entries history) {answer : Option V}
    (hview : view e = some (.ask k answer)) (hanswer : ∀ v, answer = some v → entries k = some v) :
    Consistent view (fun k' => if k' = k then none else entries k') (e :: history) := by
  have hyields : ∀ {k' v'}, Yields view e k' v' → k' = k ∧ entries k' = some v' := by
    intro k' v' hy
    cases hview.symm.trans hy
    exact ⟨rfl, hanswer v' rfl⟩
  refine h.cons ?_ ?_ ?_ ?_
  · intro k' v' hk
    split_ifs at hk
    obtain ⟨e', hmem, hissue⟩ := h.issued hk
    exact ⟨e', List.mem_cons_of_mem e hmem, hissue⟩
  · rintro k' (hspent | ⟨⟨answer', hask⟩, -⟩)
    · split_ifs
      · rfl
      · exact h.gone hspent
    · cases hview.symm.trans hask
      exact if_pos rfl
  · intro k' v' hy
    exact h.issued (hyields hy).2
  · intro k' v' hspent hy
    have hgone := h.gone hspent
    rw [(hyields hy).2] at hgone
    cases hgone

omit [DecidableEq K]

/-- A key that was good is spent. -/
theorem Consistent.spent_of_yields (h : Consistent view entries history)
    (hsuffix : pre <:+ history) (hmem : e ∈ pre) (hyields : Yields view e k v) :
    Spent view pre k := by
  obtain ⟨front, rest, rfl⟩ := List.append_of_mem hmem
  have hrest : (e :: rest) <:+ front ++ e :: rest := List.suffix_append _ _
  obtain ⟨issuer, hissuer, hissue⟩ := h.earned (hrest.trans hsuffix) hyields
  have hspent : Spent view (e :: rest) k := Or.inr ⟨⟨some v, hyields⟩, issuer, hissuer, v, hissue⟩
  exact hspent.mono hrest

theorem Consistent.eq_of_yields_suffix (h : Consistent view entries history)
    (hsuffix : pre <:+ history) {e₁ e₂ : E} {v₁ v₂ : V} (h₁ : e₁ ∈ pre) (h₂ : e₂ ∈ pre)
    (hy₁ : Yields view e₁ k v₁) (hy₂ : Yields view e₂ k v₂) : e₁ = e₂ := by
  induction pre with
  | nil => cases h₁
  | cons e pre ih =>
      have hpre : pre <:+ history := (List.suffix_cons e pre).trans hsuffix
      rcases List.mem_cons.mp h₁ with heq₁ | hmem₁
      · rcases List.mem_cons.mp h₂ with heq₂ | hmem₂
        · rw [heq₁, heq₂]
        · rw [heq₁] at hy₁
          exact absurd hy₁ (h.once hsuffix (h.spent_of_yields hpre hmem₂ hy₂))
      · rcases List.mem_cons.mp h₂ with heq₂ | hmem₂
        · rw [heq₂] at hy₂
          exact absurd hy₂ (h.once hsuffix (h.spent_of_yields hpre hmem₁ hy₁))
        · exact ih hpre hmem₁ hmem₂

/-- No key is good for two events. -/
theorem Consistent.eq_of_yields (h : Consistent view entries history) {e₁ e₂ : E} {v₁ v₂ : V}
    (h₁ : e₁ ∈ history) (h₂ : e₂ ∈ history) (hy₁ : Yields view e₁ k v₁)
    (hy₂ : Yields view e₂ k v₂) : e₁ = e₂ :=
  h.eq_of_yields_suffix (List.suffix_refl history) h₁ h₂ hy₁ hy₂

end OneTime

end Foundation
