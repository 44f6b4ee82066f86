import Mathlib.Logic.Basic

/-!
# Acceptance up to a normal form

A verifier asks whether a credential is good for a target, in circumstances that
may differ from one presentation to the next. Where it compares the normal form
of the target with that of the one a credential names, it separates exactly the
targets of different normal forms.
-/

namespace Foundation

variable {T N C X : Type*}

/-- Targets count by their normal form: a credential is not accepted for two of
different normal forms, and for two of the same normal form it is accepted alike. -/
structure BoundUpTo (normal : T → N) (accepts : T → C → X → Prop) : Prop where
  separates : ∀ {u v}, normal u ≠ normal v → ∀ c x y, accepts u c x → ¬ accepts v c y
  tolerates : ∀ {u v}, normal u = normal v → ∀ c x, accepts u c x ↔ accepts v c x

/-- A verifier that finds the normal form of the named target to be that of the
wanted one, and asks for no more of the wanted one. -/
theorem boundUpTo_of_named {normal : T → N} {accepts : T → C → X → Prop}
    (named : C → Option T)
    (hnamed : ∀ {u c x}, accepts u c x → ∃ t, named c = some t ∧ normal t = normal u)
    (hcongr : ∀ {u v c x}, normal u = normal v → accepts u c x → accepts v c x) :
    BoundUpTo normal accepts := by
  constructor
  · intro u v hne c x y hu hv
    obtain ⟨t, ht, htu⟩ := hnamed hu
    obtain ⟨t', ht', htv⟩ := hnamed hv
    cases ht.symm.trans ht'
    exact hne (htu.symm.trans htv)
  · intro u v heq c x
    exact ⟨hcongr heq, hcongr heq.symm⟩

end Foundation
