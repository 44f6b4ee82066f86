import Mathlib.Data.List.Basic
import Mathlib.Order.Basic

/-!
# Two loops

`consume next n a` is the loop that asks `next` for an item and for what
follows it, at most `n` times. When what follows is always smaller than what
was read, the bound `size a + 1` is never met, and `consumeAll` satisfies the
equation of the unbounded loop.

A search for the first answer in a list asks the items up to the one that
answers, and depends on these alone.
-/

namespace Foundation

variable {α β : Type*}

/-- The items of `a`, at most `n` of them. -/
def consume (next : α → Option (β × Option α)) : Nat → α → List β
  | 0, _ => []
  | n + 1, a =>
    match next a with
    | none => []
    | some (b, none) => [b]
    | some (b, some a') => b :: consume next n a'

def consumeAll (next : α → Option (β × Option α)) (size : α → Nat) (a : α) : List β :=
  consume next (size a + 1) a

/-- A bound above the size gives the same items as any other such bound. -/
theorem consume_eq_of_lt {next : α → Option (β × Option α)} {size : α → Nat}
    (h : ∀ a b a', next a = some (b, some a') → size a' < size a) {n k : Nat} {a : α}
    (hn : size a < n) (hk : size a < k) : consume next n a = consume next k a := by
  induction n generalizing k a with
  | zero => exact absurd hn (Nat.not_lt_zero _)
  | succ n ih =>
      obtain ⟨k, rfl⟩ : ∃ k', k = k' + 1 := ⟨k - 1, by omega⟩
      rw [consume, consume]
      cases hnext : next a with
      | none => rfl
      | some r =>
          obtain ⟨b, o⟩ := r
          cases o with
          | none => rfl
          | some a' =>
              have hlt := h a b a' hnext
              exact congrArg (b :: ·) (ih (by omega) (by omega))

/-- The loop equation: one item, then the items of what follows it. -/
theorem consumeAll_eq {next : α → Option (β × Option α)} {size : α → Nat}
    (h : ∀ a b a', next a = some (b, some a') → size a' < size a) (a : α) :
    consumeAll next size a =
      match next a with
      | none => []
      | some (b, none) => [b]
      | some (b, some a') => b :: consumeAll next size a' := by
  rw [consumeAll, consume]
  cases hnext : next a with
  | none => rfl
  | some r =>
      obtain ⟨b, o⟩ := r
      cases o with
      | none => rfl
      | some a' =>
          have hlt := h a b a' hnext
          exact congrArg (b :: ·) (consume_eq_of_lt h hlt (Nat.lt_succ_self _))

theorem consume_map {γ : Type*} (next : α → Option (β × Option α)) (g : β → γ) (n : Nat)
    (a : α) : consume (fun a => (next a).map fun r => (g r.1, r.2)) n a =
      (consume next n a).map g := by
  induction n generalizing a with
  | zero => rfl
  | succ n ih =>
      rw [consume, consume]
      cases next a with
      | none => rfl
      | some r =>
          obtain ⟨b, _ | a'⟩ := r
          · rfl
          · exact congrArg (g b :: ·) (ih a')

/-- What is made of every item can be made of them when all are read. -/
theorem consumeAll_map {γ : Type*} (next : α → Option (β × Option α)) (g : β → γ)
    (size : α → Nat) (a : α) :
    consumeAll (fun a => (next a).map fun r => (g r.1, r.2)) size a =
      (consumeAll next size a).map g :=
  consume_map next g (size a + 1) a

/-- An item was read in a round of the loop, and every round starts where an
invariant of the rounds holds. -/
theorem mem_consume {next : α → Option (β × Option α)} {P : α → Prop}
    (hstep : ∀ a b a', P a → next a = some (b, some a') → P a') {n : Nat} {a : α} (ha : P a)
    {b : β} (hb : b ∈ consume next n a) : ∃ a' o, P a' ∧ next a' = some (b, o) := by
  induction n generalizing a with
  | zero => cases hb
  | succ n ih =>
      rw [consume] at hb
      cases hnext : next a with
      | none =>
          rw [hnext] at hb
          cases hb
      | some r =>
          obtain ⟨b', o⟩ := r
          rw [hnext] at hb
          cases o with
          | none =>
              rw [List.mem_singleton.mp hb]
              exact ⟨a, none, ha, hnext⟩
          | some a' =>
              rcases List.mem_cons.mp hb with rfl | hb
              · exact ⟨a, some a', ha, hnext⟩
              · exact ih (hstep a b' a' ha hnext) hb

/-! ## The first answer -/

/-- The items that a search asks: all of them, or those up to the first that
answers. -/
def consulted (f : α → Option β) : List α → List α
  | [] => []
  | a :: l => a :: if (f a).isSome then [] else consulted f l

theorem mem_consulted_iff {f : α → Option β} {l : List α} {a : α} :
    a ∈ consulted f l ↔ ∃ p q, l = p ++ a :: q ∧ ∀ b ∈ p, f b = none := by
  induction l with
  | nil => simp [consulted]
  | cons c l ih =>
      rw [consulted, List.mem_cons]
      constructor
      · rintro (rfl | h)
        · exact ⟨[], l, rfl, by simp⟩
        · cases hc : f c with
          | some b => simp [hc] at h
          | none =>
              rw [hc, Option.isSome_none, if_neg (by simp), ih] at h
              obtain ⟨p, q, rfl, hp⟩ := h
              refine ⟨c :: p, q, rfl, ?_⟩
              intro b hb
              rcases List.mem_cons.mp hb with rfl | hb
              · exact hc
              · exact hp b hb
      · rintro ⟨p, q, hl, hp⟩
        cases p with
        | nil => exact Or.inl (List.cons.inj hl).1.symm
        | cons b p =>
            obtain ⟨rfl, rfl⟩ := List.cons.inj hl
            refine Or.inr ?_
            rw [hp c (by simp), Option.isSome_none, if_neg (by simp), ih]
            exact ⟨p, q, rfl, fun b hb => hp b (by simp [hb])⟩

/-- Two searches that get the same answers from the items that the first one
asks find the same. -/
theorem findSome?_eq_of_consulted {f g : α → Option β} {l : List α}
    (h : ∀ a ∈ consulted f l, g a = f a) : l.findSome? g = l.findSome? f := by
  induction l with
  | nil => rfl
  | cons a l ih =>
      rw [List.findSome?_cons, List.findSome?_cons, h a (by simp [consulted])]
      cases ha : f a with
      | some b => rfl
      | none =>
          refine ih ?_
          intro b hb
          exact h b (by simp [consulted, ha, hb])

end Foundation
