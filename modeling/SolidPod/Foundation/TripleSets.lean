import Mathlib.Data.List.Perm.Basic
import Mathlib.Logic.Relation

/-!
# Written triples

A document writes its triples in statements: a subject with pairs, each pair a
predicate with its objects. What a document says is a set of triples, so it says
the same when its statements or their pairs are put in another order, when the
objects of a pair are written in two pairs, when the pairs of a statement are
written in two statements, or when a triple is written once more. `R` is what may
happen inside an object.
-/

namespace Foundation

namespace TripleSets

variable {σ π ο : Type*}

/-- A predicate and its objects. -/
structure Pair (π ο : Type*) where
  predicate : π
  objects : List ο
  deriving DecidableEq

structure Statement (σ π ο : Type*) where
  subject : σ
  pairs : List (Pair π ο)
  deriving DecidableEq

/-- One of the pairs has this predicate and this object. -/
def PairsSay (pairs : List (Pair π ο)) (p : π) (o : ο) : Prop :=
  ∃ pair ∈ pairs, pair.predicate = p ∧ o ∈ pair.objects

/-- The triple is written in one of the statements. -/
def Says (S : List (Statement σ π ο)) (s : σ) (p : π) (o : ο) : Prop :=
  ∃ st ∈ S, st.subject = s ∧ PairsSay st.pairs p o

/-- The same pairs, written another way. -/
inductive PairsRewrite : List (Pair π ο) → List (Pair π ο) → Prop
  | reorder {l l' : List (Pair π ο)} (h : l.Perm l') : PairsRewrite l l'
  | cut (p : π) {a b : List ο} (ha : a ≠ []) (hb : b ≠ []) (l : List (Pair π ο)) :
      PairsRewrite (⟨p, a ++ b⟩ :: l) (⟨p, a⟩ :: ⟨p, b⟩ :: l)
  | join (p : π) {a b : List ο} (ha : a ≠ []) (hb : b ≠ []) (l : List (Pair π ο)) :
      PairsRewrite (⟨p, a⟩ :: ⟨p, b⟩ :: l) (⟨p, a ++ b⟩ :: l)
  | again {p : π} {o : ο} {l : List (Pair π ο)} (h : PairsSay l p o) :
      PairsRewrite l (⟨p, [o]⟩ :: l)

/-- The same statements, written another way. -/
inductive Rewrite (R : ο → ο → Prop) :
    List (Statement σ π ο) → List (Statement σ π ο) → Prop
  | reorder {S S' : List (Statement σ π ο)} (h : S.Perm S') : Rewrite R S S'
  | pairs (s : σ) {l l' : List (Pair π ο)} (h : PairsRewrite l l')
      (S : List (Statement σ π ο)) : Rewrite R (⟨s, l⟩ :: S) (⟨s, l'⟩ :: S)
  | split (s : σ) {l l' : List (Pair π ο)} (hl : l ≠ []) (hl' : l' ≠ [])
      (S : List (Statement σ π ο)) : Rewrite R (⟨s, l ++ l'⟩ :: S) (⟨s, l⟩ :: ⟨s, l'⟩ :: S)
  | again {s : σ} {p : π} {o : ο} {l : List (Pair π ο)} {S : List (Statement σ π ο)}
      (h : Says (⟨s, l⟩ :: S) s p o) : Rewrite R (⟨s, l⟩ :: S) (⟨s, ⟨p, [o]⟩ :: l⟩ :: S)
  | object (s : σ) (p : π) {o o' : ο} (h : R o o') (a : List ο) (l : List (Pair π ο))
      (S : List (Statement σ π ο)) :
      Rewrite R (⟨s, ⟨p, o :: a⟩ :: l⟩ :: S) (⟨s, ⟨p, o' :: a⟩ :: l⟩ :: S)

/-- Any number of such changes. -/
def Rewrites (R : ο → ο → Prop) :
    List (Statement σ π ο) → List (Statement σ π ο) → Prop :=
  Relation.ReflTransGen (Rewrite R)

section Says

variable {S S' : List (Statement σ π ο)} {l l' : List (Pair π ο)} {s : σ} {p : π} {o : ο}

theorem pairsSay_cons {pair : Pair π ο} : PairsSay (pair :: l) p o ↔
    pair.predicate = p ∧ o ∈ pair.objects ∨ PairsSay l p o := by
  rw [PairsSay, List.exists_mem_cons_iff, PairsSay]

theorem pairsSay_append : PairsSay (l ++ l') p o ↔ PairsSay l p o ∨ PairsSay l' p o := by
  simp only [PairsSay, List.mem_append, or_and_right, exists_or]

theorem says_cons {st : Statement σ π ο} : Says (st :: S) s p o ↔
    st.subject = s ∧ PairsSay st.pairs p o ∨ Says S s p o := by
  rw [Says, List.exists_mem_cons_iff, Says]

theorem pairsSay_of_pairsRewrite (h : PairsRewrite l l') (hsay : PairsSay l' p o) :
    PairsSay l p o := by
  cases h with
  | reorder h =>
      obtain ⟨pair, hpair, hp⟩ := hsay
      exact ⟨pair, h.mem_iff.mpr hpair, hp⟩
  | cut q ha hb l =>
      simp only [pairsSay_cons, List.mem_append] at hsay ⊢
      tauto
  | join q ha hb l =>
      simp only [pairsSay_cons, List.mem_append] at hsay ⊢
      tauto
  | again h =>
      rcases pairsSay_cons.mp hsay with ⟨rfl, ho⟩ | hsay
      · rwa [List.mem_singleton.mp ho]
      · exact hsay

/-- No change adds a triple, if the object of the triple is not one that changes. -/
theorem says_of_rewrite {R : ο → ο → Prop} (hR : ∀ o', ¬ R o' o) (h : Rewrite R S S')
    (hsay : Says S' s p o) : Says S s p o := by
  cases h with
  | reorder h =>
      obtain ⟨st, hst, hs⟩ := hsay
      exact ⟨st, h.mem_iff.mpr hst, hs⟩
  | pairs t h S =>
      rcases says_cons.mp hsay with ⟨rfl, hpairs⟩ | hsay
      · exact says_cons.mpr (Or.inl ⟨rfl, pairsSay_of_pairsRewrite h hpairs⟩)
      · exact says_cons.mpr (Or.inr hsay)
  | split t hl hl' S =>
      simp only [says_cons, pairsSay_append] at hsay ⊢
      tauto
  | again h =>
      rcases says_cons.mp hsay with ⟨rfl, hpairs⟩ | hsay
      · rcases pairsSay_cons.mp hpairs with ⟨rfl, ho⟩ | hpairs
        · rwa [List.mem_singleton.mp ho]
        · exact says_cons.mpr (Or.inl ⟨rfl, hpairs⟩)
      · exact says_cons.mpr (Or.inr hsay)
  | object t q h a l S =>
      simp only [says_cons, pairsSay_cons, List.mem_cons] at hsay ⊢
      rcases hsay with ⟨ht, ⟨hq, rfl | ho⟩ | hpairs⟩ | hsay
      · exact absurd h (hR _)
      · exact Or.inl ⟨ht, Or.inl ⟨hq, Or.inr ho⟩⟩
      · exact Or.inl ⟨ht, Or.inr hpairs⟩
      · exact Or.inr hsay

theorem says_of_rewrites {R : ο → ο → Prop} (hR : ∀ o', ¬ R o' o) (h : Rewrites R S S')
    (hsay : Says S' s p o) : Says S s p o := by
  induction h with
  | refl => exact hsay
  | tail _ hstep ih => exact ih (says_of_rewrite hR hstep hsay)

end Says

section Rewrites

variable {R : ο → ο → Prop} {S S' T : List (Statement σ π ο)}

theorem Rewrites.trans {S'' : List (Statement σ π ο)} (h : Rewrites R S S')
    (h' : Rewrites R S' S'') : Rewrites R S S'' :=
  Relation.ReflTransGen.trans h h'

theorem Rewrites.of_perm (h : S.Perm S') : Rewrites R S S' :=
  Relation.ReflTransGen.single (.reorder h)

/-- Every pair in a statement of its own. -/
def apart (st : Statement σ π ο) : List (Statement σ π ο) :=
  if st.pairs.isEmpty then [st] else st.pairs.map fun pair => ⟨st.subject, [pair]⟩

theorem rewrites_apart (s : σ) (pair : Pair π ο) (l : List (Pair π ο))
    (S : List (Statement σ π ο)) :
    Rewrites R (⟨s, pair :: l⟩ :: S) ((pair :: l).map (fun q => ⟨s, [q]⟩) ++ S) := by
  induction l generalizing pair S with
  | nil => exact Relation.ReflTransGen.refl
  | cons pair' l ih =>
      have hsplit : Rewrites R (⟨s, pair :: pair' :: l⟩ :: S)
          (⟨s, [pair]⟩ :: ⟨s, pair' :: l⟩ :: S) :=
        Relation.ReflTransGen.single
          (.split s (List.cons_ne_nil pair []) (List.cons_ne_nil pair' l) S)
      have hswap : Rewrites R (⟨s, [pair]⟩ :: ⟨s, pair' :: l⟩ :: S)
          (⟨s, pair' :: l⟩ :: ⟨s, [pair]⟩ :: S) :=
        Rewrites.of_perm (List.Perm.swap _ _ _)
      have hback : Rewrites R ((pair' :: l).map (fun q => ⟨s, [q]⟩) ++ ⟨s, [pair]⟩ :: S)
          ((pair :: pair' :: l).map (fun q => ⟨s, [q]⟩) ++ S) :=
        Rewrites.of_perm List.perm_middle
      exact ((hsplit.trans hswap).trans (ih pair' (⟨s, [pair]⟩ :: S))).trans hback

/-- A statement can be written with every pair in a statement of its own, whatever
stands before and after it. -/
theorem rewrites_flatMap_apart (S : List (Statement σ π ο)) :
    Rewrites R S (S.flatMap apart) := by
  suffices h : ∀ T : List (Statement σ π ο), Rewrites R (S ++ T) (S.flatMap apart ++ T) by
    simpa using h []
  induction S with
  | nil => exact fun T => Relation.ReflTransGen.refl
  | cons st S ih =>
      intro T
      have hfirst : Rewrites R (st :: (S ++ T)) (apart st ++ (S ++ T)) := by
        obtain ⟨s, l⟩ := st
        cases l with
        | nil => exact Relation.ReflTransGen.refl
        | cons pair l => exact rewrites_apart s pair l (S ++ T)
      have hto : Rewrites R (apart st ++ (S ++ T)) (S ++ (T ++ apart st)) := by
        refine Rewrites.of_perm ?_
        rw [← List.append_assoc S]
        exact List.perm_append_comm
      have hfrom : Rewrites R (S.flatMap apart ++ (T ++ apart st))
          ((st :: S).flatMap apart ++ T) := by
        refine Rewrites.of_perm ?_
        rw [List.flatMap_cons, List.append_assoc, ← List.append_assoc _ T]
        exact List.perm_append_comm
      exact ((hfirst.trans hto).trans (ih (T ++ apart st))).trans hfrom

/-- Triples about one subject can be written once more, in a statement of their
own. -/
theorem rewrites_gather {s : σ} {triples : List (π × ο)}
    (h : ∀ t ∈ triples, Says S s t.1 t.2) (hne : triples ≠ []) :
    Rewrites R S (⟨s, triples.map fun t => ⟨t.1, [t.2]⟩⟩ :: S) := by
  have hmem : ∃ l, l ≠ [] ∧ ⟨s, l⟩ ∈ S := by
    obtain ⟨t, ht⟩ := List.exists_mem_of_ne_nil triples hne
    obtain ⟨⟨_, l⟩, hst, rfl, pair, hpair, -⟩ := h t ht
    exact ⟨l, List.ne_nil_of_mem hpair, hst⟩
  obtain ⟨l, hl, hst⟩ := hmem
  obtain ⟨S₁, S₂, rfl⟩ := List.append_of_mem hst
  have hfront : Rewrites R (S₁ ++ ⟨s, l⟩ :: S₂) (⟨s, l⟩ :: (S₁ ++ S₂)) :=
    Rewrites.of_perm List.perm_middle
  have hsaid : ∀ t ∈ triples, Says (⟨s, l⟩ :: (S₁ ++ S₂)) s t.1 t.2 := by
    intro t ht
    obtain ⟨st, hmem, hsay⟩ := h t ht
    exact ⟨st, List.perm_middle.mem_iff.mp hmem, hsay⟩
  have hagain : ∀ ts : List (π × ο), (∀ t ∈ ts, t ∈ triples) →
      Rewrites R (⟨s, l⟩ :: (S₁ ++ S₂))
        (⟨s, (ts.map fun t => ⟨t.1, [t.2]⟩) ++ l⟩ :: (S₁ ++ S₂)) := by
    intro ts
    induction ts with
    | nil => exact fun _ => Relation.ReflTransGen.refl
    | cons t ts ih =>
        intro hts
        rw [List.forall_mem_cons] at hts
        refine Relation.ReflTransGen.tail (ih hts.2) (.again ?_)
        have hold := says_cons.mp (hsaid t hts.1)
        refine says_cons.mpr (hold.imp_left fun hs => ?_)
        exact ⟨rfl, pairsSay_append.mpr (Or.inr hs.2)⟩
  have hsplit : Rewrites R
      (⟨s, (triples.map fun t => ⟨t.1, [t.2]⟩) ++ l⟩ :: (S₁ ++ S₂))
      (⟨s, triples.map fun t => ⟨t.1, [t.2]⟩⟩ :: ⟨s, l⟩ :: (S₁ ++ S₂)) :=
    Relation.ReflTransGen.single (.split s (by simpa using hne) hl _)
  have hback : Rewrites R
      (⟨s, triples.map fun t => ⟨t.1, [t.2]⟩⟩ :: ⟨s, l⟩ :: (S₁ ++ S₂))
      (⟨s, triples.map fun t => ⟨t.1, [t.2]⟩⟩ :: (S₁ ++ ⟨s, l⟩ :: S₂)) :=
    Rewrites.of_perm (List.perm_middle.symm.cons _)
  exact ((hfront.trans (hagain triples fun _ h => h)).trans hsplit).trans hback

end Rewrites

end TripleSets

end Foundation
