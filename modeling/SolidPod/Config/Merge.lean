import Mathlib.Data.List.Lex
import SolidPod.Json

/-!
# Merging configuration trees

A layer of the configuration is merged into the tree of the layers below it:
objects member by member, and anything else as a whole. The members of an object
are in key order, so trees with the same members are the same. Merging is
associative as long as the middle tree has no leaf where the two others have objects.
-/

namespace SolidPod

open Foundation

namespace Json

mutual

def mergeJson : Json → Json → Json
  | .object b, .object o => .object (mergeMembers b o)
  | _, overlay => overlay

def mergeMembers (b : List (Str × Json)) : List (Str × Json) → List (Str × Json)
  | [] => b
  | (k, v) :: o =>
    match member k b with
    | some existing => mergeMembers (insertMember k (mergeJson existing v) b) o
    | none => mergeMembers (insertMember k v b) o

end

def isObject : Json → Bool
  | .object _ => true
  | _ => false

/-- What is left of two members under one key. -/
def mergeOption : Option Json → Option Json → Option Json
  | some existing, some v => some (mergeJson existing v)
  | existing, none => existing
  | none, some v => some v

variable {a b c v w : Json} {k : Str} {m m' o : List (Str × Json)}

@[simp] theorem mergeOption_none (x : Option Json) : mergeOption x none = x := by
  cases x with
  | none => rfl
  | some v => rfl

@[simp] theorem none_mergeOption (x : Option Json) : mergeOption none x = x := by
  cases x with
  | none => rfl
  | some v => rfl

theorem mergeJson_of_not_object (h : a.isObject = false ∨ b.isObject = false) :
    mergeJson a b = b := by
  cases a with
  | object m =>
      cases b with
      | object o => simp [isObject] at h
      | _ => rw [mergeJson]; simp
  | _ => rw [mergeJson]; simp

theorem exists_of_isObject (h : a.isObject = true) : ∃ m, a = .object m := by
  cases a with
  | object m => exact ⟨m, rfl⟩
  | _ => cases h

/-! ## Members in key order -/

def SortedKeys (m : List (Str × Json)) : Prop := m.Pairwise fun x y => x.1 < y.1

theorem mem_insertMember {x : Str × Json} (h : x ∈ insertMember k v m) : x.1 = k ∨ x ∈ m := by
  induction m with
  | nil =>
      rw [insertMember, List.mem_singleton] at h
      exact .inl (congrArg Prod.fst h)
  | cons y m ih =>
      obtain ⟨l, w⟩ := y
      rw [insertMember] at h
      split_ifs at h with heq hlt
      · rcases List.mem_cons.mp h with rfl | hmem
        · exact .inl rfl
        · exact .inr (List.mem_cons_of_mem _ hmem)
      · rcases List.mem_cons.mp h with rfl | hmem
        · exact .inl rfl
        · exact .inr hmem
      · rcases List.mem_cons.mp h with rfl | hmem
        · exact .inr List.mem_cons_self
        · exact (ih hmem).imp_right (List.mem_cons_of_mem _)

theorem SortedKeys.insertMember (h : SortedKeys m) (k : Str) (v : Json) :
    SortedKeys (insertMember k v m) := by
  induction m with
  | nil => exact List.pairwise_singleton _ _
  | cons y m ih =>
      obtain ⟨l, w⟩ := y
      obtain ⟨hhead, htail⟩ := List.pairwise_cons.mp h
      rw [Json.insertMember]
      split_ifs with heq hlt
      · exact List.pairwise_cons.mpr ⟨fun x hx => heq ▸ hhead x hx, htail⟩
      · refine List.pairwise_cons.mpr ⟨fun x hx => ?_, h⟩
        rcases List.mem_cons.mp hx with rfl | hmem
        · exact hlt
        · exact hlt.trans (hhead x hmem)
      · refine List.pairwise_cons.mpr ⟨fun x hx => ?_, ih htail⟩
        rcases mem_insertMember hx with hkey | hmem
        · rw [hkey]
          exact lt_of_le_of_ne (not_lt.mp hlt) (Ne.symm heq)
        · exact hhead x hmem

theorem member_eq_none_of_forall_lt (h : ∀ x ∈ m, k < x.1) : member k m = none := by
  rw [member, List.lookup_eq_none_iff]
  intro x hx
  exact bne_iff_ne.mpr (h x hx).ne

/-- Members in key order are determined by what they have under each key. -/
theorem SortedKeys.ext (h : SortedKeys m) (h' : SortedKeys m')
    (heq : ∀ k, member k m = member k m') : m = m' := by
  induction m generalizing m' with
  | nil =>
      cases m' with
      | nil => rfl
      | cons y m' =>
          have hy := heq y.1
          rw [member_cons, if_pos rfl] at hy
          cases hy
  | cons x m ih =>
      obtain ⟨hhead, htail⟩ := List.pairwise_cons.mp h
      cases m' with
      | nil =>
          have hx := heq x.1
          rw [member_cons, if_pos rfl] at hx
          cases hx
      | cons y m' =>
          obtain ⟨hhead', htail'⟩ := List.pairwise_cons.mp h'
          have hkey : x.1 = y.1 := by
            rcases lt_trichotomy x.1 y.1 with hlt | hkey | hlt
            · have hx := heq x.1
              rw [member_cons, if_pos rfl, member_eq_none_of_forall_lt] at hx
              · cases hx
              · intro z hz
                rcases List.mem_cons.mp hz with rfl | hmem
                · exact hlt
                · exact hlt.trans (hhead' z hmem)
            · exact hkey
            · have hy := heq y.1
              rw [member_cons y.1, if_pos rfl, member_eq_none_of_forall_lt] at hy
              · cases hy
              · intro z hz
                rcases List.mem_cons.mp hz with rfl | hmem
                · exact hlt
                · exact hlt.trans (hhead z hmem)
          have hvalue := heq x.1
          rw [member_cons, member_cons, if_pos rfl, if_pos hkey] at hvalue
          have hrest : ∀ k, member k m = member k m' := by
            intro k
            by_cases hk : k = x.1
            · rw [hk, member_eq_none_of_forall_lt hhead, hkey,
                member_eq_none_of_forall_lt hhead']
            · have htails := heq k
              rwa [member_cons, member_cons, if_neg hk, if_neg (hkey ▸ hk)] at htails
          exact congrArg₂ List.cons (Prod.ext hkey (Option.some.inj hvalue))
            (ih htail htail' hrest)

theorem SortedKeys.mergeMembers (h : SortedKeys m) (o : List (Str × Json)) :
    SortedKeys (mergeMembers m o) := by
  induction o generalizing m with
  | nil =>
      rw [Json.mergeMembers]
      exact h
  | cons x o ih =>
      obtain ⟨k, v⟩ := x
      rw [Json.mergeMembers]
      split
      · exact ih (h.insertMember k _)
      · exact ih (h.insertMember k _)

theorem member_mergeMembers (h : SortedKeys o) :
    member k (mergeMembers m o) = mergeOption (member k m) (member k o) := by
  induction o generalizing m with
  | nil =>
      rw [mergeMembers, member, member, List.lookup_nil, mergeOption_none]
  | cons x o ih =>
      obtain ⟨l, v⟩ := x
      obtain ⟨hhead, htail⟩ := List.pairwise_cons.mp h
      have hstep : mergeMembers m ((l, v) :: o) =
          mergeMembers (insertMember l ((mergeOption (member l m) (some v)).getD v) m) o := by
        rw [mergeMembers]
        cases member l m with
        | none => rfl
        | some existing => rfl
      rw [hstep, ih htail, member_insertMember, member_cons]
      by_cases hk : k = l
      · subst hk
        rw [if_pos rfl, if_pos rfl, member_eq_none_of_forall_lt hhead, mergeOption_none]
        cases member k m with
        | none => rfl
        | some existing => rfl
      · rw [if_neg hk, if_neg hk]

/-! ## Associativity -/

/-- The keys of each object are in order. -/
inductive WellFormed : Json → Prop
  | leaf {v : Json} (hleaf : v.isObject = false) : WellFormed v
  | object {m : List (Str × Json)} (hsorted : SortedKeys m)
      (hmembers : ∀ k v, member k m = some v → WellFormed v) : WellFormed (.object m)

/-- The value at the end of a path of keys. -/
def place : List Str → Json → Option Json
  | [], v => some v
  | k :: path, .object m => (member k m).bind (place path)
  | _ :: _, _ => none

/-- The middle tree has no leaf at a place where the others have objects. -/
def Gapless (a b c : Json) : Prop :=
  ∀ path x y z, place path a = some x → place path b = some y → place path c = some z →
    x.isObject = true → z.isObject = true → y.isObject = true

theorem Gapless.member {ma mb mc : List (Str × Json)} {x y z : Json}
    (h : Gapless (.object ma) (.object mb) (.object mc)) (hx : member k ma = some x)
    (hy : member k mb = some y) (hz : member k mc = some z) : Gapless x y z := by
  intro path x' y' z' hx' hy' hz'
  refine h (k :: path) x' y' z' ?_ ?_ ?_
  · rw [place, hx]
    exact hx'
  · rw [place, hy]
    exact hy'
  · rw [place, hz]
    exact hz'

theorem mergeJson_assoc (hc : c.WellFormed) (ha : a.WellFormed) (hb : b.WellFormed)
    (h : Gapless a b c) : mergeJson (mergeJson a b) c = mergeJson a (mergeJson b c) := by
  induction hc generalizing a b with
  | leaf hleaf =>
      rw [mergeJson_of_not_object (.inr hleaf), mergeJson_of_not_object (.inr hleaf),
        mergeJson_of_not_object (.inr hleaf)]
  | @object mc hsorted hmembers ih =>
      cases hb with
      | leaf hleaf =>
          rw [mergeJson_of_not_object (a := a) (.inr hleaf),
            mergeJson_of_not_object (a := b) (.inl hleaf)]
          cases ha with
          | leaf hleaf' => rw [mergeJson_of_not_object (a := a) (.inl hleaf')]
          | object hsorted' hmembers' =>
              have hobject := h [] _ _ _ rfl rfl rfl rfl rfl
              rw [hleaf] at hobject
              cases hobject
      | @object mb hsortedb hmembersb =>
          cases ha with
          | leaf hleaf' =>
              rw [mergeJson_of_not_object (a := a) (.inl hleaf'),
                mergeJson_of_not_object (a := a) (.inl hleaf')]
          | @object ma hsorteda hmembersa =>
              have hbc : SortedKeys (mergeMembers mb mc) := hsortedb.mergeMembers mc
              simp only [mergeJson]
              refine congrArg _ ?_
              refine ((hsorteda.mergeMembers mb).mergeMembers mc).ext
                (hsorteda.mergeMembers _) ?_
              intro k
              rw [member_mergeMembers hsorted, member_mergeMembers hsortedb,
                member_mergeMembers hbc, member_mergeMembers hsorted]
              cases hx : member k ma with
              | none => simp
              | some x =>
                  cases hy : member k mb with
                  | none => simp
                  | some y =>
                      cases hz : member k mc with
                      | none => simp
                      | some z =>
                          exact congrArg some (ih k z hz (hmembersa k x hx) (hmembersb k y hy)
                            (h.member hx hy hz))

end Json

end SolidPod
