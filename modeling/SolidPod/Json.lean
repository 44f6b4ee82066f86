import Mathlib.Data.Rat.Defs
import SolidPod.Error

/-!
# JSON values

The value type of the JSON library: an integer in the unsigned or the negative
range or a floating-point number, which is equal to another one exactly when
the two denote the same rational. An object is its list of members in key
order. Reading a value from bytes and writing it out is the library's, so both
are parameters.
-/

namespace SolidPod

open Foundation

inductive Number where
  | posInt (n : UInt64)
  | negInt (n : Int64)
  | float (q : ℚ)
  deriving DecidableEq

inductive Json where
  | null
  | bool (b : Bool)
  | number (n : Number)
  | string (s : Str)
  | array (a : List Json)
  | object (m : List (Str × Json))

namespace Json

mutual

def decEq : (a b : Json) → Decidable (a = b)
  | .null, .null => isTrue rfl
  | .bool a, .bool b => decidable_of_iff (a = b) (by simp)
  | .number a, .number b => decidable_of_iff (a = b) (by simp)
  | .string a, .string b => decidable_of_iff (a = b) (by simp)
  | .array a, .array b =>
    match decEqItems a b with
    | isTrue h => isTrue (by rw [h])
    | isFalse h => isFalse (by simpa using h)
  | .object a, .object b =>
    match decEqMembers a b with
    | isTrue h => isTrue (by rw [h])
    | isFalse h => isFalse (by simpa using h)
  | .null, .bool _ | .null, .number _ | .null, .string _ | .null, .array _
  | .null, .object _ => isFalse (by simp)
  | .bool _, .null | .bool _, .number _ | .bool _, .string _ | .bool _, .array _
  | .bool _, .object _ => isFalse (by simp)
  | .number _, .null | .number _, .bool _ | .number _, .string _ | .number _, .array _
  | .number _, .object _ => isFalse (by simp)
  | .string _, .null | .string _, .bool _ | .string _, .number _ | .string _, .array _
  | .string _, .object _ => isFalse (by simp)
  | .array _, .null | .array _, .bool _ | .array _, .number _ | .array _, .string _
  | .array _, .object _ => isFalse (by simp)
  | .object _, .null | .object _, .bool _ | .object _, .number _ | .object _, .string _
  | .object _, .array _ => isFalse (by simp)

def decEqItems : (a b : List Json) → Decidable (a = b)
  | [], [] => isTrue rfl
  | [], _ :: _ => isFalse (by simp)
  | _ :: _, [] => isFalse (by simp)
  | a :: as, b :: bs =>
    match decEq a b, decEqItems as bs with
    | isTrue h, isTrue hs => isTrue (by rw [h, hs])
    | isFalse h, _ => isFalse (by simp [h])
    | _, isFalse hs => isFalse (by simp [hs])

def decEqMembers : (a b : List (Str × Json)) → Decidable (a = b)
  | [], [] => isTrue rfl
  | [], _ :: _ => isFalse (by simp)
  | _ :: _, [] => isFalse (by simp)
  | (k, a) :: as, (l, b) :: bs =>
    match decEq a b, decEqMembers as bs with
    | isTrue h, isTrue hs => decidable_of_iff (k = l) (by simp [h, hs])
    | isFalse h, _ => isFalse (by simp [h])
    | _, isFalse hs => isFalse (by simp [hs])

end

instance : DecidableEq Json := decEq

/-- The member under a key. -/
def member (key : Str) (m : List (Str × Json)) : Option Json := m.lookup key

/-- Insert or replace the member under a key, keeping the key order. -/
def insertMember (key : Str) (v : Json) : List (Str × Json) → List (Str × Json)
  | [] => [(key, v)]
  | (k, w) :: m =>
    if key = k then (key, v) :: m
    else if key < k then (key, v) :: (k, w) :: m
    else (k, w) :: insertMember key v m

def removeMember (key : Str) (m : List (Str × Json)) : List (Str × Json) :=
  m.filter fun e => e.1 ≠ key

/-- The object whose members are inserted one after the other. -/
def ofMembers (l : List (Str × Json)) : Json :=
  .object (l.foldl (fun m e => insertMember e.1 e.2 m) [])

variable {key other : Str} {v : Json}

theorem member_cons (k : Str) (w : Json) (m : List (Str × Json)) :
    member other ((k, w) :: m) = if other = k then some w else member other m := by
  rw [member, List.lookup_cons]
  by_cases h : other = k
  · rw [if_pos h, beq_iff_eq.mpr h]
  · rw [if_neg h, beq_eq_false_iff_ne.mpr h]
    rfl

theorem member_insertMember (m : List (Str × Json)) :
    member other (insertMember key v m) =
      if other = key then some v else member other m := by
  induction m with
  | nil => exact member_cons key v []
  | cons e m ih =>
      obtain ⟨k, w⟩ := e
      rw [insertMember]
      by_cases hk : key = k
      · rw [if_pos hk, member_cons, member_cons, ← hk]
        by_cases h : other = key
        · rw [if_pos h, if_pos h]
        · rw [if_neg h, if_neg h, if_neg h]
      · rw [if_neg hk]
        by_cases hlt : key < k
        · rw [if_pos hlt, member_cons]
        · rw [if_neg hlt, member_cons, member_cons, ih]
          by_cases h : other = k
          · have hne : ¬ other = key := fun heq => hk (heq.symm.trans h)
            rw [if_pos h, if_neg hne, if_pos h]
          · rw [if_neg h, if_neg h]

end Json

end SolidPod
