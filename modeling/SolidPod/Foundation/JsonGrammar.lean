import SolidPod.Foundation.Utf8

/-!
# The grammar of JSON texts

A JSON text in octets, with the number of arrays and objects that are open behind each of its
octets. The largest of these numbers is how deep the text is nested. A reader that refuses a
text at the first octet that no text goes on with stands in a text as long as it reads, so the
places that it can reach are the beginnings of texts. Octets from `0x80` on stand in strings
in any order: what is said of all these texts is said of those in UTF-8.
-/

namespace Foundation

namespace JsonGrammar

def IsBlank (b : UInt8) : Prop := b = 0x20 ∨ b = 0x09 ∨ b = 0x0A ∨ b = 0x0D

instance (b : UInt8) : Decidable (IsBlank b) := inferInstanceAs (Decidable (_ ∨ _))

abbrev Blank (w : Bytes) : Prop := ∀ b ∈ w, IsBlank b

/-! ## Scalars -/

def IsDigit (b : UInt8) : Prop := 0x30 ≤ b ∧ b ≤ 0x39

def IsHexDigit (b : UInt8) : Prop :=
  IsDigit b ∨ (0x41 ≤ b ∧ b ≤ 0x46) ∨ (0x61 ≤ b ∧ b ≤ 0x66)

instance (b : UInt8) : Decidable (IsDigit b) := inferInstanceAs (Decidable (_ ∧ _))

instance (b : UInt8) : Decidable (IsHexDigit b) := inferInstanceAs (Decidable (_ ∨ _))

structure Digits (ds : Bytes) : Prop where
  ne_nil : ds ≠ []
  digit : ∀ d ∈ ds, IsDigit d

inductive IsInteger : Bytes → Prop where
  | zero : IsInteger [0x30]
  | digits {d : UInt8} {ds : Bytes} (hd : IsDigit d) (hne : d ≠ 0x30)
      (h : ∀ e ∈ ds, IsDigit e) : IsInteger (d :: ds)

inductive IsFraction : Bytes → Prop where
  | none : IsFraction []
  | digits {ds : Bytes} (h : Digits ds) : IsFraction (0x2E :: ds)

inductive IsExponent : Bytes → Prop where
  | none : IsExponent []
  | digits {e : UInt8} {sign ds : Bytes} (he : e = 0x65 ∨ e = 0x45)
      (hsign : sign = [] ∨ sign = [0x2B] ∨ sign = [0x2D]) (h : Digits ds) :
      IsExponent (e :: (sign ++ ds))

/-- The inside of a string literal. -/
inductive Chars : Bytes → Prop where
  | nil : Chars []
  | plain {b : UInt8} {s : Bytes} (hcontrol : 0x20 ≤ b) (hquote : b ≠ 0x22) (hslash : b ≠ 0x5C)
      (h : Chars s) : Chars (b :: s)
  | escape {b : UInt8} {s : Bytes}
      (hb : b ∈ ([0x22, 0x5C, 0x2F, 0x62, 0x66, 0x6E, 0x72, 0x74] : Bytes)) (h : Chars s) :
      Chars (0x5C :: b :: s)
  | unicode {ds s : Bytes} (hlength : ds.length = 4) (hds : ∀ d ∈ ds, IsHexDigit d)
      (h : Chars s) : Chars (0x5C :: 0x75 :: (ds ++ s))

/-- A string literal. -/
inductive IsLiteral : Bytes → Prop where
  | quoted {s : Bytes} (h : Chars s) : IsLiteral (0x22 :: (s ++ [0x22]))

inductive Scalar : Bytes → Prop where
  | null : Scalar [0x6E, 0x75, 0x6C, 0x6C]
  | true : Scalar [0x74, 0x72, 0x75, 0x65]
  | false : Scalar [0x66, 0x61, 0x6C, 0x73, 0x65]
  | number {sign int frac exp : Bytes} (hsign : sign = [] ∨ sign = [0x2D]) (hint : IsInteger int)
      (hfrac : IsFraction frac) (hexp : IsExponent exp) :
      Scalar (sign ++ (int ++ (frac ++ exp)))
  | literal {t : Bytes} (h : IsLiteral t) : Scalar t

/-! ## Arrays and objects -/

inductive Container where
  | array
  | object
  deriving DecidableEq

def Container.left : Container → UInt8
  | .array => 0x5B
  | .object => 0x7B

def Container.right : Container → UInt8
  | .array => 0x5D
  | .object => 0x7D

/-- What stands before a value in a container. -/
inductive Lead : Container → Bytes → Prop where
  | item {w : Bytes} (hw : Blank w) : Lead .array w
  | key {w k w' w'' : Bytes} (hw : Blank w) (hk : IsLiteral k) (hw' : Blank w')
      (hw'' : Blank w'') : Lead .object (w ++ (k ++ (w' ++ (0x3A :: w''))))

/-- As many places with the same number of open containers as there are octets. -/
def level (n : ℕ) (t : Bytes) : List ℕ := List.replicate t.length n

/-- A value, or the entries of a container that has some, and how many containers are open
behind each octet. -/
inductive Derives : Option Container → List ℕ → Bytes → Prop where
  | scalar {t : Bytes} (h : Scalar t) : Derives none (level 0 t) t
  | empty (c : Container) {w : Bytes} (hw : Blank w) :
      Derives none (1 :: (level 1 w ++ [0])) (c.left :: (w ++ [c.right]))
  | nested {c : Container} {heights : List ℕ} {t : Bytes} (h : Derives (some c) heights t) :
      Derives none (1 :: (heights.map (· + 1) ++ [0])) (c.left :: (t ++ [c.right]))
  | last {c : Container} {heights : List ℕ} {l t w : Bytes} (hl : Lead c l)
      (h : Derives none heights t) (hw : Blank w) :
      Derives (some c) (level 0 l ++ (heights ++ level 0 w)) (l ++ (t ++ w))
  | more {c : Container} {heights heights' : List ℕ} {l t w t' : Bytes} (hl : Lead c l)
      (h : Derives none heights t) (hw : Blank w) (h' : Derives (some c) heights' t') :
      Derives (some c) (level 0 l ++ (heights ++ (level 0 w ++ 0 :: heights')))
        (l ++ (t ++ (w ++ 0x2C :: t')))

inductive Text : List ℕ → Bytes → Prop where
  | value {heights : List ℕ} {w t w' : Bytes} (hw : Blank w) (h : Derives none heights t)
      (hw' : Blank w') : Text (level 0 w ++ (heights ++ level 0 w')) (w ++ (t ++ w'))

/-- A text whose containers are nested as deep as `depth`. -/
def Nested (depth : ℕ) (t : Bytes) : Prop := ∃ heights, Text heights t ∧ depth = heights.foldr max 0

theorem foldr_max_le_iff (l : List ℕ) (n : ℕ) : l.foldr max 0 ≤ n ↔ ∀ d ∈ l, d ≤ n := by
  induction l with
  | nil => simp
  | cons d l ih => rw [List.foldr_cons, Nat.max_le, ih, List.forall_mem_cons]

theorem level_append (n : ℕ) (x y : Bytes) : level n (x ++ y) = level n x ++ level n y := by
  rw [level, level, level, List.length_append, List.replicate_add]

/-- A reader has read the octets, can go on, and has so many containers open. -/
def Reached (p : Bytes) (opened : ℕ) : Prop :=
  ∃ heights t, Text heights t ∧ p <+: t ∧ (0 :: heights)[p.length]? = some opened

end JsonGrammar

end Foundation
