import SolidPod.Ldp.JsonPatch

/-!
# What a JSON Patch means

The evaluation that RFC 6902 describes, over the tokens of valid JSON Pointers.
A location is a list of tokens, and an operation makes a new document or fails.
An array index has no sign and no leading zeros and fits a machine word, which
every index into an array does; `-` is the place after the last element and only
an addition goes there.
-/

namespace SolidPod

namespace Ldp

namespace JsonPatch

open Foundation Str

/-! ## Pointers -/

/-- The token that is written as `s`: every `~` begins `~0` or `~1`. -/
def decodeToken : Str → Option Str
  | [] => some []
  | [c] => if c = '~' then none else some [c]
  | c :: d :: cs =>
    if c = '~' then
      if d = '0' then (decodeToken cs).map ('~' :: ·)
      else if d = '1' then (decodeToken cs).map ('/' :: ·)
      else none
    else (decodeToken (d :: cs)).map (c :: ·)

/-- The tokens of a valid pointer. -/
def parsePointer (path : Str) : Option (List Str) :=
  if path.isEmpty then some []
  else if startsWith ['/'] path then (splitSlash path).tail.mapM decodeToken
  else none

/-- The value of a row of digits. -/
def digitsValue (s : Str) : Nat := s.foldl (fun n c => 10 * n + (c.toNat - '0'.toNat)) 0

def arrayIndex (s : Str) : Option Nat :=
  match s with
  | [] => none
  | c :: cs =>
    if (c :: cs).all isDigit && (c != '0' || cs.isEmpty) && decide (digitsValue (c :: cs) < 2 ^ 64)
    then some (digitsValue (c :: cs))
    else none

/-! ## Locations -/

def descend (token : Str) : Json → Option Json
  | .object m => Json.member token m
  | .array a => (arrayIndex token).bind fun i => a[i]?
  | _ => none

/-- The container with another value under a token that leads to one. -/
def put (token : Str) (v : Json) : Json → Json
  | .object m => .object (Json.insertMember token v m)
  | .array a => .array (((arrayIndex token).map fun i => a.set i v).getD a)
  | w => w

def valueAt : List Str → Json → Option Json
  | [], v => some v
  | token :: tokens, v => (descend token v).bind (valueAt tokens)

/-- The document with the value at a location replaced by what `f` makes of it. -/
def modify (f : Json → Option Json) : List Str → Json → Option Json
  | [], v => f v
  | token :: tokens, v =>
    (descend token v).bind fun w => (modify f tokens w).map fun w => put token w v

/-! ## Operations -/

def addMember (token : Str) (value : Json) : Json → Option Json
  | .object m => some (.object (Json.insertMember token value m))
  | .array a =>
    if token == "-" then some (.array (a ++ [value]))
    else (arrayIndex token).bind fun i =>
      if i ≤ a.length then some (.array (a.insertIdx i value)) else none
  | _ => none

def removeMember (token : Str) : Json → Option Json
  | .object m => (Json.member token m).map fun _ => .object (Json.removeMember token m)
  | .array a => (arrayIndex token).bind fun i =>
      if i < a.length then some (.array (a.eraseIdx i)) else none
  | _ => none

/-- Insert or replace at a location whose parent exists. -/
def addAt (tokens : List Str) (value doc : Json) : Option Json :=
  match tokens.getLast? with
  | none => some value
  | some token => modify (addMember token value) tokens.dropLast doc

/-- Delete a member; the whole document is not one. -/
def removeAt (tokens : List Str) (doc : Json) : Option Json :=
  match tokens.getLast? with
  | none => none
  | some token => modify (removeMember token) tokens.dropLast doc

/-- Replace what is at a location. -/
def replaceAt (tokens : List Str) (value doc : Json) : Option Json :=
  modify (fun _ => some value) tokens doc

/-- The rational number that a number is. -/
def numericValue : Number → ℚ
  | .posInt n => n.toNat
  | .negInt n => n.toInt
  | .float q => q

mutual

/-- The value with every number written as the rational that it is. -/
def canonical : Json → Json
  | .null => .null
  | .bool b => .bool b
  | .number n => .number (.float (numericValue n))
  | .string s => .string s
  | .array a => .array (canonicalItems a)
  | .object m => .object (canonicalMembers m)

def canonicalItems : List Json → List Json
  | [] => []
  | v :: vs => canonical v :: canonicalItems vs

def canonicalMembers : List (Str × Json) → List (Str × Json)
  | [] => []
  | (k, v) :: ms => (k, canonical v) :: canonicalMembers ms

end

/-- Values are equal when they differ in how numbers are written only. -/
def Same (v w : Json) : Prop := canonical v = canonical w

instance (v w : Json) : Decidable (Same v w) :=
  inferInstanceAs (Decidable (canonical v = canonical w))

inductive Operation where
  | add (path : Str) (value : Json)
  | remove (path : Str)
  | replace (path : Str) (value : Json)
  | move (src path : Str)
  | copy (src path : Str)
  | test (path : Str) (value : Json)

/-- The pointers of an operation. -/
def Operation.paths : Operation → List Str
  | .add path _ => [path]
  | .remove path => [path]
  | .replace path _ => [path]
  | .move src path => [src, path]
  | .copy src path => [src, path]
  | .test path _ => [path]

/-- The operation that an element of a patch is. -/
def readOperation (op : Json) : Option Operation := do
  let opName ← (getKey op "op").bind asStr
  let path ← (getKey op "path").bind asStr
  if opName == "add" then return .add path (← getKey op "value")
  else if opName == "replace" then return .replace path (← getKey op "value")
  else if opName == "remove" then return .remove path
  else if opName == "test" then return .test path (← getKey op "value")
  else if opName == "copy" then return .copy (← (getKey op "from").bind asStr) path
  else if opName == "move" then return .move (← (getKey op "from").bind asStr) path
  else none

/-- A location cannot be moved into one of its children. -/
def Inside (src tokens : List Str) : Prop := src <+: tokens ∧ src ≠ tokens

instance (src tokens : List Str) : Decidable (Inside src tokens) :=
  inferInstanceAs (Decidable (src <+: tokens ∧ src ≠ tokens))

def Operation.evaluate (doc : Json) : Operation → Option Json
  | .add path value => do addAt (← parsePointer path) value doc
  | .remove path => do removeAt (← parsePointer path) doc
  | .replace path value => do replaceAt (← parsePointer path) value doc
  | .move src path => do
    let source ← parsePointer src
    let tokens ← parsePointer path
    if Inside source tokens then none
    else
      let value ← valueAt source doc
      addAt tokens value (← removeAt source doc)
  | .copy src path => do
    let value ← valueAt (← parsePointer src) doc
    addAt (← parsePointer path) value doc
  | .test path value => do
    let actual ← valueAt (← parsePointer path) doc
    if Same actual value then some doc else none

/-- The evaluation of a patch, operation after operation. -/
def evaluate (doc : Json) (ops : List Json) : Option Json :=
  ops.foldlM (fun doc op => (readOperation op).bind (Operation.evaluate doc)) doc

end JsonPatch

end Ldp

end SolidPod
