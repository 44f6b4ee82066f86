import Mathlib.Algebra.Group.Nat.Defs
import SolidPod.Foundation.Utf8
import SolidPod.Json

/-!
# JSON Patch

`applyJsonPatch` runs the operations of an RFC 6902 patch one after the other on
a JSON value. A pointer is split into its tokens by the JSON library, and into
its parent and its last token by the patcher.
-/

namespace SolidPod

namespace Ldp

open Foundation Str

/-- The text with `~1` and `~0` replaced, in this order. -/
def replacePair (c d : Char) : Str → Str
  | a :: b :: cs =>
    if a = '~' && b = c then d :: replacePair c d cs else a :: replacePair c d (b :: cs)
  | cs => cs

def unescapeToken (s : Str) : Str := replacePair '0' '~' (replacePair '1' '/' s)

/-- The pieces of a text between its slashes. -/
def splitSlash : Str → List Str
  | [] => [[]]
  | c :: cs =>
    if c = '/' then [] :: splitSlash cs
    else
      match splitSlash cs with
      | [] => [[c]]
      | p :: ps => (c :: p) :: ps

/-- The tokens of a pointer of the JSON library. -/
def pointerTokens (path : Str) : Option (List Str) :=
  if path.isEmpty then some []
  else if startsWith ['/'] path then some ((splitSlash path).tail.map unescapeToken)
  else none

def isDigit (c : Char) : Bool := '0' ≤ c && c ≤ '9'

/-- `usize::from_str`: digits after an optional plus sign, within 64 bits. -/
def parseUsize (s : Str) : Option Nat :=
  let digits := (stripPrefix ['+'] s).getD s
  if digits.isEmpty || !digits.all isDigit then none
  else
    let n := digits.foldl (fun n c => 10 * n + (c.toNat - '0'.toNat)) 0
    if n < 2 ^ 64 then some n else none

/-- An array index of the JSON library: no sign, and no leading zero. -/
def parseIndex (s : Str) : Option Nat :=
  if startsWith ['+'] s || (startsWith ['0'] s && s.length != 1) then none else parseUsize s

/-- The value under one token. -/
def child (token : Str) : Json → Option Json
  | .object m => Json.member token m
  | .array a => (parseIndex token).bind fun i => a[i]?
  | _ => none

def pointer (target : Json) (path : Str) : Option Json :=
  (pointerTokens path).bind fun tokens => tokens.foldlM (fun v token => child token v) target

/-- The value with `v` under one token. -/
def setChild (token : Str) (v : Json) : Json → Json
  | .object m => .object (Json.insertMember token v m)
  | .array a => .array (((parseIndex token).map fun i => a.set i v).getD a)
  | w => w

/-- The value with the part that the tokens lead to replaced by what `f` makes
of it. -/
def modifyAt (missing : PodError) (f : Json → Except PodError Json) :
    List Str → Json → Except PodError Json
  | [], v => f v
  | token :: tokens, v =>
    match child token v with
    | none => .error missing
    | some w => (modifyAt missing f tokens w).map fun w => setChild token w v

/-- An update through `pointer_mut`. -/
def modifyPointer (target : Json) (path : Str) (missing : PodError)
    (f : Json → Except PodError Json) : Except PodError Json :=
  match pointerTokens path with
  | none => .error missing
  | some tokens => modifyAt missing f tokens target

def jsonPointerGet (target : Json) (path : Str) : Option Json :=
  if path.isEmpty then some target else pointer target path

/-- The parent and the last token of a pointer. -/
def splitPointer (path : Str) : Str × Str :=
  match splitOnce '/' path.reverse with
  | some (last, parent) => (parent.reverse, unescapeToken last.reverse)
  | none => ([], path)

def jsonPointerRemove (target : Json) (path : Str) : Except PodError Json :=
  if path.isEmpty then .error (.unsupported "cannot remove root")
  else
    let (parentPath, last) := splitPointer path
    modifyPointer target parentPath (.preconditionFailed ("remove path missing: " ++ path)) fun
      | .object m =>
        match Json.member last m with
        | none => .error (.preconditionFailed ("remove key missing: " ++ path))
        | some _ => .ok (.object (Json.removeMember last m))
      | .array a =>
        match parseUsize last with
        | none => .error (.unsupported ("remove array index not numeric: " ++ last))
        | some i =>
          if i ≥ a.length then
            .error (.preconditionFailed ("remove array out of bounds: " ++ decimal i))
          else .ok (.array (a.eraseIdx i))
      | _ => .error (.preconditionFailed ("remove target is not container: " ++ path))

def jsonPointerSet (target : Json) (path : Str) (value : Json) (addMode : Bool) :
    Except PodError Json :=
  if path.isEmpty then .ok value
  else
    let (parentPath, last) := splitPointer path
    modifyPointer target parentPath (.preconditionFailed ("set parent missing: " ++ path)) fun
      | .object m =>
        if !addMode && (Json.member last m).isNone then
          .error (.preconditionFailed ("replace missing key: " ++ path))
        else .ok (.object (Json.insertMember last value m))
      | .array a =>
        if last == "-" then .ok (.array (a ++ [value]))
        else
          match parseUsize last with
          | none => .error (.unsupported ("array index not numeric: " ++ last))
          | some i =>
            if addMode then
              if i > a.length then
                .error (.preconditionFailed ("array add out of bounds: " ++ decimal i))
              else .ok (.array (a.insertIdx i value))
            else if i ≥ a.length then
              .error (.preconditionFailed ("array replace out of bounds: " ++ decimal i))
            else .ok (.array (a.set i value))
      | _ => .error (.preconditionFailed ("set parent not container: " ++ path))

/-- `Value::get` with a key. -/
def getKey (v : Json) (key : Str) : Option Json :=
  match v with
  | .object m => Json.member key m
  | _ => none

def asStr : Json → Option Str
  | .string s => some s
  | _ => none

/-- A field of an operation, or the error that it is not there. -/
def required {α : Type} (o : Option α) (e : PodError) : Except PodError α :=
  match o with
  | some a => .ok a
  | none => .error e

def applyJsonPatchOp (target op : Json) : Except PodError Json := do
  let opName ← required ((getKey op "op").bind asStr) (.unsupported "JSON Patch op missing 'op'")
  let path ← required ((getKey op "path").bind asStr)
    (.unsupported "JSON Patch op missing 'path'")
  if opName == "add" then
    let value ← required (getKey op "value") (.unsupported "add requires value")
    jsonPointerSet target path value true
  else if opName == "replace" then
    let value ← required (getKey op "value") (.unsupported "replace requires value")
    jsonPointerSet target path value false
  else if opName == "remove" then jsonPointerRemove target path
  else if opName == "test" then
    let value ← required (getKey op "value") (.unsupported "test requires value")
    let actual ← required (jsonPointerGet target path)
      (.preconditionFailed ("test path missing: " ++ path))
    if actual = value then .ok target
    else .error (.preconditionFailed ("test failed at " ++ path))
  else if opName == "copy" then
    let src ← required ((getKey op "from").bind asStr) (.unsupported "copy requires from")
    let value ← required (jsonPointerGet target src)
      (.preconditionFailed ("copy from missing: " ++ src))
    jsonPointerSet target path value true
  else if opName == "move" then
    let src ← required ((getKey op "from").bind asStr) (.unsupported "move requires from")
    let value ← required (jsonPointerGet target src)
      (.preconditionFailed ("move from missing: " ++ src))
    let target ← jsonPointerRemove target src
    jsonPointerSet target path value true
  else .error (.unsupported ("unsupported JSON Patch op: " ++ opName))

def applyJsonPatch (target patch : Json) : Except PodError Json :=
  match patch with
  | .array ops => ops.foldlM applyJsonPatchOp target
  | _ => .error (.unsupported "JSON Patch must be an array")

end Ldp

end SolidPod
