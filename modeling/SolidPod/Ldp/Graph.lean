import Mathlib.Data.Prod.Lex
import SolidPod.Error
import SolidPod.Foundation.SortedSet

/-!
# The triple model and its N-Triples form

A graph is an ordered set of triples. It is written with one line for each
triple, in order, and read back line by line. The reader takes a literal octet
by octet and ends a blank label at a dot, so a graph comes back as it was exactly
when its literals are ASCII and its blank labels hold no dot.
-/

namespace SolidPod

namespace Ldp

open Foundation Str

inductive Term where
  | iri (i : Str)
  | blankNode (b : Str)
  | literal (value : Str) (datatype language : Option Str)

/-- The fields that the derived order compares, in order: the variant, its
text, the datatype and the language. -/
def Term.key : Term → ℕ ×ₗ Str ×ₗ List Str ×ₗ List Str
  | .iri i => toLex (0, toLex (i, toLex ([], [])))
  | .blankNode b => toLex (1, toLex (b, toLex ([], [])))
  | .literal v d l => toLex (2, toLex (v, toLex (d.toList, l.toList)))

theorem Term.key_injective : Function.Injective Term.key := by
  intro s t h
  have hlist {a b : Option Str} (hab : a.toList = b.toList) : a = b := by
    cases a <;> cases b <;> simp_all
  cases s <;> cases t <;> simp [Term.key] at h
  · simp [h]
  · simp [h]
  · obtain ⟨rfl, hd, hl⟩ := h
    rw [hlist hd, hlist hl]

instance : LinearOrder Term := LinearOrder.lift' Term.key Term.key_injective

structure Triple where
  subject : Term
  predicate : Term
  object : Term

def Triple.key (t : Triple) : Term ×ₗ Term ×ₗ Term :=
  toLex (t.subject, toLex (t.predicate, t.object))

theorem Triple.key_injective : Function.Injective Triple.key := by
  intro s t h
  cases s
  cases t
  simpa [Triple.key] using h

instance : LinearOrder Triple := LinearOrder.lift' Triple.key Triple.key_injective

/-- A sorted set of triples. -/
abbrev Graph := SortedSet Triple

/-- A character of a literal as it is written. -/
def escapeChar (c : Char) : Str :=
  if c = '\\' then "\\\\"
  else if c = '"' then "\\\""
  else if c = '\n' then "\\n"
  else if c = '\r' then "\\r"
  else if c = '\t' then "\\t"
  else [c]

def literalSuffix (datatype language : Option Str) : Str :=
  match language, datatype with
  | some lang, _ => '@' :: lang
  | none, some dt => "^^<" ++ dt ++ ">"
  | none, none => []

def Term.writeNtriples : Term → Str
  | .iri i => '<' :: i ++ ['>']
  | .blankNode b => "_:" ++ b
  | .literal value datatype language =>
    '"' :: value.flatMap escapeChar ++ '"' :: literalSuffix datatype language

/-- The line of a triple. -/
def Triple.writeNtriples (t : Triple) : Str :=
  t.subject.writeNtriples ++ ' ' :: t.predicate.writeNtriples ++ ' ' :: t.object.writeNtriples ++
    " ."

def toNtriples (g : Graph) : Str := g.items.flatMap fun t => t.writeNtriples ++ ['\n']

/-- What ends a blank label or a language tag. -/
def endsLabel (c : Char) : Bool := isWhitespace c || c == '.'

def unescape (d : Char) : Str :=
  if d = 'n' then ['\n']
  else if d = 't' then ['\t']
  else if d = 'r' then ['\r']
  else bytesAsChars (String.utf8EncodeChar d)

/-- The value of a literal, after its opening quote, and the text after its
closing one. Every octet becomes a character of its own; a literal that is not
closed ends with the text. -/
def readValue : Str → Str × Str
  | [] => ([], [])
  | '"' :: cs => ([], cs)
  | '\\' :: d :: cs => (unescape d ++ (readValue cs).1, (readValue cs).2)
  | c :: cs => (bytesAsChars (String.utf8EncodeChar c) ++ (readValue cs).1, (readValue cs).2)

def readLiteral (input : Str) : Except Str (Term × Str) :=
  match stripPrefix ['"'] input with
  | none => .error "expected '\"'"
  | some inside =>
    let (value, rest) := readValue inside
    match stripPrefix "^^<" rest with
    | some r =>
      match splitOnce '>' r with
      | none => .error "unterminated datatype IRI"
      | some (dt, rest) => .ok (.literal value (some dt) none, rest)
    | none =>
      match stripPrefix ['@'] rest with
      | some r =>
        .ok (.literal value none (some (r.takeWhile (!endsLabel ·))), r.dropWhile (!endsLabel ·))
      | none => .ok (.literal value none none, rest)

def readTerm (input : Str) : Except Str (Term × Str) :=
  let input := trimStart input
  match stripPrefix ['<'] input with
  | some rest =>
    match splitOnce '>' rest with
    | none => .error "unterminated IRI"
    | some (iri, rest) => .ok (.iri iri, rest)
  | none =>
    match stripPrefix "_:" input with
    | some rest =>
      .ok (.blankNode (rest.takeWhile (!endsLabel ·)), rest.dropWhile (!endsLabel ·))
    | none =>
      if startsWith ['"'] input then readLiteral input
      else .error ("unexpected char: " ++ [input.headD '?'])

def parseNtLine (line : Str) : Except Str Triple := do
  let line := trim (trimEndMatches '.' line)
  let (subject, rest) ← readTerm line
  let (predicate, rest) ← readTerm (trimStart rest)
  let (object, _) ← readTerm (trimStart rest)
  return ⟨subject, predicate, object⟩

/-- The triple on a line; a blank line and a comment hold none. -/
def readLine (line : Str) : Except Str (Option Triple) :=
  let line := trim line
  if line.isEmpty || startsWith ['#'] line then .ok none else (parseNtLine line).map some

/-- What went wrong on the `i`th line, counted from zero. -/
def lineError (i : Nat) (e : Str) : PodError :=
  .unsupported ("N-Triples line " ++ decimal (i + 1) ++ ": " ++ e)

/-- One round of the reader: a line, and its number. -/
def insertLine (g : Graph) (line : Str × Nat) : Except PodError Graph :=
  match readLine line.1 with
  | .ok t => .ok (t.elim g fun t => g.insert t)
  | .error e => .error (lineError line.2 e)

def parseNtriples (input : Str) : Except PodError Graph :=
  (lines input).zipIdx.foldlM insertLine ∅

end Ldp

end SolidPod
