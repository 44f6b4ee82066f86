import SolidPod.Foundation.Text

/-!
# A part of Turtle

Documents of prefix directives and of triples whose terms are IRIs: there are no literals, blank
nodes, collections, escapes or comments, and the names are of ASCII letters. The productions of
the grammar lend their names to what reads them. The reader takes one character after the other,
so a document is read piece by piece, and it is refused as soon as no document begins like it.
-/

namespace Foundation

namespace Turtle

open Str

structure IriTriple where
  subject : Str
  predicate : Str
  object : Str
  deriving DecidableEq

def rdfType : Str := "http://www.w3.org/1999/02/22-rdf-syntax-ns#type"

/-- A character that stands for itself in an `IRIREF`. -/
def iriChar (c : Char) : Bool := 0x20 < c.toNat && !("<>\"\x7b\x7d|^`\\" : Str).contains c

/-- White space between two tokens. -/
def space (c : Char) : Bool := c == ' ' || c == '\t' || c == '\r' || c == '\n'

def wordChar (c : Char) : Bool := c.isAlpha || c == ':'

inductive Token where
  | prefixId
  | iriref (iri : Str)
  | pname (ns name : Str)
  | a
  | comma
  | semicolon
  | stop

/-- The token that a word of letters and colons is. -/
def classify (word : Str) : Option Token :=
  if word = "@prefix" then some .prefixId
  else if word = "a" then some .a
  else match splitOnce ':' word with
    | none => none
    | some (ns, name) =>
      if ns.all Char.isAlpha && name.all Char.isAlpha then some (.pname ns name) else none

/-- The token that has been begun. -/
inductive Pending where
  | gap
  | iriref (begun : Str)
  | word (begun : Str)

/-- What the grammar lets follow. -/
inductive Expected where
  | statement
  | directiveName
  | directiveIri (ns : Str)
  | directiveEnd
  | verb (subject : Str)
  | object (subject verb : Str)
  | objectEnd (subject verb : Str)
  | verbOrEnd (subject : Str)

structure State where
  pending : Pending
  expected : Expected
  namespaces : List (Str × Str)
  triples : List IriTriple

namespace State

variable (st : State)

/-- The IRI that a token is. -/
def iri : Token → Option Str
  | .iriref i => some i
  | .pname ns name => (st.namespaces.lookup ns).map (· ++ name)
  | _ => none

def expect (e : Expected) : State := { st with expected := e }

/-- A verb of the subject. -/
def verbToken (subject : Str) : Token → Option State
  | .a => some (st.expect (.object subject rdfType))
  | t => (st.iri t).map fun verb => st.expect (.object subject verb)

/-- One token. -/
def token (t : Token) : Option State :=
  match st.expected with
  | .statement =>
    match t with
    | .prefixId => some (st.expect .directiveName)
    | t => (st.iri t).map fun subject => st.expect (.verb subject)
  | .directiveName =>
    match t with
    | .pname ns [] => some (st.expect (.directiveIri ns))
    | _ => none
  | .directiveIri ns =>
    match t with
    | .iriref i =>
      some { st with expected := .directiveEnd, namespaces := (ns, i) :: st.namespaces }
    | _ => none
  | .directiveEnd =>
    match t with
    | .stop => some (st.expect .statement)
    | _ => none
  | .verb subject => st.verbToken subject t
  | .object subject verb =>
    (st.iri t).map fun object =>
      { st with
        expected := .objectEnd subject verb
        triples := st.triples ++ [⟨subject, verb, object⟩] }
  | .objectEnd subject verb =>
    match t with
    | .comma => some (st.expect (.object subject verb))
    | .semicolon => some (st.expect (.verbOrEnd subject))
    | .stop => some (st.expect .statement)
    | _ => none
  | .verbOrEnd subject =>
    match t with
    | .semicolon => some st
    | .stop => some (st.expect .statement)
    | t => st.verbToken subject t

/-- One character between two tokens. -/
def gapChar (c : Char) : Option State :=
  if space c then some st
  else if c = '<' then some { st with pending := .iriref [] }
  else if wordChar c || c == '@' then some { st with pending := .word [c] }
  else if c = ',' then st.token .comma
  else if c = ';' then st.token .semicolon
  else if c = '.' then st.token .stop
  else none

/-- One character. A stop right after a word is refused, since it may belong to a name. -/
def char (c : Char) : Option State :=
  match st.pending with
  | .gap => st.gapChar c
  | .iriref i =>
    if c = '>' then { st with pending := .gap }.token (.iriref i)
    else if iriChar c then some { st with pending := .iriref (i ++ [c]) }
    else none
  | .word w =>
    if wordChar c then some { st with pending := .word (w ++ [c]) }
    else if c = '.' then none
    else (classify w).bind fun t => ({ st with pending := .gap }.token t).bind (gapChar · c)

end State

namespace State

/-- The state after a piece of text. -/
def run (st : State) : Str → Option State
  | [] => some st
  | c :: text => (st.char c).bind fun st => run st text

end State

/-- The triples that a document states. -/
def read (text : Str) : Option (List IriTriple) :=
  (State.run ⟨.gap, .statement, [], []⟩ text).bind fun st =>
    match st.pending, st.expected with
    | .gap, .statement => some st.triples
    | _, _ => none

theorem read_of_run {text : Str} {ns : List (Str × Str)} {ts : List IriTriple}
    (h : State.run ⟨.gap, .statement, [], []⟩ text = some ⟨.gap, .statement, ns, ts⟩) :
    read text = some ts := by
  rw [read, h]
  rfl

theorem read_eq_none {text : Str} (h : State.run ⟨.gap, .statement, [], []⟩ text = none) :
    read text = none := by
  rw [read, h]
  rfl

namespace State

variable {st st' : State}

theorem run_append (st : State) (x y : Str) :
    st.run (x ++ y) = (st.run x).bind fun st => st.run y := by
  induction x generalizing st with
  | nil => rfl
  | cons c x ih =>
      rw [List.cons_append, run, run]
      cases st.char c with
      | none => rfl
      | some st' => exact ih st'

/-- A document is read on from where a first piece leads. -/
theorem run_append_of_run {x : Str} (h : st.run x = some st') (y : Str) :
    st.run (x ++ y) = st'.run y := by
  rw [run_append, h, Option.bind_some]

theorem run_append_eq_none {x : Str} (h : st.run x = none) (y : Str) : st.run (x ++ y) = none := by
  rw [run_append, h, Option.bind_none]

/-! ## IRIs -/

theorem gt_notMem_of_iriChar {i : Str} (hi : ∀ c ∈ i, iriChar c = true) : '>' ∉ i := by
  intro h
  exact absurd (hi '>' h) (by decide)

theorem run_iriref_chars {e : Expected} {ns : List (Str × Str)} {ts : List IriTriple} {i : Str}
    (hi : ∀ c ∈ i, iriChar c = true) (begun rest : Str) :
    run ⟨.iriref begun, e, ns, ts⟩ (i ++ rest) = run ⟨.iriref (begun ++ i), e, ns, ts⟩ rest := by
  induction i generalizing begun with
  | nil => rw [List.nil_append, List.append_nil]
  | cons c i ih =>
      have hgt : c ≠ '>' := by
        rintro rfl
        exact gt_notMem_of_iriChar hi List.mem_cons_self
      rw [List.forall_mem_cons] at hi
      have hchar : char ⟨.iriref begun, e, ns, ts⟩ c =
          some ⟨.iriref (begun ++ [c]), e, ns, ts⟩ := by
        simp only [char, if_neg hgt, hi.1, if_true]
      rw [List.cons_append, run, hchar, Option.bind_some, ih hi.2, List.append_assoc,
        List.singleton_append]

/-- An IRI in its brackets is one token. -/
theorem run_iriref {e : Expected} {ns : List (Str × Str)} {ts : List IriTriple} {i : Str}
    (hi : ∀ c ∈ i, iriChar c = true) :
    run ⟨.gap, e, ns, ts⟩ ('<' :: (i ++ ['>'])) = token ⟨.gap, e, ns, ts⟩ (.iriref i) := by
  have hopen : char ⟨.gap, e, ns, ts⟩ '<' = some ⟨.iriref [], e, ns, ts⟩ := rfl
  have hclose : run ⟨.iriref i, e, ns, ts⟩ ['>'] =
      (token ⟨.gap, e, ns, ts⟩ (.iriref i)).bind some := rfl
  rw [run, hopen, Option.bind_some, run_iriref_chars hi, List.nil_append, hclose,
    Option.bind_fun_some]

/-- A bracket that is opened on a character no IRI has is never closed. -/
theorem run_iriref_eq_none {e : Expected} {ns : List (Str × Str)} {ts : List IriTriple} {i : Str}
    (hgt : '>' ∉ i) (hi : ∃ c ∈ i, iriChar c = false) :
    run ⟨.gap, e, ns, ts⟩ ('<' :: (i ++ ['>'])) = none := by
  have hchars : ∀ begun : Str, run ⟨.iriref begun, e, ns, ts⟩ (i ++ ['>']) = none := by
    induction i with
    | nil =>
        obtain ⟨c, hc, -⟩ := hi
        exact absurd hc List.not_mem_nil
    | cons c i ih =>
        intro begun
        rw [List.mem_cons, not_or] at hgt
        rw [List.cons_append, run]
        by_cases hc : iriChar c = true
        · have hrest : ∃ d ∈ i, iriChar d = false := by
            obtain ⟨d, hd, hbad⟩ := hi
            rcases List.mem_cons.mp hd with rfl | hd
            · rw [hc] at hbad
              cases hbad
            · exact ⟨d, hd, hbad⟩
          have hchar : char ⟨.iriref begun, e, ns, ts⟩ c =
              some ⟨.iriref (begun ++ [c]), e, ns, ts⟩ := by
            simp only [char, if_neg (Ne.symm hgt.1), hc, if_true]
          rw [hchar, Option.bind_some]
          exact ih hgt.2 hrest _
        · have hchar : char ⟨.iriref begun, e, ns, ts⟩ c = none := by
            simp only [char, if_neg (Ne.symm hgt.1), if_neg hc]
          rw [hchar, Option.bind_none]
  have hopen : char ⟨.gap, e, ns, ts⟩ '<' = some ⟨.iriref [], e, ns, ts⟩ := rfl
  rw [run, hopen, Option.bind_some, hchars]

/-! ## Lists -/

section Lists

variable (A B : List IriTriple → State) (item : Str → Str) (triple : Str → IriTriple) {sep : Str}

/-- Further items of a list, each after a separator. -/
theorem run_further (hsep : ∀ ts, (B ts).run sep = some (A ts)) {items : List Str}
    (hitem : ∀ i ∈ items, ∀ ts, (A ts).run (item i) = some (B (ts ++ [triple i])))
    (ts : List IriTriple) :
    (B ts).run ((items.map item).flatMap fun text => sep ++ text) =
      some (B (ts ++ items.map triple)) := by
  induction items generalizing ts with
  | nil =>
      rw [List.map_nil, List.map_nil, List.append_nil]
      rfl
  | cons i items ih =>
      rw [List.forall_mem_cons] at hitem
      rw [List.map_cons, List.flatMap_cons, List.append_assoc, run_append_of_run (hsep ts),
        run_append_of_run (hitem.1 ts), ih hitem.2, List.append_assoc, List.map_cons,
        List.singleton_append]

/-- Items that state a triple each, with a separator between two of them. -/
theorem run_join (hsep : ∀ ts, (B ts).run sep = some (A ts)) {items : List Str} (hne : items ≠ [])
    (hitem : ∀ i ∈ items, ∀ ts, (A ts).run (item i) = some (B (ts ++ [triple i])))
    (ts : List IriTriple) :
    (A ts).run (join sep (items.map item)) = some (B (ts ++ items.map triple)) := by
  obtain ⟨i, items, rfl⟩ := List.exists_cons_of_ne_nil hne
  rw [List.forall_mem_cons] at hitem
  rw [List.map_cons, join_cons, run_append_of_run (hitem.1 ts),
    run_further A B item triple hsep hitem.2,
    List.append_assoc, List.map_cons, List.singleton_append]

variable {good : Str → Prop}

theorem run_further_eq_none (hsep : ∀ ts, (B ts).run sep = some (A ts)) {items : List Str}
    (hitem : ∀ i ∈ items, good i → ∀ ts, (A ts).run (item i) = some (B (ts ++ [triple i])))
    (hnone : ∀ i ∈ items, ¬ good i → ∀ ts, (A ts).run (item i) = none)
    (hbad : ∃ i ∈ items, ¬ good i) (ts : List IriTriple) :
    (B ts).run ((items.map item).flatMap fun text => sep ++ text) = none := by
  induction items generalizing ts with
  | nil =>
      obtain ⟨i, hi, -⟩ := hbad
      exact absurd hi List.not_mem_nil
  | cons i items ih =>
      rw [List.forall_mem_cons] at hitem hnone
      rw [List.map_cons, List.flatMap_cons, List.append_assoc, run_append_of_run (hsep ts)]
      by_cases hi : good i
      · have hrest : ∃ j ∈ items, ¬ good j := by
          obtain ⟨j, hj, hjbad⟩ := hbad
          rcases List.mem_cons.mp hj with rfl | hmem
          · exact absurd hi hjbad
          · exact ⟨j, hmem, hjbad⟩
        rw [run_append_of_run (hitem.1 hi ts)]
        exact ih hitem.2 hnone.2 hrest _
      · exact run_append_eq_none (hnone.1 hi ts) _

/-- One item that is refused spoils the list. -/
theorem run_join_eq_none (hsep : ∀ ts, (B ts).run sep = some (A ts)) {items : List Str}
    (hitem : ∀ i ∈ items, good i → ∀ ts, (A ts).run (item i) = some (B (ts ++ [triple i])))
    (hnone : ∀ i ∈ items, ¬ good i → ∀ ts, (A ts).run (item i) = none)
    (hbad : ∃ i ∈ items, ¬ good i) (ts : List IriTriple) :
    (A ts).run (join sep (items.map item)) = none := by
  obtain ⟨i, hi, hibad⟩ := hbad
  obtain ⟨j, items, rfl⟩ := List.exists_cons_of_ne_nil (List.ne_nil_of_mem hi)
  rw [List.forall_mem_cons] at hitem hnone
  rw [List.map_cons, join_cons]
  by_cases hj : good j
  · have hmem : i ∈ items := by
      rcases List.mem_cons.mp hi with rfl | hmem
      · exact absurd hj hibad
      · exact hmem
    rw [run_append_of_run (hitem.1 hj ts)]
    exact run_further_eq_none A B item triple hsep hitem.2 hnone.2 ⟨i, hmem, hibad⟩ _
  · exact run_append_eq_none (hnone.1 hj ts) _

end Lists

end State

end Turtle

end Foundation
