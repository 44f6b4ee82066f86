import SolidPod.Json

/-!
# The Nostr relay

The event envelope with its validation, the classes of event kinds, the
in-memory event store, and `ingest` as the steps it takes on the store. Hashing,
hex, Schnorr signatures and the JSON writer are the libraries', so they are the
parameters of `EventLibrary`.
-/

namespace SolidPod

open Foundation

namespace Nostr

inductive RelayError where
  | invalidEvent (msg : Str)
  | idMismatch
  | badSignature (msg : Str)
  | badMessage (msg : Str)
  deriving DecidableEq

/-- A signed event. -/
structure Event where
  id : Str
  pubkey : Str
  createdAt : UInt64
  kind : UInt64
  tags : List (List Str)
  content : Str
  sig : Str
  deriving DecidableEq

/-- What is asked of the libraries. An error is given by its text. -/
structure EventLibrary where
  VerifyingKey : Type
  Signature : Type
  hexDecode : Str → Except Str Bytes
  hexEncode : Bytes → Str
  sha256 : Bytes → Bytes
  jsonToString : Json → Except Str Str
  toLowercase : Str → Str
  verifyingKey : Bytes → Except Str VerifyingKey
  signature : Bytes → Except Str Signature
  verify : VerifyingKey → Bytes → Signature → Except Str Unit

namespace Event

def canonicalId (lib : EventLibrary) (e : Event) : Str :=
  let canonical := Json.array [.number (.posInt 0), .string e.pubkey, .number (.posInt e.createdAt),
    .number (.posInt e.kind), .array (e.tags.map fun t => .array (t.map .string)),
    .string e.content]
  let s := match lib.jsonToString canonical with
    | .ok s => s
    | .error _ => []
  lib.hexEncode (lib.sha256 (Str.utf8 s))

/-- A result of a library, with its error in the relay's words. -/
def orElse {α : Type*} (error : Str → RelayError) : Except Str α → Except RelayError α
  | .ok a => .ok a
  | .error e => .error (error e)

/-- The text is so many octets of hex. -/
def isHex (lib : EventLibrary) (len : Nat) (s : Str) : Bool :=
  Str.byteLen s = len && (lib.hexDecode s).isOk

def verify (lib : EventLibrary) (e : Event) : Except RelayError Unit :=
  if !isHex lib 64 e.pubkey then .error (.invalidEvent "pubkey not 32-byte hex")
  else if !isHex lib 128 e.sig then .error (.invalidEvent "sig not 64-byte hex")
  else if lib.toLowercase (e.canonicalId lib) ≠ lib.toLowercase e.id then .error .idMismatch
  else do
    let pkBytes ← orElse .invalidEvent (lib.hexDecode e.pubkey)
    let sigBytes ← orElse .invalidEvent (lib.hexDecode e.sig)
    let idBytes ← orElse .invalidEvent (lib.hexDecode (e.canonicalId lib))
    let vk ← orElse .badSignature (lib.verifyingKey pkBytes)
    let sig ← orElse .badSignature (lib.signature sigBytes)
    orElse .badSignature (lib.verify vk idBytes sig)

/-- The value of the first `d` tag. -/
def dTag (e : Event) : Option Str :=
  (e.tags.find? fun t => t.head? = some ['d']).bind fun t => t[1]?

end Event

def isReplaceable (kind : UInt64) : Bool := kind = 0 || kind = 3 || (10000 ≤ kind && kind < 20000)

def isEphemeral (kind : UInt64) : Bool := 20000 ≤ kind && kind < 30000

def isParameterisedReplaceable (kind : UInt64) : Bool := 30000 ≤ kind && kind < 40000

/-! ## The event store -/

/-- The stored events, oldest place first. -/
structure InMemoryEventStore where
  inner : List Event
  maxEvents : Nat

namespace InMemoryEventStore

def new (maxEvents : Nat) : InMemoryEventStore := ⟨[], max maxEvents 1⟩

def put (s : InMemoryEventStore) (e : Event) : InMemoryEventStore :=
  if s.maxEvents ≤ s.inner.length then { s with inner := s.inner.tail ++ [e] }
  else { s with inner := s.inner ++ [e] }

def remove (s : InMemoryEventStore) (id : Str) : InMemoryEventStore :=
  { s with inner := s.inner.filter fun e => e.id ≠ id }

/-- The list with an event in the first place that the predicate holds of. -/
def replaceFirst (p : Event → Bool) (e : Event) : List Event → Option (List Event)
  | [] => none
  | x :: xs => if p x then some (e :: xs) else (replaceFirst p e xs).map fun ys => x :: ys

def replaceWhere (s : InMemoryEventStore) (p : Event → Bool) (e : Event) :
    Bool × InMemoryEventStore :=
  match replaceFirst p e s.inner with
  | some inner => (true, { s with inner := inner })
  | none => (false, s)

variable {p q : Event → Bool} {e : Event}

theorem replaceWhere_of_some {s : InMemoryEventStore} {inner : List Event}
    (h : replaceFirst p e s.inner = some inner) :
    s.replaceWhere p e = (true, { s with inner := inner }) := by
  rw [replaceWhere, h]

theorem replaceWhere_of_none {s : InMemoryEventStore} (h : replaceFirst p e s.inner = none) :
    s.replaceWhere p e = (false, s) := by
  rw [replaceWhere, h]

theorem replaceFirst_eq_none_iff {xs : List Event} :
    replaceFirst p e xs = none ↔ ∀ x ∈ xs, p x = false := by
  induction xs with
  | nil => simp [replaceFirst]
  | cons x xs ih =>
      rw [replaceFirst, List.forall_mem_cons]
      cases hx : p x with
      | true => simp
      | false => simp [ih]

/-- Where one event is stored, it is the one that is replaced. -/
theorem of_replaceFirst_eq_some {xs ys : List Event} (h : replaceFirst p e xs = some ys) :
    (∃ x ∈ xs, p x = true) ∧ (xs.length = 1 → ys = [e]) := by
  constructor
  · by_contra hnone
    have hfalse : replaceFirst p e xs = none := by
      rw [replaceFirst_eq_none_iff]
      intro x hx
      exact Bool.eq_false_iff.mpr fun hp => hnone ⟨x, hx, hp⟩
    rw [h] at hfalse
    cases hfalse
  · intro hlength
    obtain ⟨x, rfl⟩ := List.length_eq_one_iff.mp hlength
    rw [replaceFirst] at h
    split_ifs at h
    · cases h
      rfl
    · cases h

theorem length_of_replaceFirst {xs ys : List Event} (h : replaceFirst p e xs = some ys) :
    ys.length = xs.length := by
  induction xs generalizing ys with
  | nil => cases h
  | cons x xs ih =>
      rw [replaceFirst] at h
      split_ifs at h
      · cases h
        rfl
      · obtain ⟨zs, hzs, rfl⟩ := Option.map_eq_some_iff.mp h
        rw [List.length_cons, List.length_cons, ih hzs]

/-- A replacement among the events that the predicate can hold of. -/
theorem replaceFirst_filter (hpq : ∀ x, p x = true → q x = true) (he : q e = true)
    (xs : List Event) :
    replaceFirst p e (xs.filter q) = (replaceFirst p e xs).map (List.filter q) := by
  induction xs with
  | nil => rfl
  | cons x xs ih =>
      cases hq : q x with
      | true =>
          rw [List.filter_cons_of_pos hq, replaceFirst, replaceFirst]
          cases hp : p x with
          | true => simp [he]
          | false => simp [ih, Option.map_map, Function.comp_def, hq]
      | false =>
          have hp : p x = false := by
            by_contra hp
            rw [hpq x ((Bool.not_eq_false _).mp hp)] at hq
            cases hq
          rw [List.filter_cons_of_neg (by simp [hq]), replaceFirst, hp, ih]
          simp [Option.map_map, Function.comp_def, hq]

/-- A replacement leaves the other events as they are. -/
theorem filter_of_replaceFirst (hpq : ∀ x, p x = true → q x = false) (he : q e = false)
    {xs ys : List Event} (h : replaceFirst p e xs = some ys) : ys.filter q = xs.filter q := by
  induction xs generalizing ys with
  | nil => cases h
  | cons x xs ih =>
      rw [replaceFirst] at h
      split_ifs at h with hp
      · cases h
        rw [List.filter_cons_of_neg (by simp [he]), List.filter_cons_of_neg (by simp [hpq x hp])]
      · obtain ⟨zs, hzs, rfl⟩ := Option.map_eq_some_iff.mp h
        rw [List.filter_cons, List.filter_cons, ih hzs]

theorem length_inner_put_le (s : InMemoryEventStore) :
    (s.put e).inner.length ≤ s.inner.length + 1 := by
  rw [put]
  split_ifs <;> simp

theorem maxEvents_put (s : InMemoryEventStore) : (s.put e).maxEvents = s.maxEvents := by
  rw [put]
  split_ifs <;> rfl

theorem inner_put_of_lt {s : InMemoryEventStore} (h : s.inner.length < s.maxEvents) :
    (s.put e).inner = s.inner ++ [e] := by
  rw [put, if_neg (not_le_of_gt h)]

end InMemoryEventStore

/-! ## Ingestion -/

/-- What ingestion does with a valid event, by its kind. -/
inductive Treatment where
  | broadcastOnly
  | replace (p : Event → Bool)
  | append

def Event.treatment (e : Event) : Treatment :=
  if isEphemeral e.kind then .broadcastOnly
  else if isReplaceable e.kind then .replace fun x => x.pubkey = e.pubkey && x.kind = e.kind
  else if isParameterisedReplaceable e.kind then
    .replace fun x => x.pubkey = e.pubkey && x.kind = e.kind && x.dTag = e.dTag
  else .append

def ingest (lib : EventLibrary) (e : Event) (s : InMemoryEventStore) :
    Except RelayError Unit × InMemoryEventStore :=
  match e.verify lib with
  | .error err => (.error err, s)
  | .ok () =>
    match e.treatment with
    | .broadcastOnly => (.ok (), s)
    | .replace p =>
      let (replaced, s) := s.replaceWhere p e
      if replaced then (.ok (), s) else (.ok (), s.put e)
    | .append => (.ok (), s.put e)

end Nostr

end SolidPod
