import Mathlib.Data.List.AList
import SolidPod.Nostr.Relay

/-!
# Subscriptions of a connection

A filter is decoded from an object, in which the keys it does not know are its tag
filters. A `REQ` is answered with the stored events that match, one for each id, and
with one end of stored events, and it opens its subscription in place of an earlier one
of its id. A `CLOSE` removes the subscription.
-/

namespace SolidPod

open Foundation Str

namespace Nostr

structure Filter where
  ids : Option (List Str)
  authors : Option (List Str)
  kinds : Option (List UInt64)
  since : Option UInt64
  «until» : Option UInt64
  limit : Option UInt64
  tags : List (Str × Json)
  deriving DecidableEq

namespace Filter

/-- The error of the decoder, without the words that the library gives the cause. -/
def decodeError : RelayError := .badMessage "filter decode: "

def readString : Json → Except RelayError Str
  | .string s => .ok s
  | _ => .error decodeError

def readNumber : Json → Except RelayError UInt64
  | .number (.posInt n) => .ok n
  | _ => .error decodeError

def readItems {α : Type} (read : Json → Except RelayError α) :
    List Json → Except RelayError (List α)
  | [] => .ok []
  | v :: vs => do return (← read v) :: (← readItems read vs)

def readArray {α : Type} (read : Json → Except RelayError α) : Json → Except RelayError (List α)
  | .array vs => readItems read vs
  | _ => .error decodeError

/-- An optional field: it is missing, or null, or readable. -/
def field {α : Type} (read : Json → Except RelayError α) (key : Str) (m : List (Str × Json)) :
    Except RelayError (Option α) :=
  match Json.member key m with
  | none | some .null => .ok none
  | some v => (read v).map some

def knownKeys : List Str := ["ids", "authors", "kinds", "since", "until", "limit"]

/-- The tag filters among the other keys: a letter after a `#`. -/
def tagFilters (m : List (Str × Json)) : List (Str × Json) :=
  (m.filter fun e => !knownKeys.contains e.1).filterMap fun e =>
    match stripPrefix ['#'] e.1 with
    | some short => if byteLen short = 1 then some (short, e.2) else none
    | none => none

def fromValue : Json → Except RelayError Filter
  | .object m => do
    return {
      ids := ← field (readArray readString) "ids" m
      authors := ← field (readArray readString) "authors" m
      kinds := ← field (readArray readNumber) "kinds" m
      since := ← field readNumber "since" m
      «until» := ← field readNumber "until" m
      limit := ← field readNumber "limit" m
      tags := tagFilters m }
  | _ => .error decodeError

def eqIgnoreAsciiCase (a b : Str) : Bool := toAsciiLowercase a == toAsciiLowercase b

/-- The values that an event has for a tag. -/
def tagValues (name : Str) (e : Event) : List Str :=
  (e.tags.filter fun t => t.head? == some name).filterMap fun t => t[1]?

def matchesTag (e : Event) (name : Str) : Json → Bool
  | .array values => values.any fun v =>
    match v with
    | .string s => (tagValues name e).contains s
    | _ => false
  | _ => false

def «matches» (f : Filter) (e : Event) : Bool :=
  (f.ids.all fun ids => ids.any fun i => eqIgnoreAsciiCase i e.id) &&
    (f.authors.all fun authors => authors.any fun a => eqIgnoreAsciiCase a e.pubkey) &&
      (f.kinds.all fun kinds => kinds.contains e.kind) &&
        (f.since.all fun since => since ≤ e.createdAt) &&
          (f.until.all fun «until» => e.createdAt ≤ «until») &&
            f.tags.all fun t => matchesTag e t.1 t.2

end Filter

/-! ## History -/

/-- The matching events, the last ones if there is a limit. -/
def matched (store : List Event) (f : Filter) : List Event :=
  let found := store.filter f.matches
  match f.limit with
  | some limit => found.drop (found.length - limit.toNat)
  | none => found

/-- An event is added if none with its id has been added. -/
def addUnseen (out : List Event) (e : Event) : List Event :=
  if out.any fun x => x.id = e.id then out else out ++ [e]

def history (store : List Event) (filters : List Filter) : List Event :=
  filters.foldl (fun out f => (matched store f).foldl addUnseen out) []

/-! ## Frames -/

inductive RelayMessage where
  | event (sub : Str) (e : Event)
  | eose (sub : Str)
  | notice (msg : Str)
  deriving DecidableEq

def RelayError.display : RelayError → Str
  | .invalidEvent msg => "invalid event: " ++ msg
  | .idMismatch => "event id mismatch"
  | .badSignature msg => "bad signature: " ++ msg
  | .badMessage msg => "bad wire message: " ++ msg

abbrev Subscriptions := AList fun _ : Str => List Filter

/-- The second member of a frame, if it is a text. -/
def subscriptionId (arr : List Json) : Option Str :=
  match arr[1]? with
  | some (Json.string s) => some s
  | _ => none

def parseFilters : List Json → Except RelayError (List Filter)
  | [] => .ok []
  | raw :: rest => do return (← Filter.fromValue raw) :: (← parseFilters rest)

/-- The subscription that a frame asks for, or the notice that it is answered with. -/
def parseReq (arr : List Json) : Except Str (Str × List Filter) :=
  match subscriptionId arr with
  | none => .error "REQ frame missing subscription id"
  | some sub =>
    match parseFilters (arr.drop 2) with
    | .error e => .error ("invalid filter: " ++ e.display)
    | .ok filters => .ok (sub, filters)

def handleReq (store : List Event) (subscriptions : Subscriptions) (arr : List Json) :
    List RelayMessage × Subscriptions :=
  match parseReq arr with
  | .error msg => ([.notice msg], subscriptions)
  | .ok (sub, filters) =>
    ((history store filters).map (.event sub ·) ++ [.eose sub],
      subscriptions.insert sub filters)

def handleClose (subscriptions : Subscriptions) (arr : List Json) :
    List RelayMessage × Subscriptions :=
  match subscriptionId arr with
  | none => ([.notice "CLOSE frame missing subscription id"], subscriptions)
  | some sub => ([], subscriptions.erase sub)

/-- What a live event makes of the subscriptions, in the order of the map's entries. -/
def liveFrames (subscriptions : Subscriptions) (e : Event) : List RelayMessage :=
  (subscriptions.entries.filter fun s => s.2.any fun f => f.matches e).map fun s => .event s.1 e

/-! ## What is in a history -/

variable {store out : List Event} {e x : Event} {f : Filter} {filters : List Filter}

theorem mem_addUnseen (h : x ∈ addUnseen out e) : x ∈ out ∨ x = e := by
  rw [addUnseen] at h
  split_ifs at h
  · exact .inl h
  · rcases List.mem_append.mp h with hmem | hmem
    · exact .inl hmem
    · exact .inr (List.mem_singleton.mp hmem)

theorem mem_foldl_addUnseen {es : List Event} (h : x ∈ es.foldl addUnseen out) :
    x ∈ out ∨ x ∈ es := by
  induction es generalizing out with
  | nil => exact .inl h
  | cons e es ih =>
      rcases ih h with hmem | hmem
      · refine (mem_addUnseen hmem).imp_right fun heq => ?_
        rw [heq]
        exact List.mem_cons_self
      · exact .inr (List.mem_cons_of_mem e hmem)

theorem mem_matched (h : x ∈ matched store f) : x ∈ store := by
  rw [matched] at h
  cases hlimit : f.limit with
  | none =>
      rw [hlimit] at h
      exact (List.mem_filter.mp h).1
  | some limit =>
      rw [hlimit] at h
      exact (List.mem_filter.mp (List.mem_of_mem_drop h)).1

theorem mem_matched_of_limit_none (hlimit : f.limit = none) (he : e ∈ store)
    (hmatches : f.matches e = true) : e ∈ matched store f := by
  rw [matched, hlimit]
  exact List.mem_filter.mpr ⟨he, hmatches⟩

/-- What a history is made of, filter by filter. -/
theorem mem_foldl_matched
    (h : x ∈ filters.foldl (fun out f => (matched store f).foldl addUnseen out) out) :
    x ∈ out ∨ x ∈ store := by
  induction filters generalizing out with
  | nil => exact .inl h
  | cons f filters ih =>
      rcases ih h with hfold | hstore
      · exact (mem_foldl_addUnseen hfold).imp_right mem_matched
      · exact .inr hstore

theorem mem_history (h : x ∈ history store filters) : x ∈ store :=
  (mem_foldl_matched h).resolve_left List.not_mem_nil

theorem subset_addUnseen : out ⊆ addUnseen out e := by
  intro x hx
  rw [addUnseen]
  split_ifs
  · exact hx
  · exact List.mem_append_left _ hx

theorem subset_foldl_addUnseen (es : List Event) : out ⊆ es.foldl addUnseen out := by
  induction es generalizing out with
  | nil => exact List.Subset.refl out
  | cons e es ih => exact List.Subset.trans subset_addUnseen ih

theorem exists_id_addUnseen (out : List Event) (e : Event) :
    ∃ x ∈ addUnseen out e, x.id = e.id := by
  rw [addUnseen]
  split_ifs with hseen
  · obtain ⟨x, hx, hid⟩ := List.any_eq_true.mp hseen
    exact ⟨x, hx, of_decide_eq_true hid⟩
  · exact ⟨e, List.mem_append_right _ (List.mem_singleton_self e), rfl⟩

/-- Of each event that is added, an event with its id stays. -/
theorem exists_id_foldl_addUnseen {es : List Event} (h : e ∈ es) :
    ∃ x ∈ es.foldl addUnseen out, x.id = e.id := by
  induction es generalizing out with
  | nil => cases h
  | cons y es ih =>
      rcases List.mem_cons.mp h with heq | hmem
      · obtain ⟨x, hx, hid⟩ := exists_id_addUnseen out y
        exact ⟨x, subset_foldl_addUnseen es hx, by rw [hid, heq]⟩
      · exact ih hmem

/-- What a filter takes is in the history, by its id. -/
theorem exists_id_history_of_mem_matched (hf : f ∈ filters) (he : e ∈ matched store f) :
    ∃ x ∈ history store filters, x.id = e.id := by
  have hkeep (gs : List Filter) (out : List Event) :
      out ⊆ gs.foldl (fun out f => (matched store f).foldl addUnseen out) out := by
    induction gs generalizing out with
    | nil => exact List.Subset.refl out
    | cons g gs ih => exact List.Subset.trans (subset_foldl_addUnseen _) (ih _)
  obtain ⟨front, back, rfl⟩ := List.append_of_mem hf
  rw [history, List.foldl_append, List.foldl_cons]
  obtain ⟨x, hx, hid⟩ := exists_id_foldl_addUnseen he
  exact ⟨x, hkeep back _ hx, hid⟩

/-- A stored event that a filter without a limit matches is in the history, by its id. -/
theorem exists_id_history (hf : f ∈ filters) (hlimit : f.limit = none) (he : e ∈ store)
    (hmatches : f.matches e = true) : ∃ x ∈ history store filters, x.id = e.id :=
  exists_id_history_of_mem_matched hf (mem_matched_of_limit_none hlimit he hmatches)

end Nostr

end SolidPod
