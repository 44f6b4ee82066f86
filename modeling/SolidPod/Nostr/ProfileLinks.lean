import SolidPod.Nostr.Resolver

/-!
# The links of a profile

Every link to a Nostr key that a JSON tree states, in the order in which the resolver comes
across them, with the object that states it. The resolver returns the key of the first one.
-/

namespace SolidPod

open Foundation Str

namespace Nostr

mutual

/-- The keys that the value of a link member leads to. -/
def didsOf : Json → List NostrPubkey
  | .string s => (parseDidNostr s).toList
  | .object m =>
    match Json.member "@id" m with
    | some (.string s) => (parseDidNostr s).toList
    | _ => []
  | .array items => didsOfItems items
  | _ => []

def didsOfItems : List Json → List NostrPubkey
  | [] => []
  | item :: rest => didsOf item ++ didsOfItems rest

end

/-- The keys that an object itself links to. -/
def ownLinks (members : List (Str × Json)) : List NostrPubkey :=
  linkKeys.flatMap fun k => (Json.member k members).elim [] didsOf

/-- An object and a key that it links to. -/
abbrev Link := List (Str × Json) × NostrPubkey

mutual

def links : Json → List Link
  | .array items => linksOfItems items
  | .object members => (ownLinks members).map (members, ·) ++ linksOfMembers members
  | _ => []

def linksOfItems : List Json → List Link
  | [] => []
  | item :: rest => links item ++ linksOfItems rest

def linksOfMembers : List (Str × Json) → List Link
  | [] => []
  | (_, v) :: rest => links v ++ linksOfMembers rest

end

mutual

theorem extractDidNostr_eq : ∀ v, extractDidNostr v = (didsOf v).head?
  | .null => rfl
  | .bool _ => rfl
  | .number _ => rfl
  | .string s => by
      rw [extractDidNostr, didsOf]
      cases parseDidNostr s with
      | none => rfl
      | some pk => rfl
  | .object m => by
      rw [extractDidNostr, didsOf]
      cases Json.member "@id" m with
      | none => rfl
      | some v =>
          cases v with
          | string s =>
              simp only []
              cases parseDidNostr s with
              | none => rfl
              | some pk => rfl
          | null | bool | number | array | object => rfl
  | .array items => by
      rw [extractDidNostr, didsOf, extractItems_eq items]

theorem extractItems_eq : ∀ items, extractItems items = (didsOfItems items).head?
  | [] => rfl
  | item :: rest => by
      rw [extractItems, didsOfItems, List.head?_append, extractDidNostr_eq item,
        extractItems_eq rest]

end

theorem linkedKey_eq (members : List (Str × Json)) :
    linkedKey members = (ownLinks members).head? := by
  rw [linkedKey, ownLinks]
  induction linkKeys with
  | nil => rfl
  | cons k ks ih =>
      rw [List.findSome?_cons, List.flatMap_cons, List.head?_append, ih]
      cases Json.member k members with
      | none => simp
      | some v =>
          simp only [Option.bind_some, Option.elim_some, extractDidNostr_eq v]
          cases (didsOf v).head? with
          | none => simp
          | some pk => simp

mutual

theorem scanJson_eq : ∀ v, scanJson v = (links v).head?.map Prod.snd
  | .null => rfl
  | .bool _ => rfl
  | .number _ => rfl
  | .string _ => rfl
  | .array items => by
      rw [scanJson, links, scanItems_eq items]
  | .object members => by
      have hsnd : (Prod.snd ∘ fun pk => ((members, pk) : Link)) = id := rfl
      rw [scanJson, links, List.head?_append, linkedKey_eq, scanMembers_eq members,
        Option.map_or, List.head?_map, Option.map_map, hsnd, Option.map_id]
      rfl

theorem scanItems_eq : ∀ items, scanItems items = (linksOfItems items).head?.map Prod.snd
  | [] => rfl
  | item :: rest => by
      rw [scanItems, linksOfItems, List.head?_append, scanJson_eq item, scanItems_eq rest,
        Option.map_or]

theorem scanMembers_eq :
    ∀ members, scanMembers members = (linksOfMembers members).head?.map Prod.snd
  | [] => rfl
  | (_, v) :: rest => by
      rw [scanMembers, linksOfMembers, List.head?_append, scanJson_eq v, scanMembers_eq rest,
        Option.map_or]

end

end Nostr

end SolidPod
