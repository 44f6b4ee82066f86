import SolidPod.Storage.Basic
import SolidPod.Wac.Parser

/-!
# The two ACL resolvers

`findEffectiveAcl` walks from a resource path up to `/` and returns the first
`*.acl` sibling that parses as JSON-LD or as Turtle. The server carries its own
copy, `findEffectiveAclDyn`, for a storage known only by its interface; the two
differ in the errors of the JSON-LD reader that end the walk.
-/

namespace SolidPod

namespace Wac

open Foundation Str

/-- What reading an ACL body depends on: the byte and the depth limit of the
process, and the JSON library's reader of ACL documents. -/
structure AclReader where
  maxBytes : Nat
  maxDepth : Nat
  fromSlice : Bytes → Except Str AclDocument

/-- One byte of the depth scan; the state is the depth, whether a string is
open, and whether the byte before was a backslash in it. -/
def checkJsonDepthFrom (max : Nat) : Nat → Bool → Bool → Bytes → Except PodError Unit
  | _, _, _, [] => .ok ()
  | depth, true, esc, b :: bs =>
    if esc then checkJsonDepthFrom max depth true false bs
    else if b = 0x5C then checkJsonDepthFrom max depth true true bs
    else if b = 0x22 then checkJsonDepthFrom max depth false false bs
    else checkJsonDepthFrom max depth true false bs
  | depth, false, esc, b :: bs =>
    if b = 0x22 then checkJsonDepthFrom max depth true esc bs
    else if b = 0x7B || b = 0x5B then
      if depth + 1 > max then .error (.badRequest ("ACL JSON depth exceeds " ++ decimal max))
      else checkJsonDepthFrom max (depth + 1) false esc bs
    else if b = 0x7D || b = 0x5D then checkJsonDepthFrom max (depth - 1) false esc bs
    else checkJsonDepthFrom max depth false esc bs

def checkJsonDepth (body : Bytes) (max : Nat) : Except PodError Unit :=
  checkJsonDepthFrom max 0 false false body

def parseJsonldAclWithLimits (fromSlice : Bytes → Except Str AclDocument) (body : Bytes)
    (maxBytes maxDepth : Nat) : Except PodError AclDocument :=
  if body.length > maxBytes then
    .error (.payloadTooLarge ("ACL body exceeds " ++ decimal maxBytes ++ " bytes"))
  else
    match checkJsonDepth body maxDepth with
    | .error e => .error e
    | .ok () =>
      match fromSlice body with
      | .ok doc => .ok doc
      | .error e => .error (.aclParse ("JSON-LD ACL parse: " ++ e))

def parseJsonldAcl (r : AclReader) (body : Bytes) : Except PodError AclDocument :=
  parseJsonldAclWithLimits r.fromSlice body r.maxBytes r.maxDepth

def parseTurtleAcl (r : AclReader) (input : Str) : Except PodError AclDocument :=
  parseTurtleAclWithLimit input r.maxBytes

def looksTurtle (contentType : Str) : Bool :=
  let ct := toAsciiLowercase contentType
  startsWith "text/turtle" ct || startsWith "application/turtle" ct ||
    startsWith "application/x-turtle" ct

/-- The body as text, empty when it is not UTF-8. -/
def bodyText (body : Bytes) : Str := (fromUtf8 body).getD []

/-- Whether a body that is not JSON-LD is tried as Turtle. -/
def triesTurtle (body : Bytes) (contentType : Str) : Bool :=
  looksTurtle contentType || containsStr "@prefix" (bodyText body) ||
    containsStr "acl:Authorization" (bodyText body)

/-- The JSON-LD errors that end the library's walk, as they are returned. -/
def jsonldFatal : PodError → Option PodError
  | .badRequest _ => some (.badRequest "ACL document exceeds bounds")
  | .payloadTooLarge msg => some (.payloadTooLarge msg)
  | _ => none

/-- The JSON-LD errors that end the server's walk, as they are returned. -/
def jsonldFatalDyn : PodError → Option PodError
  | .badRequest _ => some (.badRequest "ACL document exceeds bounds")
  | _ => none

/-- One round of the walk: what it returns with at this key, if it does. -/
def visitAcl (fatal : PodError → Option PodError) (r : AclReader)
    (found : Except PodError (Bytes × ResourceMeta)) : Option (Except PodError AclDocument) :=
  match found with
  | .error _ => none
  | .ok (body, metadata) =>
    match parseJsonldAcl r body with
    | .ok doc => some (.ok doc)
    | .error e =>
      match fatal e with
      | some e => some (.error e)
      | none =>
        if triesTurtle body metadata.contentType then
          match parseTurtleAcl r (bodyText body) with
          | .ok doc => some (.ok doc)
          | .error _ => none
        else none

def aclKey (path : Str) : Str :=
  if path == "/" then "/.acl" else trimEndMatches '/' path ++ ".acl"

def parentPath (path : Str) : Str :=
  match beforeLast '/' (trimEndMatches '/' path) with
  | some [] => "/"
  | some parent => parent
  | none => "/"

/-- The walk stops after this path. -/
def isTop (path : Str) : Bool := path == "/" || path.isEmpty

def ancestorPathsFrom : Nat → Str → List Str
  | 0, path => [path]
  | n + 1, path => path :: if isTop path then [] else ancestorPathsFrom n (parentPath path)

/-- The paths the walk goes through, the resource path first. -/
def ancestorPaths (path : Str) : List Str := ancestorPathsFrom path.length path

/-- The keys the walk looks up, in order. -/
def aclKeys (path : Str) : List Str := (ancestorPaths path).map aclKey

def walkAcl (fatal : PodError → Option PodError) (r : AclReader)
    (get : Str → Except PodError (Bytes × ResourceMeta)) (resourcePath : Str) :
    Except PodError (Option AclDocument) :=
  match (aclKeys resourcePath).findSome? fun key => visitAcl fatal r (get key) with
  | none => .ok none
  | some (.ok doc) => .ok (some doc)
  | some (.error e) => .error e

/-- `StorageAclResolver::find_effective_acl`. -/
def findEffectiveAcl (r : AclReader) (get : Str → Except PodError (Bytes × ResourceMeta))
    (resourcePath : Str) : Except PodError (Option AclDocument) :=
  walkAcl jsonldFatal r get resourcePath

def findEffectiveAclDyn (r : AclReader) (get : Str → Except PodError (Bytes × ResourceMeta))
    (resourcePath : Str) : Except PodError (Option AclDocument) :=
  walkAcl jsonldFatalDyn r get resourcePath

/-! ## The walk as the loop the source writes -/

theorem parentPath_eq_or_length_lt (path : Str) :
    parentPath path = "/" ∨ (parentPath path).length < path.length := by
  have htrim : (trimEndMatches '/' path).length ≤ path.length :=
    (List.rdropWhile_prefix _ _).length_le
  unfold parentPath
  split
  · exact Or.inl rfl
  · rename_i hsome
    exact Or.inr (lt_of_lt_of_le (length_lt_of_beforeLast hsome) htrim)
  · exact Or.inl rfl

/-- A bound is enough for the walk from a path when it is the path's length, and
any bound is for the walk from `/`. -/
theorem ancestorPathsFrom_eq {n k : Nat} {path : Str} (hn : path.length ≤ n ∨ path = "/")
    (hk : path.length ≤ k ∨ path = "/") : ancestorPathsFrom n path = ancestorPathsFrom k path := by
  have htop : path.length = 0 ∨ path = "/" → isTop path = true := by
    rintro (h | rfl)
    · simp [isTop, List.length_eq_zero_iff.mp h]
    · rfl
  induction n generalizing k path with
  | zero =>
      have hpath := htop (hn.imp (fun h => Nat.le_zero.mp h) id)
      cases k with
      | zero => rfl
      | succ k => simp [ancestorPathsFrom, hpath]
  | succ n ih =>
      cases k with
      | zero =>
          have hpath := htop (hk.imp (fun h => Nat.le_zero.mp h) id)
          simp [ancestorPathsFrom, hpath]
      | succ k =>
          cases hpath : isTop path with
          | true => simp [ancestorPathsFrom, hpath]
          | false =>
              have hne : path ≠ "/" := by
                rintro rfl
                exact absurd hpath (by decide)
              have hlen := parentPath_eq_or_length_lt path
              have hn' := hn.resolve_right hne
              have hk' := hk.resolve_right hne
              have hparent : parentPath path = "/" ∨ (parentPath path).length ≤ n ∧
                  (parentPath path).length ≤ k := by
                rcases hlen with h | h
                · exact Or.inl h
                · exact Or.inr ⟨by omega, by omega⟩
              have hrest : ancestorPathsFrom n (parentPath path) =
                  ancestorPathsFrom k (parentPath path) := by
                refine ih (hparent.symm.imp And.left id) (hparent.symm.imp And.right id) ?_
                rintro (h | h)
                · simp [isTop, List.length_eq_zero_iff.mp h]
                · rw [h]
                  rfl
              simp [ancestorPathsFrom, hpath, hrest]

theorem ancestorPaths_eq (path : Str) :
    ancestorPaths path = path :: if isTop path then [] else ancestorPaths (parentPath path) := by
  cases hpath : isTop path with
  | true =>
      rw [ancestorPaths]
      cases path.length with
      | zero => rfl
      | succ n => simp [ancestorPathsFrom, hpath]
  | false =>
      have hone : path.length ≤ path.length - 1 + 1 := by omega
      rw [ancestorPaths, ancestorPathsFrom_eq (Or.inl le_rfl) (Or.inl hone), ancestorPathsFrom,
        hpath]
      refine congrArg (path :: ·) ?_
      rcases parentPath_eq_or_length_lt path with h | h
      · exact ancestorPathsFrom_eq (Or.inr h) (Or.inr h)
      · exact ancestorPathsFrom_eq (Or.inl (by omega)) (Or.inl le_rfl)

/-- The loop of both resolvers: visit the key of the path, and go on to the
parent when the visit does not return and the path is not the top. -/
theorem walkAcl_eq (fatal : PodError → Option PodError) (r : AclReader)
    (get : Str → Except PodError (Bytes × ResourceMeta)) (path : Str) :
    walkAcl fatal r get path =
      match visitAcl fatal r (get (aclKey path)) with
      | some (.ok doc) => .ok (some doc)
      | some (.error e) => .error e
      | none => if isTop path then .ok none else walkAcl fatal r get (parentPath path) := by
  rw [walkAcl, aclKeys, ancestorPaths_eq path, List.map_cons, List.findSome?_cons]
  cases visitAcl fatal r (get (aclKey path)) with
  | some o => cases o <;> rfl
  | none =>
      cases isTop path with
      | true => rfl
      | false => rfl

/-- A canonical path of slashes is the root. -/
theorem trimEndMatches_ne_nil {path : Str} (h : IsCanonical path) (hroot : path ≠ "/") :
    trimEndMatches '/' path ≠ [] := by
  intro hnil
  rw [trimEndMatches, List.rdropWhile_eq_nil_iff] at hnil
  obtain ⟨habs, hmerged⟩ := h
  rcases path with _ | ⟨c, _ | ⟨d, path⟩⟩
  · simp [IsAbsolute] at habs
  · have hc : c = '/' := by simpa [IsAbsolute] using habs
    subst hc
    exact hroot rfl
  · have hc : c = '/' := eq_of_beq (hnil c (by simp))
    have hd : d = '/' := eq_of_beq (hnil d (by simp))
    subst hc hd
    exact hmerged ⟨[], path, rfl⟩

theorem isCanonical_root : IsCanonical "/" :=
  ⟨rfl, by simp [List.infix_cons_iff]⟩

theorem isCanonical_parentPath {path : Str} (h : IsCanonical path) :
    IsCanonical (parentPath path) := by
  rw [parentPath]
  split
  · exact isCanonical_root
  · rename_i parent hne hparent
    have hpre := (List.prefix_append parent ['/']).trans (prefix_of_beforeLast hparent)
    refine h.of_prefix (hpre.trans (List.rdropWhile_prefix _ _)) ?_
    rintro rfl
    exact hne rfl
  · exact isCanonical_root

theorem isCanonical_of_mem_ancestorPaths {path p : Str} (h : IsCanonical path)
    (hp : p ∈ ancestorPaths path) : IsCanonical p := by
  have hfrom (n : Nat) : ∀ path, IsCanonical path → p ∈ ancestorPathsFrom n path →
      IsCanonical p := by
    induction n with
    | zero =>
        intro path h hp
        rw [List.mem_singleton.mp hp]
        exact h
    | succ n ih =>
        intro path h hp
        rw [ancestorPathsFrom] at hp
        rcases List.mem_cons.mp hp with rfl | hp
        · exact h
        · split at hp
          · exact absurd hp List.not_mem_nil
          · exact ih _ (isCanonical_parentPath h) hp
  exact hfrom _ path h hp

theorem isAbsolute_aclKey {path : Str} (h : IsCanonical path) : IsAbsolute (aclKey path) := by
  rw [aclKey]
  split
  · rfl
  · rename_i hroot
    have hne := trimEndMatches_ne_nil h (by simpa using hroot)
    exact (h.absolute.of_prefix (List.rdropWhile_prefix _ _) hne).append _

/-- The keys of a canonical path are absolute. -/
theorem isAbsolute_of_mem_aclKeys {path key : Str} (h : IsCanonical path)
    (hkey : key ∈ aclKeys path) : IsAbsolute key := by
  obtain ⟨p, hp, rfl⟩ := List.mem_map.mp hkey
  exact isAbsolute_aclKey (isCanonical_of_mem_ancestorPaths h hp)

theorem head?_aclKeys (path : Str) : (aclKeys path).head? = some (aclKey path) := by
  rw [aclKeys, ancestorPaths_eq]
  rfl

end Wac

end SolidPod
