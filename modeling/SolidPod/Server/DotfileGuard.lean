import SolidPod.Security.Dotfile

/-!
# What the guards let through to the storage

A request passes the dotfile guard, the traversal guard and the merging of slashes,
in this order, and then the first route that matches takes it. The dotfile guard
does not look at a path below `/.well-known/`, and what no discovery route takes
there goes to the storage like any other path.
-/

namespace SolidPod

open Foundation Str Security

namespace Server

inductive HttpMethod where
  | get | head | put | post | patch | delete | options | other
  deriving DecidableEq

inductive Handler where
  | wellKnown (route : Str)
  | wellKnownDidNostr (pubkey : Str)
  | get | put | post | patch | delete | options
  deriving DecidableEq

/-- The handlers that read or write the storage at the path of the request. -/
def Handler.isStorage : Handler → Bool
  | .get | .put | .post | .patch | .delete => true
  | .wellKnown _ | .wellKnownDidNostr _ | .options => false

def discoveryRoutes : List Str :=
  ["/.well-known/solid", "/.well-known/webfinger", "/.well-known/nodeinfo",
    "/.well-known/nodeinfo/2.1"]

/-- The name that `/.well-known/did/nostr/{pubkey}.json` matches. -/
def didNostrName (path : Str) : Option Str :=
  ((stripPrefix "/.well-known/did/nostr/" path).bind fun s => stripSuffix ".json" s).filter
    fun name => !name.isEmpty && !name.contains '/'

/-- The catch-all routes. `{tail:.*}/` needs a slash after the first one. -/
def tailRoute (method : HttpMethod) (path : Str) : Option Handler :=
  if !startsWith ['/'] path then none
  else
    match method with
    | .post => if decide (2 ≤ path.length) && endsWith ['/'] path then some .post else none
    | .get | .head => some .get
    | .put => some .put
    | .patch => some .patch
    | .delete => some .delete
    | .options => some .options
    | .other => none

/-- The first route that matches; `didNostr` says whether the feature is compiled in. -/
def route (didNostr : Bool) (method : HttpMethod) (path : Str) : Option Handler :=
  if method = .get ∧ path ∈ discoveryRoutes then some (.wellKnown path)
  else
    match if didNostr = true ∧ method = .get then didNostrName path else none with
    | some name => some (.wellKnownDidNostr name)
    | none => tailRoute method path

/-- Runs of slashes become one slash. -/
def mergeSlashes : Str → Str
  | '/' :: '/' :: cs => mergeSlashes ('/' :: cs)
  | c :: cs => c :: mergeSlashes cs
  | [] => []

/-- `decode` is one pass of percent-decoding. -/
def pathIsTraversal (decode : Str → Str) (path : Str) : Bool :=
  let once := decode path
  let twice := decode once
  ((once.splitOn '/' ++ twice.splitOn '/').any fun seg => seg == ['.', '.'] || seg == ['.']) ||
    containsStr "/../" twice || startsWith "../" twice || endsWith "/.." twice

inductive Dispatch where
  | forbidden
  | badRequest
  | notFound
  | handler (h : Handler) (path : Str)

/-- The path that a handler gets is the one with merged slashes. -/
def dispatch (decode : Str → Str) (didNostr : Bool) (allow : DotfileAllowlist)
    (method : HttpMethod) (path : Str) : Dispatch :=
  let allowWellknown := startsWith "/.well-known/" path
  if !allowWellknown && !allow.isAllowed path then .forbidden
  else if pathIsTraversal decode path then .badRequest
  else
    match route didNostr method (mergeSlashes path) with
    | some h => .handler h (mergeSlashes path)
    | none => .notFound

/-- A handler of the storage gets admissible segments only, or the path of a discovery
route. -/
def NoDotfile (decode : Str → Str) (didNostr : Bool) (allow : DotfileAllowlist)
    (method : HttpMethod) (path : Str) : Prop :=
  ∀ h p, dispatch decode didNostr allow method path = .handler h p → h.isStorage = true →
    p ∈ discoveryRoutes ∨ ∀ segment ∈ p.splitOn '/', Admissible allow.allowed segment

/-- The guard did not look: the path is below `/.well-known/`, the allowlist does not allow
it, and after the other guard a handler of the storage takes it. -/
structure Overlooked (decode : Str → Str) (didNostr : Bool) (allow : DotfileAllowlist)
    (method : HttpMethod) (path : Str) : Prop where
  below : startsWith "/.well-known/" path = true
  refused : allow.isAllowed path = false
  passed : pathIsTraversal decode path = false
  storage : ∃ h, route didNostr method (mergeSlashes path) = some h ∧ h.isStorage = true
  notFixed : mergeSlashes path ∉ discoveryRoutes

/-- What percent-decoding leaves alone: slashes, and texts without a percent sign. -/
structure PercentDecoding (decode : Str → Str) : Prop where
  slash : ∀ a b, decode (a ++ '/' :: b) = decode a ++ '/' :: decode b
  plain : ∀ s, '%' ∉ s → decode s = s

variable {decode : Str → Str} {didNostr : Bool} {allow : DotfileAllowlist} {method : HttpMethod}
  {path segment : Str}

/-! ## Segments through the guards -/

theorem splitOn_decode (hdecode : PercentDecoding decode) (p : Str) :
    (decode p).splitOn '/' = (p.splitOn '/').flatMap fun s => (decode s).splitOn '/' := by
  induction hn : p.length using Nat.strong_induction_on generalizing p with
  | _ n ih =>
      by_cases hmem : '/' ∈ p
      · obtain ⟨a, b, rfl, ha⟩ := List.eq_append_cons_of_mem hmem
        have hb := ih b.length (by rw [← hn, List.length_append, List.length_cons]; omega) b rfl
        rw [hdecode.slash, List.splitOn_append_cons_self, List.splitOn_append_cons_self,
          List.splitOn_eq_singleton ha, List.flatMap_append, hb, List.flatMap_singleton]
      · rw [List.splitOn_eq_singleton hmem, List.flatMap_singleton]

/-- A segment without a percent sign is there after the first pass. -/
theorem mem_splitOn_decode (hdecode : PercentDecoding decode) (hmem : segment ∈ path.splitOn '/')
    (hpercent : '%' ∉ segment) (hslash : '/' ∉ segment) : segment ∈ (decode path).splitOn '/' := by
  rw [splitOn_decode hdecode, List.mem_flatMap]
  refine ⟨segment, hmem, ?_⟩
  rw [hdecode.plain segment hpercent, List.splitOn_eq_singleton hslash]
  exact List.mem_singleton_self _

theorem not_navigation (hdecode : PercentDecoding decode)
    (hpassed : pathIsTraversal decode path = false) (hmem : segment ∈ path.splitOn '/') :
    segment ≠ ['.'] ∧ segment ≠ ['.', '.'] := by
  rw [pathIsTraversal] at hpassed
  simp only [Bool.or_eq_false_iff, List.any_eq_false] at hpassed
  have hseg := hpassed.1.1.1
  constructor
  · rintro rfl
    exact hseg _ (List.mem_append_left _ (mem_splitOn_decode hdecode hmem (by decide) (by decide)))
      rfl
  · rintro rfl
    exact hseg _ (List.mem_append_left _ (mem_splitOn_decode hdecode hmem (by decide) (by decide)))
      rfl

theorem mem_splitOn_mergeSlashes (hne : segment ≠ []) (p : Str) :
    segment ∈ (mergeSlashes p).splitOn '/' ↔ segment ∈ p.splitOn '/' := by
  suffices h : ∀ a : Str, '/' ∉ a →
      (segment ∈ (a ++ mergeSlashes p).splitOn '/' ↔ segment ∈ (a ++ p).splitOn '/') from
    h [] List.not_mem_nil
  induction p using mergeSlashes.induct with
  | case1 cs ih =>
      intro a ha
      rw [mergeSlashes, ih a ha, List.splitOn_append_cons_self, List.splitOn_append_cons_self,
        List.mem_append, List.mem_append, ← List.nil_append ('/' :: cs),
        List.splitOn_append_cons_self, List.splitOn_nil, List.mem_append, List.mem_singleton,
        or_iff_right hne]
  | case2 c cs hcs ih =>
      intro a ha
      rw [mergeSlashes.eq_2 c cs hcs]
      by_cases hc : c = '/'
      · subst hc
        rw [List.splitOn_append_cons_self, List.splitOn_append_cons_self, List.mem_append,
          List.mem_append]
        exact or_congr_right (ih [] List.not_mem_nil)
      · have happend (t : Str) : a ++ c :: t = (a ++ [c]) ++ t := by simp
        rw [happend (mergeSlashes cs), happend cs]
        exact ih (a ++ [c]) (by simp [ha, Ne.symm hc])
  | case3 =>
      intro a _
      rw [mergeSlashes]

theorem forall_admissible_mergeSlashes {allowed : List Str} :
    (∀ segment ∈ (mergeSlashes path).splitOn '/', Admissible allowed segment) ↔
      ∀ segment ∈ path.splitOn '/', Admissible allowed segment := by
  constructor
  · intro h segment hmem
    by_cases hne : segment = []
    · rw [hne]
      exact admissible_nil _
    · exact h segment ((mem_splitOn_mergeSlashes hne path).mpr hmem)
  · intro h segment hmem
    by_cases hne : segment = []
    · rw [hne]
      exact admissible_nil _
    · exact h segment ((mem_splitOn_mergeSlashes hne path).mp hmem)

theorem dispatch_eq_handler_iff {h : Handler} {p : Str} :
    dispatch decode didNostr allow method path = .handler h p ↔
      (startsWith "/.well-known/" path = true ∨ allow.isAllowed path = true) ∧
        pathIsTraversal decode path = false ∧ route didNostr method (mergeSlashes path) = some h ∧
          p = mergeSlashes path := by
  rw [dispatch]
  generalize startsWith "/.well-known/" path = below, allow.isAllowed path = allowed,
    pathIsTraversal decode path = traversal,
    route didNostr method (mergeSlashes path) = taken
  by_cases hguard : below = true ∨ allowed = true
  · have hlet : (!below && !allowed) = false := by
      rcases hguard with rfl | rfl
      · rfl
      · rw [Bool.not_true, Bool.and_false]
    cases traversal with
    | true => simp [hlet]
    | false =>
        cases taken with
        | none => simp [hlet]
        | some h' => simp [hlet, hguard, eq_comm]
  · have hstop : (!below && !allowed) = true := by
      rw [not_or, Bool.not_eq_true, Bool.not_eq_true] at hguard
      rw [hguard.1, hguard.2]
      rfl
    simp [hstop, hguard]

/-- Past the traversal guard, the allowlist decides about each segment by itself. -/
theorem forall_admissible_iff (hdecode : PercentDecoding decode)
    (hpassed : pathIsTraversal decode path = false) :
    (∀ segment ∈ (mergeSlashes path).splitOn '/', Admissible allow.allowed segment) ↔
      allow.isAllowed path = true := by
  rw [forall_admissible_mergeSlashes,
    isAllowed_iff fun segment hmem => (not_navigation hdecode hpassed hmem).1]

/-- A request brings a dotfile to the storage exactly when the guard overlooks it below
`/.well-known/`. The default allowlist and the free function agree as far as they
have to. -/
theorem noDotfile_iff (decode : Str → Str) (hdecode : PercentDecoding decode) (didNostr : Bool)
    (allow : DotfileAllowlist) (method : HttpMethod) (path : Str) :
    (NoDotfile decode didNostr allow method path ↔
      ¬Overlooked decode didNostr allow method path) ∧
    ∀ p, DotfileAllowlist.withDefaults.isAllowed p = true → isPathAllowed p = .ok () := by
  refine ⟨⟨fun hno hover => ?_, fun hover h p hdispatch hstorage => ?_⟩,
    fun p => isPathAllowed_of_isAllowed⟩
  · obtain ⟨h, hroute, hstorage⟩ := hover.storage
    have hdispatch : dispatch decode didNostr allow method path =
        .handler h (mergeSlashes path) :=
      dispatch_eq_handler_iff.mpr ⟨.inl hover.below, hover.passed, hroute, rfl⟩
    have hall := (hno h _ hdispatch hstorage).resolve_left hover.notFixed
    rw [forall_admissible_iff hdecode hover.passed, hover.refused] at hall
    cases hall
  · obtain ⟨hguard, hpassed, hroute, rfl⟩ := dispatch_eq_handler_iff.mp hdispatch
    rw [forall_admissible_iff hdecode hpassed]
    by_contra hnot
    rw [not_or, Bool.not_eq_true] at hnot
    refine hover ⟨hguard.resolve_right ?_, hnot.2, hpassed, ⟨h, hroute, hstorage⟩, hnot.1⟩
    rw [hnot.2]
    exact Bool.false_ne_true

/-! ## A dotfile among the discovery documents -/

theorem percentDecoding_id : PercentDecoding id where
  slash _ _ := rfl
  plain _ _ := rfl

theorem not_noDotfile_env :
    ¬NoDotfile id false .withDefaults .get "/.well-known/.env" := by
  intro h
  have hdispatch : dispatch id false .withDefaults .get "/.well-known/.env" =
      .handler .get "/.well-known/.env" :=
    dispatch_eq_handler_iff.mpr ⟨.inl (by decide), by decide, by decide, by decide⟩
  rcases h _ _ hdispatch rfl with hfixed | hall
  · revert hfixed
    decide
  · have hlisted := (hall ".env" (by decide)).listed (by decide)
    revert hlisted
    decide

theorem noDotfile_iff_env :
    (NoDotfile id false .withDefaults .get "/.well-known/.env" ↔
      ¬Overlooked id false .withDefaults .get "/.well-known/.env") ∧
    ∀ p, DotfileAllowlist.withDefaults.isAllowed p = true → isPathAllowed p = .ok () :=
  noDotfile_iff id percentDecoding_id false .withDefaults .get "/.well-known/.env"

end Server

end SolidPod
