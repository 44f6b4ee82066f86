import SolidPod.Auth.Nip98
import SolidPod.Foundation.Fallible
import SolidPod.Foundation.UnixPath

/-!
# The credentials and the path guard of the git handler

A git client that only knows `Basic` credentials sends the token of a NIP-98
header as the password of the user `nostr`; a plain `Nostr` header is taken as
well. The token goes to the verifier of the core library. A request names a
repository by its URL path, which ends in the service that is asked for. The
guard takes the name of that service off, removes every `..` from what is left,
and puts the rest below the root directory.
-/

namespace SolidPod

open Foundation Str Auth

namespace Git

inductive AuthError where
  | missing
  | malformed (msg : Str)
  | verification (msg : Str)
  deriving DecidableEq

structure GitRequest where
  method : Str
  path : Str
  query : Str
  headers : List (Str × Str)
  hostUrl : Option Str

/-- The URL that the `u` tag has to name. -/
def GitRequest.authUrl (req : GitRequest) : Str :=
  let base := req.hostUrl.getD "http://localhost"
  if req.query.isEmpty then base ++ req.path else base ++ req.path ++ ['?'] ++ req.query

/-- The keys that may push, every key when there is no list. -/
structure BasicNostrExtractor where
  allowedPubkeys : Option (List Str)

/-- The texts of errors that are not of this crate. -/
structure ErrorTexts where
  base64Error : Str → Str
  utf8Error : Bytes → Str
  debug : PodError → Str

namespace BasicNostrExtractor

def withAllowed (lib : Nip98Library) (pubkeys : List Str) : BasicNostrExtractor :=
  ⟨some (pubkeys.map lib.toLowercase)⟩

/-- The password of the user `nostr`. -/
def extractNostrToken (texts : ErrorTexts) (headerValue : Str) : Except AuthError Str :=
  match stripPrefix "Basic " headerValue with
  | none => .error (.malformed "not a Basic scheme")
  | some rest =>
    let b64 := trim rest
    match Base64.decode b64 with
    | none => .error (.malformed ("base64 decode: " ++ texts.base64Error b64))
    | some decoded =>
      match fromUtf8 decoded with
      | none => .error (.malformed ("utf-8 decode: " ++ texts.utf8Error decoded))
      | some creds =>
        match splitOnce ':' creds with
        | none => .error (.malformed "no colon in credentials")
        | some (user, pass) =>
          if user ≠ "nostr" then
            .error (.malformed ("expected username 'nostr', got '" ++ user ++ "'"))
          else if pass.isEmpty then .error (.malformed "empty token")
          else .ok pass

/-- The token of the `Authorization` header. -/
def nostrToken (texts : ErrorTexts) (req : GitRequest) : Except AuthError Str :=
  match req.headers.find? fun h => toAsciiLowercase h.1 = "authorization" with
  | none => .error .missing
  | some (_, authHeader) =>
    match stripPrefix "Basic " authHeader with
    | some stripped => extractNostrToken texts ("Basic " ++ stripped)
    | none =>
      match stripPrefix "Nostr " authHeader with
      | some stripped => .ok (trim stripped)
      | none => .error (.malformed "unknown Authorization scheme")

def authorise (lib : Nip98Library) (texts : ErrorTexts) (schnorr : Bool)
    (self : BasicNostrExtractor) (req : GitRequest) (now : UInt64) : Except AuthError Str :=
  match nostrToken texts req with
  | .error e => .error e
  | .ok token =>
    match verifyAt lib schnorr ("Nostr " ++ token) req.authUrl req.method none now with
    | .error e => .error (.verification (texts.debug e))
    | .ok verified =>
      match self.allowedPubkeys with
      | none => .ok verified.pubkey
      | some allowed =>
        let pk := lib.toLowercase verified.pubkey
        if !allowed.contains pk then
          .error (.verification ("pubkey not in allow-list: " ++ pk))
        else .ok verified.pubkey

end BasicNostrExtractor

end Git

end SolidPod

namespace SolidPod

open Foundation Str UnixPath

namespace Git

/-- The errors of the handler, but for those of starting the backend. -/
inductive GitError where
  | pathTraversal (msg : Str)
  | unauthorised (msg : Str)
  | notARepository (slug : Str)
  | malformedCgi (msg : Str)
  | io (msg : Str)
  | auth (e : AuthError)

/-- What the handler asks the file system. A canonical path is absolute. -/
structure FileSystem where
  canonicalize : Str → Except Str Str
  pathExists : Str → Bool
  isDir : Str → Bool
  canonicalize_absolute : ∀ {p q}, canonicalize p = .ok q → isAbsolute q = true

/-- The services that the path of a request can end in. -/
def serviceSuffixes : List Str := ["/info/refs", "/git-upload-pack", "/git-receive-pack"]

/-- The text without the first of the suffixes that it ends in. -/
def cutSuffix : List Str → Str → Str
  | [], s => s
  | suffix :: rest, s =>
    match stripSuffix suffix s with
    | some t => t
    | none => cutSuffix rest s

/-- The text before the first question mark. -/
def cutQuery (s : Str) : Str := ((splitOnce '?' s).map Prod.fst).getD s

/-- `replace("..", "")`: one pass from left to right. -/
def removeDots : Str → Str
  | '.' :: '.' :: cs => removeDots cs
  | c :: cs => c :: removeDots cs
  | [] => []

/-- Passes until one changes nothing. Each one that changes something makes the text
shorter, so there are no more of them than characters. -/
def removeDotsLoop : ℕ → Str → Str
  | 0, s => s
  | n + 1, s => if removeDots s = s then s else removeDotsLoop n (removeDots s)

/-- The path without query, service and leading slashes. -/
def strippedPath (urlPath : Str) : Str :=
  trimStartMatches '/' (cutSuffix serviceSuffixes (cutQuery urlPath))

def extractRepoSlug (urlPath : Str) : Str :=
  let clean := removeDotsLoop (strippedPath urlPath).length (strippedPath urlPath)
  if clean.isEmpty then "." else clean

def pathSafe (fs : FileSystem) (repoRoot requested : Str) : Except GitError Str :=
  if isAbsolute requested then
    .error (.pathTraversal ("absolute path rejected: " ++ requested))
  else if .parentDir ∈ components requested then
    .error (.pathTraversal ("`..` component rejected: " ++ requested))
  else
    match fs.canonicalize repoRoot with
    | .error e => .error (.pathTraversal ("root canonicalize: " ++ e))
    | .ok rootCanon =>
      let candidate := UnixPath.join rootCanon requested
      if below rootCanon candidate then .ok candidate
      else .error (.pathTraversal ("resolved path escapes root: " ++ candidate))

variable {s : Str}

theorem length_removeDots_le (s : Str) : (removeDots s).length ≤ s.length := by
  fun_induction removeDots s with
  | case1 cs ih =>
      simp only [List.length_cons]
      omega
  | case2 c cs _ ih =>
      simp only [List.length_cons]
      omega
  | case3 => exact Nat.le_refl 0

theorem length_removeDots_lt (h : removeDots s ≠ s) : (removeDots s).length < s.length := by
  fun_induction removeDots s with
  | case1 cs ih =>
      have hle := length_removeDots_le cs
      simp only [List.length_cons]
      omega
  | case2 c cs _ ih =>
      have hcs : removeDots cs ≠ cs := fun heq => h (by rw [heq])
      have hlt := ih hcs
      simp only [List.length_cons]
      omega
  | case3 => exact absurd rfl h

/-- A pass leaves exactly the texts alone that have no `..`. -/
theorem removeDots_eq_self_iff : removeDots s = s ↔ ¬ ['.', '.'] <:+: s := by
  fun_induction removeDots s with
  | case1 cs ih =>
      have hle := length_removeDots_le cs
      constructor
      · intro h
        have hlen := congrArg List.length h
        simp only [List.length_cons] at hlen
        omega
      · intro h
        exact absurd ⟨[], cs, rfl⟩ h
  | case2 c cs hc ih =>
      have hstart : ¬ ['.', '.'] <+: c :: cs := by
        rintro ⟨r, hr⟩
        cases hr
        exact hc _ rfl rfl
      rw [List.cons.injEq, List.infix_cons_iff, not_or]
      constructor
      · rintro ⟨-, h⟩
        exact ⟨hstart, ih.mp h⟩
      · rintro ⟨-, h⟩
        exact ⟨rfl, ih.mpr h⟩
  | case3 => simp

theorem mem_of_mem_removeDots {c : Char} (h : c ∈ removeDots s) : c ∈ s := by
  fun_induction removeDots s with
  | case1 cs ih => exact List.mem_cons_of_mem _ (List.mem_cons_of_mem _ (ih h))
  | case2 d cs _ ih =>
      cases List.mem_cons.mp h with
      | inl hd => exact List.mem_cons.mpr (Or.inl hd)
      | inr hcs => exact List.mem_cons_of_mem _ (ih hcs)
  | case3 => exact h

/-- The loop ends in a text without `..`. -/
theorem not_infix_removeDotsLoop {n : ℕ} (h : s.length ≤ n) :
    ¬ ['.', '.'] <:+: removeDotsLoop n s := by
  induction n generalizing s with
  | zero =>
      have hnil : s = [] := List.length_eq_zero_iff.mp (Nat.le_zero.mp h)
      rw [hnil]
      simp [removeDotsLoop]
  | succ n ih =>
      rw [removeDotsLoop]
      by_cases hfix : removeDots s = s
      · rw [if_pos hfix]
        exact removeDots_eq_self_iff.mp hfix
      · rw [if_neg hfix]
        have hlt := length_removeDots_lt hfix
        exact ih (by omega)

theorem mem_of_mem_removeDotsLoop {c : Char} {n : ℕ} (h : c ∈ removeDotsLoop n s) : c ∈ s := by
  induction n generalizing s with
  | zero => exact h
  | succ n ih =>
      rw [removeDotsLoop] at h
      split at h
      · exact h
      · exact mem_of_mem_removeDots (ih h)

theorem removeDotsLoop_of_not_infix (h : ¬ ['.', '.'] <:+: s) (n : ℕ) :
    removeDotsLoop n s = s := by
  cases n with
  | zero => rfl
  | succ n => rw [removeDotsLoop, if_pos (removeDots_eq_self_iff.mpr h)]

theorem notMem_cutQuery (s : Str) : '?' ∉ cutQuery s := by
  rw [cutQuery]
  cases hsplit : splitOnce '?' s with
  | none =>
      by_contra hmem
      obtain ⟨a, b, rfl, ha⟩ := List.eq_append_cons_of_mem hmem
      rw [splitOnce_append ha] at hsplit
      cases hsplit
  | some r => exact (eq_append_of_splitOnce hsplit).2

theorem cutQuery_of_notMem (h : '?' ∉ s) : cutQuery s = s := by
  rw [cutQuery, splitOnce_eq_none h]
  rfl

theorem eq_append_of_stripSuffix {p t : Str} (h : stripSuffix p s = some t) : s = t ++ p := by
  rw [stripSuffix, Option.map_eq_some_iff] at h
  obtain ⟨r, hr, rfl⟩ := h
  have hs := congrArg List.reverse (stripPrefix_eq_some.mp hr)
  rwa [List.reverse_reverse, List.reverse_append, List.reverse_reverse] at hs

theorem cutSuffix_eq_self_or (l : List Str) (s : Str) :
    cutSuffix l s = s ∨ ∃ suffix ∈ l, s = cutSuffix l s ++ suffix := by
  induction l with
  | nil => exact Or.inl rfl
  | cons suffix l ih =>
      rw [cutSuffix]
      split
      · rename_i t ht
        exact Or.inr ⟨suffix, List.mem_cons_self, eq_append_of_stripSuffix ht⟩
      · cases ih with
        | inl h => exact Or.inl h
        | inr h =>
            obtain ⟨u, hu, hs⟩ := h
            exact Or.inr ⟨u, List.mem_cons_of_mem suffix hu, hs⟩

/-- The cut leaves everything in place that is in no suffix and has no slash. -/
theorem infix_cutSuffix_iff {p : Str} {l : List Str} (hp : p ≠ []) (hslash : '/' ∉ p)
    (hl : ∀ suffix ∈ l, suffix.head? = some '/' ∧ ¬ p <:+: suffix) :
    p <:+: cutSuffix l s ↔ p <:+: s := by
  cases cutSuffix_eq_self_or l s with
  | inl h => rw [h]
  | inr h =>
      obtain ⟨suffix, hmem, hs⟩ := h
      obtain ⟨hhead, hnot⟩ := hl suffix hmem
      obtain ⟨t, rfl⟩ := List.head?_eq_some_iff.mp hhead
      have ht : ¬ p <:+: t := fun h => hnot (h.trans (List.suffix_cons '/' t).isInfix)
      have hiff := infix_append_cons_iff (a := cutSuffix l s) (b := t) hp hslash
      rw [← hs] at hiff
      rw [hiff, or_iff_left ht]

/-- A repository is named by the names of its slug; the slug of no name at all is `.`. -/
theorem names_extractRepoSlug (urlPath : Str) : names (extractRepoSlug urlPath) =
    names (removeDotsLoop (strippedPath urlPath).length (strippedPath urlPath)) := by
  rw [extractRepoSlug]
  split
  · rename_i hempty
    rw [List.isEmpty_iff.mp hempty]
    rfl
  · rfl

/-- Nothing is rewritten in a path without a question mark and without `..`. -/
theorem names_extractRepoSlug_of_plain (hquery : '?' ∉ s) (hdots : ¬ ['.', '.'] <:+: s) :
    names (extractRepoSlug s) = names (cutSuffix serviceSuffixes s) := by
  have hcut : ¬ ['.', '.'] <:+: cutSuffix serviceSuffixes s := by
    rw [infix_cutSuffix_iff (by simp) (by decide) (by decide)]
    exact hdots
  have htrim : ¬ ['.', '.'] <:+: trimStartMatches '/' (cutSuffix serviceSuffixes s) :=
    fun h => hcut (h.trans (List.dropWhile_suffix _).isInfix)
  rw [names_extractRepoSlug, strippedPath, cutQuery_of_notMem hquery,
    removeDotsLoop_of_not_infix htrim, names_trimStartMatches]

theorem not_infix_extractRepoSlug (s : Str) : ¬ ['.', '.'] <:+: extractRepoSlug s := by
  rw [extractRepoSlug]
  split
  · decide
  · exact not_infix_removeDotsLoop (Nat.le_refl _)

theorem notMem_extractRepoSlug (s : Str) : '?' ∉ extractRepoSlug s := by
  rw [extractRepoSlug]
  split
  · decide
  · intro h
    have htrim := mem_of_mem_removeDotsLoop h
    have hcut := (List.dropWhile_suffix _).mem htrim
    have hquery : '?' ∈ cutQuery s := by
      cases cutSuffix_eq_self_or serviceSuffixes (cutQuery s) with
      | inl heq => rwa [heq] at hcut
      | inr heq =>
          obtain ⟨suffix, -, hs⟩ := heq
          rw [hs]
          exact List.mem_append_left _ hcut
    exact notMem_cutQuery s hquery

/-- The guard keeps the names of the path exactly when it has nothing to take out. -/
theorem names_extractRepoSlug_iff :
    names (extractRepoSlug s) = names (cutSuffix serviceSuffixes s) ↔
      '?' ∉ s ∧ ¬ ['.', '.'] <:+: s := by
  constructor
  · intro h
    constructor
    · intro hmem
      have hpath : ['?'] <:+: cutSuffix serviceSuffixes s := by
        rw [infix_cutSuffix_iff (by simp) (by decide) (by decide)]
        obtain ⟨a, b, rfl⟩ := List.mem_iff_append.mp hmem
        exact ⟨a, b, by simp⟩
      rw [infix_iff_exists_names (by simp) (by decide) (by decide), ← h,
        ← infix_iff_exists_names (by simp) (by decide) (by decide)] at hpath
      exact notMem_extractRepoSlug s (hpath.subset List.mem_cons_self)
    · intro hdots
      have hpath : ['.', '.'] <:+: cutSuffix serviceSuffixes s := by
        rwa [infix_cutSuffix_iff (by simp) (by decide) (by decide)]
      rw [infix_iff_exists_names (by simp) (by decide) (by decide), ← h,
        ← infix_iff_exists_names (by simp) (by decide) (by decide)] at hpath
      exact not_infix_extractRepoSlug s hpath
  · rintro ⟨hquery, hdots⟩
    exact names_extractRepoSlug_of_plain hquery hdots

/-- What the guard accepts, and where it puts it. -/
theorem pathSafe_eq_ok_iff {fs : FileSystem} {repoRoot requested path : Str} :
    pathSafe fs repoRoot requested = .ok path ↔
      isAbsolute requested = false ∧ .parentDir ∉ components requested ∧
        ∃ rootCanon, fs.canonicalize repoRoot = .ok rootCanon ∧
          below rootCanon path = true ∧ path = UnixPath.join rootCanon requested := by
  rw [pathSafe, Fallible.guard_eq_ok_iff, Fallible.guard_eq_ok_iff, Bool.not_eq_true]
  cases hroot : fs.canonicalize repoRoot with
  | error e => simp
  | ok rootCanon =>
      simp only [Except.ok.injEq, exists_eq_left']
      by_cases hbelow : below rootCanon (UnixPath.join rootCanon requested) = true
      · rw [if_pos hbelow, Except.ok.injEq]
        constructor
        · rintro ⟨habs, hparent, rfl⟩
          exact ⟨habs, hparent, hbelow, rfl⟩
        · rintro ⟨habs, hparent, -, rfl⟩
          exact ⟨habs, hparent, rfl⟩
      · rw [if_neg hbelow]
        constructor
        · rintro ⟨-, -, h⟩
          cases h
        · rintro ⟨-, -, h, rfl⟩
          exact absurd h hbelow

end Git

end SolidPod
