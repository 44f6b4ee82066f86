import SolidPod.Config.Layering

/-!
# Selecting the storage

The type and the root of the storage can be given in the environment and on the command
line. The environment reads the type without regard to case, lets it decide over the
root, and passes over a type that it does not know; on the command line the type is taken
as it is, and a root overrides it.
-/

namespace SolidPod

open Foundation Str Json

namespace Config

/-- An environment with a storage type and a storage root at most. -/
def storageEnv (storageType root : Option Str) (name : Str) : Option Str :=
  if name = "JSS_STORAGE_TYPE" then storageType
  else if name = "JSS_STORAGE_ROOT" then root
  else none

/-- A command line with a storage type and a storage root at most. -/
def storageArgs (storageType root : Option Str) : CliArgs :=
  ⟨none, none, none, root, storageType, none, none, none, none, none⟩

/-- What a load ends with over the tree of the lower layers. -/
def loadOver (t : List (Str × Json)) (overlay : Json) : Except LoadError ServerConfig :=
  decodeTree (mergeJson (.object t) overlay)

/-- The same storage, or the same failure, from the environment and from the command line. -/
def SelectAlike (floorProduct : Str → UInt64 → Option UInt64) (t : List (Str × Json))
    (storageType root : Option Str) : Prop :=
  (loadOver t (envFrom floorProduct (storageEnv storageType root))).map (·.storage) =
    (loadOver t (storageArgs storageType root).toOverlay).map (·.storage)

/-- The two overlays are the same. -/
def SameOverlay : Option Str → Option Str → Prop
  | none, _ => True
  | some storageType, none => storageType ∈ StorageBackendConfig.variants
  | some storageType, some _ => toAsciiLowercase storageType = "fs"

/-- What is decoded before the storage. -/
def otherSections (t : List (Str × Json)) : Except DecodeError AuthConfig := do
  let auth ← ServerConfig.sectionAt AuthConfig.decode .default "auth" t
  let _ ← ServerConfig.sectionAt ExtrasConfig.decode .default "extras" t
  let _ ← ServerConfig.sectionAt NotificationsConfig.decode .default "notifications" t
  let _ ← ServerConfig.sectionAt SecurityConfig.decode .default "security" t
  let _ ← ServerConfig.sectionAt ServerSection.decode .default "server" t
  return auth

def storageAt (section_ : Option Json) : Except DecodeError StorageBackendConfig :=
  section_.elim (.ok .default) StorageBackendConfig.decode

/-- The storage section of the environment. -/
def envStorage (storageType root : Option Str) : Option Json :=
  nonEmpty (collect (storageRows (storageEnv storageType root)))

def lacksIssuer (auth : AuthConfig) : Prop := auth.oidcEnabled = true ∧ auth.oidcIssuer = none

/-- The lower layers alone decide how a load with the type and the root ends. -/
inductive Moot (t : List (Str × Json)) (storageType root : Option Str) : Prop
  /-- Another section of the lower layers cannot be decoded. -/
  | otherSection {e : DecodeError} (h : otherSections t = .error e)
  /-- The lower layers enable OIDC without an issuer, and neither storage section is bad. -/
  | issuer {auth : AuthConfig} {st : StorageBackendConfig} (h : otherSections t = .ok auth)
      (hissuer : lacksIssuer auth) (hroot : root.isSome = true)
      (hst : storageAt (mergeOption (member "storage" t) (envStorage storageType root)) = .ok st)
  /-- The type is unknown, and the lower layers have what the command line selects. -/
  | lower {given : Str} (htype : storageType = some given)
      (hunknown : toAsciiLowercase given ∉ StorageBackendConfig.variants)
      (h : storageAt (member "storage" t) =
        root.elim (.error (.unknownVariant given StorageBackendConfig.variants)) fun root =>
          .ok (.fs root))

variable {t m : List (Str × Json)} {storageType root : Option Str} {given : Str}

/-! ## The end of a load -/

/-- How a load ends for a storage section, once the others are decoded. -/
def outcome (auth : AuthConfig) :
    Except DecodeError StorageBackendConfig → Except LoadError StorageBackendConfig
  | .error e => .error (.invalidShape e)
  | .ok st =>
    match ServerConfig.validate { ServerConfig.default with auth := auth, storage := st } with
    | .error message => .error (.invalid message)
    | .ok () => .ok st

theorem storage_decodeTree : (decodeTree (.object m)).map (·.storage) =
    match otherSections m with
    | .error e => .error (.invalidShape e)
    | .ok auth => outcome auth (storageAt (member "storage" m)) := by
  have hstorage : ServerConfig.sectionAt StorageBackendConfig.decode .default "storage" m =
      storageAt (member "storage" m) := by
    rw [ServerConfig.sectionAt, storageAt]
    cases member "storage" m with
    | none => rfl
    | some v => rfl
  rw [decodeTree, ServerConfig.decode, otherSections, hstorage]
  cases ServerConfig.sectionAt AuthConfig.decode .default "auth" m with
  | error e => rfl
  | ok auth =>
  cases ServerConfig.sectionAt ExtrasConfig.decode .default "extras" m with
  | error e => rfl
  | ok extras =>
  cases ServerConfig.sectionAt NotificationsConfig.decode .default "notifications" m with
  | error e => rfl
  | ok notifications =>
  cases ServerConfig.sectionAt SecurityConfig.decode .default "security" m with
  | error e => rfl
  | ok security =>
  cases ServerConfig.sectionAt ServerSection.decode .default "server" m with
  | error e => rfl
  | ok server =>
  cases storageAt (member "storage" m) with
  | error e => rfl
  | ok st =>
      change Except.map _ (match ServerConfig.validate ⟨server, st, auth, notifications, security,
        extras⟩ with
        | .error message => .error (.invalid message)
        | .ok () => .ok _) = outcome auth (.ok st)
      rw [outcome]
      have hvalid : ServerConfig.validate ⟨server, st, auth, notifications, security, extras⟩ =
          ServerConfig.validate { ServerConfig.default with auth := auth, storage := st } := rfl
      rw [hvalid]
      cases ServerConfig.validate { ServerConfig.default with auth := auth, storage := st } with
      | error message => rfl
      | ok u => rfl

/-! ## Overlays with a storage section only -/

/-- The overlay has no section but the storage. -/
structure OnlyStorage (o : List (Str × Json)) (section_ : Option Json) : Prop where
  sorted : SortedKeys o
  storage : member "storage" o = section_
  others : ∀ key ∈ ["server".toList, "auth".toList, "notifications".toList, "security".toList,
    "extras".toList], member key o = none

theorem OnlyStorage.loadOver {o : List (Str × Json)} {section_ : Option Json}
    (h : OnlyStorage o section_) : (loadOver t (.object o)).map (·.storage) =
      match otherSections t with
      | .error e => .error (.invalidShape e)
      | .ok auth => outcome auth (storageAt (mergeOption (member "storage" t) section_)) := by
  have hkept : ∀ key ∈ ["server".toList, "auth".toList, "notifications".toList,
      "security".toList, "extras".toList], member key (mergeMembers t o) = member key t := by
    intro key hkey
    rw [member_mergeMembers h.sorted, h.others key hkey, mergeOption_none]
  have hothers : otherSections (mergeMembers t o) = otherSections t := by
    simp only [otherSections, ServerConfig.sectionAt,
      hkept "server" (by decide), hkept "auth" (by decide), hkept "notifications" (by decide),
      hkept "security" (by decide), hkept "extras" (by decide)]
  rw [Config.loadOver, mergeJson, storage_decodeTree, hothers, member_mergeMembers h.sorted,
    h.storage]

theorem onlyStorage_env (floorProduct : Str → UInt64 → Option UInt64)
    (storageType root : Option Str) : ∃ o,
      envFrom floorProduct (storageEnv storageType root) = .object o ∧
        OnlyStorage o (envStorage storageType root) := by
  refine ⟨_, rfl, sortedKeys_collect _, ?_, ?_⟩
  · rw [member_collect]
    exact lastRow_table (nodup_envTable _ _) (List.mem_cons_of_mem _ List.mem_cons_self)
  · simp only [List.forall_mem_cons, List.not_mem_nil, IsEmpty.forall_iff, implies_true, and_true,
      member_collect]
    exact ⟨rfl, rfl, rfl, rfl, rfl⟩

theorem onlyStorage_cli (storageType root : Option Str) : ∃ o,
    (storageArgs storageType root).toOverlay = .object o ∧
      OnlyStorage o (nonEmpty (collect (storageArgs storageType root).storageRows)) := by
  refine ⟨_, rfl, sortedKeys_collect _, ?_, ?_⟩
  · rw [member_collect]
    exact lastRow_table (nodup_table _) (List.mem_cons_of_mem _ List.mem_cons_self)
  · simp only [List.forall_mem_cons, List.not_mem_nil, IsEmpty.forall_iff, implies_true, and_true,
      member_collect]
    exact ⟨rfl, rfl, rfl, rfl, rfl⟩

/-! ## What the two sources select -/

def cliStorage (storageType root : Option Str) : Option Json :=
  nonEmpty (collect (storageArgs storageType root).storageRows)

/-- The section with a type, and with a root. -/
def typed (tag : Str) : Json := .object [("type", .string tag)]

def rooted (root : Str) : Json := .object [("root", .string root), ("type", .string "fs")]

theorem cliStorage_none : cliStorage (some given) none = some (typed given) := rfl

theorem cliStorage_some (storageType : Option Str) (path : Str) :
    cliStorage storageType (some path) = some (rooted path) := by
  cases storageType with
  | none => rfl
  | some given => rfl

/-- The rows of the environment for a type in lower case. -/
def wordRows (word : Str) (root : Option Str) : List (Str × Option Json) :=
  if word = "memory" then [("type", text "memory")]
  else if word = "s3" then
    [("type", text "s3"), ("bucket", none), ("region", none), ("prefix", none)]
  else if word = "fs" ∧ root.isSome then [("type", text "fs"), ("root", root.bind text)]
  else if word = "fs" then [("type", text "fs")]
  else []

theorem storageRows_storageEnv (given : Str) (root : Option Str) :
    storageRows (storageEnv (some given) root) = wordRows (toAsciiLowercase given) root := by
  have htype : (storageEnv (some given) root "JSS_STORAGE_TYPE").map toAsciiLowercase =
      some (toAsciiLowercase given) := rfl
  have hroot : (storageEnv (some given) root "JSS_STORAGE_ROOT").or
      (storageEnv (some given) root "JSS_ROOT") = root := Option.or_none
  unfold storageRows
  simp only [htype, hroot, Option.some.injEq, reduceCtorEq, or_false]
  rfl

theorem envStorage_memory (h : toAsciiLowercase given = "memory") :
    envStorage (some given) root = some (typed "memory") := by
  rw [envStorage, storageRows_storageEnv, wordRows, if_pos h]
  rfl

theorem envStorage_s3 (h : toAsciiLowercase given = "s3") :
    envStorage (some given) root = some (typed "s3") := by
  rw [envStorage, storageRows_storageEnv, wordRows, if_neg (by rw [h]; decide), if_pos h]
  rfl

theorem envStorage_fs (h : toAsciiLowercase given = "fs") :
    envStorage (some given) root = some (root.elim (typed "fs") rooted) := by
  rw [envStorage, storageRows_storageEnv, wordRows, if_neg (by rw [h]; decide),
    if_neg (by rw [h]; decide)]
  cases root with
  | none =>
      rw [if_neg (by simp), if_pos h]
      rfl
  | some path =>
      rw [if_pos ⟨h, rfl⟩]
      rfl

theorem envStorage_unknown (h : toAsciiLowercase given ∉ StorageBackendConfig.variants) :
    envStorage (some given) root = none := by
  simp only [StorageBackendConfig.variants, List.mem_cons, List.not_mem_nil, or_false,
    not_or] at h
  rw [envStorage, storageRows_storageEnv, wordRows, if_neg h.2.1, if_neg h.2.2,
    if_neg fun hfs => h.1 hfs.1, if_neg h.1]
  rfl

theorem envStorage_eq_cliStorage (h : SameOverlay storageType root) :
    envStorage storageType root = cliStorage storageType root := by
  cases storageType with
  | none =>
      cases root with
      | none => rfl
      | some path => rfl
  | some given =>
      cases root with
      | none =>
          simp only [SameOverlay, StorageBackendConfig.variants, List.mem_cons, List.not_mem_nil,
            or_false] at h
          rcases h with rfl | rfl | rfl
          · rfl
          · rfl
          · rfl
      | some path => rw [envStorage_fs h, cliStorage_some, Option.elim_some]

/-! ## Decoding a merged storage section -/

theorem storageAt_merge {x : Option Json} {o : List (Str × Json)} {tag : Str} (ho : SortedKeys o)
    (htag : member "type" o = some (.string tag)) :
    ∃ ms, storageAt (mergeOption x (some (.object o))) =
        StorageBackendConfig.decodeVariant tag (.object (removeMember "type" ms)) ∧
      (ms = o ∨ ∃ ms₀, x = some (.object ms₀) ∧ ms = mergeMembers ms₀ o) := by
  have hdecode (ms : List (Str × Json)) (h : member "type" ms = some (.string tag)) :
      StorageBackendConfig.decode (.object ms) =
        StorageBackendConfig.decodeVariant tag (.object (removeMember "type" ms)) := by
    rw [StorageBackendConfig.decode, h]
    rfl
  cases x with
  | none => exact ⟨o, hdecode o htag, .inl rfl⟩
  | some v =>
      cases hv : v.isObject with
      | false =>
          refine ⟨o, ?_, .inl rfl⟩
          rw [mergeOption, mergeJson_of_not_object (.inl hv)]
          exact hdecode o htag
      | true =>
          obtain ⟨ms₀, rfl⟩ := exists_of_isObject hv
          refine ⟨mergeMembers ms₀ o, ?_, .inr ⟨ms₀, rfl, rfl⟩⟩
          rw [mergeOption, mergeJson]
          refine hdecode _ ?_
          rw [member_mergeMembers ho, htag]
          cases member "type" ms₀ with
          | none => rfl
          | some old => exact congrArg some (mergeJson_of_not_object (.inr rfl))

theorem exists_storageAt_typed (x : Option Json) (tag : Str) : ∃ content,
    storageAt (mergeOption x (some (typed tag))) =
      StorageBackendConfig.decodeVariant tag (.object content) := by
  obtain ⟨ms, h, -⟩ := storageAt_merge (x := x) (o := [("type", .string tag)])
    (List.pairwise_singleton _ _) rfl
  exact ⟨_, h⟩

theorem storageAt_memory (x : Option Json) :
    storageAt (mergeOption x (some (typed "memory"))) = .ok .memory := by
  obtain ⟨content, h⟩ := exists_storageAt_typed x "memory"
  exact h

theorem storageAt_unknown {x : Option Json} (h : given ∉ StorageBackendConfig.variants) :
    storageAt (mergeOption x (some (typed given))) =
      .error (.unknownVariant given StorageBackendConfig.variants) := by
  obtain ⟨content, heq⟩ := exists_storageAt_typed x given
  simp only [StorageBackendConfig.variants, List.mem_cons, List.not_mem_nil, or_false,
    not_or] at h
  rw [heq]
  unfold StorageBackendConfig.decodeVariant
  rw [if_neg h.1, if_neg h.2.1, if_neg h.2.2]

theorem storageAt_s3 {x : Option Json} {st : StorageBackendConfig}
    (h : storageAt (mergeOption x (some (typed "s3"))) = .ok st) :
    ∃ bucket region pathPrefix, st = .s3 bucket region pathPrefix := by
  obtain ⟨content, heq⟩ := exists_storageAt_typed x "s3"
  rw [heq] at h
  unfold StorageBackendConfig.decodeVariant at h
  rw [if_neg (by decide), if_neg (by decide), if_pos rfl] at h
  obtain ⟨m, -, h⟩ := Fallible.bind_eq_ok_iff.mp h
  obtain ⟨bucket, -, h⟩ := Fallible.bind_eq_ok_iff.mp h
  obtain ⟨region, -, h⟩ := Fallible.bind_eq_ok_iff.mp h
  obtain ⟨pathPrefix, -, h⟩ := Fallible.bind_eq_ok_iff.mp h
  cases h
  exact ⟨bucket, region, pathPrefix, rfl⟩

theorem forM_eq_ok {ε α : Type} {f : α → Except ε PUnit} {l : List α}
    (h : ∀ x ∈ l, f x = .ok ()) : l.forM f = .ok () := by
  induction l with
  | nil => rfl
  | cons x l ih =>
      change f x >>= (fun _ => l.forM f) = .ok ()
      rw [h x List.mem_cons_self]
      exact ih fun y hy => h y (List.mem_cons_of_mem x hy)

theorem member_of_mem {k : Str} {v : Json} (hm : SortedKeys m) (h : (k, v) ∈ m) :
    member k m = some v := by
  induction m with
  | nil => cases h
  | cons e m ih =>
      obtain ⟨hhead, htail⟩ := List.pairwise_cons.mp hm
      rw [member_cons]
      rcases List.mem_cons.mp h with rfl | hmem
      · rw [if_pos rfl]
      · rw [if_neg (hhead _ hmem).ne', ih htail hmem]

theorem decodeVariant_fs {path : Str} (hm : SortedKeys m)
    (hroot : member "root" m = some (.string path)) :
    StorageBackendConfig.decodeVariant "fs" (.object (removeMember "type" m)) =
      .ok (.fs path) := by
  have hvisit : visit "struct variant StorageBackendConfig::Fs" StorageBackendConfig.fsFields
      (.object (removeMember "type" m)) = .ok (removeMember "type" m) := by
    rw [visit, forM_eq_ok]
    · rfl
    · intro e he
      rw [StorageBackendConfig.fsFields, List.lookup_cons]
      by_cases hkey : e.1 = "root"
      · have hmem : e ∈ m := (List.mem_filter.mp he).1
        have hvalue := member_of_mem hm (k := e.1) (v := e.2) hmem
        rw [hkey, hroot, Option.some.injEq] at hvalue
        rw [beq_iff_eq.mpr hkey, ← hvalue]
        rfl
      · rw [beq_eq_false_iff_ne.mpr hkey]
        rfl
  unfold StorageBackendConfig.decodeVariant
  rw [if_pos rfl, hvisit]
  change Except.map _ (field .string _ "root" (removeMember "type" m)) = _
  rw [field, member_removeMember (by decide), hroot]
  rfl

/-- The root of an overlay is what is selected. -/
theorem storageAt_rooted {x : Option Json} (path : Str)
    (hx : ∀ ms, x = some (.object ms) → SortedKeys ms) :
    storageAt (mergeOption x (some (rooted path))) = .ok (.fs path) := by
  have ho : SortedKeys [("root".toList, Json.string path), ("type".toList, .string "fs")] :=
    List.pairwise_pair.mpr (show "root".toList < "type".toList by decide)
  obtain ⟨ms, heq, hms⟩ := storageAt_merge (x := x) ho rfl
  refine heq.trans (decodeVariant_fs ?_ ?_)
  · rcases hms with rfl | ⟨ms₀, hx₀, rfl⟩
    · exact ho
    · exact (hx ms₀ hx₀).mergeMembers _
  · rcases hms with rfl | ⟨ms₀, -, rfl⟩
    · rfl
    · rw [member_mergeMembers ho]
      cases member "root" ms₀ with
      | none => rfl
      | some old => exact congrArg some (mergeJson_of_not_object (.inr rfl))

/-! ## The error of an unknown type -/

/-- The failure, if any, is not that of an unknown type. -/
def Known {α : Type} (x : Except DecodeError α) : Prop :=
  ∀ name expected, x ≠ .error (.unknownVariant name expected)

theorem Known.bind {α β : Type} {x : Except DecodeError α} {f : α → Except DecodeError β}
    (hx : Known x) (hf : ∀ a, Known (f a)) : Known (x >>= f) := by
  cases x with
  | error e =>
      intro name expected heq
      exact hx name expected (congrArg Except.error (Except.error.inj heq))
  | ok a => exact hf a

theorem known_ok {α : Type} (a : α) : Known (.ok a) := by
  intro name expected heq
  cases heq

theorem known_readString (v : Json) : Known (Kind.readString v) := by
  intro name expected heq
  cases v with
  | string s => cases heq
  | _ => cases heq

theorem known_string (v : Json) : Known (Kind.string.read v) := known_readString v

theorem known_optional (v : Json) : Known ((Kind.optional .string).read v) := by
  intro name expected heq
  cases v with
  | null => cases heq
  | string s => cases heq
  | _ => cases heq

theorem known_forM {ε : Type} {f : ε → Except DecodeError PUnit} {l : List ε}
    (h : ∀ x ∈ l, Known (f x)) : Known (l.forM f) := by
  induction l with
  | nil => exact known_ok _
  | cons x l ih =>
      exact (h x List.mem_cons_self).bind fun _ => ih fun y hy => h y (List.mem_cons_of_mem x hy)

theorem known_visit {expecting : Str} {fields : List (Str × Kind)}
    (h : ∀ e ∈ fields, ∀ v, Known (e.2.read v)) : Known (visit expecting fields (.object m)) := by
  rw [visit]
  refine (known_forM fun e _ => ?_).bind fun _ => known_ok _
  cases hkey : fields.lookup e.1 with
  | none => exact known_ok _
  | some k =>
      intro name expected heq
      have hk := h _ (ServerConfig.mem_of_lookup hkey) e.2
      cases hread : k.read e.2 with
      | error e' =>
          simp only [hread, Except.map] at heq
          exact hk name expected (hread.trans (congrArg Except.error (Except.error.inj heq)))
      | ok x =>
          simp only [hread, Except.map] at heq
          cases heq

theorem known_field {k : Kind} {d : k.Carrier} {name : Str} (h : ∀ v, Known (k.read v)) :
    Known (field k d name m) := by
  rw [field]
  cases member name m with
  | none => exact known_ok _
  | some v => exact h v

theorem known_required {k : Kind} {missing : DecodeError} {name : Str}
    (h : ∀ v, Known (k.read v)) (hmissing : Known (.error missing : Except DecodeError k.Carrier)) :
    Known (required k missing name m) := by
  rw [required]
  cases member name m with
  | none => exact hmissing
  | some v => exact h v

theorem known_decodeVariant {tag : Str} (h : tag ∈ StorageBackendConfig.variants) :
    Known (StorageBackendConfig.decodeVariant tag (.object m)) := by
  simp only [StorageBackendConfig.variants, List.mem_cons, List.not_mem_nil, or_false] at h
  have hmissing (i : ℕ) (name : Str) : Known (.error
      (StorageBackendConfig.missingError (.object m) i name) : Except DecodeError Str) := by
    intro name' expected heq
    cases heq
  rcases h with rfl | rfl | rfl
  · exact (known_visit (by simpa [StorageBackendConfig.fsFields] using known_string)).bind fun _ =>
      (known_field known_string).bind fun _ => known_ok _
  · exact known_ok _
  · refine (known_visit ?_).bind fun _ => (known_required known_string (hmissing _ _)).bind fun _ =>
      (known_required known_string (hmissing _ _)).bind fun _ =>
        (known_field known_optional).bind fun _ => known_ok _
    simpa [StorageBackendConfig.s3Fields] using ⟨known_string, known_optional⟩

/-! ## When the two sources agree -/

theorem outcome_of_lacksIssuer {auth : AuthConfig} (h : lacksIssuer auth)
    (st : StorageBackendConfig) : outcome auth (.ok st) = .error (.invalid
      "auth.oidc_enabled=true but auth.oidc_issuer is not set (set JSS_OIDC_ISSUER)") := by
  rw [outcome, ServerConfig.validate]
  simp only [h.1, h.2, Option.isNone_none, Bool.and_self, if_true]

theorem outcome_of_not_lacksIssuer {auth : AuthConfig} (h : ¬lacksIssuer auth)
    {st : StorageBackendConfig}
    (hst : ∀ bucket region pathPrefix, st ≠ .s3 bucket region pathPrefix) :
    outcome auth (.ok st) = .ok st := by
  have hguard : (auth.oidcEnabled && auth.oidcIssuer.isNone) = false := by
    rw [Bool.eq_false_iff, Ne, Bool.and_eq_true, Option.isNone_iff_eq_none]
    exact h
  have hvalid : ServerConfig.validate { ServerConfig.default with auth := auth, storage := st } =
      .ok () := by
    unfold ServerConfig.validate
    cases st with
    | fs root => simp only [hguard, Bool.false_eq_true, if_false]
    | memory => simp only [hguard, Bool.false_eq_true, if_false]
    | s3 bucket region pathPrefix => exact absurd rfl (hst bucket region pathPrefix)
  rw [outcome, hvalid]

theorem eq_ok_of_outcome {auth : AuthConfig} {s : Except DecodeError StorageBackendConfig}
    {st : StorageBackendConfig} (h : outcome auth s = .ok st) : s = .ok st := by
  cases s with
  | error e => cases h
  | ok st' =>
      rw [outcome] at h
      split at h
      · cases h
      · exact congrArg Except.ok (Except.ok.inj h)

theorem exists_ok_of_outcome {auth : AuthConfig} {s : Except DecodeError StorageBackendConfig}
    {message : Str} (h : outcome auth s = .error (.invalid message)) : ∃ st, s = .ok st := by
  cases s with
  | error e => cases h
  | ok st => exact ⟨st, rfl⟩

theorem eq_error_of_outcome {auth : AuthConfig} {s : Except DecodeError StorageBackendConfig}
    {e : DecodeError} (h : outcome auth s = .error (.invalidShape e)) : s = .error e := by
  cases s with
  | error e' =>
      cases h
      rfl
  | ok st =>
      rw [outcome] at h
      split at h
      · cases h
      · cases h

/-- Two storage sections, of which the second selects no S3, end a load alike. -/
theorem outcome_eq_iff {auth : AuthConfig} {s s' : Except DecodeError StorageBackendConfig}
    (h : ∀ bucket region pathPrefix, s' ≠ .ok (.s3 bucket region pathPrefix)) :
    outcome auth s = outcome auth s' ↔
      s = s' ∨ lacksIssuer auth ∧ (∃ st, s = .ok st) ∧ ∃ st, s' = .ok st := by
  constructor
  · intro heq
    cases s' with
    | error e => exact .inl (eq_error_of_outcome heq)
    | ok st' =>
        by_cases hissuer : lacksIssuer auth
        · rw [outcome_of_lacksIssuer hissuer] at heq
          exact .inr ⟨hissuer, exists_ok_of_outcome heq, st', rfl⟩
        · rw [outcome_of_not_lacksIssuer hissuer fun b r p hst => h b r p (congrArg _ hst)] at heq
          exact .inl (eq_ok_of_outcome heq)
  · rintro (rfl | ⟨hissuer, ⟨st, rfl⟩, ⟨st', rfl⟩⟩)
    · rfl
    · rw [outcome_of_lacksIssuer hissuer, outcome_of_lacksIssuer hissuer]

/-- How the two loads end, given what the other sections decode to. -/
theorem selectAlike_iff_outcome {floorProduct : Str → UInt64 → Option UInt64} :
    SelectAlike floorProduct t storageType root ↔
      (∃ e, otherSections t = .error e) ∨ ∃ auth, otherSections t = .ok auth ∧
        outcome auth
            (storageAt (mergeOption (member "storage" t) (envStorage storageType root))) =
          outcome auth
            (storageAt (mergeOption (member "storage" t) (cliStorage storageType root))) := by
  obtain ⟨o, ho, honly⟩ := onlyStorage_env floorProduct storageType root
  obtain ⟨o', ho', honly'⟩ := onlyStorage_cli storageType root
  rw [SelectAlike, ho, ho', honly.loadOver, honly'.loadOver]
  cases otherSections t with
  | error e => simp
  | ok auth => simp [cliStorage]

theorem sortedKeys_storage (ht : (Json.object t).WellFormed) {ms : List (Str × Json)}
    (h : member "storage" t = some (.object ms)) : SortedKeys ms := by
  cases ht with
  | leaf hleaf => cases hleaf
  | object hsorted hmembers =>
      cases hmembers _ _ h with
      | leaf hleaf => cases hleaf
      | object hms _ => exact hms

theorem storageAt_cli_some (ht : (Json.object t).WellFormed) (path : Str) :
    storageAt (mergeOption (member "storage" t) (cliStorage storageType (some path))) =
      .ok (.fs path) := by
  rw [cliStorage_some]
  exact storageAt_rooted path fun _ h => sortedKeys_storage ht h

theorem storageAt_cli_none (x : Option Json) (h : given ∉ StorageBackendConfig.variants) :
    storageAt (mergeOption x (cliStorage (some given) none)) =
      .error (.unknownVariant given StorageBackendConfig.variants) := by
  rw [cliStorage_none]
  exact storageAt_unknown h

/-- Of the known types none but `fs` selects the filesystem with a root, and none fails as an
unknown one. -/
theorem storageAt_env_known {x : Option Json} (hword : toAsciiLowercase given ∈
    StorageBackendConfig.variants) (hsame : ¬SameOverlay (some given) root) :
    storageAt (mergeOption x (envStorage (some given) root)) ≠
      root.elim (.error (.unknownVariant given StorageBackendConfig.variants)) fun root =>
        .ok (.fs root) := by
  intro heq
  have hcases := hword
  simp only [StorageBackendConfig.variants, List.mem_cons, List.not_mem_nil, or_false] at hcases
  cases root with
  | none =>
      have htyped : envStorage (some given) none = some (typed (toAsciiLowercase given)) := by
        rcases hcases with h | h | h
        · rw [envStorage_fs h, h]
          rfl
        · rw [envStorage_memory h, h]
        · rw [envStorage_s3 h, h]
      obtain ⟨content, hcontent⟩ := exists_storageAt_typed x (toAsciiLowercase given)
      rw [htyped, hcontent] at heq
      exact known_decodeVariant hword _ _ heq
  | some path =>
      rcases hcases with h | h | h
      · exact hsame h
      · rw [envStorage_memory h, storageAt_memory] at heq
        cases heq
      · rw [envStorage_s3 h] at heq
        obtain ⟨bucket, region, pathPrefix, hst⟩ := storageAt_s3 heq
        cases hst

/-- The environment and the command line select alike when their overlays are the same, and
otherwise only where the lower layers decide. -/
theorem selectAlike_iff (floorProduct : Str → UInt64 → Option UInt64) (t : List (Str × Json))
    (ht : (Json.object t).WellFormed) (storageType root : Option Str) :
    SelectAlike floorProduct t storageType root ↔
      SameOverlay storageType root ∨ Moot t storageType root := by
  rw [selectAlike_iff_outcome]
  by_cases hsame : SameOverlay storageType root
  · refine iff_of_true ?_ (.inl hsame)
    rw [envStorage_eq_cliStorage hsame]
    cases hother : otherSections t with
    | error e => exact .inl ⟨e, rfl⟩
    | ok auth => exact .inr ⟨auth, rfl, rfl⟩
  rw [or_iff_right hsame]
  cases storageType with
  | none => exact absurd trivial hsame
  | some given =>
  have hcli : storageAt (mergeOption (member "storage" t) (cliStorage (some given) root)) =
      root.elim (.error (.unknownVariant given StorageBackendConfig.variants)) fun root =>
        .ok (.fs root) := by
    cases root with
    | none => exact storageAt_cli_none _ hsame
    | some path => exact storageAt_cli_some ht path
  have hnot : ∀ bucket region pathPrefix,
      storageAt (mergeOption (member "storage" t) (cliStorage (some given) root)) ≠
        .ok (.s3 bucket region pathPrefix) := by
    intro bucket region pathPrefix
    rw [hcli]
    cases root with
    | none => exact fun h => nomatch h
    | some path => exact fun h => nomatch h
  constructor
  · rintro (⟨e, hother⟩ | ⟨auth, hother, houtcome⟩)
    · exact .otherSection hother
    · rcases (outcome_eq_iff hnot).mp houtcome with heq | ⟨hissuer, ⟨st, hst⟩, ⟨st', hst'⟩⟩
      · rw [hcli] at heq
        have hunknown : toAsciiLowercase given ∉ StorageBackendConfig.variants :=
          fun hword => storageAt_env_known hword hsame heq
        rw [envStorage_unknown hunknown, mergeOption_none] at heq
        exact .lower rfl hunknown heq
      · refine .issuer hother hissuer ?_ hst
        cases root with
        | none =>
            rw [hcli] at hst'
            cases hst'
        | some path => rfl
  · intro hmoot
    cases hmoot with
    | otherSection hother => exact .inl ⟨_, hother⟩
    | @issuer auth st hother hissuer hroot hst =>
        obtain ⟨path, rfl⟩ := Option.isSome_iff_exists.mp hroot
        exact .inr ⟨auth, hother, (outcome_eq_iff hnot).mpr
          (.inr ⟨hissuer, ⟨st, hst⟩, ⟨_, hcli⟩⟩)⟩
    | lower htype hunknown hlower =>
        cases htype
        cases hother : otherSections t with
        | error e => exact .inl ⟨e, rfl⟩
        | ok auth =>
            refine .inr ⟨auth, rfl, ?_⟩
            rw [envStorage_unknown hunknown, mergeOption_none, hcli, hlower]

/-! ### The same type, given in two ways -/

theorem wellFormed_nil : (Json.object []).WellFormed := by
  refine .object List.Pairwise.nil fun k v h => ?_
  cases h

theorem selectAlike_iff_lowerCase :
    SelectAlike (fun _ _ => none) [] (some "FS") (some "/srv") ↔
      SameOverlay (some "FS") (some "/srv") ∨ Moot [] (some "FS") (some "/srv") :=
  selectAlike_iff (fun _ _ => none) [] wellFormed_nil (some "FS") (some "/srv")

/-- From the environment the type decides, and from the command line the root. -/
theorem not_selectAlike_memory :
    ¬SelectAlike (fun _ _ => none) [] (some "memory") (some "/srv") := by
  intro h
  have henv : (loadOver [] (envFrom (fun _ _ => none) (storageEnv (some "memory")
      (some "/srv")))).map (·.storage) = .ok .memory := rfl
  have hcli : (loadOver [] (storageArgs (some "memory") (some "/srv")).toOverlay).map (·.storage) =
      .ok (.fs "/srv") := rfl
  rw [SelectAlike, henv, hcli] at h
  cases h

/-! ## Loads -/

/-- The last source of a load goes over the tree of the sources before it. -/
theorem load_concat (around : Surroundings) (lower : List ConfigSource) (source : ConfigSource) :
    load around (lower ++ [source]) = (do
      let tree ← mergeSources around (.object []) lower
      let overlay ← resolveSource around source
      decodeTree (mergeJson tree overlay)) := by
  have hmerge (tree : Json) : mergeSources around tree (lower ++ [source]) = (do
      let tree ← mergeSources around tree lower
      let overlay ← resolveSource around source
      return mergeJson tree overlay) := by
    induction lower generalizing tree with
    | nil => rfl
    | cons s lower ih =>
        rw [List.cons_append, mergeSources, mergeSources]
        cases resolveSource around s with
        | error e => rfl
        | ok overlay => exact ih _
  have hlayers : (lower ++ [source]).isEmpty = false := by
    cases lower with
    | nil => rfl
    | cons s lower => rfl
  rw [load, hlayers]
  simp only [Bool.false_eq_true, if_false, hmerge]
  cases mergeSources around (.object []) lower with
  | error e => rfl
  | ok tree =>
      cases resolveSource around source with
      | error e => rfl
      | ok overlay => rfl

end Config

end SolidPod
