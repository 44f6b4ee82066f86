import Mathlib.Algebra.Group.Nat.Defs
import SolidPod.Config.Merge
import SolidPod.Foundation.Fallible

/-!
# The schema of the configuration

Each section is decoded from an object, or from an array in the order of its fields.
A field that is missing has its default, and a member that is no field is ignored. The
storage is told by the member `type`.
-/

namespace SolidPod

open Foundation Json

namespace Config

/-- The error of a value that does not have the shape of its type. -/
inductive DecodeError where
  | invalidType (found : Json) (expected : Str)
  | invalidValue (found : Json) (expected : Str)
  | invalidLength (length : ℕ)
  | missingField (name : Str)
  | unknownVariant (name : Str) (expected : List Str)
  deriving DecidableEq

/-! ## The types of fields -/

inductive Kind where
  | bool | u16 | u64 | string | strings
  | optional (k : Kind)

namespace Kind

abbrev Carrier : Kind → Type
  | .bool => Bool
  | .u16 => UInt16
  | .u64 => UInt64
  | .string => Str
  | .strings => List Str
  | .optional k => Option k.Carrier

def readString : Json → Except DecodeError Str
  | .string s => .ok s
  | v => .error (.invalidType v "a string")

def readStrings : List Json → Except DecodeError (List Str)
  | [] => .ok []
  | v :: vs => do return (← readString v) :: (← readStrings vs)

def read : (k : Kind) → Json → Except DecodeError k.Carrier
  | .bool, .bool b => .ok b
  | .bool, v => .error (.invalidType v "a boolean")
  | .u16, .number (.posInt n) =>
    if n.toNat < 2 ^ 16 then .ok n.toUInt16 else .error (.invalidValue (.number (.posInt n)) "u16")
  | .u16, .number (.negInt n) => .error (.invalidValue (.number (.negInt n)) "u16")
  | .u16, v => .error (.invalidType v "u16")
  | .u64, .number (.posInt n) => .ok n
  | .u64, .number (.negInt n) => .error (.invalidValue (.number (.negInt n)) "u64")
  | .u64, v => .error (.invalidType v "u64")
  | .string, v => readString v
  | .strings, .array vs => readStrings vs
  | .strings, v => .error (.invalidType v "a sequence")
  | .optional _, .null => .ok none
  | .optional k, v => (k.read v).map some

def toJson : (k : Kind) → k.Carrier → Json
  | .bool, b => .bool b
  | .u16, n => .number (.posInt n.toUInt64)
  | .u64, n => .number (.posInt n)
  | .string, s => .string s
  | .strings, ss => .array (ss.map .string)
  | .optional _, none => .null
  | .optional k, some x => k.toJson x

end Kind

/-- The members of a section, once each field is found to be readable. -/
def visit (expecting : Str) (fields : List (Str × Kind)) :
    Json → Except DecodeError (List (Str × Json))
  | .object m => do
    m.forM fun e =>
      match fields.lookup e.1 with
      | some k => (k.read e.2).map fun _ => ()
      | none => .ok ()
    return m
  | .array vs => do
    (fields.zip vs).forM fun e => (e.1.2.read e.2).map fun _ => ()
    if fields.length < vs.length then
      throw (.invalidLength vs.length)
    return (fields.zip vs).map fun e => (e.1.1, e.2)
  | v => .error (.invalidType v expecting)

def field (k : Kind) (default : k.Carrier) (name : Str) (m : List (Str × Json)) :
    Except DecodeError k.Carrier :=
  match member name m with
  | some v => k.read v
  | none => .ok default

def required (k : Kind) (missing : DecodeError) (name : Str) (m : List (Str × Json)) :
    Except DecodeError k.Carrier :=
  match member name m with
  | some v => k.read v
  | none => .error missing

/-! ## The sections -/

structure ServerSection where
  host : Str
  port : UInt16
  baseUrl : Option Str
  deriving DecidableEq

namespace ServerSection

def default : ServerSection := ⟨"0.0.0.0", 3000, none⟩

def fields : List (Str × Kind) :=
  [("host", .string), ("port", .u16), ("base_url", .optional .string)]

def decode (v : Json) : Except DecodeError ServerSection := do
  let m ← visit "struct ServerSection" fields v
  return {
    host := ← field .string default.host "host" m
    port := ← field .u16 default.port "port" m
    baseUrl := ← field (.optional .string) none "base_url" m }

def members (c : ServerSection) : List (Str × Json) :=
  [("host", Kind.string.toJson c.host), ("port", Kind.u16.toJson c.port),
    ("base_url", (Kind.optional .string).toJson c.baseUrl)]

end ServerSection

structure AuthConfig where
  nip98Enabled : Bool
  oidcEnabled : Bool
  oidcIssuer : Option Str
  dpopReplayTtlSeconds : UInt64
  deriving DecidableEq

namespace AuthConfig

def default : AuthConfig := ⟨true, false, none, 300⟩

def fields : List (Str × Kind) :=
  [("nip98_enabled", .bool), ("oidc_enabled", .bool), ("oidc_issuer", .optional .string),
    ("dpop_replay_ttl_seconds", .u64)]

def decode (v : Json) : Except DecodeError AuthConfig := do
  let m ← visit "struct AuthConfig" fields v
  return {
    nip98Enabled := ← field .bool default.nip98Enabled "nip98_enabled" m
    oidcEnabled := ← field .bool default.oidcEnabled "oidc_enabled" m
    oidcIssuer := ← field (.optional .string) none "oidc_issuer" m
    dpopReplayTtlSeconds :=
      ← field .u64 default.dpopReplayTtlSeconds "dpop_replay_ttl_seconds" m }

def members (c : AuthConfig) : List (Str × Json) :=
  [("nip98_enabled", Kind.bool.toJson c.nip98Enabled),
    ("oidc_enabled", Kind.bool.toJson c.oidcEnabled),
    ("oidc_issuer", (Kind.optional .string).toJson c.oidcIssuer),
    ("dpop_replay_ttl_seconds", Kind.u64.toJson c.dpopReplayTtlSeconds)]

end AuthConfig

structure NotificationsConfig where
  ws2023Enabled : Bool
  webhook2023Enabled : Bool
  legacySolid01Enabled : Bool
  deriving DecidableEq

namespace NotificationsConfig

def default : NotificationsConfig := ⟨true, false, true⟩

def fields : List (Str × Kind) :=
  [("ws2023_enabled", .bool), ("webhook2023_enabled", .bool),
    ("legacy_solid_01_enabled", .bool)]

def decode (v : Json) : Except DecodeError NotificationsConfig := do
  let m ← visit "struct NotificationsConfig" fields v
  return {
    ws2023Enabled := ← field .bool default.ws2023Enabled "ws2023_enabled" m
    webhook2023Enabled := ← field .bool default.webhook2023Enabled "webhook2023_enabled" m
    legacySolid01Enabled :=
      ← field .bool default.legacySolid01Enabled "legacy_solid_01_enabled" m }

def members (c : NotificationsConfig) : List (Str × Json) :=
  [("ws2023_enabled", Kind.bool.toJson c.ws2023Enabled),
    ("webhook2023_enabled", Kind.bool.toJson c.webhook2023Enabled),
    ("legacy_solid_01_enabled", Kind.bool.toJson c.legacySolid01Enabled)]

end NotificationsConfig

structure SecurityConfig where
  ssrfAllowPrivate : Bool
  ssrfAllowlist : List Str
  ssrfDenylist : List Str
  dotfileAllowlist : List Str
  aclOriginEnabled : Bool
  deriving DecidableEq

namespace SecurityConfig

def defaultDotfileAllowlist : List Str := [".acl", ".meta", ".account"]

def default : SecurityConfig := ⟨false, [], [], defaultDotfileAllowlist, true⟩

def fields : List (Str × Kind) :=
  [("ssrf_allow_private", .bool), ("ssrf_allowlist", .strings), ("ssrf_denylist", .strings),
    ("dotfile_allowlist", .strings), ("acl_origin_enabled", .bool)]

def decode (v : Json) : Except DecodeError SecurityConfig := do
  let m ← visit "struct SecurityConfig" fields v
  return {
    ssrfAllowPrivate := ← field .bool default.ssrfAllowPrivate "ssrf_allow_private" m
    ssrfAllowlist := ← field .strings default.ssrfAllowlist "ssrf_allowlist" m
    ssrfDenylist := ← field .strings default.ssrfDenylist "ssrf_denylist" m
    dotfileAllowlist := ← field .strings default.dotfileAllowlist "dotfile_allowlist" m
    aclOriginEnabled := ← field .bool default.aclOriginEnabled "acl_origin_enabled" m }

def members (c : SecurityConfig) : List (Str × Json) :=
  [("ssrf_allow_private", Kind.bool.toJson c.ssrfAllowPrivate),
    ("ssrf_allowlist", Kind.strings.toJson c.ssrfAllowlist),
    ("ssrf_denylist", Kind.strings.toJson c.ssrfDenylist),
    ("dotfile_allowlist", Kind.strings.toJson c.dotfileAllowlist),
    ("acl_origin_enabled", Kind.bool.toJson c.aclOriginEnabled)]

end SecurityConfig

structure ExtrasConfig where
  connegEnabled : Option Bool
  corsAllowedOrigins : List Str
  maxBodySizeBytes : Option UInt64
  maxAclBytes : Option UInt64
  rateLimitWritesPerMin : Option UInt64
  subdomainsEnabled : Option Bool
  baseDomain : Option Str
  idpEnabled : Option Bool
  inviteOnly : Option Bool
  adminKey : Option Str
  deriving DecidableEq

namespace ExtrasConfig

def default : ExtrasConfig := ⟨none, [], none, none, none, none, none, none, none, none⟩

def fields : List (Str × Kind) :=
  [("conneg_enabled", .optional .bool), ("cors_allowed_origins", .strings),
    ("max_body_size_bytes", .optional .u64), ("max_acl_bytes", .optional .u64),
    ("rate_limit_writes_per_min", .optional .u64), ("subdomains_enabled", .optional .bool),
    ("base_domain", .optional .string), ("idp_enabled", .optional .bool),
    ("invite_only", .optional .bool), ("admin_key", .optional .string)]

def decode (v : Json) : Except DecodeError ExtrasConfig := do
  let m ← visit "struct ExtrasConfig" fields v
  return {
    connegEnabled := ← field (.optional .bool) none "conneg_enabled" m
    corsAllowedOrigins := ← field .strings [] "cors_allowed_origins" m
    maxBodySizeBytes := ← field (.optional .u64) none "max_body_size_bytes" m
    maxAclBytes := ← field (.optional .u64) none "max_acl_bytes" m
    rateLimitWritesPerMin := ← field (.optional .u64) none "rate_limit_writes_per_min" m
    subdomainsEnabled := ← field (.optional .bool) none "subdomains_enabled" m
    baseDomain := ← field (.optional .string) none "base_domain" m
    idpEnabled := ← field (.optional .bool) none "idp_enabled" m
    inviteOnly := ← field (.optional .bool) none "invite_only" m
    adminKey := ← field (.optional .string) none "admin_key" m }

def members (c : ExtrasConfig) : List (Str × Json) :=
  [("conneg_enabled", (Kind.optional .bool).toJson c.connegEnabled),
    ("cors_allowed_origins", Kind.strings.toJson c.corsAllowedOrigins),
    ("max_body_size_bytes", (Kind.optional .u64).toJson c.maxBodySizeBytes),
    ("max_acl_bytes", (Kind.optional .u64).toJson c.maxAclBytes),
    ("rate_limit_writes_per_min", (Kind.optional .u64).toJson c.rateLimitWritesPerMin),
    ("subdomains_enabled", (Kind.optional .bool).toJson c.subdomainsEnabled),
    ("base_domain", (Kind.optional .string).toJson c.baseDomain),
    ("idp_enabled", (Kind.optional .bool).toJson c.idpEnabled),
    ("invite_only", (Kind.optional .bool).toJson c.inviteOnly),
    ("admin_key", (Kind.optional .string).toJson c.adminKey)]

end ExtrasConfig

inductive StorageBackendConfig where
  | fs (root : Str)
  | memory
  | s3 (bucket region : Str) (pathPrefix : Option Str)
  deriving DecidableEq

namespace StorageBackendConfig

def defaultFsRoot : Str := "./data"

def default : StorageBackendConfig := .fs defaultFsRoot

def variants : List Str := ["fs", "memory", "s3"]

def fsFields : List (Str × Kind) := [("root", .string)]

def s3Fields : List (Str × Kind) :=
  [("bucket", .string), ("region", .string), ("prefix", .optional .string)]

/-- The error of a missing field, the one at position `i` where the content is an array. -/
def missingError (content : Json) (i : ℕ) (name : Str) : DecodeError :=
  match content with
  | .array _ => .invalidLength i
  | _ => .missingField name

/-- The variant of a tag, from what stands beside the tag. -/
def decodeVariant (tag : Str) (content : Json) : Except DecodeError StorageBackendConfig :=
  if tag = "fs" then do
    let m ← visit "struct variant StorageBackendConfig::Fs" fsFields content
    return .fs (← field .string defaultFsRoot "root" m)
  else if tag = "memory" then
    match content with
    | .array (v :: vs) => .error (.invalidLength (v :: vs).length)
    | _ => .ok .memory
  else if tag = "s3" then do
    let m ← visit "struct variant StorageBackendConfig::S3" s3Fields content
    return .s3 (← required .string (missingError content 0 "bucket") "bucket" m)
      (← required .string (missingError content 1 "region") "region" m)
      (← field (.optional .string) none "prefix" m)
  else .error (.unknownVariant tag variants)

def decode : Json → Except DecodeError StorageBackendConfig
  | .object m =>
    match member "type" m with
    | some tag => do decodeVariant (← Kind.readString tag) (.object (removeMember "type" m))
    | none => .error (.missingField "type")
  | .array (tag :: vs) => do decodeVariant (← Kind.readString tag) (.array vs)
  | .array [] => .error (.missingField "type")
  | v => .error (.invalidType v "internally tagged enum StorageBackendConfig")

def members : StorageBackendConfig → List (Str × Json)
  | .fs root => [("type", .string "fs"), ("root", .string root)]
  | .memory => [("type", .string "memory")]
  | .s3 bucket region pathPrefix =>
    [("type", .string "s3"), ("bucket", .string bucket), ("region", .string region),
      ("prefix", (Kind.optional .string).toJson pathPrefix)]

end StorageBackendConfig

/-! ## The whole configuration -/

structure ServerConfig where
  server : ServerSection
  storage : StorageBackendConfig
  auth : AuthConfig
  notifications : NotificationsConfig
  security : SecurityConfig
  extras : ExtrasConfig
  deriving DecidableEq

namespace ServerConfig

def default : ServerConfig :=
  ⟨.default, .default, .default, .default, .default, .default⟩

/-- A section under its key, or its default. -/
def sectionAt {α : Type} (decode : Json → Except DecodeError α) (default : α) (key : Str)
    (m : List (Str × Json)) : Except DecodeError α :=
  match member key m with
  | some v => decode v
  | none => .ok default

/-- The members come in the order of their keys. The tree of a load is always an object. -/
def decode : Json → Except DecodeError ServerConfig
  | .object m => do
    let auth ← sectionAt AuthConfig.decode .default "auth" m
    let extras ← sectionAt ExtrasConfig.decode .default "extras" m
    let notifications ← sectionAt NotificationsConfig.decode .default "notifications" m
    let security ← sectionAt SecurityConfig.decode .default "security" m
    let server ← sectionAt ServerSection.decode .default "server" m
    let storage ← sectionAt StorageBackendConfig.decode .default "storage" m
    return { server, storage, auth, notifications, security, extras }
  | v => .error (.invalidType v "struct ServerConfig")

/-- The members of each section as they are written, none left out. -/
def sections (c : ServerConfig) : List (Str × List (Str × Json)) :=
  [("server", c.server.members), ("storage", c.storage.members), ("auth", c.auth.members),
    ("notifications", c.notifications.members), ("security", c.security.members),
    ("extras", c.extras.members)]

/-- Written out, a field without a value is left out, as is an empty list of origins. -/
def isSkipped (key : Str) (e : Str × Json) : Bool :=
  e.2 = .null || (key = "extras" && e.2 = .array [])

def serialize (c : ServerConfig) : Json :=
  ofMembers (c.sections.map fun s => (s.1, ofMembers (s.2.filter fun e => !isSkipped s.1 e)))

def validate (c : ServerConfig) : Except Str Unit :=
  if c.auth.oidcEnabled && c.auth.oidcIssuer.isNone then
    .error "auth.oidc_enabled=true but auth.oidc_issuer is not set (set JSS_OIDC_ISSUER)"
  else
    match c.storage with
    | .s3 bucket region _ =>
      if bucket.isEmpty then .error "storage.type=s3 but storage.bucket is empty"
      else if region.isEmpty then .error "storage.type=s3 but storage.region is empty"
      else .ok ()
    | _ => .ok ()

/-- The value of a setting, by its section and its key there. -/
def value (c : ServerConfig) (section_ key : Str) : Option Json :=
  (c.sections.lookup section_).bind fun m => member key m

end ServerConfig

/-! ## What is decoded is what was given -/

theorem Kind.map_string_readStrings {vs : List Json} {ss : List Str}
    (h : Kind.readStrings vs = .ok ss) : ss.map .string = vs := by
  induction vs generalizing ss with
  | nil =>
      cases h
      rfl
  | cons v vs ih =>
      rw [Kind.readStrings] at h
      obtain ⟨s, hs, h⟩ := Fallible.bind_eq_ok_iff.mp h
      obtain ⟨rest, hrest, h⟩ := Fallible.bind_eq_ok_iff.mp h
      cases h
      cases v with
      | string t =>
          cases hs
          rw [List.map_cons, ih hrest]
      | _ => cases hs

theorem Kind.toJson_of_read {k : Kind} {v : Json} {x : k.Carrier} (h : k.read v = .ok x) :
    k.toJson x = v := by
  induction k generalizing v with
  | bool =>
      cases v with
      | bool b =>
          cases h
          rfl
      | _ => cases h
  | u16 =>
      cases v with
      | number n =>
          cases n with
          | posInt n =>
              rw [Kind.read] at h
              split_ifs at h with hn
              cases h
              refine congrArg (fun n => Json.number (.posInt n)) (UInt64.toNat_inj.mp ?_)
              rw [UInt16.toNat_toUInt64, UInt64.toNat_toUInt16, Nat.mod_eq_of_lt hn]
          | _ => cases h
      | _ => cases h
  | u64 =>
      cases v with
      | number n =>
          cases n with
          | posInt n =>
              cases h
              rfl
          | _ => cases h
      | _ => cases h
  | string =>
      cases v with
      | string s =>
          cases h
          rfl
      | _ => cases h
  | strings =>
      cases v with
      | array vs => exact congrArg Json.array (Kind.map_string_readStrings h)
      | _ => cases h
  | optional k ih =>
      cases v with
      | null =>
          cases h
          rfl
      | _ =>
          obtain ⟨y, hy, rfl⟩ := Fallible.map_eq_ok_iff.mp h
          exact ih hy

theorem visit_object {expecting : Str} {fields : List (Str × Kind)} {m m' : List (Str × Json)}
    (h : visit expecting fields (.object m) = .ok m') : m' = m := by
  rw [visit] at h
  obtain ⟨-, -, h⟩ := Fallible.bind_eq_ok_iff.mp h
  cases h
  rfl

theorem toJson_of_field {k : Kind} {d x : k.Carrier} {name : Str} {m : List (Str × Json)}
    (h : field k d name m = .ok x) : k.toJson x = (member name m).getD (k.toJson d) := by
  rw [field] at h
  cases hm : member name m with
  | none =>
      rw [hm] at h
      cases h
      rfl
  | some v =>
      rw [hm] at h
      exact Kind.toJson_of_read h

theorem toJson_of_required {k : Kind} {missing : DecodeError} {x : k.Carrier} {name : Str}
    {m : List (Str × Json)} (h : required k missing name m = .ok x) :
    member name m = some (k.toJson x) := by
  rw [required] at h
  cases hm : member name m with
  | none =>
      rw [hm] at h
      cases h
  | some v =>
      rw [hm] at h
      rw [Kind.toJson_of_read h]

/-- Each member of `written` is the one of `m`, or else the default one. -/
def Follows (m defaults written : List (Str × Json)) : Prop :=
  ∀ e ∈ written, e.2 = (member e.1 m).getD ((member e.1 defaults).getD .null)

theorem ServerSection.follows_decode {m : List (Str × Json)} {c : ServerSection}
    (h : ServerSection.decode (.object m) = .ok c) :
    Follows m ServerSection.default.members c.members := by
  rw [ServerSection.decode] at h
  obtain ⟨m', hm, h⟩ := Fallible.bind_eq_ok_iff.mp h
  obtain ⟨host, hhost, h⟩ := Fallible.bind_eq_ok_iff.mp h
  obtain ⟨port, hport, h⟩ := Fallible.bind_eq_ok_iff.mp h
  obtain ⟨baseUrl, hbaseUrl, h⟩ := Fallible.bind_eq_ok_iff.mp h
  cases h
  cases visit_object hm
  rw [Follows, ServerSection.members]
  simp only [List.forall_mem_cons, List.not_mem_nil, IsEmpty.forall_iff, implies_true, and_true]
  exact ⟨toJson_of_field hhost, toJson_of_field hport, toJson_of_field hbaseUrl⟩

theorem AuthConfig.follows_decode {m : List (Str × Json)} {c : AuthConfig}
    (h : AuthConfig.decode (.object m) = .ok c) :
    Follows m AuthConfig.default.members c.members := by
  rw [AuthConfig.decode] at h
  obtain ⟨m', hm, h⟩ := Fallible.bind_eq_ok_iff.mp h
  obtain ⟨nip98, hnip98, h⟩ := Fallible.bind_eq_ok_iff.mp h
  obtain ⟨oidc, hoidc, h⟩ := Fallible.bind_eq_ok_iff.mp h
  obtain ⟨issuer, hissuer, h⟩ := Fallible.bind_eq_ok_iff.mp h
  obtain ⟨ttl, httl, h⟩ := Fallible.bind_eq_ok_iff.mp h
  cases h
  cases visit_object hm
  rw [Follows, AuthConfig.members]
  simp only [List.forall_mem_cons, List.not_mem_nil, IsEmpty.forall_iff, implies_true, and_true]
  exact ⟨toJson_of_field hnip98, toJson_of_field hoidc, toJson_of_field hissuer,
    toJson_of_field httl⟩

theorem NotificationsConfig.follows_decode {m : List (Str × Json)} {c : NotificationsConfig}
    (h : NotificationsConfig.decode (.object m) = .ok c) :
    Follows m NotificationsConfig.default.members c.members := by
  rw [NotificationsConfig.decode] at h
  obtain ⟨m', hm, h⟩ := Fallible.bind_eq_ok_iff.mp h
  obtain ⟨ws2023, hws2023, h⟩ := Fallible.bind_eq_ok_iff.mp h
  obtain ⟨webhook, hwebhook, h⟩ := Fallible.bind_eq_ok_iff.mp h
  obtain ⟨legacy, hlegacy, h⟩ := Fallible.bind_eq_ok_iff.mp h
  cases h
  cases visit_object hm
  rw [Follows, NotificationsConfig.members]
  simp only [List.forall_mem_cons, List.not_mem_nil, IsEmpty.forall_iff, implies_true, and_true]
  exact ⟨toJson_of_field hws2023, toJson_of_field hwebhook, toJson_of_field hlegacy⟩

theorem SecurityConfig.follows_decode {m : List (Str × Json)} {c : SecurityConfig}
    (h : SecurityConfig.decode (.object m) = .ok c) :
    Follows m SecurityConfig.default.members c.members := by
  rw [SecurityConfig.decode] at h
  obtain ⟨m', hm, h⟩ := Fallible.bind_eq_ok_iff.mp h
  obtain ⟨allowPrivate, hallowPrivate, h⟩ := Fallible.bind_eq_ok_iff.mp h
  obtain ⟨allowlist, hallowlist, h⟩ := Fallible.bind_eq_ok_iff.mp h
  obtain ⟨denylist, hdenylist, h⟩ := Fallible.bind_eq_ok_iff.mp h
  obtain ⟨dotfiles, hdotfiles, h⟩ := Fallible.bind_eq_ok_iff.mp h
  obtain ⟨origin, horigin, h⟩ := Fallible.bind_eq_ok_iff.mp h
  cases h
  cases visit_object hm
  rw [Follows, SecurityConfig.members]
  simp only [List.forall_mem_cons, List.not_mem_nil, IsEmpty.forall_iff, implies_true, and_true]
  exact ⟨toJson_of_field hallowPrivate, toJson_of_field hallowlist, toJson_of_field hdenylist,
    toJson_of_field hdotfiles, toJson_of_field horigin⟩

theorem ExtrasConfig.follows_decode {m : List (Str × Json)} {c : ExtrasConfig}
    (h : ExtrasConfig.decode (.object m) = .ok c) :
    Follows m ExtrasConfig.default.members c.members := by
  rw [ExtrasConfig.decode] at h
  obtain ⟨m', hm, h⟩ := Fallible.bind_eq_ok_iff.mp h
  obtain ⟨conneg, hconneg, h⟩ := Fallible.bind_eq_ok_iff.mp h
  obtain ⟨cors, hcors, h⟩ := Fallible.bind_eq_ok_iff.mp h
  obtain ⟨body, hbody, h⟩ := Fallible.bind_eq_ok_iff.mp h
  obtain ⟨acl, hacl, h⟩ := Fallible.bind_eq_ok_iff.mp h
  obtain ⟨rate, hrate, h⟩ := Fallible.bind_eq_ok_iff.mp h
  obtain ⟨subdomains, hsubdomains, h⟩ := Fallible.bind_eq_ok_iff.mp h
  obtain ⟨domain, hdomain, h⟩ := Fallible.bind_eq_ok_iff.mp h
  obtain ⟨idp, hidp, h⟩ := Fallible.bind_eq_ok_iff.mp h
  obtain ⟨invite, hinvite, h⟩ := Fallible.bind_eq_ok_iff.mp h
  obtain ⟨admin, hadmin, h⟩ := Fallible.bind_eq_ok_iff.mp h
  cases h
  cases visit_object hm
  rw [Follows, ExtrasConfig.members]
  simp only [List.forall_mem_cons, List.not_mem_nil, IsEmpty.forall_iff, implies_true, and_true]
  exact ⟨toJson_of_field hconneg, toJson_of_field hcors, toJson_of_field hbody,
    toJson_of_field hacl, toJson_of_field hrate, toJson_of_field hsubdomains,
    toJson_of_field hdomain, toJson_of_field hidp, toJson_of_field hinvite, toJson_of_field hadmin⟩

theorem member_removeMember {key other : Str} {m : List (Str × Json)} (h : other ≠ key) :
    member other (removeMember key m) = member other m := by
  induction m with
  | nil => rfl
  | cons e m ih =>
      obtain ⟨k, v⟩ := e
      rw [member_cons, removeMember, List.filter_cons]
      by_cases hk : k = key
      · rw [if_neg (by simpa using hk), if_neg (by rw [hk]; exact h)]
        exact ih
      · rw [if_pos (by simpa using hk), member_cons]
        exact congrArg _ ih

theorem StorageBackendConfig.follows_decodeVariant {m : List (Str × Json)} {tag : Str}
    {c : StorageBackendConfig} (htag : member "type" m = some (.string tag))
    (h : decodeVariant tag (.object (removeMember "type" m)) = .ok c) :
    Follows m StorageBackendConfig.default.members c.members := by
  unfold decodeVariant at h
  split_ifs at h with hfs hmemory hs3
  · obtain ⟨m', hm, h⟩ := Fallible.bind_eq_ok_iff.mp h
    obtain ⟨root, hroot, h⟩ := Fallible.bind_eq_ok_iff.mp h
    cases h
    cases visit_object hm
    have hroot := toJson_of_field hroot
    rw [member_removeMember (by decide)] at hroot
    rw [Follows, StorageBackendConfig.members]
    simp only [List.forall_mem_cons, List.not_mem_nil, IsEmpty.forall_iff, implies_true, and_true,
      htag, hfs]
    exact ⟨rfl, hroot⟩
  · cases h
    rw [Follows, StorageBackendConfig.members]
    simp only [List.forall_mem_cons, List.not_mem_nil, IsEmpty.forall_iff, implies_true, and_true,
      htag, hmemory]
    rfl
  · obtain ⟨m', hm, h⟩ := Fallible.bind_eq_ok_iff.mp h
    obtain ⟨bucket, hbucket, h⟩ := Fallible.bind_eq_ok_iff.mp h
    obtain ⟨region, hregion, h⟩ := Fallible.bind_eq_ok_iff.mp h
    obtain ⟨pathPrefix, hpathPrefix, h⟩ := Fallible.bind_eq_ok_iff.mp h
    cases h
    cases visit_object hm
    have hbucket := toJson_of_required hbucket
    have hregion := toJson_of_required hregion
    have hpathPrefix := toJson_of_field hpathPrefix
    rw [member_removeMember (by decide)] at hbucket hregion hpathPrefix
    rw [Follows, StorageBackendConfig.members]
    simp only [List.forall_mem_cons, List.not_mem_nil, IsEmpty.forall_iff, implies_true, and_true,
      htag, hs3, hbucket, hregion]
    exact ⟨rfl, rfl, rfl, hpathPrefix⟩

theorem StorageBackendConfig.follows_decode {m : List (Str × Json)} {c : StorageBackendConfig}
    (h : StorageBackendConfig.decode (.object m) = .ok c) :
    Follows m StorageBackendConfig.default.members c.members := by
  rw [decode] at h
  cases htype : member "type" m with
  | none =>
      rw [htype] at h
      cases h
  | some tag =>
      rw [htype] at h
      obtain ⟨name, hname, h⟩ := Fallible.bind_eq_ok_iff.mp h
      cases tag with
      | string name' =>
          cases hname
          exact follows_decodeVariant htype h
      | _ => cases hname

/-! ## The value of a setting -/

namespace ServerConfig

/-- Each section that the tree has is an object. -/
def Sectioned (m : List (Str × Json)) : Prop :=
  ∀ key v, key ∈ default.sections.map Prod.fst → member key m = some v → v.isObject = true

/-- The value of a setting in a tree. -/
def valueIn (m : List (Str × Json)) (section_ key : Str) : Option Json :=
  place [section_, key] (.object m)

theorem follows_sectionAt {α : Type} {decode : Json → Except DecodeError α} {d c : α}
    {written : α → List (Str × Json)} {m : List (Str × Json)} {key : Str}
    (hdecode : ∀ {m : List (Str × Json)} {c : α}, decode (.object m) = .ok c →
      Follows m (written d) (written c))
    (hself : ∀ e ∈ written d, e.2 = (member e.1 (written d)).getD .null)
    (hobject : ∀ v, member key m = some v → v.isObject = true)
    (h : sectionAt decode d key m = .ok c) :
    ∀ e ∈ written c, e.2 = (valueIn m key e.1).getD ((member e.1 (written d)).getD .null) := by
  rw [sectionAt] at h
  cases hm : member key m with
  | none =>
      rw [hm] at h
      cases h
      intro e he
      rw [valueIn, place, hm]
      exact hself e he
  | some v =>
      rw [hm] at h
      obtain ⟨m', rfl⟩ := exists_of_isObject (hobject v hm)
      intro e he
      have hvalue : valueIn m key e.1 = member e.1 m' := by
        rw [valueIn, place, hm, Option.bind_some, place]
        cases member e.1 m' with
        | none => rfl
        | some v => rfl
      rw [hvalue]
      exact hdecode h e he

theorem mem_of_lookup {α : Type} {key : Str} {v : α} {m : List (Str × α)}
    (h : m.lookup key = some v) : (key, v) ∈ m := by
  obtain ⟨front, back, rfl, -⟩ := List.lookup_eq_some_iff.mp h
  exact List.mem_append_right _ List.mem_cons_self

/-- A setting has the value that the tree has for it, or its default. -/
theorem value_of_decode {m : List (Str × Json)} {c : ServerConfig} {section_ key : Str} {w : Json}
    (h : decode (.object m) = .ok c) (hsectioned : Sectioned m)
    (hvalue : c.value section_ key = some w) :
    w = (valueIn m section_ key).getD ((default.value section_ key).getD .null) := by
  rw [decode] at h
  obtain ⟨auth, hauth, h⟩ := Fallible.bind_eq_ok_iff.mp h
  obtain ⟨extras, hextras, h⟩ := Fallible.bind_eq_ok_iff.mp h
  obtain ⟨notifications, hnotifications, h⟩ := Fallible.bind_eq_ok_iff.mp h
  obtain ⟨security, hsecurity, h⟩ := Fallible.bind_eq_ok_iff.mp h
  obtain ⟨server, hserver, h⟩ := Fallible.bind_eq_ok_iff.mp h
  obtain ⟨storage, hstorage, h⟩ := Fallible.bind_eq_ok_iff.mp h
  cases h
  obtain ⟨written, hwritten, hw⟩ := Option.bind_eq_some_iff.mp hvalue
  have hmem := mem_of_lookup hwritten
  have hw := mem_of_lookup hw
  simp only [sections, List.mem_cons, List.not_mem_nil, or_false, Prod.mk.injEq] at hmem
  rcases hmem with ⟨rfl, rfl⟩ | ⟨rfl, rfl⟩ | ⟨rfl, rfl⟩ | ⟨rfl, rfl⟩ | ⟨rfl, rfl⟩ | ⟨rfl, rfl⟩
  · exact follows_sectionAt ServerSection.follows_decode (by decide)
      (fun v => hsectioned _ v (by decide)) hserver _ hw
  · exact follows_sectionAt StorageBackendConfig.follows_decode (by decide)
      (fun v => hsectioned _ v (by decide)) hstorage _ hw
  · exact follows_sectionAt AuthConfig.follows_decode (by decide)
      (fun v => hsectioned _ v (by decide)) hauth _ hw
  · exact follows_sectionAt NotificationsConfig.follows_decode (by decide)
      (fun v => hsectioned _ v (by decide)) hnotifications _ hw
  · exact follows_sectionAt SecurityConfig.follows_decode (by decide)
      (fun v => hsectioned _ v (by decide)) hsecurity _ hw
  · exact follows_sectionAt ExtrasConfig.follows_decode (by decide)
      (fun v => hsectioned _ v (by decide)) hextras _ hw

end ServerConfig

end Config

end SolidPod
