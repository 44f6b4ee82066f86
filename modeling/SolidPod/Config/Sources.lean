import SolidPod.Config.Schema
import SolidPod.Foundation.Numerals

/-!
# The sources of the configuration

The defaults, the configuration files, the environment and the command line each give a
tree. A load merges the trees in the order of the sources, decodes the result and
validates it. Reading a file into a value and multiplying floating-point numbers are
parameters.
-/

namespace SolidPod

open Foundation Str Json

namespace Config

/-! ## Values of environment variables -/

def trueWords : List Str := ["1", "true", "yes", "on"]

def falseWords : List Str := ["0", "false", "no", "off", ""]

def parseBool (s : Str) : Option Bool :=
  let word := toAsciiLowercase (trim s)
  if word ∈ trueWords then some true else if word ∈ falseWords then some false else none

def parseCsv (s : Str) : Json :=
  .array ((((s.splitOn ',').map trim).filter fun p => !p.isEmpty).map .string)

/-- The suffixes of a size in upper case, with their multipliers. -/
def multipliers : List (Str × UInt64) :=
  [("", 1), ("B", 1), ("KB", 1000), ("MB", 1000000), ("GB", 1000000000), ("TB", 1000000000000),
    ("KIB", 1024), ("MIB", 1048576), ("GIB", 1073741824), ("TIB", 1099511627776)]

/-- `floorProduct` is the product of a decimal number and a multiplier, rounded down, unless
it is not finite or leaves the range. -/
def parseSize (floorProduct : Str → UInt64 → Option UInt64) (s : Str) : Option UInt64 :=
  let trimmed := trim s
  let numPart := trimmed.takeWhile fun c => c.isDigit || c == '.'
  let suffix := (trim (trimmed.dropWhile fun c => c.isDigit || c == '.')).map Char.toUpper
  if numPart.isEmpty || decide (1 < numPart.count '.') || startsWith ['.'] numPart ||
      endsWith ['.'] numPart then none
  else (multipliers.lookup suffix).bind fun multiplier => floorProduct numPart multiplier

def text (s : Str) : Option Json := some (.string s)

def switch (s : Str) : Option Json := (parseBool s).map .bool

def csv (s : Str) : Option Json := some (parseCsv s)

def unsigned (bits : ℕ) (s : Str) : Option Json :=
  (parseUnsigned bits s).map fun n => .number (.posInt (UInt64.ofNat n))

def size (floorProduct : Str → UInt64 → Option UInt64) (s : Str) : Option Json :=
  (parseSize floorProduct s).map fun n => .number (.posInt n)

/-! ## The environment -/

/-- A setting of the environment: the first of its variables that is set, if it is readable. -/
structure Rule where
  key : Str
  names : List Str
  read : Str → Option Json

def Rule.value (get : Str → Option Str) (r : Rule) : Option Json :=
  (r.names.findSome? get).bind r.read

/-- The members that have a value, inserted one after the other. -/
def collect (entries : List (Str × Option Json)) : List (Str × Json) :=
  entries.foldl (fun m e => e.2.elim m fun v => insertMember e.1 v m) []

def rows (get : Str → Option Str) (rules : List Rule) : List (Str × Option Json) :=
  rules.map fun r => (r.key, r.value get)

/-- A section is left out if it has no members. -/
def nonEmpty (m : List (Str × Json)) : Option Json := if m.isEmpty then none else some (.object m)

/-- The tree of the sections of a table. -/
def tableTree (table : List (Str × List (Str × Option Json))) : Json :=
  .object (collect (table.map fun s => (s.1, nonEmpty (collect s.2))))

def serverRules : List Rule :=
  [⟨"host", ["JSS_HOST"], text⟩, ⟨"port", ["JSS_PORT"], unsigned 16⟩,
    ⟨"base_url", ["JSS_BASE_URL"], text⟩]

def authRules : List Rule :=
  [⟨"oidc_enabled", ["JSS_OIDC_ENABLED", "JSS_IDP"], switch⟩,
    ⟨"oidc_issuer", ["JSS_OIDC_ISSUER", "JSS_IDP_ISSUER"], text⟩,
    ⟨"nip98_enabled", ["JSS_NIP98_ENABLED"], switch⟩,
    ⟨"dpop_replay_ttl_seconds", ["JSS_DPOP_REPLAY_TTL_SECONDS"], unsigned 64⟩]

def notificationsRules : List Rule :=
  [⟨"ws2023_enabled", ["JSS_NOTIFICATIONS_WS2023"], switch⟩,
    ⟨"webhook2023_enabled", ["JSS_NOTIFICATIONS_WEBHOOK"], switch⟩,
    ⟨"legacy_solid_01_enabled", ["JSS_NOTIFICATIONS_LEGACY"], switch⟩]

def securityRules : List Rule :=
  [⟨"ssrf_allow_private", ["JSS_SSRF_ALLOW_PRIVATE"], switch⟩,
    ⟨"ssrf_allowlist", ["JSS_SSRF_ALLOWLIST"], csv⟩,
    ⟨"ssrf_denylist", ["JSS_SSRF_DENYLIST"], csv⟩,
    ⟨"dotfile_allowlist", ["JSS_DOTFILE_ALLOWLIST"], csv⟩,
    ⟨"acl_origin_enabled", ["JSS_ACL_ORIGIN_ENABLED"], switch⟩]

def quotaRule (floorProduct : Str → UInt64 → Option UInt64) : Rule :=
  ⟨"default_quota_bytes", ["JSS_DEFAULT_QUOTA", "JSS_QUOTA_DEFAULT_BYTES"], size floorProduct⟩

def extrasRules (floorProduct : Str → UInt64 → Option UInt64) : List Rule :=
  [⟨"conneg_enabled", ["JSS_CONNEG"], switch⟩,
    ⟨"cors_allowed_origins", ["JSS_CORS_ALLOWED_ORIGINS"], csv⟩,
    ⟨"max_body_size_bytes", ["JSS_MAX_BODY_SIZE", "JSS_MAX_REQUEST_BODY"], size floorProduct⟩,
    ⟨"max_acl_bytes", ["JSS_MAX_ACL_BYTES"], size floorProduct⟩,
    ⟨"rate_limit_writes_per_min", ["JSS_RATE_LIMIT_WRITES_PER_MIN"], unsigned 64⟩,
    ⟨"subdomains_enabled", ["JSS_SUBDOMAINS"], switch⟩,
    ⟨"base_domain", ["JSS_BASE_DOMAIN"], text⟩,
    ⟨"idp_enabled", ["JSS_IDP_ENABLED"], switch⟩,
    ⟨"invite_only", ["JSS_INVITE_ONLY"], switch⟩,
    ⟨"admin_key", ["JSS_ADMIN_KEY"], text⟩]

def masterRule : Rule := ⟨"", ["JSS_NOTIFICATIONS"], switch⟩

/-- The switches of the channels, or else the one for all of them. -/
def notificationsRows (get : Str → Option Str) : List (Str × Option Json) :=
  (rows get notificationsRules).map fun e => (e.1, e.2.or (masterRule.value get))

/-- The type decides what else is read. Without a type a root stands for the filesystem. -/
def storageRows (get : Str → Option Str) : List (Str × Option Json) :=
  let storageType := (get "JSS_STORAGE_TYPE").map toAsciiLowercase
  let storageRoot := (get "JSS_STORAGE_ROOT").or (get "JSS_ROOT")
  if storageType = some ("memory" : Str) then [("type", text "memory")]
  else if storageType = some ("s3" : Str) then
    [("type", text "s3"), ("bucket", (get "JSS_S3_BUCKET").bind text),
      ("region", (get "JSS_S3_REGION").bind text), ("prefix", (get "JSS_S3_PREFIX").bind text)]
  else if (storageType = some ("fs" : Str) ∨ storageType = none) ∧ storageRoot.isSome then
    [("type", text "fs"), ("root", storageRoot.bind text)]
  else if storageType = some ("fs" : Str) then [("type", text "fs")]
  else []

def envTable (floorProduct : Str → UInt64 → Option UInt64) (get : Str → Option Str) :
    List (Str × List (Str × Option Json)) :=
  [("server", rows get serverRules), ("storage", storageRows get), ("auth", rows get authRules),
    ("notifications", notificationsRows get),
    ("security", rows get (securityRules ++ [quotaRule floorProduct])),
    ("extras", rows get (extrasRules floorProduct))]

def envFrom (floorProduct : Str → UInt64 → Option UInt64) (get : Str → Option Str) : Json :=
  tableTree (envTable floorProduct get)

/-! ## The command line -/

structure CliArgs where
  host : Option Str
  port : Option UInt16
  baseUrl : Option Str
  storageRoot : Option Str
  storageType : Option Str
  oidcEnabled : Option Bool
  oidcIssuer : Option Str
  nip98Enabled : Option Bool
  baseDomain : Option Str
  subdomainsEnabled : Option Bool

namespace CliArgs

def serverRows (args : CliArgs) : List (Str × Option Json) :=
  [("host", args.host.map .string),
    ("port", args.port.map fun n => .number (.posInt n.toUInt64)),
    ("base_url", args.baseUrl.map .string)]

def storageRows (args : CliArgs) : List (Str × Option Json) :=
  [("type", args.storageType.map .string),
    ("type", args.storageRoot.map fun _ => .string "fs"), ("root", args.storageRoot.map .string)]

def authRows (args : CliArgs) : List (Str × Option Json) :=
  [("oidc_enabled", args.oidcEnabled.map .bool), ("oidc_issuer", args.oidcIssuer.map .string),
    ("nip98_enabled", args.nip98Enabled.map .bool)]

def extrasRows (args : CliArgs) : List (Str × Option Json) :=
  [("base_domain", args.baseDomain.map .string),
    ("subdomains_enabled", args.subdomainsEnabled.map .bool)]

def table (args : CliArgs) : List (Str × List (Str × Option Json)) :=
  [("server", args.serverRows), ("storage", args.storageRows), ("auth", args.authRows),
    ("extras", args.extrasRows)]

def toOverlay (args : CliArgs) : Json := tableTree args.table

end CliArgs

/-! ## Files -/

/-- The key below `server` of a member at the root of a flat file. -/
def rootKey (k : Str) : Option Str :=
  if k = "host" ∨ k = "port" ∨ k = "base_url" then some k
  else if k = "baseUrl" then some "base_url"
  else none

def otherKey (k : Str) : Option Str := if (rootKey k).isSome then none else some k

/-- The members of a map whose keys `f` keeps, under their new keys. -/
def rename (f : Str → Option Str) (init obj : List (Str × Json)) : List (Str × Json) :=
  obj.foldl (fun m e => (f e.1).elim m fun k => insertMember k e.2 m) init

def normaliseFileShape : Json → Json
  | .object obj =>
    if (member "server" obj).isSome then .object obj
    else
      let server := rename rootKey [] obj
      let remaining := rename otherKey [] obj
      let out := (nonEmpty server).elim [] fun v => insertMember "server" v []
      .object (rename some out remaining)
  | v => v

def typeName : Json → Str
  | .null => "null"
  | .bool _ => "bool"
  | .number _ => "number"
  | .string _ => "string"
  | .array _ => "array"
  | .object _ => "object"

/-! ## Loading -/

inductive ConfigSource where
  | defaults
  | file (path : Str)
  | envVars
  | cliOverlay (args : CliArgs)

inductive LoadError where
  | unreadable (e : PodError)
  | notObject (path found : Str)
  | invalidShape (e : DecodeError)
  | invalid (message : Str)
  deriving DecidableEq

/-- What a load reads from outside: the value in a file, and the variables. -/
structure Surroundings where
  files : Str → Except PodError Json
  env : Str → Option Str
  floorProduct : Str → UInt64 → Option UInt64

def loadFile (around : Surroundings) (path : Str) : Except LoadError Json :=
  match around.files path with
  | .error e => .error (.unreadable e)
  | .ok v =>
    if !v.isObject then .error (.notObject path (typeName v)) else .ok (normaliseFileShape v)

def resolveSource (around : Surroundings) : ConfigSource → Except LoadError Json
  | .defaults => .ok ServerConfig.default.serialize
  | .file path => loadFile around path
  | .envVars => .ok (envFrom around.floorProduct around.env)
  | .cliOverlay args => .ok args.toOverlay

/-- The trees of the sources, merged in order. -/
def mergeSources (around : Surroundings) (tree : Json) : List ConfigSource → Except LoadError Json
  | [] => .ok tree
  | source :: sources => do
    let overlay ← resolveSource around source
    mergeSources around (mergeJson tree overlay) sources

/-- The configuration of a merged tree. -/
def decodeTree (tree : Json) : Except LoadError ServerConfig :=
  match ServerConfig.decode tree with
  | .error e => .error (.invalidShape e)
  | .ok cfg =>
    match cfg.validate with
    | .error message => .error (.invalid message)
    | .ok () => .ok cfg

def load (around : Surroundings) (sources : List ConfigSource) : Except LoadError ServerConfig := do
  let sources := if sources.isEmpty then [.defaults] else sources
  decodeTree (← mergeSources around (.object []) sources)

end Config

end SolidPod
