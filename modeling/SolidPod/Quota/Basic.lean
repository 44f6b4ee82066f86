import SolidPod.Foundation.Utf8

/-!
# The quota sidecar

Each pod has a file `.quota.json` with the bytes it uses and its limit.
`check` asks whether a write would go over the limit, `record` counts a write,
and `reconcile` counts the files of the pod anew. A sidecar that cannot be
parsed is an error for the last one, and a pod without a sidecar for the others.
-/

namespace SolidPod

open Foundation

namespace Quota

structure QuotaUsage where
  usedBytes : UInt64
  limitBytes : UInt64
  deriving DecidableEq

/-- How the JSON library writes and reads a sidecar. -/
structure QuotaCodec where
  toVecPretty : QuotaUsage → Bytes
  fromSlice : Bytes → Option QuotaUsage
  fromSlice_toVecPretty : ∀ u, fromSlice (toVecPretty u) = some u

structure QuotaExceeded where
  pod : Str
  used : UInt64
  limit : UInt64
  deriving DecidableEq

/-- What a directory entry is; a link or a device is neither file nor directory. -/
inductive DiskNode where
  | file (len : Nat)
  | dir (entries : List (Str × DiskNode))
  | other

/-- The sidecar of a pod, if there is one, and the other entries of its directory. -/
structure Pod where
  sidecar : Option Bytes
  disk : List (Str × DiskNode)

inductive IoError where
  | invalidData
  deriving DecidableEq

def maxU64 : Nat := UInt64.size - 1

def saturatingAdd (a : UInt64) (n : Nat) : UInt64 := .ofNat (min (a.toNat + n) maxU64)

def saturatingSub (a : UInt64) (n : Nat) : UInt64 := .ofNat (a.toNat - n)

theorem toNat_saturatingAdd (a : UInt64) (n : Nat) :
    (saturatingAdd a n).toNat = min (a.toNat + n) maxU64 := by
  rw [saturatingAdd, UInt64.toNat_ofNat_of_lt']
  exact lt_of_le_of_lt (Nat.min_le_right _ _) (by decide)

theorem toNat_saturatingSub (a : UInt64) (n : Nat) :
    (saturatingSub a n).toNat = a.toNat - n := by
  rw [saturatingSub, UInt64.toNat_ofNat_of_lt']
  exact lt_of_le_of_lt (Nat.sub_le _ _) a.toNat_lt

/-! ## The size of a directory -/

def quotaFile : Str := ".quota.json"

mutual

/-- The bytes of an entry; the sum stops at 64 bits. -/
def DiskNode.len : DiskNode → Nat
  | .file len => len
  | .dir entries => dirSizeFrom 0 entries
  | .other => 0

def dirSizeFrom (total : Nat) : List (Str × DiskNode) → Nat
  | [] => total
  | (name, node) :: entries =>
    if name = quotaFile then dirSizeFrom total entries
    else dirSizeFrom (min (total + node.len) maxU64) entries

end

def dirSize (entries : List (Str × DiskNode)) : Nat := dirSizeFrom 0 entries

/-- Leftovers of writers that were interrupted. -/
def isOrphan (entry : Str × DiskNode) : Bool :=
  Str.startsWith ".quota.json.tmp-" entry.1 &&
    match entry.2 with
    | .dir _ => false
    | .file _ | .other => true

/-! ## The store -/

structure FsQuotaStore where
  codec : QuotaCodec
  defaultLimit : UInt64

namespace FsQuotaStore

def readSidecar (store : FsQuotaStore) (p : Pod) : Except IoError (Option QuotaUsage) :=
  match p.sidecar with
  | none => .ok none
  | some bytes =>
    match store.codec.fromSlice bytes with
    | none => .error .invalidData
    | some u => .ok (some u)

def writeSidecar (store : FsQuotaStore) (u : QuotaUsage) (p : Pod) : Pod :=
  { p with sidecar := some (store.codec.toVecPretty u) }

/-- A limit of zero stands for the default. -/
def withDefault (store : FsQuotaStore) (u : QuotaUsage) : QuotaUsage :=
  if u.limitBytes = 0 then { u with limitBytes := store.defaultLimit } else u

/-- A pod that has no sidecar yet. -/
def seed (store : FsQuotaStore) : QuotaUsage := ⟨0, store.defaultLimit⟩

def effective (store : FsQuotaStore) (p : Pod) : Except IoError QuotaUsage :=
  (store.readSidecar p).map fun
    | some u => store.withDefault u
    | none => store.seed

/-- A sidecar that cannot be read counts as none. -/
def effectiveOrSeed (store : FsQuotaStore) (p : Pod) : QuotaUsage :=
  match store.effective p with
  | .ok u => u
  | .error _ => store.seed

/-- Whether a write fits into the usage. -/
def checkUsage (pod : Str) (deltaBytes : UInt64) (u : QuotaUsage) : Except QuotaExceeded Unit :=
  if deltaBytes = 0 then .ok ()
  else if u.limitBytes = 0 then .ok ()
  else if u.limitBytes < saturatingAdd u.usedBytes deltaBytes.toNat then
    .error ⟨pod, u.usedBytes, u.limitBytes⟩
  else .ok ()

def check (store : FsQuotaStore) (pod : Str) (deltaBytes : UInt64) (p : Pod) :
    Except QuotaExceeded Unit :=
  checkUsage pod deltaBytes (store.effectiveOrSeed p)

/-- The usage after a write, or after a deletion. -/
def recordUsage (deltaBytes : Int) (current : QuotaUsage) : QuotaUsage :=
  { current with usedBytes :=
      if 0 ≤ deltaBytes then saturatingAdd current.usedBytes deltaBytes.toNat
      else saturatingSub current.usedBytes (-deltaBytes).toNat }

def record (store : FsQuotaStore) (deltaBytes : Int) (p : Pod) : Pod :=
  store.writeSidecar (recordUsage deltaBytes (store.effectiveOrSeed p)) p

def sweepQuotaOrphans (p : Pod) : Pod :=
  { p with disk := p.disk.filter fun entry => !isOrphan entry }

def reconcile (store : FsQuotaStore) (p : Pod) : Except IoError QuotaUsage × Pod :=
  let p := sweepQuotaOrphans p
  let actual := dirSize p.disk
  match store.readSidecar p with
  | .error e => (.error e, p)
  | .ok sidecar =>
    let limit := match sidecar with
      | some u => if 0 < u.limitBytes then u.limitBytes else store.defaultLimit
      | none => store.defaultLimit
    let reconciled : QuotaUsage := ⟨.ofNat actual, limit⟩
    (.ok reconciled, store.writeSidecar reconciled p)

end FsQuotaStore

end Quota

end SolidPod
