import SolidPod.Error
import SolidPod.Foundation.Lockstep
import SolidPod.Quota.Basic

/-!
# Sidecars that cannot be read

A sidecar that cannot be parsed counts as none when a write is checked or
recorded, and stops the count of the files. What was last readable is forgotten
then, unless it was no more than a pod starts with.
-/

namespace SolidPod

open Foundation

namespace Quota

/-! ## The bytes on disk -/

mutual

def DiskNode.bytes : DiskNode → Nat
  | .file len => len
  | .dir entries => bytesOnDisk entries
  | .other => 0

/-- The bytes of all files but the sidecars. -/
def bytesOnDisk : List (Str × DiskNode) → Nat
  | [] => 0
  | (name, node) :: entries => (if name = quotaFile then 0 else node.bytes) + bytesOnDisk entries

end

mutual

theorem DiskNode.min_len : ∀ node : DiskNode, min node.len maxU64 = min node.bytes maxU64
  | .file len => by rw [DiskNode.len, DiskNode.bytes]
  | .dir entries => by
      rw [DiskNode.len, DiskNode.bytes, min_dirSizeFrom, Nat.zero_add]
  | .other => by rw [DiskNode.len, DiskNode.bytes]

theorem min_dirSizeFrom : ∀ (total : Nat) (entries : List (Str × DiskNode)),
    min (dirSizeFrom total entries) maxU64 = min (total + bytesOnDisk entries) maxU64
  | total, [] => by rw [dirSizeFrom, bytesOnDisk, Nat.add_zero]
  | total, (name, node) :: entries => by
      rw [dirSizeFrom, bytesOnDisk]
      split_ifs with hname
      · rw [min_dirSizeFrom, Nat.zero_add]
      · have hnode := DiskNode.min_len node
        rw [min_dirSizeFrom]
        omega

end

theorem dirSizeFrom_le {total : Nat} (h : total ≤ maxU64) (entries : List (Str × DiskNode)) :
    dirSizeFrom total entries ≤ maxU64 := by
  induction entries generalizing total with
  | nil => rwa [dirSizeFrom]
  | cons entry entries ih =>
      rw [dirSizeFrom]
      split_ifs
      · exact ih h
      · exact ih (Nat.min_le_right _ _)

theorem dirSize_eq (entries : List (Str × DiskNode)) :
    dirSize entries = min (bytesOnDisk entries) maxU64 := by
  have hmin := min_dirSizeFrom 0 entries
  rwa [Nat.zero_add, Nat.min_eq_left (dirSizeFrom_le (Nat.zero_le _) entries)] at hmin

theorem toNat_ofNat_dirSize (entries : List (Str × DiskNode)) :
    (UInt64.ofNat (dirSize entries)).toNat = min (bytesOnDisk entries) maxU64 := by
  rw [dirSize_eq, UInt64.toNat_ofNat_of_lt']
  exact lt_of_le_of_lt (Nat.min_le_right _ _) (by decide)

/-! ## Runs -/

inductive QuotaEvent where
  | check (deltaBytes : UInt64)
  | record (deltaBytes : Int)
  | reconcile
  /-- Something else leaves another sidecar behind, or other files. -/
  | tamper (p : Pod)

/-- A pod, and what its sidecar said when it was last readable. -/
structure Watched where
  pod : Pod
  last : QuotaUsage

namespace FsQuotaStore

/-- What happens to the pod, and what the caller is told about a check. -/
def perform (store : FsQuotaStore) (pod : Str) (p : Pod) : QuotaEvent → Bool × Pod
  | .check deltaBytes => ((store.check pod deltaBytes p).isOk, p)
  | .record deltaBytes => (true, store.record deltaBytes p)
  | .reconcile => ((store.reconcile p).1.isOk, (store.reconcile p).2)
  | .tamper p' => (true, p')

def watch (store : FsQuotaStore) (p : Pod) (last : QuotaUsage) : Watched :=
  ⟨p, match store.effective p with
    | .ok u => u
    | .error _ => last⟩

def step (store : FsQuotaStore) (pod : Str) (w : Watched) (e : QuotaEvent) : Bool × Watched :=
  ((store.perform pod w.pod e).1, store.watch (store.perform pod w.pod e).2 w.last)

/-- The sidecar is there and cannot be read. -/
def Unparsable (store : FsQuotaStore) (p : Pod) : Prop := store.readSidecar p = .error .invalidData

/-- The last readable state is not forgotten by the event. -/
def Unforgiving (store : FsQuotaStore) (pod : Str) (w : Watched) : QuotaEvent → Prop
  | .check deltaBytes => store.Unparsable w.pod →
    (checkUsage pod deltaBytes w.last).isOk = false →
      (store.check pod deltaBytes w.pod).isOk = false
  | .record deltaBytes => store.Unparsable w.pod →
    (store.record deltaBytes w.pod).sidecar = w.pod.sidecar ∨
      store.readSidecar (store.record deltaBytes w.pod) =
        .ok (some (recordUsage deltaBytes w.last))
  | .reconcile => ∃ u, (store.reconcile w.pod).1 = .ok u ∧
    store.readSidecar (store.reconcile w.pod).2 = .ok (some u) ∧
    u.usedBytes.toNat = bytesOnDisk (store.reconcile w.pod).2.disk
  | .tamper _ => True

/-- The sidecar can be read, or what it said makes no difference: a write that is
refused is over the default limit by itself, and a record changes a usage that
has the default limit and becomes what an empty one becomes. -/
def Unneeded (store : FsQuotaStore) (pod : Str) (w : Watched) : QuotaEvent → Prop
  | .check deltaBytes => store.Unparsable w.pod →
    (checkUsage pod deltaBytes w.last).isOk = false →
      store.defaultLimit ≠ 0 ∧ store.defaultLimit < deltaBytes
  | .record deltaBytes => store.Unparsable w.pod →
    w.last.limitBytes = store.defaultLimit ∧
      if 0 ≤ deltaBytes then w.last.usedBytes = 0 ∨ maxU64 ≤ deltaBytes.toNat
      else w.last.usedBytes.toNat ≤ (-deltaBytes).toNat
  | .reconcile => ¬ store.Unparsable w.pod ∧
    bytesOnDisk (sweepQuotaOrphans w.pod).disk ≤ maxU64
  | .tamper _ => True

variable {store : FsQuotaStore} {p : Pod}

theorem effectiveOrSeed_of_unparsable (h : store.Unparsable p) :
    store.effectiveOrSeed p = store.seed := by
  rw [effectiveOrSeed, effective, h]
  rfl

theorem readSidecar_writeSidecar (u : QuotaUsage) (p : Pod) :
    store.readSidecar (store.writeSidecar u p) = .ok (some u) := by
  rw [readSidecar, writeSidecar]
  simp only [store.codec.fromSlice_toVecPretty]

theorem unparsable_iff_of_error {e : IoError} (h : store.readSidecar p = .error e) :
    store.Unparsable p := by
  rw [Unparsable, h]

/-! ## What an empty usage becomes -/

theorem ne_zero_of_refused {pod : Str} {deltaBytes : UInt64} {u : QuotaUsage}
    (h : (checkUsage pod deltaBytes u).isOk = false) : deltaBytes ≠ 0 := by
  rintro rfl
  rw [checkUsage, if_pos rfl] at h
  cases h

theorem checkUsage_seed_iff (pod : Str) {deltaBytes : UInt64} (h : deltaBytes ≠ 0) :
    (checkUsage pod deltaBytes store.seed).isOk = false ↔
      store.defaultLimit ≠ 0 ∧ store.defaultLimit < deltaBytes := by
  have hadd : saturatingAdd store.seed.usedBytes deltaBytes.toNat = deltaBytes := by
    have hlt := deltaBytes.toNat_lt
    rw [← UInt64.toNat_inj, toNat_saturatingAdd]
    change min (0 + deltaBytes.toNat) (2 ^ 64 - 1) = deltaBytes.toNat
    omega
  rw [checkUsage, if_neg h, hadd]
  have hlimit : store.seed.limitBytes = store.defaultLimit := rfl
  rw [hlimit]
  split_ifs with hzero hover
  · simp [hzero, Except.isOk, Except.toBool]
  · simp [hzero, hover, Except.isOk, Except.toBool]
  · simp [hover, Except.isOk, Except.toBool]

theorem recordUsage_seed_iff (deltaBytes : Int) (u : QuotaUsage) :
    recordUsage deltaBytes store.seed = recordUsage deltaBytes u ↔
      u.limitBytes = store.defaultLimit ∧
        if 0 ≤ deltaBytes then u.usedBytes = 0 ∨ maxU64 ≤ deltaBytes.toNat
        else u.usedBytes.toNat ≤ (-deltaBytes).toNat := by
  have hlt := u.usedBytes.toNat_lt
  have hzero : u.usedBytes = 0 ↔ u.usedBytes.toNat = 0 := by
    rw [← UInt64.toNat_inj, UInt64.toNat_zero]
  rw [recordUsage, recordUsage, QuotaUsage.mk.injEq, and_comm]
  refine and_congr eq_comm ?_
  rw [← UInt64.toNat_inj]
  split_ifs with hsign
  · rw [toNat_saturatingAdd, toNat_saturatingAdd, hzero]
    change min (0 + deltaBytes.toNat) (2 ^ 64 - 1) = min _ (2 ^ 64 - 1) ↔ _ ∨ 2 ^ 64 - 1 ≤ _
    omega
  · rw [toNat_saturatingSub, toNat_saturatingSub]
    change 0 - (-deltaBytes).toNat = _ ↔ _
    omega

/-! ## The law -/

theorem unforgiving_iff (pod : Str) (w : Watched) (e : QuotaEvent) :
    store.Unforgiving pod w e ↔ store.Unneeded pod w e := by
  cases e with
  | tamper p => exact Iff.rfl
  | check deltaBytes =>
      refine imp_congr_right fun hbad => imp_congr_right fun hrefused => ?_
      rw [check, effectiveOrSeed_of_unparsable hbad]
      exact checkUsage_seed_iff pod (ne_zero_of_refused hrefused)
  | record deltaBytes =>
      refine imp_congr_right fun hbad => ?_
      rw [record, effectiveOrSeed_of_unparsable hbad, readSidecar_writeSidecar,
        ← recordUsage_seed_iff]
      constructor
      · rintro (hsame | hread)
        · rw [Unparsable, readSidecar, ← hsame] at hbad
          simp only [writeSidecar, store.codec.fromSlice_toVecPretty] at hbad
          cases hbad
        · exact Option.some.inj (Except.ok.inj hread)
      · intro heq
        exact Or.inr (by rw [heq])
  | reconcile =>
      have hsweep : store.readSidecar (sweepQuotaOrphans w.pod) = store.readSidecar w.pod := rfl
      rw [Unforgiving, Unneeded, reconcile]
      simp only [hsweep]
      cases hread : store.readSidecar w.pod with
      | error e =>
          refine iff_of_false ?_ fun h => h.1 (unparsable_iff_of_error hread)
          rintro ⟨u, hok, -⟩
          cases hok
      | ok sidecar =>
          have hnot : ¬ store.Unparsable w.pod := by
            rw [Unparsable, hread]
            exact nofun
          rw [and_iff_right hnot]
          simp only [readSidecar_writeSidecar]
          constructor
          · rintro ⟨u, hok, -, hbytes⟩
            cases hok
            have hmin : min (bytesOnDisk (sweepQuotaOrphans w.pod).disk) maxU64 =
                bytesOnDisk (sweepQuotaOrphans w.pod).disk := by
              rw [← toNat_ofNat_dirSize]
              exact hbytes
            rw [← hmin]
            exact Nat.min_le_right _ _
          · intro hle
            refine ⟨_, rfl, rfl, ?_⟩
            rw [toNat_ofNat_dirSize, Nat.min_eq_left hle]
            rfl

/-- What was last readable is never forgotten exactly in the runs in which no
event needs it while the sidecar cannot be read. -/
theorem forall_unforgiving_iff (store : FsQuotaStore) (pod : Str) (w : Watched)
    (events : List QuotaEvent) :
    (∀ pre e post, events = pre ++ e :: post →
      store.Unforgiving pod (Lockstep.final (store.step pod) w pre) e) ↔
    ∀ pre e post, events = pre ++ e :: post →
      store.Unneeded pod (Lockstep.final (store.step pod) w pre) e := by
  simp only [unforgiving_iff]

/-! ## A truncated sidecar -/

def usedKey : Str := "\x7b\n  \"used_bytes\": "

def limitKey : Str := "\n  \"limit_bytes\": "

def closing : Str := "\n\x7d"

/-- The text that is written for a usage. -/
def prettyText (u : QuotaUsage) : Str :=
  usedKey ++ (decimal u.usedBytes.toNat ++
    ',' :: (limitKey ++ (decimal u.limitBytes.toNat ++ closing)))

def readNumber (digits : Str) : Option UInt64 :=
  let n := Nat.ofDigitChars 10 digits 0
  if digits ≠ [] ∧ (∀ c ∈ digits, c.isDigit) ∧ n ≤ maxU64 then some (.ofNat n) else none

def readPretty (text : Str) : Option QuotaUsage := do
  let body ← Str.stripPrefix usedKey text
  let (used, body) ← Str.splitOnce ',' body
  let body ← Str.stripPrefix limitKey body
  let limit ← Str.stripSuffix closing body
  return ⟨← readNumber used, ← readNumber limit⟩

theorem readNumber_decimal (n : UInt64) : readNumber (decimal n.toNat) = some n := by
  have hlt := n.toNat_lt
  have hle : n.toNat ≤ maxU64 := Nat.le_pred_of_lt hlt
  have hdigits : ∀ c ∈ decimal n.toNat, c.isDigit := fun c hc =>
    Nat.isDigit_of_mem_toDigits (by decide) (by decide) hc
  have hvalue : Nat.ofDigitChars 10 (decimal n.toNat) 0 = n.toNat := Nat.ofDigitChars_ten_toDigits
  rw [readNumber]
  simp only [hvalue]
  rw [if_pos ⟨Nat.toDigits_ne_nil, hdigits, hle⟩, UInt64.ofNat_toNat]

theorem comma_notMem_decimal (n : Nat) : ',' ∉ decimal n := by
  intro hmem
  have hdigit := Nat.isDigit_of_mem_toDigits (by decide) (by decide) hmem
  exact absurd hdigit (by decide)

theorem readPretty_prettyText (u : QuotaUsage) : readPretty (prettyText u) = some u := by
  rw [readPretty, prettyText, Str.stripPrefix_append]
  simp only [Option.bind_eq_bind, Option.bind_some]
  rw [Str.splitOnce_append (comma_notMem_decimal _)]
  simp only [Option.bind_some]
  rw [Str.stripPrefix_append, Option.bind_some, Str.stripSuffix_append, Option.bind_some,
    readNumber_decimal, readNumber_decimal]
  rfl

def prettyCodec : QuotaCodec where
  toVecPretty u := Str.utf8 (prettyText u)
  fromSlice bytes := (Str.fromUtf8 bytes).bind readPretty
  fromSlice_toVecPretty u := by
    rw [Str.fromUtf8_utf8, Option.bind_some, readPretty_prettyText]

/-- A store whose pods may hold a hundred bytes. -/
def hundredStore : FsQuotaStore := ⟨prettyCodec, 100⟩

/-- A pod that is full at ten bytes. -/
def fullPod : Pod := hundredStore.writeSidecar ⟨10, 10⟩ ⟨none, [("a", .file 10)]⟩

/-- A sidecar that is truncated lets a write through that the limit of the pod refuses. -/
theorem truncated_forgives :
    ¬ ∀ (store : FsQuotaStore) (pod : Str) (p : Pod) (last : QuotaUsage) (events : List QuotaEvent)
      pre e post, events = pre ++ e :: post →
        store.Unforgiving pod (Lockstep.final (store.step pod) (store.watch p last) pre) e := by
  intro h
  have hread : hundredStore.effective fullPod = .ok ⟨10, 10⟩ := by
    rw [effective, fullPod, readSidecar_writeSidecar]
    rfl
  have hcheck := h hundredStore "pod" fullPod ⟨0, 0⟩
    [.tamper { fullPod with sidecar := some [] }, .check 1]
    [.tamper { fullPod with sidecar := some [] }] (.check 1) [] rfl
  have hlast : (Lockstep.final (hundredStore.step "pod") (hundredStore.watch fullPod ⟨0, 0⟩)
      [.tamper { fullPod with sidecar := some [] }]).last = ⟨10, 10⟩ := by
    rw [watch, hread]
    rfl
  rw [Unforgiving, hlast] at hcheck
  exact absurd (hcheck rfl rfl) (by decide)

end FsQuotaStore

end Quota

end SolidPod
