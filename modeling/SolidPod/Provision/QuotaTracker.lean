import SolidPod.Error
import SolidPod.Foundation.Numerals
import SolidPod.Foundation.Schedule
import SolidPod.Quota.BadSidecar

/-!
# Counting bytes

`QuotaTracker` counts the bytes that are reserved and released, and `record` adds
to the usage of a sidecar. A reservation reads the counter and adds to it in two
atomic steps, and other calls may come in between. The counter stays exact, and
below the quota, as long as it still has room for each reservation when the bytes
are added. A record is exact but for the negation of the least number.
-/

namespace SolidPod

open Foundation

open Quota FsQuotaStore

namespace Provision

structure QuotaTracker where
  quotaBytes : Option UInt64
  usedBytes : UInt64

namespace QuotaTracker

def new (quotaBytes : Option UInt64) : QuotaTracker := ⟨quotaBytes, 0⟩

/-- The first step of a reservation. -/
def checkReserve (t : QuotaTracker) (size : UInt64) : Except PodError Unit :=
  match t.quotaBytes with
  | none => .ok ()
  | some q =>
    if q < saturatingAdd t.usedBytes size.toNat then
      .error (.preconditionFailed ("quota exceeded: " ++ decimal t.usedBytes.toNat ++ "+" ++
        decimal size.toNat ++ " > " ++ decimal q.toNat))
    else .ok ()

/-- The counter wraps around. -/
def fetchAdd (t : QuotaTracker) (size : UInt64) : QuotaTracker :=
  { t with usedBytes := t.usedBytes + size }

def reserve (size : UInt64) (t : QuotaTracker) : Except PodError Unit × QuotaTracker :=
  match t.checkReserve size with
  | .error e => (.error e, t)
  | .ok () => (.ok (), t.fetchAdd size)

def release (size : UInt64) (t : QuotaTracker) : QuotaTracker :=
  { t with usedBytes := t.usedBytes - size }

/-- The largest count that is allowed. -/
def limit (t : QuotaTracker) : ℕ := t.quotaBytes.elim maxU64 UInt64.toNat

end QuotaTracker

/-! ## Interleaved calls -/

inductive TrackerCall where
  | reserve (size : UInt64)
  | release (size : UInt64)

/-- How far a call has got. -/
inductive TrackerPhase where
  | ready
  | admitted
  | refused (e : PodError)
  | done

/-- A tracker, its calls, and the bytes that were granted and released. -/
structure Tracking (ι : Type*) where
  tracker : QuotaTracker
  phase : ι → TrackerPhase
  granted : ℕ
  released : ℕ

section Steps

variable {ι : Type*} [DecidableEq ι] (calls : ι → TrackerCall)

/-- No call has begun. -/
def Tracking.start (t : QuotaTracker) : Tracking ι := ⟨t, fun _ => .ready, 0, 0⟩

/-- The call goes on to a phase. -/
def Tracking.goTo (s : Tracking ι) (i : ι) (phase : TrackerPhase) : Tracking ι :=
  { s with phase := Function.update s.phase i phase }

/-- The second step of a reservation. -/
def Tracking.add (s : Tracking ι) (i : ι) (size : UInt64) : Tracking ι :=
  { s.goTo i .done with tracker := s.tracker.fetchAdd size, granted := s.granted + size.toNat }

def Tracking.giveBack (s : Tracking ι) (i : ι) (size : UInt64) : Tracking ι :=
  { s.goTo i .done with tracker := s.tracker.release size, released := s.released + size.toNat }

/-- The next step of a call. -/
def trackerStep (s : Tracking ι) (i : ι) : Option (Tracking ι) :=
  match s.phase i, calls i with
  | .ready, .reserve size =>
    match s.tracker.checkReserve size with
    | .ok () => some (s.goTo i .admitted)
    | .error e => some (s.goTo i (.refused e))
  | .admitted, .reserve size => some (s.add i size)
  | .ready, .release size => some (s.giveBack i size)
  | .admitted, .release _ | .refused _, _ | .done, _ => none

/-- The count is what was granted and not released, and not above the quota. -/
structure Tracking.Exact (s : Tracking ι) : Prop where
  used : s.tracker.usedBytes.toNat + s.released = s.granted
  quota : ∀ q, s.tracker.quotaBytes = some q → s.tracker.usedBytes ≤ q

/-- A release gives back bytes that were reserved before. -/
def ReturnsReserved (s : Tracking ι) (i : ι) : Prop :=
  ∀ size, s.phase i = .ready → calls i = .release size → s.released + size.toNat ≤ s.granted

/-- A reservation that adds its bytes finds room for them. -/
def HasRoom (s : Tracking ι) (i : ι) : Prop :=
  ∀ size, s.phase i = .admitted → calls i = .reserve size →
    s.tracker.usedBytes.toNat + size.toNat ≤ s.tracker.limit

variable {calls} {s t : Tracking ι} {i : ι}

/-- What a step can do. -/
inductive TrackerStepped (calls : ι → TrackerCall) (s : Tracking ι) (i : ι) : Tracking ι → Prop
  | moved {phase : TrackerPhase} (hold : s.phase i = .ready) :
      TrackerStepped calls s i (s.goTo i phase)
  | added {size : UInt64} (hold : s.phase i = .admitted) (hcall : calls i = .reserve size) :
      TrackerStepped calls s i (s.add i size)
  | returned {size : UInt64} (hold : s.phase i = .ready) (hcall : calls i = .release size) :
      TrackerStepped calls s i (s.giveBack i size)

theorem trackerStepped (h : trackerStep calls s i = some t) : TrackerStepped calls s i t := by
  rw [trackerStep] at h
  cases hphase : s.phase i with
  | ready =>
      cases hcall : calls i with
      | reserve size =>
          simp only [hphase, hcall] at h
          cases hcheck : s.tracker.checkReserve size with
          | ok _ =>
              simp only [hcheck, Option.some.injEq] at h
              subst h
              exact .moved hphase
          | error e =>
              simp only [hcheck, Option.some.injEq] at h
              subst h
              exact .moved hphase
      | release size =>
          simp only [hphase, hcall, Option.some.injEq] at h
          subst h
          exact .returned hphase hcall
  | admitted =>
      cases hcall : calls i with
      | reserve size =>
          simp only [hphase, hcall, Option.some.injEq] at h
          subst h
          exact .added hphase hcall
      | release size =>
          simp only [hphase, hcall] at h
          cases h
  | refused e =>
      simp only [hphase] at h
      cases h
  | done =>
      simp only [hphase] at h
      cases h

/-! ## A call on its own -/

theorem run_reserve (tracker : QuotaTracker) {size : UInt64} (h : calls i = .reserve size)
    (hcheck : (tracker.checkReserve size).isOk) :
    (Schedule.run (trackerStep calls) (.start tracker) [i, i]).map Tracking.tracker =
      some (tracker.reserve size).2 := by
  have hadmit : trackerStep calls (.start tracker) i =
      some ((Tracking.start tracker).goTo i .admitted) := by
    rw [trackerStep, h]
    cases hanswer : tracker.checkReserve size with
    | ok _ => simp only [Tracking.start, hanswer]
    | error e =>
        rw [hanswer] at hcheck
        cases hcheck
  have hphase : ((Tracking.start tracker).goTo i .admitted).phase i = .admitted :=
    Function.update_self _ _ _
  rw [Schedule.run_cons, hadmit, Option.bind_some, Schedule.run_cons, trackerStep, hphase, h]
  cases hanswer : tracker.checkReserve size with
  | ok _ =>
      rw [QuotaTracker.reserve, hanswer]
      rfl
  | error e =>
      rw [hanswer] at hcheck
      cases hcheck

theorem run_refused (tracker : QuotaTracker) {size : UInt64} {e : PodError}
    (h : calls i = .reserve size) (hcheck : tracker.checkReserve size = .error e) :
    (Schedule.run (trackerStep calls) (.start tracker) [i]).map Tracking.tracker =
      some (tracker.reserve size).2 := by
  rw [Schedule.run_cons, trackerStep, h]
  simp only [Tracking.start, hcheck]
  rw [QuotaTracker.reserve, hcheck]
  rfl

theorem run_release (tracker : QuotaTracker) {size : UInt64} (h : calls i = .release size) :
    (Schedule.run (trackerStep calls) (.start tracker) [i]).map Tracking.tracker =
      some (tracker.release size) := by
  rw [Schedule.run_cons, trackerStep, h]
  rfl

/-! ## Runs -/

theorem le_limit_iff {t : QuotaTracker} {n : ℕ} :
    n ≤ t.limit ↔ n < UInt64.size ∧ ∀ q, t.quotaBytes = some q → n ≤ q.toNat := by
  rw [QuotaTracker.limit]
  cases t.quotaBytes with
  | none =>
      have hmax : n ≤ maxU64 ↔ n < UInt64.size := Nat.le_sub_one_iff_lt (by decide)
      simp [hmax]
  | some q =>
      have hq := q.toNat_lt
      simp only [Option.elim_some, Option.some.injEq, forall_eq']
      constructor
      · intro h
        exact ⟨lt_of_le_of_lt h hq, h⟩
      · exact fun h => h.2

/-- Bytes that are added to an exact count leave it exact if there is room for them. -/
theorem exact_add_iff {size : UInt64} (h : s.Exact) :
    (s.add i size).Exact ↔ s.tracker.usedBytes.toNat + size.toNat ≤ s.tracker.limit := by
  have husedSum := h.used
  have hadd : (s.tracker.usedBytes + size).toNat =
      (s.tracker.usedBytes.toNat + size.toNat) % UInt64.size := UInt64.toNat_add _ _
  rw [le_limit_iff]
  constructor
  · intro hexact
    have hused : (s.tracker.usedBytes + size).toNat + s.released = s.granted + size.toNat :=
      hexact.used
    have hlt : (s.tracker.usedBytes + size).toNat < UInt64.size :=
      (s.tracker.usedBytes + size).toNat_lt
    refine ⟨by omega, ?_⟩
    intro q hq
    have hle : (s.tracker.usedBytes + size).toNat ≤ q.toNat := hexact.quota q hq
    omega
  · rintro ⟨hsize, hquota⟩
    rw [Nat.mod_eq_of_lt hsize] at hadd
    refine ⟨?_, ?_⟩
    · change (s.tracker.usedBytes + size).toNat + s.released = s.granted + size.toNat
      omega
    · intro q hq
      change (s.tracker.usedBytes + size).toNat ≤ q.toNat
      rw [hadd]
      exact hquota q hq

theorem exact_giveBack {size : UInt64} (h : s.Exact)
    (hreserved : s.released + size.toNat ≤ s.granted) : (s.giveBack i size).Exact := by
  have husedSum := h.used
  have hle : size ≤ s.tracker.usedBytes := by
    rw [UInt64.le_iff_toNat_le]
    omega
  have hsub : (s.tracker.usedBytes - size).toNat = s.tracker.usedBytes.toNat - size.toNat :=
    UInt64.toNat_sub_of_le _ _ hle
  refine ⟨?_, ?_⟩
  · change (s.tracker.usedBytes - size).toNat + (s.released + size.toNat) = s.granted
    omega
  · intro q hq
    have hquota : s.tracker.usedBytes.toNat ≤ q.toNat := h.quota q hq
    change (s.tracker.usedBytes - size).toNat ≤ q.toNat
    omega

/-- A step keeps the count exact exactly if it finds room for what it adds. -/
theorem exact_step_iff (hreturns : ReturnsReserved calls s i) (h : s.Exact)
    (hstep : trackerStep calls s i = some t) : t.Exact ↔ HasRoom calls s i := by
  cases trackerStepped hstep with
  | moved hold =>
      refine iff_of_true ⟨h.used, h.quota⟩ ?_
      intro size hphase
      rw [hold] at hphase
      cases hphase
  | @added size hold hcall =>
      rw [exact_add_iff h]
      constructor
      · intro hroom size' _ hcall'
        rw [hcall] at hcall'
        cases hcall'
        exact hroom
      · exact fun hroom => hroom size hold hcall
  | @returned size hold hcall =>
      refine iff_of_true (exact_giveBack h (hreturns size hold hcall)) ?_
      intro size' hphase
      rw [hold] at hphase
      cases hphase

theorem hasRoom_of_none (h : trackerStep calls s i = none) : HasRoom calls s i := by
  intro size hphase hcall
  rw [trackerStep, hphase, hcall] at h
  cases h

omit [DecidableEq ι] in
theorem exact_start (quotaBytes : Option UInt64) :
    (Tracking.start (.new quotaBytes) : Tracking ι).Exact :=
  ⟨rfl, fun _ _ => UInt64.le_iff_toNat_le.mpr (Nat.zero_le _)⟩

/-- The counter is exact throughout exactly if it has room for each reservation when
the bytes are added. -/
theorem throughout_exact_iff {sched : List ι} (quotaBytes : Option UInt64)
    (hreturns : Schedule.Along (trackerStep calls) (ReturnsReserved calls)
      (.start (.new quotaBytes)) sched) :
    Schedule.Throughout (trackerStep calls) Tracking.Exact (.start (.new quotaBytes)) sched ↔
      Schedule.Along (trackerStep calls) (HasRoom calls) (.start (.new quotaBytes)) sched :=
  Schedule.throughout_iff_along_of (I := fun _ => True) (fun _ _ => hasRoom_of_none)
    (fun _ _ _ hreturns _ hexact hstep => ⟨trivial, exact_step_iff hreturns hexact hstep⟩) hreturns
    trivial (exact_start quotaBytes)

end Steps

/-! ## Records -/

/-- `record` on machine integers; without a result it panics. -/
def recordDelta (overflowChecks : Bool) (store : FsQuotaStore) (deltaBytes : Int64) (p : Pod) :
    Option Pod :=
  let current := store.effectiveOrSeed p
  let newUsed : Option UInt64 :=
    if 0 ≤ deltaBytes then some (saturatingAdd current.usedBytes deltaBytes.toUInt64.toNat)
    else (negI64 overflowChecks deltaBytes).map fun d =>
      saturatingSub current.usedBytes d.toUInt64.toNat
  newUsed.map fun used => store.writeSidecar { current with usedBytes := used } p

/-- The usage that is stored is the sum, or zero if it is negative; one that does not
fit stays at the largest number. -/
def RecordsExactly (store : FsQuotaStore) (deltaBytes : Int64) (p : Pod) (result : Option Pod) :
    Prop :=
  ∃ p' u, result = some p' ∧ store.readSidecar p' = .ok (some u) ∧
    u.limitBytes = (store.effectiveOrSeed p).limitBytes ∧
    (u.usedBytes.toNat : ℤ) =
      min (max 0 ((store.effectiveOrSeed p).usedBytes.toNat + deltaBytes.toInt)) maxU64

variable {store : FsQuotaStore} {overflowChecks : Bool} {deltaBytes : Int64} {p : Pod}

theorem recordDelta_of_panic (h : overflowChecks = true ∧ deltaBytes = Int64.minValue) :
    recordDelta overflowChecks store deltaBytes p = none := by
  have hneg : ¬ 0 ≤ deltaBytes := by
    rw [h.2]
    decide
  rw [recordDelta, if_neg hneg, negI64, if_pos h.symm]
  rfl

/-- Without a panic it is `record` on integers. -/
theorem recordDelta_of_not_panic (h : ¬ (overflowChecks = true ∧ deltaBytes = Int64.minValue)) :
    recordDelta overflowChecks store deltaBytes p = some (store.record deltaBytes.toInt p) := by
  rw [recordDelta, FsQuotaStore.record, recordUsage]
  by_cases hsign : 0 ≤ deltaBytes
  · have hint : 0 ≤ deltaBytes.toInt := Int64.le_iff_toInt_le.mp hsign
    rw [if_pos hsign, if_pos hint, Int64.toNat_toUInt64_of_le hsign, ← Int64.toNat_toInt]
    rfl
  · have hlt : deltaBytes < 0 := Int64.not_le.mp hsign
    have hint : ¬ 0 ≤ deltaBytes.toInt := Int.not_le.mpr (Int64.lt_iff_toInt_lt.mp hlt)
    have hnat : (-deltaBytes).toUInt64.toNat = (-deltaBytes.toInt).toNat :=
      (Int.toNat_natCast _).symm.trans (congrArg Int.toNat (toNat_toUInt64_neg hlt))
    rw [if_neg hsign, if_neg hint, negI64, if_neg (fun hpanic => h hpanic.symm), ← hnat]
    rfl

theorem toNat_recordUsage_eq (deltaBytes : Int) (u : QuotaUsage) :
    ((recordUsage deltaBytes u).usedBytes.toNat : ℤ) =
      min (max 0 (u.usedBytes.toNat + deltaBytes)) maxU64 := by
  have hlt : u.usedBytes.toNat ≤ maxU64 := Nat.le_sub_one_of_lt u.usedBytes.toNat_lt
  rw [recordUsage]
  by_cases hsign : 0 ≤ deltaBytes
  · simp only [if_pos hsign, toNat_saturatingAdd]
    omega
  · simp only [if_neg hsign, toNat_saturatingSub]
    omega

theorem recordsExactly_iff :
    RecordsExactly store deltaBytes p (recordDelta overflowChecks store deltaBytes p) ↔
      ¬ (overflowChecks = true ∧ deltaBytes = Int64.minValue) := by
  constructor
  · rintro ⟨p', u, hresult, -⟩ hpanic
    rw [recordDelta_of_panic hpanic] at hresult
    cases hresult
  · intro h
    refine ⟨_, _, recordDelta_of_not_panic h, readSidecar_writeSidecar _ _, rfl, ?_⟩
    exact toNat_recordUsage_eq deltaBytes.toInt (store.effectiveOrSeed p)

/-- A tracker counts exactly throughout if and only if there is room for each reservation
when its bytes are added, and a record is exact unless it negates the least number in a
build with overflow checks. -/
theorem countsExactly_iff {ι : Type*} [DecidableEq ι] (calls : ι → TrackerCall) (sched : List ι)
    (quotaBytes : Option UInt64) (overflowChecks : Bool) (store : FsQuotaStore)
    (deltaBytes : Int64) (p : Pod)
    (hreturns : Schedule.Along (trackerStep calls) (ReturnsReserved calls)
      (.start (.new quotaBytes)) sched) :
    (Schedule.Throughout (trackerStep calls) Tracking.Exact (.start (.new quotaBytes)) sched ↔
      Schedule.Along (trackerStep calls) (HasRoom calls) (.start (.new quotaBytes)) sched) ∧
    (RecordsExactly store deltaBytes p (recordDelta overflowChecks store deltaBytes p) ↔
      ¬ (overflowChecks = true ∧ deltaBytes = Int64.minValue)) :=
  ⟨throughout_exact_iff quotaBytes hreturns, recordsExactly_iff⟩

/-! ## Two reservations of six bytes in a quota of ten -/

def sixBytes (_ : Bool) : TrackerCall := .reserve 6

theorem returnsReserved_sixBytes (s : Tracking Bool) (sched : List Bool) :
    Schedule.Along (trackerStep sixBytes) (ReturnsReserved sixBytes) s sched := by
  intro pre i post u heq hrun size hphase hcall
  cases hcall

theorem countsExactly_iff_sixBytes :
    (Schedule.Throughout (trackerStep sixBytes) Tracking.Exact (.start (.new (some 10)))
        [true, false, true, false] ↔
      Schedule.Along (trackerStep sixBytes) (HasRoom sixBytes) (.start (.new (some 10)))
        [true, false, true, false]) ∧
    (RecordsExactly hundredStore Int64.minValue ⟨none, []⟩
        (recordDelta true hundredStore Int64.minValue ⟨none, []⟩) ↔
      ¬ (true = true ∧ Int64.minValue = Int64.minValue)) :=
  countsExactly_iff sixBytes _ (some 10) true hundredStore Int64.minValue ⟨none, []⟩
    (returnsReserved_sixBytes _ _)

/-- Both reservations are checked before either adds its bytes, and twelve bytes are used. A
record of the least number panics. -/
theorem sixBytes_over_quota :
    (¬ ∀ sched, Schedule.Along (trackerStep sixBytes) (ReturnsReserved sixBytes)
        (.start (.new (some 10))) sched →
      Schedule.Throughout (trackerStep sixBytes) Tracking.Exact (.start (.new (some 10))) sched) ∧
    ¬ RecordsExactly hundredStore Int64.minValue ⟨none, []⟩
      (recordDelta true hundredStore Int64.minValue ⟨none, []⟩) := by
  constructor
  · intro h
    have hthroughout := h [true, false, true, false] (returnsReserved_sixBytes _ _)
    have hquota : (12 : UInt64) ≤ 10 :=
      (hthroughout [true, false, true, false] [] _ rfl rfl).quota 10 rfl
    exact absurd hquota (by decide)
  · exact fun h => recordsExactly_iff.mp h ⟨rfl, rfl⟩

end Provision

end SolidPod
