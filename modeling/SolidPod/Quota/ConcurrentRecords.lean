import Mathlib.Algebra.BigOperators.Group.Finset.Basic
import Mathlib.Data.Fintype.Powerset
import SolidPod.Foundation.Schedule
import SolidPod.Quota.BadSidecar

/-!
# Concurrent records of a pod

`record` reads the sidecar and writes it back in two steps, and a caller asks
`check` before it writes its file and records it. Calls of one pod take these
steps in any order. No record is lost as long as each one writes to the usage
that it has read, and the limit is kept as long as the check of each write would
still accept it for that usage.
-/

namespace SolidPod

open Foundation

namespace Quota

open FsQuotaStore

/-- A record on its own, or a file that is checked, written and recorded. -/
inductive QuotaCall where
  | record (deltaBytes : Int)
  | write (name : Str) (size : UInt64)

namespace QuotaCall

def deltaBytes : QuotaCall → Int
  | .record deltaBytes => deltaBytes
  | .write _ size => size.toNat

def Checked : QuotaCall → Prop
  | .record _ => False
  | .write _ _ => True

end QuotaCall

/-- How far a call has got. -/
inductive CallPhase where
  | ready
  | admitted
  | refused
  | written
  | loaded (current : QuotaUsage)
  | done

structure Recording (ι : Type*) where
  pod : Pod
  phase : ι → CallPhase

section Steps

variable {ι : Type*} [DecidableEq ι] (store : FsQuotaStore) (pod : Str) (calls : ι → QuotaCall)

/-- No call has begun. -/
def Recording.start (p : Pod) : Recording ι := ⟨p, fun _ => .ready⟩

/-- The call goes on to a phase. -/
def Recording.goTo (s : Recording ι) (i : ι) (p : Pod) (phase : CallPhase) : Recording ι :=
  ⟨p, Function.update s.phase i phase⟩

/-- The usage that a call would read. -/
def Recording.usage (s : Recording ι) : QuotaUsage := store.effectiveOrSeed s.pod

/-- A file is added to the pod. -/
def Pod.put (p : Pod) (name : Str) (size : UInt64) : Pod :=
  { p with disk := (name, .file size.toNat) :: p.disk }

/-- The next step of a call. -/
def recordStep (s : Recording ι) (i : ι) : Option (Recording ι) :=
  match s.phase i, calls i with
  | .ready, .record _ | .written, _ => some (s.goTo i s.pod (.loaded (s.usage store)))
  | .ready, .write _ size =>
    match store.check pod size s.pod with
    | .ok () => some (s.goTo i s.pod .admitted)
    | .error _ => some (s.goTo i s.pod .refused)
  | .admitted, .write name size => some (s.goTo i (s.pod.put name size) .written)
  | .loaded current, call =>
    some (s.goTo i (store.writeSidecar (recordUsage call.deltaBytes current) s.pod) .done)
  | .admitted, .record _ | .refused, _ | .done, _ => none

variable {store pod calls} {s t : Recording ι} {i : ι}

@[simp] theorem goTo_pod (p : Pod) (phase : CallPhase) : (s.goTo i p phase).pod = p := rfl

theorem goTo_phase (p : Pod) (phase : CallPhase) (j : ι) :
    (s.goTo i p phase).phase j = if j = i then phase else s.phase j :=
  Function.update_apply _ _ _ _

@[simp] theorem goTo_phase_self (p : Pod) (phase : CallPhase) :
    (s.goTo i p phase).phase i = phase :=
  Function.update_self _ _ _

/-! ## A call on its own -/

/-- A record that is not disturbed does what `record` does. -/
theorem run_record (p : Pod) {deltaBytes : Int} (h : calls i = .record deltaBytes) :
    (Schedule.run (recordStep store pod calls) (.start p) [i, i]).map Recording.pod =
      some (store.record deltaBytes p) := by
  have hload : recordStep store pod calls (.start p) i =
      some ((Recording.start p).goTo i p (.loaded (store.effectiveOrSeed p))) := by
    rw [recordStep, h]
    rfl
  rw [Schedule.run_cons, hload, Option.bind_some, Schedule.run_cons, recordStep, goTo_phase_self, h]
  rfl

/-- A file whose check is refused is neither written nor recorded. -/
theorem run_refused (p : Pod) {name : Str} {size : UInt64} (h : calls i = .write name size)
    (hcheck : (store.check pod size p).isOk = false) :
    (Schedule.run (recordStep store pod calls) (.start p) [i]).map Recording.pod = some p := by
  rw [Schedule.run_cons, recordStep, h]
  cases hanswer : store.check pod size p with
  | ok _ =>
      rw [hanswer] at hcheck
      cases hcheck
  | error e =>
      simp only [Recording.start, hanswer]
      rfl

/-- A file whose check is accepted is written and recorded. -/
theorem run_write (p : Pod) {name : Str} {size : UInt64} (h : calls i = .write name size)
    (hcheck : (store.check pod size p).isOk) :
    (Schedule.run (recordStep store pod calls) (.start p) [i, i, i, i]).map Recording.pod =
      some (store.record size.toNat (p.put name size)) := by
  have hadmit : recordStep store pod calls (.start p) i =
      some ((Recording.start p).goTo i p .admitted) := by
    rw [recordStep, h]
    cases hanswer : store.check pod size p with
    | ok _ => simp only [Recording.start, hanswer]
    | error e =>
        rw [hanswer] at hcheck
        cases hcheck
  rw [Schedule.run_cons, hadmit, Option.bind_some, Schedule.run_cons, recordStep, goTo_phase_self,
    h]
  simp only [Option.bind_some]
  rw [Schedule.run_cons, recordStep, goTo_phase_self, h]
  simp only [Option.bind_some]
  rw [Schedule.run_cons, recordStep, goTo_phase_self, h]
  rfl

/-! ## Steps -/

/-- What a step can do to the sidecar and the phases. -/
inductive RecordStepped (store : FsQuotaStore) (calls : ι → QuotaCall) (s : Recording ι) (i : ι) :
    Recording ι → Prop
  | moved {p : Pod} {phase : CallPhase} (hold : s.phase i = .ready ∨ s.phase i = .admitted)
      (hnew : phase = .admitted ∨ phase = .refused ∨ phase = .written)
      (hsidecar : p.sidecar = s.pod.sidecar) : RecordStepped store calls s i (s.goTo i p phase)
  | loaded (hold : s.phase i = .ready ∨ s.phase i = .written) :
      RecordStepped store calls s i (s.goTo i s.pod (.loaded (s.usage store)))
  | stored {current : QuotaUsage} (hold : s.phase i = .loaded current) :
      RecordStepped store calls s i
        (s.goTo i (store.writeSidecar (recordUsage (calls i).deltaBytes current) s.pod) .done)

theorem recordStepped (h : recordStep store pod calls s i = some t) :
    RecordStepped store calls s i t := by
  rw [recordStep] at h
  cases hphase : s.phase i with
  | ready =>
      cases hcall : calls i with
      | record deltaBytes =>
          simp only [hphase, hcall, Option.some.injEq] at h
          subst h
          exact .loaded (.inl hphase)
      | write name size =>
          simp only [hphase, hcall] at h
          cases hcheck : store.check pod size s.pod with
          | ok _ =>
              simp only [hcheck, Option.some.injEq] at h
              subst h
              exact .moved (.inl hphase) (.inl rfl) rfl
          | error e =>
              simp only [hcheck, Option.some.injEq] at h
              subst h
              exact .moved (.inl hphase) (.inr (.inl rfl)) rfl
  | admitted =>
      cases hcall : calls i with
      | record deltaBytes =>
          simp only [hphase, hcall] at h
          cases h
      | write name size =>
          simp only [hphase, hcall, Option.some.injEq] at h
          subst h
          exact .moved (.inr hphase) (.inr (.inr rfl)) rfl
  | written =>
      simp only [hphase, Option.some.injEq] at h
      subst h
      exact .loaded (.inr hphase)
  | loaded current =>
      simp only [hphase, Option.some.injEq] at h
      subst h
      exact .stored hphase
  | refused =>
      simp only [hphase] at h
      cases h
  | done =>
      simp only [hphase] at h
      cases h

theorem ne_loaded_of_none (h : recordStep store pod calls s i = none) (current : QuotaUsage) :
    s.phase i ≠ .loaded current := by
  intro hphase
  rw [recordStep, hphase] at h
  cases h

/-! ## Usages -/

omit [DecidableEq ι] in
theorem usage_congr {s t : Recording ι} (h : s.pod.sidecar = t.pod.sidecar) :
    s.usage store = t.usage store := by
  rw [Recording.usage, Recording.usage, effectiveOrSeed, effectiveOrSeed, effective, effective,
    readSidecar, readSidecar, h]

theorem withDefault_eq_iff (u : QuotaUsage) :
    store.withDefault u = u ↔ (u.limitBytes = 0 → store.defaultLimit = 0) := by
  rw [withDefault]
  split_ifs with h
  · constructor
    · intro heq _
      rw [← h, ← congrArg QuotaUsage.limitBytes heq]
    · intro hzero
      rw [hzero h, ← h]
  · exact iff_of_true rfl fun hzero => absurd hzero h

theorem withDefault_effectiveOrSeed (p : Pod) :
    store.withDefault (store.effectiveOrSeed p) = store.effectiveOrSeed p := by
  have hseed : store.withDefault store.seed = store.seed := (withDefault_eq_iff _).mpr id
  rw [effectiveOrSeed, effective]
  cases store.readSidecar p with
  | error e => exact hseed
  | ok sidecar =>
      cases sidecar with
      | none => exact hseed
      | some u =>
          refine (withDefault_eq_iff _).mpr ?_
          change (store.withDefault u).limitBytes = 0 → _
          rw [withDefault]
          split_ifs with h
          · exact id
          · exact fun hzero => absurd hzero h

theorem withDefault_recordUsage {u : QuotaUsage} (h : store.withDefault u = u) (deltaBytes : Int) :
    store.withDefault (recordUsage deltaBytes u) = recordUsage deltaBytes u :=
  (withDefault_eq_iff _).mpr ((withDefault_eq_iff u).mp h)

theorem usage_goTo_store {u : QuotaUsage} (h : store.withDefault u = u) (p : Pod)
    (phase : CallPhase) : (s.goTo i (store.writeSidecar u p) phase).usage store = u := by
  rw [Recording.usage, effectiveOrSeed, effective, goTo_pod, readSidecar_writeSidecar]
  exact h

/-- A record neither saturates nor stops at zero when the sum is in range. -/
theorem toNat_recordUsage {deltaBytes : Int} {u : QuotaUsage}
    (hlow : 0 ≤ u.usedBytes.toNat + deltaBytes) (hhigh : u.usedBytes.toNat + deltaBytes ≤ maxU64) :
    ((recordUsage deltaBytes u).usedBytes.toNat : Int) = u.usedBytes.toNat + deltaBytes := by
  rw [recordUsage]
  simp only
  split_ifs with h
  · rw [toNat_saturatingAdd]
    omega
  · rw [toNat_saturatingSub]
    omega

/-! ## No record is lost -/

def CallPhase.isDone : CallPhase → Bool
  | .done => true
  | .ready | .admitted | .refused | .written | .loaded _ => false

section Sums

variable (store pod calls)

/-- The bytes that a group of calls records. -/
def total (D : Finset ι) : Int := ∑ i ∈ D, (calls i).deltaBytes

/-- No group of the calls takes the usage below zero or beyond 64 bits. -/
def InRange (u : QuotaUsage) : Prop :=
  ∀ D, 0 ≤ u.usedBytes.toNat + total calls D ∧ u.usedBytes.toNat + total calls D ≤ maxU64

/-- The usage is what some calls that have ended have made of the one at the start. -/
def Tally (start : QuotaUsage) (s : Recording ι) (u : QuotaUsage) : Prop :=
  ∃ D, (∀ j ∈ D, (s.phase j).isDone) ∧
    (u.usedBytes.toNat : Int) = start.usedBytes.toNat + total calls D

/-- The usage in the sidecar and those that calls have read. -/
structure Tallied (start : QuotaUsage) (s : Recording ι) : Prop where
  usage : Tally calls start s (s.usage store)
  loaded : ∀ i current, s.phase i = .loaded current →
    store.withDefault current = current ∧ Tally calls start s current

variable [Fintype ι]

/-- The calls whose record is written. -/
def Recording.recorded (s : Recording ι) : Finset ι :=
  Finset.univ.filter fun i => (s.phase i).isDone

/-- The usage is that at the start and the bytes of all records that are written. -/
def Accounted (start : QuotaUsage) (s : Recording ι) : Prop :=
  ((s.usage store).usedBytes.toNat : Int) = start.usedBytes.toNat + total calls s.recorded

/-- A record that is about to write has read the usage there is. -/
def Current (s : Recording ι) (i : ι) : Prop :=
  ∀ current, s.phase i = .loaded current → current.usedBytes = (s.usage store).usedBytes

end Sums

theorem total_insert {D : Finset ι} (h : i ∉ D) :
    total calls (insert i D) = (calls i).deltaBytes + total calls D :=
  Finset.sum_insert h

theorem Tally.goTo {start u : QuotaUsage} (h : Tally calls start s u)
    (hi : (s.phase i).isDone = false) (p : Pod) (phase : CallPhase) :
    Tally calls start (s.goTo i p phase) u := by
  obtain ⟨D, hD, hused⟩ := h
  refine ⟨D, fun j hj => ?_, hused⟩
  have hne : j ≠ i := by
    rintro rfl
    rw [hD j hj] at hi
    cases hi
  rw [goTo_phase, if_neg hne]
  exact hD j hj

theorem Tally.record {start u : QuotaUsage} (hrange : InRange calls start)
    (h : Tally calls start s u) (hi : (s.phase i).isDone = false) (p : Pod) :
    ((recordUsage (calls i).deltaBytes u).usedBytes.toNat : Int) =
        u.usedBytes.toNat + (calls i).deltaBytes ∧
      Tally calls start (s.goTo i p .done) (recordUsage (calls i).deltaBytes u) := by
  obtain ⟨D, hD, hused⟩ := h
  have hnotMem : i ∉ D := by
    intro hmem
    rw [hD i hmem] at hi
    cases hi
  have hinsert : total calls (insert i D) = _ := total_insert hnotMem
  obtain ⟨hlow, hhigh⟩ := hrange (insert i D)
  have hrecord := toNat_recordUsage (u := u) (by omega :
    0 ≤ (u.usedBytes.toNat : Int) + (calls i).deltaBytes) (by omega)
  refine ⟨hrecord, insert i D, fun j hj => ?_, by omega⟩
  rw [goTo_phase]
  split_ifs with hj'
  · rfl
  · exact hD j (Finset.mem_of_mem_insert_of_ne hj hj')

theorem RecordStepped.not_done (h : RecordStepped store calls s i t) :
    (s.phase i).isDone = false := by
  cases h with
  | moved hold | loaded hold => rcases hold with hold | hold <;> rw [hold] <;> rfl
  | stored hold => rw [hold]; rfl

theorem Tallied.step {start : QuotaUsage} (hrange : InRange calls start)
    (hs : Tallied store calls start s) (h : RecordStepped store calls s i t) :
    Tallied store calls start t := by
  have hi := h.not_done
  have hloaded : ∀ (p : Pod) (phase : CallPhase),
      (∀ current, phase = .loaded current → current = s.usage store) →
        ∀ j current, (s.goTo i p phase).phase j = .loaded current →
          store.withDefault current = current ∧
            Tally calls start (s.goTo i p phase) current := by
    intro p phase hphase j current hj
    rw [goTo_phase] at hj
    split_ifs at hj with hji
    · rw [hphase current hj]
      exact ⟨withDefault_effectiveOrSeed s.pod, hs.usage.goTo hi p phase⟩
    · obtain ⟨hdefault, htally⟩ := hs.loaded j current hj
      exact ⟨hdefault, htally.goTo hi p phase⟩
  cases h with
  | @moved p phase hold hnew hsidecar =>
      refine ⟨?_, hloaded p phase ?_⟩
      · rw [usage_congr (t := s) hsidecar]
        exact hs.usage.goTo hi p phase
      · rintro current rfl
        rcases hnew with hnew | hnew | hnew <;> cases hnew
  | loaded hold =>
      refine ⟨hs.usage.goTo hi _ _, hloaded s.pod _ ?_⟩
      intro current heq
      exact (CallPhase.loaded.inj heq).symm
  | @stored current hold =>
      obtain ⟨hdefault, htally⟩ := hs.loaded i current hold
      refine ⟨?_, hloaded _ .done nofun⟩
      rw [usage_goTo_store (withDefault_recordUsage hdefault _) _]
      exact (htally.record hrange hi _).2

section Records

variable [Fintype ι]

theorem recorded_goTo (hi : (s.phase i).isDone = false) (p : Pod) {phase : CallPhase}
    (hphase : phase.isDone = false) : (s.goTo i p phase).recorded = s.recorded := by
  refine Finset.filter_congr fun j _ => ?_
  rw [goTo_phase]
  split_ifs with hji
  · rw [hji, hi, hphase]
  · rfl

theorem recorded_goTo_done (p : Pod) : (s.goTo i p .done).recorded = insert i s.recorded := by
  ext j
  rw [Finset.mem_insert, Recording.recorded, Recording.recorded, Finset.mem_filter_univ,
    Finset.mem_filter_univ, goTo_phase]
  split_ifs with hji
  · simp [hji, CallPhase.isDone]
  · simp [hji]

theorem Accounted.step_iff {start : QuotaUsage} (hrange : InRange calls start)
    (hs : Tallied store calls start s) (haccounted : Accounted store calls start s)
    (h : RecordStepped store calls s i t) :
    Accounted store calls start t ↔ Current store s i := by
  have hi := h.not_done
  cases h with
  | @moved p phase hold hnew hsidecar =>
      have hphase : phase.isDone = false := by
        rcases hnew with rfl | rfl | rfl <;> rfl
      refine iff_of_true ?_ ?_
      · rw [Accounted, recorded_goTo hi p hphase, usage_congr (t := s) hsidecar]
        exact haccounted
      · intro current hcurrent
        rcases hold with hold | hold <;> rw [hold] at hcurrent <;> cases hcurrent
  | loaded hold =>
      refine iff_of_true ?_ ?_
      · rw [Accounted, recorded_goTo hi _ rfl]
        exact haccounted
      · intro current hcurrent
        rcases hold with hold | hold <;> rw [hold] at hcurrent <;> cases hcurrent
  | @stored current hold =>
      obtain ⟨hdefault, htally⟩ := hs.loaded i current hold
      have hrecord := (htally.record hrange hi s.pod).1
      have hnotMem : i ∉ s.recorded := by
        rw [Recording.recorded, Finset.mem_filter_univ, hi]
        exact Bool.false_ne_true
      have hcurrent : Current store s i ↔
          (current.usedBytes.toNat : Int) = (s.usage store).usedBytes.toNat := by
        rw [Int.natCast_inj, UInt64.toNat_inj]
        constructor
        · intro h
          exact h current hold
        · intro h current' hold'
          cases hold.symm.trans hold'
          exact h
      have hinsert : total calls (insert i s.recorded) = _ := total_insert hnotMem
      rw [Accounted] at haccounted
      rw [hcurrent, Accounted, recorded_goTo_done, hinsert,
        usage_goTo_store (withDefault_recordUsage hdefault _), hrecord, haccounted]
      omega

end Records

/-! ## The limit is kept -/

/-- The usage is not over its limit; a limit of zero is none. -/
def QuotaUsage.Within (u : QuotaUsage) : Prop := u.limitBytes = 0 ∨ u.usedBytes ≤ u.limitBytes

theorem saturatingAdd_zero (a : UInt64) : saturatingAdd a 0 = a := by
  have hlt := a.toNat_lt
  rw [← UInt64.toNat_inj, toNat_saturatingAdd]
  change min (a.toNat + 0) (2 ^ 64 - 1) = a.toNat
  omega

/-- A write that is recorded for a usage keeps the limit exactly when the check
of that usage accepts it. -/
theorem within_recordUsage_iff (pod : Str) (size : UInt64) {u : QuotaUsage} (h : u.Within) :
    (recordUsage size.toNat u).Within ↔ (checkUsage pod size u).isOk := by
  have hused : (recordUsage size.toNat u).usedBytes = saturatingAdd u.usedBytes size.toNat := by
    rw [recordUsage]
    simp only [Int.natCast_nonneg, if_true, Int.toNat_natCast]
  have hlimit : (recordUsage size.toNat u).limitBytes = u.limitBytes := rfl
  rw [QuotaUsage.Within, hused, hlimit, checkUsage]
  split_ifs with hzero hnone hover
  · rw [hzero, UInt64.toNat_zero, saturatingAdd_zero]
    exact iff_of_true h rfl
  · exact iff_of_true (.inl hnone) rfl
  · refine iff_of_false ?_ Bool.false_ne_true
    rintro (hnone' | hle)
    · exact hnone hnone'
    · exact absurd hover (UInt64.not_lt.mpr hle)
  · exact iff_of_true (.inr (UInt64.not_lt.mp hover)) rfl

section Limit

variable (store pod calls)

/-- A write that is about to be recorded is one that its check would accept for
the usage that the record has read. -/
def Fits (s : Recording ι) (i : ι) : Prop :=
  ∀ current name size, s.phase i = .loaded current → calls i = .write name size →
    (checkUsage pod size current).isOk

/-- The usages that calls have read are within their limit. -/
def LoadedWithin (s : Recording ι) : Prop :=
  ∀ i current, s.phase i = .loaded current → store.withDefault current = current ∧ current.Within

end Limit

theorem LoadedWithin.goTo (hs : LoadedWithin store s) (hwithin : (s.usage store).Within) (p : Pod)
    {phase : CallPhase} (hphase : ∀ current, phase = .loaded current → current = s.usage store) :
    LoadedWithin store (s.goTo i p phase) := by
  intro j current hj
  rw [goTo_phase] at hj
  split_ifs at hj with hji
  · rw [hphase current hj]
    exact ⟨withDefault_effectiveOrSeed s.pod, hwithin⟩
  · exact hs j current hj

theorem LoadedWithin.step (hs : LoadedWithin store s) (hwithin : (s.usage store).Within)
    (hchecked : (calls i).Checked) (h : RecordStepped store calls s i t) :
    LoadedWithin store t ∧ ((t.usage store).Within ↔ Fits pod calls s i) := by
  cases h with
  | @moved p phase hold hnew hsidecar =>
      refine ⟨hs.goTo hwithin p ?_, iff_of_true ?_ ?_⟩
      · rintro current rfl
        rcases hnew with hnew | hnew | hnew <;> cases hnew
      · rw [usage_congr (t := s) hsidecar]
        exact hwithin
      · intro current name size hcurrent
        rcases hold with hold | hold <;> rw [hold] at hcurrent <;> cases hcurrent
  | loaded hold =>
      refine ⟨hs.goTo hwithin _ ?_, iff_of_true hwithin ?_⟩
      · intro current heq
        exact (CallPhase.loaded.inj heq).symm
      · intro current name size hcurrent
        rcases hold with hold | hold <;> rw [hold] at hcurrent <;> cases hcurrent
  | @stored current hold =>
      refine ⟨hs.goTo hwithin _ nofun, ?_⟩
      obtain ⟨hdefault, hcurrent⟩ := hs i current hold
      rw [usage_goTo_store (withDefault_recordUsage hdefault _) _]
      cases hcall : calls i with
      | record deltaBytes =>
          rw [hcall] at hchecked
          cases hchecked
      | write name size =>
          rw [QuotaCall.deltaBytes, within_recordUsage_iff pod size hcurrent]
          constructor
          · intro hok current' name' size' hold' hcall'
            cases hold.symm.trans hold'
            cases hcall.symm.trans hcall'
            exact hok
          · intro hfits
            exact hfits current name size hold hcall

/-! ## Runs -/

section Runs

variable [Fintype ι]

variable (store pod calls) in
/-- In every state of a run the usage is that at the start and the bytes of the
records that are written, exactly when each record writes to the usage that it has
read. Where every call checks, the limit is kept in every state exactly when each
check would still accept its write for that usage. -/
theorem accounted_and_within_iff (p : Pod) (hrange : InRange calls (store.effectiveOrSeed p))
    (sched : List ι) :
    (Schedule.Throughout (recordStep store pod calls)
        (Accounted store calls (store.effectiveOrSeed p)) (.start p) sched ↔
      Schedule.Along (recordStep store pod calls) (Current store) (.start p) sched) ∧
    ((∀ i, (calls i).Checked) → (store.effectiveOrSeed p).Within →
      (Schedule.Throughout (recordStep store pod calls)
          (fun s => (s.usage store).Within) (.start p) sched ↔
        Schedule.Along (recordStep store pod calls) (Fits pod calls) (.start p) sched)) := by
  have hstart : ∀ (i : ι) (current : QuotaUsage), (Recording.start p).phase i ≠ .loaded current :=
    fun _ _ => nofun
  constructor
  · refine Schedule.throughout_iff_along (I := Tallied store calls (store.effectiveOrSeed p))
      ?_ ?_ ?_ ?_
    · intro s i hnone current hphase
      exact absurd hphase (ne_loaded_of_none hnone current)
    · intro s i t hs haccounted hstep
      exact ⟨hs.step hrange (recordStepped hstep),
        haccounted.step_iff hrange hs (recordStepped hstep)⟩
    · refine ⟨⟨∅, nofun, ?_⟩, fun i current h => absurd h (hstart i current)⟩
      rw [total, Finset.sum_empty, add_zero]
      rfl
    · have hrecorded : (Recording.start p : Recording ι).recorded = ∅ :=
        Finset.filter_eq_empty_iff.mpr fun i _ => Bool.false_ne_true
      rw [Accounted, hrecorded, total, Finset.sum_empty, add_zero]
      rfl
  · intro hchecked hwithin
    refine Schedule.throughout_iff_along (I := LoadedWithin store) ?_ ?_ ?_ hwithin
    · intro s i hnone current name size hphase
      exact absurd hphase (ne_loaded_of_none hnone current)
    · intro s i t hs hP hstep
      exact hs.step hP (hchecked i) (recordStepped hstep)
    · exact fun i current h => absurd h (hstart i current)

end Runs

/-! ## Two calls at the same time -/

/-- Both callers want to write sixty bytes. -/
def sixties : Bool → QuotaCall := fun _ => .write "a" 60

theorem inRange_sixties : InRange sixties hundredStore.seed := by
  unfold InRange total sixties
  decide

theorem accounted_and_within_sixties :
    (Schedule.Throughout (recordStep hundredStore "pod" sixties)
        (Accounted hundredStore sixties hundredStore.seed) (.start ⟨none, []⟩)
        [false, false, false, false, true] ↔
      Schedule.Along (recordStep hundredStore "pod" sixties) (Current hundredStore)
        (.start ⟨none, []⟩) [false, false, false, false, true]) ∧
    (Schedule.Throughout (recordStep hundredStore "pod" sixties)
        (fun s => (s.usage hundredStore).Within) (.start ⟨none, []⟩)
        [false, false, false, false, true] ↔
      Schedule.Along (recordStep hundredStore "pod" sixties) (Fits "pod" sixties)
        (.start ⟨none, []⟩) [false, false, false, false, true]) := by
  have h := accounted_and_within_iff hundredStore "pod" sixties ⟨none, []⟩ inRange_sixties
    [false, false, false, false, true]
  exact ⟨h.1, h.2 (fun _ => trivial) (.inr (by decide))⟩

/-- Two records of a byte that are both read before either is written count one
byte, and two files whose checks both come first go over the limit. -/
theorem racing_loses :
    (¬ ∀ (store : FsQuotaStore) (pod : Str) (calls : Bool → QuotaCall) (p : Pod)
      (sched : List Bool) (v : Recording Bool), InRange calls (store.effectiveOrSeed p) →
        Schedule.run (recordStep store pod calls) (.start p) sched = some v →
          (∀ i, v.phase i = .done) → ((v.usage store).usedBytes.toNat : Int) =
            (store.effectiveOrSeed p).usedBytes.toNat + total calls Finset.univ) ∧
    ¬ ∀ (store : FsQuotaStore) (pod : Str) (calls : Bool → QuotaCall) (p : Pod)
      (sched : List Bool) (v : Recording Bool), InRange calls (store.effectiveOrSeed p) →
        (∀ i, (calls i).Checked) → (store.effectiveOrSeed p).Within →
          Schedule.run (recordStep store pod calls) (.start p) sched = some v →
            (v.usage store).Within := by
  constructor
  · intro h
    have hrange : InRange (fun _ : Bool => .record 1) hundredStore.seed := by
      unfold InRange total
      decide
    have hlost := h hundredStore "pod" (fun _ => .record 1) ⟨none, []⟩ [false, true, false, true] _
      hrange rfl (fun i => by cases i <;> rfl)
    change ((Recording.usage hundredStore (Recording.goTo _ true
      (hundredStore.writeSidecar ⟨1, 100⟩ _) .done)).usedBytes.toNat : Int) = _ at hlost
    rw [usage_goTo_store rfl] at hlost
    exact absurd hlost (by unfold total; decide)
  · intro h
    have hover := h hundredStore "pod" sixties ⟨none, []⟩
      [false, true, false, true, false, false, true, true] _ inRange_sixties (fun _ => trivial)
      (.inr (by decide)) rfl
    change (Recording.usage hundredStore (Recording.goTo _ true
      (hundredStore.writeSidecar ⟨120, 100⟩ _) .done)).Within at hover
    rw [usage_goTo_store rfl] at hover
    rcases hover with hnone | hle
    · exact absurd hnone (by decide)
    · exact absurd hle (by decide)

end Steps

end Quota

end SolidPod
