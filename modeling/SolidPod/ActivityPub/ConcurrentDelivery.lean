import Mathlib.Logic.Function.Basic
import SolidPod.ActivityPub.Delivery
import SolidPod.Foundation.Schedule

/-!
# Concurrent calls of the delivery worker

Calls of the worker that share a store pick a row, load its activity, send the
request, settle the row and mark the activity in separate steps. A row that is
picked is not marked as taken, so another call can pick it before it is settled.
A row that was delivered is not sent again as long as this does not happen to
it.
-/

namespace SolidPod

open Foundation

namespace ActivityPub

/-- How far a call of `drainOnce` has got. -/
inductive DrainPhase where
  | ready
  | picked (item : DeliveryItem)
  | orphan (queueId : Nat)
  | signed (item : DeliveryItem)
  | sent (item : DeliveryItem)
  | settled (item : DeliveryItem) (state : Str)
  | done

namespace DrainPhase

/-- The row that a call has in hand and has not settled. -/
def row : DrainPhase → Option Nat
  | .picked item | .signed item | .sent item => some item.queueId
  | .ready | .orphan _ | .settled _ _ | .done => none

def isSent : DrainPhase → Bool
  | .sent _ => true
  | _ => false

/-- The request was sent and the row settled. -/
def isPast : DrainPhase → Bool
  | .settled _ _ | .done => true
  | _ => false

end DrainPhase

/-- A request that a call has sent for a row. -/
structure Post (ι : Type*) where
  call : ι
  queueId : Nat

structure Delivering (ι : Type*) where
  store : Store
  phase : ι → DrainPhase
  posts : List (Post ι)

section Steps

variable {ι : Type*} [DecidableEq ι] (lib : SigLibrary) (serde : SerdeJson)
  (config : DeliveryConfig) (calls : ι → Drain)

/-- No call has begun. -/
def Delivering.start (store : Store) : Delivering ι := ⟨store, fun _ => .ready, []⟩

/-- The call goes on to a phase. -/
def Delivering.goTo (u : Delivering ι) (i : ι) (store : Store) (phase : DrainPhase) :
    Delivering ι :=
  { u with store := store, phase := Function.update u.phase i phase }

/-- The next step of a call. -/
def drainStep (u : Delivering ι) (i : ι) : Option (Delivering ι) :=
  match u.phase i with
  | .ready =>
    match u.store.nextDueDelivery (calls i).select with
    | (.ok (some item), s) => some (u.goTo i s (.picked item))
    | (.ok none, s) | (.error _, s) => some (u.goTo i s .done)
  | .picked item =>
    match u.store.loadActivity serde (calls i).load item.activityId with
    | (.error _, s) => some (u.goTo i s .done)
    | (.ok none, s) => some (u.goTo i s (.orphan item.queueId))
    | (.ok (some activity), s) =>
      match prepare lib serde config (calls i).date item activity with
      | .error _ => some (u.goTo i s .done)
      | .ok _ => some (u.goTo i s (.signed item))
  | .orphan queueId => some (u.goTo i (u.store.dropDelivery (calls i).settle queueId).2 .done)
  | .signed item =>
    some { u.goTo i u.store (.sent item) with posts := u.posts ++ [⟨i, item.queueId⟩] }
  | .sent item =>
    match settleRow (calls i).settle item.queueId u.store (settlement item (calls i).answer) with
    | (.error _, s) => some (u.goTo i s .done)
    | (.ok _, s) =>
      match (settlement item (calls i).answer).state with
      | none => some (u.goTo i s .done)
      | some state => some (u.goTo i s (.settled item state))
  | .settled item state =>
    some (u.goTo i (u.store.markOutboxState (calls i).mark item.activityId state).2 .done)
  | .done => none

/-! ## A call on its own -/

/-- The call, left alone, comes to an end with a store. -/
def Finishes (u : Delivering ι) (i : ι) (s : Store) : Prop :=
  ∃ n v, Schedule.run (drainStep lib serde config calls) u (List.replicate n i) = some v ∧
    v.phase i = .done ∧ v.store = s

variable {lib serde config calls} {u v : Delivering ι} {i : ι}

@[simp] theorem goTo_store (s : Store) (phase : DrainPhase) : (u.goTo i s phase).store = s := rfl

@[simp] theorem goTo_posts (s : Store) (phase : DrainPhase) : (u.goTo i s phase).posts = u.posts :=
  rfl

theorem goTo_phase (s : Store) (phase : DrainPhase) (j : ι) :
    (u.goTo i s phase).phase j = if j = i then phase else u.phase j :=
  Function.update_apply _ _ _ _

@[simp] theorem goTo_phase_self (s : Store) (phase : DrainPhase) :
    (u.goTo i s phase).phase i = phase :=
  Function.update_self _ _ _

theorem Finishes.done (h : u.phase i = .done) : Finishes lib serde config calls u i u.store :=
  ⟨0, u, rfl, h, rfl⟩

theorem Finishes.step {s : Store} (hstep : drainStep lib serde config calls u i = some v)
    (h : Finishes lib serde config calls v i s) : Finishes lib serde config calls u i s := by
  obtain ⟨n, w, hrun, hphase, hstore⟩ := h
  refine ⟨n + 1, w, ?_, hphase, hstore⟩
  rw [List.replicate_succ, Schedule.run, List.foldlM_cons, hstep]
  exact hrun

/-- The step that ends the call. -/
theorem Finishes.last {s : Store}
    (hstep : drainStep lib serde config calls u i = some (u.goTo i s .done)) :
    Finishes lib serde config calls u i s :=
  .step hstep (.done (goTo_phase_self s .done))

theorem finishes_sent {item : DeliveryItem} (h : u.phase i = .sent item) :
    Finishes lib serde config calls u i (settle (calls i) item u.store).2 := by
  rw [settle]
  rcases hrow : settleRow (calls i).settle item.queueId u.store (settlement item (calls i).answer)
    with ⟨e | n, s⟩
  · exact .last (by simp only [drainStep, h, hrow])
  · cases hstate : (settlement item (calls i).answer).state with
    | none => exact .last (by simp only [drainStep, h, hrow, hstate])
    | some state =>
        simp only
        refine .step (v := u.goTo i s (.settled item state))
          (by simp only [drainStep, h, hrow, hstate]) ?_
        rcases hmark : s.markOutboxState (calls i).mark item.activityId state with ⟨e | m, t⟩
        · exact .last (by simp only [drainStep, goTo_phase_self, goTo_store, hmark])
        · exact .last (by simp only [drainStep, goTo_phase_self, goTo_store, hmark])

/-- A call that is not disturbed does what `drainOnce` does. -/
theorem finishes_start (s : Store) (i : ι) : Finishes lib serde config calls (.start s) i
    (drainOnce lib serde config s (calls i)).2 := by
  rw [drainOnce]
  rcases hselect : s.nextDueDelivery (calls i).select with ⟨e | item | item, s₁⟩
  · exact .last (by simp only [drainStep, Delivering.start, hselect])
  · exact .last (by simp only [drainStep, Delivering.start, hselect])
  · simp only
    refine .step (v := (Delivering.start s).goTo i s₁ (.picked item))
      (by simp only [drainStep, Delivering.start, hselect]) ?_
    rcases hload : s₁.loadActivity serde (calls i).load item.activityId with
      ⟨e | activity | activity, s₂⟩
    · exact .last (by simp only [drainStep, goTo_phase_self, goTo_store, hload])
    · refine .step (v := ((Delivering.start s).goTo i s₁ (.picked item)).goTo i s₂
        (.orphan item.queueId)) (by simp only [drainStep, goTo_phase_self, goTo_store, hload]) ?_
      rcases hdrop : s₂.dropDelivery (calls i).settle item.queueId with ⟨e | n, s₃⟩
      · exact .last (by simp only [drainStep, goTo_phase_self, goTo_store, hdrop])
      · exact .last (by simp only [drainStep, goTo_phase_self, goTo_store, hdrop])
    · simp only
      cases hprepare : prepare lib serde config (calls i).date item activity with
      | error e =>
          exact .last (by simp only [drainStep, goTo_phase_self, goTo_store, hload, hprepare])
      | ok request =>
          refine .step (v := ((Delivering.start s).goTo i s₁ (.picked item)).goTo i s₂
            (.signed item))
            (by simp only [drainStep, goTo_phase_self, goTo_store, hload, hprepare]) ?_
          refine .step (by simp only [drainStep, goTo_phase_self]; rfl) (finishes_sent ?_)
          exact goTo_phase_self s₂ (.sent item)

/-- The network answers with success. -/
def Drain.Succeeds (d : Drain) : Prop := ∃ status, d.answer = .ok status ∧ isSuccess status

/-- What a step can do to the queue, the phases and the posts. -/
inductive DrainStepped (calls : ι → Drain) (u : Delivering ι) (i : ι) : Delivering ι → Prop
  | quiet {phase : DrainPhase} {s : Store} (hphase : (u.phase i).isSent = false)
      (hpast : (u.phase i).isPast = true → phase.isPast = true)
      (hrow : phase.row = none ∨ phase.row = (u.phase i).row) (hsent : phase.isSent = false)
      (hqueue : s.deliveryQueue = u.store.deliveryQueue) :
      DrainStepped calls u i (u.goTo i s phase)
  | picked {item : DeliveryItem} (hphase : u.phase i = .ready)
      (hselect : (u.store.nextDueDelivery (calls i).select).1 = .ok (some item)) :
      DrainStepped calls u i (u.goTo i u.store (.picked item))
  | dropped {s : Store} (queueId : Nat) (hphase : u.phase i = .orphan queueId)
      (hqueue : s.deliveryQueue = u.store.deliveryQueue.remove queueId) :
      DrainStepped calls u i (u.goTo i s .done)
  | sent {item : DeliveryItem} (hphase : u.phase i = .signed item) :
      DrainStepped calls u i
        { u.goTo i u.store (.sent item) with posts := u.posts ++ [⟨i, item.queueId⟩] }
  | settled {item : DeliveryItem} {phase : DrainPhase} {s : Store}
      (hphase : u.phase i = .sent item) (hpast : phase.isPast = true)
      (hfault : (calls i).settle.fault = none)
      (hqueue : s.deliveryQueue = (settlement item (calls i).answer).queue (calls i).settle.now
        item.queueId u.store.deliveryQueue) :
      DrainStepped calls u i (u.goTo i s phase)
  | unsettled {item : DeliveryItem} (hphase : u.phase i = .sent item)
      (hfault : (calls i).settle.fault ≠ none) :
      DrainStepped calls u i (u.goTo i u.store .done)

theorem nextDueDelivery_snd (turn : Turn) (s : Store) : (s.nextDueDelivery turn).2 = s := by
  rw [Store.nextDueDelivery]
  cases hfault : turn.fault with
  | none => rw [Turn.execute_of_no_fault hfault]
  | some e => rw [Turn.execute_of_fault hfault]

variable (serde) in
theorem loadActivity_snd (turn : Turn) (id : Str) (s : Store) :
    (s.loadActivity serde turn id).2 = s := by
  rw [Store.loadActivity]
  cases hfault : turn.fault with
  | none => rw [Turn.execute_of_no_fault hfault]
  | some e => rw [Turn.execute_of_fault hfault]

theorem dropDelivery_snd (turn : Turn) (queueId : Nat) (s : Store) :
    (s.dropDelivery turn queueId).2 = s ∨
      (s.dropDelivery turn queueId).2.deliveryQueue = s.deliveryQueue.remove queueId := by
  rw [Store.dropDelivery]
  cases hfault : turn.fault with
  | none =>
      right
      rw [Turn.execute_of_no_fault hfault]
  | some e =>
      left
      rw [Turn.execute_of_fault hfault]

theorem markOutboxState_queue (turn : Turn) (id state : Str) (s : Store) :
    (s.markOutboxState turn id state).2.deliveryQueue = s.deliveryQueue := by
  rw [Store.markOutboxState]
  cases hfault : turn.fault with
  | none => rw [Turn.execute_of_no_fault hfault]
  | some e => rw [Turn.execute_of_fault hfault]

theorem settleRow_of_fault {turn : Turn} {e : SqlxError} (h : turn.fault = some e) (queueId : Nat)
    (s : Store) (settlement : Settlement) :
    settleRow turn queueId s settlement = (.error e, s) := by
  cases settlement with
  | deliver | fail => rw [settleRow, Store.dropDelivery, Turn.execute_of_fault h]
  | retry => rw [settleRow, Store.rescheduleDelivery, Turn.execute_of_fault h]

theorem drainStepped_of_step (h : drainStep lib serde config calls u i = some v) :
    DrainStepped calls u i v := by
  rw [drainStep] at h
  cases hphase : u.phase i with
  | done => simp [hphase] at h
  | ready =>
      have hstore := nextDueDelivery_snd (calls i).select u.store
      rcases hselect : u.store.nextDueDelivery (calls i).select with ⟨answer, s⟩
      rw [hselect] at hstore
      obtain rfl : s = u.store := hstore
      rcases answer with e | item | item
      · simp only [hphase, hselect, Option.some.injEq] at h
        rw [← h]
        exact .quiet (by rw [hphase]; rfl) (by rw [hphase]; exact nofun) (Or.inl rfl) rfl rfl
      · simp only [hphase, hselect, Option.some.injEq] at h
        rw [← h]
        exact .quiet (by rw [hphase]; rfl) (by rw [hphase]; exact nofun) (Or.inl rfl) rfl rfl
      · simp only [hphase, hselect, Option.some.injEq] at h
        rw [← h]
        exact .picked hphase (by rw [hselect])
  | picked item =>
      have hstore := loadActivity_snd serde (calls i).load item.activityId u.store
      rcases hload : u.store.loadActivity serde (calls i).load item.activityId with ⟨answer, s⟩
      rw [hload] at hstore
      obtain rfl : s = u.store := hstore
      have hnotSent : (u.phase i).isSent = false := by
        rw [hphase]
        rfl
      have hnotPast : ∀ phase : DrainPhase, (u.phase i).isPast = true → phase.isPast = true := by
        rw [hphase]
        exact nofun
      simp only [hphase, hload] at h
      rcases answer with e | activity | activity
      · cases h
        exact .quiet hnotSent (hnotPast _) (Or.inl rfl) rfl rfl
      · cases h
        exact .quiet hnotSent (hnotPast _) (Or.inl rfl) rfl rfl
      · simp only at h
        split at h
        · cases h
          exact .quiet hnotSent (hnotPast _) (Or.inl rfl) rfl rfl
        · cases h
          exact .quiet hnotSent (hnotPast _) (Or.inr (by rw [hphase]; rfl)) rfl rfl
  | orphan queueId =>
      simp only [hphase, Option.some.injEq] at h
      rw [← h]
      rcases dropDelivery_snd (calls i).settle queueId u.store with hsame | hremoved
      · rw [hsame]
        exact .quiet (by rw [hphase]; rfl) (by rw [hphase]; exact nofun) (Or.inl rfl) rfl rfl
      · exact .dropped queueId hphase hremoved
  | signed item =>
      simp only [hphase, Option.some.injEq] at h
      rw [← h]
      exact .sent hphase
  | sent item =>
      simp only [hphase] at h
      cases hfault : (calls i).settle.fault with
      | some e =>
          rw [settleRow_of_fault hfault] at h
          cases h
          exact .unsettled hphase (by rw [hfault]; exact Option.some_ne_none e)
      | none =>
          obtain ⟨n, t, hsettle, hqueue⟩ := settleRow_of_no_fault hfault item.queueId u.store
            (settlement item (calls i).answer)
          rw [hsettle] at h
          simp only at h
          split at h
          · cases h
            exact .settled hphase rfl hfault hqueue
          · cases h
            exact .settled hphase rfl hfault hqueue
  | settled item state =>
      simp only [hphase, Option.some.injEq] at h
      rw [← h]
      exact .quiet (by rw [hphase]; rfl) (fun _ => rfl) (Or.inl rfl) rfl
        (markOutboxState_queue _ _ _ _)

/-! ## What holds in every run -/

theorem get?_of_nextDueDelivery {turn : Turn} {s : Store} {item : DeliveryItem}
    (h : (s.nextDueDelivery turn).1 = .ok (some item)) :
    ∃ row, s.deliveryQueue.get? item.queueId = some row := by
  rw [Store.nextDueDelivery] at h
  cases hfault : turn.fault with
  | some e =>
      rw [Turn.execute_of_fault hfault] at h
      cases h
  | none =>
      rw [Turn.execute_of_no_fault hfault] at h
      obtain ⟨⟨i, row⟩, hfirst, rfl⟩ := Option.map_eq_some_iff.mp (Except.ok.inj h)
      exact ⟨row, (SerialTable.first_eq_some_iff.mp hfirst).1⟩

/-- The requests that were sent for a row by calls that have settled it. -/
def settledPosts (u : Delivering ι) (queueId : Nat) : Nat :=
  u.posts.countP fun p => p.queueId = queueId ∧ (u.phase p.call).isSent = false

theorem countP_lt_of_mem {α : Type*} {p q : α → Bool} {l : List α} {a : α} (ha : a ∈ l)
    (hpq : ∀ x ∈ l, p x = true → q x = true) (hp : p a = false) (hq : q a = true) :
    l.countP p + 1 ≤ l.countP q := by
  obtain ⟨l₁, l₂, rfl⟩ := List.mem_iff_append.mp ha
  have h₁ := List.countP_mono_left (l := l₁) fun x hx => hpq x (List.mem_append_left _ hx)
  have h₂ := List.countP_mono_left (l := l₂) fun x hx =>
    hpq x (List.mem_append_right _ (List.mem_cons_of_mem a hx))
  rw [List.countP_append, List.countP_append, List.countP_cons_of_neg (by simp [hp]),
    List.countP_cons_of_pos hq]
  omega

/-- A row that was delivered is not sent again, and no row is attempted less often
than its counter says. -/
structure AtMostOnce (calls : ι → Drain) (before : Store) (u : Delivering ι) : Prop where
  notAgain : u.posts.Pairwise fun p q => (calls p.call).Succeeds → q.queueId ≠ p.queueId
  attempts : ∀ queueId row row', before.deliveryQueue.get? queueId = some row →
    u.store.deliveryQueue.get? queueId = some row' →
    row'.attempts ≤ row.attempts + u.posts.countP fun p => p.queueId = queueId

/-- A call picks no row that another one has in hand if one of the two succeeds,
and a row that was delivered is dropped. -/
structure Exclusive (calls : ι → Drain) (u : Delivering ι) (i : ι) : Prop where
  picked : ∀ item, u.phase i = .ready →
    (u.store.nextDueDelivery (calls i).select).1 = .ok (some item) →
    ∀ j, (u.phase j).row = some item.queueId → ¬ (calls i).Succeeds ∧ ¬ (calls j).Succeeds
  dropped : ∀ item, u.phase i = .sent item → (calls i).Succeeds → (calls i).settle.fault = none

structure DeliveryInv (calls : ι → Drain) (before : Store) (u : Delivering ι) : Prop where
  past : ∀ p ∈ u.posts, (∃ item, u.phase p.call = .sent item ∧ item.queueId = p.queueId) ∨
    (u.phase p.call).isPast = true
  logged : ∀ j item, u.phase j = .sent item → ⟨j, item.queueId⟩ ∈ u.posts
  apart : ∀ j k queueId, j ≠ k → (u.phase j).row = some queueId → (u.phase k).row = some queueId →
    ¬ (calls j).Succeeds
  delivered : ∀ p ∈ u.posts, (calls p.call).Succeeds →
    (∃ item, u.phase p.call = .sent item ∧ item.queueId = p.queueId) ∨
      u.store.deliveryQueue.get? p.queueId = none ∧ ∀ j, (u.phase j).row ≠ some p.queueId
  counted : ∀ queueId row row', before.deliveryQueue.get? queueId = some row →
    u.store.deliveryQueue.get? queueId = some row' →
    row'.attempts ≤ row.attempts + settledPosts u queueId
  notAgain : u.posts.Pairwise fun p q => (calls p.call).Succeeds → q.queueId ≠ p.queueId

variable {before : Store}

omit [DecidableEq ι] in
theorem DeliveryInv.start (calls : ι → Drain) (before : Store) :
    DeliveryInv calls before (.start before) where
  past _ h := nomatch h
  logged _ _ h := nomatch h
  apart _ _ _ _ h := nomatch h
  delivered _ h := nomatch h
  counted queueId row row' h h' := by
    rw [Delivering.start, h] at h'
    cases h'
    exact Nat.le_add_right _ _
  notAgain := .nil

theorem settlement_of_succeeds {d : Drain} (h : d.Succeeds) (item : DeliveryItem) :
    settlement item d.answer = .deliver := by
  obtain ⟨status, hanswer, hsuccess⟩ := h
  rw [hanswer, settlement, if_pos hsuccess]

/-- A row that is still there after it was settled was attempted once more. -/
theorem get?_of_queue {now queueId : Nat} {q : SerialTable QueueRow} {settlement : Settlement}
    {row' : QueueRow} (h : (settlement.queue now queueId q).get? queueId = some row') :
    ∃ row, q.get? queueId = some row ∧ row'.attempts = row.attempts + 1 := by
  cases settlement with
  | deliver | fail =>
      rw [Settlement.queue, SerialTable.get?_remove, if_pos rfl] at h
      cases h
  | retry delaySecs error =>
      rw [Settlement.queue, SerialTable.get?_modify, if_pos rfl] at h
      obtain ⟨row, hrow, rfl⟩ := Option.map_eq_some_iff.mp h
      exact ⟨row, hrow, rfl⟩

theorem settledPosts_of_phase {phase : DrainPhase} {s : Store} (queueId : Nat)
    (hold : (u.phase i).isSent = false) (hnew : phase.isSent = false) :
    settledPosts (u.goTo i s phase) queueId = settledPosts u queueId := by
  refine List.countP_congr fun p _ => ?_
  rw [goTo_phase]
  split_ifs with hi
  · rw [hi, hold, hnew]
  · rfl

theorem settledPosts_le {phase : DrainPhase} {s : Store} (queueId : Nat)
    (hnew : phase.isSent = false) :
    settledPosts u queueId ≤ settledPosts (u.goTo i s phase) queueId := by
  refine List.countP_mono_left fun p _ hp => ?_
  rw [decide_eq_true_iff] at hp ⊢
  refine ⟨hp.1, ?_⟩
  rw [goTo_phase]
  split_ifs
  · exact hnew
  · exact hp.2

theorem settledPosts_lt {phase : DrainPhase} {s : Store} {item : DeliveryItem}
    (hlogged : ⟨i, item.queueId⟩ ∈ u.posts) (hphase : u.phase i = .sent item)
    (hnew : phase.isSent = false) :
    settledPosts u item.queueId + 1 ≤ settledPosts (u.goTo i s phase) item.queueId := by
  refine countP_lt_of_mem hlogged (fun p _ hp => ?_) ?_ ?_
  · rw [decide_eq_true_iff] at hp ⊢
    refine ⟨hp.1, ?_⟩
    rw [goTo_phase]
    split_ifs
    · exact hnew
    · exact hp.2
  · simp [hphase, DrainPhase.isSent]
  · simp [hnew]

/-- A call goes on without picking a row and without sending. -/
theorem DeliveryInv.move {phase : DrainPhase} {s : Store} (hinv : DeliveryInv calls before u)
    (hnew : phase.isSent = false)
    (hpast : (u.phase i).isPast = true ∨ (u.phase i).isSent = true → phase.isPast = true)
    (hrow : phase.row = none ∨ (u.phase i).isSent = false ∧ phase.row = (u.phase i).row)
    (hget : ∀ queueId row', s.deliveryQueue.get? queueId = some row' →
      ∃ row, u.store.deliveryQueue.get? queueId = some row ∧ (row'.attempts = row.attempts ∨
        row'.attempts = row.attempts + 1 ∧ ∃ item, u.phase i = .sent item ∧ item.queueId = queueId))
    (hdelivered : ∀ item, u.phase i = .sent item → (calls i).Succeeds →
      s.deliveryQueue.get? item.queueId = none) :
    DeliveryInv calls before (u.goTo i s phase) := by
  have hrows : ∀ j queueId, ((u.goTo i s phase).phase j).row = some queueId →
      (u.phase j).row = some queueId := by
    intro j queueId hj
    rw [goTo_phase] at hj
    split_ifs at hj with hi
    · rcases hrow with hnone | ⟨-, hsame⟩
      · rw [hnone] at hj
        cases hj
      · rw [hi, ← hsame, hj]
    · exact hj
  have hgone : ∀ queueId, u.store.deliveryQueue.get? queueId = none →
      s.deliveryQueue.get? queueId = none := by
    intro queueId hnone
    by_contra hsome
    obtain ⟨row', hrow'⟩ := Option.ne_none_iff_exists'.mp hsome
    obtain ⟨row, hrow, -⟩ := hget queueId row' hrow'
    rw [hnone] at hrow
    cases hrow
  refine ⟨?_, ?_, ?_, ?_, ?_, hinv.notAgain⟩
  · intro p hp
    rw [goTo_phase]
    split_ifs with hi
    · refine Or.inr (hpast ?_)
      rcases hinv.past p hp with ⟨item, hitem, -⟩ | hp
      · right
        rw [← hi, hitem]
        rfl
      · exact Or.inl (hi ▸ hp)
    · exact hinv.past p hp
  · intro j item hj
    rw [goTo_phase] at hj
    split_ifs at hj with hi
    · rw [hj] at hnew
      cases hnew
    · exact hinv.logged j item hj
  · intro j k queueId hne hj hk
    exact hinv.apart j k queueId hne (hrows j queueId hj) (hrows k queueId hk)
  · intro p hp hsuccess
    rcases hinv.delivered p hp hsuccess with ⟨item, hitem, hid⟩ | ⟨hnone, hfree⟩
    · by_cases hi : p.call = i
      · right
        rw [hi] at hitem hsuccess
        refine ⟨hid ▸ hdelivered item hitem hsuccess, ?_⟩
        intro j hj
        by_cases hji : j = i
        · rw [goTo_phase, if_pos hji] at hj
          rcases hrow with hnone | ⟨hnot, -⟩
          · rw [hnone] at hj
            cases hj
          · rw [hitem] at hnot
            cases hnot
        · refine hinv.apart i j p.queueId (Ne.symm hji) ?_ (hrows j _ hj) hsuccess
          rw [hitem, ← hid]
          rfl
      · left
        rw [goTo_phase, if_neg hi]
        exact ⟨item, hitem, hid⟩
    · exact Or.inr ⟨hgone _ hnone, fun j hj => hfree j (hrows j _ hj)⟩
  · intro queueId row row' h h'
    obtain ⟨mid, hmid, hsame | ⟨hmore, item, hphase, rfl⟩⟩ := hget queueId row' h'
    · have hcounted := hinv.counted queueId row mid h hmid
      have hle := settledPosts_le (u := u) (i := i) (s := s) queueId hnew
      omega
    · have hcounted := hinv.counted item.queueId row mid h hmid
      have hlt := settledPosts_lt (s := s) (hinv.logged i item hphase) hphase hnew
      omega

omit [DecidableEq ι] in
theorem DeliveryInv.call_ne (hinv : DeliveryInv calls before u) (hsent : (u.phase i).isSent = false)
    (hpast : (u.phase i).isPast = false) : ∀ p ∈ u.posts, p.call ≠ i := by
  intro p hp hi
  rcases hinv.past p hp with ⟨item, hitem, -⟩ | hpast'
  · rw [← hi, hitem] at hsent
    cases hsent
  · rw [hi, hpast] at hpast'
    cases hpast'

theorem DeliveryInv.picked {item : DeliveryItem} (hinv : DeliveryInv calls before u)
    (hex : Exclusive calls u i) (hphase : u.phase i = .ready)
    (hselect : (u.store.nextDueDelivery (calls i).select).1 = .ok (some item)) :
    DeliveryInv calls before (u.goTo i u.store (.picked item)) := by
  obtain ⟨row, hrow⟩ := get?_of_nextDueDelivery hselect
  have hphases : ∀ j, j ≠ i → (u.goTo i u.store (.picked item)).phase j = u.phase j := by
    intro j hj
    rw [goTo_phase, if_neg hj]
  have hnoPost := hinv.call_ne (i := i) (by rw [hphase]; rfl) (by rw [hphase]; rfl)
  have hself : (u.goTo i u.store (.picked item)).phase i = .picked item :=
    (goTo_phase _ _ _).trans (if_pos rfl)
  refine ⟨?_, ?_, ?_, ?_, ?_, hinv.notAgain⟩
  · intro p hp
    rw [hphases _ (hnoPost p hp)]
    exact hinv.past p hp
  · intro j item' hj
    by_cases hi : j = i
    · rw [hi, hself] at hj
      cases hj
    · rw [hphases j hi] at hj
      exact hinv.logged j item' hj
  · intro j k queueId hne hj hk
    by_cases hji : j = i
    · subst hji
      rw [hself] at hj
      cases hj
      rw [hphases k hne.symm] at hk
      exact (hex.picked item hphase hselect k hk).1
    · rw [hphases j hji] at hj
      by_cases hki : k = i
      · subst hki
        rw [hself] at hk
        cases hk
        exact (hex.picked item hphase hselect j hj).2
      · rw [hphases k hki] at hk
        exact hinv.apart j k queueId hne hj hk
  · intro p hp hsuccess
    rw [hphases _ (hnoPost p hp)]
    rcases hinv.delivered p hp hsuccess with hsent | ⟨hnone, hfree⟩
    · exact Or.inl hsent
    · refine Or.inr ⟨hnone, ?_⟩
      intro j hj
      by_cases hji : j = i
      · rw [hji, hself] at hj
        rw [← Option.some.inj hj] at hnone
        exact absurd (hrow.symm.trans hnone) (Option.some_ne_none row)
      · rw [hphases j hji] at hj
        exact hfree j hj
  · intro queueId row row' h h'
    rw [settledPosts_of_phase queueId (by rw [hphase]; rfl) rfl]
    exact hinv.counted queueId row row' h h'

theorem DeliveryInv.sent {item : DeliveryItem} (hinv : DeliveryInv calls before u)
    (hphase : u.phase i = .signed item) : DeliveryInv calls before
      { u.goTo i u.store (.sent item) with posts := u.posts ++ [⟨i, item.queueId⟩] } := by
  have hphases : ∀ j, j ≠ i → (u.goTo i u.store (.sent item)).phase j = u.phase j := by
    intro j hj
    rw [goTo_phase, if_neg hj]
  have hself : (u.goTo i u.store (.sent item)).phase i = .sent item :=
    (goTo_phase _ _ _).trans (if_pos rfl)
  have hrows : ∀ j, ((u.goTo i u.store (.sent item)).phase j).row = (u.phase j).row := by
    intro j
    by_cases hi : j = i
    · rw [hi, hself, hphase]
      rfl
    · rw [hphases j hi]
  have hnoPost := hinv.call_ne (i := i) (by rw [hphase]; rfl) (by rw [hphase]; rfl)
  refine ⟨?_, ?_, ?_, ?_, ?_, ?_⟩
  · intro p hp
    rcases List.mem_append.mp hp with hp | hp
    · rw [hphases _ (hnoPost p hp)]
      exact hinv.past p hp
    · rw [List.mem_singleton.mp hp]
      exact Or.inl ⟨item, hself, rfl⟩
  · intro j item' hj
    by_cases hi : j = i
    · rw [hi, hself] at hj
      cases hj
      rw [hi]
      exact List.mem_append_right _ List.mem_cons_self
    · rw [hphases j hi] at hj
      exact List.mem_append_left _ (hinv.logged j item' hj)
  · intro j k queueId hne hj hk
    rw [hrows] at hj hk
    exact hinv.apart j k queueId hne hj hk
  · intro p hp hsuccess
    rcases List.mem_append.mp hp with hp | hp
    · rw [hphases _ (hnoPost p hp)]
      refine (hinv.delivered p hp hsuccess).imp_right fun h => ⟨h.1, fun j hj => h.2 j ?_⟩
      rw [← hrows, hj]
    · rw [List.mem_singleton.mp hp]
      exact Or.inl ⟨item, hself, rfl⟩
  · intro queueId row row' h h'
    have hcounted := hinv.counted queueId row row' h h'
    have hsame : settledPosts u queueId ≤ settledPosts
        { u.goTo i u.store (.sent item) with posts := u.posts ++ [⟨i, item.queueId⟩] } queueId := by
      rw [settledPosts, settledPosts, List.countP_append]
      refine Nat.le_add_right_of_le (List.countP_mono_left fun p hp hcount => ?_)
      rw [hphases _ (hnoPost p hp)]
      exact hcount
    omega
  · rw [List.pairwise_append]
    refine ⟨hinv.notAgain, List.pairwise_singleton _ _, ?_⟩
    intro p hp q hq hsuccess hid
    rw [List.mem_singleton.mp hq] at hid
    have hrow : (u.phase i).row = some p.queueId := by
      rw [hphase, ← hid]
      rfl
    rcases hinv.delivered p hp hsuccess with ⟨item', hitem, hid'⟩ | ⟨-, hfree⟩
    · refine hinv.apart p.call i p.queueId (hnoPost p hp) ?_ hrow hsuccess
      rw [hitem, ← hid']
      rfl
    · exact hfree i hrow

theorem DeliveryInv.step (hinv : DeliveryInv calls before u) (hex : Exclusive calls u i)
    (h : DrainStepped calls u i v) : DeliveryInv calls before v := by
  cases h with
  | picked hphase hselect => exact hinv.picked hex hphase hselect
  | sent hphase => exact hinv.sent hphase
  | quiet hphase hpast hrow hsent hqueue =>
      have hnot : ∀ item, u.phase i ≠ .sent item := by
        intro item hitem
        rw [hitem] at hphase
        cases hphase
      refine hinv.move hsent ?_ (hrow.imp_right fun h => ⟨hphase, h⟩) ?_
        fun item hitem => absurd hitem (hnot item)
      · rintro (hp | hp)
        · exact hpast hp
        · rw [hphase] at hp
          cases hp
      · intro queueId row' h'
        rw [hqueue] at h'
        exact ⟨row', h', Or.inl rfl⟩
  | dropped removed hphase hqueue =>
      refine hinv.move rfl (fun _ => rfl) (Or.inl rfl) ?_ ?_
      · intro queueId row' h'
        rw [hqueue, SerialTable.get?_remove] at h'
        split_ifs at h'
        exact ⟨row', h', Or.inl rfl⟩
      · intro item hitem
        rw [hphase] at hitem
        cases hitem
  | @settled item phase s hphase hpast hfault hqueue =>
      refine hinv.move ?_ (fun _ => hpast) ?_ ?_ ?_
      · cases phase with
        | sent => cases hpast
        | ready | picked | orphan | signed | settled | done => rfl
      · cases phase with
        | picked | signed | sent => cases hpast
        | ready | orphan | settled | done => exact Or.inl rfl
      · intro queueId row' h'
        rw [hqueue] at h'
        by_cases hid : queueId = item.queueId
        · subst hid
          obtain ⟨row, hrow, hattempts⟩ := get?_of_queue h'
          exact ⟨row, hrow, Or.inr ⟨hattempts, item, hphase, rfl⟩⟩
        · rw [get?_queue_of_ne hid] at h'
          exact ⟨row', h', Or.inl rfl⟩
      · intro other hother hsuccess
        obtain rfl : item = other := DrainPhase.sent.inj (hphase.symm.trans hother)
        rw [hqueue, settlement_of_succeeds hsuccess, Settlement.queue, SerialTable.get?_remove,
          if_pos rfl]
  | unsettled hphase hfault =>
      refine hinv.move rfl (fun _ => rfl) (Or.inl rfl) (fun queueId row' h' =>
        ⟨row', h', Or.inl rfl⟩) ?_
      intro other hother hsuccess
      exact absurd (hex.dropped other hother hsuccess) hfault

omit [DecidableEq ι] in
theorem DeliveryInv.atMostOnce (hinv : DeliveryInv calls before u) :
    AtMostOnce calls before u where
  notAgain := hinv.notAgain
  attempts queueId row row' h h' := by
    refine (hinv.counted queueId row row' h h').trans (Nat.add_le_add_left ?_ _)
    refine List.countP_mono_left fun p _ hp => ?_
    rw [decide_eq_true_iff] at hp ⊢
    exact hp.1

end Steps

/-! ## A row that is picked twice -/

/-- Libraries that find a host in every URL. -/
def hostLib : SigLibrary :=
  { relativeLib with parseUrl := fun _ => .ok ⟨some ['b'], ['/'], none⟩ }

end ActivityPub

end SolidPod
