import SolidPod.ActivityPub.HttpSig
import SolidPod.ActivityPub.Store
import SolidPod.Foundation.Lockstep

/-!
# The delivery worker

`drainOnce` takes the first queued delivery whose time has come, signs its
request, sends it and settles it by what the network answers: it is dropped, or
it is put off until a later attempt. A call that has sent its request removes the
row it picked or puts it off. It leaves the row as it was if the request cannot be
signed, as for every inbox whose URL does not parse or has no host: then every
later call picks the same row.
-/

namespace SolidPod

open Foundation

namespace ActivityPub

/-- The waits between the attempts, in seconds. -/
def backoffSeconds : List Int := [30, 120, 600, 3600, 21600, 86400]

def maxAttempts : Nat := backoffSeconds.length

inductive DeliveryOutcome where
  | delivered
  | dropped
  | rescheduled (nextRetrySecs : Int)
  | idle
  deriving DecidableEq

inductive OutboxError where
  | storage (e : SqlxError)
  | signature (e : SigError)
  | delivery (msg : Str)

structure DeliveryConfig where
  privateKeyPem : Str
  keyId : Str

/-- What one call of the worker meets: its statements, the date it signs, and the
status or the error that the network answers with. -/
structure Drain where
  select : Turn
  load : Turn
  settle : Turn
  mark : Turn
  date : Str
  answer : Except Str Nat

/-- What becomes of an attempt. -/
inductive Settlement where
  | deliver
  | fail
  | retry (delaySecs : Int) (error : Str)
  deriving DecidableEq

def backoff (attempts : Nat) : Int :=
  backoffSeconds.getD (min attempts (backoffSeconds.length - 1)) 0

/-- Another attempt is made unless this one was the last. -/
def retryOrFail (item : DeliveryItem) (error : Str) : Settlement :=
  if item.attempts + 1 ≥ maxAttempts then .fail else .retry (backoff item.attempts) error

def isSuccess (status : Nat) : Prop := 200 ≤ status ∧ status < 300

def isClientError (status : Nat) : Prop := 400 ≤ status ∧ status < 500

instance (status : Nat) : Decidable (isSuccess status) := inferInstanceAs (Decidable (_ ∧ _))

instance (status : Nat) : Decidable (isClientError status) := inferInstanceAs (Decidable (_ ∧ _))

def settlement (item : DeliveryItem) : Except Str Nat → Settlement
  | .ok status =>
    if isSuccess status then .deliver
    else if isClientError status ∧ status ≠ 408 ∧ status ≠ 429 then .fail
    else retryOrFail item ("HTTP " ++ Nat.toDigits 10 status)
  | .error e => retryOrFail item e

/-- The state that the sent activity is marked with. -/
def Settlement.state : Settlement → Option Str
  | .deliver => some "delivered"
  | .fail => some "failed"
  | .retry _ _ => none

def Settlement.outcome : Settlement → DeliveryOutcome
  | .deliver => .delivered
  | .fail => .dropped
  | .retry delaySecs _ => .rescheduled delaySecs

/-- The queue row of an attempt is dropped or put off. -/
def settleRow (turn : Turn) (queueId : Nat) (s : Store) : Settlement → Except SqlxError Nat × Store
  | .deliver | .fail => s.dropDelivery turn queueId
  | .retry delaySecs error => s.rescheduleDelivery turn queueId delaySecs error

def settle (d : Drain) (item : DeliveryItem) (s : Store) :
    Except OutboxError DeliveryOutcome × Store :=
  match settleRow d.settle item.queueId s (settlement item d.answer) with
  | (.error e, s) => (.error (.storage e), s)
  | (.ok _, s) =>
    match (settlement item d.answer).state with
    | none => (.ok (settlement item d.answer).outcome, s)
    | some state =>
      match s.markOutboxState d.mark item.activityId state with
      | (.error e, s) => (.error (.storage e), s)
      | (.ok _, s) => (.ok (settlement item d.answer).outcome, s)

/-- The request of a delivery. -/
def prepare (lib : SigLibrary) (serde : SerdeJson) (config : DeliveryConfig) (date : Str)
    (item : DeliveryItem) (activity : Json) : Except OutboxError OutboundRequest := do
  let body ← (serde.toVec activity).mapError OutboxError.delivery
  (signRequest lib date config.privateKeyPem config.keyId ⟨"POST", item.inboxUrl,
    [("Content-Type".toList, "application/activity+json".toList)], body⟩).mapError .signature

def drainOnce (lib : SigLibrary) (serde : SerdeJson) (config : DeliveryConfig) (s : Store)
    (d : Drain) : Except OutboxError DeliveryOutcome × Store :=
  match s.nextDueDelivery d.select with
  | (.error e, s) => (.error (.storage e), s)
  | (.ok none, s) => (.ok .idle, s)
  | (.ok (some item), s) =>
    match s.loadActivity serde d.load item.activityId with
    | (.error e, s) => (.error (.storage e), s)
    | (.ok none, s) =>
      -- the activity is gone
      match s.dropDelivery d.settle item.queueId with
      | (.error e, s) => (.error (.storage e), s)
      | (.ok _, s) => (.ok .dropped, s)
    | (.ok (some activity), s) =>
      match prepare lib serde config d.date item activity with
      | .error e => (.error e, s)
      | .ok _ => settle d item s

end ActivityPub

end SolidPod

namespace SolidPod

open Foundation

namespace ActivityPub

/-- The statements of the call go through. -/
structure Drain.NoFault (d : Drain) : Prop where
  select : d.select.fault = none
  load : d.load.fault = none
  settle : d.settle.fault = none
  mark : d.mark.fault = none

def Store.activity? (serde : SerdeJson) (s : Store) (id : Str) : Option Json :=
  (s.outbox.find? fun r => r.id = id).bind fun r => serde.fromStr r.activity

def QueueRow.item (row : QueueRow) (queueId : Nat) : DeliveryItem :=
  ⟨queueId, row.activityId, row.inboxUrl, row.attempts, row.lastError⟩

/-- The row is the first one that is due for the call. -/
def Picks (s : Store) (d : Drain) (queueId : Nat) (row : QueueRow) : Prop :=
  s.deliveryQueue.first (fun r => r.nextRetry ≤ d.select.now) = some (queueId, row)

/-- The queue after a row is settled. -/
def Settlement.queue (now queueId : Nat) (q : SerialTable QueueRow) :
    Settlement → SerialTable QueueRow
  | .deliver | .fail => q.remove queueId
  | .retry delaySecs error => q.modify queueId fun r => { r with
      attempts := r.attempts + 1
      nextRetry := now + delaySecs.toNat * 1000000000
      lastError := some error }

section Worker

variable (lib : SigLibrary) (serde : SerdeJson) (config : DeliveryConfig)

/-- What a call without store errors can come to. -/
inductive Drained (s : Store) (d : Drain) : Except OutboxError DeliveryOutcome × Store → Prop
  | idle (hnone : s.deliveryQueue.first (fun r => r.nextRetry ≤ d.select.now) = none) :
      Drained s d (.ok .idle, s)
  | orphan {queueId : Nat} {row : QueueRow} (hpick : Picks s d queueId row)
      (hgone : s.activity? serde row.activityId = none) :
      Drained s d (.ok .dropped, { s with deliveryQueue := s.deliveryQueue.remove queueId })
  | unsigned {queueId : Nat} {row : QueueRow} {activity : Json} {e : OutboxError}
      (hpick : Picks s d queueId row) (hload : s.activity? serde row.activityId = some activity)
      (hprepare : prepare lib serde config d.date (row.item queueId) activity = .error e) :
      Drained s d (.error e, s)
  | settled {queueId : Nat} {row : QueueRow} {activity : Json} {request : OutboundRequest}
      {t : Store} (hpick : Picks s d queueId row)
      (hload : s.activity? serde row.activityId = some activity)
      (hprepare : prepare lib serde config d.date (row.item queueId) activity = .ok request)
      (hqueue : t.deliveryQueue = (settlement (row.item queueId) d.answer).queue d.settle.now
        queueId s.deliveryQueue) :
      Drained s d (.ok (settlement (row.item queueId) d.answer).outcome, t)

theorem settleRow_of_no_fault {turn : Turn} (h : turn.fault = none) (queueId : Nat) (s : Store)
    (settlement : Settlement) :
    ∃ n t, settleRow turn queueId s settlement = (.ok n, t) ∧
      t.deliveryQueue = settlement.queue turn.now queueId s.deliveryQueue := by
  cases settlement with
  | deliver | fail =>
      rw [settleRow, Store.dropDelivery, Turn.execute_of_no_fault h]
      exact ⟨_, _, rfl, rfl⟩
  | retry =>
      rw [settleRow, Store.rescheduleDelivery, Turn.execute_of_no_fault h]
      exact ⟨_, _, rfl, rfl⟩

theorem settle_of_noFault {d : Drain} (hd : d.NoFault) (item : DeliveryItem) (s : Store) :
    ∃ t, settle d item s = (.ok (settlement item d.answer).outcome, t) ∧
      t.deliveryQueue = (settlement item d.answer).queue d.settle.now item.queueId
        s.deliveryQueue := by
  obtain ⟨n, t, hrow, hqueue⟩ := settleRow_of_no_fault hd.settle item.queueId s
    (settlement item d.answer)
  rw [settle, hrow]
  cases (settlement item d.answer).state with
  | none => exact ⟨t, rfl, hqueue⟩
  | some state =>
      simp only [Store.markOutboxState, Turn.execute_of_no_fault hd.mark]
      exact ⟨_, rfl, hqueue⟩

theorem drained_drainOnce {d : Drain} (hd : d.NoFault) (s : Store) :
    Drained lib serde config s d (drainOnce lib serde config s d) := by
  rw [drainOnce, Store.nextDueDelivery, Turn.execute_of_no_fault hd.select]
  cases hfirst : s.deliveryQueue.first (fun r => r.nextRetry ≤ d.select.now) with
  | none => exact .idle hfirst
  | some r =>
      obtain ⟨queueId, row⟩ := r
      simp only [Option.map_some, Store.loadActivity, Turn.execute_of_no_fault hd.load]
      cases hload : (s.outbox.find? fun r => r.id = row.activityId).bind
        fun r => serde.fromStr r.activity with
      | none =>
          simp only [Store.dropDelivery, Turn.execute_of_no_fault hd.settle]
          exact .orphan hfirst hload
      | some activity =>
          simp only
          cases hprepare : prepare lib serde config d.date (row.item queueId) activity with
          | error e =>
              rw [QueueRow.item] at hprepare
              rw [hprepare]
              exact .unsigned hfirst hload hprepare
          | ok request =>
              obtain ⟨t, hsettle, hqueue⟩ := settle_of_noFault hd (row.item queueId) s
              rw [QueueRow.item] at hprepare hsettle
              rw [hprepare]
              simp only [hsettle]
              exact .settled hfirst hload hprepare hqueue

/-- The state after some calls of the worker. -/
abbrev drained (s : Store) (drains : List Drain) : Store :=
  Lockstep.final (drainOnce lib serde config) s drains

/-- The row whose request a call sends. -/
def posted (s : Store) (d : Drain) : Option Nat :=
  match s.deliveryQueue.first fun r => r.nextRetry ≤ d.select.now with
  | none => none
  | some (queueId, row) =>
    match s.activity? serde row.activityId with
    | none => none
    | some activity =>
      match prepare lib serde config d.date (row.item queueId) activity with
      | .error _ => none
      | .ok _ => some queueId

/-- The rows whose requests are sent in a run. -/
def postedAlong (s : Store) : List Drain → List Nat
  | [] => []
  | d :: drains => (posted lib serde config s d).toList ++
      postedAlong (drainOnce lib serde config s d).2 drains

/-! ## One call -/

/-- The request of the row can be made, if its activity is still there. -/
def Deliverable (s : Store) (row : QueueRow) : Prop :=
  ∀ activity, s.activity? serde row.activityId = some activity →
    (∃ body, serde.toVec activity = .ok body) ∧
    (∃ url host, lib.parseUrl row.inboxUrl = .ok url ∧ url.host = some host) ∧
    ∃ sk, lib.fromPkcs8Pem config.privateKeyPem = .ok sk

/-- The row is gone, or it was attempted once more and waits. -/
def MovesOn (d : Drain) (queueId : Nat) (row : QueueRow) (after : Store) : Prop :=
  after.deliveryQueue.get? queueId = none ∨ ∃ row', after.deliveryQueue.get? queueId = some row' ∧
    row'.attempts = row.attempts + 1 ∧ d.settle.now < row'.nextRetry

variable {lib serde config} {s : Store} {d : Drain} {queueId : Nat} {row : QueueRow}

theorem Picks.get?_eq (h : Picks s d queueId row) : s.deliveryQueue.get? queueId = some row :=
  (SerialTable.first_eq_some_iff.mp h).1

theorem Picks.due (h : Picks s d queueId row) : row.nextRetry ≤ d.select.now :=
  of_decide_eq_true (SerialTable.first_eq_some_iff.mp h).2.1

theorem Picks.unique {queueId' : Nat} {row' : QueueRow} (h : Picks s d queueId row)
    (h' : Picks s d queueId' row') : queueId = queueId' ∧ row = row' :=
  Prod.mk.inj (Option.some.inj (h.symm.trans h'))

variable (lib serde config) in
theorem prepare_ok_iff (date : Str) (item : DeliveryItem) (activity : Json) :
    (∃ request, prepare lib serde config date item activity = .ok request) ↔
      (∃ body, serde.toVec activity = .ok body) ∧
      (∃ url host, lib.parseUrl item.inboxUrl = .ok url ∧ url.host = some host) ∧
      ∃ sk, lib.fromPkcs8Pem config.privateKeyPem = .ok sk := by
  rw [prepare]
  cases hbody : serde.toVec activity with
  | error e => simp [Except.mapError, bind, Except.bind]
  | ok body =>
      have hsign := signRequest_ok_iff lib date config.privateKeyPem config.keyId ⟨"POST",
        item.inboxUrl, [("Content-Type".toList, "application/activity+json".toList)], body⟩
      have hexists : ∃ body', Except.ok (ε := Str) body = Except.ok body' := ⟨body, rfl⟩
      rw [and_iff_right hexists, ← hsign]
      simp only [Except.mapError, bind, Except.bind]
      split <;> simp_all

theorem thirty_le_backoff (attempts : Nat) : 30 ≤ backoff attempts := by
  have hall : ∀ k ≤ 5, 30 ≤ backoffSeconds.getD k 0 := by decide
  exact hall _ (Nat.min_le_right attempts 5)

theorem eq_backoff_of_settlement {item : DeliveryItem} {answer : Except Str Nat} {delaySecs : Int}
    {error : Str} (h : settlement item answer = .retry delaySecs error) :
    delaySecs = backoff item.attempts ∧ item.attempts + 1 < maxAttempts := by
  have hretry : ∀ e, retryOrFail item e = .retry delaySecs error →
      delaySecs = backoff item.attempts ∧ item.attempts + 1 < maxAttempts := by
    intro e he
    rw [retryOrFail] at he
    split_ifs at he with hlast
    cases he
    exact ⟨rfl, Nat.not_le.mp hlast⟩
  cases answer with
  | error e => exact hretry e h
  | ok status =>
      rw [settlement] at h
      split_ifs at h
      exact hretry _ h

/-- A settled row is gone, or it was not the last attempt and the row waits. -/
theorem get?_queue_settlement (h : s.deliveryQueue.get? queueId = some row) (now : Nat)
    (answer : Except Str Nat) :
    ((settlement (row.item queueId) answer).queue now queueId s.deliveryQueue).get? queueId = none ∨
      row.attempts + 1 < maxAttempts ∧ ∃ row', row'.attempts = row.attempts + 1 ∧
        now + 30 * 1000000000 ≤ row'.nextRetry ∧
        ((settlement (row.item queueId) answer).queue now queueId s.deliveryQueue).get? queueId =
          some row' := by
  cases hsettlement : settlement (row.item queueId) answer with
  | deliver => exact Or.inl (by rw [Settlement.queue, SerialTable.get?_remove, if_pos rfl])
  | fail => exact Or.inl (by rw [Settlement.queue, SerialTable.get?_remove, if_pos rfl])
  | retry delaySecs error =>
      obtain ⟨rfl, hlast⟩ := eq_backoff_of_settlement hsettlement
      have hbackoff := thirty_le_backoff (row.item queueId).attempts
      refine Or.inr ⟨hlast, _, rfl, ?_, by
        rw [Settlement.queue, SerialTable.get?_modify, if_pos rfl, h, Option.map_some]⟩
      have hsecs : 30 ≤ (backoff (row.item queueId).attempts).toNat := by omega
      exact Nat.add_le_add_left (Nat.mul_le_mul_right _ hsecs) now

theorem get?_queue_of_ne {id : Nat} (h : id ≠ queueId) (now : Nat) (q : SerialTable QueueRow)
    (settlement : Settlement) : (settlement.queue now queueId q).get? id = q.get? id := by
  cases settlement with
  | deliver | fail => rw [Settlement.queue, SerialTable.get?_remove, if_neg h]
  | retry => rw [Settlement.queue, SerialTable.get?_modify, if_neg h]

theorem movesOn_iff (hd : d.NoFault) (hpick : Picks s d queueId row) :
    MovesOn d queueId row (drainOnce lib serde config s d).2 ↔
      Deliverable lib serde config s row := by
  have hdrained := drained_drainOnce lib serde config hd s
  generalize drainOnce lib serde config s d = result at hdrained
  cases hdrained with
  | idle hnone =>
      rw [Picks, hnone] at hpick
      cases hpick
  | orphan hpick' hgone =>
      obtain ⟨rfl, rfl⟩ := hpick.unique hpick'
      refine iff_of_true (Or.inl (by rw [SerialTable.get?_remove, if_pos rfl])) ?_
      intro activity hload
      rw [hgone] at hload
      cases hload
  | @unsigned _ _ activity e hpick' hload hprepare =>
      obtain ⟨rfl, rfl⟩ := hpick.unique hpick'
      refine iff_of_false ?_ ?_
      · rintro (hnone | ⟨row', hrow', hattempts, -⟩)
        · rw [hpick.get?_eq] at hnone
          cases hnone
        · rw [hpick.get?_eq] at hrow'
          cases hrow'
          omega
      · intro hdeliverable
        obtain ⟨request, hok⟩ := (prepare_ok_iff lib serde config d.date (row.item queueId)
          activity).mpr (hdeliverable activity hload)
        rw [hprepare] at hok
        cases hok
  | @settled _ _ activity request t hpick' hload hprepare hqueue =>
      obtain ⟨rfl, rfl⟩ := hpick.unique hpick'
      refine iff_of_true ?_ ?_
      · rw [MovesOn, hqueue]
        rcases get?_queue_settlement hpick.get?_eq d.settle.now d.answer with hnone |
          ⟨-, row', hattempts, hwait, hrow'⟩
        · exact Or.inl hnone
        · exact Or.inr ⟨row', hrow', hattempts, by omega⟩
      · intro other hother
        obtain rfl : activity = other := Option.some.inj (hload.symm.trans hother)
        exact (prepare_ok_iff lib serde config d.date (row.item queueId) activity).mp
          ⟨request, hprepare⟩

/-! ## Runs -/

variable (lib serde config) in
/-- No row keeps the queue from moving on. -/
structure NoPoison (s : Store) (drains : List Drain) : Prop where
  movesOn : ∀ pre d post queueId row, drains = pre ++ d :: post →
    Picks (drained lib serde config s pre) d queueId row →
    MovesOn d queueId row (drained lib serde config s (pre ++ [d]))
  attempts : ∀ queueId, (postedAlong lib serde config s drains).count queueId ≤ maxAttempts
  /-- A row that is due is picked within as many calls as there are rows, as long
  as no row that was put off is due again. -/
  unblocked : ∀ pre block post queueId row last, drains = pre ++ block ++ post →
    (drained lib serde config s pre).deliveryQueue.get? queueId = some row →
    (∀ d ∈ block, row.nextRetry ≤ d.select.now ∧ d.select.now ≤ last ∧
      last < d.settle.now + 30 * 1000000000) →
    (drained lib serde config s pre).deliveryQueue.rows.length ≤ block.length →
    ∃ front d back, block = front ++ d :: back ∧
      ∃ row', Picks (drained lib serde config s (pre ++ front)) d queueId row'

/-- How often a row can still be sent. -/
def budget : Option QueueRow → Nat
  | none => 0
  | some row => max 1 (maxAttempts - row.attempts)

theorem budget_le (row : Option QueueRow) : budget row ≤ maxAttempts := by
  cases row with
  | none => exact Nat.zero_le _
  | some row => exact max_le (by decide) (Nat.sub_le _ _)

variable (lib serde config) in
theorem budget_drainOnce (hd : d.NoFault) (s : Store) (queueId : Nat) :
    (posted lib serde config s d).toList.count queueId +
      budget ((drainOnce lib serde config s d).2.deliveryQueue.get? queueId) ≤
        budget (s.deliveryQueue.get? queueId) := by
  have hdrained := drained_drainOnce lib serde config hd s
  rw [posted]
  generalize drainOnce lib serde config s d = result at hdrained
  cases hdrained with
  | idle hnone => simp [hnone]
  | @orphan i row hpick hgone =>
      rw [hpick]
      simp only [hgone, Option.toList_none, List.count_nil, Nat.zero_add, SerialTable.get?_remove]
      split_ifs with heq
      · exact Nat.zero_le _
      · exact Nat.le_refl _
  | @unsigned i row activity e hpick hload hprepare =>
      rw [hpick]
      simp [hload, hprepare]
  | @settled i row activity request t hpick hload hprepare hqueue =>
      rw [hpick]
      simp only [hload, hprepare, Option.toList_some, hqueue]
      by_cases heq : queueId = i
      · subst heq
        rw [List.count_singleton_self, hpick.get?_eq]
        rcases get?_queue_settlement hpick.get?_eq d.settle.now d.answer with hnone |
          ⟨hlast, row', hattempts, -, hrow'⟩
        · rw [hnone]
          exact Nat.le_max_left _ _
        · rw [hrow', budget, budget, hattempts]
          omega
      · rw [get?_queue_of_ne heq, List.count_singleton, if_neg (by simpa using Ne.symm heq),
          Nat.zero_add]

theorem count_postedAlong_le {drains : List Drain} (hfault : ∀ d ∈ drains, d.NoFault) (s : Store)
    (queueId : Nat) : (postedAlong lib serde config s drains).count queueId ≤
      budget (s.deliveryQueue.get? queueId) := by
  induction drains generalizing s with
  | nil => exact Nat.zero_le _
  | cons d drains ih =>
      have hstep := budget_drainOnce lib serde config (hfault d List.mem_cons_self) s queueId
      have hrest := ih (fun e he => hfault e (List.mem_cons_of_mem d he))
        (drainOnce lib serde config s d).2
      rw [postedAlong, List.count_append]
      omega

/-- The rows up to an id that are due by a time. -/
def ahead (queueId last : Nat) (q : SerialTable QueueRow) : Nat :=
  q.count fun i r => i ≤ queueId ∧ r.nextRetry ≤ last

theorem ahead_drainOnce {last i : Nat} (hd : d.NoFault) (hpick : Picks s d i row)
    (hdeliverable : Deliverable lib serde config s row) (hle : i ≤ queueId)
    (hselect : d.select.now ≤ last) (hsettle : last < d.settle.now + 30 * 1000000000) :
    ahead queueId last (drainOnce lib serde config s d).2.deliveryQueue + 1 =
      ahead queueId last s.deliveryQueue := by
  have hcounted : (decide (i ≤ queueId ∧ row.nextRetry ≤ last)) = true :=
    decide_eq_true ⟨hle, hpick.due.trans hselect⟩
  have hdrained := drained_drainOnce lib serde config hd s
  generalize drainOnce lib serde config s d = result at hdrained
  cases hdrained with
  | idle hnone =>
      rw [Picks, hnone] at hpick
      cases hpick
  | orphan hpick' =>
      obtain ⟨rfl, rfl⟩ := hpick.unique hpick'
      exact SerialTable.count_remove hpick.get?_eq hcounted
  | @unsigned _ _ activity e hpick' hload hprepare =>
      obtain ⟨rfl, rfl⟩ := hpick.unique hpick'
      obtain ⟨request, hok⟩ := (prepare_ok_iff lib serde config d.date (row.item i) activity).mpr
        (hdeliverable activity hload)
      rw [hprepare] at hok
      cases hok
  | settled hpick' _ _ hqueue =>
      obtain ⟨rfl, rfl⟩ := hpick.unique hpick'
      rw [hqueue]
      cases hsettlement : settlement (row.item i) d.answer with
      | deliver | fail => exact SerialTable.count_remove hpick.get?_eq hcounted
      | retry delaySecs error =>
          refine SerialTable.count_modify
            (p := fun i r => decide (i ≤ queueId ∧ r.nextRetry ≤ last)) hpick.get?_eq hcounted ?_
          rw [decide_eq_false_iff_not]
          rintro ⟨-, hdue⟩
          obtain ⟨rfl, -⟩ := eq_backoff_of_settlement hsettlement
          have hbackoff := thirty_le_backoff (row.item i).attempts
          change d.settle.now + (backoff (row.item i).attempts).toNat * 1000000000 ≤ last at hdue
          omega

theorem get?_drainOnce_of_ne {i : Nat} (hd : d.NoFault) (hpick : Picks s d i row)
    (hne : queueId ≠ i) : (drainOnce lib serde config s d).2.deliveryQueue.get? queueId =
      s.deliveryQueue.get? queueId := by
  have hdrained := drained_drainOnce lib serde config hd s
  generalize drainOnce lib serde config s d = result at hdrained
  cases hdrained with
  | idle | unsigned => rfl
  | orphan hpick' =>
      obtain ⟨rfl, rfl⟩ := hpick.unique hpick'
      exact SerialTable.get?_remove.trans (if_neg hne)
  | settled hpick' _ _ hqueue =>
      obtain ⟨rfl, rfl⟩ := hpick.unique hpick'
      rw [hqueue, get?_queue_of_ne hne]

variable (lib serde config) in
/-- Every row that is picked in the run can be delivered. -/
def DeliverableAlong (s : Store) (drains : List Drain) : Prop :=
  ∀ pre d post queueId row, drains = pre ++ d :: post →
    Picks (drained lib serde config s pre) d queueId row →
    Deliverable lib serde config (drained lib serde config s pre) row

theorem DeliverableAlong.tail {drains : List Drain}
    (h : DeliverableAlong lib serde config s (d :: drains)) :
    DeliverableAlong lib serde config (drainOnce lib serde config s d).2 drains :=
  fun pre e post i r heq hpick => h (d :: pre) e post i r (by rw [heq]; rfl) hpick

theorem exists_picks {last : Nat} {block : List Drain}
    (hrow : s.deliveryQueue.get? queueId = some row) (hlast : row.nextRetry ≤ last)
    (hfault : ∀ d ∈ block, d.NoFault) (hwindow : ∀ d ∈ block, row.nextRetry ≤ d.select.now ∧
      d.select.now ≤ last ∧ last < d.settle.now + 30 * 1000000000)
    (hdeliverable : DeliverableAlong lib serde config s block)
    (hlength : ahead queueId last s.deliveryQueue ≤ block.length) :
    ∃ front d back, block = front ++ d :: back ∧
      ∃ row', Picks (drained lib serde config s front) d queueId row' := by
  induction block generalizing s with
  | nil =>
      have hpos : 0 < ahead queueId last s.deliveryQueue :=
        SerialTable.count_pos hrow (decide_eq_true ⟨le_refl _, hlast⟩)
      exact absurd hlength (Nat.not_le.mpr hpos)
  | cons d block ih =>
      obtain ⟨hdue, hselect, hsettle⟩ := hwindow d List.mem_cons_self
      cases hfirst : s.deliveryQueue.first fun r => r.nextRetry ≤ d.select.now with
      | none =>
          have hnot := SerialTable.first_eq_none_iff.mp hfirst queueId row hrow
          exact absurd hdue (of_decide_eq_false hnot)
      | some r =>
          obtain ⟨i, row'⟩ := r
          have hpick : Picks s d i row' := hfirst
          have hle : i ≤ queueId := (SerialTable.first_eq_some_iff.mp hfirst).2.2 queueId row hrow
            (decide_eq_true hdue)
          by_cases heq : queueId = i
          · subst heq
            exact ⟨[], d, block, rfl, row', hpick⟩
          · have hd := hfault d List.mem_cons_self
            have hstep := ahead_drainOnce hd hpick
              (hdeliverable [] d block i row' rfl hpick) hle hselect hsettle
            have hlength' : ahead queueId last s.deliveryQueue ≤ block.length + 1 := hlength
            obtain ⟨front, e, back, hblock, hpicks⟩ := ih
              ((get?_drainOnce_of_ne hd hpick heq).trans hrow)
              (fun e he => hfault e (List.mem_cons_of_mem d he))
              (fun e he => hwindow e (List.mem_cons_of_mem d he)) hdeliverable.tail (by omega)
            exact ⟨d :: front, e, back, by rw [hblock]; rfl, hpicks⟩

theorem drained_append (pre post : List Drain) : drained lib serde config s (pre ++ post) =
    drained lib serde config (drained lib serde config s pre) post :=
  List.foldl_append

theorem DeliverableAlong.block {pre block post : List Drain}
    (h : DeliverableAlong lib serde config s (pre ++ block ++ post)) :
    DeliverableAlong lib serde config (drained lib serde config s pre) block := by
  intro front d back i row heq hpick
  rw [← drained_append] at hpick ⊢
  exact h (pre ++ front) d (back ++ post) i row (by rw [heq]; simp) hpick

/-- The queue moves on exactly as long as every row that is picked can be
delivered. -/
theorem noPoison_iff (lib : SigLibrary) (serde : SerdeJson) (config : DeliveryConfig) (s : Store)
    (drains : List Drain) (hfault : ∀ d ∈ drains, d.NoFault) :
    NoPoison lib serde config s drains ↔ DeliverableAlong lib serde config s drains := by
  have hmovesOn : ∀ pre d post, drains = pre ++ d :: post → ∀ queueId row,
      Picks (drained lib serde config s pre) d queueId row →
      (MovesOn d queueId row (drained lib serde config s (pre ++ [d])) ↔
        Deliverable lib serde config (drained lib serde config s pre) row) := by
    intro pre d post heq queueId row hpick
    rw [drained_append]
    exact movesOn_iff (hfault d (by rw [heq]; simp)) hpick
  constructor
  · intro h pre d post queueId row heq hpick
    exact (hmovesOn pre d post heq queueId row hpick).mp
      (h.movesOn pre d post queueId row heq hpick)
  · intro h
    refine ⟨?_, ?_, ?_⟩
    · intro pre d post queueId row heq hpick
      exact (hmovesOn pre d post heq queueId row hpick).mpr (h pre d post queueId row heq hpick)
    · intro queueId
      exact (count_postedAlong_le hfault s queueId).trans (budget_le _)
    · intro pre block post queueId row last heq hrow hwindow hlength
      have hpos : 0 < block.length :=
        Nat.lt_of_lt_of_le (List.length_pos_of_mem (SerialTable.get?_eq_some_iff.mp hrow)) hlength
      obtain ⟨d, hd⟩ := List.exists_mem_of_length_pos hpos
      obtain ⟨front, e, back, hblock, row', hpick⟩ := exists_picks hrow
        ((hwindow d hd).1.trans (hwindow d hd).2.1)
        (fun e he => hfault e (by rw [heq]; simp [he])) hwindow (heq ▸ h).block
        ((SerialTable.count_le_length _).trans hlength)
      rw [← drained_append] at hpick
      exact ⟨front, e, back, hblock, row', hpick⟩

end Worker

/-! ## An inbox without a base -/

/-- Libraries that know one activity and no base for a relative URL. -/
def relativeLib : SigLibrary where
  sha256 _ := []
  parseUrl _ := .error "relative URL without a base"
  base64Error _ := []
  PrivateKey := Unit
  PublicKey := Unit
  RsaSignature := Unit
  fromPkcs8Pem _ := .ok ()
  sign _ _ := []
  fromPublicKeyPem _ := .ok ()
  signatureFromBytes _ := .ok ()
  verify _ _ _ := .ok ()

def nullSerde : SerdeJson where
  toString _ := "null"
  fromStr _ := some .null
  toVec _ := .ok (Str.utf8 "null")

def relativeRow : QueueRow := ⟨['1'], "inbox", 0, 0, none⟩

/-- A delivery to the inbox of a follower who gave a relative URL. -/
def relativeInbox : Store :=
  { Store.empty with
    outbox := [⟨['1'], ['m'], "null", 0, "pending"⟩]
    deliveryQueue := SerialTable.empty.push relativeRow }

def plainDrain : Drain := ⟨⟨0, none⟩, ⟨0, none⟩, ⟨0, none⟩, ⟨0, none⟩, [], .ok 202⟩

theorem noPoison_iff_relativeInbox :
    NoPoison relativeLib nullSerde ⟨[], []⟩ relativeInbox [plainDrain] ↔
      DeliverableAlong relativeLib nullSerde ⟨[], []⟩ relativeInbox [plainDrain] :=
  noPoison_iff relativeLib nullSerde ⟨[], []⟩ relativeInbox [plainDrain] fun d hd => by
    rw [List.mem_singleton.mp hd]
    exact ⟨rfl, rfl, rfl, rfl⟩

/-- The delivery to a relative URL stays as it is. -/
theorem relativeInbox_not_noPoison :
    ¬ ∀ (lib : SigLibrary) (serde : SerdeJson) (config : DeliveryConfig) (s : Store)
      (drains : List Drain), (∀ d ∈ drains, d.NoFault) → NoPoison lib serde config s drains := by
  intro h
  have hfault : ∀ d ∈ [plainDrain], d.NoFault := by
    intro d hd
    rw [List.mem_singleton.mp hd]
    exact ⟨rfl, rfl, rfl, rfl⟩
  have hpick : Picks relativeInbox plainDrain 1 relativeRow := rfl
  have hmoves :=
    (h relativeLib nullSerde ⟨[], []⟩ relativeInbox [plainDrain] hfault).movesOn [] plainDrain
    [] 1 relativeRow rfl hpick
  have hdeliverable := (movesOn_iff (hfault plainDrain List.mem_cons_self) hpick).mp hmoves
  obtain ⟨-, ⟨url, host, hurl, -⟩, -⟩ := hdeliverable .null rfl
  cases hurl

end ActivityPub

end SolidPod
