import SolidPod.ActivityPub.ConcurrentDelivery
import SolidPod.ActivityPub.Inbox
import SolidPod.ActivityPub.Outbox

/-!
# What becomes of a queued delivery

Posts to the outbox, activities that come in and calls of the delivery worker
share a store, and each of them runs statement by statement. An activity is
recorded before its deliveries are queued and is not removed from the outbox, so
the worker finds it for each of them. A delivery stays in the queue, for the
inbox that it was queued for, until one of its requests is taken or refused for
good, or until as many requests were sent for it as the worker has attempts.
-/

namespace SolidPod

open Foundation

open Ldp (getKey asStr)

namespace ActivityPub

/-- How far a post to the outbox has got. -/
inductive PostPhase where
  | ready
  | recorded (activityId activityType : Str) (activity : Json)
  | enqueueing (activityId : Str) (activity : Json) (i : ℕ) (rest : List Str)
  | answered (answer : Except SubmissionError OutboundDelivery)

/-- The activity that a post has recorded. -/
def PostPhase.activityId : PostPhase → Option Str
  | .recorded id _ _ | .enqueueing id _ _ _ => some id
  | .ready | .answered _ => none

/-- The row that a call has in hand and has not settled, as it was picked. -/
def DrainPhase.item : DrainPhase → Option DeliveryItem
  | .picked item | .signed item | .sent item => some item
  | .ready | .orphan _ | .settled _ _ | .done => none

structure QueuedDelivery where
  queueId : Nat
  activityId : Str
  inboxUrl : Str

def DeliveryItem.delivery (item : DeliveryItem) : QueuedDelivery :=
  ⟨item.queueId, item.activityId, item.inboxUrl⟩

def QueueRow.delivery (row : QueueRow) (queueId : Nat) : QueuedDelivery :=
  ⟨queueId, row.activityId, row.inboxUrl⟩

/-- The worker's calls and the posts on one store, with the deliveries that were queued. -/
structure Federation (ι κ : Type*) extends Delivering ι where
  posting : κ → PostPhase
  queued : List QueuedDelivery

section Steps

variable {ι κ : Type*} [DecidableEq κ] (serde : SerdeJson) (posts : κ → Submission)

/-- No call and no post has begun. -/
def Federation.start (store : Store) : Federation ι κ where
  toDelivering := .start store
  posting _ := .ready
  queued := store.deliveryQueue.rows.map fun r => r.2.delivery r.1

/-- The post goes on to a phase. -/
def Federation.advance (u : Federation ι κ) (k : κ) (store : Store) (phase : PostPhase) :
    Federation ι κ :=
  { u with store := store, posting := Function.update u.posting k phase }

/-- The next step of a post. -/
def postStep (u : Federation ι κ) (k : κ) : Option (Federation ι κ) :=
  match u.posting k with
  | .ready =>
    match (posts k).toActivity with
    | .error e => some (u.advance k u.store (.answered (.error e)))
    | .ok activity =>
      match textOf activity "type" with
      | none =>
        some (u.advance k u.store (.answered (.error (.invalidActivity "missing type"))))
      | some activityType =>
        let activity := (posts k).stampActor ((posts k).stampId activity)
        match u.store.recordOutbox serde (posts k).record (posts k).rowUuid (posts k).actorId
          activity with
        | (.error e, s) => some (u.advance k s (.answered (.error (.storage e))))
        | (.ok activityId, s) => some (u.advance k s (.recorded activityId activityType activity))
  | .recorded activityId activityType activity =>
    match (posts k).targetInboxes activityType activity u.store with
    | (.error e, s) => some (u.advance k s (.answered (.error (.storage e))))
    | (.ok inboxes, s) => some (u.advance k s (.enqueueing activityId activity 0 inboxes))
  | .enqueueing activityId activity i [] =>
    some (u.advance k u.store (.answered (.ok ⟨activityId, i, activity⟩)))
  | .enqueueing activityId activity i (inbox :: rest) =>
    match u.store.enqueueDelivery ((posts k).enqueue i) activityId inbox with
    | (.error e, s) => some (u.advance k s (.answered (.error (.storage e))))
    | (.ok queueId, s) =>
      some { u.advance k s (.enqueueing activityId activity (i + 1) rest) with
        queued := u.queued ++ [⟨queueId, activityId, inbox⟩] }
  | .answered _ => none

/-! ## A post on its own -/

/-- The post, left alone, comes to an end with an answer and a store. -/
def PostFinishes (u : Federation ι κ) (k : κ)
    (result : Except SubmissionError OutboundDelivery × Store) : Prop :=
  ∃ n v, Schedule.run (postStep serde posts) u (List.replicate n k) = some v ∧
    v.posting k = .answered result.1 ∧ v.store = result.2

variable {serde posts} {u v : Federation ι κ} {k : κ}

@[simp] theorem advance_posting_self (s : Store) (phase : PostPhase) :
    (u.advance k s phase).posting k = phase :=
  Function.update_self _ _ _

theorem PostFinishes.answered {answer : Except SubmissionError OutboundDelivery}
    (h : u.posting k = .answered answer) : PostFinishes serde posts u k (answer, u.store) :=
  ⟨0, u, rfl, h, rfl⟩

theorem PostFinishes.step {result : Except SubmissionError OutboundDelivery × Store}
    (hstep : postStep serde posts u k = some v) (h : PostFinishes serde posts v k result) :
    PostFinishes serde posts u k result := by
  obtain ⟨n, w, hrun, hphase, hstore⟩ := h
  refine ⟨n + 1, w, ?_, hphase, hstore⟩
  rw [List.replicate_succ, Schedule.run, List.foldlM_cons, hstep]
  exact hrun

/-- The step that ends the post. -/
theorem PostFinishes.last {s : Store} {answer : Except SubmissionError OutboundDelivery}
    (hstep : postStep serde posts u k = some (u.advance k s (.answered answer))) :
    PostFinishes serde posts u k (answer, s) :=
  .step hstep (.answered (advance_posting_self s _))

theorem postFinishes_enqueueing {activityId : Str} {activity : Json} (rest : List Str) {n : ℕ}
    (h : u.posting k = .enqueueing activityId activity n rest) :
    PostFinishes serde posts u k
      (match enqueueAll (posts k).enqueue activityId n rest u.store with
      | (.error e, s) => (.error (.storage e), s)
      | (.ok (), s) => (.ok ⟨activityId, n + rest.length, activity⟩, s)) := by
  induction rest generalizing u n with
  | nil => exact .last (by rw [postStep, h]; rfl)
  | cons inbox rest ih =>
      rw [enqueueAll]
      rcases henqueue : u.store.enqueueDelivery ((posts k).enqueue n) activityId inbox with
        ⟨e | queueId, s⟩
      · exact .last (by rw [postStep, h]; simp only [henqueue])
      · have hnext := ih (u := { u.advance k s (.enqueueing activityId activity (n + 1) rest) with
          queued := u.queued ++ [⟨queueId, activityId, inbox⟩] }) (n := n + 1)
          (advance_posting_self s _)
        rw [List.length_cons, Nat.add_comm rest.length, ← Nat.add_assoc]
        exact .step (by rw [postStep, h]; simp only [henqueue]) hnext

/-- A post that is not disturbed does what `handleOutboxPost` does. -/
theorem postFinishes_ready (h : u.posting k = .ready) :
    PostFinishes serde posts u k (handleOutboxPost serde u.store (posts k)) := by
  rw [handleOutboxPost]
  cases hactivity : (posts k).toActivity with
  | error e => exact .last (by rw [postStep, h]; simp only [hactivity])
  | ok activity =>
      simp only
      rw [handleOutbox]
      cases htype : textOf activity "type" with
      | none => exact .last (by rw [postStep, h]; simp only [hactivity, htype])
      | some activityType =>
          simp only
          rcases hrecord : u.store.recordOutbox serde (posts k).record (posts k).rowUuid
            (posts k).actorId ((posts k).stampActor ((posts k).stampId activity)) with
            ⟨e | activityId, s⟩
          · exact .last (by rw [postStep, h]; simp only [hactivity, htype, hrecord])
          · refine .step (v := u.advance k s (.recorded activityId activityType
              ((posts k).stampActor ((posts k).stampId activity))))
              (by rw [postStep, h]; simp only [hactivity, htype, hrecord]) ?_
            have hposting := advance_posting_self (u := u) (k := k) s (.recorded activityId
              activityType ((posts k).stampActor ((posts k).stampId activity)))
            generalize hnext : u.advance k s _ = v at hposting ⊢
            obtain rfl : v.store = s := by rw [← hnext]; rfl
            rcases htarget : (posts k).targetInboxes activityType
              ((posts k).stampActor ((posts k).stampId activity)) v.store with ⟨e | inboxes, t⟩
            · exact .last (by rw [postStep, hposting]; simp only [htarget])
            · refine .step (v := v.advance k t (.enqueueing activityId
                ((posts k).stampActor ((posts k).stampId activity)) 0 inboxes))
                (by rw [postStep, hposting]; simp only [htarget]) ?_
              simp only [htarget]
              rw [← Nat.zero_add inboxes.length]
              exact postFinishes_enqueueing inboxes (advance_posting_self t _)

end Steps

/-! ## Everything that shares the store -/

/-- A statement on the tables of received activities, followers and followed actors. -/
inductive RelationChange where
  | record (actorId : Str) (activity : Json)
  | carryOut (localActorId : Str) (effect : InboxEffect)
  | request (actorId targetId : Str)

def RelationChange.execute (turn : Turn) (s : Store) : RelationChange → Store
  | .record actorId activity => (s.recordInbox turn actorId activity).2
  | .carryOut localActorId effect => (effect.execute turn localActorId s).2
  | .request actorId targetId => (s.addFollowing turn actorId targetId).2

/-- Who takes the next step. -/
inductive Move (ι κ : Type*) where
  | drain (i : ι)
  | post (k : κ)
  | relate (turn : Turn) (change : RelationChange)

section Runs

variable {ι κ : Type*}

def federationStep [DecidableEq ι] [DecidableEq κ] (lib : SigLibrary) (serde : SerdeJson)
    (config : DeliveryConfig) (calls : ι → Drain) (posts : κ → Submission) (u : Federation ι κ) :
    Move ι κ → Option (Federation ι κ)
  | .drain i =>
    (drainStep lib serde config calls u.toDelivering i).map fun v => { u with toDelivering := v }
  | .post k => postStep serde posts u k
  | .relate turn change => some { u with store := change.execute turn u.store }

/-! ## What holds in every run -/

/-- The answer refuses a request for good. -/
def Drain.Refuses (d : Drain) : Prop :=
  ∃ status, d.answer = .ok status ∧ isClientError status ∧ status ≠ 408 ∧ status ≠ 429

/-- Requests were sent for a delivery, and it need not be sent any more. -/
inductive Concluded (calls : ι → Drain) (sent : List (Post ι)) (d : QueuedDelivery) : Prop
  | delivered (i : ι) (hsent : ⟨i, d.queueId⟩ ∈ sent) (h : (calls i).Succeeds)
  | refused (i : ι) (hsent : ⟨i, d.queueId⟩ ∈ sent) (h : (calls i).Refuses)
  | exhausted (h : maxAttempts ≤ sent.countP fun p => p.queueId = d.queueId)

/-- The queue has a row for a delivery. -/
def Store.Awaits (s : Store) (d : QueuedDelivery) : Prop :=
  ∃ row, s.deliveryQueue.get? d.queueId = some row ∧ row.delivery d.queueId = d

/-- The outbox has an activity under an id, and its text can be read. -/
def Store.Loads (serde : SerdeJson) (s : Store) (id : Str) : Prop := (s.activity? serde id).isSome

/-- No delivery is lost, and the worker takes no request for another one. -/
structure Accounted (calls : ι → Drain) (u : Federation ι κ) : Prop where
  accounted : ∀ d ∈ u.queued, u.store.Awaits d ∨ Concluded calls u.posts d
  noOrphan : ∀ i queueId, u.phase i ≠ .orphan queueId
  asQueued : ∀ i item, (u.phase i).item = some item → item.delivery ∈ u.queued
  fannedOut : ∀ k delivery, u.posting k = .answered (.ok delivery) →
    delivery.queuedInboxes ≤ u.queued.countP fun d => d.activityId = delivery.activityId

structure FederationInv (serde : SerdeJson) (calls : ι → Drain) (u : Federation ι κ) : Prop where
  loads : ∀ d ∈ u.queued, u.store.Loads serde d.activityId
  recorded : ∀ k id, (u.posting k).activityId = some id → u.store.Loads serde id
  rows : ∀ queueId row, u.store.deliveryQueue.get? queueId = some row →
    row.delivery queueId ∈ u.queued ∧ row.attempts ≤ settledPosts u.toDelivering queueId
  numbered : ∀ d ∈ u.queued, d.queueId ≤ u.store.deliveryQueue.last
  distinct : ∀ d ∈ u.queued, ∀ d' ∈ u.queued, d.queueId = d'.queueId → d = d'
  items : ∀ i item, (u.phase i).item = some item →
    item.delivery ∈ u.queued ∧ item.attempts ≤ settledPosts u.toDelivering item.queueId
  noOrphan : ∀ i queueId, u.phase i ≠ .orphan queueId
  past : ∀ p ∈ u.posts, (u.phase p.call).isSent = true ∨ (u.phase p.call).isPast = true
  logged : ∀ i item, u.phase i = .sent item → ⟨i, item.queueId⟩ ∈ u.posts
  accounted : ∀ d ∈ u.queued, (u.store.deliveryQueue.get? d.queueId).isSome ∨
    Concluded calls u.posts d
  fanning : ∀ k id activity n rest, u.posting k = .enqueueing id activity n rest →
    n ≤ u.queued.countP fun d => d.activityId = id
  fannedOut : ∀ k delivery, u.posting k = .answered (.ok delivery) →
    delivery.queuedInboxes ≤ u.queued.countP fun d => d.activityId = delivery.activityId

variable {serde : SerdeJson} {calls : ι → Drain} {u v : Federation ι κ} {s : Store}

theorem FederationInv.toAccounted (h : FederationInv serde calls u) : Accounted calls u where
  accounted d hd := by
    rcases h.accounted d hd with hrow | hconcluded
    · obtain ⟨row, hrow⟩ := Option.isSome_iff_exists.mp hrow
      exact Or.inl ⟨row, hrow, h.distinct _ (h.rows d.queueId row hrow).1 d hd rfl⟩
    · exact Or.inr hconcluded
  noOrphan := h.noOrphan
  asQueued i item hitem := (h.items i item hitem).1
  fannedOut := h.fannedOut

/-- A queue without attempts whose activities are in the outbox. -/
structure Store.Consistent (serde : SerdeJson) (s : Store) : Prop where
  loads : ∀ queueId row, s.deliveryQueue.get? queueId = some row → s.Loads serde row.activityId
  fresh : ∀ queueId row, s.deliveryQueue.get? queueId = some row → row.attempts = 0

theorem mem_queued_start {d : QueuedDelivery} : d ∈ (Federation.start s : Federation ι κ).queued ↔
    ∃ row, s.deliveryQueue.get? d.queueId = some row ∧ row.delivery d.queueId = d := by
  rw [Federation.start, List.mem_map]
  constructor
  · rintro ⟨⟨queueId, row⟩, hrow, rfl⟩
    exact ⟨row, SerialTable.get?_eq_some_iff.mpr hrow, rfl⟩
  · rintro ⟨row, hrow, heq⟩
    exact ⟨(d.queueId, row), SerialTable.get?_eq_some_iff.mp hrow, heq⟩

theorem federationInv_start (hs : s.Consistent serde) :
    FederationInv serde calls (Federation.start s : Federation ι κ) where
  loads d hd := by
    obtain ⟨row, hrow, heq⟩ := mem_queued_start.mp hd
    rw [← heq]
    exact hs.loads d.queueId row hrow
  recorded k id h := by cases h
  rows queueId row hrow := by
    refine ⟨mem_queued_start.mpr ⟨row, hrow, rfl⟩, ?_⟩
    rw [hs.fresh queueId row hrow]
    exact Nat.zero_le _
  numbered d hd := by
    obtain ⟨row, hrow, -⟩ := mem_queued_start.mp hd
    exact s.deliveryQueue.fresh _ (SerialTable.get?_eq_some_iff.mp hrow)
  distinct d hd d' hd' heq := by
    obtain ⟨row, hrow, hd⟩ := mem_queued_start.mp hd
    obtain ⟨row', hrow', hd'⟩ := mem_queued_start.mp hd'
    rw [heq, hrow'] at hrow
    rw [← hd, ← hd', heq, Option.some.inj hrow]
  items i item h := by cases h
  noOrphan i queueId := by
    rw [Federation.start, Delivering.start]
    exact DrainPhase.noConfusion
  past p h := by cases h
  logged i item h := by cases h
  accounted d hd := by
    obtain ⟨row, hrow, -⟩ := mem_queued_start.mp hd
    exact Or.inl (Option.isSome_iff_exists.mpr ⟨row, hrow⟩)
  fanning k id activity n rest h := by cases h
  fannedOut k delivery h := by cases h

/-! ### The worker -/

theorem Store.Loads.of_outbox {t : Store} {id : Str} (h : s.Loads serde id)
    (heq : t.outbox = s.outbox) : t.Loads serde id := by
  rw [Loads, activity?, heq]
  exact h

theorem Store.Loads.markOutboxState {id : Str} (h : s.Loads serde id) (turn : Turn)
    (id' state : Str) : (s.markOutboxState turn id' state).2.Loads serde id := by
  rw [Store.markOutboxState]
  cases hfault : turn.fault with
  | some e =>
      rw [Turn.execute_of_fault hfault]
      exact h
  | none =>
      have hid : (fun r : OutboxRow => decide (r.id = id)) ∘ (fun r : OutboxRow =>
          if r.id = id' then { r with deliveryState := state } else r) =
          fun r => decide (r.id = id) := by
        funext r
        rw [Function.comp_apply]
        split_ifs <;> rfl
      have hactivity : ∀ r : OutboxRow, serde.fromStr (if r.id = id' then
          { r with deliveryState := state } else r).activity = serde.fromStr r.activity := by
        intro r
        split_ifs <;> rfl
      rw [Turn.execute_of_no_fault hfault, Loads, activity?, List.find?_map, hid,
        Option.bind_map]
      rw [Loads, activity?] at h
      simpa only [Function.comp_def, hactivity] using h

/-- The row that a call of the worker picks. -/
theorem item_of_nextDueDelivery {turn : Turn} {item : DeliveryItem}
    (h : (s.nextDueDelivery turn).1 = .ok (some item)) : ∃ row,
      s.deliveryQueue.get? item.queueId = some row ∧ item = row.item item.queueId := by
  rw [Store.nextDueDelivery] at h
  cases hfault : turn.fault with
  | some e =>
      rw [Turn.execute_of_fault hfault] at h
      cases h
  | none =>
      rw [Turn.execute_of_no_fault hfault] at h
      obtain ⟨⟨i, row⟩, hfirst, rfl⟩ := Option.map_eq_some_iff.mp (Except.ok.inj h)
      exact ⟨row, (SerialTable.first_eq_some_iff.mp hfirst).1, rfl⟩

theorem loadActivity_of_loads (turn : Turn) {id : Str} (h : s.Loads serde id) :
    (s.loadActivity serde turn id).1 ≠ .ok none := by
  rw [Store.loadActivity]
  cases hfault : turn.fault with
  | some e =>
      rw [Turn.execute_of_fault hfault]
      intro hnone
      cases hnone
  | none =>
      rw [Turn.execute_of_no_fault hfault]
      intro hnone
      have hgone : s.activity? serde id = none := Except.ok.inj hnone
      rw [Store.Loads, hgone] at h
      cases h

theorem Concluded.mono {sent sent' : List (Post ι)} {d : QueuedDelivery}
    (h : Concluded calls sent d) (hsub : sent.Sublist sent') : Concluded calls sent' d := by
  cases h with
  | delivered i hsent h => exact .delivered i (hsub.subset hsent) h
  | refused i hsent h => exact .refused i (hsub.subset hsent) h
  | exhausted h => exact .exhausted (h.trans hsub.countP_le)

variable [DecidableEq ι] {i : ι} {phase : DrainPhase}

/-- A call of the worker goes on without sending. -/
theorem FederationInv.goTo (h : FederationInv serde calls u)
    (hloads : ∀ id, u.store.Loads serde id → s.Loads serde id)
    (hlast : s.deliveryQueue.last = u.store.deliveryQueue.last)
    (hnew : phase.isSent = false)
    (hpast : (u.phase i).isSent = true ∨ (u.phase i).isPast = true → phase.isPast = true)
    (horphan : ∀ queueId, phase ≠ .orphan queueId)
    (hitem : ∀ item, phase.item = some item →
      item.delivery ∈ u.queued ∧ item.attempts ≤ settledPosts u.toDelivering item.queueId)
    (hrows : ∀ queueId row, s.deliveryQueue.get? queueId = some row →
      row.delivery queueId ∈ u.queued ∧
        row.attempts ≤ settledPosts (u.toDelivering.goTo i s phase) queueId)
    (haccounted : ∀ d ∈ u.queued, (u.store.deliveryQueue.get? d.queueId).isSome →
      (s.deliveryQueue.get? d.queueId).isSome ∨ Concluded calls u.posts d) :
    FederationInv serde calls { u with toDelivering := u.toDelivering.goTo i s phase } where
  loads d hd := hloads _ (h.loads d hd)
  recorded k id hid := hloads _ (h.recorded k id hid)
  rows := hrows
  numbered d hd := by
    rw [goTo_store, hlast]
    exact h.numbered d hd
  distinct := h.distinct
  items j item hj := by
    rw [goTo_phase] at hj
    split_ifs at hj
    · exact ⟨(hitem item hj).1, (hitem item hj).2.trans (settledPosts_le _ hnew)⟩
    · exact ⟨(h.items j item hj).1, (h.items j item hj).2.trans (settledPosts_le _ hnew)⟩
  noOrphan j queueId := by
    rw [goTo_phase]
    split_ifs
    · exact horphan queueId
    · exact h.noOrphan j queueId
  past p hp := by
    rw [goTo_phase]
    split_ifs with hi
    · rw [← hi] at hpast
      exact Or.inr (hpast (h.past p hp))
    · exact h.past p hp
  logged j item hj := by
    rw [goTo_phase] at hj
    split_ifs at hj
    · rw [hj] at hnew
      cases hnew
    · exact h.logged j item hj
  accounted d hd := by
    rcases h.accounted d hd with hrow | hconcluded
    · exact haccounted d hd hrow
    · exact Or.inr hconcluded
  fanning := h.fanning
  fannedOut := h.fannedOut

/-- A call of the worker goes on and leaves the queue as it is. -/
theorem FederationInv.goTo_of_queue (h : FederationInv serde calls u)
    (hloads : ∀ id, u.store.Loads serde id → s.Loads serde id)
    (hqueue : s.deliveryQueue = u.store.deliveryQueue) (hnew : phase.isSent = false)
    (hpast : (u.phase i).isSent = true ∨ (u.phase i).isPast = true → phase.isPast = true)
    (horphan : ∀ queueId, phase ≠ .orphan queueId)
    (hitem : ∀ item, phase.item = some item →
      item.delivery ∈ u.queued ∧ item.attempts ≤ settledPosts u.toDelivering item.queueId) :
    FederationInv serde calls { u with toDelivering := u.toDelivering.goTo i s phase } := by
  refine h.goTo hloads (congrArg SerialTable.last hqueue) hnew hpast horphan hitem ?_ ?_
  · intro queueId row hrow
    rw [hqueue] at hrow
    obtain ⟨hmem, hle⟩ := h.rows queueId row hrow
    exact ⟨hmem, hle.trans (settledPosts_le _ hnew)⟩
  · intro d _ hrow
    rw [hqueue]
    exact Or.inl hrow

/-- A call of the worker sends its request. -/
theorem FederationInv.send (h : FederationInv serde calls u) {item : DeliveryItem}
    (hphase : u.phase i = .signed item) : FederationInv serde calls { u with
      toDelivering := { u.toDelivering.goTo i u.store (.sent item) with
        posts := u.posts ++ [⟨i, item.queueId⟩] } } := by
  have hnone : ∀ p ∈ u.posts, p.call ≠ i := by
    intro p hp heq
    have hpast := h.past p hp
    rw [heq, hphase] at hpast
    rcases hpast with hsent | hpast
    · cases hsent
    · cases hpast
  have hsettled : ∀ queueId, settledPosts u.toDelivering queueId ≤
      settledPosts { u.toDelivering.goTo i u.store (.sent item) with
        posts := u.posts ++ [⟨i, item.queueId⟩] } queueId := by
    intro queueId
    rw [settledPosts, settledPosts, List.countP_append]
    refine Nat.le_add_right_of_le (List.countP_mono_left fun p hp hq => ?_)
    rw [goTo_phase, if_neg (hnone p hp)]
    exact hq
  exact {
    h with
    rows := fun queueId row hrow =>
      ⟨(h.rows queueId row hrow).1, (h.rows queueId row hrow).2.trans (hsettled queueId)⟩
    items := by
      intro j other hj
      rw [goTo_phase] at hj
      split_ifs at hj
      · cases hj
        obtain ⟨hmem, hle⟩ := h.items i item (by rw [hphase]; rfl)
        exact ⟨hmem, hle.trans (hsettled _)⟩
      · exact ⟨(h.items j other hj).1, (h.items j other hj).2.trans (hsettled _)⟩
    noOrphan := by
      intro j queueId
      rw [goTo_phase]
      split_ifs
      · exact DrainPhase.noConfusion
      · exact h.noOrphan j queueId
    past := by
      intro p hp
      rw [goTo_phase]
      split_ifs with hi
      · exact Or.inl rfl
      · rcases List.mem_append.mp hp with hp | hp
        · exact h.past p hp
        · rw [List.mem_singleton.mp hp] at hi
          exact absurd rfl hi
    logged := by
      intro j other hj
      rw [goTo_phase] at hj
      split_ifs at hj with hi
      · cases hj
        rw [hi]
        exact List.mem_append_right _ (List.mem_singleton_self _)
      · exact List.mem_append_left _ (h.logged j other hj)
    accounted := fun d hd =>
      (h.accounted d hd).imp_right fun hc => hc.mono (List.sublist_append_left _ _) }

omit [DecidableEq ι] in
/-- A settlement that removes the row of a delivery concludes it. -/
theorem concluded_of_settlement {sent : List (Post ι)} {item : DeliveryItem}
    (hsent : ⟨i, item.queueId⟩ ∈ sent)
    (hattempts : item.attempts + 1 ≤ sent.countP fun p => p.queueId = item.queueId)
    (h : ∀ delaySecs error, settlement item (calls i).answer ≠ .retry delaySecs error) :
    Concluded calls sent item.delivery := by
  have hlast : ∀ error, (∀ delaySecs error', retryOrFail item error ≠ .retry delaySecs error') →
      Concluded calls sent item.delivery := by
    intro error hretry
    by_cases hmax : item.attempts + 1 ≥ maxAttempts
    · exact .exhausted (hmax.le.trans hattempts)
    · rw [retryOrFail, if_neg hmax] at hretry
      exact absurd rfl (hretry _ _)
  cases hanswer : (calls i).answer with
  | error e =>
      rw [hanswer, settlement] at h
      exact hlast e h
  | ok status =>
      rw [hanswer, settlement] at h
      by_cases hsuccess : isSuccess status
      · exact .delivered i hsent ⟨status, hanswer, hsuccess⟩
      by_cases hclient : isClientError status ∧ status ≠ 408 ∧ status ≠ 429
      · exact .refused i hsent ⟨status, hanswer, hclient⟩
      · rw [if_neg hsuccess, if_neg hclient] at h
        exact hlast _ h

theorem settleRow_outbox (turn : Turn) (queueId : Nat) (s : Store) (settlement : Settlement) :
    (settleRow turn queueId s settlement).2.outbox = s.outbox := by
  cases hfault : turn.fault with
  | some e => rw [settleRow_of_fault hfault]
  | none =>
      cases settlement with
      | deliver | fail => rw [settleRow, Store.dropDelivery, Turn.execute_of_no_fault hfault]
      | retry => rw [settleRow, Store.rescheduleDelivery, Turn.execute_of_no_fault hfault]

/-- A row that is there after a settlement was there before it, for the same delivery. -/
theorem row_of_settlement {now queueId j : Nat} {q : SerialTable QueueRow}
    {settlement : Settlement} {row' : QueueRow}
    (h : (settlement.queue now queueId q).get? j = some row') :
    ∃ row, q.get? j = some row ∧ row'.delivery j = row.delivery j ∧
      row'.attempts ≤ if j = queueId then row.attempts + 1 else row.attempts := by
  cases settlement with
  | deliver | fail =>
      rw [Settlement.queue, SerialTable.get?_remove] at h
      split_ifs at h with hj
      exact ⟨row', h, rfl, by rw [if_neg hj]⟩
  | retry delaySecs error =>
      rw [Settlement.queue, SerialTable.get?_modify] at h
      split_ifs at h with hj
      · obtain ⟨row, hrow, rfl⟩ := Option.map_eq_some_iff.mp h
        exact ⟨row, hj ▸ hrow, rfl, by rw [if_pos hj]⟩
      · exact ⟨row', h, rfl, by rw [if_neg hj]⟩

/-- A call of the worker settles the row of the request that it has sent. -/
theorem FederationInv.settle (h : FederationInv serde calls u) {item : DeliveryItem}
    (hphase : u.phase i = .sent item) (houtbox : s.outbox = u.store.outbox)
    (hqueue : s.deliveryQueue = (settlement item (calls i).answer).queue (calls i).settle.now
      item.queueId u.store.deliveryQueue)
    (hpast : phase.isPast = true) :
    FederationInv serde calls { u with toDelivering := u.toDelivering.goTo i s phase } := by
  have hnew : phase.isSent = false ∧ phase.item = none ∧ ∀ queueId, phase ≠ .orphan queueId := by
    cases phase with
    | settled | done => exact ⟨rfl, rfl, fun _ => DrainPhase.noConfusion⟩
    | _ => cases hpast
  have hlogged := h.logged i item hphase
  have hlt := settledPosts_lt (s := s) hlogged hphase hnew.1
  obtain ⟨hmem, hattempts⟩ := h.items i item (by rw [hphase]; rfl)
  refine h.goTo (fun id hid => hid.of_outbox houtbox) ?_ hnew.1 (fun _ => hpast) hnew.2.2 ?_ ?_ ?_
  · rw [hqueue]
    cases settlement item (calls i).answer <;> rfl
  · intro other hother
    rw [hnew.2.1] at hother
    cases hother
  · intro queueId row' hrow'
    rw [hqueue] at hrow'
    obtain ⟨row, hrow, hdelivery, hle⟩ := row_of_settlement hrow'
    obtain ⟨hrowMem, hrowLe⟩ := h.rows queueId row hrow
    rw [hdelivery]
    refine ⟨hrowMem, hle.trans ?_⟩
    split_ifs with hq
    · rw [hq] at hrowLe ⊢
      exact (Nat.succ_le_succ hrowLe).trans hlt
    · exact hrowLe.trans (settledPosts_le queueId hnew.1)
  · intro d hd hrow
    by_cases hq : d.queueId = item.queueId
    · rw [h.distinct d hd item.delivery hmem hq]
      cases hsettlement : settlement item (calls i).answer with
      | retry delaySecs error =>
          left
          rw [hqueue, hsettlement, Settlement.queue, SerialTable.get?_modify,
            if_pos (by rfl), Option.isSome_map]
          rw [hq] at hrow
          exact hrow
      | deliver | fail =>
          right
          refine concluded_of_settlement hlogged ?_ ?_
          · have hcount : settledPosts (u.toDelivering.goTo i s phase) item.queueId ≤
                u.posts.countP fun p => p.queueId = item.queueId := by
              refine List.countP_mono_left fun p _ hp => ?_
              rw [decide_eq_true_iff] at hp ⊢
              exact hp.1
            exact ((Nat.succ_le_succ hattempts).trans hlt).trans hcount
          · intro delaySecs error
            rw [hsettlement]
            exact Settlement.noConfusion
    · left
      rw [hqueue]
      cases settlement item (calls i).answer with
      | deliver | fail =>
          rw [Settlement.queue, SerialTable.get?_remove, if_neg hq]
          exact hrow
      | retry =>
          rw [Settlement.queue, SerialTable.get?_modify, if_neg hq]
          exact hrow

theorem FederationInv.drain {lib : SigLibrary} {config : DeliveryConfig} {w : Delivering ι}
    (h : FederationInv serde calls u)
    (hstep : drainStep lib serde config calls u.toDelivering i = some w) :
    FederationInv serde calls { u with toDelivering := w } := by
  rw [drainStep] at hstep
  have hkept : ∀ id, u.store.Loads serde id → u.store.Loads serde id := fun _ hid => hid
  cases hphase : u.phase i with
  | done => simp [hphase] at hstep
  | orphan queueId => exact absurd hphase (h.noOrphan i queueId)
  | ready =>
      have hnot : ∀ phase : DrainPhase, (u.phase i).isSent = true ∨ (u.phase i).isPast = true →
          phase.isPast = true := by
        rw [hphase]
        rintro phase (hsent | hpast)
        · cases hsent
        · cases hpast
      have hstore := nextDueDelivery_snd (calls i).select u.store
      rcases hselect : u.store.nextDueDelivery (calls i).select with ⟨answer, s⟩
      rw [hselect] at hstore
      obtain rfl : s = u.store := hstore
      simp only [hphase, hselect] at hstep
      rcases answer with e | item | item
      · cases hstep
        exact h.goTo_of_queue hkept rfl rfl (hnot _) (fun _ => DrainPhase.noConfusion)
          (fun _ hitem => by cases hitem)
      · cases hstep
        exact h.goTo_of_queue hkept rfl rfl (hnot _) (fun _ => DrainPhase.noConfusion)
          (fun _ hitem => by cases hitem)
      · cases hstep
        refine h.goTo_of_queue hkept rfl rfl (hnot _) (fun _ => DrainPhase.noConfusion) ?_
        intro other hother
        cases hother
        obtain ⟨row, hrow, heq⟩ := item_of_nextDueDelivery (congrArg Prod.fst hselect)
        obtain ⟨hmem, hle⟩ := h.rows item.queueId row hrow
        rw [heq]
        exact ⟨hmem, hle⟩
  | picked item =>
      have hnot : ∀ phase : DrainPhase, (u.phase i).isSent = true ∨ (u.phase i).isPast = true →
          phase.isPast = true := by
        rw [hphase]
        rintro phase (hsent | hpast)
        · cases hsent
        · cases hpast
      have hitem := h.items i item (by rw [hphase]; rfl)
      have hloads := loadActivity_of_loads (calls i).load (h.loads _ hitem.1)
      have hstore := loadActivity_snd serde (calls i).load item.activityId u.store
      rcases hload : u.store.loadActivity serde (calls i).load item.activityId with ⟨answer, s⟩
      rw [hload] at hstore
      obtain rfl : s = u.store := hstore
      simp only [hphase, hload] at hstep
      rcases answer with e | activity | activity
      · cases hstep
        exact h.goTo_of_queue hkept rfl rfl (hnot _) (fun _ => DrainPhase.noConfusion)
          (fun _ hnone => by cases hnone)
      · exact absurd (congrArg Prod.fst hload) hloads
      · simp only at hstep
        split at hstep
        · cases hstep
          exact h.goTo_of_queue hkept rfl rfl (hnot _) (fun _ => DrainPhase.noConfusion)
            (fun _ hnone => by cases hnone)
        · cases hstep
          refine h.goTo_of_queue hkept rfl rfl (hnot _) (fun _ => DrainPhase.noConfusion) ?_
          intro other hother
          cases hother
          exact hitem
  | signed item =>
      simp only [hphase, Option.some.injEq] at hstep
      rw [← hstep]
      exact h.send hphase
  | sent item =>
      simp only [hphase] at hstep
      cases hfault : (calls i).settle.fault with
      | some e =>
          rw [settleRow_of_fault hfault] at hstep
          cases hstep
          exact h.goTo_of_queue hkept rfl rfl (fun _ => rfl) (fun _ => DrainPhase.noConfusion)
            (fun _ hnone => by cases hnone)
      | none =>
          obtain ⟨n, t, hsettle, hqueue⟩ := settleRow_of_no_fault hfault item.queueId u.store
            (settlement item (calls i).answer)
          have houtbox := settleRow_outbox (calls i).settle item.queueId u.store
            (settlement item (calls i).answer)
          rw [hsettle] at hstep houtbox
          simp only at hstep
          split at hstep
          · cases hstep
            exact h.settle hphase houtbox hqueue rfl
          · cases hstep
            exact h.settle hphase houtbox hqueue rfl
  | settled item state =>
      simp only [hphase, Option.some.injEq] at hstep
      rw [← hstep]
      exact h.goTo_of_queue (fun _ hid => hid.markOutboxState _ _ _)
        (markOutboxState_queue _ _ _ _) rfl (fun _ => rfl) (fun _ => DrainPhase.noConfusion)
        (fun _ hnone => by cases hnone)

/-! ### Posts and other statements -/

omit [DecidableEq ι]

variable (serde) in
theorem recordOutbox_queue (turn : Turn) (uuid actorId : Str) (activity : Json) (s : Store) :
    (s.recordOutbox serde turn uuid actorId activity).2.deliveryQueue = s.deliveryQueue := by
  rw [Store.recordOutbox]
  cases hfault : turn.fault with
  | none => rw [Turn.execute_of_no_fault hfault]
  | some e => rw [Turn.execute_of_fault hfault]

/-- A text that the library wrote can be read, so an activity that is recorded stays there. -/
theorem loads_recordOutbox (hserde : ∀ v, (serde.fromStr (serde.toString v)).isSome) (turn : Turn)
    (uuid actorId : Str) (activity : Json) (id : Str)
    (h : s.Loads serde id ∨ (s.recordOutbox serde turn uuid actorId activity).1 = .ok id) :
    (s.recordOutbox serde turn uuid actorId activity).2.Loads serde id := by
  rw [Store.recordOutbox] at h ⊢
  cases hfault : turn.fault with
  | some e =>
      rw [Turn.execute_of_fault hfault] at h ⊢
      exact h.resolve_right fun hok => by cases hok
  | none =>
      rw [Turn.execute_of_no_fault hfault] at h ⊢
      simp only at h ⊢
      generalize ((getKey activity "id").bind asStr).getD ("urn:uuid:" ++ uuid) = new at h ⊢
      rw [Store.Loads, Store.activity?, List.find?_append]
      by_cases hid : new = id
      · have hnone : (s.outbox.filter fun r => r.id ≠ new).find? (fun r => r.id = id) = none := by
          rw [List.find?_eq_none]
          intro r hr
          rw [hid] at hr
          simpa using (List.mem_filter.mp hr).2
        rw [hnone, Option.none_or, List.find?_cons_of_pos (by exact decide_eq_true hid)]
        exact hserde activity
      · have hsame : (s.outbox.filter fun r => r.id ≠ new).find? (fun r => r.id = id) =
            s.outbox.find? fun r => r.id = id := by
          rw [List.find?_filter]
          congr 1
          funext r
          by_cases hr : r.id = id
          · simp [hr, Ne.symm hid]
          · simp [hr]
        have hold : (s.activity? serde id).isSome :=
          h.resolve_right fun hok => hid (Except.ok.inj hok)
        rw [Store.activity?] at hold
        obtain ⟨r, hr⟩ := Option.isSome_iff_exists.mp (Option.isSome_of_isSome_bind hold)
        rw [hsame, hr, Option.some_or]
        rw [hr] at hold
        exact hold

variable [DecidableEq κ] {k : κ} {next : PostPhase}

theorem advance_posting (j : κ) :
    (u.advance k s next).posting j = if j = k then next else u.posting j :=
  Function.update_apply _ _ _ _

/-- A post goes on without queuing a delivery. -/
theorem FederationInv.advance (h : FederationInv serde calls u)
    (hloads : ∀ id, u.store.Loads serde id → s.Loads serde id)
    (hqueue : s.deliveryQueue = u.store.deliveryQueue)
    (hrecorded : ∀ id, next.activityId = some id → s.Loads serde id)
    (hfanning : ∀ id activity n rest, next = .enqueueing id activity n rest →
      n ≤ u.queued.countP fun d => d.activityId = id)
    (hfannedOut : ∀ delivery, next = .answered (.ok delivery) →
      delivery.queuedInboxes ≤ u.queued.countP fun d => d.activityId = delivery.activityId) :
    FederationInv serde calls (u.advance k s next) where
  loads d hd := hloads _ (h.loads d hd)
  recorded j id hid := by
    rw [advance_posting] at hid
    split_ifs at hid
    · exact hrecorded id hid
    · exact hloads id (h.recorded j id hid)
  rows queueId row hrow := by
    rw [Federation.advance, hqueue] at hrow
    exact h.rows queueId row hrow
  numbered d hd := by
    rw [Federation.advance, hqueue]
    exact h.numbered d hd
  distinct := h.distinct
  items := h.items
  noOrphan := h.noOrphan
  past := h.past
  logged := h.logged
  accounted d hd := by
    rw [Federation.advance, hqueue]
    exact h.accounted d hd
  fanning j id activity n rest hj := by
    rw [advance_posting] at hj
    split_ifs at hj
    · exact hfanning id activity n rest hj
    · exact h.fanning j id activity n rest hj
  fannedOut j delivery hj := by
    rw [advance_posting] at hj
    split_ifs at hj
    · exact hfannedOut delivery hj
    · exact h.fannedOut j delivery hj

theorem get?_push {α : Type*} {t : SerialTable α} {a : α} (i : Nat) :
    (t.push a).get? i = if i = t.last + 1 then some a else t.get? i := by
  refine Option.ext fun b => ?_
  rw [SerialTable.get?_eq_some_iff, SerialTable.push, List.mem_append, List.mem_singleton]
  split_ifs with hi
  · rw [Prod.mk.injEq, and_iff_right hi, Option.some.injEq, eq_comm (a := a)]
    refine or_iff_right fun hmem => ?_
    have hle := t.fresh _ hmem
    omega
  · rw [Prod.mk.injEq, SerialTable.get?_eq_some_iff]
    exact or_iff_left fun h => hi h.1

/-- A post queues a delivery. -/
theorem FederationInv.enqueue (h : FederationInv serde calls u) {id inbox : Str} {now n : ℕ}
    {activity : Json} {rest : List Str}
    (hphase : u.posting k = .enqueueing id activity n (inbox :: rest))
    (houtbox : s.outbox = u.store.outbox)
    (hqueue : s.deliveryQueue = u.store.deliveryQueue.push ⟨id, inbox, 0, now, none⟩) :
    FederationInv serde calls { u.advance k s (.enqueueing id activity (n + 1) rest) with
      queued := u.queued ++ [⟨u.store.deliveryQueue.last + 1, id, inbox⟩] } := by
  have hid : u.store.Loads serde id := h.recorded k id (by rw [hphase]; rfl)
  have hloads : ∀ id, u.store.Loads serde id → s.Loads serde id :=
    fun _ hid => hid.of_outbox houtbox
  have hcount : ∀ id', (u.queued.countP fun d => d.activityId = id') ≤
      List.countP (fun d => d.activityId = id')
        (u.queued ++ [⟨u.store.deliveryQueue.last + 1, id, inbox⟩]) :=
    fun _ => (List.sublist_append_left _ _).countP_le
  exact {
    loads := by
      intro d hd
      rcases List.mem_append.mp hd with hd | hd
      · exact hloads _ (h.loads d hd)
      · rw [List.mem_singleton.mp hd]
        exact hloads id hid
    recorded := by
      intro j id' hj
      rw [advance_posting] at hj
      split_ifs at hj
      · cases hj
        exact hloads id hid
      · exact hloads id' (h.recorded j id' hj)
    rows := by
      intro queueId row hrow
      have hrow' : s.deliveryQueue.get? queueId = some row := hrow
      rw [hqueue, get?_push] at hrow'
      split_ifs at hrow' with hq
      · cases hrow'
        refine ⟨List.mem_append_right _ ?_, Nat.zero_le _⟩
        rw [hq]
        exact List.mem_singleton_self _
      · exact ⟨List.mem_append_left _ (h.rows queueId row hrow').1, (h.rows queueId row hrow').2⟩
    numbered := by
      intro d hd
      have hlast : s.deliveryQueue.last = u.store.deliveryQueue.last + 1 := by
        rw [hqueue]
        rfl
      refine le_of_le_of_eq ?_ hlast.symm
      rcases List.mem_append.mp hd with hd | hd
      · exact Nat.le_succ_of_le (h.numbered d hd)
      · rw [List.mem_singleton.mp hd]
    distinct := by
      intro d hd d' hd' heq
      rcases List.mem_append.mp hd with hd | hd
      · rcases List.mem_append.mp hd' with hd' | hd'
        · exact h.distinct d hd d' hd' heq
        · have hle := h.numbered d hd
          rw [heq, List.mem_singleton.mp hd'] at hle
          exact absurd hle (Nat.not_succ_le_self _)
      · rcases List.mem_append.mp hd' with hd' | hd'
        · have hle := h.numbered d' hd'
          rw [← heq, List.mem_singleton.mp hd] at hle
          exact absurd hle (Nat.not_succ_le_self _)
        · rw [List.mem_singleton.mp hd, List.mem_singleton.mp hd']
    items := fun j item hj =>
      ⟨List.mem_append_left _ (h.items j item hj).1, (h.items j item hj).2⟩
    noOrphan := h.noOrphan
    past := h.past
    logged := h.logged
    accounted := by
      intro d hd
      have hget : s.deliveryQueue.get? d.queueId = if d.queueId = u.store.deliveryQueue.last + 1
          then some ⟨id, inbox, 0, now, none⟩ else u.store.deliveryQueue.get? d.queueId := by
        rw [hqueue, get?_push]
      rcases List.mem_append.mp hd with hd | hd
      · refine (h.accounted d hd).imp_left fun hrow => ?_
        have hne : d.queueId ≠ u.store.deliveryQueue.last + 1 :=
          Nat.ne_of_lt (Nat.lt_succ_of_le (h.numbered d hd))
        rw [if_neg hne] at hget
        rw [Federation.advance, hget]
        exact hrow
      · rw [List.mem_singleton.mp hd] at hget ⊢
        left
        rw [if_pos rfl] at hget
        rw [Federation.advance, hget]
        rfl
    fanning := by
      intro j id' activity' m rest' hj
      rw [advance_posting] at hj
      split_ifs at hj
      · cases hj
        rw [List.countP_append, List.countP_singleton, if_pos (decide_eq_true rfl)]
        exact Nat.succ_le_succ (h.fanning k id activity n _ hphase)
      · exact (h.fanning j id' activity' m rest' hj).trans (hcount id')
    fannedOut := by
      intro j delivery hj
      rw [advance_posting] at hj
      split_ifs at hj
      exact (h.fannedOut j delivery hj).trans (hcount _) }

theorem FederationInv.post {posts : κ → Submission} (h : FederationInv serde calls u)
    (hserde : ∀ v, (serde.fromStr (serde.toString v)).isSome)
    (hstep : postStep serde posts u k = some v) : FederationInv serde calls v := by
  have hkept : ∀ id, u.store.Loads serde id → u.store.Loads serde id := fun _ hid => hid
  rw [postStep.eq_def] at hstep
  cases hphase : u.posting k with
  | answered answer => simp [hphase] at hstep
  | ready =>
      simp only [hphase] at hstep
      cases hactivity : (posts k).toActivity with
      | error e =>
          simp only [hactivity] at hstep
          cases hstep
          exact h.advance hkept rfl (fun _ hid => by cases hid) (fun _ _ _ _ hid => by cases hid)
            (fun _ hid => by cases hid)
      | ok activity =>
          simp only [hactivity] at hstep
          cases htype : textOf activity "type" with
          | none =>
              simp only [htype] at hstep
              cases hstep
              exact h.advance hkept rfl (fun _ hid => by cases hid)
                (fun _ _ _ _ hid => by cases hid) (fun _ hid => by cases hid)
          | some activityType =>
              simp only [htype] at hstep
              generalize (posts k).stampActor ((posts k).stampId activity) = stamped at hstep
              have hqueue := recordOutbox_queue serde (posts k).record (posts k).rowUuid
                (posts k).actorId stamped u.store
              have hloads := loads_recordOutbox (s := u.store) hserde (posts k).record
                (posts k).rowUuid (posts k).actorId stamped
              rcases hrecord : u.store.recordOutbox serde (posts k).record (posts k).rowUuid
                (posts k).actorId stamped with ⟨e | activityId, s⟩
              · rw [hrecord] at hstep hqueue hloads
                cases hstep
                exact h.advance (fun id hid => hloads id (Or.inl hid)) hqueue
                  (fun _ hid => by cases hid) (fun _ _ _ _ hid => by cases hid)
                  (fun _ hid => by cases hid)
              · rw [hrecord] at hstep hqueue hloads
                cases hstep
                refine h.advance (fun id hid => hloads id (Or.inl hid)) hqueue ?_
                  (fun _ _ _ _ hid => by cases hid) (fun _ hid => by cases hid)
                intro id hid
                cases hid
                exact hloads activityId (Or.inr rfl)
  | recorded activityId activityType activity =>
      have hid := h.recorded k activityId (by rw [hphase]; rfl)
      have hstore := targetInboxes_snd (posts k) activityType activity u.store
      rcases htarget : (posts k).targetInboxes activityType activity u.store with ⟨answer, s⟩
      rw [htarget] at hstore
      obtain rfl : s = u.store := hstore
      simp only [hphase, htarget] at hstep
      rcases answer with e | inboxes
      · cases hstep
        exact h.advance hkept rfl (fun _ hnone => by cases hnone)
          (fun _ _ _ _ hnone => by cases hnone) (fun _ hnone => by cases hnone)
      · cases hstep
        refine h.advance hkept rfl ?_ ?_ (fun _ hnone => by cases hnone)
        · intro id hsome
          cases hsome
          exact hid
        · intro id other n rest hnext
          cases hnext
          exact Nat.zero_le _
  | enqueueing activityId activity n rest =>
      have hid := h.recorded k activityId (by rw [hphase]; rfl)
      cases rest with
      | nil =>
          simp only [hphase] at hstep
          cases hstep
          refine h.advance hkept rfl (fun _ hnone => by cases hnone)
            (fun _ _ _ _ hnone => by cases hnone) ?_
          intro delivery hdelivery
          cases hdelivery
          exact h.fanning k activityId activity n [] hphase
      | cons inbox rest =>
          simp only [hphase, Store.enqueueDelivery] at hstep
          cases hfault : ((posts k).enqueue n).fault with
          | some e =>
              rw [Turn.execute_of_fault hfault] at hstep
              cases hstep
              exact h.advance hkept rfl (fun _ hnone => by cases hnone)
                (fun _ _ _ _ hnone => by cases hnone) (fun _ hnone => by cases hnone)
          | none =>
              rw [Turn.execute_of_no_fault hfault] at hstep
              cases hstep
              exact h.enqueue hphase rfl rfl

omit [DecidableEq κ] in
theorem RelationChange.execute_of_turn (turn : Turn) (s : Store) (change : RelationChange) :
    (change.execute turn s).outbox = s.outbox ∧
      (change.execute turn s).deliveryQueue = s.deliveryQueue := by
  have hturn : ∀ {α : Type} (statement : Store → α × Store), (statement s).2.outbox = s.outbox →
      (statement s).2.deliveryQueue = s.deliveryQueue →
      (turn.execute statement s).2.outbox = s.outbox ∧
        (turn.execute statement s).2.deliveryQueue = s.deliveryQueue := by
    intro α statement houtbox hqueue
    cases hfault : turn.fault with
    | none =>
        rw [Turn.execute_of_no_fault hfault]
        exact ⟨houtbox, hqueue⟩
    | some e =>
        rw [Turn.execute_of_fault hfault]
        exact ⟨rfl, rfl⟩
  cases change with
  | request actorId targetId => exact hturn _ rfl rfl
  | record actorId activity =>
      rw [execute, Store.recordInbox]
      split_ifs
      · exact ⟨rfl, rfl⟩
      · refine hturn _ ?_ ?_
        · split_ifs <;> rfl
        · split_ifs <;> rfl
  | carryOut localActorId effect =>
      cases effect with
      | nothing => exact ⟨rfl, rfl⟩
      | follow f inbox => exact hturn _ rfl rfl
      | unfollow f =>
          rw [execute, InboxEffect.execute, Store.removeFollower, Prod.map_snd, id_eq]
          exact hturn _ rfl rfl
      | acknowledge g =>
          rw [execute, InboxEffect.execute, Store.acceptFollowing, Prod.map_snd, id_eq]
          exact hturn _ rfl rfl

theorem FederationInv.step [DecidableEq ι] {lib : SigLibrary} {config : DeliveryConfig}
    {posts : κ → Submission} {move : Move ι κ}
    (h : FederationInv serde calls u) (hserde : ∀ v, (serde.fromStr (serde.toString v)).isSome)
    (hstep : federationStep lib serde config calls posts u move = some v) :
    FederationInv serde calls v := by
  cases move with
  | drain i =>
      obtain ⟨w, hw, rfl⟩ := Option.map_eq_some_iff.mp hstep
      exact h.drain hw
  | post k => exact h.post hserde hstep
  | relate turn change =>
      cases hstep
      obtain ⟨houtbox, hqueue⟩ := change.execute_of_turn turn u.store
      exact {
        h with
        loads := fun d hd => (h.loads d hd).of_outbox houtbox
        recorded := fun k id hid => (h.recorded k id hid).of_outbox houtbox
        rows := fun queueId row hrow => h.rows queueId row (hqueue ▸ hrow)
        numbered := fun d hd => hqueue ▸ h.numbered d hd
        accounted := fun d hd => hqueue ▸ h.accounted d hd }

end Runs

/-! ## A follow that is refused once -/

theorem consistent_empty (serde : SerdeJson) : Store.empty.Consistent serde where
  loads _ _ h := by cases h
  fresh _ _ h := by cases h

/-- A follow of an actor whose inbox is known. -/
def outgoingFollow : Submission where
  actorId := ['m']
  body := Json.ofMembers [("type", .string "Follow"), ("id", .string ['1']),
    ("actor", .string ['m']), ("targetInbox", .string "inbox")]
  activityUuid := []
  noteUuid := []
  stampUuid := []
  rowUuid := []
  now := []
  record := ⟨0, none⟩
  fanOut := ⟨0, none⟩
  enqueue _ := ⟨0, none⟩

/-- The first call meets an error of the remote server, the second one is at work still. -/
def twoCalls : Bool → Drain
  | true => plainDrain
  | false => { plainDrain with answer := .ok 503 }

end ActivityPub

end SolidPod
