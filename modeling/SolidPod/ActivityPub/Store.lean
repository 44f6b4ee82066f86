import SolidPod.Foundation.Tables
import SolidPod.Ldp.JsonPatch

/-!
# The federation store

The SQLite tables of followers, followed actors, received and sent activities
and queued deliveries, as the lists of their rows in the order of insertion. A
statement runs as a whole or fails and leaves the tables as they were; which of
them fail, and what the clock shows, is up to the `Turn` of the statement.
Times are nanoseconds. A received activity stands for its text, which is not
read again; a sent one is kept as the text it is.
-/

namespace SolidPod

open Foundation

open Ldp (getKey asStr)

namespace ActivityPub

/-- A database error, by its text. -/
abbrev SqlxError := Str

structure FollowerRow where
  actorId : Str
  followerId : Str
  inbox : Option Str
  acceptedAt : Nat
  deriving DecidableEq

structure FollowingRow where
  actorId : Str
  targetId : Str
  requestedAt : Nat
  accepted : Bool
  deriving DecidableEq

structure InboxRow where
  id : Str
  actorId : Str
  activity : Json
  receivedAt : Nat

structure OutboxRow where
  id : Str
  actorId : Str
  activity : Str
  createdAt : Nat
  deliveryState : Str
  deriving DecidableEq

structure QueueRow where
  activityId : Str
  inboxUrl : Str
  attempts : Nat
  nextRetry : Nat
  lastError : Option Str
  deriving DecidableEq

structure DeliveryItem where
  queueId : Nat
  activityId : Str
  inboxUrl : Str
  attempts : Nat
  lastError : Option Str

structure Store where
  followers : List FollowerRow
  following : List FollowingRow
  inbox : List InboxRow
  outbox : List OutboxRow
  deliveryQueue : SerialTable QueueRow

/-- A database without rows. -/
def Store.empty : Store := ⟨[], [], [], [], .empty⟩

/-- How the JSON library writes and reads the text of a value. -/
structure SerdeJson where
  toString : Json → Str
  fromStr : Str → Option Json
  toVec : Json → Except Str Bytes

/-- What a statement meets: the time, and an error if it is to fail. -/
structure Turn where
  now : Nat
  fault : Option SqlxError

/-- Run a statement. -/
def Turn.execute {α : Type} (turn : Turn) (statement : Store → α × Store) (s : Store) :
    Except SqlxError α × Store :=
  match turn.fault with
  | some e => (.error e, s)
  | none => (.ok (statement s).1, (statement s).2)

theorem Turn.execute_of_fault {α : Type} {turn : Turn} {e : SqlxError} (h : turn.fault = some e)
    (statement : Store → α × Store) (s : Store) : turn.execute statement s = (.error e, s) := by
  rw [execute, h]

theorem Turn.execute_of_no_fault {α : Type} {turn : Turn} (h : turn.fault = none)
    (statement : Store → α × Store) (s : Store) :
    turn.execute statement s = (.ok (statement s).1, (statement s).2) := by
  rw [execute, h]

namespace Store

/-! ## Followers -/

def addFollower (turn : Turn) (actorId followerId : Str) (inbox : Option Str) (s : Store) :
    Except SqlxError Unit × Store :=
  turn.execute (fun s => ((), { s with
    followers := s.followers.filter
        (fun r => ¬ (r.actorId = actorId ∧ r.followerId = followerId)) ++
      [⟨actorId, followerId, inbox, turn.now⟩] })) s

def removeFollower (turn : Turn) (actorId followerId : Str) (s : Store) :
    Except SqlxError Nat × Store :=
  turn.execute (fun s =>
    (s.followers.countP fun r => r.actorId = actorId ∧ r.followerId = followerId,
      { s with
        followers := s.followers.filter fun r =>
          ¬ (r.actorId = actorId ∧ r.followerId = followerId) })) s

/-! ## Followed actors -/

def addFollowing (turn : Turn) (actorId targetId : Str) (s : Store) :
    Except SqlxError Unit × Store :=
  turn.execute (fun s => ((), { s with
    following := s.following.filter (fun r => ¬ (r.actorId = actorId ∧ r.targetId = targetId)) ++
      [⟨actorId, targetId, turn.now, false⟩] })) s

def acceptFollowing (turn : Turn) (actorId targetId : Str) (s : Store) :
    Except SqlxError Nat × Store :=
  turn.execute (fun s =>
    (s.following.countP fun r => r.actorId = actorId ∧ r.targetId = targetId,
      { s with
        following := s.following.map fun r =>
          if r.actorId = actorId ∧ r.targetId = targetId then { r with accepted := true }
          else r })) s

/-! ## Received activities -/

/-- The id of an activity, empty if there is none. -/
def activityId (activity : Json) : Str := ((getKey activity "id").bind asStr).getD []

/-- Whether a row was added for the activity. -/
def recordInbox (turn : Turn) (actorId : Str) (activity : Json) (s : Store) :
    Except SqlxError Bool × Store :=
  if (activityId activity).isEmpty then (.ok false, s)
  else turn.execute (fun s =>
    if s.inbox.any fun r => r.id = activityId activity then (false, s)
    else (true, { s with
      inbox := s.inbox ++ [⟨activityId activity, actorId, activity, turn.now⟩] })) s

/-- The activity has an id, and no activity with it was received. -/
def IsNew (s : Store) (activity : Json) : Prop :=
  activityId activity ≠ [] ∧ ∀ r ∈ s.inbox, r.id ≠ activityId activity

/-- What the record of an activity can come to. -/
inductive Recorded (turn : Turn) (actorId : Str) (activity : Json) (s : Store) :
    Except SqlxError Bool × Store → Prop
  | added (hnew : s.IsNew activity) (hfault : turn.fault = none) :
      Recorded turn actorId activity s (.ok true, { s with
        inbox := s.inbox ++ [⟨activityId activity, actorId, activity, turn.now⟩] })
  | refused (hnew : ¬ s.IsNew activity) (hfault : activityId activity = [] ∨ turn.fault = none) :
      Recorded turn actorId activity s (.ok false, s)
  | failed {e : SqlxError} (hid : activityId activity ≠ []) (hfault : turn.fault = some e) :
      Recorded turn actorId activity s (.error e, s)

theorem recorded_recordInbox (turn : Turn) (actorId : Str) (activity : Json) (s : Store) :
    Recorded turn actorId activity s (s.recordInbox turn actorId activity) := by
  rw [recordInbox]
  by_cases hid : activityId activity = []
  · rw [if_pos (List.isEmpty_iff.mpr hid)]
    exact .refused (fun h => h.1 hid) (Or.inl hid)
  · rw [if_neg (mt List.isEmpty_iff.mp hid)]
    cases hfault : turn.fault with
    | some e =>
        rw [Turn.execute_of_fault hfault]
        exact .failed hid hfault
    | none =>
        rw [Turn.execute_of_no_fault hfault]
        by_cases hany : s.inbox.any (fun r => r.id = activityId activity) = true
        · rw [if_pos hany]
          refine .refused ?_ (Or.inr hfault)
          rintro ⟨-, hnone⟩
          obtain ⟨r, hr, heq⟩ := List.any_eq_true.mp hany
          exact hnone r hr (of_decide_eq_true heq)
        · rw [if_neg hany]
          refine .added ⟨hid, ?_⟩ hfault
          intro r hr heq
          exact hany (List.any_eq_true.mpr ⟨r, hr, decide_eq_true heq⟩)

/-! ## Sent activities -/

/-- The id is the one of the activity, or a fresh one. -/
def recordOutbox (serde : SerdeJson) (turn : Turn) (uuid actorId : Str) (activity : Json)
    (s : Store) : Except SqlxError Str × Store :=
  let id := ((getKey activity "id").bind asStr).getD ("urn:uuid:" ++ uuid)
  turn.execute (fun s => (id, { s with
    outbox := s.outbox.filter (fun r => r.id ≠ id) ++
      [⟨id, actorId, serde.toString activity, turn.now, "pending"⟩] })) s

def markOutboxState (turn : Turn) (id state : Str) (s : Store) : Except SqlxError Nat × Store :=
  turn.execute (fun s => (s.outbox.countP fun r => r.id = id, { s with
    outbox := s.outbox.map fun r => if r.id = id then { r with deliveryState := state } else r })) s

def loadActivity (serde : SerdeJson) (turn : Turn) (id : Str) (s : Store) :
    Except SqlxError (Option Json) × Store :=
  turn.execute (fun s =>
    ((s.outbox.find? fun r => r.id = id).bind fun r => serde.fromStr r.activity, s)) s

/-! ## Queued deliveries -/

def enqueueDelivery (turn : Turn) (activityId inboxUrl : Str) (s : Store) :
    Except SqlxError Nat × Store :=
  turn.execute (fun s => (s.deliveryQueue.last + 1, { s with
    deliveryQueue := s.deliveryQueue.push ⟨activityId, inboxUrl, 0, turn.now, none⟩ })) s

/-- The first row whose time has come. -/
def nextDueDelivery (turn : Turn) (s : Store) : Except SqlxError (Option DeliveryItem) × Store :=
  turn.execute (fun s => ((s.deliveryQueue.first fun r => r.nextRetry ≤ turn.now).map fun r =>
    ⟨r.1, r.2.activityId, r.2.inboxUrl, r.2.attempts, r.2.lastError⟩, s)) s

def dropDelivery (turn : Turn) (queueId : Nat) (s : Store) : Except SqlxError Nat × Store :=
  turn.execute (fun s => ((s.deliveryQueue.get? queueId).toList.length, { s with
    deliveryQueue := s.deliveryQueue.remove queueId })) s

def rescheduleDelivery (turn : Turn) (queueId : Nat) (delaySecs : Int) (error : Str) (s : Store) :
    Except SqlxError Nat × Store :=
  turn.execute (fun s => ((s.deliveryQueue.get? queueId).toList.length, { s with
    deliveryQueue := s.deliveryQueue.modify queueId fun r => { r with
      attempts := r.attempts + 1
      nextRetry := turn.now + delaySecs.toNat * 1000000000
      lastError := some error } })) s

/-! ## The relations by pair -/

def followerRows (s : Store) (actorId followerId : Str) : List FollowerRow :=
  s.followers.filter fun r => r.actorId = actorId ∧ r.followerId = followerId

def followingRows (s : Store) (actorId targetId : Str) : List FollowingRow :=
  s.following.filter fun r => r.actorId = actorId ∧ r.targetId = targetId

end Store

end ActivityPub

end SolidPod
