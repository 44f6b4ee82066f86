import Mathlib.Data.List.Dedup
import SolidPod.ActivityPub.Delivery
import SolidPod.ActivityPub.Inbox

/-!
# The outbox handler

A local actor posts an activity, or a note that an activity is made of. The
activity is given an id and an actor where it names none, it is recorded, and a
delivery is queued for each inbox that it goes to. Each of these is a statement
of its own.
-/

namespace SolidPod

open Foundation

open Ldp (getKey asStr)

namespace ActivityPub

/-- The errors of `OutboxError` that a submission can end in. -/
inductive SubmissionError where
  | invalidActivity (msg : Str)
  | storage (e : SqlxError)

structure OutboundDelivery where
  activityId : Str
  queuedInboxes : ℕ
  activity : Json

/-- A post to the outbox of an actor, with the identifiers and the date that it is given
and the turns of its statements. -/
structure Submission where
  actorId : Str
  body : Json
  activityUuid : Str
  noteUuid : Str
  stampUuid : Str
  rowUuid : Str
  now : Str
  record : Turn
  fanOut : Turn
  enqueue : ℕ → Turn

/-- The types of a body that is an activity already. -/
def activityTypes : List Str := ["Create", "Follow", "Update", "Delete", "Announce", "Like",
  "Undo", "Accept", "Reject", "Add", "Remove", "Block"]

/-- `value[key] = v`. The library makes an object of a null; what is neither is not assigned
to in this module. -/
def setKey (key : Str) (v : Json) : Json → Json
  | .object m => .object (Json.insertMember key v m)
  | .null => .object [(key, v)]
  | j => j

/-- The text under a key is empty or not there. -/
def lacksText (v : Json) (key : Str) : Bool := ((textOf v key).getD []).isEmpty

/-- `SELECT DISTINCT`: each inbox of the followers of an actor once. -/
def distinctInboxes (actorId : Str) (rows : List FollowerRow) : List Str :=
  ((rows.filter fun r => r.actorId = actorId).filterMap FollowerRow.inbox).dedup

def Store.followerInboxes (turn : Turn) (actorId : Str) (s : Store) :
    Except SqlxError (List Str) × Store :=
  turn.execute (fun s => (distinctInboxes actorId s.followers, s)) s

namespace Submission

variable (c : Submission)

def base : Str := trimEndMatchesStr "#me" c.actorId

def wrapNoteInCreate (note : Json) : Json :=
  let note := if lacksText note "id" then
    setKey "id" (.string (c.base ++ "/posts/" ++ c.noteUuid)) note else note
  let note := if (getKey note "attributedTo").isNone then
    setKey "attributedTo" (.string c.actorId) note else note
  let note := if (getKey note "published").isNone then
    setKey "published" (.string c.now) note else note
  Json.ofMembers [("@context", .string "https://www.w3.org/ns/activitystreams"),
    ("type", .string "Create"), ("id", .string (c.base ++ "/activities/" ++ c.activityUuid)),
    ("actor", .string c.actorId), ("published", .string c.now), ("object", note)]

/-- The activity that a body is or is wrapped in. -/
def toActivity : Except SubmissionError Json :=
  let activityType := (textOf c.body "type").getD []
  if activityType ∈ activityTypes then .ok c.body
  else if activityType = "Note" then .ok (c.wrapNoteInCreate c.body)
  else if activityType = [] ∧ (getKey c.body "content").isSome then
    .ok (c.wrapNoteInCreate (setKey "type" (.string "Note") c.body))
  else .error (.invalidActivity ("unsupported activity type for outbox POST: " ++ activityType))

def stampId (activity : Json) : Json :=
  if lacksText activity "id" then
    setKey "id" (.string (c.base ++ "/activities/" ++ c.stampUuid)) activity
  else activity

def stampActor (activity : Json) : Json :=
  if (textOf activity "actor").isNone then setKey "actor" (.string c.actorId) activity
  else activity

/-- The inboxes that an activity goes to. -/
def targetInboxes (activityType : Str) (activity : Json) (s : Store) :
    Except SqlxError (List Str) × Store :=
  if activityType = "Follow" then (.ok (textOf activity "targetInbox").toList, s)
  else s.followerInboxes c.fanOut c.actorId

end Submission

/-- Finding the inboxes leaves the store alone. -/
theorem targetInboxes_snd (c : Submission) (activityType : Str) (activity : Json) (s : Store) :
    (c.targetInboxes activityType activity s).2 = s := by
  rw [Submission.targetInboxes]
  split_ifs
  · rfl
  · rw [Store.followerInboxes]
    cases hfault : c.fanOut.fault with
    | none => rw [Turn.execute_of_no_fault hfault]
    | some e => rw [Turn.execute_of_fault hfault]

/-- A delivery is queued for one inbox after the other. -/
def enqueueAll (turns : ℕ → Turn) (activityId : Str) : ℕ → List Str → Store →
    Except SqlxError Unit × Store
  | _, [], s => (.ok (), s)
  | i, inbox :: rest, s =>
    match s.enqueueDelivery (turns i) activityId inbox with
    | (.error e, s) => (.error e, s)
    | (.ok _, s) => enqueueAll turns activityId (i + 1) rest s

def handleOutbox (serde : SerdeJson) (c : Submission) (activity : Json) (s : Store) :
    Except SubmissionError OutboundDelivery × Store :=
  match textOf activity "type" with
  | none => (.error (.invalidActivity "missing type"), s)
  | some activityType =>
    let activity := c.stampActor (c.stampId activity)
    match s.recordOutbox serde c.record c.rowUuid c.actorId activity with
    | (.error e, s) => (.error (.storage e), s)
    | (.ok activityId, s) =>
      match c.targetInboxes activityType activity s with
      | (.error e, s) => (.error (.storage e), s)
      | (.ok inboxes, s) =>
        match enqueueAll c.enqueue activityId 0 inboxes s with
        | (.error e, s) => (.error (.storage e), s)
        | (.ok (), s) => (.ok ⟨activityId, inboxes.length, activity⟩, s)

def handleOutboxPost (serde : SerdeJson) (s : Store) (c : Submission) :
    Except SubmissionError OutboundDelivery × Store :=
  match c.toActivity with
  | .error e => (.error e, s)
  | .ok activity => handleOutbox serde c activity s

section Members

variable {c : Submission} {key other : Str} {v activity : Json}

/-- The value is an object. -/
def IsObject (v : Json) : Prop := ∃ m, v = .object m

theorem isObject_of_textOf {t : Str} (h : textOf v key = some t) : IsObject v := by
  cases v with
  | object m => exact ⟨m, rfl⟩
  | _ => cases h

theorem isObject_setKey (h : IsObject activity) : IsObject (setKey key v activity) := by
  obtain ⟨m, rfl⟩ := h
  exact ⟨_, rfl⟩

theorem textOf_setKey (h : IsObject activity) {t : Str} : textOf (setKey key (.string t) activity)
    other = if other = key then some t else textOf activity other := by
  obtain ⟨m, rfl⟩ := h
  rw [textOf, setKey, getKey, Json.member_insertMember]
  by_cases hkey : other = key
  · rw [if_pos hkey, if_pos hkey]
    rfl
  · rw [if_neg hkey, if_neg hkey]
    rfl

theorem textOf_stampId (h : IsObject activity) (hkey : key ≠ "id") :
    textOf (c.stampId activity) key = textOf activity key := by
  rw [Submission.stampId]
  split
  · rw [textOf_setKey h, if_neg hkey]
  · rfl

theorem isObject_stampId (h : IsObject activity) : IsObject (c.stampId activity) := by
  rw [Submission.stampId]
  split
  · exact isObject_setKey h
  · exact h

theorem textOf_stampActor (h : IsObject activity) (hkey : key ≠ "actor") :
    textOf (c.stampActor activity) key = textOf activity key := by
  rw [Submission.stampActor]
  split
  · rw [textOf_setKey h, if_neg hkey]
  · rfl

end Members

end ActivityPub

end SolidPod
