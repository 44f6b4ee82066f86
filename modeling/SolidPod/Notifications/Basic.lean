import Mathlib.Data.List.Nodup
import SolidPod.Foundation.Lockstep
import SolidPod.Foundation.Search

/-!
# Notifications of changes

A change in the storage goes to the subscriptions it concerns in one of three
ways: the webhook manager delivers it to the targets of the topics that match,
the legacy channel tells whether a subscription of a connection matches, and the
legacy session answers with a frame when one of its subscriptions is the resource
or a container above it.
-/

namespace SolidPod

open Foundation

namespace Notifications

open Str

/-! ## Changes -/

inductive StorageEvent where
  | created (path : Str)
  | updated (path : Str)
  | deleted (path : Str)
  deriving DecidableEq

def StorageEvent.path : StorageEvent → Str
  | .created path | .updated path | .deleted path => path

def StorageEvent.kind : StorageEvent → Str
  | .created _ => "Create"
  | .updated _ => "Update"
  | .deleted _ => "Delete"

inductive ChannelType where
  | webSocketChannel2023
  | webhookChannel2023

structure Subscription where
  id : Str
  topic : Str
  channelType : ChannelType
  receiveFrom : Str

structure ChangeNotification where
  context : Str
  id : Str
  kind : Str
  object : Str
  published : Str

/-- What is drawn anew for a notification: an identifier, and the time. -/
structure Stamp where
  uuid : Str
  now : Str

def fromStorageEvent (event : StorageEvent) (podBase : Str) (stamp : Stamp) :
    ChangeNotification where
  context := "https://www.w3.org/ns/activitystreams"
  id := "urn:uuid:" ++ stamp.uuid
  kind := event.kind
  object := trimEndMatches '/' podBase ++ event.path
  published := stamp.now

/-! ## The webhook manager -/

inductive WebhookDelivery where
  | delivered (status : Nat)
  | fatalDrop (status : Nat)
  | transientRetry (reason : Str)

def WebhookDelivery.isFatalDrop : WebhookDelivery → Bool
  | .fatalDrop _ => true
  | .delivered _ | .transientRetry _ => false

/-- The subscriptions, each under its own identifier, and whatever the deliveries
to their targets read and write. -/
structure WebhookChannelManager (S : Type*) where
  subscriptions : List Subscription
  nodup : (subscriptions.map Subscription.id).Nodup
  channel : S

section Webhooks

variable {S : Type*}

def WebhookChannelManager.unsubscribe (m : WebhookChannelManager S) (id : Str) :
    WebhookChannelManager S where
  subscriptions := m.subscriptions.filter fun s => s.id ≠ id
  nodup := m.nodup.sublist (List.filter_sublist.map _)
  channel := m.channel

def WebhookChannelManager.subscribe (m : WebhookChannelManager S) (sub : Subscription) :
    WebhookChannelManager S where
  subscriptions := (m.unsubscribe sub.id).subscriptions ++ [sub]
  nodup := by
    rw [List.map_append, List.nodup_append]
    refine ⟨(m.unsubscribe sub.id).nodup, List.nodup_singleton _, ?_⟩
    intro a ha b hb
    obtain ⟨s, hs, rfl⟩ := List.mem_map.mp ha
    rw [List.map_singleton, List.mem_singleton] at hb
    subst hb
    exact of_decide_eq_true (List.mem_filter.mp hs).2
  channel := m.channel

variable (deliverOne : Str → ChangeNotification → S → WebhookDelivery × S)

def deliverEach (note : ChangeNotification) :
    List Subscription → S → List (Str × WebhookDelivery) × S
  | [], s => ([], s)
  | sub :: subs, s =>
    let (result, s) := deliverOne sub.receiveFrom note s
    let (out, s) := deliverEach note subs s
    ((sub.id, result) :: out, s)

/-- The notification goes to every subscription whose topic matches, and those
whose receiver is gone are removed. -/
def deliverAll (note : ChangeNotification) (topicMatches : Str → Bool)
    (m : WebhookChannelManager S) : List (Str × WebhookDelivery) × WebhookChannelManager S :=
  let subs := m.subscriptions.filter fun s => topicMatches s.topic
  let (out, channel) := deliverEach deliverOne note subs m.channel
  let dropped := (out.filter fun r => r.2.isFatalDrop).map Prod.fst
  (out, dropped.foldl .unsubscribe { m with channel := channel })

/-- One event of the storage. -/
def pumpEvent (podBase : Str) (m : WebhookChannelManager S) (event : StorageEvent × Stamp) :
    List (Str × WebhookDelivery) × WebhookChannelManager S :=
  deliverAll deliverOne (fromStorageEvent event.1 podBase event.2)
    (fun topic => startsWith topic event.1.path) m

/-- The deliveries of each event, until the storage has no more. -/
def pumpFromStorage (podBase : Str) (m : WebhookChannelManager S)
    (events : List (StorageEvent × Stamp)) : List (List (Str × WebhookDelivery)) :=
  Lockstep.run (pumpEvent deliverOne podBase) m events

def publish (topic : Str) (notification : ChangeNotification) (m : WebhookChannelManager S) :
    List (Str × WebhookDelivery) × WebhookChannelManager S :=
  deliverAll deliverOne notification (fun t => startsWith t topic || t == topic) m

end Webhooks

/-! ## The legacy channel -/

/-- Whether any subscription covers the resource. -/
def matchesSubscription (subscriptions : List Str) (resourceUri : Str) : Bool :=
  subscriptions.any fun sub =>
    sub == resourceUri || (endsWith "/" sub && startsWith sub resourceUri)

/-! ## The legacy session -/

/-- Where the path of a URI begins. -/
def findOriginEnd (uri : Str) : Nat :=
  match find "://" uri with
  | some schemeEnd =>
    let authorityStart := schemeEnd + 3
    match find "/" (uri.drop authorityStart) with
    | some pathSlashRel => authorityStart + pathSlashRel
    | none => uri.length
  | none => 0

def ancestorsFrom (originEnd : Nat) (cursor : Str) : List Str :=
  match h : rfind '/' (cursor.drop originEnd) with
  | none => []
  | some lastSlashRel =>
    let lastSlashAbs := originEnd + lastSlashRel
    let parent := cursor.take (lastSlashAbs + 1)
    if parent.length ≤ originEnd + 1 then [parent]
    else parent :: ancestorsFrom originEnd (cursor.take lastSlashAbs)
termination_by cursor.length
decreasing_by
  obtain ⟨p, r, hsplit, hp, -⟩ := rfind_eq_some h
  have hlength := congrArg List.length hsplit
  rw [List.length_drop, List.length_append, List.length_cons, hp] at hlength
  rw [List.length_take]
  omega

def ancestorContainers (uri : Str) : List Str :=
  let trimmed := trimEndMatches '/' uri
  if trimmed = [] then [] else ancestorsFrom (findOriginEnd trimmed) trimmed

inductive LegacyFrame where
  | ack (uri : Str)
  | err (msg : Str)
  | pub (uri : Str)

structure LegacyWebSocketSession where
  subs : List Str
  subscriberWebid : Option Str

/-- The frames of a change; `canRead` is asked again for each one. -/
def LegacyWebSocketSession.onResourceChange (canRead : Option Str → Str → Bool)
    (session : LegacyWebSocketSession) (changedUri : Str) : List LegacyFrame :=
  let itself := if session.subs.contains changedUri then [changedUri] else []
  let candidates := itself ++ (ancestorContainers changedUri).filter session.subs.contains
  if candidates.isEmpty then []
  else if canRead session.subscriberWebid changedUri then [.pub changedUri]
  else [.err (changedUri ++ " forbidden")]

end Notifications

end SolidPod
