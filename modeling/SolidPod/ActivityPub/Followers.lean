import Mathlib.Data.Set.Card
import SolidPod.ActivityPub.InboxRuns
import SolidPod.ActivityPub.OutboxIntegrity
import SolidPod.ActivityPub.SignatureRoundTrip
import SolidPod.Foundation.Register

/-!
# Followers and followed actors

Who follows whom is told by the answers that the store has given: a `Follow` that
was accepted and an `Undo` that was carried out, a request to follow and its
`Accept`. The queries on the store say what these answers tell, after any calls
of the inbox, the outbox and the delivery worker. So a post goes to those who
follow by then, and to nobody else.
-/

namespace SolidPod

open Foundation Register

open Ldp (getKey asStr)

namespace ActivityPub

/-! ## Queries -/

namespace Store

/-- `SELECT 1`. -/
def isFollower (turn : Turn) (actorId followerId : Str) (s : Store) :
    Except SqlxError Bool × Store :=
  turn.execute (fun s =>
    (s.followers.any fun r => r.actorId = actorId ∧ r.followerId = followerId, s)) s

def followerCount (turn : Turn) (actorId : Str) (s : Store) : Except SqlxError ℕ × Store :=
  turn.execute (fun s => (s.followers.countP fun r => r.actorId = actorId, s)) s

/-- The request is there, and it was accepted. -/
def isFollowing (turn : Turn) (actorId targetId : Str) (s : Store) :
    Except SqlxError Bool × Store :=
  turn.execute (fun s =>
    ((s.following.find? fun r => r.actorId = actorId ∧ r.targetId = targetId).any
      FollowingRow.accepted, s)) s

/-- What the row of a pair says. -/
def followerOf (s : Store) (pair : Str × Str) : Option (Option Str) :=
  (s.followerRows pair.1 pair.2).head?.map FollowerRow.inbox

def followingOf (s : Store) (pair : Str × Str) : Option Bool :=
  (s.followingRows pair.1 pair.2).head?.map FollowingRow.accepted

/-- The primary key: each pair has one row at most. -/
structure Keyed (s : Store) : Prop where
  followers : ∀ a f, (s.followerRows a f).length ≤ 1
  following : ∀ a g, (s.followingRows a g).length ≤ 1

def relations (s : Store) : List FollowerRow × List FollowingRow := (s.followers, s.following)

end Store

/-! ## Calls -/

inductive StoreCall where
  | handleInbox (c : InboxCall)
  | addFollowing (turn : Turn) (actorId targetId : Str)
  | handleOutboxPost (c : Submission)
  | drainOnce (d : Drain)

inductive StoreAnswer where
  | inbox (r : Except InboxError InboxOutcome)
  | request (r : Except SqlxError Unit)
  | outbox (r : Except SubmissionError OutboundDelivery)
  | delivery (r : Except OutboxError DeliveryOutcome)

def perform (lib : SigLibrary) (serde : SerdeJson) (config : DeliveryConfig) (s : Store) :
    StoreCall → StoreAnswer × Store
  | .handleInbox c => Prod.map .inbox id (receive s c)
  | .addFollowing turn actorId targetId =>
    Prod.map .request id (s.addFollowing turn actorId targetId)
  | .handleOutboxPost c => Prod.map .outbox id (handleOutboxPost serde s c)
  | .drainOnce d => Prod.map .delivery id (drainOnce lib serde config s d)

/-- Who has become a follower or is none any more, and the inbox that was given. -/
def followersTold (_ : Str × Str → Option (Option Str)) :
    StoreCall → StoreAnswer → List (Write (Str × Str) (Option Str))
  | .handleInbox c, .inbox (.ok (.followAccepted f inbox _)) => [((c.localActorId, f), some inbox)]
  | .handleInbox c, .inbox (.ok (.followRemoved f)) => [((c.localActorId, f), none)]
  | _, _ => []

/-- A request is open until it is acknowledged, and again when it is repeated. What was not
requested is not acknowledged. -/
def followingTold (table : Str × Str → Option Bool) :
    StoreCall → StoreAnswer → List (Write (Str × Str) Bool)
  | .handleInbox c, .inbox (.ok (.followAcknowledged g)) =>
    [((c.localActorId, g), (table (c.localActorId, g)).map fun _ => true)]
  | .addFollowing _ a g, .request (.ok ()) => [((a, g), some false)]
  | _, _ => []

/-! ## One call -/

def InboxOutcome.effect : InboxOutcome → InboxEffect
  | .followAccepted f inbox _ => .follow f inbox
  | .followRemoved f => .unfollow f
  | .followAcknowledged g => .acknowledge g
  | .accepted | .duplicate | .ignored => .nothing

/-- What an answer of the inbox tells of. -/
def answeredEffect : Except InboxError InboxOutcome → InboxEffect
  | .ok outcome => outcome.effect
  | .error _ => .nothing

/-- The answer of the inbox tells of all that the call does to the relations. -/
theorem relations_handleInbox (turns : Turn × Turn) (uuid me : Str) (v : VerifiedActor)
    (activity : Json) (s : Store) :
    let done := handleInbox turns uuid me v activity s
    done.2.followers = (answeredEffect done.1).followers turns.2.now me s.followers ∧
      done.2.following = (answeredEffect done.1).following me s.following := by
  simp only
  cases htype : textOf activity "type" with
  | none =>
      rw [handleInbox, htype]
      exact ⟨rfl, rfl⟩
  | some activityType =>
      have hrecorded := Store.recorded_recordInbox turns.1 me activity s
      rw [handleInbox, htype]
      generalize s.recordInbox turns.1 me activity = result at hrecorded
      cases hrecorded with
      | refused | failed => exact ⟨rfl, rfl⟩
      | added =>
          simp only
          split_ifs
          · rw [Store.addFollower]
            cases hfault : turns.2.fault with
            | none =>
                rw [Turn.execute_of_no_fault hfault]
                exact ⟨rfl, rfl⟩
            | some e =>
                rw [Turn.execute_of_fault hfault]
                exact ⟨rfl, rfl⟩
          · rw [Store.removeFollower]
            cases hfault : turns.2.fault with
            | none =>
                rw [Turn.execute_of_no_fault hfault]
                exact ⟨rfl, rfl⟩
            | some e =>
                rw [Turn.execute_of_fault hfault]
                exact ⟨rfl, rfl⟩
          · exact ⟨rfl, rfl⟩
          · rw [Store.acceptFollowing]
            cases hfault : turns.2.fault with
            | none =>
                rw [Turn.execute_of_no_fault hfault]
                exact ⟨rfl, rfl⟩
            | some e =>
                rw [Turn.execute_of_fault hfault]
                exact ⟨rfl, rfl⟩
          · exact ⟨rfl, rfl⟩
          · exact ⟨rfl, rfl⟩
          · exact ⟨rfl, rfl⟩

section Apart

variable {lib : SigLibrary} {serde : SerdeJson} {config : DeliveryConfig} {s : Store}

theorem relations_of_keeps {α : Type} {turn : Turn} {statement : Store → α × Store}
    (h : ∀ s, (statement s).2.relations = s.relations) (s : Store) :
    (turn.execute statement s).2.relations = s.relations := by
  cases hfault : turn.fault with
  | none =>
      rw [Turn.execute_of_no_fault hfault]
      exact h s
  | some e => rw [Turn.execute_of_fault hfault]

theorem relations_enqueueAll (turns : ℕ → Turn) (id : Str) (i : ℕ) (inboxes : List Str)
    (s : Store) : (enqueueAll turns id i inboxes s).2.relations = s.relations := by
  induction inboxes generalizing i s with
  | nil => rfl
  | cons inbox rest ih =>
      have hfirst : (s.enqueueDelivery (turns i) id inbox).2.relations = s.relations :=
        relations_of_keeps (fun _ => rfl) s
      rw [enqueueAll]
      generalize s.enqueueDelivery (turns i) id inbox = result at hfirst
      rcases result with ⟨e | n, t⟩
      · exact hfirst
      · exact (ih (i + 1) t).trans hfirst

theorem relations_handleOutboxPost (c : Submission) :
    (handleOutboxPost serde s c).2.relations = s.relations := by
  rw [handleOutboxPost]
  cases c.toActivity with
  | error e => rfl
  | ok activity =>
      simp only [handleOutbox]
      cases textOf activity "type" with
      | none => rfl
      | some activityType =>
          have hrecord : (s.recordOutbox serde c.record c.rowUuid c.actorId
              (c.stampActor (c.stampId activity))).2.relations = s.relations :=
            relations_of_keeps (fun _ => rfl) s
          simp only
          generalize s.recordOutbox serde c.record c.rowUuid c.actorId _ = recorded at hrecord ⊢
          rcases recorded with ⟨e | id, t⟩
          · exact hrecord
          · have htarget := targetInboxes_snd c activityType
              (c.stampActor (c.stampId activity)) t
            simp only
            generalize c.targetInboxes activityType _ t = target at htarget ⊢
            rcases target with ⟨e | inboxes, u⟩
            · exact (congrArg Store.relations htarget).trans hrecord
            · have henqueue := relations_enqueueAll c.enqueue id 0 inboxes u
              simp only at htarget ⊢
              generalize enqueueAll c.enqueue id 0 inboxes u = enqueued at henqueue ⊢
              rw [htarget] at henqueue
              rcases enqueued with ⟨e | _, w⟩
              · exact henqueue.trans hrecord
              · exact henqueue.trans hrecord

theorem relations_settleRow (turn : Turn) (queueId : ℕ) (settlement : Settlement) (s : Store) :
    (settleRow turn queueId s settlement).2.relations = s.relations := by
  cases settlement with
  | deliver | fail | retry => exact relations_of_keeps (fun _ => rfl) s

theorem relations_settle (d : Drain) (item : DeliveryItem) (s : Store) :
    (settle d item s).2.relations = s.relations := by
  have hrow := relations_settleRow d.settle item.queueId (settlement item d.answer) s
  rw [settle]
  generalize settleRow d.settle item.queueId s (settlement item d.answer) = result at hrow
  rcases result with ⟨e | n, t⟩
  · exact hrow
  · simp only
    cases (settlement item d.answer).state with
    | none => exact hrow
    | some state =>
        have hmark : (t.markOutboxState d.mark item.activityId state).2.relations = t.relations :=
          relations_of_keeps (fun _ => rfl) t
        simp only
        generalize t.markOutboxState d.mark item.activityId state = marked at hmark
        rcases marked with ⟨e | n, u⟩
        · exact hmark.trans hrow
        · exact hmark.trans hrow

theorem relations_drainOnce (d : Drain) :
    (drainOnce lib serde config s d).2.relations = s.relations := by
  have hselect : (s.nextDueDelivery d.select).2.relations = s.relations :=
    relations_of_keeps (fun _ => rfl) s
  rw [drainOnce]
  generalize s.nextDueDelivery d.select = selected at hselect
  rcases selected with ⟨e | _ | item, t⟩
  · exact hselect
  · exact hselect
  · have hload : (t.loadActivity serde d.load item.activityId).2.relations = t.relations :=
      relations_of_keeps (fun _ => rfl) t
    simp only
    generalize t.loadActivity serde d.load item.activityId = loaded at hload
    rcases loaded with ⟨e | _ | activity, u⟩
    · exact hload.trans hselect
    · have hdrop : (u.dropDelivery d.settle item.queueId).2.relations = u.relations :=
        relations_of_keeps (fun _ => rfl) u
      simp only
      generalize u.dropDelivery d.settle item.queueId = dropped at hdrop
      rcases dropped with ⟨e | n, w⟩
      · exact hdrop.trans (hload.trans hselect)
      · exact hdrop.trans (hload.trans hselect)
    · simp only
      cases prepare lib serde config d.date item activity with
      | error e => exact hload.trans hselect
      | ok req => exact (relations_settle d item u).trans (hload.trans hselect)

end Apart

/-! ## The relations as registers -/

section Registers

variable {s t : Store} {me : Str} {effect : InboxEffect} {now : ℕ} {pair : Str × Str}
  {followers : Str × Str → Option (Option Str)} {following : Str × Str → Option Bool}

/-- What an effect writes to the registers. -/
def InboxEffect.followerWrites (me : Str) :
    InboxEffect → List (Write (Str × Str) (Option Str))
  | .follow f inbox => [((me, f), some inbox)]
  | .unfollow f => [((me, f), none)]
  | .acknowledge _ | .nothing => []

def InboxEffect.followingWrites (table : Str × Str → Option Bool) (me : Str) :
    InboxEffect → List (Write (Str × Str) Bool)
  | .acknowledge g => [((me, g), (table (me, g)).map fun _ => true)]
  | .follow _ _ | .unfollow _ | .nothing => []

theorem followerOf_after (h : t.followers = effect.followers now me s.followers) :
    t.followerOf = replay s.followerOf (effect.followerWrites me) := by
  funext ⟨a, f⟩
  rw [Store.followerOf, followerRows_after h]
  cases effect with
  | follow f' inbox =>
      change _ = Function.update s.followerOf (me, f') (some inbox) (a, f)
      rw [InboxEffect.followersAt, Function.update_apply]
      by_cases hpair : a = me ∧ f = f'
      · rw [if_pos hpair, if_pos (Prod.ext hpair.1 hpair.2)]
        rfl
      · rw [if_neg hpair, if_neg fun heq => hpair (Prod.mk.inj heq)]
        rfl
  | unfollow f' =>
      change _ = Function.update s.followerOf (me, f') none (a, f)
      rw [InboxEffect.followersAt, Function.update_apply]
      by_cases hpair : a = me ∧ f = f'
      · rw [if_pos hpair, if_pos (Prod.ext hpair.1 hpair.2)]
        rfl
      · rw [if_neg hpair, if_neg fun heq => hpair (Prod.mk.inj heq)]
        rfl
  | acknowledge | nothing => rfl

theorem followingOf_after (h : t.following = effect.following me s.following) :
    t.followingOf = replay s.followingOf (effect.followingWrites s.followingOf me) := by
  funext ⟨a, g⟩
  rw [Store.followingOf, followingRows_after h]
  cases effect with
  | acknowledge g' =>
      change _ = Function.update s.followingOf (me, g')
        ((s.followingOf (me, g')).map fun _ => true) (a, g)
      rw [InboxEffect.followingAt, Function.update_apply]
      by_cases hpair : a = me ∧ g = g'
      · obtain ⟨rfl, rfl⟩ := hpair
        rw [if_pos ⟨rfl, rfl⟩, if_pos rfl, List.head?_map, Option.map_map, Store.followingOf,
          Option.map_map]
        rfl
      · rw [if_neg hpair, if_neg fun heq => hpair (Prod.mk.inj heq)]
        rfl
  | follow | unfollow | nothing => rfl

theorem Store.Keyed.after (hs : s.Keyed)
    (hfollowers : t.followers = effect.followers now me s.followers)
    (hfollowing : t.following = effect.following me s.following) : t.Keyed where
  followers a f := by
    rw [followerRows_after hfollowers]
    cases effect with
    | follow f' inbox =>
        rw [InboxEffect.followersAt]
        split_ifs
        · exact le_rfl
        · exact hs.followers a f
    | unfollow f' =>
        rw [InboxEffect.followersAt]
        split_ifs
        · exact Nat.zero_le 1
        · exact hs.followers a f
    | acknowledge | nothing => exact hs.followers a f
  following a g := by
    rw [followingRows_after hfollowing]
    cases effect with
    | acknowledge g' =>
        rw [InboxEffect.followingAt]
        split_ifs
        · rw [List.length_map]
          exact hs.following a g
        · exact hs.following a g
    | follow | unfollow | nothing => exact hs.following a g

/-- A request replaces what there was for its pair. -/
theorem followingRows_request {g : Str} (h : t.following =
      s.following.filter (fun r => ¬ (r.actorId = me ∧ r.targetId = g)) ++ [⟨me, g, now, false⟩])
    (b k : Str) :
    t.followingRows b k =
      if b = me ∧ k = g then [⟨me, g, now, false⟩] else s.followingRows b k := by
  rw [Store.followingRows, h, List.filter_append, List.filter_filter]
  by_cases hpair : b = me ∧ k = g
  · obtain ⟨rfl, rfl⟩ := hpair
    have hgone : s.following.filter (fun r => decide (r.actorId = b ∧ r.targetId = k) &&
        decide (¬ (r.actorId = b ∧ r.targetId = k))) = [] := by
      rw [List.filter_eq_nil_iff]
      intro r _
      by_cases hr : r.actorId = b ∧ r.targetId = k <;> simp [hr]
    rw [hgone, if_pos ⟨rfl, rfl⟩, List.filter_cons_of_pos (by simp)]
    rfl
  · have hkept : s.following.filter (fun r => decide (r.actorId = b ∧ r.targetId = k) &&
        decide (¬ (r.actorId = me ∧ r.targetId = g))) = s.followingRows b k := by
      refine List.filter_congr fun r _ => ?_
      by_cases hr : r.actorId = b ∧ r.targetId = k
      · have hother : ¬ (r.actorId = me ∧ r.targetId = g) := by
          rintro ⟨hme, hg⟩
          exact hpair ⟨hr.1.symm.trans hme, hr.2.symm.trans hg⟩
        rw [decide_eq_true hother, Bool.and_true]
      · rw [decide_eq_false hr, Bool.false_and]
    have hrow : ¬ (me = b ∧ g = k) := fun h => hpair ⟨h.1.symm, h.2.symm⟩
    rw [hkept, if_neg hpair, List.filter_cons_of_neg (by simpa using hrow), List.filter_nil,
      List.append_nil]

theorem followerOf_of_followers (h : t.followers = s.followers) : t.followerOf = s.followerOf := by
  funext pair
  rw [Store.followerOf, Store.followerRows, h]
  rfl

theorem followingOf_of_following (h : t.following = s.following) :
    t.followingOf = s.followingOf := by
  funext pair
  rw [Store.followingOf, Store.followingRows, h]
  rfl

theorem Store.Keyed.of_relations (hs : s.Keyed) (h : t.relations = s.relations) : t.Keyed where
  followers a f := by
    have hsame : t.followers = s.followers := congrArg Prod.fst h
    rw [Store.followerRows, hsame]
    exact hs.followers a f
  following a g := by
    have hsame : t.following = s.following := congrArg Prod.snd h
    rw [Store.followingRows, hsame]
    exact hs.following a g

end Registers

section Runs

variable (lib : SigLibrary) (serde : SerdeJson) (config : DeliveryConfig)

/-- A call does to the followers what its answer tells. -/
theorem followerOf_perform (s : Store) (call : StoreCall) :
    (perform lib serde config s call).2.followerOf = replay s.followerOf
      (followersTold s.followerOf call (perform lib serde config s call).1) := by
  cases call with
  | handleInbox c =>
      obtain ⟨hfollowers, -⟩ := relations_handleInbox c.turns c.uuid c.localActorId
        c.verifiedActor c.activity s
      refine (followerOf_after hfollowers).trans (congrArg _ ?_)
      change _ = followersTold s.followerOf (.handleInbox c) (.inbox (receive s c).1)
      rw [receive]
      rcases handleInbox c.turns c.uuid c.localActorId c.verifiedActor c.activity s with
        ⟨e | (_ | _ | _ | _ | _ | _), t⟩ <;> rfl
  | addFollowing turn a g =>
      refine followerOf_of_followers ?_
      change (s.addFollowing turn a g).2.followers = s.followers
      rw [Store.addFollowing]
      cases hfault : turn.fault with
      | none => rw [Turn.execute_of_no_fault hfault]
      | some e => rw [Turn.execute_of_fault hfault]
  | handleOutboxPost c =>
      exact followerOf_of_followers (congrArg Prod.fst (relations_handleOutboxPost c))
  | drainOnce d =>
      exact followerOf_of_followers (congrArg Prod.fst (relations_drainOnce d))

/-- A call does to the followed actors what its answer tells. -/
theorem followingOf_perform (s : Store) (call : StoreCall) :
    (perform lib serde config s call).2.followingOf = replay s.followingOf
      (followingTold s.followingOf call (perform lib serde config s call).1) := by
  cases call with
  | handleInbox c =>
      obtain ⟨-, hfollowing⟩ := relations_handleInbox c.turns c.uuid c.localActorId
        c.verifiedActor c.activity s
      refine (followingOf_after hfollowing).trans (congrArg _ ?_)
      change _ = followingTold s.followingOf (.handleInbox c) (.inbox (receive s c).1)
      rw [receive]
      rcases handleInbox c.turns c.uuid c.localActorId c.verifiedActor c.activity s with
        ⟨e | (_ | _ | _ | _ | _ | _), t⟩ <;> rfl
  | addFollowing turn a g =>
      change (s.addFollowing turn a g).2.followingOf = replay s.followingOf
        (followingTold s.followingOf (.addFollowing turn a g)
          (.request (s.addFollowing turn a g).1))
      rw [Store.addFollowing]
      cases hfault : turn.fault with
      | none =>
          rw [Turn.execute_of_no_fault hfault]
          funext pair
          obtain ⟨b, k⟩ := pair
          change _ = Function.update s.followingOf (a, g) (some false) (b, k)
          rw [Store.followingOf, followingRows_request rfl, Function.update_apply]
          by_cases hpair : b = a ∧ k = g
          · rw [if_pos hpair, if_pos (Prod.ext hpair.1 hpair.2)]
            rfl
          · rw [if_neg hpair, if_neg fun heq => hpair (Prod.mk.inj heq)]
            rfl
      | some e =>
          rw [Turn.execute_of_fault hfault]
          rfl
  | handleOutboxPost c =>
      exact followingOf_of_following (congrArg Prod.snd (relations_handleOutboxPost c))
  | drainOnce d =>
      exact followingOf_of_following (congrArg Prod.snd (relations_drainOnce d))

theorem Store.Keyed.perform {s : Store} (hs : s.Keyed) (call : StoreCall) :
    (perform lib serde config s call).2.Keyed := by
  cases call with
  | handleInbox c =>
      obtain ⟨hfollowers, hfollowing⟩ := relations_handleInbox c.turns c.uuid c.localActorId
        c.verifiedActor c.activity s
      exact hs.after hfollowers hfollowing
  | addFollowing turn a g =>
      change (s.addFollowing turn a g).2.Keyed
      rw [Store.addFollowing]
      cases hfault : turn.fault with
      | none =>
          rw [Turn.execute_of_no_fault hfault]
          refine ⟨hs.followers, fun b k => ?_⟩
          rw [followingRows_request rfl]
          split_ifs
          · exact le_rfl
          · exact hs.following b k
      | some e =>
          rw [Turn.execute_of_fault hfault]
          exact hs
  | handleOutboxPost c => exact hs.of_relations (relations_handleOutboxPost c)
  | drainOnce d => exact hs.of_relations (relations_drainOnce d)

/-- The store after some calls on an empty one. -/
def storeAfterCalls (calls : List StoreCall) : Store :=
  Lockstep.final (perform lib serde config) .empty calls

/-- The calls of a run, with their answers. -/
def callHistory (calls : List StoreCall) : List (StoreCall × StoreAnswer) :=
  calls.zip (Lockstep.run (perform lib serde config) .empty calls)

/-- Who follows whom, with the inbox that was given, by what the calls have answered. -/
def followersToldBy (history : List (StoreCall × StoreAnswer)) : Str × Str → Option (Option Str) :=
  replay (fun _ => none) (writesOf followersTold (fun _ => none) history)

/-- Which requests to follow there are, and whether they were accepted. -/
def followingToldBy (history : List (StoreCall × StoreAnswer)) : Str × Str → Option Bool :=
  replay (fun _ => none) (writesOf followingTold (fun _ => none) history)

variable (calls : List StoreCall)

theorem keyed_storeAfterCalls : (storeAfterCalls lib serde config calls).Keyed := by
  rw [storeAfterCalls]
  have hstart : Store.empty.Keyed := ⟨fun _ _ => Nat.zero_le 1, fun _ _ => Nat.zero_le 1⟩
  generalize Store.empty = s at hstart
  induction calls generalizing s with
  | nil => exact hstart
  | cons call calls ih => exact ih _ (hstart.perform lib serde config call)

theorem followerOf_storeAfterCalls : (storeAfterCalls lib serde config calls).followerOf =
    followersToldBy (callHistory lib serde config calls) := by
  have hstep : ∀ s table call, Shows Store.followerOf (fun _ => True) s table →
      Shows Store.followerOf (fun _ => True) (perform lib serde config s call).2
        (replay table (followersTold table call (perform lib serde config s call).1)) := by
    intro s table call hs k _
    rw [followerOf_perform, show s.followerOf = table from funext fun k => hs k trivial]
  have hstart : Shows Store.followerOf (fun _ => True) .empty fun _ => none := fun _ _ => rfl
  funext pair
  exact shows_final hstep hstart calls pair trivial

theorem followingOf_storeAfterCalls : (storeAfterCalls lib serde config calls).followingOf =
    followingToldBy (callHistory lib serde config calls) := by
  have hstep : ∀ s table call, Shows Store.followingOf (fun _ => True) s table →
      Shows Store.followingOf (fun _ => True) (perform lib serde config s call).2
        (replay table (followingTold table call (perform lib serde config s call).1)) := by
    intro s table call hs k _
    rw [followingOf_perform, show s.followingOf = table from funext fun k => hs k trivial]
  have hstart : Shows Store.followingOf (fun _ => True) .empty fun _ => none := fun _ _ => rfl
  funext pair
  exact shows_final hstep hstart calls pair trivial

end Runs

/-! ## What the queries answer -/

section Queries

variable {s : Store} {turn : Turn} {actorId : Str}

theorem followerOf_eq_find? (pair : Str × Str) : s.followerOf pair =
    (s.followers.find? fun r => r.actorId = pair.1 ∧ r.followerId = pair.2).map
      FollowerRow.inbox := by
  rw [Store.followerOf, Store.followerRows, List.head?_filter]

theorem followerOf_eq_some_iff (hs : s.Keyed) {f : Str} {inbox : Option Str} :
    s.followerOf (actorId, f) = some inbox ↔
      ∃ r ∈ s.followers, (r.actorId = actorId ∧ r.followerId = f) ∧ r.inbox = inbox := by
  rw [Store.followerOf]
  have hone := hs.followers actorId f
  have hmem : ∀ r, r ∈ s.followerRows actorId f ↔
      r ∈ s.followers ∧ r.actorId = actorId ∧ r.followerId = f := by
    intro r
    rw [Store.followerRows, List.mem_filter, decide_eq_true_iff]
  generalize s.followerRows actorId f = rows at hone hmem
  rcases rows with _ | ⟨r, _ | ⟨r', rest⟩⟩
  · refine iff_of_false (fun h => by cases h) ?_
    rintro ⟨r, hr, hpair, -⟩
    exact absurd ((hmem r).mpr ⟨hr, hpair⟩) List.not_mem_nil
  · simp only [← and_assoc, ← hmem, List.mem_singleton, exists_eq_left, List.head?_cons,
      Option.map_some, Option.some.injEq]
  · exact absurd hone (by simp)

theorem isFollower_eq (h : turn.fault = none) (f : Str) :
    s.isFollower turn actorId f = (.ok (s.followerOf (actorId, f)).isSome, s) := by
  rw [Store.isFollower, Turn.execute_of_no_fault h, followerOf_eq_find?, Option.isSome_map,
    List.isSome_find?]

theorem isFollowing_eq (h : turn.fault = none) (g : Str) :
    s.isFollowing turn actorId g = (.ok (s.followingOf (actorId, g) == some true), s) := by
  rw [Store.isFollowing, Turn.execute_of_no_fault h, Store.followingOf, Store.followingRows,
    List.head?_filter]
  cases s.following.find? fun r => r.actorId = actorId ∧ r.targetId = g with
  | none => rfl
  | some r => cases haccepted : r.accepted <;> simp [haccepted]

theorem followerCount_eq (hs : s.Keyed) (h : turn.fault = none) : s.followerCount turn actorId =
    (.ok (Set.ncard {f | (s.followerOf (actorId, f)).isSome}), s) := by
  have hnodup : ((s.followers.filter fun r => r.actorId = actorId).map
      FollowerRow.followerId).Nodup := by
    rw [List.nodup_iff_count_le_one]
    intro f
    rw [List.count_eq_countP, List.countP_map, List.countP_filter]
    refine le_trans (le_of_eq ?_) (hs.followers actorId f)
    rw [Store.followerRows, ← List.countP_eq_length_filter]
    refine List.countP_congr fun r _ => ?_
    simp [and_comm]
  have hset : {f | (s.followerOf (actorId, f)).isSome} =
      ↑((s.followers.filter fun r => r.actorId = actorId).map FollowerRow.followerId).toFinset := by
    ext f
    rw [Set.mem_ofPred_eq, followerOf_eq_find?, Option.isSome_map, List.find?_isSome,
      List.coe_toFinset, Set.mem_ofPred_eq, List.mem_map]
    simp only [List.mem_filter, decide_eq_true_iff, and_assoc]
  rw [Store.followerCount, Turn.execute_of_no_fault h, hset, Set.ncard_coe_finset,
    List.toFinset_card_of_nodup hnodup, List.length_map, List.countP_eq_length_filter]

theorem mem_distinctInboxes_iff (hs : s.Keyed) {inbox : Str} :
    inbox ∈ distinctInboxes actorId s.followers ↔
      ∃ f, s.followerOf (actorId, f) = some (some inbox) := by
  simp only [followerOf_eq_some_iff hs, distinctInboxes, List.mem_dedup, List.mem_filterMap,
    List.mem_filter, decide_eq_true_iff]
  constructor
  · rintro ⟨r, ⟨hmem, rfl⟩, hinbox⟩
    exact ⟨r.followerId, r, hmem, ⟨rfl, rfl⟩, hinbox⟩
  · rintro ⟨f, r, hmem, ⟨rfl, -⟩, hinbox⟩
    exact ⟨r, ⟨hmem, rfl⟩, hinbox⟩

end Queries

/-- After any calls the queries answer what the calls have told. -/
theorem relations_storeAfterCalls (lib : SigLibrary) (serde : SerdeJson) (config : DeliveryConfig)
    (calls : List StoreCall) (now : ℕ) (actorId : Str) :
    let s := storeAfterCalls lib serde config calls
    let followers := followersToldBy (callHistory lib serde config calls)
    let following := followingToldBy (callHistory lib serde config calls)
    (∀ f, s.isFollower ⟨now, none⟩ actorId f = (.ok (followers (actorId, f)).isSome, s)) ∧
      s.followerCount ⟨now, none⟩ actorId =
        (.ok (Set.ncard {f | (followers (actorId, f)).isSome}), s) ∧
      (∃ inboxes, s.followerInboxes ⟨now, none⟩ actorId = (.ok inboxes, s) ∧ inboxes.Nodup ∧
        ∀ inbox, inbox ∈ inboxes ↔ ∃ f, followers (actorId, f) = some (some inbox)) ∧
      ∀ g, s.isFollowing ⟨now, none⟩ actorId g =
        (.ok (following (actorId, g) == some true), s) := by
  have hkeyed := keyed_storeAfterCalls lib serde config calls
  simp only [← followerOf_storeAfterCalls, ← followingOf_storeAfterCalls]
  refine ⟨isFollower_eq rfl, followerCount_eq hkeyed rfl, ⟨_, rfl, List.nodup_dedup _, ?_⟩,
    isFollowing_eq rfl⟩
  intro inbox
  exact mem_distinctInboxes_iff hkeyed

/-! ## Who a post goes to -/

section Posts

variable {serde : SerdeJson} {s t : Store} {c : Submission} {d : OutboundDelivery}

theorem queued_of_enqueueAll {turns : ℕ → Turn} {id : Str} {i : ℕ} {inboxes : List Str}
    (h : enqueueAll turns id i inboxes s = (.ok (), t)) :
    t.queued = s.queued ++ inboxes.map (id, ·) := by
  induction inboxes generalizing i s with
  | nil =>
      cases h
      exact (List.append_nil _).symm
  | cons inbox rest ih =>
      rw [enqueueAll, Store.enqueueDelivery] at h
      cases hfault : (turns i).fault with
      | some e =>
          rw [Turn.execute_of_fault hfault] at h
          cases h
      | none =>
          rw [Turn.execute_of_no_fault hfault] at h
          rw [ih h]
          simp only [Store.queued, SerialTable.push, List.map_append, List.map_cons, List.map_nil,
            List.append_assoc, List.singleton_append]

theorem inboxes_of_targetInboxes {activityType : Str} {activity : Json} {inboxes : List Str}
    (h : c.targetInboxes activityType activity s = (.ok inboxes, t)) :
    inboxes = if some activityType = some ("Follow" : Str) then
        (textOf activity "targetInbox").toList
      else distinctInboxes c.actorId s.followers := by
  rw [Submission.targetInboxes] at h
  by_cases hfollow : activityType = "Follow"
  · rw [if_pos hfollow] at h
    cases h
    rw [if_pos (congrArg some hfollow)]
  · rw [if_neg hfollow, Store.followerInboxes] at h
    rw [if_neg fun heq => hfollow (Option.some.inj heq)]
    cases hfault : c.fanOut.fault with
    | some e =>
        rw [Turn.execute_of_fault hfault] at h
        cases h
    | none =>
        rw [Turn.execute_of_no_fault hfault] at h
        cases h
        rfl

/-- A post that is answered is queued for each of its inboxes. -/
theorem handleOutboxPost_eq_ok (h : handleOutboxPost serde s c = (.ok d, t)) :
    ∃ inboxes, t.queued = s.queued ++ inboxes.map (d.activityId, ·) ∧
      d.queuedInboxes = inboxes.length ∧
      inboxes = if textOf d.activity "type" = some ("Follow" : Str) then
          (textOf d.activity "targetInbox").toList
        else distinctInboxes c.actorId s.followers := by
  rw [handleOutboxPost] at h
  cases hactivity : c.toActivity with
  | error e =>
      rw [hactivity] at h
      cases h
  | ok activity =>
      rw [hactivity] at h
      simp only [handleOutbox] at h
      cases htype : textOf activity "type" with
      | none =>
          rw [htype] at h
          cases h
      | some activityType =>
          rw [htype] at h
          have hstamped := (type_stamped hactivity).trans htype
          simp only [Store.recordOutbox] at h
          cases hfault : c.record.fault with
          | some e =>
              rw [Turn.execute_of_fault hfault] at h
              cases h
          | none =>
              rw [Turn.execute_of_no_fault hfault] at h
              simp only at h
              generalize hrow : ({ s with outbox := _ } : Store) = recorded at h
              have hqueue : recorded.queued = s.queued := by rw [← hrow]; rfl
              have hfollowers : recorded.followers = s.followers := by rw [← hrow]
              cases htarget : c.targetInboxes activityType (c.stampActor (c.stampId activity))
                recorded with
              | mk answer u =>
                  have hsame := targetInboxes_snd c activityType
                    (c.stampActor (c.stampId activity)) recorded
                  rw [htarget] at hsame h
                  cases answer with
                  | error e => cases h
                  | ok inboxes =>
                      subst hsame
                      cases henqueue : enqueueAll c.enqueue
                        (((getKey (c.stampActor (c.stampId activity)) "id").bind asStr).getD
                          ("urn:uuid:" ++ c.rowUuid)) 0 inboxes u with
                      | mk done w =>
                          simp only [henqueue] at h
                          cases done with
                          | error e => cases h
                          | ok =>
                              cases h
                              refine ⟨inboxes, ?_, rfl, ?_⟩
                              · rw [queued_of_enqueueAll henqueue, hqueue]
                              · rw [hstamped, ← hfollowers]
                                exact inboxes_of_targetInboxes htarget

/-- After any calls, a post that is answered goes to the inboxes of those who follow the actor by
what the calls have told, and to each of them once. A `Follow` goes to its target. -/
theorem queued_after_post (lib : SigLibrary) (serde : SerdeJson) (config : DeliveryConfig)
    (calls : List StoreCall)
    (h : handleOutboxPost serde (storeAfterCalls lib serde config calls) c = (.ok d, t)) :
    ∃ inboxes : List Str, t.queued =
        (storeAfterCalls lib serde config calls).queued ++ inboxes.map (d.activityId, ·) ∧
      d.queuedInboxes = inboxes.length ∧ inboxes.Nodup ∧ ∀ inbox, inbox ∈ inboxes ↔
        if textOf d.activity "type" = some ("Follow" : Str) then
          textOf d.activity "targetInbox" = some inbox
        else ∃ f, followersToldBy (callHistory lib serde config calls) (c.actorId, f) =
          some (some inbox) := by
  obtain ⟨inboxes, hqueued, hlength, rfl⟩ := handleOutboxPost_eq_ok h
  refine ⟨_, hqueued, hlength, ?_, fun inbox => ?_⟩
  · split_ifs
    · exact (textOf d.activity "targetInbox").toList_nodup
    · exact List.nodup_dedup _
  · rw [← followerOf_storeAfterCalls,
      ← mem_distinctInboxes_iff (keyed_storeAfterCalls lib serde config calls)]
    split_ifs
    · exact Option.mem_toList
    · rfl

end Posts

section Sample

/-- An activity about a follow as it arrives for the actor `a`. -/
def friendCall (activityType follower inbox id : Str) : StoreCall :=
  .handleInbox ⟨(⟨0, none⟩, ⟨0, none⟩), [], ['a'], ⟨[], follower, []⟩, .object
    [("actor", .string follower), ("actorInbox", .string inbox), ("id", .string id),
      ("object", .object [("type", .string "Follow")]), ("type", .string activityType)]⟩

/-- Two follow the actor, and one of them no more. -/
def friendCalls : List StoreCall :=
  [friendCall "Follow" ['f'] ['i'] ['1'], friendCall "Follow" ['g'] ['j'] ['2'],
    friendCall "Undo" ['f'] ['i'] ['3']]

theorem queued_after_post_friends : ∃ (d : OutboundDelivery) (t : Store) (inboxes : List Str),
    t.queued = (storeAfterCalls echoLib blankSerde ⟨[], []⟩ friendCalls).queued ++
        inboxes.map (d.activityId, ·) ∧
      ∀ inbox, inbox ∈ inboxes ↔
        if textOf d.activity "type" = some ("Follow" : Str) then
          textOf d.activity "targetInbox" = some inbox
        else ∃ f, followersToldBy (callHistory echoLib blankSerde ⟨[], []⟩ friendCalls) (['a'], f) =
          some (some inbox) := by
  obtain ⟨d, t, h⟩ : ∃ d t, handleOutboxPost blankSerde
      (storeAfterCalls echoLib blankSerde ⟨[], []⟩ friendCalls) ownPost = (.ok d, t) :=
    ⟨_, _, rfl⟩
  obtain ⟨inboxes, hqueued, -, -, hinboxes⟩ := queued_after_post echoLib blankSerde ⟨[], []⟩ _ h
  exact ⟨d, t, inboxes, hqueued, hinboxes⟩

end Sample

end ActivityPub

end SolidPod
