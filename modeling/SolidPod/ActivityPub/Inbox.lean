import Mathlib.Tactic.NthRewrite
import SolidPod.ActivityPub.HttpSig
import SolidPod.ActivityPub.Store

/-!
# The inbox

`handleInbox` records an activity and carries out what it asks for: to add or
remove a follower, or to mark a follow of one's own as accepted. An activity that
is new has one effect on the followers or on the followed actors of the local
actor, which is one statement. The effect concerns the identity that the activity
names, which is the signer's if the sender is honest.
-/

namespace SolidPod

open Foundation

open Ldp (getKey asStr)

namespace ActivityPub

inductive InboxError where
  | missingType
  | storage (e : SqlxError)

inductive InboxOutcome where
  | accepted
  | duplicate
  | ignored
  | followAccepted (followerId : Str) (followerInbox : Option Str) (acceptObject : Json)
  | followRemoved (followerId : Str)
  | followAcknowledged (targetId : Str)

/-- The text without the copies of another at its end, up to a number of them. -/
def trimSuffixes (p : Str) : Nat → Str → Str
  | 0, s => s
  | n + 1, s =>
    match Str.stripSuffix p s with
    | some r => trimSuffixes p n r
    | none => s

def trimEndMatchesStr (p s : Str) : Str := trimSuffixes p s.length s

def buildAccept (uuid localActorId : Str) (follow : Json) : Json :=
  Json.ofMembers [("@context", .string "https://www.w3.org/ns/activitystreams"),
    ("id", .string (trimEndMatchesStr "#me" localActorId ++ "/accept/" ++ uuid)),
    ("type", .string "Accept"), ("actor", .string localActorId), ("object", follow)]

/-- A text member of an object. -/
def textOf (v : Json) (key : Str) : Option Str := (getKey v key).bind asStr

/-- The type of the object that the activity is about. -/
def innerType (activity : Json) : Option Str := (getKey activity "object").bind (textOf · "type")

/-- The first turn is that of the record, the second one that of the effect. -/
def handleInbox (turns : Turn × Turn) (uuid : Str) (localActorId : Str)
    (verifiedActor : VerifiedActor) (activity : Json) (store : Store) :
    Except InboxError InboxOutcome × Store :=
  match textOf activity "type" with
  | none => (.error .missingType, store)
  | some activityType =>
    match store.recordInbox turns.1 localActorId activity with
    | (.error e, store) => (.error (.storage e), store)
    | (.ok false, store) => (.ok .duplicate, store)
    | (.ok true, store) =>
      if activityType = "Follow" then
        let followerId := (textOf activity "actor").getD verifiedActor.actorUrl
        let followerInbox := textOf activity "actorInbox"
        match store.addFollower turns.2 localActorId followerId followerInbox with
        | (.error e, store) => (.error (.storage e), store)
        | (.ok (), store) =>
          (.ok (.followAccepted followerId followerInbox (buildAccept uuid localActorId activity)),
            store)
      else if activityType = "Undo" then
        if innerType activity = some ("Follow" : Str) then
          let followerId := (textOf activity "actor").getD verifiedActor.actorUrl
          match store.removeFollower turns.2 localActorId followerId with
          | (.error e, store) => (.error (.storage e), store)
          | (.ok _, store) => (.ok (.followRemoved followerId), store)
        else (.ok .ignored, store)
      else if activityType = "Accept" then
        if innerType activity = some ("Follow" : Str) then
          let targetId := ((getKey activity "object").bind (textOf · "object")).getD localActorId
          match store.acceptFollowing turns.2 localActorId targetId with
          | (.error e, store) => (.error (.storage e), store)
          | (.ok _, store) => (.ok (.followAcknowledged targetId), store)
        else (.ok .ignored, store)
      else if activityType = "Create" ∨ activityType = "Like" ∨ activityType = "Announce" ∨
          activityType = "Delete" then (.ok .accepted, store)
      else (.ok .ignored, store)

end ActivityPub

end SolidPod

namespace SolidPod

open Foundation

open Ldp (getKey asStr)

namespace ActivityPub

/-! ## The effect of an activity -/

inductive InboxEffect where
  | follow (followerId : Str) (inbox : Option Str)
  | unfollow (followerId : Str)
  | acknowledge (targetId : Str)
  | nothing

/-- What an activity of a type asks for. -/
def effectOf (localActorId : Str) (verifiedActor : VerifiedActor) (activity : Json)
    (activityType : Str) : InboxEffect :=
  if activityType = "Follow" then
    .follow ((textOf activity "actor").getD verifiedActor.actorUrl) (textOf activity "actorInbox")
  else if activityType = "Undo" ∧ innerType activity = some ("Follow" : Str) then
    .unfollow ((textOf activity "actor").getD verifiedActor.actorUrl)
  else if activityType = "Accept" ∧ innerType activity = some ("Follow" : Str) then
    .acknowledge (((getKey activity "object").bind (textOf · "object")).getD localActorId)
  else .nothing

/-- The statement that carries an effect out. -/
def InboxEffect.execute (turn : Turn) (localActorId : Str) (s : Store) :
    InboxEffect → Except SqlxError Unit × Store
  | .follow followerId inbox => s.addFollower turn localActorId followerId inbox
  | .unfollow followerId =>
    (s.removeFollower turn localActorId followerId).map (·.map fun _ => ()) id
  | .acknowledge targetId =>
    (s.acceptFollowing turn localActorId targetId).map (·.map fun _ => ()) id
  | .nothing => (.ok (), s)

/-- An activity that was recorded has its effect, or the error of its statement. -/
theorem handleInbox_of_recorded (turns : Turn × Turn) (uuid : Str) (verifiedActor : VerifiedActor)
    {localActorId activityType : Str} {activity : Json} {store recorded : Store}
    (htype : textOf activity "type" = some activityType)
    (hrecord : store.recordInbox turns.1 localActorId activity = (.ok true, recorded)) :
    ∃ outcome, outcome ≠ InboxOutcome.duplicate ∧
      handleInbox turns uuid localActorId verifiedActor activity store =
        match (effectOf localActorId verifiedActor activity activityType).execute turns.2
          localActorId recorded with
        | (.error e, s) => (.error (.storage e), s)
        | (.ok (), s) => (.ok outcome, s) := by
  rw [handleInbox, htype]
  simp only [hrecord]
  rw [effectOf]
  by_cases hfollow : activityType = "Follow"
  · refine ⟨.followAccepted ((textOf activity "actor").getD verifiedActor.actorUrl)
      (textOf activity "actorInbox") (buildAccept uuid localActorId activity),
      InboxOutcome.noConfusion, ?_⟩
    rw [if_pos hfollow, if_pos hfollow]
    rfl
  rw [if_neg hfollow, if_neg hfollow]
  by_cases hundo : activityType = "Undo"
  · by_cases hinner : innerType activity = some ("Follow" : Str)
    · refine ⟨.followRemoved ((textOf activity "actor").getD verifiedActor.actorUrl),
        InboxOutcome.noConfusion, ?_⟩
      rw [if_pos hundo, if_pos hinner, if_pos ⟨hundo, hinner⟩, InboxEffect.execute]
      rcases recorded.removeFollower turns.2 localActorId
        ((textOf activity "actor").getD verifiedActor.actorUrl) with ⟨e | n, s⟩
      · rfl
      · rfl
    · refine ⟨.ignored, InboxOutcome.noConfusion, ?_⟩
      have hnoUndo : ¬ (activityType = "Undo" ∧ innerType activity = some ("Follow" : Str)) :=
        fun h => hinner h.2
      have hnoAccept : ¬ (activityType = "Accept" ∧ innerType activity = some ("Follow" : Str)) :=
        fun h => hinner h.2
      rw [if_pos hundo, if_neg hinner, if_neg hnoUndo, if_neg hnoAccept, InboxEffect.execute]
  have hnoUndo : ¬ (activityType = "Undo" ∧ innerType activity = some ("Follow" : Str)) :=
    fun h => hundo h.1
  rw [if_neg hundo, if_neg hnoUndo]
  by_cases haccept : activityType = "Accept"
  · by_cases hinner : innerType activity = some ("Follow" : Str)
    · refine ⟨.followAcknowledged
        (((getKey activity "object").bind (textOf · "object")).getD localActorId),
        InboxOutcome.noConfusion, ?_⟩
      rw [if_pos haccept, if_pos hinner, if_pos ⟨haccept, hinner⟩, InboxEffect.execute]
      rcases recorded.acceptFollowing turns.2 localActorId
        (((getKey activity "object").bind (textOf · "object")).getD localActorId) with ⟨e | n, s⟩
      · rfl
      · rfl
    · refine ⟨.ignored, InboxOutcome.noConfusion, ?_⟩
      have hnoAccept : ¬ (activityType = "Accept" ∧ innerType activity = some ("Follow" : Str)) :=
        fun h => hinner h.2
      rw [if_pos haccept, if_neg hinner, if_neg hnoAccept, InboxEffect.execute]
  have hnoAccept : ¬ (activityType = "Accept" ∧ innerType activity = some ("Follow" : Str)) :=
    fun h => haccept h.1
  rw [if_neg haccept, if_neg hnoAccept, InboxEffect.execute]
  by_cases hother : activityType = "Create" ∨ activityType = "Like" ∨ activityType = "Announce" ∨
      activityType = "Delete"
  · exact ⟨.accepted, InboxOutcome.noConfusion, by rw [if_pos hother]⟩
  · exact ⟨.ignored, InboxOutcome.noConfusion, by rw [if_neg hother]⟩

/-! ## The relations after a call -/

def InboxEffect.followers (now : Nat) (me : Str) : InboxEffect → List FollowerRow → List FollowerRow
  | .follow f inbox, l => l.filter (fun r => ¬ (r.actorId = me ∧ r.followerId = f)) ++
      [⟨me, f, inbox, now⟩]
  | .unfollow f, l => l.filter fun r => ¬ (r.actorId = me ∧ r.followerId = f)
  | .acknowledge _, l | .nothing, l => l

def InboxEffect.following (me : Str) : InboxEffect → List FollowingRow → List FollowingRow
  | .acknowledge g, l => l.map fun r =>
      if r.actorId = me ∧ r.targetId = g then { r with accepted := true } else r
  | .follow _ _, l | .unfollow _, l | .nothing, l => l

theorem InboxEffect.execute_of_no_fault {turn : Turn} (h : turn.fault = none) (me : Str)
    (s : Store) (effect : InboxEffect) :
    ∃ t, effect.execute turn me s = (.ok (), t) ∧
      t.followers = effect.followers turn.now me s.followers ∧
      t.following = effect.following me s.following ∧ t.inbox = s.inbox := by
  refine ⟨{ s with
    followers := effect.followers turn.now me s.followers
    following := effect.following me s.following }, ?_, rfl, rfl, rfl⟩
  cases effect with
  | follow f inbox =>
      rw [execute, Store.addFollower, Turn.execute_of_no_fault h, followers, following]
  | unfollow f =>
      rw [execute, Store.removeFollower, Turn.execute_of_no_fault h]
      rfl
  | acknowledge g =>
      rw [execute, Store.acceptFollowing, Turn.execute_of_no_fault h]
      rfl
  | nothing => rfl

theorem InboxEffect.execute_of_fault {turn : Turn} {e : SqlxError} (h : turn.fault = some e)
    (me : Str) (s : Store) {effect : InboxEffect} (hne : effect ≠ .nothing) :
    effect.execute turn me s = (.error e, s) := by
  cases effect with
  | follow f inbox => rw [execute, Store.addFollower, Turn.execute_of_fault h]
  | unfollow f =>
      rw [execute, Store.removeFollower, Turn.execute_of_fault h]
      rfl
  | acknowledge g =>
      rw [execute, Store.acceptFollowing, Turn.execute_of_fault h]
      rfl
  | nothing => exact absurd rfl hne

/-- The activity is new, and both statements of the call go through. -/
structure Takes (turns : Turn × Turn) (store : Store) (activity : Json) (activityType : Str) :
    Prop where
  hasType : textOf activity "type" = some activityType
  isNew : store.IsNew activity
  recorded : turns.1.fault = none
  carriedOut : turns.2.fault = none

section Call

variable {turns : Turn × Turn} {me activityType : Str} {v : VerifiedActor} {activity : Json}
  {store : Store}

theorem relations_of_takes (uuid me : Str) (v : VerifiedActor)
    (h : Takes turns store activity activityType) :
    (handleInbox turns uuid me v activity store).2.followers =
        (effectOf me v activity activityType).followers turns.2.now me store.followers ∧
      (handleInbox turns uuid me v activity store).2.following =
        (effectOf me v activity activityType).following me store.following := by
  have hrecorded := Store.recorded_recordInbox turns.1 me activity store
  generalize hresult : store.recordInbox turns.1 me activity = result at hrecorded
  cases hrecorded with
  | refused hnew => exact absurd h.isNew hnew
  | failed hid hfault =>
      rw [h.recorded] at hfault
      cases hfault
  | added hnew hfault =>
      obtain ⟨outcome, -, heq⟩ := handleInbox_of_recorded turns uuid v h.hasType hresult
      obtain ⟨t, hexecute, hfollowers, hfollowing, -⟩ :=
        InboxEffect.execute_of_no_fault h.carriedOut me _ (effectOf me v activity activityType)
      rw [heq, hexecute]
      exact ⟨hfollowers, hfollowing⟩

theorem relations_of_not_takes (uuid me : Str) (v : VerifiedActor)
    (h : ∀ activityType, ¬ Takes turns store activity activityType) :
    (handleInbox turns uuid me v activity store).2.followers = store.followers ∧
      (handleInbox turns uuid me v activity store).2.following = store.following := by
  cases htype : textOf activity "type" with
  | none =>
      rw [handleInbox, htype]
      exact ⟨rfl, rfl⟩
  | some activityType =>
      have hrecorded := Store.recorded_recordInbox turns.1 me activity store
      generalize hresult : store.recordInbox turns.1 me activity = result at hrecorded
      cases hrecorded with
      | refused hnew =>
          rw [handleInbox, htype]
          simp only [hresult, and_self]
      | failed hid hfault =>
          rw [handleInbox, htype]
          simp only [hresult, and_self]
      | added hnew hfault =>
          obtain ⟨outcome, -, heq⟩ := handleInbox_of_recorded turns uuid v htype hresult
          rw [heq]
          cases hfault' : turns.2.fault with
          | none => exact absurd ⟨htype, hnew, hfault, hfault'⟩ (h activityType)
          | some e =>
              by_cases hnothing : effectOf me v activity activityType = .nothing
              · rw [hnothing, InboxEffect.execute]
                exact ⟨rfl, rfl⟩
              · rw [InboxEffect.execute_of_fault hfault' me _ hnothing]
                exact ⟨rfl, rfl⟩

/-! ## Signers and their rows -/

/-- The activity says that someone else than the signer sent it. -/
def NamesOther (v : VerifiedActor) (activity : Json) : Prop :=
  ∃ a, textOf activity "actor" = some a ∧ a ≠ v.actorUrl

/-- A call changes nothing but the rows of the signer, and these as the activity
says. -/
structure SignersOnly (me : Str) (v : VerifiedActor) (activity : Json) (before after : Store) :
    Prop where
  followersFrame : ∀ a f, (a, f) ≠ (me, v.actorUrl) →
    after.followerRows a f = before.followerRows a f
  followingFrame : ∀ a g, (a, g) ≠ (me, v.actorUrl) →
    after.followingRows a g = before.followingRows a g
  followerChange : after.followerRows me v.actorUrl ≠ before.followerRows me v.actorUrl →
    textOf activity "type" = some ("Follow" : Str) ∧ after.followerRows me v.actorUrl ≠ [] ∨
      textOf activity "type" = some ("Undo" : Str) ∧
        innerType activity = some ("Follow" : Str) ∧ after.followerRows me v.actorUrl = []
  followingChange : after.followingRows me v.actorUrl ≠ before.followingRows me v.actorUrl →
    textOf activity "type" = some ("Accept" : Str) ∧
      innerType activity = some ("Follow" : Str) ∧
      after.followingRows me v.actorUrl =
        (before.followingRows me v.actorUrl).map fun r => { r with accepted := true }
  others : NamesOther v activity →
    (∀ a f, after.followerRows a f = before.followerRows a f) ∧
      ∀ a g, after.followingRows a g = before.followingRows a g

/-- What the effect writes is the signer's row, or is what the row says already. -/
def InboxEffect.Owned (now : Nat) (me : Str) (v : VerifiedActor) (activity : Json)
    (before : Store) : InboxEffect → Prop
  | .follow f inbox => f = v.actorUrl ∨ before.followerRows me f = [⟨me, f, inbox, now⟩]
  | .unfollow f => f = v.actorUrl ∨ before.followerRows me f = []
  | .acknowledge g => g = v.actorUrl ∧ ¬ NamesOther v activity ∨
      ∀ r ∈ before.followingRows me g, r.accepted = true
  | .nothing => True

theorem SignersOnly.of_same {before after : Store}
    (hfollowers : ∀ a f, after.followerRows a f = before.followerRows a f)
    (hfollowing : ∀ a g, after.followingRows a g = before.followingRows a g) :
    SignersOnly me v activity before after where
  followersFrame a f _ := hfollowers a f
  followingFrame a g _ := hfollowing a g
  followerChange h := absurd (hfollowers _ _) h
  followingChange h := absurd (hfollowing _ _) h
  others _ := ⟨hfollowers, hfollowing⟩

theorem followerRows_of_ne {l : List FollowerRow} {a f b g : Str} (h : ¬ (b = a ∧ g = f)) :
    (l.filter fun r => ¬ (r.actorId = a ∧ r.followerId = f)).filter
        (fun r => decide (r.actorId = b ∧ r.followerId = g)) =
      l.filter fun r => r.actorId = b ∧ r.followerId = g := by
  rw [List.filter_filter]
  refine List.filter_congr fun r _ => ?_
  by_cases hr : r.actorId = b ∧ r.followerId = g
  · have hother : ¬ (r.actorId = a ∧ r.followerId = f) := by
      rintro ⟨ha, hf⟩
      exact h ⟨hr.1.symm.trans ha, hr.2.symm.trans hf⟩
    rw [decide_eq_true hr, decide_eq_true hother, Bool.and_self]
  · rw [decide_eq_false hr, Bool.false_and]

theorem followerRows_self (l : List FollowerRow) (a f : Str) :
    (l.filter fun r => ¬ (r.actorId = a ∧ r.followerId = f)).filter
      (fun r => decide (r.actorId = a ∧ r.followerId = f)) = [] := by
  rw [List.filter_filter, List.filter_eq_nil_iff]
  intro r _
  by_cases hr : r.actorId = a ∧ r.followerId = f <;> simp [hr]

/-- What an effect makes of the rows of a pair. -/
def InboxEffect.followersAt (now : Nat) (me b g : Str) (rows : List FollowerRow) :
    InboxEffect → List FollowerRow
  | .follow f inbox => if b = me ∧ g = f then [⟨me, f, inbox, now⟩] else rows
  | .unfollow f => if b = me ∧ g = f then [] else rows
  | .acknowledge _ | .nothing => rows

def InboxEffect.followingAt (me b g : Str) (rows : List FollowingRow) :
    InboxEffect → List FollowingRow
  | .acknowledge f =>
    if b = me ∧ g = f then rows.map fun r => { r with accepted := true } else rows
  | .follow _ _ | .unfollow _ | .nothing => rows

theorem followerRows_after {t : Store} {effect : InboxEffect} {now : Nat}
    (h : t.followers = effect.followers now me store.followers) (b g : Str) :
    t.followerRows b g = effect.followersAt now me b g (store.followerRows b g) := by
  rw [Store.followerRows, h]
  cases effect with
  | follow f inbox =>
      rw [InboxEffect.followers, InboxEffect.followersAt, List.filter_append]
      by_cases hpair : b = me ∧ g = f
      · obtain ⟨rfl, rfl⟩ := hpair
        simp
      · have hrow : ¬ (me = b ∧ f = g) := fun hr => hpair ⟨hr.1.symm, hr.2.symm⟩
        rw [followerRows_of_ne hpair, if_neg hpair, List.filter_cons_of_neg (by simpa using hrow),
          List.filter_nil, List.append_nil, Store.followerRows]
  | unfollow f =>
      rw [InboxEffect.followers, InboxEffect.followersAt]
      by_cases hpair : b = me ∧ g = f
      · obtain ⟨rfl, rfl⟩ := hpair
        rw [followerRows_self, if_pos ⟨rfl, rfl⟩]
      · rw [followerRows_of_ne hpair, if_neg hpair, Store.followerRows]
  | acknowledge g => rfl
  | nothing => rfl

theorem followingRows_after {t : Store} {effect : InboxEffect}
    (h : t.following = effect.following me store.following) (b g : Str) :
    t.followingRows b g = effect.followingAt me b g (store.followingRows b g) := by
  rw [Store.followingRows, h]
  cases effect with
  | follow f inbox => rfl
  | unfollow f => rfl
  | nothing => rfl
  | acknowledge f =>
      have hkeys : ∀ r : FollowingRow,
          decide ((if r.actorId = me ∧ r.targetId = f then { r with accepted := true }
            else r).actorId = b ∧ (if r.actorId = me ∧ r.targetId = f then
              { r with accepted := true } else r).targetId = g) =
            decide (r.actorId = b ∧ r.targetId = g) := by
        intro r
        split_ifs <;> rfl
      rw [InboxEffect.following, InboxEffect.followingAt, List.filter_map, Store.followingRows]
      simp only [Function.comp_def, hkeys]
      by_cases hpair : b = me ∧ g = f
      · obtain ⟨rfl, rfl⟩ := hpair
        rw [if_pos ⟨rfl, rfl⟩]
        refine List.map_congr_left fun r hr => ?_
        rw [if_pos (by simpa using (List.mem_filter.mp hr).2)]
      · rw [if_neg hpair]
        refine (List.map_congr_left fun r hr => if_neg ?_).trans (List.map_id _)
        rintro ⟨ha, hf⟩
        have hrow : r.actorId = b ∧ r.targetId = g := by simpa using (List.mem_filter.mp hr).2
        exact hpair ⟨hrow.1.symm.trans ha, hrow.2.symm.trans hf⟩

theorem effectOf_eq_follow {f : Str} {inbox : Option Str}
    (h : effectOf me v activity activityType = .follow f inbox) :
    activityType = "Follow" ∧ f = (textOf activity "actor").getD v.actorUrl := by
  rw [effectOf] at h
  split_ifs at h with htype
  cases h
  exact ⟨htype, rfl⟩

theorem effectOf_eq_unfollow {f : Str} (h : effectOf me v activity activityType = .unfollow f) :
    activityType = "Undo" ∧ innerType activity = some ("Follow" : Str) ∧
      f = (textOf activity "actor").getD v.actorUrl := by
  rw [effectOf] at h
  split_ifs at h with htype hundo
  cases h
  exact ⟨hundo.1, hundo.2, rfl⟩

theorem effectOf_eq_acknowledge {g : Str}
    (h : effectOf me v activity activityType = .acknowledge g) :
    activityType = "Accept" ∧ innerType activity = some ("Follow" : Str) := by
  rw [effectOf] at h
  split_ifs at h with htype hundo haccept
  exact haccept

theorem not_namesOther_of_getD (h : v.actorUrl = (textOf activity "actor").getD v.actorUrl) :
    ¬ NamesOther v activity := by
  rintro ⟨a, hactor, hne⟩
  rw [hactor] at h
  exact hne h.symm

/-- The effect of a new activity is kept to the signer's rows if it is the
signer's. -/
theorem signersOnly_iff_owned {t : Store} {now : Nat}
    (htype : textOf activity "type" = some activityType)
    (hfollowers : t.followers =
      (effectOf me v activity activityType).followers now me store.followers)
    (hfollowing : t.following =
      (effectOf me v activity activityType).following me store.following) :
    SignersOnly me v activity store t ↔
      (effectOf me v activity activityType).Owned now me v activity store := by
  have hrows := followerRows_after hfollowers
  have hrows' := followingRows_after hfollowing
  cases heffect : effectOf me v activity activityType with
  | nothing =>
      rw [heffect] at hrows hrows'
      exact ⟨fun _ => trivial, fun _ => .of_same hrows hrows'⟩
  | follow f inbox =>
      obtain ⟨hfollow, hf⟩ := effectOf_eq_follow heffect
      rw [heffect] at hrows hrows'
      have hself : t.followerRows me f = [⟨me, f, inbox, now⟩] :=
        (hrows me f).trans (if_pos ⟨rfl, rfl⟩)
      have hother : ∀ b g, ¬ (b = me ∧ g = f) → t.followerRows b g = store.followerRows b g :=
        fun b g hne => (hrows b g).trans (if_neg hne)
      rw [InboxEffect.Owned]
      constructor
      · intro h
        by_cases hsigner : f = v.actorUrl
        · exact Or.inl hsigner
        · right
          rw [← h.followersFrame me f (fun heq => hsigner (congrArg Prod.snd heq)), hself]
      · rintro (rfl | hsame)
        · have hnot := not_namesOther_of_getD hf
          refine ⟨fun b g hne => hother b g fun heq => hne (by rw [heq.1, heq.2]),
            fun b g _ => hrows' b g, fun _ => Or.inl ⟨by rw [htype, hfollow], ?_⟩,
            fun hne => absurd (hrows' _ _) hne, fun hnames => absurd hnames hnot⟩
          rw [hself]
          exact List.cons_ne_nil _ _
        · refine .of_same (fun b g => ?_) hrows'
          by_cases hpair : b = me ∧ g = f
          · rw [hpair.1, hpair.2, hself, hsame]
          · exact hother b g hpair
  | unfollow f =>
      obtain ⟨hundo, hinner, hf⟩ := effectOf_eq_unfollow heffect
      rw [heffect] at hrows hrows'
      have hself : t.followerRows me f = [] := (hrows me f).trans (if_pos ⟨rfl, rfl⟩)
      have hother : ∀ b g, ¬ (b = me ∧ g = f) → t.followerRows b g = store.followerRows b g :=
        fun b g hne => (hrows b g).trans (if_neg hne)
      rw [InboxEffect.Owned]
      constructor
      · intro h
        by_cases hsigner : f = v.actorUrl
        · exact Or.inl hsigner
        · right
          rw [← h.followersFrame me f (fun heq => hsigner (congrArg Prod.snd heq)), hself]
      · rintro (rfl | hsame)
        · have hnot := not_namesOther_of_getD hf
          exact ⟨fun b g hne => hother b g fun heq => hne (by rw [heq.1, heq.2]),
            fun b g _ => hrows' b g, fun _ => Or.inr ⟨by rw [htype, hundo], hinner, hself⟩,
            fun hne => absurd (hrows' _ _) hne, fun hnames => absurd hnames hnot⟩
        · refine .of_same (fun b g => ?_) hrows'
          by_cases hpair : b = me ∧ g = f
          · rw [hpair.1, hpair.2, hself, hsame]
          · exact hother b g hpair
  | acknowledge f =>
      obtain ⟨haccept, hinner⟩ := effectOf_eq_acknowledge heffect
      rw [heffect] at hrows hrows'
      have hself : t.followingRows me f =
          (store.followingRows me f).map fun r => { r with accepted := true } :=
        (hrows' me f).trans (if_pos ⟨rfl, rfl⟩)
      have hother : ∀ b g, ¬ (b = me ∧ g = f) → t.followingRows b g = store.followingRows b g :=
        fun b g hne => (hrows' b g).trans (if_neg hne)
      have hsame_iff : t.followingRows me f = store.followingRows me f ↔
          ∀ r ∈ store.followingRows me f, r.accepted = true := by
        rw [hself]
        nth_rewrite 2 [← List.map_id (store.followingRows me f)]
        rw [List.map_inj_left]
        refine forall₂_congr fun r _ => ?_
        cases r
        simp [eq_comm]
      rw [InboxEffect.Owned, ← hsame_iff]
      constructor
      · intro h
        by_cases hsigner : f = v.actorUrl
        · by_cases hnames : NamesOther v activity
          · exact Or.inr ((h.others hnames).2 me f)
          · exact Or.inl ⟨hsigner, hnames⟩
        · exact Or.inr (h.followingFrame me f fun heq => hsigner (congrArg Prod.snd heq))
      · rintro (⟨rfl, hnot⟩ | hsame)
        · exact ⟨fun b g _ => hrows b g,
            fun b g hne => hother b g fun heq => hne (by rw [heq.1, heq.2]),
            fun hne => absurd (hrows _ _) hne, fun _ => ⟨by rw [htype, haccept], hinner, hself⟩,
            fun hnames => absurd hnames hnot⟩
        · refine .of_same hrows fun b g => ?_
          by_cases hpair : b = me ∧ g = f
          · rw [hpair.1, hpair.2, hsame]
          · exact hother b g hpair

/-- A call keeps to the signer's rows exactly when the effect it carries out, if
it carries one out, is the signer's. -/
theorem signersOnly_iff (turns : Turn × Turn) (uuid me : Str) (v : VerifiedActor)
    (activity : Json) (store : Store) :
    SignersOnly me v activity store (handleInbox turns uuid me v activity store).2 ↔
      ∀ activityType, Takes turns store activity activityType →
        (effectOf me v activity activityType).Owned turns.2.now me v activity store := by
  by_cases htakes : ∃ activityType, Takes turns store activity activityType
  · obtain ⟨activityType, h⟩ := htakes
    obtain ⟨hfollowers, hfollowing⟩ := relations_of_takes uuid me v h
    rw [signersOnly_iff_owned h.hasType hfollowers hfollowing]
    constructor
    · intro howned other hother
      have heq : other = activityType := Option.some.inj (hother.hasType.symm.trans h.hasType)
      rwa [heq]
    · intro howned
      exact howned activityType h
  · rw [not_exists] at htakes
    obtain ⟨hfollowers, hfollowing⟩ := relations_of_not_takes uuid me v htakes
    refine iff_of_true (.of_same (fun a f => ?_) fun a g => ?_) fun activityType h =>
      absurd h (htakes activityType)
    · rw [Store.followerRows, hfollowers, Store.followerRows]
    · rw [Store.followingRows, hfollowing, Store.followingRows]

end Call

/-- A follow that the signer sends in someone else's name. -/
def forgedFollow : Json :=
  Json.ofMembers [("id", .string ['1']), ("type", .string "Follow"), ("actor", .string ['b'])]

theorem forgedFollow_not_signersOnly :
    ¬ ∀ (turns : Turn × Turn) (uuid me : Str) (v : VerifiedActor) (activity : Json)
      (store : Store),
      SignersOnly me v activity store (handleInbox turns uuid me v activity store).2 := by
  intro h
  have hframe :=
    (h (⟨0, none⟩, ⟨0, none⟩) [] ['m'] ⟨[], ['a'], []⟩ forgedFollow .empty).followersFrame
    ['m'] ['b'] (by decide)
  have hafter : (handleInbox (⟨0, none⟩, ⟨0, none⟩) [] ['m'] ⟨[], ['a'], []⟩ forgedFollow
      .empty).2.followerRows ['m'] ['b'] = [⟨['m'], ['b'], none, 0⟩] := by
    rfl
  rw [hafter] at hframe
  cases hframe

end ActivityPub

end SolidPod
