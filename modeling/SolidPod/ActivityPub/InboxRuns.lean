import SolidPod.ActivityPub.Inbox
import SolidPod.Foundation.Lockstep

/-!
# Duplicates

An activity is called a duplicate when its id was recorded, whoever the local
actor was and whatever became of its effect, and when it has no id. So
duplicates have taken effect if every activity has an id, if an id stands for
one activity of one local actor, and if the call that records it carries its
effect out.
-/

namespace SolidPod

open Foundation

open Ldp (getKey asStr)

namespace ActivityPub

structure InboxCall where
  turns : Turn × Turn
  uuid : Str
  localActorId : Str
  verifiedActor : VerifiedActor
  activity : Json

def receive (s : Store) (c : InboxCall) : Except InboxError InboxOutcome × Store :=
  handleInbox c.turns c.uuid c.localActorId c.verifiedActor c.activity s

/-- The call answers for an activity whose effect it has carried out. -/
def Applies (s : Store) (c : InboxCall) : Prop :=
  ∃ activityType, textOf c.activity "type" = some activityType ∧
    (receive s c).2.followers = (effectOf c.localActorId c.verifiedActor c.activity
      activityType).followers c.turns.2.now c.localActorId s.followers ∧
    (receive s c).2.following = (effectOf c.localActorId c.verifiedActor c.activity
      activityType).following c.localActorId s.following ∧
    ∃ outcome, outcome ≠ InboxOutcome.duplicate ∧ (receive s c).1 = .ok outcome

/-- Only activities that took effect for the local actor are called duplicates. -/
def ExactlyOnce (s : Store) (calls : List InboxCall) : Prop :=
  ∀ pre c post, calls = pre ++ c :: post →
    (receive (Lockstep.final receive s pre) c).1 = .ok .duplicate →
    ∃ front d back, pre = front ++ d :: back ∧ d.localActorId = c.localActorId ∧
      d.activity = c.activity ∧ Applies (Lockstep.final receive s front) d

/-- The call gets as far as a row for its activity. -/
def Records (c : InboxCall) : Prop :=
  (textOf c.activity "type").isSome ∧ Store.activityId c.activity ≠ [] ∧ c.turns.1.fault = none

instance (c : InboxCall) : Decidable (Records c) := inferInstanceAs (Decidable (_ ∧ _ ∧ _))

/-- The effect of the activity is nothing, or its statement goes through. -/
def Completes (c : InboxCall) : Prop :=
  ∀ activityType, textOf c.activity "type" = some activityType →
    effectOf c.localActorId c.verifiedActor c.activity activityType = .nothing ∨
      c.turns.2.fault = none

/-- What a run needs for its duplicates to be duplicates. -/
structure Dedupable (calls : List InboxCall) : Prop where
  hasId : ∀ c ∈ calls, (textOf c.activity "type").isSome → Store.activityId c.activity ≠ []
  agree : ∀ front d mid c back, calls = front ++ d :: mid ++ c :: back → Records d → Records c →
    Store.activityId d.activity = Store.activityId c.activity →
    (∀ e ∈ front, Records e → Store.activityId e.activity ≠ Store.activityId c.activity) →
    d.localActorId = c.localActorId ∧ d.activity = c.activity ∧ Completes d

variable {s : Store} {c : InboxCall}

/-- The inbox with the row of a call's activity. -/
def InboxCall.recordedIn (c : InboxCall) (s : Store) : List InboxRow :=
  s.inbox ++ [⟨Store.activityId c.activity, c.localActorId, c.activity, c.turns.1.now⟩]

/-- What a call can come to. -/
inductive Received (s : Store) (c : InboxCall) : Except InboxError InboxOutcome × Store → Prop
  | untyped (htype : textOf c.activity "type" = none) : Received s c (.error .missingType, s)
  | refused (htype : (textOf c.activity "type").isSome) (hnew : ¬ s.IsNew c.activity)
      (hfault : Store.activityId c.activity = [] ∨ c.turns.1.fault = none) :
      Received s c (.ok .duplicate, s)
  | failed {e : SqlxError} (hid : Store.activityId c.activity ≠ [])
      (hfault : c.turns.1.fault = some e) : Received s c (.error (.storage e), s)
  | applied {activityType : Str} {outcome : InboxOutcome} {t : Store} (hrec : Records c)
      (hnew : s.IsNew c.activity) (hcompletes : Completes c)
      (htype : textOf c.activity "type" = some activityType) (hne : outcome ≠ .duplicate)
      (hfollowers : t.followers = (effectOf c.localActorId c.verifiedActor c.activity
        activityType).followers c.turns.2.now c.localActorId s.followers)
      (hfollowing : t.following = (effectOf c.localActorId c.verifiedActor c.activity
        activityType).following c.localActorId s.following)
      (hinbox : t.inbox = c.recordedIn s) : Received s c (.ok outcome, t)
  | brokenOff {e : SqlxError} {t : Store} (hrec : Records c) (hnew : s.IsNew c.activity)
      (hnot : ¬ Completes c) (hinbox : t.inbox = c.recordedIn s) :
      Received s c (.error (.storage e), t)

theorem completes_iff {activityType : Str} (htype : textOf c.activity "type" = some activityType) :
    Completes c ↔ effectOf c.localActorId c.verifiedActor c.activity activityType = .nothing ∨
      c.turns.2.fault = none := by
  constructor
  · intro h
    exact h activityType htype
  · intro h other hother
    obtain rfl : activityType = other := Option.some.inj (htype.symm.trans hother)
    exact h

theorem received_receive (s : Store) (c : InboxCall) : Received s c (receive s c) := by
  cases htype : textOf c.activity "type" with
  | none =>
      rw [receive, handleInbox, htype]
      exact .untyped htype
  | some activityType =>
      have hsome : (textOf c.activity "type").isSome := by
        rw [htype]
        rfl
      have hrecorded := Store.recorded_recordInbox c.turns.1 c.localActorId c.activity s
      generalize hresult : s.recordInbox c.turns.1 c.localActorId c.activity = result at hrecorded
      cases hrecorded with
      | refused hnew hfault =>
          rw [receive, handleInbox, htype]
          simp only [hresult]
          exact .refused hsome hnew hfault
      | failed hid hfault =>
          rw [receive, handleInbox, htype]
          simp only [hresult]
          exact .failed hid hfault
      | added hnew hfault =>
          obtain ⟨outcome, hne, heq⟩ :=
            handleInbox_of_recorded c.turns c.uuid c.verifiedActor htype hresult
          have hrec : Records c := ⟨hsome, hnew.1, hfault⟩
          rw [receive, heq]
          cases hfault' : c.turns.2.fault with
          | none =>
              obtain ⟨t, hexecute, hfollowers, hfollowing, hinbox⟩ :=
                InboxEffect.execute_of_no_fault hfault' c.localActorId _
                  (effectOf c.localActorId c.verifiedActor c.activity activityType)
              rw [hexecute]
              exact .applied hrec hnew ((completes_iff htype).mpr (Or.inr hfault')) htype hne
                hfollowers hfollowing hinbox
          | some e =>
              by_cases hnothing : effectOf c.localActorId c.verifiedActor c.activity activityType =
                  .nothing
              · have hcompletes := (completes_iff htype).mpr (Or.inl hnothing)
                rw [hnothing, InboxEffect.execute]
                refine .applied hrec hnew hcompletes htype hne ?_ ?_ rfl
                · rw [hnothing, InboxEffect.followers]
                · rw [hnothing, InboxEffect.following]
              · rw [InboxEffect.execute_of_fault hfault' _ _ hnothing]
                refine .brokenOff hrec hnew ?_ rfl
                rw [completes_iff htype, hfault']
                exact not_or.mpr ⟨hnothing, Option.some_ne_none e⟩

theorem answer_eq_duplicate_iff : (receive s c).1 = .ok .duplicate ↔
    (textOf c.activity "type").isSome ∧ ¬ s.IsNew c.activity ∧
      (Store.activityId c.activity = [] ∨ c.turns.1.fault = none) := by
  have hreceived := received_receive s c
  generalize receive s c = result at hreceived
  cases hreceived with
  | untyped htype =>
      rw [htype]
      exact iff_of_false (fun h => nomatch h) fun h => nomatch h.1
  | refused htype hnew hfault => exact iff_of_true rfl ⟨htype, hnew, hfault⟩
  | failed hid hfault =>
      refine iff_of_false (fun h => nomatch h) ?_
      rintro ⟨-, -, h | h⟩
      · exact hid h
      · rw [hfault] at h
        cases h
  | applied hrec hnew _ _ hne =>
      exact iff_of_false (fun h => hne (Except.ok.inj h)) fun h => h.2.1 hnew
  | brokenOff hrec hnew => exact iff_of_false (fun h => nomatch h) fun h => h.2.1 hnew

theorem applies_iff : Applies s c ↔ Records c ∧ s.IsNew c.activity ∧ Completes c := by
  rw [Applies]
  have hreceived := received_receive s c
  generalize receive s c = result at hreceived
  constructor
  · rintro ⟨activityType, htype, -, -, outcome, hne, hok⟩
    cases hreceived with
    | refused => exact absurd (Except.ok.inj hok).symm hne
    | applied hrec hnew hcompletes => exact ⟨hrec, hnew, hcompletes⟩
    | untyped | failed | brokenOff => cases hok
  · rintro ⟨hrec, hnew, hcompletes⟩
    cases hreceived with
    | untyped htype =>
        have hsome := hrec.1
        rw [htype] at hsome
        cases hsome
    | refused htype hnot => exact absurd hnew hnot
    | failed hid hfault => exact absurd hrec.2.2 (by rw [hfault]; exact Option.some_ne_none _)
    | applied _ _ _ htype hne hfollowers hfollowing =>
        exact ⟨_, htype, hfollowers, hfollowing, _, hne, rfl⟩
    | brokenOff _ _ hnot => exact absurd hcompletes hnot

/-- The inbox has a row with the id. -/
def Store.HasReceived (s : Store) (id : Str) : Prop := ∃ r ∈ s.inbox, r.id = id

theorem isNew_iff : s.IsNew c.activity ↔ Store.activityId c.activity ≠ [] ∧
    ¬ s.HasReceived (Store.activityId c.activity) := by
  simp [Store.IsNew, Store.HasReceived]

/-- The ids of the inbox after a call. -/
theorem hasReceived_receive_iff (s : Store) (c : InboxCall) (id : Str) :
    (receive s c).2.HasReceived id ↔
      s.HasReceived id ∨ Records c ∧ Store.activityId c.activity = id := by
  have hadded : ∀ t : Store, t.inbox = c.recordedIn s →
      (t.HasReceived id ↔ s.HasReceived id ∨ Store.activityId c.activity = id) := by
    intro t ht
    simp [Store.HasReceived, ht, InboxCall.recordedIn, or_and_right, exists_or]
  have hreceived := received_receive s c
  generalize receive s c = result at hreceived
  cases hreceived with
  | untyped htype =>
      refine (or_iff_left ?_).symm
      rintro ⟨⟨hsome, -⟩, -⟩
      rw [htype] at hsome
      cases hsome
  | refused _ hnew =>
      refine (or_iff_left_of_imp ?_).symm
      rintro ⟨hrec, rfl⟩
      by_contra hnone
      exact hnew (isNew_iff.mpr ⟨hrec.2.1, hnone⟩)
  | failed hid hfault =>
      refine (or_iff_left ?_).symm
      rintro ⟨⟨-, -, hnone⟩, -⟩
      rw [hfault] at hnone
      cases hnone
  | applied hrec _ _ _ _ _ _ hinbox => rw [hadded _ hinbox, and_iff_right hrec]
  | brokenOff hrec _ _ hinbox => rw [hadded _ hinbox, and_iff_right hrec]

theorem hasReceived_final_iff (calls : List InboxCall) (id : Str) :
    (Lockstep.final receive s calls).HasReceived id ↔
      s.HasReceived id ∨ ∃ e ∈ calls, Records e ∧ Store.activityId e.activity = id := by
  induction calls generalizing s with
  | nil => simp
  | cons c calls ih =>
      rw [Lockstep.final_cons, ih, hasReceived_receive_iff]
      simp [or_assoc]

/-! ## The call that records an id first -/

/-- The call gets as far as a row with the id. -/
def RecordsId (id : Str) (c : InboxCall) : Bool :=
  decide (Records c ∧ Store.activityId c.activity = id)

theorem isNew_final_iff (hs : s.inbox = []) (hrec : Records c) (pre : List InboxCall) :
    (Lockstep.final receive s pre).IsNew c.activity ↔
      ∀ e ∈ pre, ¬ RecordsId (Store.activityId c.activity) e := by
  rw [isNew_iff, hasReceived_final_iff, and_iff_right hrec.2.1]
  simp [Store.HasReceived, hs, RecordsId]

/-- The first call of a run that records an id. -/
theorem find?_recordsId_iff {id : Str} {calls : List InboxCall} {d : InboxCall} :
    calls.find? (RecordsId id) = some d ↔ (Records d ∧ Store.activityId d.activity = id) ∧
      ∃ front back, calls = front ++ d :: back ∧ ∀ e ∈ front, ¬ RecordsId id e := by
  rw [List.find?_eq_some_iff_append]
  simp [RecordsId, imp_iff_not_or]

theorem Dedupable.of_exactlyOnce {calls : List InboxCall} (hs : s.inbox = [])
    (h : ExactlyOnce s calls) : Dedupable calls where
  hasId c hc htype := by
    intro hid
    obtain ⟨pre, post, rfl⟩ := List.mem_iff_append.mp hc
    have hdup : (receive (Lockstep.final receive s pre) c).1 = .ok .duplicate :=
      answer_eq_duplicate_iff.mpr ⟨htype, fun hnew => hnew.1 hid, Or.inl hid⟩
    obtain ⟨front, d, back, -, -, hactivity, happlies⟩ := h pre c post rfl hdup
    have hrec := (applies_iff.mp happlies).1
    rw [Records, hactivity] at hrec
    exact hrec.2.1 hid
  agree front d mid c back heq hd hc hid hfront := by
    have hfirst : (front ++ d :: mid).find? (RecordsId (Store.activityId c.activity)) = some d :=
      find?_recordsId_iff.mpr ⟨⟨hd, hid⟩, front, mid, rfl, fun e he => by
        rw [RecordsId, decide_eq_true_iff]
        exact fun hrec => hfront e he hrec.1 hrec.2⟩
    have hseen : ¬ (Lockstep.final receive s (front ++ d :: mid)).IsNew c.activity := by
      rw [isNew_final_iff hs hc]
      intro hnone
      exact hnone d (by simp) (decide_eq_true ⟨hd, hid⟩)
    obtain ⟨front', d', back', hsplit, hactor, hactivity, happlies⟩ :=
      h (front ++ d :: mid) c back heq (answer_eq_duplicate_iff.mpr ⟨hc.1, hseen, Or.inr hc.2.2⟩)
    obtain ⟨hd', hnew, hcompletes⟩ := applies_iff.mp happlies
    rw [isNew_final_iff hs hd', hactivity] at hnew
    have hfirst' : (front ++ d :: mid).find? (RecordsId (Store.activityId c.activity)) = some d' :=
      find?_recordsId_iff.mpr ⟨⟨hd', by rw [hactivity]⟩, front', back', hsplit, hnew⟩
    obtain rfl : d = d' := Option.some.inj (hfirst.symm.trans hfirst')
    exact ⟨hactor, hactivity, hcompletes⟩

theorem Dedupable.exactlyOnce {calls : List InboxCall} (hs : s.inbox = []) (h : Dedupable calls) :
    ExactlyOnce s calls := by
  intro pre c post heq hdup
  obtain ⟨htype, hseen, hfault⟩ := answer_eq_duplicate_iff.mp hdup
  have hid : Store.activityId c.activity ≠ [] := h.hasId c (by simp [heq]) htype
  have hc : Records c := ⟨htype, hid, hfault.resolve_left hid⟩
  rw [isNew_final_iff hs hc, not_forall] at hseen
  obtain ⟨e, he⟩ := hseen
  obtain ⟨hmem, hrecords⟩ := Classical.not_imp.mp he
  obtain ⟨d, hfind⟩ := Option.isSome_iff_exists.mp
    (List.find?_isSome.mpr ⟨e, hmem, not_not.mp hrecords⟩)
  obtain ⟨⟨hd, hsame⟩, front, back, rfl, hfront⟩ := find?_recordsId_iff.mp hfind
  have hagree := h.agree front d back c post heq hd hc hsame fun e he hrec hid' =>
    hfront e he (decide_eq_true ⟨hrec, hid'⟩)
  refine ⟨front, d, back, rfl, hagree.1, hagree.2.1, ?_⟩
  rw [applies_iff, isNew_final_iff hs hd, hsame]
  exact ⟨hd, hfront, hagree.2.2⟩

/-- A follow as it arrives for a local actor. -/
def followFor (localActorId : Str) : InboxCall :=
  ⟨(⟨0, none⟩, ⟨0, none⟩), [], localActorId, ⟨[], ['a'], []⟩, Json.ofMembers
    [("id", .string ['1']), ("type", .string "Follow")]⟩

end ActivityPub

end SolidPod
