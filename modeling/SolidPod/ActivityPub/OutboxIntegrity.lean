import Mathlib.Data.List.Count
import SolidPod.ActivityPub.Outbox
import SolidPod.Foundation.Lockstep

/-!
# The integrity of the outbox

What the actors of a store have posted is a journal, and the outbox and the
delivery queue are its image: a row for each posting, under an id of its own and
with an activity of its actor, and a queued delivery for each inbox that the
posting goes to. A submission that is refused leaves no trace. The handler keeps
to this as long as a body names no other actor and no id in use, and no
statement fails once the activity is recorded.
-/

namespace SolidPod

open Foundation

open Ldp (getKey asStr)

namespace ActivityPub

/-- An activity that was accepted, and the followers at that time. -/
structure Posting where
  actorId : Str
  id : Str
  activity : Json
  followers : List FollowerRow

/-- The posting goes to the inbox: that of its target for a `Follow`, else that of a follower
of its actor. -/
def Posting.GoesTo (p : Posting) (inbox : Str) : Prop :=
  (textOf p.activity "type" = some "Follow".toList ∧ textOf p.activity "targetInbox" = some inbox) ∨
    (textOf p.activity "type" ≠ some "Follow".toList ∧
      ∃ r ∈ p.followers, r.actorId = p.actorId ∧ r.inbox = some inbox)

/-- The activity and the inbox of each queued delivery. -/
def Store.queued (s : Store) : List (Str × Str) :=
  s.deliveryQueue.rows.map fun r => (r.2.activityId, r.2.inboxUrl)

/-- Outbox and queue are those of the journal. -/
structure Intact (serde : SerdeJson) (journal : List Posting) (s : Store) : Prop where
  rows : s.outbox.map (fun r => (r.id, r.actorId, r.activity)) =
    journal.map fun p => (p.id, p.actorId, serde.toString p.activity)
  ids : (journal.map Posting.id).Nodup
  named : ∀ p ∈ journal, textOf p.activity "actor" = some p.actorId ∧
    textOf p.activity "id" = some p.id
  once : ∀ p ∈ journal, ∀ inbox, p.GoesTo inbox → s.queued.count (p.id, inbox) = 1
  only : ∀ q ∈ s.queued, ∃ p ∈ journal, q.1 = p.id ∧ p.GoesTo q.2

section Runs

variable (serde : SerdeJson) (s : Store)

/-- The posting that an accepted submission adds to the journal. -/
def posting (c : Submission) : List Posting :=
  match (handleOutboxPost serde s c).1 with
  | .ok d => [⟨c.actorId, d.activityId, d.activity, s.followers⟩]
  | .error _ => []

/-- The postings of a run. -/
def postings : Store → List Submission → List Posting
  | _, [] => []
  | s, c :: cs => posting serde s c ++ postings (handleOutboxPost serde s c).2 cs

/-- The store after a run. -/
def storeAfter (cs : List Submission) : Store := Lockstep.final (handleOutboxPost serde) s cs

/-- In every state of a run the outbox and the queue are those of the journal. No row that
was there is gone or changed, and a submission that is refused has changed nothing. -/
structure OutboxIntegrity (journal : List Posting) (cs : List Submission) : Prop where
  intact : ∀ pre post, cs = pre ++ post →
    Intact serde (journal ++ postings serde s pre) (storeAfter serde s pre)
  kept : ∀ pre c post, cs = pre ++ c :: post →
    (storeAfter serde s pre).outbox <+: (storeAfter serde s (pre ++ [c])).outbox
  refused : ∀ pre c post e, cs = pre ++ c :: post →
    (handleOutboxPost serde (storeAfter serde s pre) c).1 = .error e →
      (storeAfter serde s (pre ++ [c])).outbox = (storeAfter serde s pre).outbox ∧
        (storeAfter serde s (pre ++ [c])).deliveryQueue = (storeAfter serde s pre).deliveryQueue

end Runs

namespace Submission

variable (c : Submission)

/-- The body is taken as the activity that it is. -/
def Passes : Prop := (textOf c.body "type").getD [] ∈ activityTypes

instance : Decidable c.Passes := inferInstanceAs (Decidable (_ ∈ _))

/-- The id of the client, where it may name one and does, else a fresh one. -/
def newId : Str :=
  if c.Passes then
    if lacksText c.body "id" then c.base ++ "/activities/" ++ c.stampUuid
    else (textOf c.body "id").getD []
  else c.base ++ "/activities/" ++ c.activityUuid

/-- The row of the submission, if it is the activity that is posted. -/
def row (serde : SerdeJson) (activity : Json) : OutboxRow :=
  ⟨c.newId, c.actorId, serde.toString activity, c.record.now, "pending"⟩

/-- How many inboxes the submission goes to. -/
def fanOutSize (s : Store) : ℕ :=
  if textOf c.body "type" = some "Follow".toList then (textOf c.body "targetInbox").toList.length
  else (distinctInboxes c.actorId s.followers).length

end Submission

/-- A submission that gets as far as a row: it names no other actor and no id in use, and
its later statements go through. -/
structure Careful (s : Store) (c : Submission) : Prop where
  ownActor : c.Passes → ∀ name, textOf c.body "actor" = some name → name = c.actorId
  newId : ∀ r ∈ s.outbox, r.id ≠ c.newId
  fanOut : textOf c.body "type" ≠ some "Follow".toList → c.fanOut.fault = none
  enqueue : ∀ i < c.fanOutSize s, (c.enqueue i).fault = none

/-- Every submission of the run is careful, or it is refused without a row. -/
def CarefulRun (serde : SerdeJson) (s : Store) (cs : List Submission) : Prop :=
  ∀ pre c post, cs = pre ++ c :: post →
    (∀ activity, c.toActivity = .ok activity → c.record.fault = none →
      Careful (storeAfter serde s pre) c)

section Activities

variable {c : Submission} {activity : Json}

theorem toActivity_eq_ok (h : c.toActivity = .ok activity) :
    (c.Passes ∧ activity = c.body) ∨
      (¬ c.Passes ∧ ∃ note, activity = c.wrapNoteInCreate note) := by
  unfold Submission.toActivity at h
  dsimp only at h
  split at h
  · rename_i hpass
    cases h
    exact Or.inl ⟨hpass, rfl⟩
  · rename_i hpass
    split at h
    · cases h
      exact Or.inr ⟨hpass, _, rfl⟩
    · split at h
      · cases h
        exact Or.inr ⟨hpass, _, rfl⟩
      · cases h

theorem isObject_wrapNoteInCreate (note : Json) : IsObject (c.wrapNoteInCreate note) := ⟨_, rfl⟩

theorem textOf_wrapNoteInCreate (note : Json) :
    textOf (c.wrapNoteInCreate note) "type" = some "Create".toList ∧
      textOf (c.wrapNoteInCreate note) "id" = some (c.base ++ "/activities/" ++ c.activityUuid) ∧
      textOf (c.wrapNoteInCreate note) "actor" = some c.actorId :=
  ⟨rfl, rfl, rfl⟩

theorem isObject_toActivity (h : c.toActivity = .ok activity) : IsObject activity := by
  obtain ⟨hpass, rfl⟩ | ⟨-, note, rfl⟩ := toActivity_eq_ok h
  · cases htype : textOf c.body "type" with
    | some t => exact isObject_of_textOf htype
    | none =>
        rw [Submission.Passes, htype] at hpass
        exact absurd hpass (by decide)
  · exact isObject_wrapNoteInCreate note

/-- The type of the activity is that of the body, or it is a `Create`. -/
theorem exists_type (h : c.toActivity = .ok activity) :
    ∃ t, textOf activity "type" = some t ∧
      (t = "Follow".toList ↔ textOf c.body "type" = some "Follow".toList) := by
  obtain ⟨hpass, rfl⟩ | ⟨hpass, note, rfl⟩ := toActivity_eq_ok h
  · cases htype : textOf c.body "type" with
    | some t => exact ⟨t, rfl, by rw [Option.some.injEq]⟩
    | none =>
        rw [Submission.Passes, htype] at hpass
        exact absurd hpass (by decide)
  · refine ⟨_, (textOf_wrapNoteInCreate note).1, ?_⟩
    constructor
    · intro heq
      exact absurd heq (by decide)
    · intro hfollow
      rw [Submission.Passes, hfollow] at hpass
      exact absurd (by decide) hpass

theorem targetInbox_of_follow (h : c.toActivity = .ok activity)
    (hfollow : textOf c.body "type" = some "Follow".toList) :
    textOf (c.stampActor (c.stampId activity)) "targetInbox" = textOf c.body "targetInbox" := by
  have hobj := isObject_toActivity h
  rw [textOf_stampActor (isObject_stampId hobj) (by decide), textOf_stampId hobj (by decide)]
  obtain ⟨-, rfl⟩ | ⟨hpass, -⟩ := toActivity_eq_ok h
  · rfl
  · rw [Submission.Passes, hfollow] at hpass
    exact absurd (by decide) hpass

theorem type_stamped (h : c.toActivity = .ok activity) :
    textOf (c.stampActor (c.stampId activity)) "type" = textOf activity "type" := by
  have hobj := isObject_toActivity h
  rw [textOf_stampActor (isObject_stampId hobj) (by decide), textOf_stampId hobj (by decide)]

theorem id_stamped (h : c.toActivity = .ok activity) :
    textOf (c.stampActor (c.stampId activity)) "id" = some c.newId := by
  have hobj := isObject_toActivity h
  rw [textOf_stampActor (isObject_stampId hobj) (by decide), Submission.stampId, Submission.newId]
  obtain ⟨hpass, rfl⟩ | ⟨hpass, note, rfl⟩ := toActivity_eq_ok h
  · rw [if_pos hpass]
    by_cases hlacks : lacksText c.body "id" = true
    · rw [if_pos hlacks, if_pos hlacks, textOf_setKey hobj, if_pos rfl]
    · rw [if_neg hlacks, if_neg hlacks]
      cases hid : textOf c.body "id" with
      | some id => rfl
      | none =>
          rw [lacksText, hid] at hlacks
          exact absurd rfl hlacks
  · rw [if_neg hpass]
    have hlacks : lacksText (c.wrapNoteInCreate note) "id" = false := by
      rw [lacksText, (textOf_wrapNoteInCreate note).2.1, Option.getD_some,
        List.isEmpty_eq_false_iff]
      simp
    rw [hlacks]
    exact (textOf_wrapNoteInCreate note).2.1

/-- The activity is the actor's own unless the body names another one. -/
theorem actor_stamped (h : c.toActivity = .ok activity)
    (hown : c.Passes → ∀ name, textOf c.body "actor" = some name → name = c.actorId) :
    textOf (c.stampActor (c.stampId activity)) "actor" = some c.actorId := by
  have hobj := isObject_toActivity h
  rw [Submission.stampActor]
  split
  · rw [textOf_setKey (isObject_stampId hobj), if_pos rfl]
  · rename_i hsome
    rw [textOf_stampId hobj (by decide)] at hsome ⊢
    obtain ⟨hpass, rfl⟩ | ⟨-, note, rfl⟩ := toActivity_eq_ok h
    · cases hactor : textOf c.body "actor" with
      | some name => rw [hown hpass name hactor]
      | none =>
          rw [hactor] at hsome
          exact absurd rfl hsome
    · exact (textOf_wrapNoteInCreate note).2.2

end Activities

section Statements

variable {serde : SerdeJson} {s : Store} {c : Submission} {activity : Json}

/-- Deliveries that are all queued come behind those that are there. -/
theorem enqueueAll_of_no_fault {turns : ℕ → Turn} (id : Str) {inboxes : List Str} (i : ℕ)
    (h : ∀ j < inboxes.length, (turns (i + j)).fault = none) (s : Store) :
    ∃ q, enqueueAll turns id i inboxes s = (.ok (), { s with deliveryQueue := q }) ∧
      ({ s with deliveryQueue := q } : Store).queued = s.queued ++ inboxes.map (id, ·) := by
  induction inboxes generalizing i s with
  | nil => exact ⟨s.deliveryQueue, rfl, (List.append_nil _).symm⟩
  | cons inbox rest ih =>
      have hfirst : (turns i).fault = none := h 0 (Nat.succ_pos _)
      have hrest : ∀ j < rest.length, (turns (i + 1 + j)).fault = none := by
        intro j hj
        rw [Nat.add_assoc, Nat.add_comm 1 j]
        exact h (j + 1) (Nat.succ_lt_succ hj)
      obtain ⟨q, hq, hqueued⟩ := ih (i + 1) hrest { s with
        deliveryQueue := s.deliveryQueue.push ⟨id, inbox, 0, (turns i).now, none⟩ }
      refine ⟨q, ?_, ?_⟩
      · rw [enqueueAll, Store.enqueueDelivery, Turn.execute_of_no_fault hfirst]
        exact hq
      · have hpush : ({ s with deliveryQueue :=
            s.deliveryQueue.push ⟨id, inbox, 0, (turns i).now, none⟩ } : Store).queued =
            s.queued ++ [(id, inbox)] := by
          simp only [Store.queued, SerialTable.push, List.map_append, List.map_cons, List.map_nil]
        rw [hpush, List.append_assoc] at hqueued
        exact hqueued

/-- An activity goes to each of its inboxes once. -/
theorem targetInboxes_of_careful (h : c.toActivity = .ok activity) {t : Str}
    (ht : textOf activity "type" = some t)
    (hfan : textOf c.body "type" ≠ some "Follow".toList → c.fanOut.fault = none) (s : Store) :
    ∃ inboxes, c.targetInboxes t (c.stampActor (c.stampId activity)) s = (.ok inboxes, s) ∧
      inboxes.length = c.fanOutSize s ∧ inboxes.Nodup ∧
      ∀ id inbox, inbox ∈ inboxes ↔
        (Posting.mk c.actorId id (c.stampActor (c.stampId activity)) s.followers).GoesTo inbox := by
  obtain ⟨t', ht', hfollow⟩ := exists_type h
  cases ht.symm.trans ht'
  have htype := (type_stamped h).trans ht
  by_cases hbody : textOf c.body "type" = some "Follow".toList
  · have hinbox := targetInbox_of_follow h hbody
    refine ⟨(textOf c.body "targetInbox").toList, ?_, ?_, ?_, ?_⟩
    · rw [Submission.targetInboxes, if_pos (hfollow.mpr hbody), hinbox]
    · rw [Submission.fanOutSize, if_pos hbody]
    · cases textOf c.body "targetInbox" with
      | none => exact List.nodup_nil
      | some _ => exact List.nodup_singleton _
    · intro id inbox
      rw [Posting.GoesTo, htype, hfollow.mpr hbody, hinbox, Option.mem_toList]
      simp
  · have hne : t ≠ "Follow".toList := fun heq => hbody (hfollow.mp heq)
    refine ⟨distinctInboxes c.actorId s.followers, ?_, ?_, List.nodup_dedup _, ?_⟩
    · rw [Submission.targetInboxes, if_neg hne, Store.followerInboxes,
        Turn.execute_of_no_fault (hfan hbody)]
    · rw [Submission.fanOutSize, if_neg hbody]
    · intro id inbox
      have hnot : some t ≠ some "Follow".toList := fun heq => hne (Option.some.inj heq)
      rw [Posting.GoesTo, htype, or_iff_right (fun hand => hnot hand.1), and_iff_right hnot,
        distinctInboxes, List.mem_dedup, List.mem_filterMap]
      simp [List.mem_filter, and_assoc]

/-- An activity under an id that is not in use is recorded behind the others. -/
theorem recordOutbox_of_fresh (hfault : c.record.fault = none)
    (hid : textOf activity "id" = some c.newId) (hfresh : ∀ r ∈ s.outbox, r.id ≠ c.newId) :
    s.recordOutbox serde c.record c.rowUuid c.actorId activity =
      (.ok c.newId, { s with outbox := s.outbox ++ [c.row serde activity] }) := by
  have hkey : (getKey activity "id").bind asStr = some c.newId := hid
  have hkept : s.outbox.filter (fun r => r.id ≠ c.newId) = s.outbox :=
    List.filter_eq_self.mpr fun r hr => decide_eq_true (hfresh r hr)
  rw [Store.recordOutbox, Turn.execute_of_no_fault hfault, hkey, Option.getD_some, hkept]
  rfl

/-- A careful submission is refused without a trace, or it adds one row and a delivery for
each inbox. -/
theorem handleOutboxPost_of_careful (serde : SerdeJson) {s : Store} {c : Submission}
    (hcareful : ∀ activity, c.toActivity = .ok activity → c.record.fault = none → Careful s c) :
    (∃ e, handleOutboxPost serde s c = (.error e, s)) ∨
      ∃ (activity : Json) (inboxes : List Str) (q : SerialTable QueueRow),
        handleOutboxPost serde s c = (.ok ⟨c.newId, inboxes.length, activity⟩,
          { s with outbox := s.outbox ++ [c.row serde activity], deliveryQueue := q }) ∧
        (∀ r ∈ s.outbox, r.id ≠ c.newId) ∧
        textOf activity "actor" = some c.actorId ∧ textOf activity "id" = some c.newId ∧
        inboxes.Nodup ∧
        (∀ inbox, inbox ∈ inboxes ↔
          (Posting.mk c.actorId c.newId activity s.followers).GoesTo inbox) ∧
        ({ s with deliveryQueue := q } : Store).queued =
          s.queued ++ inboxes.map (c.newId, ·) := by
  cases hactivity : c.toActivity with
  | error e =>
      refine Or.inl ⟨e, ?_⟩
      rw [handleOutboxPost, hactivity]
  | ok activity =>
      obtain ⟨t, ht, -⟩ := exists_type hactivity
      have hid := id_stamped hactivity
      cases hfault : c.record.fault with
      | some e =>
          refine Or.inl ⟨.storage e, ?_⟩
          rw [handleOutboxPost, hactivity]
          simp only [handleOutbox, ht, Store.recordOutbox, Turn.execute_of_fault hfault]
      | none =>
          have hc := hcareful activity hactivity hfault
          obtain ⟨inboxes, htarget, hlength, hnodup, hgoes⟩ :=
            targetInboxes_of_careful hactivity ht hc.fanOut { s with
              outbox := s.outbox ++ [c.row serde (c.stampActor (c.stampId activity))] }
          have hturns : ∀ j < inboxes.length, (c.enqueue (0 + j)).fault = none := by
            intro j hj
            rw [Nat.zero_add]
            exact hc.enqueue j (hlength ▸ hj)
          obtain ⟨q, hq, hqueued⟩ := enqueueAll_of_no_fault c.newId 0 hturns { s with
              outbox := s.outbox ++ [c.row serde (c.stampActor (c.stampId activity))] }
          refine Or.inr ⟨_, inboxes, q, ?_, hc.newId, actor_stamped hactivity hc.ownActor, hid,
            hnodup, hgoes c.newId, hqueued⟩
          rw [handleOutboxPost, hactivity]
          simp only [handleOutbox, ht, recordOutbox_of_fresh hfault hid hc.newId, htarget, hq]

end Statements

section Journals

variable {serde : SerdeJson} {journal : List Posting} {s : Store} {c : Submission}

/-- The ids of the rows are those of the journal. -/
theorem Intact.mem_ids_iff (h : Intact serde journal s) {id : Str} :
    (∃ r ∈ s.outbox, r.id = id) ↔ ∃ p ∈ journal, p.id = id := by
  have hids : s.outbox.map OutboxRow.id = journal.map Posting.id := by
    have hfst := congrArg (List.map Prod.fst) h.rows
    simpa only [List.map_map, Function.comp_def] using hfst
  rw [← List.mem_map, ← List.mem_map, hids]

/-- No delivery is queued for an id that is not in use. -/
theorem Intact.count_fresh (h : Intact serde journal s) {id : Str}
    (hfresh : ∀ p ∈ journal, p.id ≠ id) (inbox : Str) : s.queued.count (id, inbox) = 0 := by
  rw [List.count_eq_zero]
  intro hmem
  obtain ⟨p, hp, heq, -⟩ := h.only _ hmem
  exact hfresh p hp heq.symm

/-- The journal grows by a posting under a new id, and outbox and queue with it. -/
theorem Intact.push (h : Intact serde journal s) {p : Posting} {row : OutboxRow}
    {inboxes : List Str} {q : SerialTable QueueRow}
    (hrow : (row.id, row.actorId, row.activity) = (p.id, p.actorId, serde.toString p.activity))
    (hfresh : ∀ r ∈ s.outbox, r.id ≠ p.id)
    (hactor : textOf p.activity "actor" = some p.actorId)
    (hid : textOf p.activity "id" = some p.id) (hnodup : inboxes.Nodup)
    (hgoes : ∀ inbox, inbox ∈ inboxes ↔ p.GoesTo inbox)
    (hqueued : ({ s with deliveryQueue := q } : Store).queued =
      s.queued ++ inboxes.map (p.id, ·)) :
    Intact serde (journal ++ [p]) { s with outbox := s.outbox ++ [row], deliveryQueue := q } := by
  have hnew : ∀ p' ∈ journal, p'.id ≠ p.id := by
    intro p' hp' heq
    obtain ⟨r, hr, hrid⟩ := h.mem_ids_iff.mpr ⟨p', hp', heq⟩
    exact hfresh r hr hrid
  have hcount : ∀ id inbox, ({ s with outbox := s.outbox ++ [row], deliveryQueue := q } :
      Store).queued.count (id, inbox) =
        s.queued.count (id, inbox) + (inboxes.map (p.id, ·)).count (id, inbox) := by
    intro id inbox
    have hsame : ({ s with outbox := s.outbox ++ [row], deliveryQueue := q } : Store).queued =
        s.queued ++ inboxes.map (p.id, ·) := hqueued
    rw [hsame, List.count_append]
  constructor
  · rw [List.map_append, List.map_append, h.rows, List.map_singleton, List.map_singleton, hrow]
  · rw [List.map_append, List.map_singleton, List.nodup_append]
    refine ⟨h.ids, List.nodup_singleton _, ?_⟩
    intro id hmem id' hid'
    obtain ⟨p', hp', rfl⟩ := List.mem_map.mp hmem
    rw [List.mem_singleton.mp hid']
    exact hnew p' hp'
  · intro p' hp'
    cases List.mem_append.mp hp' with
    | inl hp' => exact h.named p' hp'
    | inr hp' =>
        rw [List.mem_singleton.mp hp']
        exact ⟨hactor, hid⟩
  · intro p' hp' inbox hinbox
    rw [hcount]
    cases List.mem_append.mp hp' with
    | inl hp' =>
        have hzero : (inboxes.map (p.id, ·)).count (p'.id, inbox) = 0 := by
          rw [List.count_eq_zero]
          intro hmem
          obtain ⟨_, -, heq⟩ := List.mem_map.mp hmem
          exact hnew p' hp' (Prod.mk.inj heq).1.symm
        rw [hzero, h.once p' hp' inbox hinbox]
    | inr hp' =>
        rw [List.mem_singleton.mp hp'] at hinbox ⊢
        rw [h.count_fresh hnew, Nat.zero_add,
          List.count_map_of_injective inboxes _ fun _ _ heq => (Prod.mk.inj heq).2]
        exact List.count_eq_one_of_mem hnodup ((hgoes inbox).mpr hinbox)
  · intro d hd
    have hmem : d ∈ s.queued ++ inboxes.map (p.id, ·) := hqueued ▸ hd
    cases List.mem_append.mp hmem with
    | inl hd =>
        obtain ⟨p', hp', hp''⟩ := h.only d hd
        exact ⟨p', List.mem_append_left _ hp', hp''⟩
    | inr hd =>
        obtain ⟨inbox, hinbox, rfl⟩ := List.mem_map.mp hd
        exact ⟨p, List.mem_append_right _ (List.mem_singleton_self p), rfl,
          (hgoes inbox).mp hinbox⟩

/-- A careful submission keeps the outbox and the queue those of the journal. -/
theorem Intact.submit (h : Intact serde journal s)
    (hcareful : ∀ activity, c.toActivity = .ok activity → c.record.fault = none → Careful s c) :
    Intact serde (journal ++ posting serde s c) (handleOutboxPost serde s c).2 := by
  obtain ⟨e, he⟩ | ⟨activity, inboxes, q, hok, hfresh, hactor, hid, hnodup, hgoes, hqueued⟩ :=
    handleOutboxPost_of_careful serde hcareful
  · rw [posting, he, List.append_nil]
    exact h
  · rw [posting, hok]
    exact h.push rfl hfresh hactor hid hnodup hgoes hqueued

theorem CarefulRun.head {cs : List Submission} (h : CarefulRun serde s (c :: cs)) :
    ∀ activity, c.toActivity = .ok activity → c.record.fault = none → Careful s c :=
  h [] c cs rfl

theorem CarefulRun.tail {cs : List Submission} (h : CarefulRun serde s (c :: cs)) :
    CarefulRun serde (handleOutboxPost serde s c).2 cs := by
  intro pre d post heq
  exact h (c :: pre) d post (by rw [heq, List.cons_append])

theorem CarefulRun.of_append {pre post : List Submission}
    (h : CarefulRun serde s (pre ++ post)) : CarefulRun serde s pre := by
  intro front c back heq
  refine h front c (back ++ post) ?_
  rw [heq, List.append_assoc, List.cons_append]

theorem Intact.run {cs : List Submission} (h : Intact serde journal s)
    (hcareful : CarefulRun serde s cs) :
    Intact serde (journal ++ postings serde s cs) (storeAfter serde s cs) := by
  induction cs generalizing journal s with
  | nil =>
      rw [postings, List.append_nil]
      exact h
  | cons c cs ih =>
      have hnext := ih (h.submit hcareful.head) hcareful.tail
      rw [List.append_assoc] at hnext
      exact hnext

theorem storeAfter_append_singleton (pre : List Submission) (c : Submission) :
    storeAfter serde s (pre ++ [c]) = (handleOutboxPost serde (storeAfter serde s pre) c).2 := by
  rw [storeAfter, Lockstep.final, List.foldl_append]
  rfl

/-- A run of careful submissions has the integrity of the outbox in every state. -/
theorem outboxIntegrity_of_carefulRun {cs : List Submission} (h : Intact serde journal s)
    (hcareful : CarefulRun serde s cs) : OutboxIntegrity serde s journal cs := by
  constructor
  · rintro pre post rfl
    exact h.run hcareful.of_append
  · intro pre c post heq
    rw [storeAfter_append_singleton]
    obtain ⟨e, he⟩ | ⟨activity, inboxes, q, hok, -⟩ :=
      handleOutboxPost_of_careful serde (hcareful pre c post heq)
    · rw [he]
    · rw [hok]
      exact List.prefix_append _ _
  · intro pre c post e heq herror
    rw [storeAfter_append_singleton]
    obtain ⟨e', he⟩ | ⟨activity, inboxes, q, hok, -⟩ :=
      handleOutboxPost_of_careful serde (hcareful pre c post heq)
    · rw [he]
      exact ⟨rfl, rfl⟩
    · rw [hok] at herror
      cases herror

theorem intact_empty (serde : SerdeJson) (followers : List FollowerRow) :
    Intact serde [] { Store.empty with followers := followers } := by
  constructor
  · rfl
  · exact List.nodup_nil
  · exact fun _ h => absurd h List.not_mem_nil
  · exact fun _ h => absurd h List.not_mem_nil
  · exact fun _ h => absurd h List.not_mem_nil

end Journals

section Samples

/-- A library that writes nothing. -/
def blankSerde : SerdeJson := ⟨fun _ => [], fun _ => none, fun _ => .ok []⟩

/-- A store in which the actor `a` has a follower. -/
def followedStore : Store := { Store.empty with followers := [⟨['a'], ['f'], some ['i'], 0⟩] }

def createBy (actor id : Str) : Json :=
  .object [("actor", .string actor), ("id", .string id), ("type", .string "Create")]

/-- A post by `actorId` whose queue statements go through or fail. -/
def postOf (actorId : Str) (body : Json) (fault : Option SqlxError) : Submission where
  actorId := actorId
  body := body
  activityUuid := []
  noteUuid := []
  stampUuid := []
  rowUuid := []
  now := []
  record := ⟨0, none⟩
  fanOut := ⟨0, none⟩
  enqueue := fun _ => ⟨0, fault⟩

def ownPost : Submission := postOf ['a'] (createBy ['a'] ['1']) none

theorem outboxIntegrity_ownPost : OutboxIntegrity blankSerde followedStore [] [ownPost] := by
  refine outboxIntegrity_of_carefulRun (intact_empty blankSerde _) ?_
  intro pre c post heq activity _ _
  have hpre : pre = [] := by
    cases pre with
    | nil => rfl
    | cons d pre => exact absurd (List.cons.inj heq).2.symm (by simp)
  rw [hpre, List.nil_append] at heq
  rw [hpre, ← (List.cons.inj heq).1]
  constructor
  · intro _ name hname
    exact (Option.some.inj hname).symm
  · exact fun _ h => absurd h List.not_mem_nil
  · exact fun _ => rfl
  · exact fun _ _ => rfl

/-- A body may name another actor, it may bring the id of another actor's activity, and a
delivery that is not queued leaves the row of the activity behind. -/
theorem not_outboxIntegrity :
    ¬ OutboxIntegrity blankSerde followedStore [] [postOf ['a'] (createBy ['b'] ['1']) none] ∧
      ¬ OutboxIntegrity blankSerde followedStore []
        [ownPost, postOf ['b'] (createBy ['b'] ['1']) none] ∧
      ¬ OutboxIntegrity blankSerde followedStore []
        [postOf ['a'] (createBy ['a'] ['1']) (some ['e'])] := by
  refine ⟨?_, ?_, ?_⟩
  · intro h
    have hnamed := (h.intact _ [] (List.append_nil _).symm).named _ List.mem_cons_self
    exact absurd hnamed.1 (by decide)
  · intro h
    have hkept := h.kept [ownPost] _ [] rfl
    revert hkept
    decide
  · intro h
    have hrefused := (h.refused [] _ [] _ rfl rfl).1
    revert hrefused
    decide

end Samples

end ActivityPub

end SolidPod
