import SolidPod.Foundation.Channels
import SolidPod.Storage.WatchedMemory

/-!
# A watcher that is too slow

A call of `watch` starts a task that receives the events of the backend and hands those
under its path to the consumer. The events come through a channel that overwrites the
oldest ones when it is full, and go out through one that lets the task wait. The task
ends when it is told that events were lost: it loses with them all that come later, also
those that are still in the channel. As long as the channel does not overflow, the
consumer gets all events.
-/

namespace SolidPod

open Foundation Str Notifications

namespace MemoryBackend

variable {digest : Bytes → Str}

/-- What takes the next step: a put or a delete, the task of the watcher, or the consumer. -/
inductive Actor (ι : Type*) where
  | call (i : ι)
  | task
  | consumer

theorem eventsCapacity_pos : 0 < 256 := by decide

def eventsCapacity : ℕ+ := ⟨256, eventsCapacity_pos⟩

def watchCapacity : ℕ+ := 64

/-- The backend with one watcher. -/
structure Watching (digest : Bytes → Str) (ι B Q : Type*) where
  watched : Watched digest ι
  events : B
  /-- The event that the task has received and not handed over. -/
  inHand : Option StorageEvent
  /-- The task has not ended. -/
  running : Bool
  out : Q
  received : List StorageEvent
  /-- The events that were sent and that no later one has overwritten. The code has no such
  list: it is here to say what can be received. -/
  kept : List StorageEvent

namespace Watching

variable {ι B Q : Type*} [Broadcast B StorageEvent] [Queue Q StorageEvent]

/-- A call of `watch`. The stream is told from here. -/
def start (w : Watched digest ι) : Watching digest ι B Q where
  watched := { w with stream := [] }
  events := Broadcast.subscribe eventsCapacity
  inHand := none
  running := true
  out := Queue.channel watchCapacity
  received := []
  kept := []

/-- An event goes into the channel, and overwrites the oldest one there if it is full. -/
def publish (s : Watching digest ι B Q) (e : StorageEvent) : Watching digest ι B Q :=
  { s with
    events := Broadcast.send s.events e
    kept := (if (Broadcast.pending s.events).length < Broadcast.cap s.events then s.kept
      else s.kept.eraseIdx (s.kept.length - (Broadcast.pending s.events).length)) ++ [e] }

/-- One turn of the task: it hands over the event in its hand, or receives the next one. -/
def runTask (path : Str) (s : Watching digest ι B Q) : Option (Watching digest ι B Q) :=
  if s.running then
    match s.inHand with
    | some e => (Queue.send s.out e).map fun out => { s with inHand := none, out := out }
    | none =>
      (Broadcast.recv s.events).map fun r => match r.1 with
        | .ok e => { s with
            events := r.2
            inHand := if Watched.isUnder e.path (normalize path) then some e else none }
        | .error _ => { s with events := r.2, running := false }
  else none

/-- Neither the task nor the consumer has anything to do. -/
def Settled (path : Str) (s : Watching digest ι B Q) : Prop :=
  runTask path s = none ∧ Queue.recv s.out = none

section Flow

variable {path : Str} {s : Watching digest ι B Q}

/-- What was sent under the path and has not been lost: received, on its way to the consumer,
in the hand of the task, or in the channel of the events. -/
def flow (path : Str) (s : Watching digest ι B Q) : List StorageEvent :=
  s.received ++ Queue.items s.out ++ s.inHand.toList ++
    (Broadcast.pending s.events).filter fun e => Watched.isUnder e.path (normalize path)

omit [Broadcast B StorageEvent] [Queue Q StorageEvent] in
theorem watch_concat {w : Watched digest ι} {e : StorageEvent}
    (hstream : w.stream = s.watched.stream ++ [e]) : w.watch path =
      s.watched.watch path ++ [e].filter fun e => Watched.isUnder e.path (normalize path) := by
  rw [Watched.watch, hstream, List.filter_append, Watched.watch]

theorem flow_publish_of_lt [Broadcast.Lawful B] {w : Watched digest ι} (e : StorageEvent)
    (h : (Broadcast.pending s.events).length < Broadcast.cap s.events) :
    flow path (publish { s with watched := w } e) =
      flow path s ++ [e].filter fun e => Watched.isUnder e.path (normalize path) := by
  simp only [flow, publish, (Broadcast.Lawful.send_of_lt e h).1, List.filter_append,
    List.append_assoc]

/-- A full channel loses an event. -/
theorem flow_publish_of_le [Broadcast.Lawful B] {w : Watched digest ι} (e : StorageEvent)
    (h : Broadcast.cap s.events ≤ (Broadcast.pending s.events).length) :
    (flow path (publish { s with watched := w } e)).Sublist
      (flow path s ++ [e].filter fun e => Watched.isUnder e.path (normalize path)) := by
  simp only [flow, publish, (Broadcast.Lawful.send_of_le e h).1, List.filter_append,
    List.append_assoc]
  exact (((List.tail_sublist _).filter _).append_right _).append_left _ |>.append_left _
    |>.append_left _

theorem received_sublist_flow : s.received.Sublist (flow path s) := by
  rw [flow, List.append_assoc, List.append_assoc]
  exact List.sublist_append_left _ _

end Flow

variable [DecidableEq ι]

/-- An event is only sent while fewer events are pending than the channel holds. -/
def Room (s : Watching digest ι B Q) (a : Actor ι) : Prop :=
  ∀ i e, a = .call i → s.watched.begun i = true → s.watched.unsent.lookup i = some e →
    (Broadcast.pending s.events).length < eventsCapacity

omit [Queue Q StorageEvent] in
theorem room_of_ne (s : Watching digest ι B Q) {a : Actor ι} (hcall : ∀ i, a ≠ .call i) :
    Room s a :=
  fun i _ heq => absurd heq (hcall i)

/-! ## What a step does -/

section Moved

variable {path : Str} {s t : Watching digest ι B Q} {a : Actor ι}

/-- What a step can do. -/
inductive Moved (path : Str) (s : Watching digest ι B Q) : Actor ι → Watching digest ι B Q → Prop
  | quiet {i : ι} {w : Watched digest ι} (hstream : w.stream = s.watched.stream) :
      Moved path s (.call i) { s with watched := w }
  | published {i : ι} {w : Watched digest ι} {e : StorageEvent} (hbegun : s.watched.begun i = true)
      (hlookup : s.watched.unsent.lookup i = some e)
      (hstream : w.stream = s.watched.stream ++ [e]) :
      Moved path s (.call i) (publish { s with watched := w } e)
  | handed {e : StorageEvent} {out : Q} (hhand : s.inHand = some e)
      (hsend : Queue.send s.out e = some out) :
      Moved path s .task { s with inHand := none, out := out }
  | took {e : StorageEvent} {events : B} (hhand : s.inHand = none)
      (hrecv : Broadcast.recv s.events = some (.ok e, events)) :
      Moved path s .task { s with
        events := events
        inHand := if Watched.isUnder e.path (normalize path) then some e else none }
  | lagged {n : ℕ} {events : B} (hhand : s.inHand = none)
      (hrecv : Broadcast.recv s.events = some (.error n, events)) :
      Moved path s .task { s with events := events, inHand := none, running := false }
  | consumed {e : StorageEvent} {out : Q} (hrecv : Queue.recv s.out = some (e, out)) :
      Moved path s .consumer { s with out := out, received := s.received ++ [e] }

theorem moved_of_runTask (h : runTask path s = some t) : Moved path s .task t := by
  rw [runTask] at h
  split_ifs at h
  cases hhand : s.inHand with
  | some e =>
      rw [hhand] at h
      obtain ⟨out, hsend, rfl⟩ := Option.map_eq_some_iff.mp h
      exact .handed hhand hsend
  | none =>
      rw [hhand] at h
      obtain ⟨⟨result, events⟩, hrecv, rfl⟩ := Option.map_eq_some_iff.mp h
      cases result with
      | ok e => exact .took hhand hrecv
      | error n => exact .lagged hhand hrecv

theorem Moved.sent_eq (h : Moved path s a t) (hcall : ∀ i, a ≠ .call i) :
    t.watched = s.watched := by
  cases h with
  | quiet => exact absurd rfl (hcall _)
  | published => exact absurd rfl (hcall _)
  | handed | took | lagged | consumed => rfl

end Moved

def step (calls : ι → WriteCall) (path : Str) (s : Watching digest ι B Q) :
    Actor ι → Option (Watching digest ι B Q)
  | .call i => (Watched.step calls s.watched i).map fun w =>
      (w.stream.drop s.watched.stream.length).foldl publish { s with watched := w }
  | .task => runTask path s
  | .consumer => (Queue.recv s.out).map fun r =>
      { s with out := r.2, received := s.received ++ [r.1] }

/-- The consumer receives what was sent under the path, in that order, and of this all that
was not overwritten. -/
structure Survives (calls : ι → WriteCall) (path : Str) (s : Watching digest ι B Q) : Prop where
  ordered : s.received.Sublist (s.watched.watch path)
  complete : Settled path s →
    s.received = s.kept.filter fun e => Watched.isUnder e.path (normalize path)
  /-- The task and the consumer come to an end, and then all has been received. -/
  settles : ∃ sched v, (∀ a ∈ sched, ∀ i, a ≠ .call i) ∧
    Schedule.run (step calls path) s sched = some v ∧ Settled path v ∧
    v.received = s.kept.filter fun e => Watched.isUnder e.path (normalize path)

section Steps

variable {calls : ι → WriteCall} {path : Str} {s t : Watching digest ι B Q} {a : Actor ι}

theorem moved_of_step (h : step calls path s a = some t) : Moved path s a t := by
  cases a with
  | call i =>
      obtain ⟨w, hstep, rfl⟩ := Option.map_eq_some_iff.mp h
      cases Watched.stepped_of_step hstep with
      | changed hbegun =>
          rw [List.drop_length]
          exact .quiet rfl
      | refused hbegun =>
          rw [List.drop_length]
          exact .quiet rfl
      | sent hbegun hunsent hlookup =>
          rw [List.drop_left]
          exact .published hbegun hlookup rfl
  | task => exact moved_of_runTask h
  | consumer =>
      obtain ⟨⟨e, out⟩, hrecv, rfl⟩ := Option.map_eq_some_iff.mp h
      exact .consumed hrecv

theorem Moved.flow_consumer [Queue.Lawful Q] (h : Moved path s .consumer t) :
    flow path t = flow path s := by
  cases h with
  | consumed hrecv => simp [flow, Queue.recv_eq_some hrecv]

variable [Broadcast.Lawful B] [Queue.Lawful Q]

theorem Moved.flow_task (h : Moved path s .task t) : flow path t = flow path s := by
  cases h with
  | handed hhand hsend =>
      simp [flow, hhand, Queue.send_eq_some hsend]
  | @took e events hhand hrecv =>
      obtain ⟨-, -, hpending, -⟩ := Broadcast.recv_eq_ok hrecv
      by_cases hunder : Watched.isUnder e.path (normalize path) = true
      · simp [flow, hhand, hpending, hunder]
      · simp [flow, hhand, hpending, hunder]
  | lagged hhand hrecv =>
      obtain ⟨-, -, hpending, -⟩ := Broadcast.recv_eq_error hrecv
      simp [flow, hhand, hpending]

/-- What is not lost was sent, in that order. -/
theorem Moved.flow_sublist (h : Moved path s a t)
    (hflow : (flow path s).Sublist (s.watched.watch path)) :
    (flow path t).Sublist (t.watched.watch path) := by
  cases a with
  | call i =>
      cases h with
      | quiet hstream =>
          rw [Watched.watch] at hflow ⊢
          rw [hstream]
          exact hflow
      | @published _ w e hbegun hlookup hstream =>
          have hwatch : (publish { s with watched := w } e).watched.watch path =
              s.watched.watch path ++
                [e].filter fun e => Watched.isUnder e.path (normalize path) :=
            watch_concat hstream
          rw [hwatch]
          rcases Nat.lt_or_ge (Broadcast.pending s.events).length (Broadcast.cap s.events)
            with hlt | hle
          · rw [flow_publish_of_lt e hlt]
            exact hflow.append_right _
          · exact (flow_publish_of_le e hle).trans (hflow.append_right _)
  | task =>
      rw [h.flow_task]
      cases h <;> exact hflow
  | consumer =>
      rw [h.flow_consumer]
      cases h
      exact hflow

/-! ## Runs without an overflow -/

/-- Nothing was lost. -/
structure Faithful (path : Str) (s : Watching digest ι B Q) : Prop where
  running : s.running = true
  cap : Broadcast.cap s.events = eventsCapacity
  lost : Broadcast.lost s.events = 0
  kept : s.kept = s.watched.stream
  arrives : flow path s = s.watched.watch path

theorem Faithful.moved (h : Faithful path s) (hroom : Room s a) (hmoved : Moved path s a t) :
    Faithful path t := by
  cases hmoved with
  | quiet hstream =>
      refine ⟨h.running, h.cap, h.lost, h.kept.trans hstream.symm, h.arrives.trans ?_⟩
      rw [Watched.watch, Watched.watch, hstream]
  | @published i w e hbegun hlookup hstream =>
      have hlt : (Broadcast.pending s.events).length < Broadcast.cap s.events := by
        rw [h.cap]
        exact hroom i e rfl hbegun hlookup
      refine ⟨h.running, (Broadcast.Lawful.cap_send _ e).trans h.cap,
        (Broadcast.Lawful.send_of_lt e hlt).2.trans h.lost, ?_, ?_⟩
      · simp only [publish, if_pos hlt]
        rw [h.kept, hstream]
      · refine (flow_publish_of_lt e hlt).trans (Eq.trans ?_ (watch_concat hstream).symm)
        rw [h.arrives]
  | handed hhand hsend =>
      exact ⟨h.running, h.cap, h.lost, h.kept, (Moved.handed hhand hsend).flow_task.trans h.arrives⟩
  | took hhand hrecv =>
      obtain ⟨-, hcap, -, hlost⟩ := Broadcast.recv_eq_ok hrecv
      exact ⟨h.running, hcap.trans h.cap, hlost, h.kept,
        (Moved.took hhand hrecv).flow_task.trans h.arrives⟩
  | lagged hhand hrecv => exact absurd h.lost (Broadcast.recv_eq_error hrecv).1
  | consumed hrecv =>
      exact ⟨h.running, h.cap, h.lost, h.kept, (Moved.consumed hrecv).flow_consumer.trans h.arrives⟩

omit [DecidableEq ι] in
/-- When nothing is left to do, the consumer has everything. -/
theorem Faithful.received_eq (h : Faithful path s) (hsettled : Settled path s) :
    s.received = s.kept.filter fun e => Watched.isUnder e.path (normalize path) := by
  obtain ⟨htask, hout⟩ := hsettled
  have hitems := Queue.recv_eq_none hout
  rw [runTask, if_pos h.running] at htask
  have hflow := h.arrives
  rw [flow, hitems, List.append_nil] at hflow
  rw [h.kept]
  cases hhand : s.inHand with
  | some e =>
      rw [hhand] at htask
      exact absurd hitems (Queue.send_eq_none (Option.map_eq_none_iff.mp htask))
  | none =>
      rw [hhand] at htask hflow
      rw [(Broadcast.recv_eq_none (Option.map_eq_none_iff.mp htask)).2] at hflow
      simpa [Watched.watch] using hflow

/-- How many steps the task and the consumer can take at most. -/
def weight (s : Watching digest ι B Q) : ℕ :=
  3 * (Broadcast.pending s.events).length + 2 * s.inHand.toList.length +
    (Queue.items s.out).length

theorem Faithful.weight_lt (h : Faithful path s) (hcall : ∀ i, a ≠ .call i)
    (hmoved : Moved path s a t) : weight t < weight s := by
  cases hmoved with
  | quiet hstream => exact absurd rfl (hcall _)
  | published => exact absurd rfl (hcall _)
  | handed hhand hsend =>
      simp only [weight, hhand, Queue.send_eq_some hsend, List.length_append, Option.toList_some,
        Option.toList_none, List.length_cons, List.length_nil]
      omega
  | @took e events hhand hrecv =>
      obtain ⟨-, -, hpending, -⟩ := Broadcast.recv_eq_ok hrecv
      have hone : (if Watched.isUnder e.path (normalize path) = true then some e
          else none).toList.length ≤ 1 := by
        split_ifs
        · exact Nat.le_refl 1
        · exact Nat.zero_le 1
      simp only [weight, hpending, List.length_cons]
      omega
  | lagged hhand hrecv => exact absurd h.lost (Broadcast.recv_eq_error hrecv).1
  | consumed hrecv =>
      simp only [weight, Queue.recv_eq_some hrecv, List.length_cons]
      omega

/-- The task and the consumer come to an end. -/
theorem Faithful.exists_settled (calls : ι → WriteCall) (h : Faithful path s) :
    ∃ sched v, (∀ a ∈ sched, ∀ i, a ≠ .call i) ∧
      Schedule.run (step calls path) s sched = some v ∧ Settled path v ∧ Faithful path v ∧
      v.watched = s.watched := by
  induction hweight : weight s using Nat.strong_induction_on generalizing s with
  | _ n ih =>
      have hnext : ∀ a t, (∀ i, a ≠ .call i) → step calls path s a = some t →
          ∃ sched v, (∀ a ∈ sched, ∀ i, a ≠ .call i) ∧
            Schedule.run (step calls path) s sched = some v ∧ Settled path v ∧ Faithful path v ∧
            v.watched = s.watched := by
        intro a t hcall hstep
        have hmoved := moved_of_step hstep
        obtain ⟨sched, v, hsched, hrun, hsettled, hfaithful, hsent⟩ :=
          ih (weight t) (hweight ▸ h.weight_lt hcall hmoved)
            (h.moved (room_of_ne s hcall) hmoved) rfl
        refine ⟨a :: sched, v, List.forall_mem_cons.mpr ⟨hcall, hsched⟩, ?_, hsettled, hfaithful,
          hsent.trans (hmoved.sent_eq hcall)⟩
        rw [Schedule.run_cons, hstep]
        exact hrun
      cases htask : runTask path s with
      | some t => exact hnext .task t (fun i heq => by cases heq) htask
      | none =>
          cases hrecv : Queue.recv s.out with
          | none => exact ⟨[], s, by simp, rfl, ⟨htask, hrecv⟩, h, rfl⟩
          | some r =>
              exact hnext .consumer { s with out := r.2, received := s.received ++ [r.1] }
                (fun i heq => by cases heq) (by rw [step, hrecv]; rfl)

theorem Faithful.survives (calls : ι → WriteCall) (h : Faithful path s) :
    Survives calls path s where
  ordered := h.arrives ▸ received_sublist_flow
  complete := h.received_eq
  settles := by
    obtain ⟨sched, v, hsched, hrun, hsettled, hfaithful, hsent⟩ := h.exists_settled calls
    refine ⟨sched, v, hsched, hrun, hsettled, ?_⟩
    rw [hfaithful.received_eq hsettled, hfaithful.kept, hsent, h.kept]

omit [DecidableEq ι] in
theorem faithful_start (path : Str) (w : Watched digest ι) :
    Faithful path (start w : Watching digest ι B Q) where
  running := rfl
  cap := Broadcast.Lawful.cap_subscribe _
  lost := Broadcast.Lawful.lost_subscribe _
  kept := rfl
  arrives := by
    simp only [flow, start, Queue.Lawful.items_channel, Broadcast.Lawful.pending_subscribe]
    rfl

/-- The consumer receives events under its path in the order in which they were sent, in every
run. In a run in which the channel of the events does not overflow it receives all of them. -/
theorem survives_of_room (calls : ι → WriteCall) (path : Str) (w : Watched digest ι)
    (sched : List (Actor ι)) :
    Schedule.Throughout (step calls path)
        (fun s => s.received.Sublist (s.watched.watch path))
        (start w : Watching digest ι B Q) sched ∧
      (Schedule.Along (step calls path) Room (start w : Watching digest ι B Q) sched →
        Schedule.Throughout (step calls path) (Survives calls path)
          (start w : Watching digest ι B Q) sched) := by
  have hstart := faithful_start (B := B) (Q := Q) path w
  constructor
  · intro pre post u _ hrun
    have hall : (flow path u).Sublist (u.watched.watch path) :=
      Schedule.induct (G := fun _ _ => True)
        (P := fun _ s => (flow path s).Sublist (s.watched.watch path)) hrun
        (hstart.arrives ▸ List.Sublist.refl _) (fun _ _ _ _ _ _ => trivial)
        fun _ _ _ _ hflow _ hstep => (moved_of_step hstep).flow_sublist hflow
    exact received_sublist_flow.trans hall
  · intro hroom pre post u heq hrun
    rw [heq] at hroom
    have hall : Faithful path u :=
      Schedule.induct (P := fun _ => Faithful path) hrun hstart hroom.left
        fun _ _ _ _ hfaithful hG hstep => hfaithful.moved hG (moved_of_step hstep)
    exact hall.survives calls

end Steps

/-! ## More events than the channel holds -/

/-- Puts of one resource. -/
def putAgain (_ : ℕ) : WriteCall := .put "/a" [] "text/plain"

abbrev quiet : Watched (fun _ => []) ℕ := .start .empty

/-- Puts one after the other, while the task does not run. -/
def puts (n : ℕ) : List (Actor ℕ) := (List.range n).flatMap fun i => [.call i, .call i]

abbrev Lists := Watching (fun _ => []) ℕ (ListReceiver StorageEvent) (ListQueue StorageEvent)

theorem survives_of_room_puts :
    Schedule.Throughout (step putAgain "/") (Survives putAgain "/") (start quiet : Lists)
      [.call 0, .call 0, .task] := by
  refine (survives_of_room putAgain "/" quiet [.call 0, .call 0, .task]).2 ?_
  refine Schedule.along_cons.mpr ⟨fun _ _ _ _ _ => by decide, fun u hu => ?_⟩
  cases hu
  refine Schedule.along_cons.mpr ⟨fun _ _ _ _ _ => by decide, fun u hu => ?_⟩
  cases hu
  refine Schedule.along_cons.mpr ⟨fun _ _ heq => (by cases heq), fun u _ => ?_⟩
  intro pre i post v heq
  cases pre <;> cases heq

/-- What is left when the task runs after one put more than the channel holds. -/
def overflown : Option Lists :=
  Schedule.run (step putAgain "/") (start quiet) (puts 257 ++ [.task])

/-- So many puts, while the task does not run. -/
structure Behind (n : ℕ) (s : Lists) : Prop where
  running : s.running = true
  inHand : s.inHand = none
  out : Queue.items s.out = []
  received : s.received = []
  cap : Broadcast.cap s.events = eventsCapacity
  pending : (Broadcast.pending s.events).length = min n eventsCapacity
  lost : Broadcast.lost s.events = n - eventsCapacity
  kept : s.kept.length = min n eventsCapacity
  under : ∀ e ∈ s.kept, Watched.isUnder e.path "/" = true
  unsent : s.watched.unsent = []
  fresh : ∀ i, n ≤ i → s.watched.begun i = false

theorem behind_start : Behind 0 (start quiet) where
  running := rfl
  inHand := rfl
  out := rfl
  received := rfl
  cap := rfl
  pending := by rw [Nat.zero_min]; rfl
  lost := by rw [Nat.zero_sub]; rfl
  kept := by rw [Nat.zero_min]; rfl
  under _ he := by cases he
  unsent := rfl
  fresh _ _ := rfl

/-- One put more: its event finds room, or overwrites the oldest one. -/
theorem Behind.publish {n : ℕ} {s : Lists} (h : Behind n s) {w : Watched (fun _ => []) ℕ}
    {e : StorageEvent} (he : Watched.isUnder e.path "/" = true) (hunsent : w.unsent = [])
    (hfresh : ∀ i, n + 1 ≤ i → w.begun i = false) :
    Behind (n + 1) (Watching.publish { s with watched := w } e) := by
  have hpending := h.pending
  have hkept := h.kept
  have hlost := h.lost
  have hmem : ∀ k, ∀ x ∈ s.kept.eraseIdx k ++ [e], Watched.isUnder x.path "/" = true := by
    intro k x hx
    rcases List.mem_append.mp hx with hx | hx
    · exact h.under x (List.mem_of_mem_eraseIdx hx)
    · rw [List.mem_singleton.mp hx]
      exact he
  rcases Nat.lt_or_ge (Broadcast.pending s.events).length (Broadcast.cap s.events)
    with hlt | hle
  · obtain ⟨hsend, hsame⟩ := Broadcast.Lawful.send_of_lt e hlt
    rw [h.cap] at hlt
    refine ⟨h.running, h.inHand, h.out, h.received, (Broadcast.Lawful.cap_send _ e).trans h.cap,
      ?_, ?_, ?_, ?_, hunsent, hfresh⟩
    · rw [Watching.publish, hsend, List.length_append, List.length_singleton]
      omega
    · rw [Watching.publish, hsame]
      omega
    · rw [Watching.publish, h.cap, if_pos hlt, List.length_append, List.length_singleton]
      dsimp only
      omega
    · rw [Watching.publish, h.cap, if_pos hlt]
      intro x hx
      rcases List.mem_append.mp hx with hx | hx
      · exact h.under x hx
      · rw [List.mem_singleton.mp hx]
        exact he
  · obtain ⟨hsend, hmore⟩ := Broadcast.Lawful.send_of_le e hle
    rw [h.cap] at hle
    have hpos := eventsCapacity.pos
    refine ⟨h.running, h.inHand, h.out, h.received, (Broadcast.Lawful.cap_send _ e).trans h.cap,
      ?_, ?_, ?_, ?_, hunsent, hfresh⟩
    · rw [Watching.publish, hsend, List.length_append, List.length_singleton, List.length_tail]
      omega
    · rw [Watching.publish, hmore]
      omega
    · rw [Watching.publish, h.cap, if_neg (Nat.not_lt.mpr hle), List.length_append,
        List.length_singleton, List.length_eraseIdx_of_lt (by dsimp only; omega)]
      dsimp only
      omega
    · rw [Watching.publish, h.cap, if_neg (Nat.not_lt.mpr hle)]
      exact hmem _

theorem Behind.put {n : ℕ} {s : Lists} (h : Behind n s) :
    ∃ t, Schedule.run (step putAgain "/") s [.call n, .call n] = some t ∧ Behind (n + 1) t := by
  have hupdate : ∃ e b, (putAgain n).update s.watched.backend = (some e, b) ∧
      Watched.isUnder e.path "/" = true := by
    refine ⟨_, _, rfl, ?_⟩
    split_ifs <;> decide
  obtain ⟨e, b, hupdate, he⟩ := hupdate
  have hbegin : step putAgain "/" s (.call n) = some { s with
      watched := { s.watched with
        backend := b
        begun := Function.update s.watched.begun n true
        unsent := [(n, e)] } } := by
    rw [step, Watched.step, if_neg (by rw [h.fresh n le_rfl]; exact Bool.false_ne_true), hupdate]
    simp [h.unsent]
  rw [Schedule.run_cons, hbegin, Option.bind_some, Schedule.run_cons]
  have hsend : ∀ u : Lists, u.watched.begun n = true → u.watched.unsent = [(n, e)] →
      step putAgain "/" u (.call n) = some (Watching.publish { u with
        watched := { u.watched with unsent := [], stream := u.watched.stream ++ [e] } } e) := by
    intro u hbegun hunsent
    rw [step, Watched.step, if_pos hbegun, hunsent]
    simp
  rw [hsend _ (Function.update_self _ _ _) rfl, Option.bind_some]
  refine ⟨_, rfl, h.publish he rfl fun i hi => ?_⟩
  have hne : i ≠ n := by omega
  exact (Function.update_of_ne hne _ _).trans (h.fresh i (by omega))

theorem behind_puts (n : ℕ) :
    ∃ s, Schedule.run (step putAgain "/") (start quiet : Lists) (puts n) = some s ∧
      Behind n s := by
  induction n with
  | zero => exact ⟨_, rfl, behind_start⟩
  | succ n ih =>
      obtain ⟨s, hrun, hs⟩ := ih
      obtain ⟨t, hstep, ht⟩ := hs.put
      refine ⟨t, ?_, ht⟩
      rw [puts, List.range_succ, List.flatMap_append, List.flatMap_singleton,
        Schedule.run_append, ← puts, hrun]
      exact hstep

theorem overflown_eq : ∃ s, overflown = some s ∧ s.running = false ∧ Queue.items s.out = [] ∧
    s.received = [] ∧ (s.kept.filter fun e => Watched.isUnder e.path "/").length = 256 := by
  obtain ⟨s, hrun, hs⟩ := behind_puts 257
  have hlost : Broadcast.lost s.events ≠ 0 := by
    rw [hs.lost]
    decide
  obtain ⟨events, hrecv, -⟩ := Broadcast.Lawful.recv_of_lost hlost
  refine ⟨{ s with events := events, running := false }, ?_, rfl, hs.out, hs.received, ?_⟩
  · rw [overflown, Schedule.run_append, hrun, Option.bind_some, Schedule.run_cons, step, runTask,
      if_pos hs.running, hs.inHand]
    simp only [hrecv, Option.map_some, Option.bind_some, Schedule.run_nil]
  · rw [List.filter_eq_self.mpr hs.under, hs.kept]
    decide

/-- One put too many ends the task, and the consumer gets nothing of what is still in the
channel. -/
theorem overflown_not_survives :
    ¬ ∀ (calls : ℕ → WriteCall) (path : Str) (w : Watched (fun _ => []) ℕ)
      (sched : List (Actor ℕ)), Schedule.Throughout (step calls path) (Survives calls path)
        (start w : Lists) sched := by
  intro h
  obtain ⟨s, hrun, hrunning, hout, hreceived, hkept⟩ := overflown_eq
  have hsettled : Settled "/" s := by
    constructor
    · rw [runTask, if_neg (by rw [hrunning]; exact Bool.false_ne_true)]
    · exact Queue.Lawful.recv_of_nil hout
  have hcomplete := (h putAgain "/" quiet (puts 257 ++ [.task]) _ [] s (by simp) hrun).complete
    hsettled
  rw [hreceived] at hcomplete
  have hnormal : normalize "/" = "/" := by decide
  rw [hnormal] at hcomplete
  rw [← hcomplete] at hkept
  cases hkept

end Watching

end MemoryBackend

end SolidPod
