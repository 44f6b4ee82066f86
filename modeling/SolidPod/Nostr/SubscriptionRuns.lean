import Mathlib.Data.Finset.Card
import Mathlib.Data.List.Count
import SolidPod.Nostr.Convergence
import SolidPod.Nostr.Subscription

/-!
# Runs of a connection

The steps of the calls of `ingest` interleave with the frames of one connection. A call
that is done with the store broadcasts its event, which joins the queue of the connection
if there is one, and the connection takes its queue event by event. A history is read
from the store, so an event can reach a subscription by both ways, and it reaches it by
one of them at least.
-/

namespace SolidPod

open Foundation Str

namespace Nostr

/-- The relay, its calls that have broadcast their events, and one connection. There is
no queue until the connection has subscribed to the broadcasts. -/
structure SocketState (ι : Type*) where
  relay : RelayState ι
  announced : ι → Bool
  live : Option (List Event)
  subscriptions : Subscriptions
  sent : List RelayMessage

inductive Move (ι : Type*) where
  | store (i : ι)
  | broadcast (i : ι)
  | connect
  | req (arr : List Json)
  | close (arr : List Json)
  | deliver

namespace Move

variable {ι : Type*}

/-- The frame opens the subscription. -/
def opens (sub : Str) : Move ι → Bool
  | .req arr =>
    match parseReq arr with
    | .ok (opened, _) => opened = sub
    | .error _ => false
  | _ => false

def closes (sub : Str) : Move ι → Bool
  | .close arr => subscriptionId arr = some sub
  | _ => false

/-- The calls that broadcast. -/
def announcements (moves : List (Move ι)) : List ι :=
  moves.filterMap fun m =>
    match m with
    | .broadcast i => some i
    | _ => none

theorem announcements_append (before after : List (Move ι)) :
    announcements (before ++ after) = announcements before ++ announcements after :=
  List.filterMap_append

end Move

section Runs

variable {ι : Type*} (lib : EventLibrary) (calls : ι → Event)

/-- The relay before its first call, with its connection yet to come. -/
def SocketState.boot (store : InMemoryEventStore) : SocketState ι where
  relay := start store
  announced _ := false
  live := none
  subscriptions := ∅
  sent := []

/-- No call is between its store step and its broadcast, and the queue is empty. -/
structure SocketState.Settled (s : SocketState ι) : Prop where
  announced : ∀ i, s.relay.phase i = .done → (calls i).verify lib = .ok () → s.announced i = true
  delivered : s.live = some []

/-- The event was there at first, or a call has stored it. -/
def SocketState.Known (store : InMemoryEventStore) (s : SocketState ι) (x : Event) : Prop :=
  x ∈ store.inner ∨ ∃ i, calls i = x ∧ s.relay.phase i = .done

/-- What is stored, queued and sent is known. -/
structure SocketState.Sourced (store : InMemoryEventStore) (s : SocketState ι) : Prop where
  stored : ∀ x ∈ s.relay.store.inner, s.Known calls store x
  queued : ∀ queue, s.live = some queue → ∀ x ∈ queue, s.Known calls store x
  sent : ∀ sub x, .event sub x ∈ s.sent → s.Known calls store x
  announced : ∀ i, s.announced i = true → s.relay.phase i = .done

variable {store : InMemoryEventStore}

theorem sourced_boot :
    (SocketState.boot store : SocketState ι).Sourced calls store where
  stored _ hx := .inl hx
  queued _ hlive := by cases hlive
  sent _ _ hmem := by cases hmem
  announced _ hi := by cases hi

variable [DecidableEq ι]

def socketStep (s : SocketState ι) : Move ι → Option (SocketState ι)
  | .store i => (step lib calls s.relay i).map fun relay => { s with relay := relay }
  | .broadcast i =>
    if s.relay.phase i = .done ∧ (calls i).verify lib = .ok () ∧ s.announced i = false then
      some { s with
        announced := Function.update s.announced i true
        live := s.live.map fun queue => queue ++ [calls i] }
    else none
  | .connect =>
    match s.live with
    | none => some { s with live := some [] }
    | some _ => none
  | .req arr =>
    match s.live with
    | none => none
    | some _ =>
      let (frames, subscriptions) := handleReq s.relay.store.inner s.subscriptions arr
      some { s with subscriptions := subscriptions, sent := s.sent ++ frames }
  | .close arr =>
    match s.live with
    | none => none
    | some _ =>
      let (frames, subscriptions) := handleClose s.subscriptions arr
      some { s with subscriptions := subscriptions, sent := s.sent ++ frames }
  | .deliver =>
    match s.live with
    | some (e :: rest) =>
      some { s with live := some rest, sent := s.sent ++ liveFrames s.subscriptions e }
    | _ => none

/-- What a move can do. -/
inductive Moved (s : SocketState ι) : Move ι → SocketState ι → Prop
  | stored {i : ι} {relay : RelayState ι} (hstep : step lib calls s.relay i = some relay) :
      Moved s (.store i) { s with relay := relay }
  | broadcast {i : ι} (hphase : s.relay.phase i = .done) (hnew : s.announced i = false) :
      Moved s (.broadcast i) { s with
        announced := Function.update s.announced i true
        live := s.live.map fun queue => queue ++ [calls i] }
  | connected (hlive : s.live = none) : Moved s .connect { s with live := some [] }
  | refused {arr : List Json} {msg : Str} (hparse : parseReq arr = .error msg) :
      Moved s (.req arr) { s with sent := s.sent ++ [.notice msg] }
  | opened {arr : List Json} {sub : Str} {filters : List Filter} (hlive : s.live ≠ none)
      (hparse : parseReq arr = .ok (sub, filters)) :
      Moved s (.req arr) { s with
        subscriptions := s.subscriptions.insert sub filters
        sent := s.sent ++
          ((history s.relay.store.inner filters).map (.event sub ·) ++ [.eose sub]) }
  | unheard {arr : List Json} {msg : Str} (hid : subscriptionId arr = none) :
      Moved s (.close arr) { s with sent := s.sent ++ [.notice msg] }
  | closed {arr : List Json} {sub : Str} (hid : subscriptionId arr = some sub) :
      Moved s (.close arr) { s with subscriptions := s.subscriptions.erase sub }
  | delivered {e : Event} {rest : List Event} (hlive : s.live = some (e :: rest)) :
      Moved s .deliver { s with
        live := some rest
        sent := s.sent ++ liveFrames s.subscriptions e }

variable {lib calls} {s t u : SocketState ι} {m : Move ι} {sub : Str} {e x : Event}

theorem moved_of_socketStep (h : socketStep lib calls s m = some t) : Moved lib calls s m t := by
  cases m with
  | store i =>
      obtain ⟨relay, hstep, rfl⟩ := Option.map_eq_some_iff.mp h
      exact .stored hstep
  | broadcast i =>
      rw [socketStep] at h
      split_ifs at h with hready
      cases h
      exact .broadcast hready.1 hready.2.2
  | connect =>
      rw [socketStep] at h
      split at h
      · cases h
        exact .connected ‹_›
      · cases h
  | req arr =>
      rw [socketStep] at h
      split at h
      · cases h
      · rename_i hlive
        cases hparse : parseReq arr with
        | error msg =>
            rw [handleReq, hparse] at h
            cases h
            exact .refused hparse
        | ok opened =>
            rw [handleReq, hparse] at h
            cases h
            exact .opened (by simp [hlive]) hparse
  | close arr =>
      rw [socketStep] at h
      split at h
      · cases h
      · cases hid : subscriptionId arr with
        | none =>
            rw [handleClose, hid] at h
            cases h
            exact .unheard hid
        | some sub =>
            rw [handleClose, hid] at h
            cases h
            simp only [List.append_nil]
            exact .closed hid
  | deliver =>
      rw [socketStep] at h
      split at h
      · cases h
        exact .delivered ‹_›
      · cases h

/-! ## Where the events come from -/

theorem mem_put {store : InMemoryEventStore} (h : x ∈ (store.put e).inner) :
    x ∈ store.inner ∨ e = x := by
  rw [InMemoryEventStore.put] at h
  split_ifs at h
  · rcases List.mem_append.mp h with hmem | hmem
    · exact .inl (List.mem_of_mem_tail hmem)
    · exact .inr (List.mem_singleton.mp hmem).symm
  · rcases List.mem_append.mp h with hmem | hmem
    · exact .inl hmem
    · exact .inr (List.mem_singleton.mp hmem).symm

theorem mem_replaceFirst {p : Event → Bool} {xs ys : List Event}
    (h : InMemoryEventStore.replaceFirst p e xs = some ys) (hx : x ∈ ys) : x ∈ xs ∨ e = x := by
  induction xs generalizing ys with
  | nil => cases h
  | cons y xs ih =>
      rw [InMemoryEventStore.replaceFirst] at h
      split_ifs at h
      · cases h
        rcases List.mem_cons.mp hx with heq | hmem
        · exact .inr heq.symm
        · exact .inl (List.mem_cons_of_mem y hmem)
      · obtain ⟨zs, hzs, rfl⟩ := Option.map_eq_some_iff.mp h
        rcases List.mem_cons.mp hx with heq | hmem
        · rw [heq]
          exact .inl List.mem_cons_self
        · exact (ih hzs hmem).imp_left (List.mem_cons_of_mem y)

/-- What any step of a call leaves behind: it moves on no other call, and what it
stores is its event. -/
structure StepLeaves (calls : ι → Event) (r : RelayState ι) (i : ι) (r' : RelayState ι) :
    Prop where
  undone : r.phase i ≠ .done
  others : ∀ j, j ≠ i → r'.phase j = r.phase j
  stored : ∀ x ∈ r'.store.inner, x ∈ r.store.inner ∨ calls i = x ∧ r'.phase i = .done

theorem stepLeaves_of_step {r r' : RelayState ι} {i : ι} (h : step lib calls r i = some r') :
    StepLeaves calls r i r' := by
  have hothers (phase : Phase) : ∀ j, j ≠ i → Function.update r.phase i phase j = r.phase j :=
    fun j hj => Function.update_of_ne hj _ _
  have hdone : Function.update r.phase i Phase.done i = .done := Function.update_self _ _ _
  cases hphase : r.phase i with
  | done => simp [step, hphase] at h
  | missed =>
      simp only [step, hphase, Option.some.injEq] at h
      rw [← h]
      exact ⟨by simp [hphase], hothers _, fun x hx => (mem_put hx).imp_right fun heq =>
        ⟨heq, hdone⟩⟩
  | pending =>
      have hundone : r.phase i ≠ .done := by simp [hphase]
      cases hverify : (calls i).verify lib with
      | error err =>
          simp only [step, hphase, hverify, Option.some.injEq] at h
          rw [← h]
          exact ⟨hundone, hothers _, fun x hx => .inl hx⟩
      | ok valid =>
          cases stepped_of_step h hverify with
          | ignored => exact ⟨hundone, hothers _, fun x hx => .inl hx⟩
          | missed => exact ⟨hundone, hothers _, fun x hx => .inl hx⟩
          | appended =>
              exact ⟨hundone, hothers _,
                fun x hx => (mem_put hx).imp_right fun heq => ⟨heq, hdone⟩⟩
          | put =>
              exact ⟨hundone, hothers _,
                fun x hx => (mem_put hx).imp_right fun heq => ⟨heq, hdone⟩⟩
          | replaced _ _ hfound =>
              exact ⟨hundone, hothers _,
                fun x hx => (mem_replaceFirst hfound hx).imp_right fun heq => ⟨heq, hdone⟩⟩

theorem mem_liveFrames {subscriptions : Subscriptions} :
    RelayMessage.event sub x ∈ liveFrames subscriptions e → x = e := by
  intro h
  obtain ⟨entry, -, heq⟩ := List.mem_map.mp h
  cases heq
  rfl

theorem phase_done_of_moved (h : Moved lib calls s m t) {i : ι} (hi : s.relay.phase i = .done) :
    t.relay.phase i = .done := by
  cases h with
  | stored hstep =>
      have hleaves := stepLeaves_of_step hstep
      rw [hleaves.others i ?_, hi]
      rintro rfl
      exact hleaves.undone hi
  | _ => exact hi

theorem SocketState.Sourced.step (hs : s.Sourced calls store) (h : Moved lib calls s m t) :
    t.Sourced calls store := by
  have hknown : ∀ x, s.Known calls store x → t.Known calls store x := fun x hx =>
    hx.imp_right fun ⟨i, hi, hphase⟩ => ⟨i, hi, phase_done_of_moved h hphase⟩
  have hsent : ∀ sub x, .event sub x ∈ s.sent → t.Known calls store x := fun sub x hmem =>
    hknown x (hs.sent sub x hmem)
  have hqueued : ∀ queue, s.live = some queue → ∀ x ∈ queue, t.Known calls store x :=
    fun queue hlive x hx => hknown x (hs.queued queue hlive x hx)
  have hstored : ∀ x ∈ s.relay.store.inner, t.Known calls store x := fun x hx =>
    hknown x (hs.stored x hx)
  have hannounced : ∀ i, s.announced i = true → t.relay.phase i = .done := fun i hi =>
    phase_done_of_moved h (hs.announced i hi)
  cases h with
  | stored hstep =>
      refine ⟨fun x hx => ?_, hqueued, hsent, hannounced⟩
      rcases (stepLeaves_of_step hstep).stored x hx with hmem | ⟨heq, hdone⟩
      · exact hstored x hmem
      · exact .inr ⟨_, heq, hdone⟩
  | @broadcast i hphase hnew =>
      refine ⟨hstored, fun queue hlive x hx => ?_, hsent, fun j hj => ?_⟩
      · obtain ⟨queue, hqueue, rfl⟩ := Option.map_eq_some_iff.mp hlive
        rcases List.mem_append.mp hx with hmem | hmem
        · exact hqueued queue hqueue x hmem
        · exact .inr ⟨i, (List.mem_singleton.mp hmem).symm, hphase⟩
      · by_cases hji : j = i
        · rw [hji]
          exact hphase
        · exact hannounced j ((Function.update_of_ne hji _ _).symm.trans hj)
  | connected hlive =>
      refine ⟨hstored, fun queue hqueue x hx => ?_, hsent, hannounced⟩
      cases hqueue
      cases hx
  | refused hparse =>
      refine ⟨hstored, hqueued, fun sub x hmem => ?_, hannounced⟩
      rcases List.mem_append.mp hmem with hmem | hmem
      · exact hsent sub x hmem
      · cases List.mem_singleton.mp hmem
  | @opened arr opened filters hlive hparse =>
      refine ⟨hstored, hqueued, fun sub x hmem => ?_, hannounced⟩
      rcases List.mem_append.mp hmem with hmem | hmem
      · exact hsent sub x hmem
      · rcases List.mem_append.mp hmem with hhistory | heose
        · obtain ⟨y, hy, heq⟩ := List.mem_map.mp hhistory
          cases heq
          exact hstored x (mem_history hy)
        · cases List.mem_singleton.mp heose
  | unheard hid =>
      refine ⟨hstored, hqueued, fun sub x hmem => ?_, hannounced⟩
      rcases List.mem_append.mp hmem with hmem | hmem
      · exact hsent sub x hmem
      · cases List.mem_singleton.mp hmem
  | closed hid => exact ⟨hstored, hqueued, hsent, hannounced⟩
  | @delivered e rest hlive =>
      refine ⟨hstored, fun queue hqueue x hx => ?_, fun sub x hmem => ?_, hannounced⟩
      · cases hqueue
        exact hqueued _ hlive x (List.mem_cons_of_mem e hx)
      · rcases List.mem_append.mp hmem with hmem | hmem
        · exact hsent sub x hmem
        · rw [mem_liveFrames hmem]
          exact hqueued _ hlive e List.mem_cons_self

/-- In every run, what is stored, queued and sent is known. -/
theorem sourced_of_run {sched : List (Move ι)}
    (hrun : Schedule.run (socketStep lib calls) (.boot store) sched = some t) :
    t.Sourced calls store :=
  Schedule.induct (G := fun _ _ => True) (P := fun _ s => s.Sourced calls store) hrun
    (sourced_boot calls) (fun _ _ _ _ _ _ => trivial) fun _ _ _ _ hs _ hstep =>
      hs.step (moved_of_socketStep hstep)

/-! ## What is sent -/

theorem exists_sent_of_moved (h : Moved lib calls s m t) :
    ∃ frames, t.sent = s.sent ++ frames := by
  cases h with
  | refused hparse => exact ⟨_, rfl⟩
  | opened hlive hparse => exact ⟨_, rfl⟩
  | unheard hid => exact ⟨_, rfl⟩
  | delivered hlive => exact ⟨_, rfl⟩
  | _ => exact ⟨[], (List.append_nil _).symm⟩

/-- What is sent stays sent. -/
theorem exists_sent_of_run {moves : List (Move ι)}
    (hrun : Schedule.run (socketStep lib calls) s moves = some t) :
    ∃ frames, t.sent = s.sent ++ frames := by
  refine Schedule.induct (G := fun _ _ => True)
    (P := fun _ u => ∃ frames, u.sent = s.sent ++ frames) hrun ⟨[], (List.append_nil _).symm⟩
    (fun _ _ _ _ _ _ => trivial) ?_
  rintro _ m u v ⟨frames, hu⟩ - hstep
  obtain ⟨more, hv⟩ := exists_sent_of_moved (moved_of_socketStep hstep)
  exact ⟨frames ++ more, by rw [hv, hu, List.append_assoc]⟩

theorem eose_notMem_history {events : List Event} {opened : Str} :
    RelayMessage.eose sub ∉ events.map (.event opened ·) := by
  intro h
  obtain ⟨x, -, heq⟩ := List.mem_map.mp h
  cases heq

theorem eose_notMem_liveFrames {subscriptions : Subscriptions} :
    RelayMessage.eose sub ∉ liveFrames subscriptions e := by
  intro h
  obtain ⟨x, -, heq⟩ := List.mem_map.mp h
  cases heq

theorem count_eose_of_moved (h : Moved lib calls s m t) :
    t.sent.count (.eose sub) = s.sent.count (.eose sub) + [m].countP (Move.opens sub) := by
  cases h with
  | refused hparse => simp [Move.opens, hparse]
  | @opened arr opened filters hlive hparse =>
      rw [List.count_append, List.count_append, List.count_eq_zero_of_not_mem eose_notMem_history]
      by_cases hsub : opened = sub
      · simp [Move.opens, hparse, hsub]
      · simp [Move.opens, hparse, hsub]
  | unheard hid => simp [Move.opens]
  | delivered hlive =>
      rw [List.count_append, List.count_eq_zero_of_not_mem eose_notMem_liveFrames]
      simp [Move.opens]
  | _ => simp [Move.opens]

/-- Each `REQ` that opens a subscription is answered by one end of stored events, and
nothing else is. -/
theorem count_eose_of_run {sched : List (Move ι)}
    (hrun : Schedule.run (socketStep lib calls) (.boot store) sched = some t) :
    t.sent.count (.eose sub) = sched.countP (Move.opens sub) := by
  refine Schedule.induct (G := fun _ _ => True)
    (P := fun sched u => u.sent.count (.eose sub) = sched.countP (Move.opens sub)) hrun rfl
    (fun _ _ _ _ _ _ => trivial) ?_
  intro sched m u v hu _ hstep
  rw [count_eose_of_moved (moved_of_socketStep hstep), hu, List.countP_append]

/-! ## A subscription that is not open -/

theorem event_notMem_liveFrames {subscriptions : Subscriptions}
    (h : subscriptions.lookup sub = none) :
    RelayMessage.event sub x ∉ liveFrames subscriptions e := by
  intro hmem
  obtain ⟨entry, hentry, heq⟩ := List.mem_map.mp hmem
  cases heq
  rw [AList.lookup_eq_none] at h
  exact h (AList.mem_keys.mpr (List.mem_keys_of_mem (List.mem_filter.mp hentry).1))

/-- No step sends an event to a subscription that is not open, and only a `REQ` opens it. -/
theorem silent_of_moved (h : Moved lib calls s m t) (hopens : m.opens sub = false)
    (hnone : s.subscriptions.lookup sub = none) : t.subscriptions.lookup sub = none ∧
      ∃ frames, t.sent = s.sent ++ frames ∧ ∀ x, .event sub x ∉ frames := by
  have hsame : ∃ frames, s.sent = s.sent ++ frames ∧ ∀ x, .event sub x ∉ frames :=
    ⟨[], (List.append_nil _).symm, fun _ => List.not_mem_nil⟩
  cases h with
  | refused hparse => exact ⟨hnone, _, rfl, by simp⟩
  | @opened arr opened filters hlive hparse =>
      have hne : opened ≠ sub := by simpa [Move.opens, hparse] using hopens
      refine ⟨by rw [AList.lookup_insert_ne hne.symm, hnone], _, rfl, ?_⟩
      intro x hmem
      rcases List.mem_append.mp hmem with hhistory | heose
      · obtain ⟨y, -, heq⟩ := List.mem_map.mp hhistory
        exact hne (RelayMessage.event.inj heq).1
      · cases List.mem_singleton.mp heose
  | unheard hid => exact ⟨hnone, _, rfl, by simp⟩
  | @closed arr closed hid =>
      refine ⟨?_, hsame⟩
      by_cases hclosed : sub = closed
      · rw [hclosed, AList.lookup_erase]
      · rw [AList.lookup_erase_ne hclosed, hnone]
  | delivered hlive => exact ⟨hnone, _, rfl, fun x => event_notMem_liveFrames hnone⟩
  | _ => exact ⟨hnone, hsame⟩

theorem silent_of_run {moves : List (Move ι)} (hopens : ∀ m ∈ moves, m.opens sub = false)
    (hnone : s.subscriptions.lookup sub = none)
    (hrun : Schedule.run (socketStep lib calls) s moves = some t) :
    ∃ frames, t.sent = s.sent ++ frames ∧ ∀ x, .event sub x ∉ frames := by
  induction moves generalizing s with
  | nil =>
      cases hrun
      exact ⟨[], (List.append_nil _).symm, fun _ => List.not_mem_nil⟩
  | cons m moves ih =>
      rw [Schedule.run_cons] at hrun
      obtain ⟨u, hstep, hrest⟩ := Option.bind_eq_some_iff.mp hrun
      obtain ⟨hopensm, hopens⟩ := List.forall_mem_cons.mp hopens
      obtain ⟨hu, frames, hsent, hframes⟩ :=
        silent_of_moved (moved_of_socketStep hstep) hopensm hnone
      obtain ⟨more, hmore, hsilent⟩ := ih hopens hu hrest
      refine ⟨frames ++ more, by rw [hmore, hsent, List.append_assoc], fun x hx => ?_⟩
      exact (List.mem_append.mp hx).elim (hframes x) (hsilent x)

/-! ## A subscription that is open -/

/-- A live event makes one frame for an open subscription that it matches. -/
theorem count_liveFrames {subscriptions : Subscriptions} {filters : List Filter}
    (h : subscriptions.lookup sub = some filters) (hmatches : ∃ f ∈ filters, f.matches e = true) :
    (liveFrames subscriptions x).count (.event sub e) = if x = e then 1 else 0 := by
  split_ifs with hx
  · rw [hx]
    have hframes : liveFrames subscriptions e =
        ((subscriptions.entries.filter fun s => s.2.any fun f => f.matches e).map
          Sigma.fst).map (RelayMessage.event · e) := by
      rw [liveFrames, List.map_map]
      rfl
    have hinjective : Function.Injective (RelayMessage.event · e) := fun a b hab =>
      (RelayMessage.event.inj hab).1
    rw [hframes, List.count_map_of_injective _ _ hinjective]
    refine List.count_eq_one_of_mem ?_ ?_
    · exact subscriptions.nodupKeys.sublist List.filter_sublist
    · refine List.mem_map.mpr ⟨⟨sub, filters⟩, List.mem_filter.mpr ⟨?_, ?_⟩, rfl⟩
      · exact AList.mem_lookup_iff.mp h
      · exact List.any_eq_true.mpr hmatches
  · exact List.count_eq_zero_of_not_mem fun hmem => hx (mem_liveFrames hmem).symm

/-- The copies of an event that a subscription has got, and those in the queue. -/
def SocketState.due (sub : Str) (e : Event) (s : SocketState ι) : Nat :=
  s.sent.count (.event sub e) + (s.live.getD []).count e

/-- A connection with an open subscription. -/
structure SocketState.Open (sub : Str) (filters : List Filter) (s : SocketState ι) : Prop where
  connected : s.live ≠ none
  subscribed : s.subscriptions.lookup sub = some filters

/-- A move that neither closes the subscription nor opens it anew. -/
def Move.Keeps (sub : Str) (m : Move ι) : Prop := m.opens sub = false ∧ m.closes sub = false

theorem open_of_moved {filters : List Filter} (h : Moved lib calls s m t) (hkeeps : m.Keeps sub)
    (hopen : s.Open sub filters) : t.Open sub filters := by
  cases h with
  | broadcast hphase hnew =>
      refine ⟨?_, hopen.subscribed⟩
      rw [Ne, Option.map_eq_none_iff]
      exact hopen.connected
  | connected hlive => exact absurd hlive hopen.connected
  | @opened arr opened filters hlive hparse =>
      have hne : opened ≠ sub := by simpa [Move.opens, hparse] using hkeeps.1
      exact ⟨hopen.connected, by rw [AList.lookup_insert_ne hne.symm, hopen.subscribed]⟩
  | @closed arr closed hid =>
      have hne : closed ≠ sub := by simpa [Move.closes, hid] using hkeeps.2
      exact ⟨hopen.connected, by rw [AList.lookup_erase_ne hne.symm, hopen.subscribed]⟩
  | delivered hlive => exact ⟨Option.some_ne_none _, hopen.subscribed⟩
  | _ => exact ⟨hopen.connected, hopen.subscribed⟩

/-- Only a broadcast of the event adds to its copies. -/
theorem due_of_moved {filters : List Filter} (h : Moved lib calls s m t) (hkeeps : m.Keeps sub)
    (hopen : s.Open sub filters) (hmatches : ∃ f ∈ filters, f.matches e = true) :
    t.due sub e = s.due sub e + (Move.announcements [m]).countP fun i => calls i = e := by
  cases h with
  | stored hstep => rfl
  | @broadcast i hphase hnew =>
      obtain ⟨queue, hqueue⟩ := Option.ne_none_iff_exists'.mp hopen.connected
      simp [SocketState.due, Move.announcements, hqueue, Nat.add_assoc, List.count_singleton]
  | connected hlive => exact absurd hlive hopen.connected
  | refused hparse => simp [SocketState.due, Move.announcements]
  | @opened arr opened filters' hlive hparse =>
      have hne : opened ≠ sub := by simpa [Move.opens, hparse] using hkeeps.1
      have hframes : RelayMessage.event sub e ∉
          (history s.relay.store.inner filters').map (RelayMessage.event opened ·) := by
        intro hmem
        obtain ⟨y, -, heq⟩ := List.mem_map.mp hmem
        exact hne (RelayMessage.event.inj heq).1
      simp [SocketState.due, Move.announcements, List.count_eq_zero_of_not_mem hframes]
  | unheard hid => simp [SocketState.due, Move.announcements]
  | closed hid => rfl
  | @delivered x rest hlive =>
      have hframes := count_liveFrames (x := x) hopen.subscribed hmatches
      simp only [SocketState.due, Move.announcements, hlive, hframes, List.count_append,
        List.count_cons, Option.getD_some, beq_iff_eq, List.filterMap_cons_none,
        List.filterMap_nil, List.countP_nil]
      omega

/-- The copies that a run adds are those of its broadcasts. -/
theorem due_of_run {filters : List Filter} {moves : List (Move ι)}
    (hkeeps : ∀ m ∈ moves, m.Keeps sub) (hopen : s.Open sub filters)
    (hmatches : ∃ f ∈ filters, f.matches e = true)
    (hrun : Schedule.run (socketStep lib calls) s moves = some t) :
    t.due sub e = s.due sub e + (Move.announcements moves).countP fun i => calls i = e := by
  induction moves generalizing s with
  | nil =>
      cases hrun
      rfl
  | cons m moves ih =>
      rw [Schedule.run_cons] at hrun
      obtain ⟨u, hstep, hrest⟩ := Option.bind_eq_some_iff.mp hrun
      obtain ⟨hkeepsm, hkeeps⟩ := List.forall_mem_cons.mp hkeeps
      have hmoved := moved_of_socketStep hstep
      have hsplit := Move.announcements_append [m] moves
      rw [List.singleton_append] at hsplit
      rw [ih hkeeps (open_of_moved hmoved hkeepsm hopen) hrest,
        due_of_moved hmoved hkeepsm hopen hmatches, hsplit, List.countP_append, Nat.add_assoc]

/-- Whose broadcasts a run has: each of them is one that had none before. -/
structure Announced (s : SocketState ι) (moves : List (Move ι)) (t : SocketState ι) : Prop where
  nodup : (Move.announcements moves).Nodup
  fresh : ∀ i ∈ Move.announcements moves, s.announced i = false
  announced : ∀ i, t.announced i = true ↔ s.announced i = true ∨ i ∈ Move.announcements moves

theorem announced_of_run {moves : List (Move ι)}
    (hrun : Schedule.run (socketStep lib calls) s moves = some t) : Announced s moves t := by
  refine Schedule.induct (G := fun _ _ => True) (P := fun moves u => Announced s moves u) hrun
    ⟨List.nodup_nil, by simp [Move.announcements], by simp [Move.announcements]⟩
    (fun _ _ _ _ _ _ => trivial) ?_
  intro moves m u v hu _ hstep
  have hsplit := Move.announcements_append moves [m]
  cases moved_of_socketStep hstep with
  | @broadcast i hphase hnew =>
      have hbefore : s.announced i ≠ true ∧ i ∉ Move.announcements moves := by
        rw [← not_or, ← hu.announced i, hnew]
        exact Bool.false_ne_true
      rw [show Move.announcements [Move.broadcast i] = [i] from rfl] at hsplit
      refine ⟨?_, ?_, ?_⟩
      · rw [hsplit]
        exact List.nodup_append.mpr ⟨hu.nodup, List.nodup_singleton i, by
          intro j hj k hk heq
          rw [heq, List.mem_singleton.mp hk] at hj
          exact hbefore.2 hj⟩
      · intro j hj
        rw [hsplit] at hj
        rcases List.mem_append.mp hj with hmem | hmem
        · exact hu.fresh j hmem
        · rw [List.mem_singleton.mp hmem]
          exact (Bool.not_eq_true _).mp hbefore.1
      · intro j
        rw [hsplit, List.mem_append, List.mem_singleton, ← or_assoc, ← hu.announced j]
        by_cases hji : j = i
        · simp [hji]
        · simp [hji]
  | _ =>
      have hnone := hsplit.trans (List.append_nil _)
      exact ⟨hnone.symm ▸ hu.nodup, hnone.symm ▸ hu.fresh, hnone.symm ▸ hu.announced⟩

omit [DecidableEq ι] in
theorem due_eq_zero (hs : s.Sourced calls store) (hunknown : ¬ s.Known calls store e) :
    s.due sub e = 0 := by
  have hsent : RelayMessage.event sub e ∉ s.sent := fun hmem => hunknown (hs.sent sub e hmem)
  have hqueued : e ∉ s.live.getD [] := by
    intro hmem
    cases hlive : s.live with
    | none =>
        rw [hlive] at hmem
        cases hmem
    | some queue =>
        rw [hlive] at hmem
        exact hunknown (hs.queued queue hlive e hmem)
  rw [SocketState.due, List.count_eq_zero_of_not_mem hsent, List.count_eq_zero_of_not_mem hqueued]

/-- The broadcasts of an event whose calls all begin and end in the run. -/
theorem card_announcements {moves : List (Move ι)} {c : Finset ι} (h : Announced s moves t)
    (hsource : t.Sourced calls store) (hsettled : t.Settled lib calls)
    (hvalid : e.verify lib = .ok ()) (hnew : ∀ i, calls i = e → s.announced i = false)
    (hc : ∀ i, i ∈ c ↔ calls i = e ∧ t.relay.phase i = .done) :
    (Move.announcements moves).countP (fun i => calls i = e) = c.card := by
  have hset : ((Move.announcements moves).filter fun i => calls i = e).toFinset = c := by
    ext i
    rw [List.mem_toFinset, List.mem_filter, hc, decide_eq_true_eq, and_comm]
    refine and_congr_right fun hi => ?_
    have hsplit := h.announced i
    rw [hnew i hi] at hsplit
    constructor
    · intro hmem
      exact hsource.announced i (hsplit.mpr (.inr hmem))
    · intro hdone
      have hvalidi : (calls i).verify lib = .ok () := by rw [hi, hvalid]
      exact (hsplit.mp (hsettled.announced i hdone hvalidi)).resolve_left Bool.false_ne_true
  rw [List.countP_eq_length_filter, ← hset, List.toFinset_card_of_nodup (h.nodup.filter _)]

/-! ## What a subscription is promised -/

variable (lib calls store) in
/-- What the frames of a run add up to. -/
structure Served (sched : List (Move ι)) (t : SocketState ι) : Prop where
  /-- An event that is new to the relay at the `REQ` is sent once for each call that has
  stored it, so once if a single call carries it. -/
  oncePerCall : ∀ {pre post : List (Move ι)} {arr : List Json} {u : SocketState ι} {sub : Str}
    {filters : List Filter} {e : Event} {c : Finset ι}, sched = pre ++ .req arr :: post →
    Schedule.run (socketStep lib calls) (.boot store) pre = some u →
    parseReq arr = .ok (sub, filters) → (∀ m ∈ post, m.Keeps sub) → e.verify lib = .ok () →
    (∃ f ∈ filters, f.matches e = true) → e ∉ store.inner →
    (∀ i, calls i = e → u.relay.phase i = .pending) → t.Settled lib calls →
    (∀ i, i ∈ c ↔ calls i = e ∧ t.relay.phase i = .done) → t.sent.count (.event sub e) = c.card
  /-- A stored event is sent by its id. -/
  replayed : ∀ {pre post : List (Move ι)} {arr : List Json} {u : SocketState ι} {sub : Str}
    {filters : List Filter} {f : Filter} {e : Event}, sched = pre ++ .req arr :: post →
    Schedule.run (socketStep lib calls) (.boot store) pre = some u →
    parseReq arr = .ok (sub, filters) → f ∈ filters → f.limit = none → f.matches e = true →
    e ∈ u.relay.store.inner → ∃ x, x.id = e.id ∧ .event sub x ∈ t.sent
  /-- The history of a subscription comes before its end of stored events. -/
  answered : ∀ {pre post : List (Move ι)} {arr : List Json} {u : SocketState ι} {sub : Str}
    {filters : List Filter}, sched = pre ++ .req arr :: post →
    Schedule.run (socketStep lib calls) (.boot store) pre = some u →
    parseReq arr = .ok (sub, filters) → ∃ later, t.sent = u.sent ++
      ((history u.relay.store.inner filters).map (.event sub ·) ++ [.eose sub]) ++ later
  ended : ∀ sub, t.sent.count (.eose sub) = sched.countP (Move.opens sub)
  /-- A subscription that is closed is sent no event until it is opened again. -/
  closed : ∀ {pre post : List (Move ι)} {arr : List Json} {u : SocketState ι} {sub : Str},
    sched = pre ++ .close arr :: post →
    Schedule.run (socketStep lib calls) (.boot store) pre = some u →
    subscriptionId arr = some sub → (∀ m ∈ post, m.opens sub = false) →
    ∃ later, t.sent = u.sent ++ later ∧ ∀ x, .event sub x ∉ later

/-- The state after a move inside a run. -/
theorem exists_run_split {pre post : List (Move ι)}
    (hrun : Schedule.run (socketStep lib calls) s (pre ++ m :: post) = some t)
    (hpre : Schedule.run (socketStep lib calls) s pre = some u) :
    ∃ v, Moved lib calls u m v ∧ Schedule.run (socketStep lib calls) s (pre ++ [m]) = some v ∧
      Schedule.run (socketStep lib calls) v post = some t := by
  rw [Schedule.run_append, hpre, Option.bind_some, Schedule.run_cons] at hrun
  obtain ⟨v, hstep, hpost⟩ := Option.bind_eq_some_iff.mp hrun
  refine ⟨v, moved_of_socketStep hstep, ?_, hpost⟩
  rw [Schedule.run_concat, hpre, Option.bind_some, hstep]

/-- Every run serves its subscriptions. -/
theorem served_of_run {sched : List (Move ι)}
    (hrun : Schedule.run (socketStep lib calls) (.boot store) sched = some t) :
    Served lib calls store sched t where
  oncePerCall := by
    intro pre post arr u sub filters e c hsched hpre hparse hkeeps hvalid hmatches hstore
      hpending hsettled hc
    subst hsched
    obtain ⟨v, hmoved, hv, hpost⟩ := exists_run_split hrun hpre
    have hphase : v.relay = u.relay ∧ v.announced = u.announced ∧ v.Open sub filters := by
      cases hmoved with
      | refused hrefused => cases hparse.symm.trans hrefused
      | opened hlive hopened =>
          cases hparse.symm.trans hopened
          exact ⟨rfl, rfl, hlive, AList.lookup_insert _⟩
    obtain ⟨hrelay, hannounced, hopen⟩ := hphase
    have hunknown : ¬ v.Known calls store e := by
      rintro (hmem | ⟨i, hi, hdone⟩)
      · exact hstore hmem
      · rw [hrelay, hpending i hi] at hdone
        cases hdone
    have hnew : ∀ i, calls i = e → v.announced i = false := by
      intro i hi
      rw [hannounced]
      by_contra htrue
      have hdone := (sourced_of_run hpre).announced i ((Bool.not_eq_false _).mp htrue)
      rw [hpending i hi] at hdone
      cases hdone
    have hdue := due_of_run hkeeps hopen hmatches hpost
    rw [due_eq_zero (sourced_of_run hv) hunknown, Nat.zero_add,
      card_announcements (announced_of_run hpost) (sourced_of_run hrun) hsettled hvalid hnew hc,
      SocketState.due, hsettled.delivered] at hdue
    exact hdue
  replayed := by
    intro pre post arr u sub filters f e hsched hpre hparse hf hlimit hmatches he
    subst hsched
    obtain ⟨v, hmoved, -, hpost⟩ := exists_run_split hrun hpre
    obtain ⟨later, hlater⟩ := exists_sent_of_run hpost
    obtain ⟨x, hx, hid⟩ := exists_id_history hf hlimit he hmatches
    refine ⟨x, hid, ?_⟩
    cases hmoved with
    | refused hrefused => cases hparse.symm.trans hrefused
    | opened hlive hopened =>
        cases hparse.symm.trans hopened
        rw [hlater]
        refine List.mem_append_left _ (List.mem_append_right _ (List.mem_append_left _ ?_))
        exact List.mem_map_of_mem hx
  answered := by
    intro pre post arr u sub filters hsched hpre hparse
    subst hsched
    obtain ⟨v, hmoved, -, hpost⟩ := exists_run_split hrun hpre
    cases hmoved with
    | refused hrefused => cases hparse.symm.trans hrefused
    | opened hlive hopened =>
        cases hparse.symm.trans hopened
        exact exists_sent_of_run hpost
  ended sub := count_eose_of_run hrun
  closed := by
    intro pre post arr u sub hsched hpre hid hopens
    subst hsched
    obtain ⟨v, hmoved, -, hpost⟩ := exists_run_split hrun hpre
    cases hmoved with
    | unheard hnone => cases hid.symm.trans hnone
    | closed hclosed =>
        cases hid.symm.trans hclosed
        have hsilent := silent_of_run hopens (AList.lookup_erase _ _) hpost
        exact hsilent

end Runs

/-! ## A note -/

/-- A note of the author whose key is all zeros. -/
def zeroNote (signature : Char) : Event where
  id := List.replicate 64 '0'
  pubkey := List.replicate 64 '0'
  createdAt := 1
  kind := 1
  tags := []
  content := []
  sig := List.replicate 128 signature

/-- The subscription to everything. -/
def allReq : List Json := [.string "REQ", .string "all", .object []]

def allClose : List Json := [.string "CLOSE", .string "all"]

/-- A note that is stored after the subscription is sent once. -/
theorem served_of_run_zeroNote : ∃ t, Schedule.run
    (socketStep zeroLibrary fun _ : Unit => zeroNote '0') (.boot (.new 10))
      [.connect, .req allReq, .store (), .broadcast (), .deliver] = some t ∧
    Served zeroLibrary (fun _ => zeroNote '0') (.new 10)
      [.connect, .req allReq, .store (), .broadcast (), .deliver] t ∧
    t.sent.count (.event "all" (zeroNote '0')) = 1 :=
  ⟨_, rfl, served_of_run rfl, rfl⟩

set_option maxRecDepth 2048 in
/-- A note is sent twice if two calls carry it, or if its subscription is asked for again
while it is on its way. Of two notes with one id, one is sent. And a subscription that is
opened after its `CLOSE` is sent events. -/
theorem not_sentOnce :
    (∃ t, Schedule.run (socketStep zeroLibrary fun _ : Bool => zeroNote '0') (.boot (.new 10))
        [.connect, .req allReq, .store true, .store false, .broadcast true, .broadcast false,
          .deliver, .deliver] = some t ∧
      t.sent.count (.event "all" (zeroNote '0')) = 2) ∧
    (∃ t, Schedule.run (socketStep zeroLibrary fun _ : Unit => zeroNote '0') (.boot (.new 10))
        [.connect, .req allReq, .store (), .req allReq, .broadcast (), .deliver] = some t ∧
      t.sent.count (.event "all" (zeroNote '0')) = 2) ∧
    (∃ t, Schedule.run (socketStep zeroLibrary fun first : Bool =>
          zeroNote (if first then '0' else '1')) (.boot (.new 10))
        [.store true, .broadcast true, .store false, .broadcast false, .connect,
          .req allReq] = some t ∧
      t.relay.store.inner = [zeroNote '0', zeroNote '1'] ∧
      t.sent.count (.event "all" (zeroNote '1')) = 0) ∧
    ∃ t, Schedule.run (socketStep zeroLibrary fun _ : Unit => zeroNote '0') (.boot (.new 10))
        [.connect, .close allClose, .req allReq, .store (), .broadcast (), .deliver] = some t ∧
      t.sent.count (.event "all" (zeroNote '0')) = 1 :=
  ⟨⟨_, rfl, rfl⟩, ⟨_, rfl, rfl⟩, ⟨_, rfl, rfl, rfl⟩, ⟨_, rfl, rfl⟩⟩

end Nostr

end SolidPod
