import SolidPod.Foundation.ChangeFeed
import SolidPod.Foundation.Schedule
import SolidPod.Notifications.Basic
import SolidPod.Storage.Memory

/-!
# The event stream of the in-memory backend

A put and a delete change the map under its lock, and send their event to the
watchers after they have released it. So the events of several calls may go out in
another order than their changes were made in. The stream tells the truth exactly
as long as each event that is sent agrees with the map, once the events that are
still to be sent are counted.
-/

namespace SolidPod

open Foundation Str Notifications

def Notifications.StorageEvent.change : StorageEvent → Change Str
  | .created path => ⟨path, false, true⟩
  | .updated path => ⟨path, true, true⟩
  | .deleted path => ⟨path, true, false⟩

theorem Notifications.StorageEvent.key_change (e : StorageEvent) : e.change.key = e.path := by
  cases e with
  | created => rfl
  | updated => rfl
  | deleted => rfl

namespace MemoryBackend

variable {digest : Bytes → Str}

def paths (s : MemoryBackend digest) : Finset Str := s.data.keys.toFinset

theorem mem_paths {s : MemoryBackend digest} {p : Str} : p ∈ s.paths ↔ p ∈ s.data := by
  rw [paths, List.mem_toFinset, AList.mem_keys]

/-- A call that writes. -/
inductive WriteCall where
  | put (path : Str) (body : Bytes) (contentType : Str)
  | delete (path : Str)

/-- What a call does under the lock, and the event it has to send after that. -/
def WriteCall.update (s : MemoryBackend digest) :
    WriteCall → Option StorageEvent × MemoryBackend digest
  | .put path body contentType =>
    let existed := (s.data.lookup (normalize path)).isSome
    (some (if existed then .updated (normalize path) else .created (normalize path)),
      (s.put path body contentType).2)
  | .delete path =>
    match s.delete path with
    | (.ok (), s') => (some (.deleted (normalize path)), s')
    | (.error _, s') => (none, s')

/-- The map with the calls in flight. Between its two steps a call has its event in `unsent`,
where the events stand in the order of their changes. -/
structure Watched (digest : Bytes → Str) (ι : Type*) where
  backend : MemoryBackend digest
  begun : ι → Bool
  unsent : List (ι × StorageEvent)
  stream : List StorageEvent

namespace Watched

section Steps

variable {ι : Type*} [DecidableEq ι] (calls : ι → WriteCall)

def start (s : MemoryBackend digest) : Watched digest ι := ⟨s, fun _ => false, [], []⟩

/-- The next step of a call: the change under the lock, or the event. -/
def step (s : Watched digest ι) (i : ι) : Option (Watched digest ι) :=
  if s.begun i then
    match s.unsent.lookup i with
    | none => none
    | some event =>
      some { s with
        unsent := s.unsent.eraseP fun x => i == x.1
        stream := s.stream ++ [event] }
  else
    let (event, backend) := (calls i).update s.backend
    some
      { s with
        backend := backend
        begun := Function.update s.begun i true
        unsent := s.unsent ++ (event.map (i, ·)).toList }

end Steps

variable {ι : Type*} {initial : Finset Str}

def events (s : Watched digest ι) : List StorageEvent := s.unsent.map Prod.snd

/-- The stream is coherent, and when no event is left to be sent, as after the end of
all calls, it leaves the paths of the map. -/
structure TellsTruth (initial : Finset Str) (s : Watched digest ι) : Prop where
  coherent : Change.Coherent initial (s.stream.map StorageEvent.change)
  replay : s.unsent = [] →
    Change.replay initial (s.stream.map StorageEvent.change) = s.backend.paths

/-- An event that is sent agrees with the map: a path is in the map, counted with its
deletions that are still to be sent, as often as the event says, counted with the
creations. -/
def Balanced [DecidableEq ι] (s : Watched digest ι) (i : ι) : Prop :=
  ∀ e, s.begun i = true → s.unsent.lookup i = some e →
    (decide (e.path ∈ s.backend.paths)).toNat + s.events.count (.deleted e.path) =
      e.change.before.toNat + s.events.count (.created e.path)

/-- No event of the same path was to be sent before. -/
def InTurn (s : Watched digest ι) (i : ι) : Prop :=
  ∀ front e back, s.unsent = front ++ (i, e) :: back → ∀ x ∈ front, x.2.path ≠ e.path

/-- The changes of the map in their order: they are the events sent and unsent. -/
def HasHistory (initial : Finset Str) (s : Watched digest ι) : Prop :=
  ∃ history : List (Change Str), Change.Coherent initial history ∧
    history.Perm ((s.stream ++ s.events).map StorageEvent.change) ∧
      Change.replay initial history = s.backend.paths

/-! ## What a step does -/

/-- The event of a change fits the paths before it and leads to the paths after it. -/
theorem update_spec (c : WriteCall) (s : MemoryBackend digest) :
    (∃ e s', c.update s = (some e, s') ∧ Change.Fits s.paths e.change ∧
      s'.paths = Change.apply s.paths e.change) ∨ c.update s = (none, s) := by
  cases c with
  | put path body contentType =>
      refine .inl ⟨_, _, rfl, ?_, ?_⟩
      · cases h : (s.data.lookup (normalize path)).isSome with
        | true =>
            have hmem := mem_paths.mpr (AList.lookup_isSome.mp h)
            simp [StorageEvent.change, Change.Fits, hmem]
        | false =>
            have hmem : normalize path ∉ s.paths := by
              rw [mem_paths, ← AList.lookup_isSome, h]
              exact Bool.false_ne_true
            simp [StorageEvent.change, Change.Fits, hmem]
      · ext k
        have hmem : k ∈ (s.put path body contentType).2.paths ↔
            k = normalize path ∨ k ∈ s.paths := by
          rw [mem_paths, put, AList.mem_insert, mem_paths]
        rw [hmem]
        cases h : (s.data.lookup (normalize path)).isSome with
        | true => simp [StorageEvent.change, Change.apply]
        | false => simp [StorageEvent.change, Change.apply]
  | delete path =>
      rw [WriteCall.update, delete]
      cases h : s.data.lookup (normalize path) with
      | none => exact .inr rfl
      | some found =>
          have hmem : normalize path ∈ s.paths :=
            mem_paths.mpr (AList.lookup_isSome.mp (by rw [h]; rfl))
          refine .inl ⟨_, _, rfl, ?_, ?_⟩
          · simp [StorageEvent.change, Change.Fits, hmem]
          · ext k
            rw [mem_paths, AList.mem_erase]
            simp [StorageEvent.change, Change.apply, mem_paths]

section Runs

variable [DecidableEq ι] {calls : ι → WriteCall} {s t : Watched digest ι} {i : ι}

/-- What a step can do. -/
inductive Stepped (s : Watched digest ι) (i : ι) : Watched digest ι → Prop
  | changed {e : StorageEvent} {backend : MemoryBackend digest} {begun : ι → Bool}
      (hbegun : s.begun i = false) (hfits : Change.Fits s.backend.paths e.change)
      (hpaths : backend.paths = Change.apply s.backend.paths e.change) :
      Stepped s i ⟨backend, begun, s.unsent ++ [(i, e)], s.stream⟩
  | refused {begun : ι → Bool} (hbegun : s.begun i = false) : Stepped s i { s with begun := begun }
  | sent {front back : List (ι × StorageEvent)} {e : StorageEvent} (hbegun : s.begun i = true)
      (hunsent : s.unsent = front ++ (i, e) :: back) (hlookup : s.unsent.lookup i = some e) :
      Stepped s i { s with unsent := front ++ back, stream := s.stream ++ [e] }

theorem stepped_of_step (h : step calls s i = some t) : Stepped s i t := by
  rw [step] at h
  cases hbegun : s.begun i with
  | false =>
      simp only [hbegun, Bool.false_eq_true, if_false, Option.some.injEq] at h
      rcases update_spec (calls i) s.backend with ⟨e, backend, heq, hfits, hpaths⟩ | heq
      · rw [heq] at h
        rw [← h]
        exact .changed hbegun hfits hpaths
      · rw [heq] at h
        rw [← h, Option.map_none, Option.toList_none, List.append_nil]
        exact .refused hbegun
  | true =>
      simp only [hbegun, if_true] at h
      cases hlookup : s.unsent.lookup i with
      | none =>
          rw [hlookup] at h
          cases h
      | some e =>
          obtain ⟨front, back, hunsent, hfront⟩ := List.lookup_eq_some_iff.mp hlookup
          have herase : s.unsent.eraseP (fun x => i == x.1) = front ++ back := by
            rw [hunsent, List.eraseP_append_right _ (by simpa using hfront),
              List.eraseP_cons_of_pos (by simp)]
          rw [hlookup] at h
          cases h
          rw [herase]
          exact .sent hbegun hunsent hlookup

omit [DecidableEq ι] in
theorem hasHistory_start (s : MemoryBackend digest) :
    HasHistory s.paths (start s : Watched digest ι) :=
  ⟨[], trivial, List.Perm.nil, rfl⟩

theorem HasHistory.stepped (h : HasHistory initial s) (hstep : Stepped s i t) :
    HasHistory initial t := by
  obtain ⟨history, hcoherent, hperm, hpaths⟩ := h
  cases hstep with
  | @changed e backend begun hbegun hfits hnext =>
      refine ⟨history ++ [e.change], ?_, ?_, ?_⟩
      · rw [Change.coherent_concat, hpaths]
        exact ⟨hcoherent, hfits⟩
      · have happend := hperm.append_right [e.change]
        simpa [events] using happend
      · rw [Change.replay_append, hpaths, hnext]
        rfl
  | refused hbegun => exact ⟨history, hcoherent, hperm, hpaths⟩
  | @sent front back e hbegun hunsent hlookup =>
      refine ⟨history, hcoherent, hperm.trans (List.Perm.map _ ?_), hpaths⟩
      rw [events, hunsent, events, List.map_append, List.map_cons, List.append_assoc,
        List.map_append]
      exact List.perm_middle.append_left _

/-! ## The truth of the stream -/

theorem gain_map_change (p : Str) (es : List StorageEvent) :
    Change.gain p (es.map StorageEvent.change) =
      (es.count (.created p) : ℤ) - es.count (.deleted p) := by
  induction es with
  | nil => rfl
  | cons e es ih =>
      rw [List.map_cons, ← List.singleton_append, Change.gain_append, ih, List.count_cons,
        List.count_cons]
      cases e with
      | created q =>
          by_cases h : q = p
          · simp [Change.gain, StorageEvent.change, h]
            omega
          · simp [Change.gain, StorageEvent.change, h]
      | updated q => simp [Change.gain, StorageEvent.change]
      | deleted q =>
          by_cases h : q = p
          · simp [Change.gain, StorageEvent.change, h]
            omega
          · simp [Change.gain, StorageEvent.change, h]

omit [DecidableEq ι] in
theorem HasHistory.tellsTruth_iff_coherent (h : HasHistory initial s) :
    TellsTruth initial s ↔ Change.Coherent initial (s.stream.map StorageEvent.change) := by
  refine ⟨fun htruth => htruth.coherent, fun hcoherent => ⟨hcoherent, fun hunsent => ?_⟩⟩
  obtain ⟨history, hhistory, hperm, hpaths⟩ := h
  rw [events, hunsent, List.map_nil, List.append_nil] at hperm
  rw [← hpaths, hhistory.replay_eq_of_perm hcoherent hperm]

omit [DecidableEq ι] in
/-- The keys that a coherent stream leaves, counted with the unsent events, are those of
the map. -/
theorem HasHistory.toNat_mem (h : HasHistory initial s)
    (hcoherent : Change.Coherent initial (s.stream.map StorageEvent.change)) (p : Str) :
    (decide (p ∈ s.backend.paths)).toNat + s.events.count (.deleted p) =
      (decide (p ∈ Change.replay initial (s.stream.map StorageEvent.change))).toNat +
        s.events.count (.created p) := by
  obtain ⟨history, hhistory, hperm, hpaths⟩ := h
  have hmap := hhistory.toNat_mem p
  have hstream := hcoherent.toNat_mem p
  rw [hpaths, Change.gain_perm hperm, List.map_append, Change.gain_append,
    gain_map_change p s.events] at hmap
  omega

theorem HasHistory.tellsTruth_iff_balanced (h : HasHistory initial s)
    (htruth : TellsTruth initial s) (hstep : Stepped s i t) :
    TellsTruth initial t ↔ Balanced s i := by
  rw [(h.stepped hstep).tellsTruth_iff_coherent]
  cases hstep with
  | changed hbegun hfits hnext =>
      refine iff_of_true htruth.coherent fun e hb => ?_
      rw [hbegun] at hb
      cases hb
  | refused hbegun =>
      refine iff_of_true htruth.coherent fun e hb => ?_
      rw [hbegun] at hb
      cases hb
  | @sent front back e hbegun hunsent hlookup =>
      have hbalance := h.toNat_mem htruth.coherent e.path
      have hfits : Balanced s i ↔
          Change.Fits (Change.replay initial (s.stream.map StorageEvent.change)) e.change := by
        rw [Change.Fits, StorageEvent.key_change]
        constructor
        · intro hall
          have heq := hall e hbegun hlookup
          rw [hbalance, Nat.add_right_cancel_iff] at heq
          exact Change.toNat_inj heq
        · intro heq e' _ hlookup'
          rw [hlookup] at hlookup'
          cases hlookup'
          rw [hbalance, heq]
      rw [hfits, List.map_append, List.map_singleton, Change.coherent_concat,
        and_iff_right htruth.coherent]

/-- The events sent, and then the unsent ones, are the changes of the map in their order. -/
structure InOrder (initial : Finset Str) (s : Watched digest ι) : Prop where
  coherent : Change.Coherent initial ((s.stream ++ s.events).map StorageEvent.change)
  paths : Change.replay initial ((s.stream ++ s.events).map StorageEvent.change) =
    s.backend.paths

omit [DecidableEq ι] in
theorem InOrder.tellsTruth (h : InOrder initial s) : TellsTruth initial s := by
  have hhistory : HasHistory initial s := ⟨_, h.coherent, List.Perm.refl _, h.paths⟩
  have hcoherent := h.coherent
  rw [List.map_append, Change.coherent_append] at hcoherent
  exact hhistory.tellsTruth_iff_coherent.mpr hcoherent.1

theorem InOrder.stepped (h : InOrder initial s) (hturn : InTurn s i) (hstep : Stepped s i t) :
    InOrder initial t := by
  cases hstep with
  | @changed e backend begun hbegun hfits hnext =>
      have hevents : (s.stream ++ (s.unsent ++ [(i, e)]).map Prod.snd).map StorageEvent.change =
          (s.stream ++ s.events).map StorageEvent.change ++ [e.change] := by
        simp [events]
      constructor
      · rw [events, hevents, Change.coherent_concat, h.paths]
        exact ⟨h.coherent, hfits⟩
      · rw [events, hevents, Change.replay_append, h.paths, hnext]
        rfl
  | refused hbegun => exact ⟨h.coherent, h.paths⟩
  | @sent front back e hbegun hunsent hlookup =>
      have hbefore : (s.stream ++ s.events).map StorageEvent.change =
          s.stream.map StorageEvent.change ++
            ((front.map fun x => x.2.change) ++ e.change :: back.map fun x => x.2.change) := by
        simp only [events, hunsent, List.map_append, List.map_cons, List.map_map]
        rfl
      have hafter : (s.stream ++ [e] ++ (front ++ back).map Prod.snd).map StorageEvent.change =
          s.stream.map StorageEvent.change ++
            (e.change :: ((front.map fun x => x.2.change) ++ back.map fun x => x.2.change)) := by
        simp only [List.append_assoc, List.singleton_append, List.map_append, List.map_cons,
          List.map_map]
        rfl
      have hother : ∀ d ∈ front.map (fun x => x.2.change), d.key ≠ e.change.key := by
        intro d hd
        obtain ⟨x, hx, rfl⟩ := List.mem_map.mp hd
        rw [StorageEvent.key_change, StorageEvent.key_change]
        exact hturn front e back hunsent x hx
      have hcoherent := h.coherent
      rw [hbefore, Change.coherent_append, Change.coherent_cons_of_forall_ne hother,
        ← Change.coherent_append] at hcoherent
      have hpaths := h.paths
      rw [hbefore] at hpaths
      constructor
      · rw [events, hafter]
        exact hcoherent
      · have hfirst := h.coherent
        rw [hbefore] at hfirst
        rw [events, hafter, ← hpaths]
        exact (hfirst.replay_eq_of_perm hcoherent (List.perm_middle.append_left _)).symm

/-- The stream tells the truth all along exactly when each event that is sent is
balanced. It does so if the events of each path are sent in the order of its changes. -/
theorem tellsTruth_iff (calls : ι → WriteCall) (s : MemoryBackend digest) (sched : List ι) :
    (Schedule.Throughout (step calls) (TellsTruth s.paths) (start s) sched ↔
      Schedule.Along (step calls) Balanced (start s) sched) ∧
    (Schedule.Along (step calls) InTurn (start s) sched →
      Schedule.Throughout (step calls) (TellsTruth s.paths) (start s) sched) := by
  have hinOrder : InOrder s.paths (start s : Watched digest ι) := ⟨trivial, rfl⟩
  constructor
  · refine Schedule.throughout_iff_along (I := HasHistory s.paths) ?_ ?_ (hasHistory_start s)
      hinOrder.tellsTruth
    · intro u i hnone e hbegun hlookup
      simp only [step, hbegun, if_true, hlookup] at hnone
      cases hnone
    · intro u i v hhistory htruth hstep
      have hstepped := stepped_of_step hstep
      exact ⟨hhistory.stepped hstepped, hhistory.tellsTruth_iff_balanced htruth hstepped⟩
  · intro hturn pre post u heq hrun
    rw [heq] at hturn
    have hall : InOrder s.paths u :=
      Schedule.induct (P := fun _ => InOrder s.paths) hrun hinOrder hturn.left
        fun _ _ _ _ hu hG hstep => hu.stepped hG (stepped_of_step hstep)
    exact hall.tellsTruth

/-! ## An event overtakes another one -/

/-- The creation of a path is announced after an update of it. -/
theorem not_tellsTruth_overtaken :
    ¬Schedule.Throughout (step fun i : Bool => .put "/a" [] (if i then "text/a" else "text/b"))
      (TellsTruth (MemoryBackend.empty : MemoryBackend fun _ => []).paths)
      (start (.empty : MemoryBackend fun _ => [])) [true, false, false, true] := by
  intro h
  have htruth := (h [true, false, false] [true] _ rfl rfl).coherent.1
  revert htruth
  decide

end Runs

/-! ## Watchers -/

def isUnder (child container : Str) : Bool :=
  if container == "/" then child != "/"
  else
    let c := trimEndMatches '/' container
    child == c || startsWith (c ++ "/") child

/-- What a watcher of `path` that keeps up with the stream receives. -/
def watch (s : Watched digest ι) (path : Str) : List StorageEvent :=
  s.stream.filter fun e => isUnder e.path (normalize path)

/-- A watcher is told the truth about the paths under its own. -/
theorem TellsTruth.watch {s : Watched digest ι} (h : TellsTruth initial s) (path : Str) :
    Change.Coherent (initial.filter fun p => isUnder p (normalize path))
        ((s.watch path).map StorageEvent.change) ∧
      (s.unsent = [] →
        Change.replay (initial.filter fun p => isUnder p (normalize path))
            ((s.watch path).map StorageEvent.change) =
          s.backend.paths.filter fun p => isUnder p (normalize path)) := by
  have hwatch : (s.watch path).map StorageEvent.change =
      (s.stream.map StorageEvent.change).filter fun c => isUnder c.key (normalize path) := by
    rw [List.filter_map, Watched.watch]
    congr 2
    funext e
    exact congrArg (isUnder · (normalize path)) e.key_change.symm
  rw [hwatch]
  refine ⟨h.coherent.filter fun p => isUnder p (normalize path), fun hunsent => ?_⟩
  rw [Change.replay_filter fun p => isUnder p (normalize path), h.replay hunsent]

end Watched

end MemoryBackend

end SolidPod
