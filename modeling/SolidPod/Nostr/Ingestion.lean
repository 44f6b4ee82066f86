import SolidPod.Foundation.Schedule
import SolidPod.Nostr.Relay

/-!
# Concurrent ingestion

Each call of `ingest` touches the store in one step or in two: it looks for an
event to replace, and puts its own if there was none. The steps of several
calls interleave. `Shape` says what a run has made of one address, which is an
author's key with a replaceable kind, and with a `d` value if the kind is
parameterised.
-/

namespace SolidPod

open Foundation

namespace Nostr

/-- How far a call of `ingest` has got. -/
inductive Phase where
  | pending
  | missed
  | done
  deriving DecidableEq

structure RelayState (ι : Type*) where
  store : InMemoryEventStore
  phase : ι → Phase

section Steps

variable {ι : Type*} [DecidableEq ι] (lib : EventLibrary) (calls : ι → Event)

/-- The next step of a call on the store. -/
def step (s : RelayState ι) (i : ι) : Option (RelayState ι) :=
  match s.phase i with
  | .done => none
  | .missed => some ⟨s.store.put (calls i), Function.update s.phase i .done⟩
  | .pending =>
    match (calls i).verify lib, (calls i).treatment with
    | .error _, _ | .ok (), .broadcastOnly =>
      some { s with phase := Function.update s.phase i .done }
    | .ok (), .append => some ⟨s.store.put (calls i), Function.update s.phase i .done⟩
    | .ok (), .replace p =>
      let (replaced, store) := s.store.replaceWhere p (calls i)
      some ⟨store, Function.update s.phase i (if replaced then .done else .missed)⟩

/-- No call has begun. -/
def start (store : InMemoryEventStore) : RelayState ι := ⟨store, fun _ => .pending⟩

/-- The next step of the call puts an event into the store. -/
def Puts (s : RelayState ι) (i : ι) : Prop :=
  s.phase i = .missed ∨ s.phase i = .pending ∧ (calls i).verify lib = .ok () ∧
    (calls i).treatment = .append

/-- No event is dropped to make room for the next one. -/
def Roomy (s : RelayState ι) (i : ι) : Prop :=
  Puts lib calls s i → s.store.inner.length < s.store.maxEvents

variable {lib calls} {s t : RelayState ι} {i : ι}

/-- A call that is not disturbed does what `ingest` does. -/
theorem exists_run_eq_ingest (store : InMemoryEventStore) :
    ∃ sched t, Schedule.run (step lib calls) (start store) sched = some t ∧ t.phase i = .done ∧
      (∀ j ∈ sched, j = i) ∧ t.store = (ingest lib (calls i) store).2 := by
  have hone : ∀ t, step lib calls (start store) i = some t →
      Schedule.run (step lib calls) (start store) [i] = some t := by
    intro t ht
    simp [Schedule.run, ht]
  cases hverify : (calls i).verify lib with
  | error e =>
      refine ⟨[i], _, hone _ (by rw [step, start, hverify]), ?_, by simp, ?_⟩
      · exact Function.update_self _ _ _
      · rw [ingest, hverify]
  | ok u =>
      cases htreatment : (calls i).treatment with
      | broadcastOnly =>
          refine ⟨[i], _, hone _ (by rw [step, start, hverify, htreatment]), ?_, by simp, ?_⟩
          · exact Function.update_self _ _ _
          · rw [ingest, hverify, htreatment]
      | append =>
          refine ⟨[i], _, hone _ (by rw [step, start, hverify, htreatment]), ?_, by simp, ?_⟩
          · exact Function.update_self _ _ _
          · rw [ingest, hverify, htreatment]
      | replace p =>
          cases hfound : InMemoryEventStore.replaceFirst p (calls i) store.inner with
          | some inner =>
              have hreplace := InMemoryEventStore.replaceWhere_of_some hfound
              refine ⟨[i], ⟨{ store with inner := inner },
                Function.update (fun _ => Phase.pending) i .done⟩,
                hone _ ?_, ?_, by simp, ?_⟩
              · simp only [step, start, hverify, htreatment, hreplace]
                rfl
              · simp
              · rw [ingest, hverify, htreatment]
                simp only [hreplace]
                rfl
          | none =>
              have hreplace := InMemoryEventStore.replaceWhere_of_none hfound
              refine ⟨[i, i], ⟨store.put (calls i), Function.update
                (Function.update (fun _ => Phase.pending) i .missed) i .done⟩, ?_, ?_, by simp, ?_⟩
              · simp only [Schedule.run, List.foldlM_cons, List.foldlM_nil, bind_pure, step, start,
                  hverify, htreatment, hreplace]
                simp
              · simp
              · rw [ingest, hverify, htreatment]
                simp only [hreplace]
                rfl

/-- What a step of a call with a valid event can do. -/
inductive Stepped (calls : ι → Event) (s : RelayState ι) (i : ι) : RelayState ι → Prop
  | ignored (hphase : s.phase i = .pending) (htreatment : (calls i).treatment = .broadcastOnly) :
      Stepped calls s i ⟨s.store, Function.update s.phase i .done⟩
  | appended (hphase : s.phase i = .pending) (htreatment : (calls i).treatment = .append) :
      Stepped calls s i ⟨s.store.put (calls i), Function.update s.phase i .done⟩
  | replaced {p : Event → Bool} {inner : List Event} (hphase : s.phase i = .pending)
      (htreatment : (calls i).treatment = .replace p)
      (hfound : InMemoryEventStore.replaceFirst p (calls i) s.store.inner = some inner) :
      Stepped calls s i ⟨{ s.store with inner := inner }, Function.update s.phase i .done⟩
  | missed {p : Event → Bool} (hphase : s.phase i = .pending)
      (htreatment : (calls i).treatment = .replace p)
      (hnone : InMemoryEventStore.replaceFirst p (calls i) s.store.inner = none) :
      Stepped calls s i ⟨s.store, Function.update s.phase i .missed⟩
  | put (hphase : s.phase i = .missed) :
      Stepped calls s i ⟨s.store.put (calls i), Function.update s.phase i .done⟩

theorem stepped_of_step (h : step lib calls s i = some t) (hvalid : (calls i).verify lib = .ok ()) :
    Stepped calls s i t := by
  rw [step] at h
  cases hphase : s.phase i with
  | done => simp [hphase] at h
  | missed =>
      simp only [hphase, Option.some.injEq] at h
      rw [← h]
      exact .put hphase
  | pending =>
      cases htreatment : (calls i).treatment with
      | broadcastOnly =>
          simp only [hphase, hvalid, htreatment, Option.some.injEq] at h
          rw [← h]
          exact .ignored hphase htreatment
      | append =>
          simp only [hphase, hvalid, htreatment, Option.some.injEq] at h
          rw [← h]
          exact .appended hphase htreatment
      | replace p =>
          cases hfound : InMemoryEventStore.replaceFirst p (calls i) s.store.inner with
          | none =>
              simp only [hphase, hvalid, htreatment,
                InMemoryEventStore.replaceWhere_of_none hfound, Option.some.injEq] at h
              rw [← h]
              exact .missed hphase htreatment hfound
          | some inner =>
              simp only [hphase, hvalid, htreatment,
                InMemoryEventStore.replaceWhere_of_some hfound, Option.some.injEq] at h
              rw [← h]
              exact .replaced hphase htreatment hfound

theorem Stepped.phase_of_ne (h : Stepped calls s i t) {j : ι} (hj : j ≠ i) :
    t.phase j = s.phase j := by
  cases h with
  | ignored => exact Function.update_of_ne hj _ _
  | appended => exact Function.update_of_ne hj _ _
  | replaced => exact Function.update_of_ne hj _ _
  | missed => exact Function.update_of_ne hj _ _
  | put => exact Function.update_of_ne hj _ _

/-- A step stores one more event at most. -/
theorem Stepped.length_le (h : Stepped calls s i t) :
    t.store.inner.length ≤ s.store.inner.length + 1 ∧ t.store.maxEvents = s.store.maxEvents := by
  cases h with
  | ignored => exact ⟨Nat.le_succ _, rfl⟩
  | missed => exact ⟨Nat.le_succ _, rfl⟩
  | appended =>
      exact ⟨InMemoryEventStore.length_inner_put_le _, InMemoryEventStore.maxEvents_put _⟩
  | put => exact ⟨InMemoryEventStore.length_inner_put_le _, InMemoryEventStore.maxEvents_put _⟩
  | replaced hphase htreatment hfound =>
      exact ⟨(InMemoryEventStore.length_of_replaceFirst hfound).le.trans (Nat.le_succ _), rfl⟩

end Steps

/-! ## Addresses -/

/-- What a replaceable event stands for: an author's key, a kind and, if the kind
is parameterised, a `d` value. -/
structure Address where
  author : Option Bytes
  kind : UInt64
  d : Option Str
  deriving DecidableEq

def Event.address (lib : EventLibrary) (e : Event) : Option Address :=
  if isReplaceable e.kind then some ⟨(lib.hexDecode e.pubkey).toOption, e.kind, none⟩
  else if isParameterisedReplaceable e.kind then
    some ⟨(lib.hexDecode e.pubkey).toOption, e.kind, some (e.dTag.getD [])⟩
  else none

/-- How an event writes its address. -/
def Event.spelling (e : Event) : Str × Option Str :=
  (e.pubkey, if isParameterisedReplaceable e.kind then e.dTag else none)

theorem not_ephemeral_of_isReplaceable {kind : UInt64} (h : isReplaceable kind = true) :
    isEphemeral kind = false ∧ isParameterisedReplaceable kind = false := by
  simp only [isReplaceable, isEphemeral, isParameterisedReplaceable, Bool.or_eq_true,
    Bool.and_eq_true, decide_eq_true_eq, Bool.and_eq_false_iff, decide_eq_false_iff_not,
    UInt64.le_iff_toNat_le, UInt64.lt_iff_toNat_lt, UInt64.toNat_ofNat, ← UInt64.toNat_inj] at h ⊢
  omega

theorem not_ephemeral_of_isParameterisedReplaceable {kind : UInt64}
    (h : isParameterisedReplaceable kind = true) :
    isEphemeral kind = false ∧ isReplaceable kind = false := by
  have hr : isReplaceable kind = false := by
    by_contra hr
    have hp := (not_ephemeral_of_isReplaceable ((Bool.not_eq_false _).mp hr)).2
    rw [h] at hp
    cases hp
  refine ⟨?_, hr⟩
  simp only [isEphemeral, isParameterisedReplaceable, Bool.and_eq_true, decide_eq_true_eq,
    Bool.and_eq_false_iff, decide_eq_false_iff_not, UInt64.le_iff_toNat_le,
    UInt64.lt_iff_toNat_lt, UInt64.toNat_ofNat] at h ⊢
  omega

/-- An event with an address replaces the events that write the same address in
the same way. -/
theorem treatment_of_address {lib : EventLibrary} {e : Event} {a : Address}
    (h : e.address lib = some a) : ∃ p, e.treatment = .replace p ∧
      ∀ x, p x = true ↔ x.address lib = some a ∧ x.spelling = e.spelling := by
  rw [Event.address] at h
  split_ifs at h with hr hp
  · obtain ⟨he, hnp⟩ := not_ephemeral_of_isReplaceable hr
    refine ⟨_, by rw [Event.treatment, he, hr]; rfl, ?_⟩
    intro x
    cases h
    rw [Bool.and_eq_true, decide_eq_true_eq, decide_eq_true_eq, Event.address, Event.spelling,
      Event.spelling, hnp]
    constructor
    · rintro ⟨hkey, hkind⟩
      rw [hkind, hr, hnp, hkey]
      exact ⟨rfl, rfl⟩
    · rintro ⟨haddr, hspell⟩
      refine ⟨congrArg Prod.fst hspell, ?_⟩
      split_ifs at haddr
      · exact congrArg Address.kind (Option.some.inj haddr)
      · exact congrArg Address.kind (Option.some.inj haddr)
  · obtain ⟨he, hnr⟩ := not_ephemeral_of_isParameterisedReplaceable hp
    refine ⟨_, by rw [Event.treatment, he, hnr, hp]; rfl, ?_⟩
    intro x
    cases h
    rw [Bool.and_eq_true, Bool.and_eq_true, decide_eq_true_eq, decide_eq_true_eq,
      decide_eq_true_eq, Event.address, Event.spelling, Event.spelling, hp]
    constructor
    · rintro ⟨⟨hkey, hkind⟩, hd⟩
      rw [hkind, hnr, hp, hkey, hd]
      exact ⟨rfl, rfl⟩
    · rintro ⟨haddr, hspell⟩
      have hkind : x.kind = e.kind := by
        split_ifs at haddr
        · exact congrArg Address.kind (Option.some.inj haddr)
        · exact congrArg Address.kind (Option.some.inj haddr)
      rw [hkind, hp] at hspell
      exact ⟨⟨congrArg Prod.fst hspell, hkind⟩, congrArg Prod.snd hspell⟩

theorem address_of_treatment_replace (lib : EventLibrary) {e : Event} {p : Event → Bool}
    (h : e.treatment = .replace p) : ∃ a, e.address lib = some a := by
  rw [Event.treatment] at h
  rw [Event.address]
  split_ifs at h ⊢ with he hr hp
  · exact ⟨_, rfl⟩
  · exact ⟨_, rfl⟩

/-! ## The steps at one address -/

section Slots

variable {ι : Type*} [DecidableEq ι] {lib : EventLibrary} {calls : ι → Event}

/-- The stored events of an address. -/
def slots (lib : EventLibrary) (a : Address) (s : RelayState ι) : List Event :=
  s.store.inner.filter fun x => x.address lib = some a

variable {s t : RelayState ι} {i : ι} {a : Address}

omit [DecidableEq ι] in
theorem slots_put {phase : ι → Phase} {e : Event}
    (hroom : s.store.inner.length < s.store.maxEvents) :
    slots lib a (⟨s.store.put e, phase⟩ : RelayState ι) =
      slots lib a s ++ if e.address lib = some a then [e] else [] := by
  rw [slots, InMemoryEventStore.inner_put_of_lt hroom, List.filter_append, slots]
  by_cases he : e.address lib = some a
  · rw [if_pos he, List.filter_cons_of_pos (by simp [he]), List.filter_nil]
  · rw [if_neg he, List.filter_cons_of_neg (by simp [he]), List.filter_nil]

/-- A step of a call for another address leaves the slots alone. -/
theorem Stepped.slots_of_ne (h : Stepped calls s i t) (hvalid : (calls i).verify lib = .ok ())
    (hroom : Roomy lib calls s i) (ha : (calls i).address lib ≠ some a) :
    slots lib a t = slots lib a s := by
  cases h with
  | ignored => rfl
  | missed => rfl
  | appended hphase htreatment =>
      rw [slots_put (hroom (Or.inr ⟨hphase, hvalid, htreatment⟩)), if_neg ha, List.append_nil]
  | put hphase => rw [slots_put (hroom (Or.inl hphase)), if_neg ha, List.append_nil]
  | replaced hphase htreatment hfound =>
      obtain ⟨b, hb⟩ := address_of_treatment_replace lib htreatment
      obtain ⟨p, hp, hspec⟩ := treatment_of_address hb
      rw [htreatment] at hp
      cases hp
      refine InMemoryEventStore.filter_of_replaceFirst ?_ (by simp [ha]) hfound
      intro x hx
      rw [((hspec x).mp hx).1, ← hb]
      simp [ha]

/-- What a step does to the slots of its own address. -/
inductive Filed (calls : ι → Event) (s : RelayState ι) (i : ι) (before after : List Event)
    (phase : Phase) : Prop
  | replaced (hphase : s.phase i = .pending) (hlength : after.length = before.length)
      (hsome : ∃ x ∈ before, x.spelling = (calls i).spelling)
      (hsingle : before.length = 1 → after = [calls i]) (hnext : phase = .done)
  | missed (hphase : s.phase i = .pending) (hsame : after = before)
      (hnone : ∀ x ∈ before, x.spelling ≠ (calls i).spelling) (hnext : phase = .missed)
  | put (hphase : s.phase i = .missed) (hput : after = before ++ [calls i])
      (hnext : phase = .done)

theorem Stepped.filed (h : Stepped calls s i t) (hroom : Roomy lib calls s i)
    (ha : (calls i).address lib = some a) :
    Filed calls s i (slots lib a s) (slots lib a t) (t.phase i) := by
  obtain ⟨p, hp, hspec⟩ := treatment_of_address ha
  have hmem : ∀ x ∈ slots lib a s, x.address lib = some a := by
    intro x hx
    simpa using (List.mem_filter.mp hx).2
  have hfilter := InMemoryEventStore.replaceFirst_filter (e := calls i)
    (q := fun x => x.address lib = some a) (fun x hx => by simpa using ((hspec x).mp hx).1)
    (by simpa using ha) s.store.inner
  cases h with
  | ignored hphase htreatment =>
      rw [hp] at htreatment
      cases htreatment
  | appended hphase htreatment =>
      rw [hp] at htreatment
      cases htreatment
  | put hphase =>
      refine .put hphase ?_ (Function.update_self _ _ _)
      rw [slots_put (hroom (Or.inl hphase)), if_pos ha]
  | missed hphase htreatment hnone =>
      rw [hp] at htreatment
      cases htreatment
      refine .missed hphase rfl ?_ (Function.update_self _ _ _)
      intro x hx hspell
      rw [hnone, Option.map_none, InMemoryEventStore.replaceFirst_eq_none_iff] at hfilter
      have hfalse := hfilter x hx
      rw [(hspec x).mpr ⟨hmem x hx, hspell⟩] at hfalse
      cases hfalse
  | replaced hphase htreatment hfound =>
      rw [hp] at htreatment
      cases htreatment
      rw [hfound, Option.map_some] at hfilter
      have hlength := InMemoryEventStore.length_of_replaceFirst hfilter
      obtain ⟨⟨x, hx, hpx⟩, hsingle⟩ := InMemoryEventStore.of_replaceFirst_eq_some hfilter
      exact .replaced hphase hlength ⟨x, hx, ((hspec x).mp hpx).2⟩ hsingle
        (Function.update_self _ _ _)

end Slots

end Nostr

end SolidPod
