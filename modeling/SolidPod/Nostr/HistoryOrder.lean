import Mathlib.Data.List.Pairwise
import SolidPod.Foundation.Choices
import SolidPod.Foundation.Encodings
import SolidPod.Foundation.Lockstep
import SolidPod.Nostr.Subscription

/-!
# The order of a history

The store keeps its events in the order in which they came, and a replaceable event in the
place of the one it replaces. A filter with a limit takes the last events of the store, so
they are the newest ones only if the events came in the order of their times. An event that
comes again takes a further place in the store.
-/

namespace SolidPod

open Foundation Str

namespace Nostr

/-! ## What is asked of a history -/

/-- The ids are the same, whatever the case of their letters. -/
def SameEvent (x y : Event) : Prop := toAsciiLowercase x.id = toAsciiLowercase y.id

def Event.time (e : Event) : ℕ := e.createdAt.toNat

def Filter.limit? (f : Filter) : Option ℕ := f.limit.map UInt64.toNat

/-- A history has the newest matching events of each filter, and nothing else. -/
structure NewestHistory (store : List Event) (filters : List Filter) : Prop where
  newest : ∃ t : Filter → List Event,
    (∀ f ∈ filters, IsLatest SameEvent Event.time f.limit? (store.filter f.matches) (t f)) ∧
    ∀ x, (∃ y ∈ history store filters, SameEvent y x) ↔ ∃ f ∈ filters, ∃ y ∈ t f, SameEvent y x
  once : (history store filters).Pairwise fun x y => ¬ SameEvent x y
  matching : ∀ x ∈ history store filters, ∃ f ∈ filters, f.matches x = true

/-- The store after some calls of `ingest`. -/
abbrev stored (lib : EventLibrary) (maxEvents : Nat) (es : List Event) : InMemoryEventStore :=
  Lockstep.final (fun s e => ingest lib e s) (.new maxEvents) es

/-- What is asked of the store and its histories all along a run. -/
structure HistoryLaw (lib : EventLibrary) (maxEvents : Nat) (es : List Event) : Prop where
  newest : ∀ pre, pre <+: es → ∀ filters, NewestHistory (stored lib maxEvents pre).inner filters
  bounded : ∀ pre, pre <+: es →
    (stored lib maxEvents pre).inner.length ≤ (stored lib maxEvents pre).maxEvents
  /-- An event that is stored already changes nothing. -/
  repeats : ∀ pre e, pre ++ [e] <+: es → (∃ x ∈ (stored lib maxEvents pre).inner, SameEvent x e) →
    stored lib maxEvents (pre ++ [e]) = stored lib maxEvents pre

/-! ## The place of an event -/

/-- The stored events that stay when another one is put. -/
def InMemoryEventStore.room (s : InMemoryEventStore) : List Event :=
  if s.maxEvents ≤ s.inner.length then s.inner.tail else s.inner

/-- What stands before and after an event once it is stored: it comes in the place of the
first event that it replaces, or last. -/
def place (s : InMemoryEventStore) (e : Event) : List Event × List Event :=
  match e.treatment with
  | .replace p =>
    if s.inner.any p then (s.inner.takeWhile fun x => !p x, (s.inner.dropWhile fun x => !p x).tail)
    else (s.room, [])
  | .broadcastOnly | .append => (s.room, [])

/-- An event that is to be stored stands already where it comes, or it is not stored and is no
older than what comes before it and no newer than what comes after it. -/
def InPlaceOf (lib : EventLibrary) (s : InMemoryEventStore) (e : Event) : Prop :=
  e.verify lib = .ok () → isEphemeral e.kind = false →
    s.inner = (place s e).1 ++ e :: (place s e).2 ∨
      (∀ x ∈ s.inner, ¬ SameEvent x e) ∧ (∀ x ∈ (place s e).1, x.createdAt ≤ e.createdAt) ∧
        ∀ x ∈ (place s e).2, e.createdAt ≤ x.createdAt

/-- The order of the arrivals is that of the times. -/
def ArriveInOrder (lib : EventLibrary) (maxEvents : Nat) (es : List Event) : Prop :=
  ∀ pre e, pre ++ [e] <+: es → InPlaceOf lib (stored lib maxEvents pre) e

namespace InMemoryEventStore

variable {p : Event → Bool} {e : Event}

theorem replaceFirst_eq (p : Event → Bool) (e : Event) (xs : List Event) :
    replaceFirst p e xs = if xs.any p then
      some (xs.takeWhile (fun x => !p x) ++ e :: (xs.dropWhile fun x => !p x).tail)
    else none := by
  induction xs with
  | nil => rfl
  | cons x xs ih =>
      rw [replaceFirst]
      cases hp : p x with
      | true => simp [hp]
      | false =>
          rw [if_neg Bool.false_ne_true, ih]
          by_cases hany : xs.any p = true
          · simp [hp, hany]
          · simp [hp, hany]

theorem put_eq (s : InMemoryEventStore) (e : Event) :
    s.put e = { s with inner := s.room ++ [e] } := by
  rw [put, room]
  split_ifs <;> rfl

theorem room_sublist (s : InMemoryEventStore) : s.room.Sublist s.inner := by
  rw [room]
  split_ifs
  · exact List.tail_sublist _
  · exact .refl _

theorem length_room_lt {s : InMemoryEventStore} (hpos : 0 < s.maxEvents)
    (hle : s.inner.length ≤ s.maxEvents) : s.room.length < s.maxEvents := by
  rw [room]
  split_ifs with hfull
  · rw [List.length_tail]
    omega
  · omega

end InMemoryEventStore

section Step

variable {lib : EventLibrary} {s : InMemoryEventStore} {e : Event}

theorem ingest_of_place (hverify : e.verify lib = .ok ()) (hstored : isEphemeral e.kind = false) :
    (ingest lib e s).2 = { s with inner := (place s e).1 ++ e :: (place s e).2 } := by
  have hput : s.put e = { s with inner := s.room ++ e :: [] } := s.put_eq e
  rw [ingest, hverify]
  simp only
  rw [place]
  cases htreatment : e.treatment with
  | broadcastOnly =>
      rw [Event.treatment, hstored] at htreatment
      simp only [Bool.false_eq_true, if_false] at htreatment
      split_ifs at htreatment
  | append => exact hput
  | replace p =>
      have hfirst := InMemoryEventStore.replaceFirst_eq p e s.inner
      by_cases hany : s.inner.any p = true
      · rw [if_pos hany] at hfirst
        simp only [InMemoryEventStore.replaceWhere_of_some hfirst, if_pos hany]
        rfl
      · rw [if_neg hany] at hfirst
        simp only [InMemoryEventStore.replaceWhere_of_none hfirst, if_neg hany]
        exact hput

theorem ingest_of_not_stored (h : e.verify lib = .ok () → isEphemeral e.kind = true) :
    (ingest lib e s).2 = s := by
  rw [ingest]
  cases hverify : e.verify lib with
  | error err => rfl
  | ok u =>
      simp only
      rw [Event.treatment, if_pos (h hverify)]

theorem place_sublist (s : InMemoryEventStore) (e : Event) :
    ((place s e).1 ++ (place s e).2).Sublist s.inner := by
  have hroom : (s.room ++ []).Sublist s.inner := by
    rw [List.append_nil]
    exact s.room_sublist
  rw [place]
  cases e.treatment with
  | broadcastOnly | append => exact hroom
  | replace p =>
      simp only
      split_ifs
      · have hsplit := (List.tail_sublist (s.inner.dropWhile fun x => !p x)).append_left
          (s.inner.takeWhile fun x => !p x)
        rwa [List.takeWhile_append_dropWhile] at hsplit
      · exact hroom

theorem maxEvents_ingest (lib : EventLibrary) (e : Event) (s : InMemoryEventStore) :
    (ingest lib e s).2.maxEvents = s.maxEvents := by
  by_cases hstored : e.verify lib = .ok () ∧ isEphemeral e.kind = false
  · rw [ingest_of_place hstored.1 hstored.2]
  · rw [ingest_of_not_stored fun hverify => by simpa [hverify] using hstored]

theorem length_place_lt (hpos : 0 < s.maxEvents) (hle : s.inner.length ≤ s.maxEvents) (e : Event) :
    (place s e).1.length + (place s e).2.length < s.maxEvents := by
  have hroom := InMemoryEventStore.length_room_lt hpos hle
  rw [place]
  cases e.treatment with
  | broadcastOnly | append => exact hroom
  | replace p =>
      simp only
      split_ifs with hany
      · have hlength := congrArg List.length
          (List.takeWhile_append_dropWhile (p := fun x => !p x) (l := s.inner))
        have hdrop : 0 < (s.inner.dropWhile fun x => !p x).length := by
          rw [List.length_pos_iff, Ne, List.dropWhile_eq_nil_iff]
          intro hall
          obtain ⟨x, hx, hp⟩ := List.any_eq_true.mp hany
          have hnot := hall x hx
          rw [hp] at hnot
          cases hnot
        rw [List.length_append] at hlength
        simp only [List.length_tail]
        omega
      · exact hroom

theorem length_ingest_le (hpos : 0 < s.maxEvents) (hle : s.inner.length ≤ s.maxEvents)
    (lib : EventLibrary) (e : Event) :
    (ingest lib e s).2.inner.length ≤ (ingest lib e s).2.maxEvents := by
  by_cases hstored : e.verify lib = .ok () ∧ isEphemeral e.kind = false
  · rw [ingest_of_place hstored.1 hstored.2, List.length_append, List.length_cons]
    have hlt := length_place_lt hpos hle e
    simp only
    omega
  · rw [ingest_of_not_stored fun hverify => by simpa [hverify] using hstored]
    exact hle

end Step

/-! ## Stores in the order of the times -/

theorem SameEvent.symm {x y : Event} (h : SameEvent x y) : SameEvent y x := Eq.symm h

theorem SameEvent.trans {x y z : Event} (h : SameEvent x y) (h' : SameEvent y z) : SameEvent x z :=
  Eq.trans h h'

/-- The events of the store stand in the order of their times, each of them once. -/
structure InTimeOrder (store : List Event) : Prop where
  distinct : store.Pairwise fun x y => ¬ SameEvent x y
  sorted : store.Pairwise fun x y => x.createdAt ≤ y.createdAt

section Histories

variable {store : List Event} {filters : List Filter} {e x y : Event} {f : Filter}

theorem InTimeOrder.nil : InTimeOrder [] := ⟨.nil, .nil⟩

theorem InTimeOrder.sublist {store' : List Event} (h : InTimeOrder store)
    (hsub : store'.Sublist store) : InTimeOrder store' :=
  ⟨h.distinct.sublist hsub, h.sorted.sublist hsub⟩

theorem eq_of_sameEvent (h : store.Pairwise fun x y => ¬ SameEvent x y) (hx : x ∈ store)
    (hy : y ∈ store) (hsame : SameEvent x y) : x = y := by
  have hsymm : Std.Symm fun x y => ¬ SameEvent x y := ⟨fun _ _ hnot hsame => hnot hsame.symm⟩
  by_contra hne
  exact h.forall hx hy hne hsame

theorem matched_eq (store : List Event) (f : Filter) :
    matched store f = lastOf f.limit? (store.filter f.matches) := by
  rw [matched, Filter.limit?]
  cases f.limit with
  | none => rfl
  | some limit => rfl

theorem exists_mem_matched_of_mem_foldl {out : List Event}
    (h : x ∈ filters.foldl (fun out f => (matched store f).foldl addUnseen out) out) :
    x ∈ out ∨ ∃ f ∈ filters, x ∈ matched store f := by
  induction filters generalizing out with
  | nil => exact .inl h
  | cons f filters ih =>
      rcases ih h with hfold | ⟨g, hg, hx⟩
      · refine (mem_foldl_addUnseen hfold).imp_right fun hx => ⟨f, List.mem_cons_self, hx⟩
      · exact .inr ⟨g, List.mem_cons_of_mem f hg, hx⟩

/-- If no event is stored twice, a history is what its filters take. -/
theorem mem_history_iff (h : store.Pairwise fun x y => ¬ SameEvent x y) :
    x ∈ history store filters ↔ ∃ f ∈ filters, x ∈ matched store f := by
  constructor
  · intro hx
    exact (exists_mem_matched_of_mem_foldl hx).resolve_left List.not_mem_nil
  · rintro ⟨f, hf, hx⟩
    obtain ⟨y, hy, hid⟩ := exists_id_history_of_mem_matched hf hx
    have hsame : SameEvent y x := by rw [SameEvent, hid]
    rwa [← eq_of_sameEvent h (mem_history hy) (mem_matched hx) hsame]

theorem pairwise_foldl_addUnseen {es out : List Event} (h : out.Pairwise fun x y => x.id ≠ y.id) :
    (es.foldl addUnseen out).Pairwise fun x y => x.id ≠ y.id := by
  induction es generalizing out with
  | nil => exact h
  | cons e es ih =>
      refine ih ?_
      rw [addUnseen]
      split_ifs with hseen
      · exact h
      · rw [List.pairwise_append]
        refine ⟨h, List.pairwise_singleton _ _, ?_⟩
        intro x hx y hy hid
        rw [List.mem_singleton.mp hy] at hid
        exact hseen (List.any_eq_true.mpr ⟨x, hx, decide_eq_true hid⟩)

theorem pairwise_history (store : List Event) (filters : List Filter) :
    (history store filters).Pairwise fun x y => x.id ≠ y.id := by
  have hall : ∀ out : List Event, (out.Pairwise fun x y => x.id ≠ y.id) →
      (filters.foldl (fun out f => (matched store f).foldl addUnseen out) out).Pairwise
        fun x y => x.id ≠ y.id := by
    induction filters with
    | nil => exact fun _ h => h
    | cons f filters ih => exact fun out h => ih _ (pairwise_foldl_addUnseen h)
  exact hall [] .nil

theorem InTimeOrder.newestHistory (h : InTimeOrder store) (filters : List Filter) :
    NewestHistory store filters where
  newest := by
    refine ⟨fun f => matched store f, ?_, ?_⟩
    · intro f _
      have hsorted : (store.filter f.matches).Pairwise fun x y => x.time ≤ y.time :=
        (h.sorted.sublist List.filter_sublist).imp fun hle => UInt64.le_iff_toNat_le.mp hle
      have hlast : IsLatest SameEvent Event.time f.limit? (store.filter f.matches)
          (lastOf f.limit? (store.filter f.matches)) :=
        isLatest_lastOf (fun _ => rfl) (h.distinct.sublist List.filter_sublist) hsorted
      rw [← matched_eq] at hlast
      exact hlast
    · intro x
      constructor
      · rintro ⟨y, hy, hsame⟩
        obtain ⟨f, hf, hmatched⟩ := (mem_history_iff h.distinct).mp hy
        exact ⟨f, hf, y, hmatched, hsame⟩
      · rintro ⟨f, hf, y, hmatched, hsame⟩
        exact ⟨y, (mem_history_iff h.distinct).mpr ⟨f, hf, hmatched⟩, hsame⟩
  once := by
    refine (pairwise_history store filters).imp_of_mem ?_
    intro x y hx hy hid hsame
    rw [eq_of_sameEvent h.distinct (mem_history hx) (mem_history hy) hsame] at hid
    exact hid rfl
  matching := by
    intro x hx
    obtain ⟨f, hf, hmatched⟩ := (mem_history_iff h.distinct).mp hx
    rw [matched_eq] at hmatched
    exact ⟨f, hf, (List.mem_filter.mp ((lastOf_sublist _ _).subset hmatched)).2⟩

/-! ## Two events in the wrong order -/

/-- The filter for the later one of two events. -/
def laterOf (x y : Event) : Filter := ⟨some [x.id, y.id], none, none, none, none, some 1, []⟩

theorem matches_laterOf {z : Event} :
    (laterOf x y).matches z = true ↔ SameEvent z x ∨ SameEvent z y := by
  simp only [laterOf, Filter.matches, Option.all_some, Option.all_none, List.any_cons,
    List.any_nil, List.all_nil, Bool.or_false, Bool.and_true, Bool.or_eq_true,
    Filter.eqIgnoreAsciiCase, beq_iff_eq]
  exact or_congr eq_comm eq_comm

theorem filter_laterOf (h : store.Pairwise fun x y => ¬ SameEvent x y)
    (hsub : [x, y].Sublist store) : store.filter (laterOf x y).matches = [x, y] := by
  have hx : x ∈ store := hsub.subset List.mem_cons_self
  have hy : y ∈ store := hsub.subset (List.mem_cons_of_mem x List.mem_cons_self)
  have hpair : [x, y].filter (laterOf x y).matches = [x, y] := by
    refine List.filter_eq_self.mpr fun z hz => matches_laterOf.mpr ?_
    rcases List.mem_pair.mp hz with rfl | rfl
    · exact Or.inl rfl
    · exact Or.inr rfl
  have hnodup : (store.filter (laterOf x y).matches).Nodup :=
    (h.sublist List.filter_sublist).imp fun {_ _} hnot heq => hnot (by rw [SameEvent, heq])
  have hsubset : store.filter (laterOf x y).matches ⊆ [x, y] := by
    intro z hz
    obtain ⟨hmem, hmatches⟩ := List.mem_filter.mp hz
    rw [List.mem_pair]
    exact (matches_laterOf.mp hmatches).imp (eq_of_sameEvent h hmem hx) (eq_of_sameEvent h hmem hy)
  have hinner := hsub.filter (laterOf x y).matches
  rw [hpair] at hinner
  exact (hinner.eq_of_length_le (List.subperm_of_subset hnodup hsubset).length_le).symm

/-- If all histories have the newest events, the store is in the order of the times. -/
theorem sorted_of_newestHistory (hdistinct : store.Pairwise fun x y => ¬ SameEvent x y)
    (h : ∀ filters, NewestHistory store filters) :
    store.Pairwise fun x y => x.createdAt ≤ y.createdAt := by
  rw [List.pairwise_iff_forall_sublist]
  intro x y hsub
  have hne : ¬ SameEvent x y := List.pairwise_iff_forall_sublist.mp hdistinct hsub
  have hfilter := filter_laterOf hdistinct hsub
  have hmem : ∀ z, z ∈ history store [laterOf x y] ↔ z = y := by
    intro z
    rw [mem_history_iff hdistinct]
    simp only [List.mem_singleton, exists_eq_left]
    rw [matched_eq, hfilter]
    exact List.mem_singleton
  obtain ⟨t, hlatest, hiff⟩ := (h [laterOf x y]).newest
  have hchoice := hlatest (laterOf x y) List.mem_cons_self
  rw [hfilter] at hchoice
  refine UInt64.le_iff_toNat_le.mpr (hchoice.le_of_pair ?_ ?_ hne)
  · intro z hz hsame
    obtain ⟨z', hz', hsame'⟩ := (hiff x).mpr ⟨laterOf x y, List.mem_cons_self, z, hz, hsame⟩
    rw [(hmem z').mp hz'] at hsame'
    exact hne hsame'.symm
  · obtain ⟨f, hf, z, hz, hsame⟩ := (hiff y).mp ⟨y, (hmem y).mpr rfl, rfl⟩
    rw [List.mem_singleton.mp hf] at hz
    exact ⟨z, hz, hsame⟩

end Histories

/-! ## Runs -/

section Runs

variable {lib : EventLibrary} {maxEvents : Nat} {es pre : List Event} {e : Event}
  {s : InMemoryEventStore}

theorem stored_concat (lib : EventLibrary) (maxEvents : Nat) (pre : List Event) (e : Event) :
    stored lib maxEvents (pre ++ [e]) = (ingest lib e (stored lib maxEvents pre)).2 :=
  List.foldl_append

/-- An event that is not stored yet comes among the other ones. -/
theorem distinct_ingest (h : s.inner.Pairwise fun x y => ¬ SameEvent x y)
    (hnew : ∀ x ∈ s.inner, ¬ SameEvent x e) :
    (ingest lib e s).2.inner.Pairwise fun x y => ¬ SameEvent x y := by
  by_cases hstored : e.verify lib = .ok () ∧ isEphemeral e.kind = false
  · have hrest := h.sublist (place_sublist s e)
    have hmem : ∀ x ∈ (place s e).1 ++ (place s e).2, ¬ SameEvent x e :=
      fun x hx => hnew x ((place_sublist s e).subset hx)
    rw [ingest_of_place hstored.1 hstored.2, List.pairwise_append]
    rw [List.pairwise_append] at hrest
    refine ⟨hrest.1, List.pairwise_cons.mpr ⟨?_, hrest.2.1⟩, ?_⟩
    · intro x hx hsame
      exact hmem x (List.mem_append_right _ hx) hsame.symm
    · intro x hx y hy
      rcases List.mem_cons.mp hy with rfl | hy
      · exact hmem x (List.mem_append_left _ hx)
      · exact hrest.2.2 x hx y hy
  · rw [ingest_of_not_stored fun hverify => by simpa [hverify] using hstored]
    exact h

/-- An event that comes in its place keeps the order, and one that is stored already changes
nothing. -/
theorem InTimeOrder.ingest (h : InTimeOrder s.inner) (hplace : InPlaceOf lib s e) :
    InTimeOrder (ingest lib e s).2.inner ∧
      ((∃ x ∈ s.inner, SameEvent x e) → (ingest lib e s).2 = s) := by
  by_cases hstored : e.verify lib = .ok () ∧ isEphemeral e.kind = false
  · rcases hplace hstored.1 hstored.2 with hsame | ⟨hnew, hfront, hback⟩
    · rw [ingest_of_place hstored.1 hstored.2, ← hsame]
      exact ⟨h, fun _ => rfl⟩
    · refine ⟨⟨distinct_ingest h.distinct hnew, ?_⟩,
        fun ⟨x, hx, hsame⟩ => absurd hsame (hnew x hx)⟩
      have hrest := (h.sublist (place_sublist s e)).sorted
      rw [ingest_of_place hstored.1 hstored.2, List.pairwise_append]
      rw [List.pairwise_append] at hrest
      refine ⟨hrest.1, List.pairwise_cons.mpr ⟨hback, hrest.2.1⟩, ?_⟩
      intro x hx y hy
      rcases List.mem_cons.mp hy with rfl | hy
      · exact hfront x hx
      · exact hrest.2.2 x hx y hy
  · rw [ingest_of_not_stored fun hverify => by simpa [hverify] using hstored]
    exact ⟨h, fun _ => rfl⟩

theorem ArriveInOrder.inTimeOrder (h : ArriveInOrder lib maxEvents es) (hpre : pre <+: es) :
    InTimeOrder (stored lib maxEvents pre).inner := by
  induction pre using List.reverseRecOn with
  | nil => exact .nil
  | append_singleton pre e ih =>
      rw [stored_concat]
      exact ((ih ((List.prefix_append pre [e]).trans hpre)).ingest (h pre e hpre)).1

theorem maxEvents_stored (pre : List Event) :
    (stored lib maxEvents pre).maxEvents = max maxEvents 1 := by
  induction pre using List.reverseRecOn with
  | nil => rfl
  | append_singleton pre e ih => rw [stored_concat, maxEvents_ingest, ih]

theorem length_stored_le (pre : List Event) :
    (stored lib maxEvents pre).inner.length ≤ (stored lib maxEvents pre).maxEvents := by
  induction pre using List.reverseRecOn with
  | nil => exact Nat.zero_le _
  | append_singleton pre e ih =>
      rw [stored_concat]
      exact length_ingest_le (by rw [maxEvents_stored]; omega) ih lib e

/-- No event is stored twice as long as one that is stored already changes nothing. -/
theorem HistoryLaw.inTimeOrder (h : HistoryLaw lib maxEvents es) (hpre : pre <+: es) :
    InTimeOrder (stored lib maxEvents pre).inner := by
  induction pre using List.reverseRecOn with
  | nil => exact .nil
  | append_singleton pre e ih =>
      have hbefore := ih ((List.prefix_append pre [e]).trans hpre)
      by_cases hagain : ∃ x ∈ (stored lib maxEvents pre).inner, SameEvent x e
      · rw [h.repeats pre e hpre hagain]
        exact hbefore
      · have hdistinct : (stored lib maxEvents (pre ++ [e])).inner.Pairwise
            fun x y => ¬ SameEvent x y := by
          rw [stored_concat]
          exact distinct_ingest hbefore.distinct fun x hx hsame => hagain ⟨x, hx, hsame⟩
        exact ⟨hdistinct, sorted_of_newestHistory hdistinct (h.newest (pre ++ [e]) hpre)⟩

theorem HistoryLaw.arriveInOrder (h : HistoryLaw lib maxEvents es) :
    ArriveInOrder lib maxEvents es := by
  intro pre e hpre hverify hstored
  have hafter := h.inTimeOrder hpre
  have hingest := ingest_of_place (s := stored lib maxEvents pre) hverify hstored
  by_cases hagain : ∃ x ∈ (stored lib maxEvents pre).inner, SameEvent x e
  · have hsame := h.repeats pre e hpre hagain
    rw [stored_concat, hingest] at hsame
    exact Or.inl (congrArg InMemoryEventStore.inner hsame).symm
  · have hsorted := hafter.sorted
    rw [stored_concat, hingest, List.pairwise_append, List.pairwise_cons] at hsorted
    exact Or.inr ⟨fun x hx hsame => hagain ⟨x, hx, hsame⟩,
      fun x hx => hsorted.2.2 x hx e List.mem_cons_self, hsorted.2.1.1⟩

/-- All histories of a run have the newest events, and repeats change nothing, exactly if each
event comes in the order of the times and no event comes again, unless to its own place. -/
theorem historyLaw_iff (lib : EventLibrary) (maxEvents : Nat) (es : List Event) :
    HistoryLaw lib maxEvents es ↔ ArriveInOrder lib maxEvents es := by
  constructor
  · exact HistoryLaw.arriveInOrder
  · intro h
    refine ⟨?_, ?_, ?_⟩
    · intro pre hpre filters
      exact (h.inTimeOrder hpre).newestHistory filters
    · intro pre _
      exact length_stored_le pre
    · intro pre e hpre hagain
      have hbefore := h.inTimeOrder ((List.prefix_append pre [e]).trans hpre)
      rw [stored_concat]
      exact (hbefore.ingest (h pre e hpre)).2 hagain

end Runs

/-! ## A newer note that came first -/

/-- Libraries whose hash of an event is its time. -/
def clockLibrary : EventLibrary where
  VerifyingKey := Unit
  Signature := Unit
  hexDecode s := .ok (List.replicate (s.length / 2) 0)
  hexEncode := Hex.encode
  sha256 b := (b ++ List.replicate 32 0).take 32
  jsonToString
    | .array (_ :: _ :: .number (.posInt time) :: _) => .ok (Nat.toDigits 10 time.toNat)
    | _ => .ok []
  toLowercase s := s
  verifyingKey _ := .ok ()
  signature _ := .ok ()
  verify _ _ _ := .ok ()

def noteAt (time : UInt64) : Event :=
  let unnamed : Event := ⟨[], List.replicate 64 '0', time, 1, [], [], List.replicate 128 '0'⟩
  { unnamed with id := unnamed.canonicalId clockLibrary }

theorem verify_noteAt_one : (noteAt 1).verify clockLibrary = .ok () := by decide +kernel

/-- The older of two notes came last, and is what a history of one event has. -/
theorem noteAt_not_historyLaw :
    ¬ ∀ (lib : EventLibrary) (maxEvents : Nat) (es : List Event), HistoryLaw lib maxEvents es := by
  intro h
  have horder := (h clockLibrary 10 [noteAt 2, noteAt 1]).arriveInOrder [noteAt 2] (noteAt 1)
    (List.prefix_refl _) verify_noteAt_one rfl
  have hinner : (stored clockLibrary 10 [noteAt 2]).inner = [noteAt 2] := by decide +kernel
  have hplace : place (stored clockLibrary 10 [noteAt 2]) (noteAt 1) = ([noteAt 2], []) := by
    decide +kernel
  rw [hinner, hplace] at horder
  rcases horder with hsame | ⟨-, hle, -⟩
  · exact absurd (congrArg List.length hsame) (by decide)
  · exact absurd (hle (noteAt 2) List.mem_cons_self) (by decide)

end Nostr

end SolidPod
