import SolidPod.Nostr.Ingestion

/-!
# Replaceable events

What a relay ends up with for a replaceable event. The store keeps the last
event that was written, whatever its time, compares authors by their spelling,
and looks for an event to replace before it puts one. So a run leaves exactly
the newest event of an address when all events spell the address alike, when
the first call for it is over before the next one begins, and when the newest
event comes last.
-/

namespace SolidPod

open Foundation

namespace Nostr

section Run

variable {ι : Type*} [DecidableEq ι] (lib : EventLibrary) (calls : ι → Event)

/-- The steps of a schedule that belong to the calls for an address. -/
def stepsAt (a : Address) (sched : List ι) : List ι :=
  sched.filter fun i => (calls i).address lib = some a

/-- The event is the one with the greatest time among those for the address. -/
def IsNewest (a : Address) (m : Event) : Prop :=
  (∃ i, calls i = m ∧ m.address lib = some a) ∧
    ∀ j, (calls j).address lib = some a → calls j = m ∨ (calls j).createdAt < m.createdAt

/-- For each address, the store holds exactly its newest event. -/
def Converged (s : RelayState ι) : Prop :=
  ∀ i a, (calls i).address lib = some a → ∃ m, IsNewest lib calls a m ∧ slots lib a s = [m]

/-- What a run needs at an address. -/
structure Orderly (a : Address) (sched : List ι) : Prop where
  spelledAlike : ∀ i j, (calls i).address lib = some a → (calls j).address lib = some a →
    (calls i).spelling = (calls j).spelling
  undisturbed : ∃ i rest, stepsAt lib calls a sched = i :: i :: rest
  newestLast : ∀ i ∈ (stepsAt lib calls a sched).getLast?, IsNewest lib calls a (calls i)

/-- Two events of the address, or one and a call that will put another. -/
def Crowded (a : Address) (s : RelayState ι) : Prop :=
  2 ≤ (slots lib a s).length ∨
    (slots lib a s ≠ [] ∧ ∃ j, (calls j).address lib = some a ∧ s.phase j = .missed) ∨
    ∃ j k, j ≠ k ∧ ((calls j).address lib = some a ∧ s.phase j = .missed) ∧
      (calls k).address lib = some a ∧ s.phase k = .missed

/-- What the steps for an address have made of it. -/
inductive Shape (a : Address) (steps : List ι) (s : RelayState ι) : Prop
  | untouched (hsteps : steps = []) (hslots : slots lib a s = [])
      (hphase : ∀ j, (calls j).address lib = some a → s.phase j = .pending)
  | opened (i : ι) (hsteps : steps = [i]) (hslots : slots lib a s = [])
      (hopen : (calls i).address lib = some a ∧ s.phase i = .missed)
      (hphase : ∀ j, (calls j).address lib = some a → j ≠ i → s.phase j = .pending)
  | settled (i : ι) (rest : List ι) (hsteps : steps = i :: i :: rest)
      (hslots : ∃ j, (i :: rest).getLast? = some j ∧ slots lib a s = [calls j])
      (hphase : ∀ j, (calls j).address lib = some a → s.phase j ≠ .missed)
      (halike : ∀ j ∈ steps, (calls j).spelling = (calls i).spelling)
  | crowded (hcrowded : Crowded lib calls a s)
      (hsplit : (∃ i j rest, steps = i :: j :: rest ∧ i ≠ j) ∨
        ∃ j ∈ steps, ∃ k ∈ steps, (calls j).spelling ≠ (calls k).spelling)

variable {lib calls} {s t : RelayState ι} {i : ι} {a : Address} {steps : List ι}

omit [DecidableEq ι] in
theorem stepsAt_concat_of_ne {sched : List ι} (ha : (calls i).address lib ≠ some a) :
    stepsAt lib calls a (sched ++ [i]) = stepsAt lib calls a sched := by
  rw [stepsAt, List.filter_append, List.filter_cons_of_neg (by simp [ha]), List.filter_nil,
    List.append_nil, stepsAt]

omit [DecidableEq ι] in
theorem stepsAt_concat {sched : List ι} (ha : (calls i).address lib = some a) :
    stepsAt lib calls a (sched ++ [i]) = stepsAt lib calls a sched ++ [i] := by
  rw [stepsAt, List.filter_append, List.filter_cons_of_pos (by simp [ha]), List.filter_nil, stepsAt]

/-- A call that has looked in vain and is not the one that steps stays so. -/
theorem Stepped.missed_of_pending (hstep : Stepped calls s i t) (hphase : s.phase i = .pending)
    {j : ι} (hj : (calls j).address lib = some a ∧ s.phase j = .missed) :
    (calls j).address lib = some a ∧ t.phase j = .missed := by
  have hne : j ≠ i := by
    rintro rfl
    rw [hj.2] at hphase
    cases hphase
  exact ⟨hj.1, (hstep.phase_of_ne hne).trans hj.2⟩

theorem Crowded.step (h : Crowded lib calls a s) (hstep : Stepped calls s i t)
    (hroom : Roomy lib calls s i) (ha : (calls i).address lib = some a) :
    Crowded lib calls a t := by
  have hkeep : s.phase i = .pending → (slots lib a t).length = (slots lib a s).length →
      Crowded lib calls a t := by
    intro hphase hlength
    rcases h with htwo | ⟨hne, j, hj⟩ | ⟨j, k, hjk, hj, hk⟩
    · exact Or.inl (by rwa [hlength])
    · have hpos : slots lib a t ≠ [] := by
        rw [← List.length_pos_iff, hlength, List.length_pos_iff]
        exact hne
      exact Or.inr (Or.inl ⟨hpos, j, hstep.missed_of_pending hphase hj⟩)
    · exact Or.inr (Or.inr ⟨j, k, hjk, hstep.missed_of_pending hphase hj,
        hstep.missed_of_pending hphase hk⟩)
  rcases hstep.filed hroom ha with ⟨hphase, hlength, -, -, -⟩ | ⟨hphase, hsame, -, -⟩ |
    ⟨hphase, hput, -⟩
  · exact hkeep hphase hlength
  · exact hkeep hphase (congrArg List.length hsame)
  · have hlength : (slots lib a t).length = (slots lib a s).length + 1 := by
      rw [hput, List.length_append, List.length_singleton]
    have hpos : slots lib a t ≠ [] := by
      rw [← List.length_pos_iff, hlength]
      exact Nat.succ_pos _
    rcases h with htwo | ⟨hne, -⟩ | ⟨j, k, hjk, hj, hk⟩
    · exact Or.inl (by omega)
    · have := List.length_pos_iff.mpr hne
      exact Or.inl (by omega)
    · right
      left
      refine ⟨hpos, ?_⟩
      by_cases hji : j = i
      · have hki : k ≠ i := fun hki => hjk (hji.trans hki.symm)
        exact ⟨k, hk.1, (hstep.phase_of_ne hki).trans hk.2⟩
      · exact ⟨j, hj.1, (hstep.phase_of_ne hji).trans hj.2⟩

/-- A step for another address changes nothing. -/
theorem Shape.step_of_ne (h : Shape lib calls a steps s) (hstep : Stepped calls s i t)
    (hvalid : (calls i).verify lib = .ok ()) (hroom : Roomy lib calls s i)
    (ha : (calls i).address lib ≠ some a) : Shape lib calls a steps t := by
  have hslots' := hstep.slots_of_ne hvalid hroom ha
  have hphase' : ∀ j, (calls j).address lib = some a → t.phase j = s.phase j := by
    intro j hj
    apply hstep.phase_of_ne
    rintro rfl
    exact ha hj
  cases h with
  | untouched hsteps hslots hphase =>
      exact .untouched hsteps (hslots'.trans hslots) fun j hj => (hphase' j hj).trans (hphase j hj)
  | opened i hsteps hslots hopen hphase =>
      exact .opened i hsteps (hslots'.trans hslots)
        ⟨hopen.1, (hphase' i hopen.1).trans hopen.2⟩
        fun j hj hne => (hphase' j hj).trans (hphase j hj hne)
  | settled i rest hsteps hslots hphase halike =>
      obtain ⟨j, hlast, hj⟩ := hslots
      refine .settled i rest hsteps ⟨j, hlast, hslots'.trans hj⟩ ?_ halike
      intro k hk
      rw [hphase' k hk]
      exact hphase k hk
  | crowded hcrowded hsplit =>
      refine .crowded ?_ hsplit
      rcases hcrowded with hlength | ⟨hne, j, hj, hmissed⟩ | ⟨j, k, hjk, ⟨hj, hmj⟩, hk, hmk⟩
      · exact Or.inl (by rwa [hslots'])
      · exact Or.inr (Or.inl ⟨by rwa [hslots'], j, hj, by rwa [hphase' j hj]⟩)
      · exact Or.inr (Or.inr ⟨j, k, hjk, ⟨hj, by rwa [hphase' j hj]⟩, hk, by rwa [hphase' k hk]⟩)

theorem Shape.step (h : Shape lib calls a steps s) (hstep : Stepped calls s i t)
    (hroom : Roomy lib calls s i) (ha : (calls i).address lib = some a) :
    Shape lib calls a (steps ++ [i]) t := by
  have hothers : ∀ j, j ≠ i → t.phase j = s.phase j := fun j hj => hstep.phase_of_ne hj
  cases h with
  | untouched hsteps hslots hphase =>
      rcases hstep.filed hroom ha with ⟨-, -, ⟨x, hx, -⟩, -, -⟩ | ⟨-, hsame, -, hnext⟩ |
        ⟨hmissed, -, -⟩
      · rw [hslots] at hx
        exact absurd hx List.not_mem_nil
      · refine .opened i (by rw [hsteps, List.nil_append]) (hsame.trans hslots) ⟨ha, hnext⟩ ?_
        intro j hj hne
        exact (hothers j hne).trans (hphase j hj)
      · rw [hphase i ha] at hmissed
        cases hmissed
  | opened k hsteps hslots hopen hphase =>
      by_cases hik : i = k
      · rcases hstep.filed hroom ha with ⟨hpending, -⟩ | ⟨hpending, -⟩ | ⟨-, hput, hnext⟩
        · rw [hik, hopen.2] at hpending
          cases hpending
        · rw [hik, hopen.2] at hpending
          cases hpending
        · refine .settled i [] (by rw [hsteps, hik]; rfl)
            ⟨i, rfl, by rw [hput, hslots, List.nil_append]⟩ ?_ ?_
          · intro j hj
            by_cases hji : j = i
            · rw [hji, hnext]
              exact Phase.noConfusion
            · rw [hothers j hji, hphase j hj (by rwa [← hik])]
              exact Phase.noConfusion
          · intro j hj
            rw [hsteps, ← hik] at hj
            simp only [List.cons_append, List.nil_append, List.mem_cons, List.not_mem_nil,
              or_false, or_self] at hj
            rw [hj]
      · have hpending := hphase i ha hik
        rcases hstep.filed hroom ha with ⟨-, -, ⟨x, hx, -⟩, -, -⟩ | ⟨-, hsame, -, hnext⟩ |
          ⟨hmissed, -, -⟩
        · rw [hslots] at hx
          exact absurd hx List.not_mem_nil
        · refine .crowded (Or.inr (Or.inr ⟨k, i, fun hki => hik hki.symm, ⟨hopen.1, ?_⟩,
            ha, hnext⟩)) (Or.inl ⟨k, i, [], by rw [hsteps]; rfl, fun hki => hik hki.symm⟩)
          exact (hothers k fun hki => hik hki.symm).trans hopen.2
        · rw [hpending] at hmissed
          cases hmissed
  | settled k rest hsteps hslots hphase halike =>
      obtain ⟨j, hlast, hj⟩ := hslots
      have hmem : j ∈ steps := by
        rw [hsteps]
        exact List.mem_cons_of_mem k (List.mem_of_getLast? hlast)
      rcases hstep.filed hroom ha with ⟨-, -, hsome, hsingle, hnext⟩ | ⟨-, hsame, hnone, hnext⟩ |
        ⟨hmissed, -, -⟩
      · obtain ⟨x, hx, hspell⟩ := hsome
        rw [hj, List.mem_singleton] at hx
        refine .settled k (rest ++ [i]) (by rw [hsteps]; rfl) ⟨i, ?_, ?_⟩ ?_ ?_
        · rw [← List.cons_append, List.getLast?_concat]
        · exact hsingle (by rw [hj]; rfl)
        · intro l hl
          by_cases hli : l = i
          · rw [hli, hnext]
            exact Phase.noConfusion
          · rw [hothers l hli]
            exact hphase l hl
        · intro l hl
          rcases List.mem_append.mp hl with hl | hl
          · exact halike l hl
          · rw [List.mem_singleton.mp hl, ← hspell, hx]
            exact halike j hmem
      · refine .crowded (Or.inr (Or.inl ⟨by rw [hsame, hj]; simp, i, ha, hnext⟩))
          (Or.inr ⟨j, List.mem_append_left _ hmem, i, List.mem_concat_self, ?_⟩)
        exact hnone (calls j) (by rw [hj]; exact List.mem_singleton_self _)
      · exact absurd hmissed (hphase i ha)
  | crowded hcrowded hsplit =>
      refine .crowded (hcrowded.step hstep hroom ha) ?_
      rcases hsplit with ⟨j, k, rest, rfl, hjk⟩ | ⟨j, hj, k, hk, hne⟩
      · exact Or.inl ⟨j, k, rest ++ [i], rfl, hjk⟩
      · exact Or.inr ⟨j, List.mem_append_left _ hj, k, List.mem_append_left _ hk, hne⟩

/-- A finished run has made something of each address, and has made it with all
the calls for it. -/
theorem shape_of_run {store : InMemoryEventStore} {sched : List ι}
    (hvalid : ∀ i, (calls i).verify lib = .ok ())
    (hstore : store.inner = [])
    (hrun : Schedule.run (Nostr.step lib calls) (start store) sched = some t)
    (hroom : Schedule.Along (Nostr.step lib calls) (Roomy lib calls) (start store) sched) :
    Shape lib calls a (stepsAt lib calls a sched) t ∧
      ∀ j, (calls j).address lib = some a → t.phase j ≠ .pending →
        j ∈ stepsAt lib calls a sched := by
  refine Schedule.induct (P := fun pre u => Shape lib calls a (stepsAt lib calls a pre) u ∧
    ∀ j, (calls j).address lib = some a → u.phase j ≠ .pending →
      j ∈ stepsAt lib calls a pre) hrun ?_ hroom ?_
  · refine ⟨.untouched rfl ?_ fun j _ => rfl, fun j _ hj => absurd rfl hj⟩
    rw [slots, start, hstore]
    rfl
  · rintro pre i u v ⟨hshape, hseen⟩ hroomy hstep
    have hstepped := stepped_of_step hstep (hvalid i)
    by_cases ha : (calls i).address lib = some a
    · rw [stepsAt_concat ha]
      refine ⟨hshape.step hstepped hroomy ha, ?_⟩
      intro j hj hphase
      by_cases hji : j = i
      · rw [hji]
        exact List.mem_concat_self
      · rw [hstepped.phase_of_ne hji] at hphase
        exact List.mem_append_left _ (hseen j hj hphase)
    · rw [stepsAt_concat_of_ne ha]
      refine ⟨hshape.step_of_ne hstepped (hvalid i) hroomy ha, ?_⟩
      intro j hj hphase
      have hji : j ≠ i := by
        rintro rfl
        exact ha hj
      rw [hstepped.phase_of_ne hji] at hphase
      exact hseen j hj hphase

omit [DecidableEq ι] in
theorem Crowded.two_le_of_done (h : Crowded lib calls a t) (hdone : ∀ i, t.phase i = .done) :
    2 ≤ (slots lib a t).length := by
  have hnone : ∀ j, t.phase j ≠ .missed := by
    intro j hj
    rw [hdone j] at hj
    cases hj
  rcases h with htwo | ⟨-, j, -, hj⟩ | ⟨j, -, -, ⟨-, hj⟩, -⟩
  · exact htwo
  · exact absurd hj (hnone j)
  · exact absurd hj (hnone j)

omit [DecidableEq ι] in
theorem exists_newest_iff_orderly {sched : List ι} (hdone : ∀ i, t.phase i = .done)
    (hshape : Shape lib calls a (stepsAt lib calls a sched) t)
    (hseen : ∀ j, (calls j).address lib = some a → j ∈ stepsAt lib calls a sched)
    (hi : (calls i).address lib = some a) :
    (∃ m, IsNewest lib calls a m ∧ slots lib a t = [m]) ↔ Orderly lib calls a sched := by
  have haddress : ∀ j ∈ stepsAt lib calls a sched, (calls j).address lib = some a := by
    intro j hj
    simpa using (List.mem_filter.mp hj).2
  cases hshape with
  | untouched hsteps =>
      have hmem := hseen i hi
      rw [hsteps] at hmem
      exact absurd hmem List.not_mem_nil
  | opened k hsteps hslots hopen =>
      rw [hdone k] at hopen
      cases hopen.2
  | settled k rest hsteps hslots hphase halike =>
      obtain ⟨j, hlast, hj⟩ := hslots
      have hend : (stepsAt lib calls a sched).getLast? = some j := by
        rw [hsteps, List.getLast?_cons_cons, hlast]
      constructor
      · rintro ⟨m, hnewest, hm⟩
        rw [hj, List.singleton_inj] at hm
        refine ⟨?_, ⟨k, rest, hsteps⟩, ?_⟩
        · intro x y hx hy
          rw [halike x (hseen x hx), halike y (hseen y hy)]
        · intro x hx
          rw [hend] at hx
          cases hx
          rwa [hm]
      · intro h
        exact ⟨calls j, h.newestLast j hend, hj⟩
  | crowded hcrowded hsplit =>
      constructor
      · rintro ⟨m, -, hm⟩
        have htwo := hcrowded.two_le_of_done hdone
        rw [hm, List.length_singleton] at htwo
        omega
      · rintro ⟨hspelled, ⟨x, rest', hundisturbed⟩, -⟩
        exfalso
        rcases hsplit with ⟨j, k, rest, hsteps, hjk⟩ | ⟨j, hj, k, hk, hne⟩
        · rw [hundisturbed] at hsteps
          cases hsteps
          exact hjk rfl
        · exact hne (hspelled j k (haddress j hj) (haddress k hk))

/-- A run with no more steps than there is room drops nothing. -/
theorem roomy_of_length_lt (store : InMemoryEventStore) (sched : List ι)
    (hvalid : ∀ i, (calls i).verify lib = .ok ())
    (hlength : store.inner.length + sched.length < store.maxEvents) :
    Schedule.Along (Nostr.step lib calls) (Roomy lib calls) (start store) sched := by
  intro pre i post u hsched hrun _
  have hbound : u.store.inner.length ≤ store.inner.length + pre.length ∧
      u.store.maxEvents = store.maxEvents := by
    refine Schedule.induct (P := fun pre u =>
      u.store.inner.length ≤ store.inner.length + pre.length ∧
        u.store.maxEvents = store.maxEvents) (G := fun _ _ => True) hrun ⟨le_rfl, rfl⟩
        (fun _ _ _ _ _ _ => trivial) ?_
    rintro pre i u v ⟨hlength, hmax⟩ - hstep
    obtain ⟨hmore, hkept⟩ := (stepped_of_step hstep (hvalid i)).length_le
    rw [List.length_append, List.length_singleton]
    exact ⟨by omega, hkept.trans hmax⟩
  rw [hsched, List.length_append, List.length_cons] at hlength
  rw [hbound.2]
  omega

omit [DecidableEq ι] in
theorem IsNewest.unique {m n : Event} (hm : IsNewest lib calls a m) (hn : IsNewest lib calls a n) :
    m = n := by
  obtain ⟨⟨i, rfl, hi⟩, hmax⟩ := hm
  obtain ⟨⟨j, rfl, hj⟩, hmax'⟩ := hn
  rcases hmax j hj with heq | hlt
  · exact heq.symm
  · rcases hmax' i hi with heq | hlt'
    · exact heq
    · exact absurd hlt (UInt64.lt_asymm hlt')

omit [DecidableEq ι] in
/-- What a run has converged to does not depend on the run. -/
theorem Converged.slots_eq (hs : Converged lib calls s) (ht : Converged lib calls t)
    (hi : (calls i).address lib = some a) : slots lib a s = slots lib a t := by
  obtain ⟨m, hm, hslots⟩ := hs i a hi
  obtain ⟨n, hn, hslots'⟩ := ht i a hi
  rw [hslots, hslots', hm.unique hn]

end Run

/-! ## An author with one key -/

/-- Libraries that hash everything to zeros and accept every signature. -/
def zeroLibrary : EventLibrary where
  VerifyingKey := Unit
  Signature := Unit
  hexDecode s := .ok (List.replicate (s.length / 2) 0)
  hexEncode b := List.replicate (2 * b.length) '0'
  sha256 _ := List.replicate 32 0
  jsonToString _ := .ok []
  toLowercase s := s
  verifyingKey _ := .ok ()
  signature _ := .ok ()
  verify _ _ _ := .ok ()

/-- A profile of the author whose key is all zeros. -/
def zeroProfile (createdAt : UInt64) : Event where
  id := List.replicate 64 '0'
  pubkey := List.replicate 64 '0'
  createdAt := createdAt
  kind := 0
  tags := []
  content := []
  sig := List.replicate 128 '0'

theorem verify_zeroProfile (createdAt : UInt64) :
    (zeroProfile createdAt).verify zeroLibrary = .ok () := by
  rfl

theorem address_zeroProfile (createdAt : UInt64) :
    (zeroProfile createdAt).address zeroLibrary =
      some ⟨some (List.replicate 32 0), 0, none⟩ := by
  have hkind : isReplaceable (zeroProfile createdAt).kind = true := rfl
  rw [Event.address, if_pos hkind]
  simp [zeroLibrary, zeroProfile, Except.toOption]

end Nostr

end SolidPod
