import Mathlib.Data.Set.Function

/-!
# Things that are handed over

A table holds one thing under a key. A put replaces what is there, a take answers
with what is there and leaves nothing. In the log of a system, oldest event first,
every take that got something is matched with one put, which was the last event
about its key before; `view` reads off an event what it did to the table.
-/

namespace Foundation

namespace Handover

variable {E K V : Type*}

/-- What an event did to the table. -/
inductive Move (K V : Type*) where
  | put (k : K) (v : V)
  | take (k : K) (answer : Option V)

def Move.key : Move K V → K
  | .put k _ | .take k _ => k

variable (view : E → Option (Move K V))

/-- What the event at a position did. -/
def moveAt (log : List E) (n : ℕ) : Option (Move K V) := log[n]?.bind view

/-- No event between two positions is about the key. -/
def Quiet (log : List E) (m n : ℕ) (k : K) : Prop :=
  ∀ i, m < i → i < n → ∀ move, moveAt view log i = some move → move.key ≠ k

/-- The take at `n` gets what the put at `m` left. -/
structure HandsOver (log : List E) (m n : ℕ) (k : K) (v : V) : Prop where
  lt : m < n
  put : moveAt view log m = some (.put k v)
  take : moveAt view log n = some (.take k (some v))
  quiet : Quiet view log m n k

/-- The table holds what was put last and not taken, and each take got that. -/
structure Agrees (table : K → Option V) (log : List E) : Prop where
  held : ∀ {k v}, table k = some v →
    ∃ m < log.length, moveAt view log m = some (.put k v) ∧ Quiet view log m log.length k
  handed : ∀ {n k v}, moveAt view log n = some (.take k (some v)) →
    ∃ m, HandsOver view log m n k v

variable {view} {table : K → Option V} {log : List E} {e : E} {m n n' : ℕ} {k : K} {v v' : V}

/-- A put is handed over once. -/
theorem HandsOver.right_unique (h : HandsOver view log m n k v)
    (h' : HandsOver view log m n' k v') : n = n' := by
  rcases Nat.lt_trichotomy n n' with hlt | heq | hlt
  · exact absurd rfl (h'.quiet n h.lt hlt _ h.take)
  · exact heq
  · exact absurd rfl (h.quiet n' h'.lt hlt _ h'.take)

/-- An event of a log that grew by one. -/
theorem getElem?_append_singleton_eq_some_iff {e' : E} :
    (log ++ [e])[n]? = some e' ↔ log[n]? = some e' ∨ n = log.length ∧ e = e' := by
  rcases Nat.lt_or_ge n log.length with hlt | hge
  · rw [List.getElem?_append_left hlt]
    exact ⟨Or.inl, fun h => h.resolve_right fun h => absurd h.1 hlt.ne⟩
  · have hnone : log[n]? = none := List.getElem?_eq_none hge
    rw [List.getElem?_append_right hge, hnone, List.getElem?_singleton]
    split_ifs with hzero
    · have hn : n = log.length := by omega
      simp [hn]
    · have hn : n ≠ log.length := by omega
      simp [hn]

theorem moveAt_append_of_lt (h : n < log.length) :
    moveAt view (log ++ [e]) n = moveAt view log n := by
  rw [moveAt, moveAt, List.getElem?_append_left h]

theorem moveAt_append_length : moveAt view (log ++ [e]) log.length = view e := by
  rw [moveAt, List.getElem?_concat_length, Option.bind_some]

theorem lt_of_moveAt {move : Move K V} (h : moveAt view log n = some move) : n < log.length := by
  obtain ⟨e, he, -⟩ := Option.bind_eq_some_iff.mp h
  exact (List.getElem?_eq_some_iff.mp he).1

theorem Quiet.append (h : Quiet view log m n k) (hn : n ≤ log.length) :
    Quiet view (log ++ [e]) m n k := by
  intro i hm hi move hmove
  rw [moveAt_append_of_lt (hi.trans_le hn)] at hmove
  exact h i hm hi move hmove

/-- An event that is not about the key leaves it quiet. -/
theorem Quiet.append_other (h : Quiet view log m log.length k)
    (he : ∀ move, view e = some move → move.key ≠ k) :
    Quiet view (log ++ [e]) m (log ++ [e]).length k := by
  intro i hm hi move hmove
  rw [List.length_append, List.length_singleton] at hi
  rcases Nat.lt_succ_iff_lt_or_eq.mp hi with hlt | rfl
  · exact h.append le_rfl i hm hlt move hmove
  · rw [moveAt_append_length] at hmove
    exact he move hmove

theorem HandsOver.append (h : HandsOver view log m n k v) :
    HandsOver view (log ++ [e]) m n k v where
  lt := h.lt
  put := by
    rw [moveAt_append_of_lt (lt_of_moveAt h.put)]
    exact h.put
  take := by
    rw [moveAt_append_of_lt (lt_of_moveAt h.take)]
    exact h.take
  quiet := h.quiet.append (lt_of_moveAt h.take).le

/-- What a take got was put once and is got once. -/
theorem Agrees.once (h : Agrees view table log)
    (htake : moveAt view log n = some (.take k (some v))) :
    ∃ m, HandsOver view log m n k v ∧ ∀ n' k' v', HandsOver view log m n' k' v' → n' = n := by
  obtain ⟨m, hm⟩ := h.handed htake
  refine ⟨m, hm, fun n' k' v' hm' => ?_⟩
  injection hm.put.symm.trans hm'.put with hput
  injection hput with hk hv
  subst hk
  exact hm'.right_unique hm

theorem Agrees.nil : Agrees view (fun _ : K => (none : Option V)) ([] : List E) where
  held h := by cases h
  handed h := by cases h

/-- What was handed over before stays so, and the new event is looked at on its own. -/
theorem Agrees.handed_append (h : Agrees view table log)
    (htake : ∀ {k v}, view e = some (.take k (some v)) → table k = some v) {n : ℕ} {k : K} {v : V}
    (hn : moveAt view (log ++ [e]) n = some (.take k (some v))) :
    ∃ m, HandsOver view (log ++ [e]) m n k v := by
  have hlt := lt_of_moveAt hn
  rw [List.length_append, List.length_singleton] at hlt
  rcases Nat.lt_succ_iff_lt_or_eq.mp hlt with hlt | rfl
  · rw [moveAt_append_of_lt hlt] at hn
    obtain ⟨m, hm⟩ := h.handed hn
    exact ⟨m, hm.append⟩
  · have hview := hn
    rw [moveAt_append_length] at hview
    obtain ⟨m, hm, hput, hquiet⟩ := h.held (htake hview)
    refine ⟨m, hm, ?_, hn, hquiet.append le_rfl⟩
    rw [moveAt_append_of_lt hm]
    exact hput

theorem held_append (hm : m < log.length) (hput : moveAt view log m = some (.put k v))
    (hquiet : Quiet view log m log.length k) (he : ∀ move, view e = some move → move.key ≠ k) :
    ∃ m < (log ++ [e]).length, moveAt view (log ++ [e]) m = some (.put k v) ∧
      Quiet view (log ++ [e]) m (log ++ [e]).length k := by
  refine ⟨m, ?_, ?_, hquiet.append_other he⟩
  · rw [List.length_append]
    exact Nat.lt_add_right _ hm
  · rw [moveAt_append_of_lt hm]
    exact hput

/-- An event that leaves the table alone. -/
theorem Agrees.other (h : Agrees view table log) (hview : view e = none) :
    Agrees view table (log ++ [e]) where
  held hk := by
    obtain ⟨m, hm, hput, hquiet⟩ := h.held hk
    exact held_append hm hput hquiet fun move hmove => by cases hview.symm.trans hmove
  handed hn := h.handed_append (fun htake => by cases hview.symm.trans htake) hn

variable [DecidableEq K]

theorem Agrees.put (h : Agrees view table log) (hview : view e = some (.put k v)) :
    Agrees view (fun k' => if k' = k then some v else table k') (log ++ [e]) where
  held {k' v'} hk := by
    split_ifs at hk with hkk
    · cases hk
      subst hkk
      refine ⟨log.length, by simp, moveAt_append_length.trans hview, fun i hm hi => ?_⟩
      rw [List.length_append, List.length_singleton] at hi
      omega
    · obtain ⟨m, hm, hput, hquiet⟩ := h.held hk
      refine held_append hm hput hquiet fun move hmove => ?_
      cases hview.symm.trans hmove
      exact Ne.symm hkk
  handed hn := h.handed_append (fun htake => by cases hview.symm.trans htake) hn

theorem Agrees.take (h : Agrees view table log) (hview : view e = some (.take k (table k))) :
    Agrees view (fun k' => if k' = k then none else table k') (log ++ [e]) where
  held {k' v'} hk := by
    split_ifs at hk with hkk
    obtain ⟨m, hm, hput, hquiet⟩ := h.held hk
    refine held_append hm hput hquiet fun move hmove => ?_
    cases hview.symm.trans hmove
    exact Ne.symm hkk
  handed hn := h.handed_append (fun htake => by
    injection hview.symm.trans htake with hmove
    injection hmove with hkey hanswer
    exact hkey ▸ hanswer) hn

end Handover

end Foundation
