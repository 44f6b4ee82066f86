import Mathlib.Data.List.Induction
import Mathlib.Data.List.Perm.Basic
import SolidPod.ActivityPub.Delivery

/-!
# The delivery state of an activity

Every queue row of an activity marks the activity when it is settled for good, so
the mark is that of the row that is settled last.
-/

namespace SolidPod

open Foundation

namespace ActivityPub

/-- The last attempt for a row, which drops it. -/
structure FinalAttempt where
  item : DeliveryItem
  drain : Drain
  isFinal : (settlement item drain.answer).state ≠ none
  noFault : drain.NoFault

/-- The row was delivered, and not given up. -/
def FinalAttempt.Delivers (a : FinalAttempt) : Prop := settlement a.item a.drain.answer = .deliver

/-- The rows are settled one after the other. -/
def settleAll (s : Store) (l : List FinalAttempt) : Store :=
  l.foldl (fun s a => (settle a.drain a.item s).2) s

def Store.deliveryState (s : Store) (id : Str) : Option Str :=
  (s.outbox.find? fun r => r.id = id).map (·.deliveryState)

/-- The mark does not depend on the order in which the rows are settled, and says
delivered only of what was delivered to all. -/
structure OrderIndependent (s : Store) (id : Str) (l : List FinalAttempt) : Prop where
  sameState : ∀ l', l'.Perm l → (settleAll s l').deliveryState id = (settleAll s l).deliveryState id
  delivered : ∀ l', l'.Perm l → (settleAll s l').deliveryState id = some "delivered".toList →
    ∀ a ∈ l, a.Delivers

variable {s : Store} {id : Str} {a : FinalAttempt} {l : List FinalAttempt}

theorem FinalAttempt.state_eq (a : FinalAttempt) :
    (settlement a.item a.drain.answer).state = some "delivered".toList ∧ a.Delivers ∨
      (settlement a.item a.drain.answer).state = some "failed".toList ∧ ¬ a.Delivers := by
  have hfinal := a.isFinal
  rw [Delivers]
  cases hsettlement : settlement a.item a.drain.answer with
  | deliver => exact Or.inl ⟨rfl, rfl⟩
  | fail => exact Or.inr ⟨rfl, nofun⟩
  | retry =>
      rw [hsettlement] at hfinal
      exact (hfinal rfl).elim

theorem deliveryState_markOutboxState {turn : Turn} (h : turn.fault = none)
    (hrow : (s.deliveryState id).isSome) (state : Str) :
    (s.markOutboxState turn id state).2.deliveryState id = some state := by
  rw [Store.markOutboxState, Turn.execute_of_no_fault h, Store.deliveryState, List.find?_map]
  rw [Store.deliveryState] at hrow
  have hids : ((fun r : OutboxRow => decide (r.id = id)) ∘ fun r =>
      if r.id = id then { r with deliveryState := state } else r) =
        fun r => decide (r.id = id) := by
    funext r
    rw [Function.comp_apply]
    split_ifs <;> rfl
  rw [hids, Option.map_map]
  cases hfind : s.outbox.find? fun r => decide (r.id = id) with
  | none =>
      rw [hfind] at hrow
      cases hrow
  | some r =>
      have hr : r.id = id := by simpa using List.find?_some hfind
      rw [Option.map_some, Function.comp_apply, if_pos hr]

/-- A settled row leaves the activity with its own mark. -/
theorem deliveryState_settle (hrow : (s.deliveryState id).isSome) (ha : a.item.activityId = id) :
    (settle a.drain a.item s).2.deliveryState id = (settlement a.item a.drain.answer).state := by
  rw [settle]
  have hfinal := a.isFinal
  have hmark := a.noFault.mark
  have hdropped : settleRow a.drain.settle a.item.queueId s (settlement a.item a.drain.answer) =
      s.dropDelivery a.drain.settle a.item.queueId := by
    cases hsettlement : settlement a.item a.drain.answer with
    | deliver | fail => rfl
    | retry =>
        rw [hsettlement] at hfinal
        exact absurd rfl hfinal
  obtain ⟨state, hstate⟩ := Option.ne_none_iff_exists'.mp hfinal
  rw [hdropped, Store.dropDelivery, Turn.execute_of_no_fault a.noFault.settle, hstate]
  simp only
  have hmarked := deliveryState_markOutboxState (s := { s with
    deliveryQueue := s.deliveryQueue.remove a.item.queueId }) hmark hrow state
  rw [ha]
  rw [Store.markOutboxState, Turn.execute_of_no_fault hmark] at hmarked ⊢
  exact hmarked

theorem isSome_deliveryState_settle (hrow : (s.deliveryState id).isSome)
    (ha : a.item.activityId = id) : ((settle a.drain a.item s).2.deliveryState id).isSome := by
  rw [deliveryState_settle hrow ha]
  exact Option.isSome_iff_ne_none.mpr a.isFinal

/-- The activity keeps the mark of the row that is settled last. -/
theorem deliveryState_settleAll (hrow : (s.deliveryState id).isSome)
    (hl : ∀ b ∈ l ++ [a], b.item.activityId = id) :
    (settleAll s (l ++ [a])).deliveryState id = (settlement a.item a.drain.answer).state := by
  have hall : ((settleAll s l).deliveryState id).isSome := by
    have hbefore : ∀ b ∈ l, b.item.activityId = id := fun b hb => hl b (List.mem_append_left _ hb)
    clear hl
    induction l generalizing s with
    | nil => exact hrow
    | cons b l ih =>
        exact ih (isSome_deliveryState_settle hrow (hbefore b List.mem_cons_self)) fun c hc =>
          hbefore c (List.mem_cons_of_mem b hc)
  rw [settleAll, List.foldl_append]
  exact deliveryState_settle hall (hl a (List.mem_append_right _ List.mem_cons_self))

theorem FinalAttempt.state_eq_delivered_iff (a : FinalAttempt) :
    (settlement a.item a.drain.answer).state = some "delivered".toList ↔ a.Delivers := by
  rcases a.state_eq with ⟨hstate, hdelivers⟩ | ⟨hstate, hdelivers⟩
  · exact iff_of_true hstate hdelivers
  · refine iff_of_false ?_ hdelivers
    rw [hstate]
    decide

/-- If all rows come to the same, the order does not matter. -/
theorem OrderIndependent.of_state_eq (state : Option Str) (hrow : (s.deliveryState id).isSome)
    (hl : ∀ a ∈ l, a.item.activityId = id)
    (hstate : ∀ a ∈ l, (settlement a.item a.drain.answer).state = state)
    (hdelivered : state = some "delivered".toList → ∀ a ∈ l, a.Delivers) :
    OrderIndependent s id l := by
  have hfinal : l = [] ∨ ∀ l', l'.Perm l → (settleAll s l').deliveryState id = state := by
    by_cases hnil : l = []
    · exact Or.inl hnil
    · right
      intro l' hperm
      rcases List.eq_nil_or_concat' l' with rfl | ⟨front, a, rfl⟩
      · exact absurd hperm.nil_eq.symm hnil
      · rw [deliveryState_settleAll hrow fun b hb => hl b (hperm.mem_iff.mp hb)]
        exact hstate a (hperm.mem_iff.mp (List.mem_append_right _ List.mem_cons_self))
  rcases hfinal with rfl | hfinal
  · refine ⟨?_, ?_⟩
    · intro l' hperm
      rw [hperm.eq_nil]
    · intro _ _ _ a ha
      cases ha
  · refine ⟨?_, ?_⟩
    · intro l' hperm
      rw [hfinal l' hperm, hfinal l (.refl l)]
    · intro l' hperm hmark
      rw [hfinal l' hperm] at hmark
      exact hdelivered hmark

/-- The order does not matter exactly when all rows were delivered or none was. -/
theorem orderIndependent_iff (hrow : (s.deliveryState id).isSome)
    (hl : ∀ a ∈ l, a.item.activityId = id) :
    OrderIndependent s id l ↔ (∀ a ∈ l, a.Delivers) ∨ ∀ a ∈ l, ¬ a.Delivers := by
  constructor
  · intro h
    by_cases hsome : ∃ a ∈ l, a.Delivers
    · obtain ⟨a, ha, hdelivers⟩ := hsome
      obtain ⟨front, back, rfl⟩ := List.mem_iff_append.mp ha
      have hperm : (front ++ back ++ [a]).Perm (front ++ a :: back) := by
        rw [List.append_assoc]
        exact (List.perm_append_singleton a back).append_left front
      have hmark : (settleAll s (front ++ back ++ [a])).deliveryState id =
          some "delivered".toList := by
        rw [deliveryState_settleAll hrow fun b hb => hl b (hperm.mem_iff.mp hb)]
        exact a.state_eq_delivered_iff.mpr hdelivers
      exact Or.inl (h.delivered _ hperm hmark)
    · right
      intro a ha hdelivers
      exact hsome ⟨a, ha, hdelivers⟩
  · rintro (hall | hnone)
    · exact OrderIndependent.of_state_eq _ hrow hl
        (fun a ha => a.state_eq_delivered_iff.mpr (hall a ha)) fun _ => hall
    · refine OrderIndependent.of_state_eq (some "failed".toList) hrow hl ?_ fun h =>
        absurd h (by decide)
      intro a ha
      rcases a.state_eq with ⟨-, hdelivers⟩ | ⟨hstate, -⟩
      · exact absurd hdelivers (hnone a ha)
      · exact hstate

/-! ## One inbox accepts and one is gone -/

/-- The outcome of the only attempt for a row of the activity. -/
def answered (queueId status : Nat)
    (h : (settlement ⟨queueId, ['1'], [], 0, none⟩ (.ok status)).state ≠ none) : FinalAttempt where
  item := ⟨queueId, ['1'], [], 0, none⟩
  drain := ⟨⟨0, none⟩, ⟨0, none⟩, ⟨0, none⟩, ⟨0, none⟩, [], .ok status⟩
  isFinal := h
  noFault := ⟨rfl, rfl, rfl, rfl⟩

def accepted : FinalAttempt := answered 1 202 (by decide)

def gone : FinalAttempt := answered 2 410 (by decide)

/-- An activity that was sent to two inboxes. -/
def sentToTwo : Store :=
  { Store.empty with
    outbox := [⟨['1'], ['m'], [], 0, "pending"⟩]
    deliveryQueue := (SerialTable.empty.push ⟨['1'], [], 0, 0, none⟩).push ⟨['1'], [], 0, 0, none⟩ }

theorem orderIndependent_iff_sentToTwo : OrderIndependent sentToTwo ['1'] [accepted, gone] ↔
    (∀ a ∈ [accepted, gone], a.Delivers) ∨ ∀ a ∈ [accepted, gone], ¬ a.Delivers :=
  orderIndependent_iff rfl fun a ha => by
    rcases List.mem_pair.mp ha with rfl | rfl <;> rfl

/-- The activity is marked as delivered if the inbox that accepts is settled
last. -/
theorem sentToTwo_not_orderIndependent :
    ¬ ∀ (s : Store) (id : Str) (l : List FinalAttempt), (s.deliveryState id).isSome →
      (∀ a ∈ l, a.item.activityId = id) → OrderIndependent s id l := by
  intro h
  have hall : ∀ a ∈ [accepted, gone], a.item.activityId = ['1'] := by
    intro a ha
    rcases List.mem_pair.mp ha with rfl | rfl <;> rfl
  have hsame := (h sentToTwo ['1'] [accepted, gone] rfl hall).sameState [gone, accepted]
    (.swap accepted gone [])
  exact absurd hsame (by decide)

end ActivityPub

end SolidPod
