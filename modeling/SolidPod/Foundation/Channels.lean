import Mathlib.Data.List.Basic
import Mathlib.Data.PNat.Basic

/-!
# Channels of bounded size

`Broadcast B α` is the interface of a receiver `B` of a channel that never lets its
sender wait: a full channel overwrites its oldest value, and tells the receiver once
how many values it has lost. `Queue Q α` is that of a channel which lets its sender wait
while it is full. Their lawful versions say what a user may rely on.
-/

namespace Foundation

class Broadcast (B : Type*) (α : outParam (Type*)) where
  /-- A receiver of a channel that keeps so many values. -/
  subscribe : ℕ+ → B
  cap : B → ℕ+
  send : B → α → B
  /-- The next value, or how many values were lost. There is none while the receiver waits. -/
  recv : B → Option (Except ℕ α × B)
  /-- The values that are kept for the receiver. -/
  pending : B → List α
  /-- How many values were overwritten since the receiver was last told of it. -/
  lost : B → ℕ

class Queue (Q : Type*) (α : outParam (Type*)) where
  channel : ℕ+ → Q
  cap : Q → ℕ+
  /-- The channel with one value more, unless the sender has to wait. -/
  send : Q → α → Option Q
  recv : Q → Option (α × Q)
  items : Q → List α

namespace Broadcast

class Lawful (B : Type*) {α : Type*} [Broadcast B α] : Prop where
  cap_subscribe (n : ℕ+) : cap (subscribe n : B) = n
  pending_subscribe (n : ℕ+) : pending (subscribe n : B) = []
  lost_subscribe (n : ℕ+) : lost (subscribe n : B) = 0
  cap_send (b : B) (a : α) : cap (send b a) = cap b
  send_of_lt {b : B} (a : α) (h : (pending b).length < cap b) :
    pending (send b a) = pending b ++ [a] ∧ lost (send b a) = lost b
  send_of_le {b : B} (a : α) (h : cap b ≤ (pending b).length) :
    pending (send b a) = (pending b).tail ++ [a] ∧ lost (send b a) = lost b + 1
  recv_of_lost {b : B} (h : lost b ≠ 0) : ∃ b', recv b = some (.error (lost b), b') ∧
    cap b' = cap b ∧ pending b' = pending b ∧ lost b' = 0
  recv_of_nil {b : B} (h : lost b = 0) (hnil : pending b = []) : recv b = none
  recv_of_cons {b : B} {a : α} {l : List α} (h : lost b = 0) (hcons : pending b = a :: l) :
    ∃ b', recv b = some (.ok a, b') ∧ cap b' = cap b ∧ pending b' = l ∧ lost b' = 0

attribute [simp] Lawful.cap_subscribe Lawful.pending_subscribe Lawful.lost_subscribe
  Lawful.cap_send

section Lawful

variable {B α : Type*} [Broadcast B α] [Lawful B] {b b' : B} {a : α} {n : ℕ}

theorem recv_eq_none (h : recv b = none) : lost b = 0 ∧ pending b = [] := by
  have hlost : lost b = 0 := by
    by_contra hne
    obtain ⟨b', heq, -⟩ := Lawful.recv_of_lost hne
    rw [h] at heq
    cases heq
  refine ⟨hlost, ?_⟩
  cases hpending : pending b with
  | nil => rfl
  | cons a l =>
      obtain ⟨b', heq, -⟩ := Lawful.recv_of_cons hlost hpending
      rw [h] at heq
      cases heq

theorem recv_eq_ok (h : recv b = some (.ok a, b')) :
    lost b = 0 ∧ cap b' = cap b ∧ pending b = a :: pending b' ∧ lost b' = 0 := by
  have hlost : lost b = 0 := by
    by_contra hne
    obtain ⟨c, heq, -⟩ := Lawful.recv_of_lost hne
    rw [h] at heq
    cases heq
  refine ⟨hlost, ?_⟩
  cases hpending : pending b with
  | nil =>
      rw [Lawful.recv_of_nil hlost hpending] at h
      cases h
  | cons c l =>
      obtain ⟨d, heq, hcap, hrest, hlost'⟩ := Lawful.recv_of_cons hlost hpending
      rw [h] at heq
      cases heq
      exact ⟨hcap, by rw [hrest], hlost'⟩

/-- A loss is only told if there was one. -/
theorem recv_eq_error (h : recv b = some (.error n, b')) :
    lost b ≠ 0 ∧ cap b' = cap b ∧ pending b' = pending b ∧ lost b' = 0 := by
  have hlost : lost b ≠ 0 := by
    intro hzero
    cases hpending : pending b with
    | nil =>
        rw [Lawful.recv_of_nil hzero hpending] at h
        cases h
    | cons a l =>
        obtain ⟨c, heq, -⟩ := Lawful.recv_of_cons hzero hpending
        rw [h] at heq
        cases heq
  obtain ⟨c, heq, hrest⟩ := Lawful.recv_of_lost hlost
  rw [h] at heq
  cases heq
  exact ⟨hlost, hrest⟩

end Lawful

end Broadcast

namespace Queue

class Lawful (Q : Type*) {α : Type*} [Queue Q α] : Prop where
  items_channel (n : ℕ+) : items (channel n : Q) = []
  send_of_lt {q : Q} (a : α) (h : (items q).length < cap q) :
    ∃ q', send q a = some q' ∧ items q' = items q ++ [a]
  send_of_le {q : Q} (a : α) (h : cap q ≤ (items q).length) : send q a = none
  recv_of_nil {q : Q} (h : items q = []) : recv q = none
  recv_of_cons {q : Q} {a : α} {l : List α} (h : items q = a :: l) :
    ∃ q', recv q = some (a, q') ∧ items q' = l

attribute [simp] Lawful.items_channel

section Lawful

variable {Q α : Type*} [Queue Q α] [Lawful Q] {q q' : Q} {a : α}

theorem send_eq_some (h : send q a = some q') : items q' = items q ++ [a] := by
  rcases Nat.lt_or_ge (items q).length (cap q) with hlt | hle
  · obtain ⟨c, heq, hitems⟩ := Lawful.send_of_lt a hlt
    rw [h] at heq
    cases heq
    exact hitems
  · rw [Lawful.send_of_le a hle] at h
    cases h

/-- The sender waits only for what is in the channel. -/
theorem send_eq_none (h : send q a = none) : items q ≠ [] := by
  intro hnil
  obtain ⟨c, heq, -⟩ := Lawful.send_of_lt (q := q) a (by rw [hnil]; exact (cap q).pos)
  rw [h] at heq
  cases heq

theorem recv_eq_none (h : recv q = none) : items q = [] := by
  cases hitems : items q with
  | nil => rfl
  | cons a l =>
      obtain ⟨c, heq, -⟩ := Lawful.recv_of_cons hitems
      rw [h] at heq
      cases heq

theorem recv_eq_some (h : recv q = some (a, q')) : items q = a :: items q' := by
  cases hitems : items q with
  | nil =>
      rw [Lawful.recv_of_nil hitems] at h
      cases h
  | cons b l =>
      obtain ⟨c, heq, hrest⟩ := Lawful.recv_of_cons hitems
      rw [h] at heq
      cases heq
      rw [hrest]

end Lawful

end Queue

/-! ## Channels as lists -/

/-- The values that a receiver can still get, and how many it lost. -/
structure ListReceiver (α : Type*) where
  cap : ℕ+
  pending : List α
  lost : ℕ

instance {α : Type*} : Broadcast (ListReceiver α) α where
  subscribe n := ⟨n, [], 0⟩
  cap := ListReceiver.cap
  send b a :=
    if b.pending.length < b.cap then { b with pending := b.pending ++ [a] }
    else { b with pending := b.pending.tail ++ [a], lost := b.lost + 1 }
  recv b :=
    if b.lost ≠ 0 then some (.error b.lost, { b with lost := 0 })
    else match b.pending with
      | [] => none
      | a :: l => some (.ok a, { b with pending := l })
  pending := ListReceiver.pending
  lost := ListReceiver.lost

instance {α : Type*} : Broadcast.Lawful (ListReceiver α) where
  cap_subscribe _ := rfl
  pending_subscribe _ := rfl
  lost_subscribe _ := rfl
  cap_send b a := by
    simp only [Broadcast.send, Broadcast.cap]
    split_ifs <;> rfl
  send_of_lt a h := by
    simp only [Broadcast.send, Broadcast.cap, Broadcast.pending, Broadcast.lost] at h ⊢
    rw [if_pos h]
    exact ⟨rfl, rfl⟩
  send_of_le a h := by
    simp only [Broadcast.send, Broadcast.cap, Broadcast.pending, Broadcast.lost] at h ⊢
    rw [if_neg (Nat.not_lt.mpr h)]
    exact ⟨rfl, rfl⟩
  recv_of_lost {b} h := ⟨{ b with lost := 0 }, if_pos h, rfl, rfl, rfl⟩
  recv_of_nil h hnil := by
    simp only [Broadcast.recv, Broadcast.pending, Broadcast.lost] at h hnil ⊢
    rw [if_neg (not_not.mpr h), hnil]
  recv_of_cons {b a l} h hcons := by
    refine ⟨{ b with pending := l }, ?_, rfl, rfl, h⟩
    simp only [Broadcast.recv, Broadcast.pending, Broadcast.lost] at h hcons ⊢
    rw [if_neg (not_not.mpr h), hcons]

/-- The values in a channel. -/
structure ListQueue (α : Type*) where
  cap : ℕ+
  items : List α

instance {α : Type*} : Queue (ListQueue α) α where
  channel n := ⟨n, []⟩
  cap := ListQueue.cap
  send q a := if q.items.length < q.cap then some { q with items := q.items ++ [a] } else none
  recv q :=
    match q.items with
    | [] => none
    | a :: l => some (a, { q with items := l })
  items := ListQueue.items

instance {α : Type*} : Queue.Lawful (ListQueue α) where
  items_channel _ := rfl
  send_of_lt {q} a h := ⟨{ q with items := q.items ++ [a] }, if_pos h, rfl⟩
  send_of_le a h := if_neg (Nat.not_lt.mpr h)
  recv_of_nil h := by
    simp only [Queue.recv, Queue.items] at h ⊢
    rw [h]
  recv_of_cons {q a l} h := by
    refine ⟨{ q with items := l }, ?_, rfl⟩
    simp only [Queue.recv, Queue.items] at h ⊢
    rw [h]

end Foundation
