import SolidPod.ActivityPub.ConcurrentDelivery
import SolidPod.ActivityPub.DeliveryState

/-!
# The waits between the attempts

A row that got a transient answer waits before it is sent again, each time longer than
before. The counter that gives up a row and the one that chooses its wait are the same,
so the last of the six waits is never used: the sixth transient answer drops the row. An
answer that the policy does not name takes a wait as well.
-/

namespace SolidPod

open Foundation

namespace ActivityPub

/-! ## The policy -/

/-- The waits of the policy in seconds: 30s, 2m, 10m, 1h, 6h, 24h. -/
def documentedWaits : List Nat := [30, 2 * 60, 10 * 60, 60 * 60, 6 * 60 * 60, 24 * 60 * 60]

/-- A network error, a server error, 408 or 429. -/
def Transient : Except Str Nat → Prop
  | .error _ => True
  | .ok status => 500 ≤ status ∧ status < 600 ∨ status = 408 ∨ status = 429

/-- The transient answers, and those that the policy does not name. -/
def TriedAgain : Except Str Nat → Prop
  | .error _ => True
  | .ok status =>
    ¬ isSuccess status ∧ ¬ (isClientError status ∧ status ≠ 408 ∧ status ≠ 429)

instance : DecidablePred Transient
  | .error _ => isTrue trivial
  | .ok _ => inferInstanceAs (Decidable (_ ∨ _))

theorem Transient.triedAgain {answer : Except Str Nat} (h : Transient answer) :
    TriedAgain answer := by
  cases answer with
  | error e => trivial
  | ok status =>
      simp only [Transient] at h
      simp only [TriedAgain, isSuccess, isClientError]
      omega

section Settled

variable (item : DeliveryItem) {answer : Except Str Nat}

theorem settlement_of_triedAgain (h : TriedAgain answer) :
    ∃ error, settlement item answer = retryOrFail item error := by
  cases answer with
  | error e => exact ⟨e, rfl⟩
  | ok status => exact ⟨"HTTP " ++ Nat.toDigits 10 status, (if_neg h.1).trans (if_neg h.2)⟩

theorem settlement_of_not_triedAgain (h : ¬ TriedAgain answer) :
    settlement item answer = .deliver ∨ settlement item answer = .fail := by
  cases answer with
  | error e => exact absurd trivial h
  | ok status =>
      by_cases hsuccess : isSuccess status
      · exact Or.inl (if_pos hsuccess)
      · have hpermanent : isClientError status ∧ status ≠ 408 ∧ status ≠ 429 := by
          by_contra hnot
          exact h ⟨hsuccess, hnot⟩
        exact Or.inr ((if_neg hsuccess).trans (if_pos hpermanent))

theorem settlement_of_lt (h : TriedAgain answer) (hlt : item.attempts + 1 < maxAttempts) :
    ∃ error, settlement item answer = .retry (backoff item.attempts) error := by
  obtain ⟨error, heq⟩ := settlement_of_triedAgain item h
  exact ⟨error, by rw [heq, retryOrFail, if_neg (Nat.not_le.mpr hlt)]⟩

theorem settlement_of_le (h : TriedAgain answer) (hle : maxAttempts ≤ item.attempts + 1) :
    settlement item answer = .fail := by
  obtain ⟨error, heq⟩ := settlement_of_triedAgain item h
  rw [heq, retryOrFail, if_pos hle]

/-- The waits of the code are those of the policy, before the last attempt. -/
theorem documentedWaits_eq {attempts : Nat} (h : attempts + 1 < maxAttempts) :
    documentedWaits[attempts]? = some (backoff attempts).toNat := by
  have hall : ∀ k < 5, documentedWaits[k]? = some (backoff k).toNat := by decide
  exact hall attempts (Nat.lt_of_succ_lt_succ h)

theorem documentedWaits_inj {j k wait : Nat} (hj : documentedWaits[j]? = some wait)
    (hk : documentedWaits[k]? = some wait) : j = k := by
  have hnodup : documentedWaits.Nodup := by decide
  obtain ⟨hlt, -⟩ := List.getElem?_eq_some_iff.mp hj
  exact (List.getElem?_inj hlt hnodup).mp (hj.trans hk.symm)

theorem toNat_backoff (attempts : Nat) : ((backoff attempts).toNat : Int) = backoff attempts :=
  Int.toNat_of_nonneg (Int.le_trans (by decide) (thirty_le_backoff attempts))

end Settled

section Runs

variable (lib : SigLibrary) (serde : SerdeJson) (config : DeliveryConfig)

/-- The answers to the attempts for a row. -/
def answersTo (queueId : Nat) (s : Store) : List Drain → List (Except Str Nat)
  | [] => []
  | d :: drains => (if posted lib serde config s d = some queueId then [d.answer] else []) ++
      answersTo queueId (drainOnce lib serde config s d).2 drains

def failures (answers : List (Except Str Nat)) : Nat := answers.countP fun a => Transient a

/-- What the policy says of a run of the worker. -/
structure FollowsBackoff (s : Store) (drains : List Drain) : Prop where
  /-- A transient answer puts off the row, and no other one, by the next wait. -/
  reschedules : ∀ pre d post queueId wait, drains = pre ++ d :: post →
    posted lib serde config (drained lib serde config s pre) d = some queueId →
    Transient d.answer →
    documentedWaits[failures (answersTo lib serde config queueId s pre)]? = some wait →
    (drainOnce lib serde config (drained lib serde config s pre) d).1 =
        .ok (.rescheduled wait) ∧
      (∃ row, (drained lib serde config s (pre ++ [d])).deliveryQueue.get? queueId = some row ∧
        row.nextRetry = d.settle.now + wait * 1000000000) ∧
      ∀ other, other ≠ queueId →
        (drained lib serde config s (pre ++ [d])).deliveryQueue.get? other =
          (drained lib serde config s pre).deliveryQueue.get? other
  /-- A row that was not refused is only given up after all waits. -/
  patient : ∀ pre d post queueId, drains = pre ++ d :: post →
    posted lib serde config (drained lib serde config s pre) d = some queueId →
    TriedAgain d.answer →
    (drained lib serde config s (pre ++ [d])).deliveryQueue.get? queueId = none →
    documentedWaits.length ≤ failures (answersTo lib serde config queueId s pre)
  /-- The next attempt for the row comes after the wait. -/
  waits : ∀ pre d mid e post queueId wait, drains = pre ++ d :: (mid ++ e :: post) →
    posted lib serde config (drained lib serde config s pre) d = some queueId →
    Transient d.answer →
    documentedWaits[failures (answersTo lib serde config queueId s pre)]? = some wait →
    answersTo lib serde config queueId (drained lib serde config s (pre ++ [d])) mid = [] →
    posted lib serde config (drained lib serde config s (pre ++ d :: mid)) e = some queueId →
    d.settle.now + wait * 1000000000 ≤ e.select.now
  /-- A successful answer marks the activity, and drops no other row. -/
  delivers : ∀ pre d post queueId row, drains = pre ++ d :: post →
    posted lib serde config (drained lib serde config s pre) d = some queueId →
    (drained lib serde config s pre).deliveryQueue.get? queueId = some row → d.Succeeds →
    (drainOnce lib serde config (drained lib serde config s pre) d).1 = .ok .delivered ∧
      (drained lib serde config s (pre ++ [d])).deliveryState row.activityId =
        some "delivered".toList ∧
      (drained lib serde config s (pre ++ [d])).deliveryQueue.get? queueId = none ∧
      ∀ other, other ≠ queueId →
        (drained lib serde config s (pre ++ [d])).deliveryQueue.get? other =
          (drained lib serde config s pre).deliveryQueue.get? other

/-- No row is tried again after five answers, and a row with a transient answer got no other
ones before. -/
def WithinWaits (s : Store) (drains : List Drain) : Prop :=
  ∀ pre d post queueId, drains = pre ++ d :: post →
    posted lib serde config (drained lib serde config s pre) d = some queueId →
    TriedAgain d.answer →
    (answersTo lib serde config queueId s pre).length < 5 ∧
      (Transient d.answer → ∀ a ∈ answersTo lib serde config queueId s pre, Transient a)

/-- No attempt was made for a row of the queue. -/
def Store.Fresh (s : Store) : Prop :=
  ∀ queueId row, s.deliveryQueue.get? queueId = some row → row.attempts = 0

variable {lib serde config} {s : Store} {d : Drain} {queueId : Nat} {row : QueueRow}
  {drains : List Drain}

theorem answersTo_append (pre post : List Drain) :
    answersTo lib serde config queueId s (pre ++ post) =
      answersTo lib serde config queueId s pre ++
        answersTo lib serde config queueId (drained lib serde config s pre) post := by
  induction pre generalizing s with
  | nil => rfl
  | cons d pre ih => rw [List.cons_append, answersTo, ih, answersTo, List.append_assoc]; rfl

theorem drained_concat (pre : List Drain) (d : Drain) :
    drained lib serde config s (pre ++ [d]) =
      (drainOnce lib serde config (drained lib serde config s pre) d).2 :=
  drained_append pre [d]

/-! ## One attempt -/

/-- A call that sends a request settles the row it picked. -/
theorem drainOnce_of_posted (hd : d.NoFault)
    (hposted : posted lib serde config s d = some queueId) :
    ∃ row, Picks s d queueId row ∧ (s.deliveryState row.activityId).isSome ∧
      drainOnce lib serde config s d = settle d (row.item queueId) s := by
  rw [drainOnce, Store.nextDueDelivery, Turn.execute_of_no_fault hd.select]
  rw [posted] at hposted
  cases hfirst : s.deliveryQueue.first (fun r => r.nextRetry ≤ d.select.now) with
  | none =>
      rw [hfirst] at hposted
      cases hposted
  | some r =>
      obtain ⟨i, row⟩ := r
      rw [hfirst] at hposted
      simp only [Option.map_some, Store.loadActivity, Turn.execute_of_no_fault hd.load]
      cases hload : s.activity? serde row.activityId with
      | none =>
          simp only [hload] at hposted
          cases hposted
      | some activity =>
          cases hprepare : prepare lib serde config d.date (row.item i) activity with
          | error e =>
              simp only [hload, hprepare] at hposted
              cases hposted
          | ok request =>
              simp only [hload, hprepare] at hposted
              cases hposted
              refine ⟨row, hfirst, ?_, ?_⟩
              · rw [Store.activity?] at hload
                obtain ⟨r, hr, -⟩ := Option.bind_eq_some_iff.mp hload
                rw [Store.deliveryState, hr]
                rfl
              · rw [Store.activity?] at hload
                rw [QueueRow.item] at hprepare
                simp only [hload, hprepare]
                rfl

theorem queue_drainOnce_of_posted (hd : d.NoFault)
    (hposted : posted lib serde config s d = some queueId) :
    ∃ row, Picks s d queueId row ∧ (drainOnce lib serde config s d).1 =
        .ok (settlement (row.item queueId) d.answer).outcome ∧
      (drainOnce lib serde config s d).2.deliveryQueue =
        (settlement (row.item queueId) d.answer).queue d.settle.now queueId s.deliveryQueue := by
  obtain ⟨row, hpick, -, heq⟩ := drainOnce_of_posted hd hposted
  obtain ⟨t, hsettle, hqueue⟩ := settle_of_noFault hd (row.item queueId) s
  rw [heq, hsettle]
  exact ⟨row, hpick, rfl, hqueue⟩

/-- A call that does not send the request of a row leaves the row as it is or drops it. -/
theorem get?_of_not_posted (hd : d.NoFault)
    (hposted : posted lib serde config s d ≠ some queueId)
    (hrow : (drainOnce lib serde config s d).2.deliveryQueue.get? queueId = some row) :
    s.deliveryQueue.get? queueId = some row := by
  have hdrained := drained_drainOnce lib serde config hd s
  generalize drainOnce lib serde config s d = result at hdrained hrow
  cases hdrained with
  | idle | unsigned => exact hrow
  | orphan =>
      rw [SerialTable.get?_remove] at hrow
      split_ifs at hrow
      exact hrow
  | @settled i _ _ _ _ hpick hload hprepare hqueue =>
      have hne : queueId ≠ i := by
        rintro rfl
        refine hposted ?_
        rw [Picks] at hpick
        rw [posted, hpick]
        simp only [hload, hprepare]
      rw [hqueue, get?_queue_of_ne hne] at hrow
      exact hrow

/-- A row that is to be tried again waits, and the others stay as they are. -/
theorem drainOnce_of_lt (hd : d.NoFault)
    (hposted : posted lib serde config s d = some queueId)
    (hrow : s.deliveryQueue.get? queueId = some row) (hagain : TriedAgain d.answer)
    (hlt : row.attempts + 1 < maxAttempts) :
    (drainOnce lib serde config s d).1 = .ok (.rescheduled (backoff row.attempts)) ∧
      (∃ row', (drainOnce lib serde config s d).2.deliveryQueue.get? queueId = some row' ∧
        row'.attempts = row.attempts + 1 ∧
        row'.nextRetry = d.settle.now + (backoff row.attempts).toNat * 1000000000) ∧
      ∀ other, other ≠ queueId → (drainOnce lib serde config s d).2.deliveryQueue.get? other =
        s.deliveryQueue.get? other := by
  obtain ⟨row', hpick, hresult, hqueue⟩ := queue_drainOnce_of_posted hd hposted
  obtain rfl : row = row' := Option.some.inj (hrow.symm.trans hpick.get?_eq)
  obtain ⟨error, hsettlement⟩ := settlement_of_lt (row.item queueId) hagain hlt
  refine ⟨?_, ?_, ?_⟩
  · rw [hresult, hsettlement]
    rfl
  · rw [hqueue, hsettlement, Settlement.queue, SerialTable.get?_modify, if_pos rfl, hrow,
      Option.map_some]
    exact ⟨_, rfl, rfl, rfl⟩
  · intro other hother
    rw [hqueue, get?_queue_of_ne hother]

/-- The row of the last attempt is dropped. -/
theorem drainOnce_of_le (hd : d.NoFault)
    (hposted : posted lib serde config s d = some queueId)
    (hrow : s.deliveryQueue.get? queueId = some row) (hagain : TriedAgain d.answer)
    (hle : maxAttempts ≤ row.attempts + 1) :
    (drainOnce lib serde config s d).2.deliveryQueue.get? queueId = none := by
  obtain ⟨row', hpick, -, hqueue⟩ := queue_drainOnce_of_posted hd hposted
  obtain rfl : row = row' := Option.some.inj (hrow.symm.trans hpick.get?_eq)
  rw [hqueue, settlement_of_le (row.item queueId) hagain hle, Settlement.queue,
    SerialTable.get?_remove, if_pos rfl]

/-- A row whose request is sent stays only if it is to be tried again. -/
theorem triedAgain_of_get? (hd : d.NoFault)
    (hposted : posted lib serde config s d = some queueId)
    (hrow : (drainOnce lib serde config s d).2.deliveryQueue.get? queueId = some row) :
    TriedAgain d.answer := by
  obtain ⟨before, hpick, -, hqueue⟩ := queue_drainOnce_of_posted hd hposted
  rw [hqueue] at hrow
  by_contra hnot
  rcases settlement_of_not_triedAgain (before.item queueId) hnot with heq | heq
  · rw [heq, Settlement.queue, SerialTable.get?_remove, if_pos rfl] at hrow
    cases hrow
  · rw [heq, Settlement.queue, SerialTable.get?_remove, if_pos rfl] at hrow
    cases hrow

/-- The activity of a row that was delivered is marked. -/
theorem drainOnce_of_succeeds (hd : d.NoFault)
    (hposted : posted lib serde config s d = some queueId)
    (hrow : s.deliveryQueue.get? queueId = some row) (hsuccess : d.Succeeds) :
    (drainOnce lib serde config s d).1 = .ok .delivered ∧
      (drainOnce lib serde config s d).2.deliveryState row.activityId = some "delivered".toList ∧
      (drainOnce lib serde config s d).2.deliveryQueue.get? queueId = none ∧
      ∀ other, other ≠ queueId → (drainOnce lib serde config s d).2.deliveryQueue.get? other =
        s.deliveryQueue.get? other := by
  obtain ⟨row', hpick, hresult, hqueue⟩ := queue_drainOnce_of_posted hd hposted
  obtain rfl : row = row' := Option.some.inj (hrow.symm.trans hpick.get?_eq)
  obtain ⟨row', hpick', houtbox, heq⟩ := drainOnce_of_posted hd hposted
  obtain rfl : row = row' := (hpick.unique hpick').2
  have hsettlement := settlement_of_succeeds hsuccess (row.item queueId)
  have hstate : (settlement (row.item queueId) d.answer).state = some "delivered".toList := by
    rw [hsettlement]
    rfl
  refine ⟨?_, ?_, ?_, ?_⟩
  · rw [hresult, hsettlement]
    rfl
  · rw [heq]
    have hfinal : (settlement (row.item queueId) d.answer).state ≠ none := by
      rw [hstate]
      exact Option.some_ne_none _
    exact (deliveryState_settle (a := ⟨row.item queueId, d, hfinal, hd⟩) houtbox rfl).trans hstate
  · rw [hqueue, hsettlement, Settlement.queue, SerialTable.get?_remove, if_pos rfl]
  · intro other hother
    rw [hqueue, get?_queue_of_ne hother]

/-! ## Runs -/

/-- The counter of a row is the number of the answers to its attempts. -/
theorem attempts_eq_of_fresh (hfresh : s.Fresh) (hfault : ∀ d ∈ drains, d.NoFault)
    (hrow : (drained lib serde config s drains).deliveryQueue.get? queueId = some row) :
    row.attempts = (answersTo lib serde config queueId s drains).length ∧
      row.attempts < maxAttempts := by
  induction drains using List.reverseRecOn generalizing row with
  | nil =>
      have hzero := hfresh queueId row hrow
      exact ⟨hzero, hzero ▸ Nat.zero_lt_succ _⟩
  | append_singleton pre d ih =>
      have hd : d.NoFault := hfault d (List.mem_append_right _ List.mem_cons_self)
      have hpre : ∀ e ∈ pre, e.NoFault := fun e he => hfault e (List.mem_append_left _ he)
      rw [drained_concat] at hrow
      rw [answersTo_append, answersTo, answersTo, List.append_nil, List.length_append]
      by_cases hposted : posted lib serde config (drained lib serde config s pre) d = some queueId
      · have hagain := triedAgain_of_get? hd hposted hrow
        obtain ⟨before, hpick, -⟩ := queue_drainOnce_of_posted hd hposted
        obtain ⟨hcount, -⟩ := ih hpre hpick.get?_eq
        rcases Nat.lt_or_ge (before.attempts + 1) maxAttempts with hlt | hle
        · obtain ⟨-, ⟨row', hrow', hattempts, -⟩, -⟩ :=
            drainOnce_of_lt hd hposted hpick.get?_eq hagain hlt
          obtain rfl : row = row' := Option.some.inj (hrow.symm.trans hrow')
          rw [if_pos hposted, List.length_singleton, hattempts, hcount]
          exact ⟨rfl, hcount ▸ hlt⟩
        · rw [drainOnce_of_le hd hposted hpick.get?_eq hagain hle] at hrow
          cases hrow
      · rw [if_neg hposted]
        exact ih hpre (get?_of_not_posted hd hposted hrow)

theorem get?_of_answersTo_eq_nil (hfault : ∀ d ∈ drains, d.NoFault)
    (hnone : answersTo lib serde config queueId s drains = [])
    (hrow : (drained lib serde config s drains).deliveryQueue.get? queueId = some row) :
    s.deliveryQueue.get? queueId = some row := by
  induction drains generalizing s with
  | nil => exact hrow
  | cons d drains ih =>
      rw [answersTo, List.append_eq_nil_iff] at hnone
      refine get?_of_not_posted (hfault d List.mem_cons_self) ?_
        (ih (fun e he => hfault e (List.mem_cons_of_mem d he)) hnone.2 hrow)
      intro hposted
      rw [if_pos hposted] at hnone
      exact List.cons_ne_nil _ _ hnone.1

theorem failures_eq_length {answers : List (Except Str Nat)} :
    failures answers = answers.length ↔ ∀ a ∈ answers, Transient a := by
  rw [failures, List.countP_eq_length]
  simp only [decide_eq_true_eq]

theorem attempt_of_posted {pre post : List Drain} (hfresh : s.Fresh)
    (hfault : ∀ d ∈ drains, d.NoFault) (heq : drains = pre ++ d :: post)
    (hposted : posted lib serde config (drained lib serde config s pre) d = some queueId) :
    d.NoFault ∧ ∃ row, Picks (drained lib serde config s pre) d queueId row ∧
      row.attempts = (answersTo lib serde config queueId s pre).length ∧
      row.attempts < maxAttempts := by
  have hd : d.NoFault := hfault d (heq ▸ List.mem_append_right _ List.mem_cons_self)
  obtain ⟨row, hpick, -⟩ := queue_drainOnce_of_posted hd hposted
  refine ⟨hd, row, hpick, attempts_eq_of_fresh hfresh ?_ hpick.get?_eq⟩
  intro e he
  exact hfault e (heq ▸ List.mem_append_left _ he)

theorem FollowsBackoff.withinWaits (h : FollowsBackoff lib serde config s drains)
    (hfresh : s.Fresh) (hfault : ∀ d ∈ drains, d.NoFault) :
    WithinWaits lib serde config s drains := by
  intro pre d post queueId heq hposted hagain
  obtain ⟨hd, row, hpick, hcount, hmax⟩ := attempt_of_posted hfresh hfault heq hposted
  have hfailures : failures (answersTo lib serde config queueId s pre) ≤ row.attempts :=
    hcount ▸ List.countP_le_length
  rcases Nat.lt_or_ge (row.attempts + 1) maxAttempts with hlt | hle
  · refine ⟨hcount ▸ Nat.lt_of_succ_lt_succ hlt, fun htransient => failures_eq_length.mp ?_⟩
    have hentries : failures (answersTo lib serde config queueId s pre) < documentedWaits.length :=
      hfailures.trans_lt hmax
    have hwait := List.getElem?_eq_getElem hentries
    obtain ⟨hresult, -⟩ := h.reschedules pre d post queueId _ heq hposted htransient hwait
    -- both counts choose the same wait
    rw [(drainOnce_of_lt hd hposted hpick.get?_eq hagain hlt).1] at hresult
    have hsame : backoff row.attempts =
        (documentedWaits[failures (answersTo lib serde config queueId s pre)] : Nat) := by
      injection hresult with hresult
      injection hresult
    have hentry := documentedWaits_eq hlt
    rw [hsame, Int.toNat_natCast] at hentry
    exact (documentedWaits_inj hwait hentry).trans hcount
  · have hgone := drainOnce_of_le hd hposted hpick.get?_eq hagain hle
    rw [← drained_concat] at hgone
    exact absurd (h.patient pre d post queueId heq hposted hagain hgone)
      (Nat.not_le.mpr (hfailures.trans_lt hmax))

section Within

variable {pre post : List Drain} (h : WithinWaits lib serde config s drains)
  (hfresh : s.Fresh) (hfault : ∀ d ∈ drains, d.NoFault)

include h hfresh hfault

theorem WithinWaits.attempt (heq : drains = pre ++ d :: post)
    (hposted : posted lib serde config (drained lib serde config s pre) d = some queueId)
    (hagain : TriedAgain d.answer) : d.NoFault ∧ ∃ row,
      (drained lib serde config s pre).deliveryQueue.get? queueId = some row ∧
      row.attempts = (answersTo lib serde config queueId s pre).length ∧
      row.attempts + 1 < maxAttempts := by
  obtain ⟨hd, row, hpick, hcount, -⟩ := attempt_of_posted hfresh hfault heq hposted
  have hlt := (h pre d post queueId heq hposted hagain).1
  exact ⟨hd, row, hpick.get?_eq, hcount, Nat.succ_lt_succ (hcount ▸ hlt)⟩

theorem WithinWaits.reschedules {wait : Nat} (heq : drains = pre ++ d :: post)
    (hposted : posted lib serde config (drained lib serde config s pre) d = some queueId)
    (htransient : Transient d.answer)
    (hwait : documentedWaits[failures (answersTo lib serde config queueId s pre)]? = some wait) :
    (drainOnce lib serde config (drained lib serde config s pre) d).1 =
        .ok (.rescheduled wait) ∧
      (∃ row, (drained lib serde config s (pre ++ [d])).deliveryQueue.get? queueId = some row ∧
        row.nextRetry = d.settle.now + wait * 1000000000) ∧
      ∀ other, other ≠ queueId →
        (drained lib serde config s (pre ++ [d])).deliveryQueue.get? other =
          (drained lib serde config s pre).deliveryQueue.get? other := by
  obtain ⟨hd, row, hrow, hcount, hlt⟩ := h.attempt hfresh hfault heq hposted htransient.triedAgain
  have hall := (h pre d post queueId heq hposted htransient.triedAgain).2 htransient
  rw [failures_eq_length.mpr hall, ← hcount, documentedWaits_eq hlt] at hwait
  obtain rfl := Option.some.inj hwait
  obtain ⟨hresult, ⟨row', hrow', -, hnext⟩, hothers⟩ :=
    drainOnce_of_lt hd hposted hrow htransient.triedAgain hlt
  rw [drained_concat, toNat_backoff]
  exact ⟨hresult, ⟨row', hrow', hnext⟩, hothers⟩

theorem WithinWaits.waits {wait : Nat} {mid : List Drain} {e : Drain}
    (heq : drains = pre ++ d :: (mid ++ e :: post))
    (hposted : posted lib serde config (drained lib serde config s pre) d = some queueId)
    (htransient : Transient d.answer)
    (hwait : documentedWaits[failures (answersTo lib serde config queueId s pre)]? = some wait)
    (hnone : answersTo lib serde config queueId (drained lib serde config s (pre ++ [d])) mid = [])
    (hlater : posted lib serde config (drained lib serde config s (pre ++ d :: mid)) e =
      some queueId) : d.settle.now + wait * 1000000000 ≤ e.select.now := by
  obtain ⟨-, ⟨row, hrow, hnext⟩, -⟩ := h.reschedules hfresh hfault heq hposted htransient hwait
  have hsplit : drains = (pre ++ d :: mid) ++ e :: post := by rw [heq]; simp
  obtain ⟨-, row', hpick, -⟩ := attempt_of_posted hfresh hfault hsplit hlater
  have hkept := hpick.get?_eq
  rw [show pre ++ d :: mid = (pre ++ [d]) ++ mid by simp, drained_append] at hkept
  have hmid : ∀ a ∈ mid, a.NoFault := by
    intro a ha
    exact hfault a (hsplit ▸ List.mem_append_left _
      (List.mem_append_right _ (List.mem_cons_of_mem d ha)))
  obtain rfl : row = row' :=
    Option.some.inj (hrow.symm.trans (get?_of_answersTo_eq_nil hmid hnone hkept))
  rw [← hnext]
  exact hpick.due

theorem WithinWaits.followsBackoff : FollowsBackoff lib serde config s drains where
  reschedules pre d post queueId wait heq hposted htransient hwait :=
    h.reschedules hfresh hfault heq hposted htransient hwait
  patient pre d post queueId heq hposted hagain hgone := by
    obtain ⟨hd, row, hrow, -, hlt⟩ := h.attempt hfresh hfault heq hposted hagain
    obtain ⟨-, ⟨row', hrow', -⟩, -⟩ := drainOnce_of_lt hd hposted hrow hagain hlt
    rw [drained_concat, hrow'] at hgone
    cases hgone
  waits pre d mid e post queueId wait heq hposted htransient hwait hnone hlater :=
    h.waits hfresh hfault heq hposted htransient hwait hnone hlater
  delivers pre d post queueId row heq hposted hrow hsuccess := by
    obtain ⟨hd, -⟩ := attempt_of_posted hfresh hfault heq hposted
    rw [drained_concat]
    exact drainOnce_of_succeeds hd hposted hrow hsuccess

end Within

/-- A run follows the policy exactly if no row is tried again after five answers and no row
with a transient answer got one before that was not. -/
theorem followsBackoff_iff (lib : SigLibrary) (serde : SerdeJson) (config : DeliveryConfig)
    (s : Store) (drains : List Drain) (hfresh : s.Fresh) (hfault : ∀ d ∈ drains, d.NoFault) :
    FollowsBackoff lib serde config s drains ↔ WithinWaits lib serde config s drains :=
  ⟨fun h => h.withinWaits hfresh hfault, fun h => h.followsBackoff hfresh hfault⟩

end Runs

/-! ## Six server errors -/

/-- A call at a time at which no row waits, and which the inbox answers with 503. -/
def unavailable (time : Nat) : Drain :=
  ⟨⟨time, none⟩, ⟨time, none⟩, ⟨time, none⟩, ⟨time, none⟩, [], .ok 503⟩

/-- Attempts that are two days apart. -/
def everyTwoDays (n : Nat) : List Drain :=
  (List.range n).map fun i => unavailable (i * (2 * 86400 * 1000000000))

theorem noFault_everyTwoDays (n : Nat) : ∀ d ∈ everyTwoDays n, d.NoFault := by
  intro d hd
  obtain ⟨i, -, rfl⟩ := List.mem_map.mp hd
  exact ⟨rfl, rfl, rfl, rfl⟩

theorem fresh_relativeInbox : relativeInbox.Fresh := by
  intro queueId row hrow
  have hmem : (queueId, row) ∈ [(1, relativeRow)] := SerialTable.get?_eq_some_iff.mp hrow
  cases List.mem_singleton.mp hmem
  rfl

theorem followsBackoff_iff_everyTwoDays :
    FollowsBackoff hostLib nullSerde ⟨[], []⟩ relativeInbox (everyTwoDays 2) ↔
      WithinWaits hostLib nullSerde ⟨[], []⟩ relativeInbox (everyTwoDays 2) :=
  followsBackoff_iff hostLib nullSerde ⟨[], []⟩ relativeInbox (everyTwoDays 2) fresh_relativeInbox
    (noFault_everyTwoDays 2)

/-- The sixth server error drops the row, which has not waited for a day. -/
theorem sixErrors_not_followsBackoff :
    ¬ ∀ (lib : SigLibrary) (serde : SerdeJson) (config : DeliveryConfig) (s : Store)
      (drains : List Drain), s.Fresh → (∀ d ∈ drains, d.NoFault) →
      FollowsBackoff lib serde config s drains := by
  intro h
  have hfollows := h hostLib nullSerde ⟨[], []⟩ relativeInbox (everyTwoDays 6) fresh_relativeInbox
    (noFault_everyTwoDays 6)
  have hdropped : (drainOnce hostLib nullSerde ⟨[], []⟩
      (drained hostLib nullSerde ⟨[], []⟩ relativeInbox (everyTwoDays 5))
      (unavailable (5 * (2 * 86400 * 1000000000)))).1 = .ok .dropped := rfl
  have hresult := (hfollows.reschedules (everyTwoDays 5)
    (unavailable (5 * (2 * 86400 * 1000000000))) [] 1 86400 rfl rfl (by decide) rfl).1
  rw [hdropped] at hresult
  cases hresult

end ActivityPub

end SolidPod
