import Mathlib.Logic.Function.Iterate
import SolidPod.Foundation.Numerals
import SolidPod.Notifications.CircuitBreaker

/-!
# Webhook deliveries are bounded

The loop of `deliver_one` turn by turn, with the answers it gets, the waits it
makes and the failures it records. After as many turns as there are attempts it has
returned what `deliverOne` says. A subscription is removed by `deliver_all` exactly if
one of its requests was answered with `410`.
-/

namespace SolidPod

open Foundation

namespace Notifications

open Str

/-! ## Waits -/

def nanosPerSec : ℕ := 1000000000

/-- The longest duration there is, in nanoseconds. -/
def maxDuration : ℕ := (2 ^ 64 - 1) * nanosPerSec + 999999999

/-- `httpDate` is the wait until a date that is to come. -/
def parseRetryAfter (httpDate : Str → Option ℕ) (raw : Str) : Option ℕ :=
  match parseUnsigned 64 (trim raw) with
  | some secs => some (secs * nanosPerSec)
  | none => httpDate (trim raw)

/-- `jitter` takes a part of the wait. -/
def computeBackoff (retryBase maxBackoff : ℕ) (jitter : ℕ → ℕ) (attempt : ℕ) : ℕ :=
  let exp := min (retryBase * min (2 ^ min attempt 20) (2 ^ 32 - 1)) maxDuration
  min (jitter (min exp maxBackoff)) (2 ^ 64 - 1)

/-- What the clock and chance come to at each attempt of a delivery. -/
structure Draws where
  httpDate : ℕ → Str → Option ℕ
  jitter : ℕ → ℕ → ℕ

def WebhookConfig.pace (config : WebhookConfig) (retryBase : ℕ) (draws : Draws) : Pace where
  parseRetryAfter attempt := Notifications.parseRetryAfter (draws.httpDate attempt)
  computeBackoff attempt :=
    Notifications.computeBackoff retryBase config.maxBackoff (draws.jitter attempt) attempt

/-! ## The loop -/

/-- What a delivery has done so far. -/
structure Progress where
  ch : WebhookChannel
  answers : List Answer
  waits : List ℕ
  failures : ℕ

/-- The loop is about to make an attempt, or it has returned. -/
inductive LoopState where
  | running (attempt : UInt32) (p : Progress)
  | returned (outcome : WebhookDelivery) (p : Progress)

/-- One turn of the loop. -/
def turn (config : WebhookConfig) (pace : Pace) (answers : ℕ → Answer) : LoopState → LoopState
  | .returned outcome p => .returned outcome p
  | .running attempt p =>
    let answer := answers attempt.toNat
    let p := { p with answers := p.answers ++ [answer] }
    match judge pace attempt.toNat answer with
    | .delivered status => .returned (.delivered status) { p with ch := p.ch.resetCircuit }
    | .gone status => .returned (.fatalDrop status) { p with ch := p.ch.resetCircuit }
    | .again wait reason =>
      let attempt := attempt + 1
      if config.totalAttempts ≤ attempt.toNat then
        .returned (.transientRetry reason)
          { p with ch := p.ch.recordFailure, failures := p.failures + 1 }
      else .running attempt { p with waits := p.waits ++ [min wait config.maxBackoff] }

/-- The loop after some turns; an open breaker is not entered. -/
def turns (pace : Pace) (answers : ℕ → Answer) (ch : WebhookChannel) (n : ℕ) : LoopState :=
  if ch.circuitOpen then .returned (.transientRetry "circuit open") ⟨ch, [], [], 0⟩
  else (turn ch.config pace answers)^[n] (.running 0 ⟨ch, [], [], 0⟩)

/-- The outcome with which an answer ends a delivery. -/
def ending : Answer → Option WebhookDelivery
  | .ok r =>
    if r.isSuccess then some (.delivered r.status)
    else if r.status = 410 then some (.fatalDrop r.status)
    else none
  | .error _ => none

section Attempts

variable {pace : Pace} {maxBackoff : ℕ} {answers : ℕ → Answer} {left attempt : ℕ}

theorem judge_of_ending {answer : Answer} {outcome : WebhookDelivery} (pace) (attempt)
    (h : ending answer = some outcome) :
    (∃ status, outcome = .delivered status ∧ judge pace attempt answer = .delivered status) ∨
      ∃ status, outcome = .fatalDrop status ∧ judge pace attempt answer = .gone status := by
  cases answer with
  | error e => cases h
  | ok r =>
      rw [ending] at h
      split_ifs at h with hsuccess hgone
      · cases h
        exact Or.inl ⟨r.status, rfl, if_pos hsuccess⟩
      · cases h
        exact Or.inr ⟨r.status, rfl, (if_neg hsuccess).trans (if_pos hgone)⟩

theorem settles_eq_isSome_ending (answer : Answer) : settles answer = (ending answer).isSome := by
  cases answer with
  | error e => rfl
  | ok r =>
      rw [settles, ending]
      by_cases hsuccess : r.isSuccess = true
      · rw [if_pos hsuccess, hsuccess]
        rfl
      · rw [if_neg hsuccess, eq_false_of_ne_true hsuccess, Bool.false_or]
        by_cases hgone : r.status = 410
        · rw [if_pos hgone, hgone]
          rfl
        · rw [if_neg hgone, beq_false_of_ne hgone]
          rfl

theorem judge_of_ending_eq_none (pace) (attempt : ℕ) (h : ending (answers attempt) = none) :
    ∃ wait reason, judge pace attempt (answers attempt) = .again wait reason :=
  judge_of_not_settles pace (by rw [settles_eq_isSome_ending, h, Option.isSome_none])

theorem attemptFrom_of_ending {outcome : WebhookDelivery}
    (h : ending (answers attempt) = some outcome) :
    attemptFrom pace maxBackoff answers left attempt = ([], outcome) := by
  obtain ⟨status, rfl, hjudge⟩ | ⟨status, rfl, hjudge⟩ := judge_of_ending pace attempt h
  · rw [attemptFrom.eq_def, hjudge]
  · rw [attemptFrom.eq_def, hjudge]

/-- What the attempts of a delivery come to: none but the last is answered for good. -/
structure Attempted (maxBackoff : ℕ) (answers : ℕ → Answer) (left attempt : ℕ)
    (result : List ℕ × WebhookDelivery) : Prop where
  length_le : result.1.length ≤ left
  waits_le : ∀ w ∈ result.1, w ≤ maxBackoff
  before : ∀ i < result.1.length, ending (answers (attempt + i)) = none
  last : ending (answers (attempt + result.1.length)) =
    if result.2.isTransientRetry then none else some result.2

theorem attempted_of_ending {outcome : WebhookDelivery} (left : ℕ)
    (h : ending (answers attempt) = some outcome) :
    Attempted maxBackoff answers left attempt ([], outcome) where
  length_le := Nat.zero_le left
  waits_le w hw := absurd hw List.not_mem_nil
  before i hi := absurd hi (Nat.not_lt_zero i)
  last := by
    refine h.trans ?_
    obtain ⟨status, rfl, -⟩ | ⟨status, rfl, -⟩ := judge_of_ending ⟨fun _ _ => none, id⟩ attempt h
    · rfl
    · rfl

theorem attempted_attemptFrom (pace : Pace) (maxBackoff : ℕ) (answers : ℕ → Answer)
    (left attempt : ℕ) : Attempted maxBackoff answers left attempt
      (attemptFrom pace maxBackoff answers left attempt) := by
  induction left generalizing attempt with
  | zero =>
      cases hending : ending (answers attempt) with
      | some outcome =>
          rw [attemptFrom_of_ending hending]
          exact attempted_of_ending 0 hending
      | none =>
          obtain ⟨wait, reason, hjudge⟩ := judge_of_ending_eq_none pace attempt hending
          rw [attemptFrom.eq_def, hjudge]
          exact ⟨le_rfl, fun w hw => absurd hw List.not_mem_nil,
            fun i hi => absurd hi (Nat.not_lt_zero i), hending⟩
  | succ left ih =>
      cases hending : ending (answers attempt) with
      | some outcome =>
          rw [attemptFrom_of_ending hending]
          exact attempted_of_ending (left + 1) hending
      | none =>
          obtain ⟨wait, reason, hjudge⟩ := judge_of_ending_eq_none pace attempt hending
          have hrest := ih (attempt + 1)
          rw [attemptFrom.eq_def, hjudge]
          refine ⟨Nat.succ_le_succ hrest.length_le, ?_, ?_, ?_⟩
          · intro w hw
            rcases List.mem_cons.mp hw with rfl | hw
            · exact Nat.min_le_right _ _
            · exact hrest.waits_le w hw
          · intro i hi
            cases i with
            | zero => exact hending
            | succ i =>
                have hi' := Nat.lt_of_succ_lt_succ hi
                rw [← hrest.before i hi', Nat.add_assoc, Nat.add_comm 1 i]
          · rw [← hrest.last, List.length_cons, Nat.add_assoc, Nat.add_comm 1]

/-- What is done when the attempts from some number on have come to a result. -/
def Progress.after (p : Progress) (answers : ℕ → Answer) (attempt : ℕ)
    (result : List ℕ × WebhookDelivery) : Progress where
  ch := if result.2.isTransientRetry then p.ch.recordFailure else p.ch.resetCircuit
  answers := p.answers ++ (List.range (result.1.length + 1)).map fun i => answers (attempt + i)
  waits := p.waits ++ result.1
  failures := p.failures + if result.2.isTransientRetry then 1 else 0

theorem after_cons (p : Progress) (attempt wait : ℕ) (waits : List ℕ) (outcome : WebhookDelivery) :
    p.after answers attempt (wait :: waits, outcome) =
      { p with answers := p.answers ++ [answers attempt], waits := p.waits ++ [wait] }.after answers
        (attempt + 1) (waits, outcome) := by
  have hshift : (List.range (waits.length + 1)).map (fun i => answers (attempt + (i + 1))) =
      (List.range (waits.length + 1)).map fun i => answers (attempt + 1 + i) := by
    congr 1
    funext i
    rw [Nat.add_assoc, Nat.add_comm 1 i]
  simp only [Progress.after, List.length_cons, List.append_assoc, List.singleton_append]
  rw [List.range_succ_eq_map, List.map_cons, List.map_map, ← hshift]
  rfl

variable {config : WebhookConfig} {turnNumber : UInt32}

theorem turn_of_ending {outcome : WebhookDelivery} (p : Progress)
    (h : ending (answers turnNumber.toNat) = some outcome) :
    turn config pace answers (.running turnNumber p) =
      .returned outcome (p.after answers turnNumber.toNat ([], outcome)) := by
  obtain ⟨status, rfl, hjudge⟩ | ⟨status, rfl, hjudge⟩ := judge_of_ending pace turnNumber.toNat h
  · rw [turn, hjudge]
    simp [Progress.after, WebhookDelivery.isTransientRetry]
  · rw [turn, hjudge]
    simp [Progress.after, WebhookDelivery.isTransientRetry]

/-- The loop returns what the attempts come to, after as many turns as there are attempts
left. -/
theorem iterate_turn (p : Progress) (h : turnNumber.toNat + left + 1 = config.totalAttempts) :
    (turn config pace answers)^[left + 1] (.running turnNumber p) =
      .returned (attemptFrom pace config.maxBackoff answers left turnNumber.toNat).2
        (p.after answers turnNumber.toNat
          (attemptFrom pace config.maxBackoff answers left turnNumber.toNat)) := by
  have hreturned (n : ℕ) (outcome : WebhookDelivery) (q : Progress) :
      (turn config pace answers)^[n] (.returned outcome q) = .returned outcome q :=
    Function.iterate_fixed rfl n
  have hbound : config.totalAttempts ≤ 2 ^ 32 - 1 := Nat.min_le_right _ _
  induction left generalizing turnNumber p with
  | zero =>
      have hnext : (turnNumber + 1).toNat = turnNumber.toNat + 1 := by
        rw [UInt32.toNat_add, UInt32.toNat_one, Nat.mod_eq_of_lt (by omega)]
      rw [Function.iterate_succ_apply]
      cases hending : ending (answers turnNumber.toNat) with
      | some outcome => rw [attemptFrom_of_ending hending, turn_of_ending p hending, hreturned]
      | none =>
          obtain ⟨wait, reason, hjudge⟩ := judge_of_ending_eq_none pace turnNumber.toNat hending
          rw [attemptFrom.eq_def, turn, hjudge]
          simp only
          rw [if_pos (by omega), hreturned]
          simp [Progress.after, WebhookDelivery.isTransientRetry]
  | succ left ih =>
      have hnext : (turnNumber + 1).toNat = turnNumber.toNat + 1 := by
        rw [UInt32.toNat_add, UInt32.toNat_one, Nat.mod_eq_of_lt (by omega)]
      rw [Function.iterate_succ_apply]
      cases hending : ending (answers turnNumber.toNat) with
      | some outcome => rw [attemptFrom_of_ending hending, turn_of_ending p hending, hreturned]
      | none =>
          obtain ⟨wait, reason, hjudge⟩ := judge_of_ending_eq_none pace turnNumber.toNat hending
          rw [attemptFrom.eq_def, turn, hjudge]
          simp only
          rw [if_neg (by omega), ih _ (by omega), hnext, after_cons]

end Attempts

/-! ## What a delivery returns -/

variable {pace : Pace} {answers : ℕ → Answer} {ch : WebhookChannel}

/-- A delivery has returned once it has made as many turns as there are attempts. -/
theorem turns_of_closed (h : ch.circuitOpen = false) :
    turns pace answers ch ch.config.totalAttempts =
      .returned (attempts ch.config pace answers).2
        ((⟨ch, [], [], 0⟩ : Progress).after answers 0 (attempts ch.config pace answers)) := by
  have hpos := totalAttempts_pos ch.config
  have hleft :
      (0 : UInt32).toNat + (ch.config.totalAttempts - 1) + 1 = ch.config.totalAttempts := by
    rw [UInt32.toNat_zero]
    omega
  have hrun : (turn ch.config pace answers)^[ch.config.totalAttempts - 1 + 1]
      (.running 0 ⟨ch, [], [], 0⟩) = _ := iterate_turn _ hleft
  rw [Nat.sub_add_cancel hpos] at hrun
  rw [turns, if_neg (by rw [h]; exact Bool.false_ne_true), hrun]
  rfl

/-- What is promised of a call of `deliver_one`. -/
structure BoundedCall (ch : WebhookChannel) (answers : ℕ → Answer) (outcome : WebhookDelivery)
    (p : Progress) : Prop where
  inOrder : p.answers = (List.range p.answers.length).map answers
  sends : p.answers.length ≤ ch.config.maxRetries.toNat + 1
  between : p.waits.length = p.answers.length - 1
  waits : ∀ w ∈ p.waits, w ≤ ch.config.maxBackoff
  /-- A failure is recorded exactly if requests were sent in vain. -/
  records : p.failures = if p.answers ≠ [] ∧ outcome.isTransientRetry = true then 1 else 0
  counts : p.failures = 1 → p.ch.consecutiveFailures = ch.consecutiveFailures + 1
  /-- An answer that ends the call is the last one, and sets the count back. -/
  ends : ∀ pre a post o, p.answers = pre ++ a :: post → ending a = some o →
    post = [] ∧ outcome = o ∧ p.ch.consecutiveFailures = 0
  /-- A call is not over otherwise before the attempts are used up. -/
  answered : outcome.isTransientRetry = true ∨ ∃ a ∈ p.answers, ending a = some outcome

theorem boundedCall_open (reason : Str) (answers : ℕ → Answer) :
    BoundedCall ch answers (.transientRetry reason) ⟨ch, [], [], 0⟩ where
  inOrder := rfl
  sends := Nat.zero_le _
  between := rfl
  waits _ hw := absurd hw List.not_mem_nil
  records := (if_neg fun h => h.1 rfl).symm
  counts h := absurd h Nat.zero_ne_one
  ends pre a post _ h :=
    absurd h.symm (List.append_ne_nil_of_right_ne_nil pre (List.cons_ne_nil a post))
  answered := Or.inl rfl

/-- The place of an entry in a list of consecutive values. -/
theorem eq_of_map_range_eq {α : Type*} {f : ℕ → α} {n : ℕ} {pre post : List α} {a : α}
    (h : (List.range n).map f = pre ++ a :: post) :
    a = f pre.length ∧ n = pre.length + (post.length + 1) := by
  have hcount := congrArg List.length h
  rw [List.length_map, List.length_range, List.length_append, List.length_cons] at hcount
  have hget := congrArg (fun l => l[pre.length]?) h
  have hlt : pre.length < n := by omega
  simp only [List.getElem?_map, List.getElem?_range hlt, Option.map_some,
    List.getElem?_append_right (Nat.le_refl _), Nat.sub_self, List.getElem?_cons_zero,
    Option.some.injEq] at hget
  exact ⟨hget.symm, hcount⟩

theorem boundedCall_after {result : List ℕ × WebhookDelivery}
    (h : Attempted ch.config.maxBackoff answers (ch.config.totalAttempts - 1) 0 result) :
    BoundedCall ch answers result.2 ((⟨ch, [], [], 0⟩ : Progress).after answers 0 result) := by
  have hanswers : ((⟨ch, [], [], 0⟩ : Progress).after answers 0 result).answers =
      (List.range (result.1.length + 1)).map answers := by
    simp [Progress.after]
  have hwaits : ((⟨ch, [], [], 0⟩ : Progress).after answers 0 result).waits = result.1 := rfl
  have hlength : ((⟨ch, [], [], 0⟩ : Progress).after answers 0 result).answers.length =
      result.1.length + 1 := by
    rw [hanswers, List.length_map, List.length_range]
  have hbefore := h.before
  have hlast := h.last
  simp only [Nat.zero_add] at hbefore hlast
  refine ⟨by rw [hlength, hanswers], ?_, by rw [hlength, hwaits, Nat.add_sub_cancel], h.waits_le,
    ?_, ?_, ?_, ?_⟩
  · have hle := h.length_le
    have htotal : ch.config.totalAttempts ≤ ch.config.maxRetries.toNat + 1 := Nat.min_le_left _ _
    have hpos := totalAttempts_pos ch.config
    omega
  · have hne : ((⟨ch, [], [], 0⟩ : Progress).after answers 0 result).answers ≠ [] :=
      List.ne_nil_of_length_pos (by omega)
    simp only [hne, ne_eq, not_false_eq_true, true_and]
    exact Nat.zero_add _
  · intro hfailures
    cases htransient : result.2.isTransientRetry with
    | false =>
        simp only [Progress.after, htransient] at hfailures
        exact absurd hfailures (by decide)
    | true =>
        simp only [Progress.after, htransient]
        rfl
  · intro pre a post o heq hending
    rw [hanswers] at heq
    obtain ⟨hat, hcount⟩ := eq_of_map_range_eq heq
    have hpre : pre.length = result.1.length := by
      by_contra hne
      have hnone := hbefore pre.length (by omega)
      rw [← hat, hending] at hnone
      cases hnone
    rw [hat, hpre, hlast] at hending
    split_ifs at hending with htransient
    refine ⟨List.eq_nil_of_length_eq_zero (by omega), Option.some.inj hending, ?_⟩
    simp only [Progress.after, htransient]
    rfl
  · cases htransient : result.2.isTransientRetry with
    | true => exact Or.inl rfl
    | false =>
        rw [htransient, if_neg Bool.false_ne_true] at hlast
        refine Or.inr ⟨_, ?_, hlast⟩
        rw [hanswers]
        exact List.mem_map_of_mem (List.mem_range.mpr (Nat.lt_succ_self _))

/-- A call returns after at most as many requests as there are attempts, with what
`deliverOne` says, and keeps what is promised. -/
theorem deliverOne_bounded (receiver : Receiver) (pace : Pace) (url : Str)
    (note : ChangeNotification) (ch : WebhookChannel) :
    ∃ outcome p, turns pace (receiver url note) ch ch.config.totalAttempts = .returned outcome p ∧
      deliverOne receiver pace url note ch = (outcome, p.ch) ∧
      BoundedCall ch (receiver url note) outcome p := by
  cases hopen : ch.circuitOpen with
  | true => exact ⟨_, _, if_pos hopen, if_pos hopen, boundedCall_open _ _⟩
  | false =>
      refine ⟨_, _, turns_of_closed hopen, ?_, boundedCall_after (attempted_attemptFrom _ _ _ _ _)⟩
      have hclosed : ¬ ch.circuitOpen = true := by simp [hopen]
      rw [deliverOne, if_neg hclosed]
      cases hresult : attempts ch.config pace (receiver url note) with
      | mk waits outcome => cases outcome <;> rfl

/-! ## Deliveries to all subscriptions -/

section Everyone

variable {S : Type*} {deliver : Str → ChangeNotification → S → WebhookDelivery × S}
  {note : ChangeNotification} {subs : List Subscription} {s : S}

/-- The outcomes are those of the deliveries one after the other. -/
theorem mem_deliverEach {r : Str × WebhookDelivery} :
    r ∈ (deliverEach deliver note subs s).1 ↔ ∃ pre sub post, subs = pre ++ sub :: post ∧
      r = (sub.id, (deliver sub.receiveFrom note (deliverEach deliver note pre s).2).1) := by
  induction subs generalizing s with
  | nil =>
      refine iff_of_false List.not_mem_nil ?_
      rintro ⟨pre, sub, post, heq, -⟩
      exact List.append_ne_nil_of_right_ne_nil pre (List.cons_ne_nil sub post) heq.symm
  | cons first subs ih =>
      rw [deliverEach, List.mem_cons, ih]
      constructor
      · rintro (rfl | ⟨pre, sub, post, rfl, rfl⟩)
        · exact ⟨[], first, subs, rfl, rfl⟩
        · exact ⟨first :: pre, sub, post, rfl, rfl⟩
      · rintro ⟨pre, sub, post, heq, rfl⟩
        cases pre with
        | nil =>
            cases heq
            exact Or.inl rfl
        | cons first' pre =>
            obtain ⟨rfl, rfl⟩ := List.cons.inj heq
            exact Or.inr ⟨pre, sub, post, rfl, rfl⟩

theorem mem_foldl_unsubscribe {ids : List Str} {m : WebhookChannelManager S} {sub : Subscription} :
    sub ∈ (ids.foldl .unsubscribe m).subscriptions ↔ sub ∈ m.subscriptions ∧ sub.id ∉ ids := by
  induction ids generalizing m with
  | nil => simp
  | cons id ids ih =>
      have hone : sub ∈ (m.unsubscribe id).subscriptions ↔ sub ∈ m.subscriptions ∧ sub.id ≠ id := by
        rw [WebhookChannelManager.unsubscribe, List.mem_filter, decide_eq_true_iff]
      rw [List.foldl_cons, ih, hone, List.mem_cons, not_or, and_assoc]

/-- The subscriptions that are left are those whose delivery did not come to a drop. -/
theorem mem_subscriptions_deliverAll {topicMatches : Str → Bool} {m : WebhookChannelManager S}
    {sub : Subscription} :
    sub ∈ (deliverAll deliver note topicMatches m).2.subscriptions ↔ sub ∈ m.subscriptions ∧
      ¬ ∃ pre post, (m.subscriptions.filter fun s => topicMatches s.topic) = pre ++ sub :: post ∧
        (deliver sub.receiveFrom note (deliverEach deliver note pre m.channel).2).1.isFatalDrop =
          true := by
  rw [deliverAll, mem_foldl_unsubscribe]
  refine and_congr_right fun hsub => not_congr ?_
  rw [List.mem_map]
  constructor
  · rintro ⟨r, hr, hid⟩
    obtain ⟨hmem, hdrop⟩ := List.mem_filter.mp hr
    obtain ⟨pre, sub', post, heq, rfl⟩ := mem_deliverEach.mp hmem
    have hsub' : sub' ∈ m.subscriptions := by
      have hmem' : sub' ∈ m.subscriptions.filter fun s => topicMatches s.topic := by
        rw [heq]
        exact List.mem_append_right _ List.mem_cons_self
      exact (List.mem_filter.mp hmem').1
    have hsame : sub' = sub := List.inj_on_of_nodup_map m.nodup hsub' hsub hid
    subst hsame
    exact ⟨pre, post, heq, hdrop⟩
  · rintro ⟨pre, post, heq, hdrop⟩
    exact ⟨_, List.mem_filter.mpr ⟨mem_deliverEach.mpr ⟨pre, sub, post, heq, rfl⟩, hdrop⟩, rfl⟩

end Everyone

/-- What one delivery meets. -/
structure Serving where
  receiver : Receiver
  draws : Draws

/-- A channel and the number of its deliveries so far. -/
structure ServedChannel where
  ch : WebhookChannel
  count : ℕ

/-- Each delivery meets its own answers. -/
def deliverNext (retryBase : ℕ) (servings : ℕ → Serving) (url : Str) (note : ChangeNotification)
    (s : ServedChannel) : WebhookDelivery × ServedChannel :=
  let serving := servings s.count
  let (outcome, ch) :=
    deliverOne serving.receiver (s.ch.config.pace retryBase serving.draws) url note s.ch
  (outcome, ⟨ch, s.count + 1⟩)

/-- The answers to the requests of the next delivery. -/
def nextAnswers (retryBase : ℕ) (servings : ℕ → Serving) (url : Str) (note : ChangeNotification)
    (s : ServedChannel) : List Answer :=
  let serving := servings s.count
  match turns (s.ch.config.pace retryBase serving.draws) (serving.receiver url note) s.ch
    s.ch.config.totalAttempts with
  | .returned _ p | .running _ p => p.answers

def AnswersGone (answers : List Answer) : Prop := ∃ r, .ok r ∈ answers ∧ r.status = 410

theorem ending_of_gone {r : WebhookResponse} (h : r.status = 410) :
    ending (.ok r) = some (.fatalDrop 410) := by
  have hsuccess : ¬ r.isSuccess = true := by
    rw [WebhookResponse.isSuccess, h]
    decide
  rw [ending, if_neg hsuccess, if_pos h, h]

theorem gone_of_ending {a : Answer} {outcome : WebhookDelivery} (h : ending a = some outcome)
    (hdrop : outcome.isFatalDrop = true) : ∃ r, a = .ok r ∧ r.status = 410 := by
  cases a with
  | error e => cases h
  | ok r =>
      rw [ending] at h
      split_ifs at h with hsuccess hgone
      · cases h
        cases hdrop
      · exact ⟨r, rfl, hgone⟩

/-- A delivery comes to a drop exactly if it was answered with `410`. -/
theorem isFatalDrop_deliverNext_iff (retryBase : ℕ) (servings : ℕ → Serving) (url : Str)
    (note : ChangeNotification) (s : ServedChannel) :
    (deliverNext retryBase servings url note s).1.isFatalDrop = true ↔
      AnswersGone (nextAnswers retryBase servings url note s) := by
  obtain ⟨outcome, p, hturns, hone, hbounded⟩ := deliverOne_bounded (servings s.count).receiver
    (s.ch.config.pace retryBase (servings s.count).draws) url note s.ch
  simp only [deliverNext, nextAnswers, hone, hturns]
  constructor
  · intro hdrop
    rcases hbounded.answered with htransient | ⟨a, ha, hending⟩
    · cases outcome <;> simp [WebhookDelivery.isFatalDrop, WebhookDelivery.isTransientRetry] at *
    · obtain ⟨r, rfl, hgone⟩ := gone_of_ending hending hdrop
      exact ⟨r, ha, hgone⟩
  · rintro ⟨r, hr, hgone⟩
    obtain ⟨pre, post, heq⟩ := List.append_of_mem hr
    rw [(hbounded.ends pre _ post _ heq (ending_of_gone hgone)).2.1]
    rfl

/-- Every call of `deliver_one` is bounded, and `deliver_all` removes exactly the subscriptions
whose receiver answered `410`. -/
theorem deliveries_bounded (retryBase : ℕ) :
    (∀ (serving : Serving) (url : Str) (note : ChangeNotification) (ch : WebhookChannel),
      ∃ outcome p,
        turns (ch.config.pace retryBase serving.draws) (serving.receiver url note) ch
            ch.config.totalAttempts = .returned outcome p ∧
          deliverOne serving.receiver (ch.config.pace retryBase serving.draws) url note ch =
            (outcome, p.ch) ∧
          BoundedCall ch (serving.receiver url note) outcome p) ∧
    ∀ (servings : ℕ → Serving) (note : ChangeNotification) (topicMatches : Str → Bool)
      (m : WebhookChannelManager ServedChannel) (sub : Subscription),
      sub ∈ (deliverAll (deliverNext retryBase servings) note topicMatches m).2.subscriptions ↔
        sub ∈ m.subscriptions ∧
          ¬ ∃ pre post, (m.subscriptions.filter fun s => topicMatches s.topic) =
              pre ++ sub :: post ∧
            AnswersGone (nextAnswers retryBase servings sub.receiveFrom note
              (deliverEach (deliverNext retryBase servings) note pre m.channel).2) := by
  constructor
  · intro serving url note ch
    exact deliverOne_bounded _ _ _ _ _
  · intro servings note topicMatches m sub
    rw [mem_subscriptions_deliverAll]
    simp only [isFatalDrop_deliverNext_iff]

end Notifications

end SolidPod
