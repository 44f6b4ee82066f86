import Mathlib.Algebra.Group.Nat.Defs
import SolidPod.Error
import SolidPod.Foundation.Breaker
import SolidPod.Notifications.Basic

/-!
# The circuit breaker of the webhooks

A delivery makes its attempts until one is answered with success or with `410`, or
until there are none left. The deliveries that used up their attempts are counted
across the targets, and one that was answered sets the count back. Once the count is at
the threshold a delivery makes no attempt, so nothing sets it back any more: a
channel still delivers exactly when its deliveries never failed so many times in a
row.
-/

namespace SolidPod

open Foundation

namespace Notifications

open Str

/-! ## One delivery -/

/-- What the delivery reads of a response. The header counts as absent when it is not
text. -/
structure WebhookResponse where
  status : ℕ
  retryAfter : Option Str

def WebhookResponse.isSuccess (r : WebhookResponse) : Bool := 200 ≤ r.status && r.status < 300

def WebhookResponse.isServerError (r : WebhookResponse) : Bool :=
  500 ≤ r.status && r.status < 600

def WebhookResponse.isClientError (r : WebhookResponse) : Bool :=
  400 ≤ r.status && r.status < 500

/-- What an attempt got: a response, or the error of the network. -/
abbrev Answer := Except Str WebhookResponse

/-- The waits that depend on the clock and on chance, in nanoseconds. -/
structure Pace where
  parseRetryAfter : ℕ → Str → Option ℕ
  computeBackoff : ℕ → ℕ

structure WebhookConfig where
  maxRetries : UInt32
  maxBackoff : ℕ
  circuitThreshold : UInt32

/-- A channel and its count of failures, which all its clones share. -/
structure WebhookChannel where
  config : WebhookConfig
  consecutiveFailures : UInt32

def WebhookChannel.new (config : WebhookConfig) : WebhookChannel := ⟨config, 0⟩

def WebhookChannel.circuitOpen (ch : WebhookChannel) : Bool :=
  ch.config.circuitThreshold ≤ ch.consecutiveFailures

def WebhookChannel.resetCircuit (ch : WebhookChannel) : WebhookChannel :=
  { ch with consecutiveFailures := 0 }

/-- The count wraps around. -/
def WebhookChannel.recordFailure (ch : WebhookChannel) : WebhookChannel :=
  { ch with consecutiveFailures := ch.consecutiveFailures + 1 }

def WebhookConfig.totalAttempts (config : WebhookConfig) : ℕ :=
  min (config.maxRetries.toNat + 1) (2 ^ 32 - 1)

inductive Verdict where
  | delivered (status : ℕ)
  | gone (status : ℕ)
  | again (wait : ℕ) (reason : Str)

/-- One round of the loop, after as many attempts. -/
def judge (pace : Pace) (attempt : ℕ) : Answer → Verdict
  | .ok r =>
    let backoff := pace.computeBackoff attempt
    let told := (r.retryAfter.bind (pace.parseRetryAfter attempt)).getD backoff
    let after : Str := " after " ++ decimal (attempt + 1) ++ " attempts"
    if r.isSuccess then .delivered r.status
    else if r.status = 410 then .gone r.status
    else if r.status = 429 then .again told ("429" ++ after)
    else if r.isServerError then .again told ("5xx" ++ after)
    else if r.isClientError then .again backoff (decimal r.status ++ after)
    else .again backoff ("status " ++ decimal r.status ++ after)
  | .error e => .again (pace.computeBackoff attempt) ("network error: " ++ e)

/-- The waits between the attempts, and the outcome; `left` attempts may follow the
next one. -/
def attemptFrom (pace : Pace) (maxBackoff : ℕ) (answers : ℕ → Answer) (left attempt : ℕ) :
    List ℕ × WebhookDelivery :=
  match judge pace attempt (answers attempt), left with
  | .delivered status, _ => ([], .delivered status)
  | .gone status, _ => ([], .fatalDrop status)
  | .again _ reason, 0 => ([], .transientRetry reason)
  | .again wait _, left + 1 =>
    let (waits, outcome) := attemptFrom pace maxBackoff answers left (attempt + 1)
    (min wait maxBackoff :: waits, outcome)

/-- The attempts of a delivery while the breaker is closed. -/
def attempts (config : WebhookConfig) (pace : Pace) (answers : ℕ → Answer) :
    List ℕ × WebhookDelivery :=
  attemptFrom pace config.maxBackoff answers (config.totalAttempts - 1) 0

/-- Who answers the attempts to deliver a notification to a target. -/
abbrev Receiver := Str → ChangeNotification → ℕ → Answer

def deliverOne (receiver : Receiver) (pace : Pace) (url : Str) (note : ChangeNotification)
    (ch : WebhookChannel) : WebhookDelivery × WebhookChannel :=
  if ch.circuitOpen then (.transientRetry "circuit open", ch)
  else
    match (attempts ch.config pace (receiver url note)).2 with
    | .delivered status => (.delivered status, ch.resetCircuit)
    | .fatalDrop status => (.fatalDrop status, ch.resetCircuit)
    | .transientRetry reason => (.transientRetry reason, ch.recordFailure)

/-! ## Runs -/

structure DeliverCall where
  receiver : Receiver
  pace : Pace
  url : Str
  note : ChangeNotification

def DeliverCall.answers (call : DeliverCall) : ℕ → Answer := call.receiver call.url call.note

def callStep (ch : WebhookChannel) (call : DeliverCall) : WebhookDelivery × WebhookChannel :=
  deliverOne call.receiver call.pace call.url call.note ch

def WebhookDelivery.isDelivered : WebhookDelivery → Bool
  | .delivered _ => true
  | .fatalDrop _ | .transientRetry _ => false

def DeliverCall.AlwaysSucceeds (call : DeliverCall) : Prop :=
  ∀ i, ∃ r, call.answers i = .ok r ∧ r.isSuccess = true

/-- So many deliveries to receivers that answer with success are enough for one of them
to be made. -/
def Recoverable (ch : WebhookChannel) : Prop :=
  ∃ n, ∀ calls : List DeliverCall, calls.length = n → (∀ c ∈ calls, c.AlwaysSucceeds) →
    ∃ r ∈ Lockstep.run callStep ch calls, r.isDelivered = true

/-- The answer ends a delivery. -/
def settles : Answer → Bool
  | .ok r => r.isSuccess || r.status == 410
  | .error _ => false

/-- One of the attempts that the configuration allows ends the delivery. -/
def DeliverCall.answered (config : WebhookConfig) (call : DeliverCall) : Bool :=
  (List.range config.totalAttempts).any fun i => settles (call.answers i)

/-! ## What a delivery does -/

def WebhookDelivery.isTransientRetry : WebhookDelivery → Bool
  | .transientRetry _ => true
  | .delivered _ | .fatalDrop _ => false

section Attempts

variable {pace : Pace} {maxBackoff : ℕ} {answers : ℕ → Answer}

theorem judge_of_settles (pace) {attempt : ℕ} (h : settles (answers attempt) = true) :
    ∃ status, judge pace attempt (answers attempt) = .delivered status ∨
      judge pace attempt (answers attempt) = .gone status := by
  cases hanswer : answers attempt with
  | error e =>
      rw [hanswer] at h
      cases h
  | ok r =>
      rw [hanswer, settles] at h
      refine ⟨r.status, ?_⟩
      by_cases hsuccess : r.isSuccess = true
      · exact Or.inl (if_pos hsuccess)
      · rw [eq_false_of_ne_true hsuccess, Bool.false_or, beq_iff_eq] at h
        exact Or.inr ((if_neg hsuccess).trans (if_pos h))

theorem judge_of_not_settles (pace) {attempt : ℕ} (h : settles (answers attempt) = false) :
    ∃ wait reason, judge pace attempt (answers attempt) = .again wait reason := by
  cases hanswer : answers attempt with
  | error e => exact ⟨_, _, rfl⟩
  | ok r =>
      rw [hanswer] at h
      obtain ⟨hsuccess, hgone⟩ := Bool.or_eq_false_iff.mp h
      simp only [judge, hsuccess, Bool.false_eq_true, if_false, beq_eq_false_iff_ne.mp hgone]
      split_ifs <;> exact ⟨_, _, rfl⟩

theorem attemptFrom_of_settles {left attempt : ℕ} (h : settles (answers attempt) = true) :
    (attemptFrom pace maxBackoff answers left attempt).2.isTransientRetry = false := by
  obtain ⟨status, hjudge | hjudge⟩ := judge_of_settles pace h
  · rw [attemptFrom.eq_def, hjudge]
    rfl
  · rw [attemptFrom.eq_def, hjudge]
    rfl

theorem attemptFrom_of_not_settles {left attempt : ℕ} (h : settles (answers attempt) = false) :
    (attemptFrom pace maxBackoff answers left attempt).2.isTransientRetry =
      match left with
      | 0 => true
      | left + 1 =>
        (attemptFrom pace maxBackoff answers left (attempt + 1)).2.isTransientRetry := by
  obtain ⟨wait, reason, hjudge⟩ := judge_of_not_settles pace h
  cases left with
  | zero =>
      rw [attemptFrom.eq_def, hjudge]
      rfl
  | succ left => rw [attemptFrom.eq_def, hjudge]

/-- The attempts are used up when none of the answers ends the delivery. -/
theorem isTransientRetry_attemptFrom (left attempt : ℕ) :
    (attemptFrom pace maxBackoff answers left attempt).2.isTransientRetry =
      !(List.range (left + 1)).any fun i => settles (answers (attempt + i)) := by
  induction left generalizing attempt with
  | zero =>
      cases hsettles : settles (answers attempt) with
      | true => simp [attemptFrom_of_settles hsettles, hsettles]
      | false => simp [attemptFrom_of_not_settles hsettles, hsettles]
  | succ left ih =>
      have hshift : ((List.range (left + 1)).map Nat.succ).any
          (fun i => settles (answers (attempt + i))) =
          (List.range (left + 1)).any fun i => settles (answers (attempt + 1 + i)) := by
        rw [List.any_map]
        congr 1
        funext i
        exact congrArg (fun n => settles (answers n)) (by simp only [Nat.succ_eq_add_one]; omega)
      rw [List.range_succ_eq_map, List.any_cons, hshift]
      cases hsettles : settles (answers attempt) with
      | true => simp [attemptFrom_of_settles hsettles]
      | false => simp [attemptFrom_of_not_settles hsettles, ih]

theorem attemptFrom_of_success {left attempt : ℕ} {r : WebhookResponse}
    (hanswer : answers attempt = .ok r) (hsuccess : r.isSuccess = true) :
    attemptFrom pace maxBackoff answers left attempt = ([], .delivered r.status) := by
  have hjudge : judge pace attempt (answers attempt) = .delivered r.status := by
    rw [hanswer]
    exact if_pos hsuccess
  rw [attemptFrom.eq_def, hjudge]

end Attempts

variable {ch : WebhookChannel} {call : DeliverCall}

theorem totalAttempts_pos (config : WebhookConfig) : 0 < config.totalAttempts := by
  rw [WebhookConfig.totalAttempts]
  omega

/-- A delivery that makes attempts fails when no answer ends it. -/
theorem answered_eq (config : WebhookConfig) (call : DeliverCall) :
    call.answered config = !(attempts config call.pace call.answers).2.isTransientRetry := by
  rw [attempts, isTransientRetry_attemptFrom, Nat.sub_add_cancel (totalAttempts_pos config),
    DeliverCall.answered, Bool.not_not]
  simp only [Nat.zero_add]

theorem callStep_of_open (h : ch.circuitOpen = true) (call : DeliverCall) :
    callStep ch call = (.transientRetry "circuit open", ch) := if_pos h

theorem callStep_of_closed (h : ch.circuitOpen = false) (call : DeliverCall) :
    callStep ch call =
      ((attempts ch.config call.pace call.answers).2,
        if call.answered ch.config then ch.resetCircuit else ch.recordFailure) := by
  have hopen : ¬ ch.circuitOpen = true := by simp [h]
  have hanswers : call.receiver call.url call.note = call.answers := rfl
  rw [callStep, deliverOne, if_neg hopen, answered_eq, hanswers]
  cases (attempts ch.config call.pace call.answers).2 with
  | delivered status => rfl
  | fatalDrop status => rfl
  | transientRetry reason => rfl

theorem isDelivered_of_alwaysSucceeds (hopen : ch.circuitOpen = false)
    (hcall : call.AlwaysSucceeds) : (callStep ch call).1.isDelivered = true := by
  obtain ⟨r, hanswer, hsuccess⟩ := hcall 0
  rw [callStep_of_closed hopen, attempts, attemptFrom_of_success hanswer hsuccess]
  rfl

/-! ## What a run leaves -/

theorem circuitOpen_iff :
    ch.circuitOpen = true ↔ ch.config.circuitThreshold.toNat ≤ ch.consecutiveFailures.toNat := by
  rw [WebhookChannel.circuitOpen, decide_eq_true_iff, UInt32.le_iff_toNat_le]

theorem config_callStep : (callStep ch call).2.config = ch.config := by
  cases hopen : ch.circuitOpen with
  | true => rw [callStep_of_open hopen]
  | false =>
      rw [callStep_of_closed hopen]
      split_ifs <;> rfl

/-- The count of the channel is that of a breaker: it does not get to wrap around. -/
theorem consecutiveFailures_callStep :
    (callStep ch call).2.consecutiveFailures.toNat =
      Breaker.count ch.config.circuitThreshold.toNat ch.consecutiveFailures.toNat
        (call.answered ch.config) := by
  cases hopen : ch.circuitOpen with
  | true => rw [callStep_of_open hopen, Breaker.count_of_le (circuitOpen_iff.mp hopen)]
  | false =>
      have hlt : ch.consecutiveFailures.toNat < ch.config.circuitThreshold.toNat := by
        rw [← Nat.not_le, ← circuitOpen_iff, hopen]
        exact Bool.false_ne_true
      have hbound := ch.config.circuitThreshold.toNat_lt
      rw [callStep_of_closed hopen, Breaker.count_of_lt hlt]
      cases call.answered ch.config with
      | true => rfl
      | false =>
          change (ch.consecutiveFailures + 1).toNat = ch.consecutiveFailures.toNat + 1
          rw [UInt32.toNat_add, UInt32.toNat_one, Nat.mod_eq_of_lt (by omega)]

theorem config_final (calls : List DeliverCall) :
    (Lockstep.final callStep ch calls).config = ch.config := by
  induction calls generalizing ch with
  | nil => rfl
  | cons call calls ih => rw [Lockstep.final_cons, ih, config_callStep]

theorem consecutiveFailures_final (calls : List DeliverCall) :
    (Lockstep.final callStep ch calls).consecutiveFailures.toNat =
      (calls.map (DeliverCall.answered ch.config)).foldl
        (Breaker.count ch.config.circuitThreshold.toNat) ch.consecutiveFailures.toNat := by
  induction calls generalizing ch with
  | nil => rfl
  | cons call calls ih =>
      rw [Lockstep.final_cons, ih, config_callStep, consecutiveFailures_callStep, List.map_cons,
        List.foldl_cons]

/-- An open breaker answers every call in the same way. -/
theorem mem_run_of_open (h : ch.circuitOpen = true) {calls : List DeliverCall}
    {r : WebhookDelivery} (hr : r ∈ Lockstep.run callStep ch calls) :
    r = .transientRetry "circuit open" := by
  induction calls with
  | nil => cases hr
  | cons call calls ih =>
      rw [Lockstep.run, callStep_of_open h] at hr
      rcases List.mem_cons.mp hr with rfl | hrest
      · rfl
      · exact ih hrest

/-- A receiver that always answers with success. -/
def succeeding : DeliverCall where
  receiver := fun _ _ _ => .ok ⟨200, none⟩
  pace := ⟨fun _ _ => none, fun _ => 0⟩
  url := "https://hook.example/"
  note := ⟨"https://www.w3.org/ns/activitystreams", "urn:uuid:1", "Update", "/a", "now"⟩

theorem alwaysSucceeds_succeeding : succeeding.AlwaysSucceeds :=
  fun _ => ⟨⟨200, none⟩, rfl, by decide⟩

theorem recoverable_iff_closed : Recoverable ch ↔ ch.circuitOpen = false := by
  constructor
  · rintro ⟨n, hn⟩
    obtain ⟨r, hr, hdelivered⟩ := hn (List.replicate n succeeding) List.length_replicate (by
      intro call hcall
      rw [List.eq_of_mem_replicate hcall]
      exact alwaysSucceeds_succeeding)
    by_contra hopen
    rw [mem_run_of_open (Bool.not_eq_false _ |>.mp hopen) hr] at hdelivered
    cases hdelivered
  · intro hclosed
    refine ⟨1, ?_⟩
    intro calls hlength hsucceed
    obtain ⟨call, rfl⟩ := List.length_eq_one_iff.mp hlength
    exact ⟨_, List.mem_singleton_self _,
      isDelivered_of_alwaysSucceeds hclosed (hsucceed call (List.mem_singleton_self call))⟩

/-- After a run the channel still delivers exactly when the deliveries of the run did not
fail as many times in a row as the threshold says. -/
theorem recoverable_iff (config : WebhookConfig) (calls : List DeliverCall) :
    Recoverable (Lockstep.final callStep (.new config) calls) ↔
      ¬ List.replicate config.circuitThreshold.toNat false <:+:
        calls.map (DeliverCall.answered config) := by
  rw [recoverable_iff_closed, ← Bool.not_eq_true, circuitOpen_iff, config_final,
    consecutiveFailures_final]
  exact not_congr (Breaker.le_foldl_count_iff config.circuitThreshold.toNat _).1

/-- A receiver that is always overloaded. -/
def overloaded : DeliverCall := { succeeding with receiver := fun _ _ _ => .ok ⟨503, none⟩ }

/-- With the default configuration, ten deliveries to an overloaded receiver are enough: no
delivery is made any more, to whatever receiver. -/
theorem not_recoverable_overloaded :
    0 < (⟨3, 3600000000000, 10⟩ : WebhookConfig).circuitThreshold ∧
      ¬ Recoverable (Lockstep.final callStep (.new ⟨3, 3600000000000, 10⟩)
        (List.replicate 10 overloaded)) := by
  refine ⟨by decide, ?_⟩
  rw [recoverable_iff_closed]
  decide

end Notifications

end SolidPod
