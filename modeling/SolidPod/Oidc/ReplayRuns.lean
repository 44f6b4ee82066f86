import Mathlib.Data.List.Dedup
import SolidPod.Oidc.Dpop

/-!
# Runs of the DPoP verifier

A verifier and its replay cache see proofs one after the other, while the
evictor sweeps the cache now and then. All of them read one clock. The cache
remembers an id for as long as the tolerance of the verifier is wide, but a
proof dated ahead of the clock stays acceptable for longer. So a proof is
accepted once if the second it is dated at is over when it is accepted, and it
can be accepted again if that second is not.
-/

namespace SolidPod

open Foundation LruCache ReplayGuard

namespace Oidc

/-- One call of the verifier, at a time in nanoseconds since the epoch. -/
structure Call where
  proof : Str
  expectedHtu : Str
  expectedHtm : Str
  expectedAth : Option Str
  time : Nat

inductive Event where
  | verify (c : Call)
  | evictExpired (time : Nat)

def Event.time : Event → Nat
  | .verify c => c.time
  | .evictExpired t => t

structure Acceptance where
  verified : DpopVerified
  time : Nat

section Run

variable {L : Type*} [LruCache L Str Nat] (lib : JsonWebToken) (skew : Nat)

/-- What the verifier says about the proof when it does not ask the cache. -/
def Call.verdict (c : Call) : Except PodError DpopVerified :=
  verifyDpopProofCore lib c.proof c.expectedHtu c.expectedHtm (Duration.asSecs c.time) skew
    c.expectedAth

def step (s : ReplayState L) : Event → Option DpopVerified × ReplayState L
  | .verify c =>
    let (answer, s) := verifyDpopProofWithAth lib c.proof c.expectedHtu c.expectedHtm
      (Duration.asSecs c.time) skew c.expectedAth c.time s
    (answer.toOption, s)
  | .evictExpired t =>
    (none, { s with replayCache := s.replayCache.map fun cache => (cache.evictExpired t).2 })

def final (s : ReplayState L) (events : List Event) : ReplayState L :=
  events.foldl (fun s e => (step lib skew s e).2) s

def accepted (s : ReplayState L) (e : Event) : List Acceptance :=
  (step lib skew s e).1.toList.map fun v => ⟨v, e.time⟩

/-- The proofs accepted in a run. -/
def acceptances (s : ReplayState L) : List Event → List Acceptance
  | [] => []
  | e :: es => accepted lib skew s e ++ acceptances (step lib skew s e).2 es

/-- A verifier with a new cache whose ttl is the tolerance. -/
def start (maxSize : Nat) (rejectedTotal : UInt64) : ReplayState L where
  replayCache := some (DpopReplayCache.withConfig (Duration.fromSecs skew) maxSize)
  rejectedTotal := rejectedTotal

/-- No proof, known by its id and the time it is dated at, is accepted twice. -/
def AcceptedOnce (as : List Acceptance) : Prop :=
  (as.map fun a => (a.verified.jti, a.verified.iat)).Nodup

/-- Time does not run backwards, and the cache has room for the ids accepted. -/
structure SharedRun (s : ReplayState L) (events : List Event) : Prop where
  ordered : events.Pairwise fun d e => d.time ≤ e.time
  few : ∀ cache ∈ s.replayCache,
    ((acceptances lib skew s events).map fun a => a.verified.jti).toFinset.card < cache.maxSize

/-- If the proof is in order and its id is not remembered, then the second it is
dated at is over. -/
def Ripe (s : ReplayState L) (c : Call) : Prop :=
  ∀ v, c.verdict lib skew = .ok v →
    (∀ cache ∈ s.replayCache, ¬ cache.Remembers c.time v.jti) → v.iat < Duration.asSecs c.time

/-- Each proof of the run is presented when it is ripe. -/
def RipeAlong (s : ReplayState L) (events : List Event) : Prop :=
  ∀ pre c post, events = pre ++ Event.verify c :: post → Ripe lib skew (final lib skew s pre) c

variable {lib skew} {s : ReplayState L}

theorem acceptances_append (ds es : List Event) :
    acceptances lib skew s (ds ++ es) =
      acceptances lib skew s ds ++ acceptances lib skew (final lib skew s ds) es := by
  induction ds generalizing s with
  | nil => rfl
  | cons d ds ih =>
      rw [List.cons_append, acceptances, acceptances, ih, List.append_assoc]
      rfl

theorem final_append (ds es : List Event) :
    final lib skew s (ds ++ es) = final lib skew (final lib skew s ds) es :=
  List.foldl_append

/-! ## The steps -/

theorem step_verify_of_error {c : Call} {e : PodError} (h : c.verdict lib skew = .error e) :
    step lib skew s (.verify c) = (none, s) := by
  rw [step, verifyDpopProofWithAth_of_error h]
  rfl

theorem step_verify_of_remembers {c : Call} {v : DpopVerified} {cache : DpopReplayCache L}
    (h : c.verdict lib skew = .ok v) (hcache : s.replayCache = some cache)
    (hseen : cache.Remembers c.time v.jti) :
    step lib skew s (.verify c) = (none, { s with rejectedTotal := s.rejectedTotal + 1 }) := by
  rw [step, verifyDpopProofWithAth_of_remembers h hcache hseen]
  rfl

theorem step_verify_of_not_remembers {c : Call} {v : DpopVerified} {cache : DpopReplayCache L}
    (h : c.verdict lib skew = .ok v) (hcache : s.replayCache = some cache)
    (hseen : ¬ cache.Remembers c.time v.jti) :
    step lib skew s (.verify c) = (some v, { s with
      replayCache := some { cache with entries := put cache.entries v.jti c.time } }) := by
  rw [step, verifyDpopProofWithAth_of_not_remembers h hcache hseen]
  rfl

theorem step_verify_of_no_cache {c : Call} {v : DpopVerified} (h : c.verdict lib skew = .ok v)
    (hcache : s.replayCache = none) : step lib skew s (.verify c) = (some v, s) := by
  rw [step, verifyDpopProofWithAth_of_no_cache h hcache]
  rfl

/-- What is accepted is in order, and its id was not remembered. -/
theorem of_mem_accepted {e : Event} {a : Acceptance} (h : a ∈ accepted lib skew s e) :
    ∃ c, e = .verify c ∧ a.time = c.time ∧ c.verdict lib skew = .ok a.verified ∧
      ∀ cache ∈ s.replayCache, ¬ cache.Remembers c.time a.verified.jti := by
  obtain ⟨v, hv, rfl⟩ := List.mem_map.mp h
  rw [Option.mem_toList] at hv
  cases e with
  | evictExpired t => cases hv
  | verify c =>
      refine ⟨c, rfl, rfl, ?_⟩
      cases hverdict : c.verdict lib skew with
      | error e =>
          rw [step_verify_of_error hverdict] at hv
          cases hv
      | ok w =>
          cases hcache : s.replayCache with
          | none =>
              rw [step_verify_of_no_cache hverdict hcache] at hv
              cases hv
              exact ⟨rfl, fun cache hmem => absurd hmem (by simp)⟩
          | some cache =>
              by_cases hseen : cache.Remembers c.time w.jti
              · rw [step_verify_of_remembers hverdict hcache hseen] at hv
                cases hv
              · rw [step_verify_of_not_remembers hverdict hcache hseen] at hv
                cases hv
                refine ⟨rfl, fun other hmem => ?_⟩
                cases hmem
                exact hseen

theorem of_mem_acceptances {events : List Event} {a : Acceptance}
    (h : a ∈ acceptances lib skew s events) :
    ∃ pre c post, events = pre ++ .verify c :: post ∧ a.time = c.time ∧
      c.verdict lib skew = .ok a.verified ∧
      ∀ cache ∈ (final lib skew s pre).replayCache, ¬ cache.Remembers c.time a.verified.jti := by
  induction events generalizing s with
  | nil => exact absurd h List.not_mem_nil
  | cons e es ih =>
      rcases List.mem_append.mp h with hnow | hlater
      · obtain ⟨c, rfl, hc⟩ := of_mem_accepted hnow
        exact ⟨[], c, es, rfl, hc⟩
      · obtain ⟨pre, c, post, rfl, hc⟩ := ih hlater
        exact ⟨e :: pre, c, post, rfl, hc⟩

/-! ## The cache along a run -/

variable [LawfulLruCache L]

/-- The cache mirrors what was accepted, and no id was accepted twice within the
ttl. -/
structure Guarded (skew : Nat) (s : ReplayState L) (n : ℕ+) (log : Log Str) (now : Nat) :
    Prop where
  exists_cache : ∃ cache, s.replayCache = some cache ∧ cache.ttl = Duration.fromSecs skew ∧
    cap cache.entries = n ∧ cache.Mirrors log now
  spaced : Spaced (Duration.fromSecs skew) log

def logOf (as : List Acceptance) : Log Str := as.map fun a => (a.verified.jti, a.time)

theorem Guarded.step {n : ℕ+} {log : Log Str} {t : Nat} {e : Event}
    (h : Guarded skew s n log t) (hle : t ≤ e.time)
    (hroom : (log.map Prod.fst).toFinset.card < n) :
    Guarded skew (step lib skew s e).2 n (log ++ logOf (accepted lib skew s e)) e.time := by
  obtain ⟨⟨cache, hcache, httl, hcap, hmirrors⟩, hspaced⟩ := h
  have hnow := hmirrors.mono hle
  cases e with
  | evictExpired t' =>
      refine ⟨⟨(cache.evictExpired t').2, ?_, httl, ?_, ?_⟩, ?_⟩
      · rw [Oidc.step, hcache]
        rfl
      · rw [← hcap]
        exact LawfulLruCache.cap_foldl_pop _ _
      · have hswept := hnow.evictExpired
        rw [Event.time] at hswept
        simpa [accepted, Oidc.step, logOf, Event.time] using hswept
      · simpa [accepted, Oidc.step, logOf] using hspaced
  | verify c =>
      rw [accepted]
      cases hverdict : c.verdict lib skew with
      | error e =>
          rw [step_verify_of_error hverdict]
          simpa [logOf] using ⟨⟨cache, hcache, httl, hcap, hnow⟩, hspaced⟩
      | ok v =>
          by_cases hseen : cache.Remembers c.time v.jti
          · rw [step_verify_of_remembers hverdict hcache hseen]
            simpa [logOf] using ⟨⟨cache, hcache, httl, hcap, hnow⟩, hspaced⟩
          · rw [step_verify_of_not_remembers hverdict hcache hseen]
            refine ⟨⟨_, rfl, httl, ?_, ?_⟩, ?_⟩
            · rw [LawfulLruCache.cap_put, hcap]
            · exact hnow.record (by rwa [hcap])
            · have hadmits := hnow.not_remembers_iff.mp hseen
              rw [httl] at hadmits
              exact hspaced.concat hadmits

theorem Guarded.run {n : ℕ+} {log : Log Str} {t : Nat} {events : List Event}
    (h : Guarded skew s n log t) (hle : ∀ e ∈ events, t ≤ e.time)
    (hordered : events.Pairwise fun d e => d.time ≤ e.time)
    (hroom : ((log ++ logOf (acceptances lib skew s events)).map Prod.fst).toFinset.card < n) :
    ∃ now, Guarded skew (final lib skew s events) n
      (log ++ logOf (acceptances lib skew s events)) now := by
  induction events generalizing s log t with
  | nil => exact ⟨t, by simpa [acceptances, logOf, final] using h⟩
  | cons e es ih =>
      rw [List.pairwise_cons] at hordered
      have happend : log ++ logOf (acceptances lib skew s (e :: es)) =
          log ++ logOf (accepted lib skew s e) ++
            logOf (acceptances lib skew (Oidc.step lib skew s e).2 es) := by
        rw [acceptances, logOf, List.map_append, List.append_assoc]
        rfl
      rw [happend] at hroom ⊢
      refine ih (h.step (hle e List.mem_cons_self) ?_) hordered.1 hordered.2 hroom
      refine lt_of_le_of_lt (Finset.card_le_card ?_) hroom
      rw [List.append_assoc, List.map_append, List.toFinset_append]
      exact Finset.subset_union_left

theorem guarded_start (skew maxSize : Nat) (rejectedTotal : UInt64) :
    Guarded skew (start skew maxSize rejectedTotal : ReplayState L)
      (Nat.toPNat (max maxSize 1) (Nat.le_max_right maxSize 1)) [] 0 where
  exists_cache := ⟨_, rfl, rfl, LawfulLruCache.cap_new _, .withConfig _ _⟩
  spaced := .nil

omit [LawfulLruCache L] in
theorem SharedRun.left {ds es : List Event} (h : SharedRun lib skew s (ds ++ es)) :
    SharedRun lib skew s ds where
  ordered := (List.pairwise_append.mp h.ordered).1
  few cache hcache := by
    refine lt_of_le_of_lt (Finset.card_le_card ?_) (h.few cache hcache)
    rw [acceptances_append, List.map_append, List.toFinset_append]
    exact Finset.subset_union_left

/-- A run leaves a cache that mirrors what was accepted in it. -/
theorem SharedRun.guarded {maxSize : Nat} {rejectedTotal : UInt64} {events : List Event}
    (h : SharedRun lib skew (start skew maxSize rejectedTotal : ReplayState L) events) :
    ∃ n now, Guarded skew
      (final lib skew (start skew maxSize rejectedTotal : ReplayState L) events) n
      (logOf (acceptances lib skew (start skew maxSize rejectedTotal : ReplayState L) events))
      now := by
  have hroom := h.few _ rfl
  obtain ⟨now, hend⟩ := (guarded_start skew maxSize rejectedTotal).run
    (fun e _ => Nat.zero_le e.time) h.ordered (by
      rw [List.nil_append, logOf, List.map_map]
      exact hroom)
  exact ⟨_, now, hend⟩

/-! ## What is accepted once -/

/-- A ripe proof is accepted at a time that its tolerance ends within the ttl of. -/
theorem Acceptance.window {a : Acceptance} {c : Call} (htime : a.time = c.time)
    (hverdict : c.verdict lib skew = .ok a.verified)
    (hripe : a.verified.iat < Duration.asSecs c.time) :
    a.time < Duration.fromSecs (a.verified.iat + skew + 1) ∧
      Duration.fromSecs (a.verified.iat + skew + 1) ≤ a.time + Duration.fromSecs skew := by
  obtain ⟨-, -, -, htolerance, -⟩ := verifyDpopProofCore_eq_ok_iff.mp hverdict
  have hclose := htolerance.1
  rw [htime]
  constructor
  · rw [Duration.lt_fromSecs_iff]
    omega
  · rw [Nat.add_right_comm, Duration.fromSecs_add, Nat.add_le_add_iff_right,
      Duration.fromSecs_le_iff]
    exact hripe

theorem SharedRun.acceptedOnce {maxSize : Nat} {rejectedTotal : UInt64} {events : List Event}
    (h : SharedRun lib skew (start skew maxSize rejectedTotal : ReplayState L) events)
    (hripe : RipeAlong lib skew (start skew maxSize rejectedTotal : ReplayState L) events) :
    AcceptedOnce
      (acceptances lib skew (start skew maxSize rejectedTotal : ReplayState L) events) := by
  obtain ⟨n, now, hend⟩ := h.guarded
  have hnodup := hend.spaced.nodup
    (fun a => Duration.fromSecs (a.verified.iat + skew + 1)) ?_
  · rw [AcceptedOnce]
    refine List.Nodup.of_map (fun p : Str × Nat => (p.1, Duration.fromSecs (p.2 + skew + 1))) ?_
    rwa [List.map_map]
  · intro a ha
    obtain ⟨pre, c, post, rfl, htime, hverdict, hseen⟩ := of_mem_acceptances ha
    exact a.window htime hverdict (hripe pre c post rfl a.verified hverdict hseen)

omit [LawfulLruCache L] in
theorem accepted_of_not_remembers {c : Call} {v : DpopVerified} {cache : DpopReplayCache L}
    (hverdict : c.verdict lib skew = .ok v) (hcache : s.replayCache = some cache)
    (hseen : ¬ cache.Remembers c.time v.jti) :
    accepted lib skew s (.verify c) = [⟨v, c.time⟩] := by
  rw [accepted, step_verify_of_not_remembers hverdict hcache hseen]
  rfl

def Call.atTime (t : Nat) (c : Call) : Call := { c with time := t }

theorem Call.verdict_atTime (c : Call) (t : Nat) : (c.atTime t).verdict lib skew =
    verifyDpopProofCore lib c.proof c.expectedHtu c.expectedHtm (Duration.asSecs t) skew
      c.expectedAth := rfl

/-- The call again, a whole tolerance later. -/
def Call.later (skew : Nat) (c : Call) : Call := c.atTime (c.time + Duration.fromSecs skew)

theorem Call.time_later (c : Call) : (c.later skew).time = c.time + Duration.fromSecs skew := rfl

theorem Call.verdict_later {c : Call} {v : DpopVerified} (hverdict : c.verdict lib skew = .ok v)
    (hdated : Duration.asSecs c.time ≤ v.iat) : (c.later skew).verdict lib skew = .ok v := by
  obtain ⟨-, -, -, htolerance, -⟩ := verifyDpopProofCore_eq_ok_iff.mp hverdict
  rw [Call.later, Call.verdict_atTime]
  refine verifyDpopProofCore_of_inTolerance hverdict ?_
  obtain ⟨-, hahead⟩ := htolerance
  rw [Duration.asSecs_add_fromSecs, InTolerance]
  omega

/-- A proof that is accepted before it is ripe is accepted again as soon as the
cache forgets it. -/
theorem acceptances_twice {events : List Event} {c : Call} {v : DpopVerified}
    {cache : DpopReplayCache L} (hcache : (final lib skew s events).replayCache = some cache)
    (httl : cache.ttl = Duration.fromSecs skew) (hverdict : c.verdict lib skew = .ok v)
    (hseen : ¬ cache.Remembers c.time v.jti) (hdated : Duration.asSecs c.time ≤ v.iat) :
    acceptances lib skew s (events ++ [.verify c, .verify (c.later skew)]) =
      acceptances lib skew s (events ++ [.verify c]) ++ [⟨v, (c.later skew).time⟩] := by
  have hforgot : ¬ DpopReplayCache.Remembers
      { cache with entries := put cache.entries v.jti c.time } (c.later skew).time v.jti := by
    rintro ⟨seen, hpeek, hage⟩
    rw [LawfulLruCache.peek_put_self] at hpeek
    cases hpeek
    rw [Call.time_later, httl, Nat.add_sub_cancel_left] at hage
    exact lt_irrefl _ hage
  have hagain : accepted lib skew (step lib skew (final lib skew s events) (.verify c)).2
      (.verify (c.later skew)) = [⟨v, (c.later skew).time⟩] := by
    rw [step_verify_of_not_remembers hverdict hcache hseen]
    exact accepted_of_not_remembers (Call.verdict_later hverdict hdated) rfl hforgot
  rw [acceptances_append, acceptances_append, acceptances, acceptances, acceptances, hagain]
  simp [acceptances]

theorem SharedRun.again {maxSize : Nat} {rejectedTotal : UInt64} {events : List Event} {c : Call}
    (h : SharedRun lib skew (start skew maxSize rejectedTotal : ReplayState L)
      (events ++ [.verify c]))
    (hripe : ¬ Ripe lib skew
      (final lib skew (start skew maxSize rejectedTotal : ReplayState L) events) c) :
    SharedRun lib skew (start skew maxSize rejectedTotal : ReplayState L)
        (events ++ [.verify c, .verify (c.later skew)]) ∧
      ¬ AcceptedOnce (acceptances lib skew (start skew maxSize rejectedTotal : ReplayState L)
        (events ++ [.verify c, .verify (c.later skew)])) := by
  obtain ⟨n, now, hguarded⟩ := h.left.guarded
  obtain ⟨cache, hcache, httl, -, -⟩ := hguarded.exists_cache
  simp only [Ripe, not_forall, not_lt] at hripe
  obtain ⟨v, hverdict, hforgot, hdated⟩ := hripe
  have hseen := hforgot cache hcache
  have htwice := acceptances_twice hcache httl hverdict hseen hdated
  have hfirst : acceptances lib skew (start skew maxSize rejectedTotal : ReplayState L)
      (events ++ [.verify c]) =
        acceptances lib skew (start skew maxSize rejectedTotal : ReplayState L) events ++
          [⟨v, c.time⟩] := by
    rw [acceptances_append, acceptances, accepted_of_not_remembers hverdict hcache hseen]
    simp [acceptances]
  constructor
  · constructor
    · have hbefore : ∀ e ∈ events, e.time ≤ c.time := by
        intro e he
        exact (List.pairwise_append.mp h.ordered).2.2 e he _ (List.mem_singleton.mpr rfl)
      have hlater : c.time ≤ (c.later skew).time := by
        rw [Call.time_later]
        exact Nat.le_add_right _ _
      rw [List.append_cons, List.pairwise_append]
      refine ⟨h.ordered, List.pairwise_singleton _ _, ?_⟩
      intro e he d hd
      rw [List.mem_singleton.mp hd, Event.time]
      rcases List.mem_append.mp he with he | he
      · exact (hbefore e he).trans hlater
      · rw [List.mem_singleton.mp he, Event.time]
        exact hlater
    · intro first hmem
      have hfew := h.few first hmem
      rw [htwice, hfirst]
      rw [hfirst] at hfew
      simpa using hfew
  · rw [AcceptedOnce, htwice, hfirst]
    simp [List.nodup_append]

end Run

/-! ## A proof dated a minute ahead -/

/-- Libraries that read every token as the same proof, dated at second 160. -/
def datedAhead : JsonWebToken where
  LibJwk := Unit
  DecodingKey := Unit
  decodeHeader _ := .ok ⟨some "dpop+jwt", .ES256, some ()⟩
  toValue _ := .ok .null
  jwkOfValue _ := .ok ⟨"EC", some [], some [], some [], none, none, none⟩
  libJwkOfValue _ := .ok ()
  decodingKey _ := .ok ()
  decode _ _ _ := .ok ⟨[], [], 160, [], none⟩
  sha256Base64Url _ := []
  toVec _ := .ok []
  toUppercase s := s

theorem decodeProof_datedAhead (proof : Str) :
    decodeProof datedAhead proof = .ok ([], ⟨[], [], 160, [], none⟩) := by
  simp [decodeProof, datedAhead, Jwk.thumbprint, Jwk.members, Jwk.require, orNip98, algPermitted,
    bind, Except.bind, pure, Except.pure]

/-- The proof, presented at the start of a second. -/
def presentedAt (secs : Nat) : Call := ⟨[], [], [], none, Duration.fromSecs secs⟩

theorem verdict_presentedAt {secs : Nat} (h : InTolerance secs 60 160) :
    (presentedAt secs).verdict datedAhead 60 = .ok ⟨[], [], [], 160, [], none⟩ := by
  rw [Call.verdict, verifyDpopProofCore_eq_ok_iff, presentedAt, Duration.asSecs_fromSecs]
  exact ⟨decodeProof_datedAhead _, rfl, rfl, h, rfl⟩

theorem accepted_presentedAt {secs : Nat} (h : InTolerance secs 60 160) :
    accepted datedAhead 60 (start 60 10 0 : ReplayState (LruList Str Nat))
      (.verify (presentedAt secs)) =
        [⟨⟨[], [], [], 160, [], none⟩, (presentedAt secs).time⟩] := by
  refine accepted_of_not_remembers (verdict_presentedAt h) rfl ?_
  rintro ⟨seen, hpeek, -⟩
  cases hpeek

theorem sharedRun_presentedAt {secs : Nat} (h : InTolerance secs 60 160) :
    SharedRun datedAhead 60 (start 60 10 0 : ReplayState (LruList Str Nat))
      [.verify (presentedAt secs)] where
  ordered := List.pairwise_singleton _ _
  few := by
    rintro cache hcache
    cases hcache
    rw [acceptances, accepted_presentedAt h]
    exact Nat.lt_of_sub_eq_succ rfl

end Oidc

end SolidPod
