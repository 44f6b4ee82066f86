import SolidPod.Foundation.ReplayMemory
import SolidPod.Security.RateLimitIsolation

/-!
# When to try again

A denied check is told after how many seconds to try again. Nothing is let through in
a bucket that is full until its oldest hit leaves the window, and then there is room;
the bucket is not dropped as long as fewer others are used than the cache holds.
-/

namespace SolidPod

open Foundation

open LruCache LawfulLruCache

open SlidingWindow (after)

namespace Security

/-! ## Whole seconds -/

/-- The seconds of a duration, rounded up. -/
def roundedUp (d : ℕ) : ℕ := (d + (nanosPerSec - 1)) / nanosPerSec

theorem ceilSecs_le (d : ℕ) : ceilSecs d ≤ roundedUp d := by
  rw [ceilSecs, roundedUp]
  have hnanos : nanosPerSec = 1000000000 := rfl
  rw [hnanos]
  split_ifs
  · omega
  · omega

theorem roundedUp_mono {d e : ℕ} (h : d ≤ e) : roundedUp d ≤ roundedUp e :=
  Nat.div_le_div_right (Nat.add_le_add_right h _)

/-- The seconds are enough, unless they are too many to be told. -/
theorem le_ceilSecs {d : ℕ} (h : d ≤ (2 ^ 64 - 1) * nanosPerSec) :
    d ≤ ceilSecs d * nanosPerSec := by
  have hpos : 0 < nanosPerSec := Nat.zero_lt_succ _
  rw [ceilSecs]
  by_cases hrest : 0 < d % nanosPerSec
  · rw [if_pos hrest]
    rcases Nat.le_total (d / nanosPerSec + 1) (2 ^ 64 - 1) with hle | hle
    · rw [Nat.min_eq_left hle]
      exact ((Nat.div_lt_iff_lt_mul hpos).mp (Nat.lt_succ_self _)).le
    · rw [Nat.min_eq_right hle]
      exact h
  · rw [if_neg hrest]
    exact (Nat.div_mul_cancel (Nat.dvd_of_mod_eq_zero (Nat.eq_zero_of_not_pos hrest))).ge

theorem le_ceilSecs_of_lt {d : ℕ} (h : (2 ^ 64 - 1) * nanosPerSec < d) :
    2 ^ 64 - 1 ≤ ceilSecs d := by
  have hle : 2 ^ 64 - 1 ≤ d / nanosPerSec := (Nat.le_div_iff_mul_le (Nat.zero_lt_succ _)).mpr h.le
  rw [ceilSecs]
  split_ifs
  · exact le_min (Nat.le_succ_of_le hle) le_rfl
  · exact hle

/-- A second less is not enough. -/
theorem lt_of_one_lt_ceilSecs {d : ℕ} (h : 1 < ceilSecs d) :
    (ceilSecs d - 1) * nanosPerSec < d := by
  rw [ceilSecs] at h ⊢
  have hnanos : nanosPerSec = 1000000000 := rfl
  rw [hnanos] at h ⊢
  split_ifs at h ⊢
  · omega
  · omega

namespace LruRateLimiter

/-! ## One bucket -/

/-- The hits of a bucket: no more than the policy allows, the oldest first, and none that
is still to come. -/
structure BucketOk (policy : RoutePolicy) (now : Int) (hits : List Int) : Prop where
  length_le : hits.length ≤ policy.max
  sorted : hits.Pairwise (· ≤ ·)
  past : ∀ t ∈ hits, t ≤ now

section Bucket

variable {earliest now : Int} {policy : RoutePolicy} {hits : List Int} {filed : Option (List Int)}

theorem prune_sublist (earliest now : Int) (window : ℕ) (hits : List Int) :
    (prune earliest now window hits).Sublist hits := by
  rw [prune]
  cases checkedSub earliest now window with
  | none => exact List.nil_sublist hits
  | some cutoff => exact List.filter_sublist

theorem BucketOk.sublist {hits' : List Int} (h : BucketOk policy now hits)
    (hsub : hits'.Sublist hits) : BucketOk policy now hits' where
  length_le := hsub.length_le.trans h.length_le
  sorted := h.sorted.sublist hsub
  past t ht := h.past t (hsub.subset ht)

theorem BucketOk.mono {later : Int} (h : BucketOk policy now hits) (hle : now ≤ later) :
    BucketOk policy later hits :=
  ⟨h.length_le, h.sorted, fun t ht => (h.past t ht).trans hle⟩

theorem bucketOk_nil (policy : RoutePolicy) (now : Int) : BucketOk policy now [] :=
  ⟨Nat.zero_le _, .nil, fun _ ht => absurd ht List.not_mem_nil⟩

theorem bucketOk_getD (h : ∀ hits, filed = some hits → BucketOk policy now hits) :
    BucketOk policy now (filed.getD []) := by
  cases filed with
  | none => exact bucketOk_nil policy now
  | some hits => exact h hits rfl

/-- What a check does to a bucket, as long as there are no more hits than there may be. -/
theorem serve_cases (earliest : Int) (h : ∀ hits, filed = some hits → BucketOk policy now hits) :
    (serve earliest policy now filed).1 = .allow ∧
        (prune earliest now policy.window (filed.getD [])).length < policy.max ∧
        (serve earliest policy now filed).2 =
          prune earliest now policy.window (filed.getD []) ++ [now] ∨
      (serve earliest policy now filed).1 ≠ .allow ∧
        (prune earliest now policy.window (filed.getD [])).length = policy.max ∧
        (serve earliest policy now filed).2 = prune earliest now policy.window (filed.getD []) := by
  have hok := (bucketOk_getD h).sublist (prune_sublist earliest now policy.window _)
  have hlt := policy.max_lt
  have hle := hok.length_le
  rw [serve]
  simp only
  rw [Nat.mod_eq_of_lt (by omega)]
  split_ifs with hfull
  · refine Or.inr ⟨?_, hle.antisymm hfull, rfl⟩
    intro heq
    cases heq
  · exact Or.inl ⟨rfl, Nat.not_le.mp hfull, rfl⟩

theorem bucketOk_serve (earliest : Int)
    (h : ∀ hits, filed = some hits → BucketOk policy now hits) :
    BucketOk policy now (serve earliest policy now filed).2 := by
  have hok := (bucketOk_getD h).sublist (prune_sublist earliest now policy.window _)
  obtain ⟨-, hroom, hhits⟩ | ⟨-, -, hhits⟩ := serve_cases earliest h
  · rw [hhits]
    refine ⟨?_, ?_, ?_⟩
    · rw [List.length_append, List.length_singleton]
      exact hroom
    · rw [List.pairwise_append]
      refine ⟨hok.sorted, List.pairwise_singleton _ _, ?_⟩
      intro t ht u hu
      rw [List.mem_singleton.mp hu]
      exact hok.past t ht
    · intro t ht
      rcases List.mem_append.mp ht with ht | ht
      · exact hok.past t ht
      · exact (List.mem_singleton.mp ht).le
  · rw [hhits]
    exact hok

/-- What is known of a bucket when a check was denied. -/
structure Full (earliest now : Int) (policy : RoutePolicy) (retryAfterSecs : ℕ)
    (hits : List Int) : Prop where
  length_eq : hits.length = policy.max
  representable : earliest ≤ now - policy.window
  oldest : ∃ oldest rest, hits = oldest :: rest ∧ now - policy.window < oldest ∧ oldest ≤ now ∧
    (∀ t ∈ rest, oldest ≤ t) ∧
      retryAfterSecs = max (ceilSecs (policy.window - (now - oldest).toNat)) 1

theorem full_of_deny {r limit windowSecs : ℕ}
    (h : ∀ hits, filed = some hits → BucketOk policy now hits)
    (hdeny : (serve earliest policy now filed).1 = .deny r limit windowSecs) :
    Full earliest now policy r (serve earliest policy now filed).2 := by
  have hok := (bucketOk_getD h).sublist (prune_sublist earliest now policy.window _)
  have hpos := policy.max_pos
  obtain ⟨hallow, -⟩ | ⟨-, hlength, hhits⟩ := serve_cases earliest h
  · rw [hallow] at hdeny
    cases hdeny
  · rw [hhits]
    cases hpruned : prune earliest now policy.window (filed.getD []) with
    | nil =>
        rw [hpruned, List.length_nil] at hlength
        omega
    | cons oldest rest =>
        have hmem : oldest ∈ prune earliest now policy.window (filed.getD []) := by
          rw [hpruned]
          exact List.mem_cons_self
        have hcutoff : earliest ≤ now - policy.window ∧ now - policy.window < oldest := by
          rw [prune, checkedSub] at hmem
          split_ifs at hmem with hle
          · exact ⟨hle, of_decide_eq_true (List.mem_filter.mp hmem).2⟩
          · cases hmem
        have hpast := hok.past oldest hmem
        have hsorted := hok.sorted
        rw [hpruned] at hsorted hlength
        refine ⟨hlength, hcutoff.1, oldest, rest, rfl, hcutoff.2, hpast,
          (List.pairwise_cons.mp hsorted).1, ?_⟩
        have hlt := policy.max_lt
        rw [serve] at hdeny
        simp only at hdeny
        rw [hpruned, Nat.mod_eq_of_lt (by omega), if_pos hlength.ge] at hdeny
        cases hdeny
        rfl

/-- A check is let through once the oldest hit is not in its window. -/
theorem allow_of_oldest_le {oldest : Int} {rest : List Int}
    (hlength : (oldest :: rest).length = policy.max)
    (hok : ∀ hits, filed = some hits → BucketOk policy now hits)
    (hfiled : filed = none ∨ filed = some (oldest :: rest)) (hle : oldest ≤ now - policy.window) :
    (serve earliest policy now filed).1 = .allow := by
  have hpos := policy.max_pos
  have hroom : (prune earliest now policy.window (filed.getD [])).length < policy.max := by
    rcases hfiled with rfl | rfl
    · exact lt_of_le_of_lt (prune_sublist _ _ _ _).length_le hpos
    · rw [Option.getD_some, prune]
      cases hcutoff : checkedSub earliest now policy.window with
      | none => exact hpos
      | some cutoff =>
          have heq : cutoff = now - policy.window := by
            rw [checkedSub] at hcutoff
            split_ifs at hcutoff
            exact (Option.some.inj hcutoff).symm
          have hout : ¬ decide (cutoff < oldest) = true := by
            rw [heq, decide_eq_true_iff, not_lt]
            exact hle
          simp only
          rw [List.filter_cons, if_neg hout, ← hlength, List.length_cons]
          exact Nat.lt_succ_of_le (List.length_filter_le _ _)
  obtain ⟨hallow, -⟩ | ⟨-, hfull, -⟩ := serve_cases earliest hok
  · exact hallow
  · omega

/-- A check is denied while all the hits of a full bucket are in its window. -/
theorem deny_of_lt_oldest {oldest : Int} {rest : List Int}
    (hlength : (oldest :: rest).length = policy.max)
    (hok : BucketOk policy now (oldest :: rest)) (hrest : ∀ t ∈ rest, oldest ≤ t)
    (hrepresentable : earliest ≤ now - policy.window) (hlt : now - policy.window < oldest) :
    (serve earliest policy now (some (oldest :: rest))).1 ≠ .allow := by
  have hall : prune earliest now policy.window (oldest :: rest) = oldest :: rest := by
    rw [prune, checkedSub, if_pos hrepresentable]
    refine List.filter_eq_self.mpr fun t ht => decide_eq_true ?_
    rcases List.mem_cons.mp ht with rfl | ht
    · exact hlt
    · exact hlt.trans_le (hrest t ht)
  have hfiled : ∀ hits, some (oldest :: rest) = some hits → BucketOk policy now hits := by
    intro hits heq
    rw [← Option.some.inj heq]
    exact hok
  obtain ⟨-, hroom, -⟩ | ⟨hdeny, -⟩ := serve_cases earliest hfiled
  · rw [Option.getD_some, hall, hlength] at hroom
    exact absurd hroom (Nat.lt_irrefl _)
  · exact hdeny

end Bucket

/-! ## Runs -/

variable {L : Type*} [LruCache L Str (List Int)]

/-- A clock that counts its seconds in 64 bits can show the time of the check. -/
def Shown (earliest : Int) (c : Check) : Prop :=
  earliest ≤ c.now ∧ c.now < earliest + 2 ^ 64 * nanosPerSec

/-- What a denied check is told of the next check of its key. `room` is what the checks in
between must leave. -/
structure RetryAfter (earliest : Int) (lim : LruRateLimiter L) (room : List Check → Prop)
    (checks : List Check) : Prop where
  /-- After that many seconds a check is let through. -/
  sufficient : ∀ pre c mid d post r limit windowSecs, checks = pre ++ c :: (mid ++ d :: post) →
    ((lim.afterChecks earliest pre).check earliest c).1 = .deny r limit windowSecs →
    d.key = c.key → (∀ e ∈ mid, e.key ≠ c.key) → c.now + r * nanosPerSec ≤ d.now →
    ((lim.afterChecks earliest (pre ++ c :: mid)).check earliest d).1 = .allow
  /-- One second earlier it is still denied. -/
  tight : ∀ pre c mid d post r limit windowSecs, checks = pre ++ c :: (mid ++ d :: post) →
    ((lim.afterChecks earliest pre).check earliest c).1 = .deny r limit windowSecs →
    d.key = c.key → (∀ e ∈ mid, e.key ≠ c.key) → room mid → 1 < r →
    d.now = c.now + (r - 1) * nanosPerSec →
    ((lim.afterChecks earliest (pre ++ c :: mid)).check earliest d).1 ≠ .allow
  bounded : ∀ pre c post r limit windowSecs, checks = pre ++ c :: post →
    ((lim.afterChecks earliest pre).check earliest c).1 = .deny r limit windowSecs →
    r ≤ max (roundedUp (lim.policyFor c.key.route).window) 1

/-- Fewer other buckets are used than the cache holds. -/
def FewOthers (capacity : ℕ) (mid : List Check) : Prop :=
  (mid.map bucketName).toFinset.card < max capacity 1

variable {earliest now : Int} {lim : LruRateLimiter L} {pre mid : List Check} {c d : Check}
  {key : RateLimitKey}

theorem policyFor_afterChecks (pre : List Check) :
    (lim.afterChecks earliest pre).policyFor = lim.policyFor := by
  induction pre using List.reverseRecOn with
  | nil => rfl
  | append_singleton pre d ih =>
      rw [afterChecks_concat, check, checkSync_eq]
      exact ih

theorem buckets_afterChecks_concat (pre : List Check) (d : Check) :
    (lim.afterChecks earliest (pre ++ [d])).buckets =
      put (lim.afterChecks earliest pre).buckets d.key.canonical
        (serve earliest (lim.policyFor d.key.route) d.now
          (peek (lim.afterChecks earliest pre).buckets d.key.canonical)).2 := by
  rw [afterChecks_concat, check, checkSync_eq, policyFor_afterChecks]

theorem fst_check_afterChecks (pre : List Check) (d : Check) :
    ((lim.afterChecks earliest pre).check earliest d).1 =
      (serve earliest (lim.policyFor d.key.route) d.now
        (peek (lim.afterChecks earliest pre).buckets d.key.canonical)).1 := by
  rw [check, checkSync_eq, policyFor_afterChecks]

/-- The bucket of a key that shares it with no other one is in order after every run. -/
theorem bucketOk_afterChecks [OrderedLruCache L] (hempty : ∀ s, peek lim.buckets s = none)
    (hsorted : pre.Pairwise fun c d => c.now ≤ d.now)
    (hapart : ∀ d ∈ pre, d.key.canonical = key.canonical → d.key = key)
    (hnow : ∀ d ∈ pre, d.now ≤ now) :
    ∀ hits, peek (lim.afterChecks earliest pre).buckets key.canonical = some hits →
      BucketOk (lim.policyFor key.route) now hits := by
  induction pre using List.reverseRecOn generalizing now with
  | nil =>
      intro hits hpeek
      rw [afterChecks, Lockstep.final_nil, hempty] at hpeek
      cases hpeek
  | append_singleton pre d ih =>
      intro hits hpeek
      rw [List.pairwise_append] at hsorted
      have hd : d.now ≤ now := hnow d (List.mem_append_right _ List.mem_cons_self)
      have hpre : ∀ e ∈ pre, e.now ≤ d.now := fun e he => hsorted.2.2 e he d List.mem_cons_self
      have hapart' : ∀ e ∈ pre, e.key.canonical = key.canonical → e.key = key :=
        fun e he => hapart e (List.mem_append_left _ he)
      rw [buckets_afterChecks_concat] at hpeek
      by_cases hsame : d.key.canonical = key.canonical
      · have hkey := hapart d (List.mem_append_right _ List.mem_cons_self) hsame
        rw [← hsame, peek_put_self] at hpeek
        cases hpeek
        rw [hkey]
        exact (bucketOk_serve earliest (ih hsorted.1 hapart' hpre)).mono hd
      · exact (ih hsorted.1 hapart' hpre hits (peek_of_peek_put hsame hpeek)).mono hd

theorem cap_afterChecks [LawfulLruCache L] (pre : List Check) :
    cap (lim.afterChecks earliest pre).buckets = cap lim.buckets := by
  induction pre using List.reverseRecOn with
  | nil => rfl
  | append_singleton pre d ih => rw [buckets_afterChecks_concat, cap_put, ih]

section Later

variable [OrderedLruCache L] {hits : List Int}

/-- What the checks of other buckets leave of a bucket: all of it, or nothing. -/
theorem filed_later (hself : peek (lim.afterChecks earliest (pre ++ [c])).buckets c.key.canonical =
      some hits) (hmid : ∀ e ∈ mid, e.key.canonical ≠ c.key.canonical) :
    peek (lim.afterChecks earliest (pre ++ c :: mid)).buckets c.key.canonical = none ∨
      peek (lim.afterChecks earliest (pre ++ c :: mid)).buckets c.key.canonical = some hits := by
  induction mid using List.reverseRecOn with
  | nil => exact Or.inr hself
  | append_singleton mid e ih =>
      have hrest := ih fun e' he' => hmid e' (List.mem_append_left _ he')
      have hne := hmid e (List.mem_append_right _ List.mem_cons_self)
      rw [← List.cons_append, ← List.append_assoc, buckets_afterChecks_concat]
      cases hpeek : peek (put (lim.afterChecks earliest (pre ++ c :: mid)).buckets
          e.key.canonical (serve earliest (lim.policyFor e.key.route) e.now
            (peek (lim.afterChecks earliest (pre ++ c :: mid)).buckets e.key.canonical)).2)
          c.key.canonical with
      | none => exact Or.inl rfl
      | some hits' =>
          have hbefore := peek_of_peek_put hne hpeek
          rcases hrest with hnone | hsome
          · rw [hnone] at hbefore
            cases hbefore
          · rw [hsome] at hbefore
            exact Or.inr hbefore.symm

/-- Fewer other buckets than the cache holds do not drop it. -/
theorem behind_later (hself : Behind (lim.afterChecks earliest (pre ++ [c])).buckets
      c.key.canonical hits ∅) (hmid : ∀ e ∈ mid, e.key.canonical ≠ c.key.canonical)
    (hfew : (mid.map bucketName).toFinset.card < cap lim.buckets) :
    Behind (lim.afterChecks earliest (pre ++ c :: mid)).buckets c.key.canonical hits
      (mid.map bucketName).toFinset := by
  induction mid using List.reverseRecOn with
  | nil => exact hself
  | append_singleton mid e ih =>
      have hne := hmid e (List.mem_append_right _ List.mem_cons_self)
      have hnames : ((mid ++ [e]).map bucketName).toFinset =
          insert e.key.canonical (mid.map bucketName).toFinset := by
        rw [List.map_append, List.toFinset_append, List.map_singleton, List.toFinset_cons,
          List.toFinset_nil, insert_empty_eq, Finset.union_comm, ← Finset.insert_eq]
        rfl
      rw [hnames] at hfew ⊢
      have hrest := ih (fun e' he' => hmid e' (List.mem_append_left _ he'))
        (lt_of_le_of_lt (Finset.card_le_card (Finset.subset_insert _ _)) hfew)
      rw [← List.cons_append, ← List.append_assoc, buckets_afterChecks_concat]
      rcases hrest.put hne _ with hbehind | hfull
      · exact hbehind
      · rw [cap_afterChecks] at hfull
        exact absurd hfew (Nat.not_lt.mpr hfull)

end Later

/-- The wait that a denied check is told ends when the oldest hit leaves the window. -/
theorem le_of_retryAfter {oldest t t' : Int} {window r : ℕ}
    (hr : r = max (ceilSecs (window - (t - oldest).toNat)) 1) (hpast : oldest ≤ t)
    (hshown : earliest ≤ t - window) (hlater : t + r * nanosPerSec ≤ t')
    (hend : t' < earliest + 2 ^ 64 * nanosPerSec) : oldest ≤ t' - window := by
  by_cases hfits : window - (t - oldest).toNat ≤ (2 ^ 64 - 1) * nanosPerSec
  · have henough := (le_ceilSecs hfits).trans
      (Nat.mul_le_mul_right nanosPerSec ((le_max_left _ 1).trans_eq hr.symm))
    have hcast : ((window - (t - oldest).toNat : ℕ) : Int) ≤ r * nanosPerSec := by
      exact_mod_cast henough
    omega
  · have hlong : 2 ^ 64 - 1 ≤ r := hr ▸ (le_ceilSecs_of_lt (Nat.not_le.mp hfits)).trans
      (le_max_left _ 1)
    have hmany : (((2 ^ 64 - 1) * nanosPerSec : ℕ) : Int) ≤ r * nanosPerSec := by
      exact_mod_cast Nat.mul_le_mul_right nanosPerSec hlong
    have hlast : (2 ^ 64 * nanosPerSec : Int) =
        ((2 ^ 64 - 1) * nanosPerSec : ℕ) + nanosPerSec := by
      decide
    have hsecond : nanosPerSec ≤ (2 ^ 64 - 1) * nanosPerSec := by decide
    rw [hlast] at hend
    generalize (2 ^ 64 - 1) * nanosPerSec = most at hfits hmany hend hsecond
    omega

/-- One second before its end the oldest hit is still in the window. -/
theorem lt_of_retryAfter {oldest t : Int} {window r : ℕ}
    (hr : r = max (ceilSecs (window - (t - oldest).toNat)) 1) (hone : 1 < r)
    (hpast : oldest ≤ t) : t + (r - 1) * nanosPerSec - window < oldest := by
  have heq : r = ceilSecs (window - (t - oldest).toNat) := by
    rw [hr] at hone ⊢
    exact max_eq_left (by omega)
  have hbound := lt_of_one_lt_ceilSecs (heq ▸ hone)
  rw [← heq] at hbound
  have hcast : ((r : Int) - 1) * nanosPerSec < (window - (t - oldest).toNat : ℕ) := by
    have hnat : (((r - 1) * nanosPerSec : ℕ) : Int) < (window - (t - oldest).toNat : ℕ) := by
      exact_mod_cast hbound
    rwa [Int.natCast_mul, Int.ofNat_sub hone.le] at hnat
  omega

/-- What a denial leaves behind: a full bucket, first in the cache. -/
theorem full_of_denied [OrderedLruCache L] {r limit windowSecs : ℕ}
    (hempty : ∀ s, peek lim.buckets s = none)
    (hsorted : pre.Pairwise fun c d => c.now ≤ d.now)
    (hapart : ∀ d ∈ pre, d.key.canonical = c.key.canonical → d.key = c.key)
    (hnow : ∀ d ∈ pre, d.now ≤ c.now)
    (hdeny : ((lim.afterChecks earliest pre).check earliest c).1 = .deny r limit windowSecs) :
    ∃ hits, Full earliest c.now (lim.policyFor c.key.route) r hits ∧
      Behind (lim.afterChecks earliest (pre ++ [c])).buckets c.key.canonical hits ∅ := by
  rw [fst_check_afterChecks] at hdeny
  refine ⟨_, full_of_deny (bucketOk_afterChecks hempty hsorted hapart hnow) hdeny, ?_⟩
  rw [buckets_afterChecks_concat]
  exact behind_put_self _ _ _

/-- In a run on a clock with 64 bits for its seconds, in which no two keys share a bucket, a
denied check is let through after the seconds it is told and, unless as many other buckets
were used as the cache holds, not one second earlier; nor are they more than the window. -/
theorem retryAfter_of_apart [OrderedLruCache L] (earliest : Int) (capacity : ℕ)
    (policies : List RoutePolicy) (checks : List Check)
    (hsorted : checks.Pairwise fun c d => c.now ≤ d.now)
    (hshown : ∀ c ∈ checks, Shown earliest c)
    (hapart : ∀ c ∈ checks, ∀ d ∈ checks, c.key.canonical = d.key.canonical → c.key = d.key) :
    RetryAfter earliest (withCapacityAndPolicies capacity policies : LruRateLimiter L)
      (FewOthers capacity) checks := by
  have hempty (s : Str) :
      peek (withCapacityAndPolicies capacity policies : LruRateLimiter L).buckets s = none :=
    peek_new _ s
  have hcap : (cap (withCapacityAndPolicies capacity policies : LruRateLimiter L).buckets : ℕ) =
      max capacity 1 := by
    rw [withCapacityAndPolicies, cap_new, Nat.toPNat'_coe, if_pos (by omega)]
  generalize (withCapacityAndPolicies capacity policies : LruRateLimiter L) = lim at hempty hcap ⊢
  have hdenied : ∀ pre c post r limit windowSecs, checks = pre ++ c :: post →
      ((lim.afterChecks earliest pre).check earliest c).1 = .deny r limit windowSecs →
      ∃ hits, Full earliest c.now (lim.policyFor c.key.route) r hits ∧
        Behind (lim.afterChecks earliest (pre ++ [c])).buckets c.key.canonical hits ∅ := by
    intro pre c post r limit windowSecs heq hdeny
    rw [heq] at hsorted hapart
    have hc : c ∈ pre ++ c :: post := List.mem_append_right _ List.mem_cons_self
    rw [List.pairwise_append] at hsorted
    exact full_of_denied hempty hsorted.1
      (fun d hd => hapart d (List.mem_append_left _ hd) c hc)
      (fun d hd => hsorted.2.2 d hd c List.mem_cons_self) hdeny
  have hothers : ∀ pre c mid d post, checks = pre ++ c :: (mid ++ d :: post) →
      (∀ e ∈ mid, e.key ≠ c.key) → ∀ e ∈ mid, e.key.canonical ≠ c.key.canonical := by
    rintro pre c mid d post rfl hmid e he hsame
    exact hmid e he (hapart e (by simp [he]) c (by simp) hsame)
  have hbucket : ∀ pre c mid d post, checks = pre ++ c :: (mid ++ d :: post) → d.key = c.key →
      ∀ hits, peek (lim.afterChecks earliest (pre ++ c :: mid)).buckets c.key.canonical =
        some hits → BucketOk (lim.policyFor c.key.route) d.now hits := by
    intro pre c mid d post heq hkey
    have hrun : checks = (pre ++ c :: mid) ++ d :: post := by rw [heq]; simp
    rw [hrun] at hsorted hapart
    have hd : d ∈ pre ++ c :: mid ++ d :: post := List.mem_append_right _ List.mem_cons_self
    rw [List.pairwise_append] at hsorted
    rw [← hkey]
    exact bucketOk_afterChecks hempty hsorted.1
      (fun e he => hapart e (List.mem_append_left _ he) d hd)
      (fun e he => hsorted.2.2 e he d List.mem_cons_self)
  refine ⟨?_, ?_, ?_⟩
  · intro pre c mid d post r limit windowSecs heq hdeny hkey hmid hlater
    obtain ⟨hits, hfull, hbehind⟩ := hdenied pre c _ r limit windowSecs heq hdeny
    obtain ⟨oldest, rest, rfl, -, hpast, -, hr⟩ := hfull.oldest
    have hend := (hshown d (by simp [heq])).2
    have hfiled := filed_later hbehind.peek_eq (hothers pre c mid d post heq hmid)
    rw [fst_check_afterChecks, hkey]
    exact allow_of_oldest_le hfull.length_eq (hbucket pre c mid d post heq hkey) hfiled
      (le_of_retryAfter hr hpast hfull.representable hlater hend)
  · intro pre c mid d post r limit windowSecs heq hdeny hkey hmid hfew hone htime
    obtain ⟨hits, hfull, hbehind⟩ := hdenied pre c _ r limit windowSecs heq hdeny
    obtain ⟨oldest, rest, rfl, -, hpast, hrest, hr⟩ := hfull.oldest
    have hfew' : (mid.map bucketName).toFinset.card < cap lim.buckets := by
      rw [hcap]
      exact hfew
    have hpeek := (behind_later hbehind (hothers pre c mid d post heq hmid) hfew').peek_eq
    have hwait : c.now ≤ d.now := by
      have hsecs : (0 : Int) ≤ (r - 1) * nanosPerSec := Int.mul_nonneg (by omega) (by decide)
      omega
    rw [fst_check_afterChecks, hkey, hpeek]
    refine deny_of_lt_oldest hfull.length_eq (hbucket pre c mid d post heq hkey _ hpeek) hrest ?_ ?_
    · exact hfull.representable.trans (by omega)
    · rw [htime]
      exact lt_of_retryAfter hr hone hpast
  · intro pre c post r limit windowSecs heq hdeny
    obtain ⟨hits, hfull, -⟩ := hdenied pre c post r limit windowSecs heq hdeny
    obtain ⟨oldest, rest, -, -, -, -, rfl⟩ := hfull.oldest
    exact max_le_max_right 1 ((ceilSecs_le _).trans (roundedUp_mono (Nat.sub_le _ _)))

/-! ## A bucket that was dropped -/

theorem one_lt_of_32_bits : 1 < 2 ^ 32 := by decide

theorem tenSecs_pos : 0 < 10 * nanosPerSec := by decide

/-- One hit in ten seconds. -/
def oncePerTenSecs : RoutePolicy where
  route := ['r']
  max := 1
  window := 10 * nanosPerSec
  max_pos := Nat.one_pos
  max_lt := one_lt_of_32_bits
  window_pos := tenSecs_pos

def hitOf (client : Char) (secs : ℕ) : Check :=
  ⟨⟨['r'], .custom [client]⟩, 10 * nanosPerSec + secs * nanosPerSec⟩

theorem retryAfter_of_apart_hitOf :
    RetryAfter 0 (withCapacityAndPolicies 1 [oncePerTenSecs] : LruRateLimiter Buckets)
      (FewOthers 1) [hitOf 'a' 0, hitOf 'a' 0, hitOf 'a' 9] := by
  refine retryAfter_of_apart 0 1 [oncePerTenSecs] _ (by decide) ?_ ?_
  · unfold Shown
    decide
  · decide

/-- The check of another client drops the only bucket, and the denied client is let through
one second early. -/
theorem dropped_not_retryAfter :
    ¬ ∀ (earliest : Int) (capacity : ℕ) (policies : List RoutePolicy) (checks : List Check),
      (checks.Pairwise fun c d => c.now ≤ d.now) → (∀ c ∈ checks, Shown earliest c) →
      (∀ c ∈ checks, ∀ d ∈ checks, c.key.canonical = d.key.canonical → c.key = d.key) →
      RetryAfter earliest (withCapacityAndPolicies capacity policies : LruRateLimiter Buckets)
        (fun _ => True) checks := by
  intro h
  have hholds := h 0 1 [oncePerTenSecs]
    [hitOf 'a' 0, hitOf 'a' 0, hitOf 'b' 1, hitOf 'a' 9] (by decide)
    (by unfold Shown; decide) (by decide)
  refine hholds.tight [hitOf 'a' 0] (hitOf 'a' 0) [hitOf 'b' 1] (hitOf 'a' 9) [] 10 1 10 rfl ?_ rfl
    ?_ trivial ?_ ?_ ?_
  · decide
  · decide
  · decide
  · decide
  · decide

end LruRateLimiter

end Security

end SolidPod
