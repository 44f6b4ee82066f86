import SolidPod.Foundation.Lockstep
import SolidPod.Security.RateLimit

/-!
# What the rate limiter lets through

The hits of a key that are still in its window are those that were let through.
So no window holds more of them than the policy allows, as long as the limiter
can tell where the window begins, and as long as no two keys share a bucket.
-/

namespace SolidPod

open Foundation

open SlidingWindow (after Limited)

namespace Security

structure Check where
  key : RateLimitKey
  now : Int

namespace LruRateLimiter

variable {L : Type*} [LruCache L Str (List Int)]

open LruCache

def check (earliest : Int) (lim : LruRateLimiter L) (c : Check) :
    RateLimitDecision × LruRateLimiter L :=
  lim.checkSync earliest c.key c.now

/-- The limiter after some checks. -/
abbrev afterChecks (earliest : Int) (lim : LruRateLimiter L) (checks : List Check) :
    LruRateLimiter L :=
  Lockstep.final (check earliest) lim checks

/-- The instants at which a key was let through. -/
def allowed (earliest : Int) (lim : LruRateLimiter L) (key : RateLimitKey) :
    List Check → List Int
  | [] => []
  | c :: checks =>
    (if c.key = key ∧ (lim.check earliest c).1 = .allow then [c.now] else []) ++
      allowed earliest (lim.check earliest c).2 key checks

/-- No window of a key holds more hits than its policy allows, and a check is
denied only if the window before it is full. -/
structure Slides (earliest : Int) (lim : LruRateLimiter L) (checks : List Check) : Prop where
  limit : ∀ key (a : Int),
    ((lim.allowed earliest key checks).countP fun t =>
      a ≤ t ∧ t < a + (lim.policyFor key.route).window) ≤ (lim.policyFor key.route).max ∧
    ((lim.allowed earliest key checks).countP fun t =>
      a < t ∧ t ≤ a + (lim.policyFor key.route).window) ≤ (lim.policyFor key.route).max
  denied : ∀ pre c post, checks = pre ++ c :: post →
    ((lim.afterChecks earliest pre).check earliest c).1 ≠ .allow →
    (lim.policyFor c.key.route).max ≤ (lim.allowed earliest c.key pre).countP fun t =>
      c.now - (lim.policyFor c.key.route).window < t ∧ t ≤ c.now

/-- The limiter can tell where the window of each check begins, and no two keys
share a bucket. -/
structure Tellable (earliest : Int) (lim : LruRateLimiter L) (checks : List Check) : Prop where
  representable : ∀ c ∈ checks,
    (checkedSub earliest c.now (lim.policyFor c.key.route).window).isSome
  apart : ∀ c ∈ checks, ∀ d ∈ checks, c.key.canonical = d.key.canonical → c.key = d.key

variable {earliest : Int} {lim : LruRateLimiter L} {checks pre : List Check} {c : Check}
  {key : RateLimitKey}

theorem afterChecks_concat (pre : List Check) (c : Check) :
    lim.afterChecks earliest (pre ++ [c]) = ((lim.afterChecks earliest pre).check earliest c).2 :=
  List.foldl_append

theorem allowed_concat (pre : List Check) (c : Check) :
    lim.allowed earliest key (pre ++ [c]) = lim.allowed earliest key pre ++
      (if c.key = key ∧ ((lim.afterChecks earliest pre).check earliest c).1 = .allow then [c.now]
        else []) := by
  induction pre generalizing lim with
  | nil => rw [List.nil_append, allowed, allowed, allowed, List.append_nil]; rfl
  | cons d pre ih => rw [List.cons_append, allowed, allowed, ih, List.append_assoc]; rfl

theorem exists_of_mem_allowed {t : Int} (h : t ∈ lim.allowed earliest key checks) :
    ∃ c ∈ checks, c.key = key ∧ c.now = t := by
  induction checks generalizing lim with
  | nil => cases h
  | cons d checks ih =>
      rw [allowed] at h
      rcases List.mem_append.mp h with h | h
      · split_ifs at h with hd
        · exact ⟨d, List.mem_cons_self, hd.1, (List.mem_singleton.mp h).symm⟩
        · cases h
      · obtain ⟨c, hc, hkey, hnow⟩ := ih h
        exact ⟨c, List.mem_cons_of_mem d hc, hkey, hnow⟩

theorem prune_of_isSome {now : Int} {window : Nat} (h : (checkedSub earliest now window).isSome)
    (hits : List Int) : prune earliest now window hits = after (now - window) hits := by
  rw [checkedSub] at h
  split_ifs at h with hle
  · rw [prune, checkedSub, if_pos hle]
    rfl
  · cases h

/-- The hits of a key, as far as the limiter remembers them. -/
def hits (lim : LruRateLimiter L) (key : RateLimitKey) : List Int :=
  (peek lim.buckets key.canonical).getD []

/-- What a check does if the limiter can tell where its window begins. -/
theorem check_eq (h : (checkedSub earliest c.now (lim.policyFor c.key.route).window).isSome)
    (hlength : (after (c.now - (lim.policyFor c.key.route).window) (lim.hits c.key)).length ≤
      (lim.policyFor c.key.route).max) :
    ∃ decision hits, lim.check earliest c =
        (decision, { lim with buckets := put lim.buckets c.key.canonical hits }) ∧
      (decision ≠ .allow ∧ hits = after (c.now - (lim.policyFor c.key.route).window)
          (lim.hits c.key) ∧ hits.length = (lim.policyFor c.key.route).max ∨
        decision = .allow ∧ hits = after (c.now - (lim.policyFor c.key.route).window)
          (lim.hits c.key) ++ [c.now] ∧ hits.length ≤ (lim.policyFor c.key.route).max) := by
  have hlt := (lim.policyFor c.key.route).max_lt
  rw [check, checkSync, prune_of_isSome h]
  simp only
  rw [← LruRateLimiter.hits, Nat.mod_eq_of_lt (by omega)]
  split_ifs with hfull
  · refine ⟨_, _, rfl, Or.inl ⟨fun heq => ?_, rfl, by omega⟩⟩
    cases heq
  · refine ⟨_, _, rfl, Or.inr ⟨rfl, rfl, ?_⟩⟩
    rw [List.length_append, List.length_singleton]
    omega

/-! ## The invariant -/

/-- The limiter remembers what was let through as far as it will be asked. -/
structure Remembers (earliest : Int) (lim : LruRateLimiter L) (pre : List Check)
    (keys : RateLimitKey → Prop) : Prop where
  policyFor : ∀ route, (lim.afterChecks earliest pre).policyFor route = lim.policyFor route
  capacity : cap (lim.afterChecks earliest pre).buckets = cap lim.buckets
  stored : ∀ s, (peek (lim.afterChecks earliest pre).buckets s).isSome →
    ∃ d ∈ pre, d.key.canonical = s
  hits : ∀ key, keys key → ∀ now, (∀ d ∈ pre, d.now ≤ now) →
    ∀ cutoff, now - (lim.policyFor key.route).window ≤ cutoff →
      after cutoff ((lim.afterChecks earliest pre).hits key) =
        after cutoff (lim.allowed earliest key pre)
  limited : ∀ key, keys key →
    Limited (lim.policyFor key.route).max (lim.policyFor key.route).window
      (lim.allowed earliest key pre)

variable {keys : RateLimitKey → Prop}

theorem Remembers.length_le (h : Remembers earliest lim pre keys) (hc : keys c.key)
    (hnow : ∀ d ∈ pre, d.now ≤ c.now) :
    (after (c.now - (lim.policyFor c.key.route).window)
      (lim.allowed earliest c.key pre)).length ≤ (lim.policyFor c.key.route).max := by
  have hcount : (after (c.now - (lim.policyFor c.key.route).window)
      (lim.allowed earliest c.key pre)).length ≤
      (lim.allowed earliest c.key pre).countP fun t =>
        c.now - (lim.policyFor c.key.route).window < t ∧
          t ≤ c.now - (lim.policyFor c.key.route).window + (lim.policyFor c.key.route).window := by
    rw [after, ← List.countP_eq_length_filter]
    refine List.countP_mono_left fun t ht hlt => ?_
    obtain ⟨d, hd, -, rfl⟩ := exists_of_mem_allowed ht
    have hle := hnow d hd
    rw [decide_eq_true_iff] at hlt ⊢
    omega
  exact hcount.trans ((h.limited c.key hc).countP_Ioc_le _)

/-- What a check does to what is remembered. -/
theorem Remembers.concat [LawfulLruCache L] (h : Remembers earliest lim pre keys)
    (hc : keys c.key)
    (hnow : ∀ d ∈ pre, d.now ≤ c.now)
    (htell : (checkedSub earliest c.now (lim.policyFor c.key.route).window).isSome)
    (hapart : ∀ key, keys key → key.canonical = c.key.canonical → key = c.key)
    (hroom : (iter (lim.afterChecks earliest pre).buckets).length < cap lim.buckets) :
    Remembers earliest lim (pre ++ [c]) keys ∧
      (((lim.afterChecks earliest pre).check earliest c).1 ≠ .allow →
        (after (c.now - (lim.policyFor c.key.route).window)
          (lim.allowed earliest c.key pre)).length = (lim.policyFor c.key.route).max) := by
  have hpolicy := h.policyFor c.key.route
  have hwindow := h.hits c.key hc c.now hnow (c.now - (lim.policyFor c.key.route).window)
    (le_refl _)
  have hle := h.length_le hc hnow
  rw [← hwindow] at hle
  rw [← hpolicy] at htell hle
  obtain ⟨decision, hits, hcheck, hcases⟩ := check_eq htell hle
  rw [hpolicy, hwindow] at hcases
  have hnext : lim.afterChecks earliest (pre ++ [c]) = { lim.afterChecks earliest pre with
      buckets := put (lim.afterChecks earliest pre).buckets c.key.canonical hits } := by
    rw [afterChecks_concat, hcheck]
  have hdecision : ((lim.afterChecks earliest pre).check earliest c).1 = decision := by
    rw [hcheck]
  have hself : (lim.afterChecks earliest (pre ++ [c])).hits c.key = hits := by
    rw [hnext, LruRateLimiter.hits, LawfulLruCache.peek_put_self, Option.getD_some]
  have hothers : ∀ s, s ≠ c.key.canonical →
      peek (lim.afterChecks earliest (pre ++ [c])).buckets s =
        peek (lim.afterChecks earliest pre).buckets s := by
    intro s hs
    rw [hnext]
    refine LawfulLruCache.peek_put_of_ne hits hs (Or.inr ?_)
    rw [h.capacity]
    exact hroom
  have hkeep : ∀ key, key ≠ c.key →
      lim.allowed earliest key (pre ++ [c]) = lim.allowed earliest key pre := by
    intro key hne
    rw [allowed_concat, if_neg fun hkey => hne hkey.1.symm, List.append_nil]
  refine ⟨⟨?_, ?_, ?_, ?_, ?_⟩, ?_⟩
  · intro route
    rw [hnext]
    exact h.policyFor route
  · rw [hnext, LawfulLruCache.cap_put, h.capacity]
  · intro s hs
    by_cases hkey : s = c.key.canonical
    · exact ⟨c, List.mem_append_right _ List.mem_cons_self, hkey.symm⟩
    · rw [hothers s hkey] at hs
      obtain ⟨d, hd, heq⟩ := h.stored s hs
      exact ⟨d, List.mem_append_left _ hd, heq⟩
  · intro key hkey now hnow' cutoff hcutoff
    have hlater : c.now ≤ now := hnow' c (List.mem_append_right _ List.mem_cons_self)
    by_cases hsame : key = c.key
    · subst hsame
      have hearlier : c.now - (lim.policyFor c.key.route).window ≤ cutoff := by omega
      rw [hself, allowed_concat, hdecision]
      rcases hcases with ⟨hdeny, rfl, -⟩ | ⟨hallow, rfl, -⟩
      · rw [SlidingWindow.after_after hearlier, if_neg fun hallow => hdeny hallow.2,
          List.append_nil]
      · rw [SlidingWindow.after_append, SlidingWindow.after_after hearlier,
          if_pos ⟨rfl, hallow⟩, SlidingWindow.after_append]
    · have hne : key.canonical ≠ c.key.canonical := fun heq => hsame (hapart key hkey heq)
      rw [LruRateLimiter.hits, hothers _ hne, hkeep key hsame]
      exact h.hits key hkey now (fun d hd => hnow' d (List.mem_append_left _ hd)) cutoff hcutoff
  · intro key hkey
    by_cases hsame : key = c.key
    · subst hsame
      rw [allowed_concat, hdecision]
      rcases hcases with ⟨hdeny, -⟩ | ⟨hallow, rfl, hlength⟩
      · rw [if_neg fun hallow => hdeny hallow.2, List.append_nil]
        exact h.limited c.key hc
      · rw [if_pos ⟨rfl, hallow⟩]
        rw [List.length_append, List.length_singleton] at hlength
        exact (h.limited c.key hc).concat hlength
    · rw [hkeep key hsame]
      exact h.limited key hkey
  · intro hdeny
    rw [hdecision] at hdeny
    rcases hcases with ⟨-, rfl, hlength⟩ | ⟨hallow, -⟩
    · exact hlength
    · exact absurd hallow hdeny

theorem Remembers.nil (lim : LruRateLimiter L) (keys : RateLimitKey → Prop)
    (hempty : ∀ s, peek lim.buckets s = none) : Remembers earliest lim [] keys where
  policyFor _ := rfl
  capacity := rfl
  stored s hs := by
    rw [afterChecks, Lockstep.final_nil, hempty s] at hs
    cases hs
  hits key _ now _ cutoff _ := by
    rw [afterChecks, Lockstep.final_nil, LruRateLimiter.hits, hempty]
    rfl
  limited key _ := Limited.nil

/-! ## Runs -/

/-- A cache that was asked for few keys has room for one more. -/
theorem Remembers.hasRoom [LawfulLruCache L] (h : Remembers earliest lim pre keys)
    (hsub : ∀ d ∈ pre, d ∈ checks)
    (hfew : (checks.map (·.key)).toFinset.card < cap lim.buckets) :
    (iter (lim.afterChecks earliest pre).buckets).length < cap lim.buckets := by
  refine lt_of_le_of_lt ?_ hfew
  have hstored : ∀ s, (peek (lim.afterChecks earliest pre).buckets s).isSome →
      s ∈ (checks.map (·.key)).toFinset.image RateLimitKey.canonical := by
    intro s hs
    obtain ⟨d, hd, rfl⟩ := h.stored s hs
    exact Finset.mem_image_of_mem _ (List.mem_toFinset.mpr (List.mem_map_of_mem (hsub d hd)))
  exact (LawfulLruCache.length_iter_le_card hstored).trans Finset.card_image_le

theorem remembers_along [LawfulLruCache L] (hempty : ∀ s, peek lim.buckets s = none)
    (hsorted : checks.Pairwise fun c d => c.now ≤ d.now)
    (hfew : (checks.map (·.key)).toFinset.card < cap lim.buckets)
    (htell : Tellable earliest lim checks) {post : List Check} (heq : checks = pre ++ post) :
    Remembers earliest lim pre fun key => ∃ c ∈ checks, c.key = key := by
  induction pre using List.reverseRecOn generalizing post with
  | nil => exact .nil lim _ hempty
  | append_singleton pre c ih =>
      rw [List.append_assoc, List.singleton_append] at heq
      have hpre := ih heq
      have hc : c ∈ checks := by
        rw [heq]
        exact List.mem_append_right _ List.mem_cons_self
      have hsub : ∀ d ∈ pre, d ∈ checks := by
        intro d hd
        rw [heq]
        exact List.mem_append_left _ hd
      have hnow : ∀ d ∈ pre, d.now ≤ c.now := by
        rw [heq, List.pairwise_append] at hsorted
        exact fun d hd => hsorted.2.2 d hd c List.mem_cons_self
      have hapart : ∀ key, (∃ d ∈ checks, d.key = key) →
          key.canonical = c.key.canonical → key = c.key := by
        rintro key ⟨d, hd, rfl⟩ hcanonical
        exact htell.apart d hd c hc hcanonical
      exact (hpre.concat ⟨c, hc, rfl⟩ hnow (htell.representable c hc) hapart
        (hpre.hasRoom hsub hfew)).1

/-- The limiter lets through what its policies allow, in every run in which it
can tell where the windows begin and in which no two keys share a bucket. -/
theorem slides_of_tellable [LawfulLruCache L] (earliest : Int) (capacity : Nat)
    (policies : List RoutePolicy) (checks : List Check)
    (hsorted : checks.Pairwise fun c d => c.now ≤ d.now)
    (hfew : (checks.map (·.key)).toFinset.card < capacity)
    (htell : Tellable earliest (withCapacityAndPolicies capacity policies : LruRateLimiter L)
      checks) :
    Slides earliest (withCapacityAndPolicies capacity policies : LruRateLimiter L) checks := by
  have hempty : ∀ s, peek (withCapacityAndPolicies capacity policies :
      LruRateLimiter L).buckets s = none :=
    fun s => LawfulLruCache.peek_new _ s
  have hroom : (checks.map (·.key)).toFinset.card <
      cap (withCapacityAndPolicies capacity policies : LruRateLimiter L).buckets := by
    have hpos : 0 < max capacity 1 := Nat.le_max_right capacity 1
    rw [withCapacityAndPolicies, LawfulLruCache.cap_new, Nat.toPNat'_coe, if_pos hpos]
    exact lt_of_lt_of_le hfew (Nat.le_max_left capacity 1)
  refine ⟨?_, ?_⟩
  · intro key a
    by_cases hkey : ∃ c ∈ checks, c.key = key
    · have hlimited := (remembers_along hempty hsorted hroom htell
        (List.append_nil checks).symm).limited key hkey
      exact ⟨hlimited.countP_Ico_le a, hlimited.countP_Ioc_le a⟩
    · have hnone : (withCapacityAndPolicies capacity policies : LruRateLimiter L).allowed earliest
          key checks = [] := by
        rw [List.eq_nil_iff_forall_not_mem]
        intro t ht
        obtain ⟨c, hc, hckey, -⟩ := exists_of_mem_allowed ht
        exact hkey ⟨c, hc, hckey⟩
      rw [hnone]
      exact ⟨Nat.zero_le _, Nat.zero_le _⟩
  · intro pre c post heq hdeny
    have hpre := remembers_along hempty hsorted hroom htell heq
    have hc : c ∈ checks := by
      rw [heq]
      exact List.mem_append_right _ List.mem_cons_self
    have hnow : ∀ d ∈ pre, d.now ≤ c.now := by
      rw [heq, List.pairwise_append] at hsorted
      exact fun d hd => hsorted.2.2 d hd c List.mem_cons_self
    have hfull := (hpre.concat ⟨c, hc, rfl⟩ hnow (htell.representable c hc)
      (by rintro key ⟨d, hd, rfl⟩ hcanonical; exact htell.apart d hd c hc hcanonical)
      (hpre.hasRoom (fun d hd => by rw [heq]; exact List.mem_append_left _ hd) hroom)).2 hdeny
    rw [← hfull, after, ← List.countP_eq_length_filter]
    refine List.countP_mono_left fun t ht hlt => ?_
    obtain ⟨d, hd, -, rfl⟩ := exists_of_mem_allowed ht
    rw [decide_eq_true_iff] at hlt ⊢
    exact ⟨hlt, hnow d hd⟩

end LruRateLimiter

/-! ## A window that is longer than the clock -/

def hit (now : Int) : Check := ⟨⟨['r'], .custom ['c']⟩, now⟩

/-- One hit in ten nanoseconds. -/
def oncePerTen : RoutePolicy where
  route := ['r']
  max := 1
  window := 10
  max_pos := by decide
  max_lt := by decide
  window_pos := by decide

/-- One hit in the longest window there is. -/
def onceEver : RoutePolicy :=
  { oncePerTen with
    window := (2 ^ 64 - 1) * nanosPerSec
    window_pos := by decide }

abbrev Buckets := LruList Str (List Int)

theorem slides_of_tellable_hit : LruRateLimiter.Slides 0
    (LruRateLimiter.withCapacityAndPolicies 4096 [oncePerTen] : LruRateLimiter Buckets)
    [hit 100, hit 105] := by
  refine LruRateLimiter.slides_of_tellable 0 4096 [oncePerTen] [hit 100, hit 105] ?_ ?_ ⟨?_, ?_⟩
  · decide
  · decide
  · intro c hc
    rcases List.mem_pair.mp hc with rfl | rfl <;> rfl
  · intro c hc d hd _
    rcases List.mem_pair.mp hc with rfl | rfl <;> rcases List.mem_pair.mp hd with rfl | rfl <;> rfl

/-- A clock that counts seconds in 64 bits cannot tell where the longest window
begins, and both hits are let through. -/
theorem onceEver_not_slides :
    ¬ ∀ (earliest : Int) (capacity : Nat) (policies : List RoutePolicy) (checks : List Check),
      (checks.Pairwise fun c d => c.now ≤ d.now) →
      (checks.map (·.key)).toFinset.card < capacity →
      LruRateLimiter.Slides earliest
        (LruRateLimiter.withCapacityAndPolicies capacity policies : LruRateLimiter Buckets)
        checks := by
  intro h
  have hlimit := ((h (-(2 ^ 63 * 1000000000)) 4096 [onceEver] [hit 0, hit 0] (by decide)
    (by decide)).limit ⟨['r'], .custom ['c']⟩ 0).1
  have hallowed : (LruRateLimiter.withCapacityAndPolicies 4096 [onceEver] :
      LruRateLimiter Buckets).allowed (-(2 ^ 63 * 1000000000)) ⟨['r'], .custom ['c']⟩
      [hit 0, hit 0] = [0, 0] := by
    decide
  rw [hallowed] at hlimit
  exact absurd hlimit (by decide)

end Security

end SolidPod
