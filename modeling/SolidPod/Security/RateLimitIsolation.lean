import SolidPod.Foundation.Isolation
import SolidPod.Security.RateLimitRuns

/-!
# Buckets of their own

A bucket is filed under the text of its route and its subject. While there is room
for every key, the checks of one key are decided as if there were no others,
exactly if no two of the keys have the same text. A route without a bar is told
from its subject; one with a bar may end in what looks like a subject.
-/

namespace SolidPod

open Foundation

open LruCache LawfulLruCache

open SlidingWindow (after)

namespace Security

namespace LruRateLimiter

variable {L : Type*} [LruCache L Str (List Int)]

/-- The decisions about a key among those about all keys. -/
def decisions (earliest : Int) (lim : LruRateLimiter L) (key : RateLimitKey)
    (checks : List Check) : List RateLimitDecision :=
  Isolation.answers (check earliest) (fun c => c.key = key) lim checks

/-- The decisions about each key are those of a run with the checks of that key only. -/
def Isolated (earliest : Int) (lim : LruRateLimiter L) (checks : List Check) : Prop :=
  ∀ key, lim.decisions earliest key checks =
    Lockstep.run (check earliest) lim (checks.filter fun c => c.key = key)

/-- The text under which the bucket of a check is filed. -/
def bucketName (c : Check) : Str := c.key.canonical

variable {earliest : Int} {lim : LruRateLimiter L} {checks : List Check}

/-- A check on a bucket, under the policies of a limiter. -/
def serveCheck (earliest : Int) (lim : LruRateLimiter L) (c : Check) (filed : Option (List Int)) :
    RateLimitDecision × List Int :=
  serve earliest (lim.policyFor c.key.route) c.now filed

theorem simulates_step (lim : LruRateLimiter L) :
    Lockstep.Simulates (check earliest)
      (Isolation.step bucketName (lim.serveCheck earliest)) (fun _ => True)
      (fun _ _ _ => True) fun (s : LruRateLimiter L) l => s = { lim with buckets := l } := by
  rintro s l c rfl - -
  rw [check, checkSync_eq]
  exact ⟨rfl, rfl⟩

theorem run_check (checks : List Check) :
    Lockstep.run (check earliest) lim checks =
      Lockstep.run (Isolation.step bucketName (lim.serveCheck earliest)) lim.buckets
        checks :=
  Lockstep.run_eq (simulates_step lim) rfl (fun _ _ => trivial)
    (Lockstep.along_of_forall (fun _ _ _ => trivial) _)

theorem decisions_eq {key : RateLimitKey}
    (hkey : ∀ c ∈ checks, bucketName c = key.canonical ↔ c.key = key) :
    lim.decisions earliest key checks =
      Isolation.answers (Isolation.step bucketName (lim.serveCheck earliest))
        (fun c => bucketName c = key.canonical) lim.buckets checks := by
  rw [decisions, Isolation.answers, Isolation.answers, run_check]
  refine congrArg _ (List.filter_congr fun x hx => ?_)
  rw [decide_eq_decide]
  exact (hkey x.1 (List.of_mem_zip hx).1).symm

/-- Keys of different texts do not meet, while there is room for all of them. -/
theorem isolated_of_injOn [LawfulLruCache L] {pairs : Finset RateLimitKey}
    (hempty : ∀ s, peek lim.buckets s = none) (hcap : pairs.card ≤ cap lim.buckets)
    (hinj : ∀ a ∈ pairs, ∀ b ∈ pairs, a.canonical = b.canonical → a = b)
    (hchecks : ∀ c ∈ checks, c.key ∈ pairs) : Isolated earliest lim checks := by
  intro key
  by_cases hkey : key ∈ pairs
  · have hname (c : Check) (hc : c ∈ checks) : bucketName c = key.canonical ↔ c.key = key :=
      ⟨hinj _ (hchecks c hc) _ hkey, congrArg RateLimitKey.canonical⟩
    have hfilter : (checks.filter fun c => c.key = key) =
        checks.filter fun c => bucketName c = key.canonical := by
      refine List.filter_congr fun c hc => ?_
      rw [decide_eq_decide]
      exact (hname c hc).symm
    rw [decisions_eq hname, run_check, hfilter]
    have hcard : (pairs.image RateLimitKey.canonical).card ≤ cap lim.buckets :=
      Finset.card_image_le.trans hcap
    refine Isolation.answers_step_eq_run (fun s hs => ?_) hcard (fun c hc => ?_) _
    · rw [hempty] at hs
      cases hs
    · exact Finset.mem_image_of_mem _ (hchecks c hc)
  · have hnone (c : Check) (hc : c ∈ checks) : ¬ c.key = key := by
      rintro rfl
      exact hkey (hchecks c hc)
    have hfilter : (checks.filter fun c => c.key = key) = [] := by
      refine List.filter_eq_nil_iff.mpr fun c hc => ?_
      simpa using hnone c hc
    rw [hfilter, decisions, Isolation.answers_eq_nil]
    · rfl
    · intro c hc
      simpa using hnone c hc

/-! ## Keys that share a bucket -/

/-- The first hits of a bucket are let through. -/
theorem hits_afterChecks_replicate [LawfulLruCache L] {c : Check}
    (hempty : ∀ s, peek lim.buckets s = none)
    (htell : (checkedSub earliest c.now (lim.policyFor c.key.route).window).isSome) (n : Nat)
    (hn : n ≤ (lim.policyFor c.key.route).max) :
    (lim.afterChecks earliest (List.replicate n c)).hits c.key = List.replicate n c.now ∧
      (lim.afterChecks earliest (List.replicate n c)).policyFor = lim.policyFor := by
  induction n with
  | zero =>
      refine ⟨?_, rfl⟩
      rw [hits, List.replicate_zero, afterChecks, Lockstep.final_nil, hempty]
      rfl
  | succ n ih =>
      obtain ⟨hhits, hpolicy⟩ := ih (Nat.le_of_succ_le hn)
      rw [List.replicate_succ', afterChecks_concat]
      have hall : after (c.now - (lim.policyFor c.key.route).window)
          (List.replicate n c.now) = List.replicate n c.now := by
        have hwindow := (lim.policyFor c.key.route).window_pos
        refine List.filter_eq_self.mpr fun t ht => ?_
        rw [List.eq_of_mem_replicate ht]
        simpa using hwindow
      have hlength : (after (c.now -
          ((lim.afterChecks earliest (List.replicate n c)).policyFor c.key.route).window)
            ((lim.afterChecks earliest (List.replicate n c)).hits c.key)).length ≤
          ((lim.afterChecks earliest (List.replicate n c)).policyFor c.key.route).max := by
        rw [hpolicy, hhits, hall, List.length_replicate]
        exact Nat.le_of_succ_le hn
      obtain ⟨decision, new, heq, hcase⟩ := check_eq (by rwa [hpolicy]) hlength
      rw [hpolicy, hhits, hall] at hcase
      rcases hcase with ⟨-, rfl, hfull⟩ | ⟨-, rfl, -⟩
      · rw [List.length_replicate] at hfull
        omega
      · rw [heq]
        refine ⟨?_, hpolicy⟩
        rw [hits, peek_put_self, List.replicate_succ']
        rfl

theorem after_replicate {t : Int} {window : Nat} (h : 0 < window) (n : Nat) :
    after (t - window) (List.replicate n t) = List.replicate n t := by
  refine List.filter_eq_self.mpr fun u hu => ?_
  rw [List.eq_of_mem_replicate hu]
  simpa using h

/-- A check is denied that would be let through alone, once another key of the same
text has filled the bucket. -/
theorem not_isolated [LawfulLruCache L] {c d : Check} (hne : c.key ≠ d.key)
    (hcanonical : c.key.canonical = d.key.canonical) (hnow : d.now = c.now)
    (hempty : ∀ s, peek lim.buckets s = none)
    (hmax : (lim.policyFor c.key.route).max ≤ (lim.policyFor d.key.route).max)
    (hc : (checkedSub earliest c.now (lim.policyFor c.key.route).window).isSome)
    (hd : (checkedSub earliest d.now (lim.policyFor d.key.route).window).isSome) :
    ¬Isolated earliest lim (List.replicate (lim.policyFor c.key.route).max d ++ [c]) := by
  intro hisolated
  have hpos := (lim.policyFor c.key.route).max_pos
  obtain ⟨hhits, hpolicy⟩ := hits_afterChecks_replicate hempty hd _ hmax
  have hothers (e : Check) (he : e ∈ List.replicate (lim.policyFor c.key.route).max d) :
      ¬ decide (e.key = c.key) = true := by
    rw [List.eq_of_mem_replicate he]
    simpa using hne.symm
  have hdenied : ((lim.afterChecks earliest
      (List.replicate (lim.policyFor c.key.route).max d)).check earliest c).1 ≠ .allow := by
    have hfull : after (c.now - (lim.policyFor c.key.route).window)
        ((lim.afterChecks earliest (List.replicate (lim.policyFor c.key.route).max d)).hits
          c.key) = List.replicate (lim.policyFor c.key.route).max c.now := by
      rw [hits, hcanonical, ← hits, hhits, hnow,
        after_replicate (lim.policyFor c.key.route).window_pos]
    have htell : (checkedSub earliest c.now
        ((lim.afterChecks earliest (List.replicate (lim.policyFor c.key.route).max d)).policyFor
          c.key.route).window).isSome := by
      rwa [hpolicy]
    obtain ⟨decision, new, heq, ⟨hdeny, -⟩ | ⟨-, rfl, hle⟩⟩ :=
      check_eq htell (by rw [hpolicy, hfull, List.length_replicate])
    · rw [heq]
      exact hdeny
    · rw [hpolicy, hfull, List.length_append, List.length_replicate,
        List.length_singleton] at hle
      omega
  have halone : (lim.check earliest c).1 = .allow := by
    have hnone : lim.hits c.key = [] := by
      rw [hits, hempty]
      rfl
    obtain ⟨decision, new, heq, ⟨-, rfl, hlen⟩ | ⟨hallow, -⟩⟩ :=
      check_eq hc (by rw [hnone]; exact Nat.zero_le _)
    · rw [hnone, SlidingWindow.after_nil, List.length_nil] at hlen
      omega
    · rw [heq]
      exact hallow
  have hrun := hisolated c.key
  rw [decisions, Isolation.answers_append, Isolation.answers_eq_nil _ _ hothers,
    Isolation.answers_cons, List.filter_append,
    List.filter_eq_nil_iff.mpr hothers] at hrun
  simp only [decide_true, if_true, List.nil_append, Isolation.answers_nil, List.append_nil,
    List.filter_cons, List.filter_nil, Lockstep.run] at hrun
  exact hdenied ((List.cons.inj hrun).1.trans halone)

/-! ## Texts of keys -/

theorem canonical_subject_injective {s t : RateLimitSubject} (h : s.canonical = t.canonical) :
    s = t := by
  cases s with
  | ip a =>
      cases t with
      | ip b => rw [List.append_cancel_left h]
      | webId b => exact nomatch show some 'i' = some 'w' from congrArg List.head? h
      | custom b => exact nomatch show some 'i' = some 'c' from congrArg List.head? h
  | webId a =>
      cases t with
      | ip b => exact nomatch show some 'w' = some 'i' from congrArg List.head? h
      | webId b => rw [List.append_cancel_left h]
      | custom b => exact nomatch show some 'w' = some 'c' from congrArg List.head? h
  | custom a =>
      cases t with
      | ip b => exact nomatch show some 'c' = some 'i' from congrArg List.head? h
      | webId b => exact nomatch show some 'c' = some 'w' from congrArg List.head? h
      | custom b => rw [List.append_cancel_left h]

/-- A route without a bar ends at the first bar of the text. -/
theorem eq_of_canonical_eq {a b : RateLimitKey} (ha : '|' ∉ a.route) (hb : '|' ∉ b.route)
    (h : a.canonical = b.canonical) : a = b := by
  obtain ⟨route, subject⟩ := a
  obtain ⟨route', subject'⟩ := b
  have hbar : route ++ '|' :: subject.canonical = route' ++ '|' :: subject'.canonical := by
    simpa [RateLimitKey.canonical] using h
  have hsplit := congrArg (Str.splitOnce '|') hbar
  rw [Str.splitOnce_append ha, Str.splitOnce_append hb, Option.some.injEq, Prod.mk.injEq] at hsplit
  obtain ⟨rfl, hsubject⟩ := hsplit
  rw [canonical_subject_injective hsubject]

theorem checkedSub_isSome {now : Int} {window : Nat} (h : earliest + window ≤ now) :
    (checkedSub earliest now window).isSome := by
  rw [checkedSub, if_pos (by omega)]
  rfl

/-- Two pairs of one text: the one with the lower limit is shut out by the other. -/
theorem exists_not_isolated [LawfulLruCache L] (earliest : Int) {a b : RateLimitKey} (hne : a ≠ b)
    (hcanonical : a.canonical = b.canonical) (hempty : ∀ s, peek lim.buckets s = none) :
    ∃ checks, (∀ c ∈ checks, c.key = a ∨ c.key = b) ∧ ¬Isolated earliest lim checks := by
  have hmem (d e : Check) (n : Nat) :
      ∀ c ∈ List.replicate n d ++ [e], c.key = e.key ∨ c.key = d.key := by
    intro c hc
    rcases List.mem_append.mp hc with hc | hc
    · exact .inr (congrArg Check.key (List.eq_of_mem_replicate hc))
    · exact .inl (congrArg Check.key (List.mem_singleton.mp hc))
  have ha : (checkedSub earliest (earliest + (lim.policyFor a.route).window +
      (lim.policyFor b.route).window) (lim.policyFor a.route).window).isSome :=
    checkedSub_isSome (by omega)
  have hb : (checkedSub earliest (earliest + (lim.policyFor a.route).window +
      (lim.policyFor b.route).window) (lim.policyFor b.route).window).isSome :=
    checkedSub_isSome (by omega)
  generalize earliest + (lim.policyFor a.route).window + (lim.policyFor b.route).window = t at ha hb
  rcases Nat.le_total (lim.policyFor a.route).max (lim.policyFor b.route).max with hle | hle
  · exact ⟨_, hmem ⟨b, t⟩ ⟨a, t⟩ _, not_isolated hne hcanonical rfl hempty hle ha hb⟩
  · refine ⟨_, fun c hc => ?_,
      not_isolated (show (⟨b, t⟩ : Check).key ≠ (⟨a, t⟩ : Check).key from hne.symm)
        hcanonical.symm rfl hempty hle hb ha⟩
    exact (hmem ⟨a, t⟩ ⟨b, t⟩ _ c hc).symm

/-- While there is room for every pair, each pair is limited as if it were alone, in every
sequence of checks, exactly if no two pairs have the same text; so it is if no route
has a bar in it. -/
theorem isolated_iff [LawfulLruCache L] (earliest : Int) (capacity : Nat)
    (policies : List RoutePolicy) (pairs : Finset RateLimitKey)
    (hcap : pairs.card ≤ max capacity 1) :
    ((∀ checks, (∀ c ∈ checks, c.key ∈ pairs) →
        Isolated earliest (withCapacityAndPolicies capacity policies : LruRateLimiter L) checks) ↔
      ∀ a ∈ pairs, ∀ b ∈ pairs, a.canonical = b.canonical → a = b) ∧
    ((∀ a ∈ pairs, '|' ∉ a.route) → ∀ checks, (∀ c ∈ checks, c.key ∈ pairs) →
      Isolated earliest (withCapacityAndPolicies capacity policies : LruRateLimiter L) checks) := by
  have hempty (s : Str) :
      peek (withCapacityAndPolicies capacity policies : LruRateLimiter L).buckets s = none :=
    peek_new _ s
  have hroom : pairs.card ≤
      cap (withCapacityAndPolicies capacity policies : LruRateLimiter L).buckets := by
    rw [withCapacityAndPolicies, cap_new, Nat.toPNat'_coe, if_pos (by omega)]
    exact hcap
  refine ⟨⟨fun h a ha b hb hcanonical => ?_, fun hinj checks => ?_⟩, fun hroute checks => ?_⟩
  swap
  · exact isolated_of_injOn hempty hroom hinj
  swap
  · exact isolated_of_injOn hempty hroom fun a ha b hb =>
      eq_of_canonical_eq (hroute a ha) (hroute b hb)
  by_contra hne
  obtain ⟨checks, hchecks, hnot⟩ := exists_not_isolated earliest hne hcanonical hempty
  refine hnot (h checks fun c hc => ?_)
  rcases hchecks c hc with heq | heq
  · rwa [heq]
  · rwa [heq]

/-! ## A route that ends in a subject -/

/-- A subject that looks like the end of another key. -/
def plainKey : RateLimitKey := ⟨"a", .custom "b|custom:c"⟩

/-- A route that looks like the beginning of another key. -/
def barredKey : RateLimitKey := ⟨"a|custom:b", .custom "c"⟩

theorem not_isolated_barredKey :
    ¬Isolated 0 (withCapacityAndPolicies 2 [] : LruRateLimiter (LruList Str (List Int)))
      (List.replicate 60 ⟨barredKey, 60 * nanosPerSec⟩ ++ [⟨plainKey, 60 * nanosPerSec⟩]) :=
  not_isolated (by decide) (by decide) rfl (fun s => peek_new _ s) (by decide) (by decide)
    (by decide)

theorem isolated_iff_barredKey :
    ((∀ checks, (∀ c ∈ checks, c.key ∈ ({plainKey, barredKey} : Finset RateLimitKey)) →
        Isolated 0 (withCapacityAndPolicies 2 [] : LruRateLimiter (LruList Str (List Int)))
          checks) ↔
      ∀ a ∈ ({plainKey, barredKey} : Finset RateLimitKey),
        ∀ b ∈ ({plainKey, barredKey} : Finset RateLimitKey), a.canonical = b.canonical → a = b) ∧
    ((∀ a ∈ ({plainKey, barredKey} : Finset RateLimitKey), '|' ∉ a.route) → ∀ checks,
      (∀ c ∈ checks, c.key ∈ ({plainKey, barredKey} : Finset RateLimitKey)) →
        Isolated 0 (withCapacityAndPolicies 2 [] : LruRateLimiter (LruList Str (List Int)))
          checks) :=
  isolated_iff 0 2 [] _ (by decide)

end LruRateLimiter

end Security

end SolidPod
