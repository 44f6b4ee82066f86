import SolidPod.Error
import SolidPod.Foundation.ReplayMemory

/-!
# The cache of DPoP proof ids

`DpopReplayCache` remembers when each `jti` was first seen, in a bounded LRU.
Instants of the monotonic clock and durations are whole nanoseconds. As long as
the cache has room it admits what a guard with the full log admits, and the
eviction of expired entries makes no difference to that.
-/

namespace SolidPod

open Foundation

namespace Oidc

def Duration.nanosPerSec : Nat := 1000000000

def Duration.fromSecs (secs : Nat) : Nat := secs * nanosPerSec

/-- The whole seconds of a duration. -/
def Duration.asSecs (d : Nat) : Nat := d / nanosPerSec

theorem Duration.nanosPerSec_pos : 0 < nanosPerSec := Nat.succ_pos _

theorem Duration.fromSecs_add (m n : Nat) : fromSecs (m + n) = fromSecs m + fromSecs n :=
  Nat.add_mul m n nanosPerSec

theorem Duration.asSecs_add_fromSecs (d n : Nat) : asSecs (d + fromSecs n) = asSecs d + n :=
  Nat.add_mul_div_right d n nanosPerSec_pos

@[simp] theorem Duration.asSecs_fromSecs (n : Nat) : asSecs (fromSecs n) = n :=
  Nat.mul_div_cancel n nanosPerSec_pos

theorem Duration.lt_fromSecs_iff {d n : Nat} : d < fromSecs n ↔ asSecs d < n :=
  (Nat.div_lt_iff_lt_mul nanosPerSec_pos).symm

theorem Duration.fromSecs_le_iff {d n : Nat} : fromSecs n ≤ d ↔ n ≤ asSecs d :=
  (Nat.le_div_iff_mul_le nanosPerSec_pos).symm

/-- A number with a fraction of so many digits, less the zeros at its end. -/
def fmtDecimal (int frac width : Nat) : Str :=
  let digits := decimal frac
  let padded := List.replicate (width - digits.length) '0' ++ digits
  match Str.trimEndMatches '0' padded with
  | [] => decimal int
  | shown => decimal int ++ '.' :: shown

/-- A duration as the formatter shows it for debugging. -/
def Duration.debug (d : Nat) : Str :=
  if nanosPerSec ≤ d then fmtDecimal (d / nanosPerSec) (d % nanosPerSec) 9 ++ "s"
  else if 1000000 ≤ d then fmtDecimal (d / 1000000) (d % 1000000) 6 ++ "ms"
  else if 1000 ≤ d then fmtDecimal (d / 1000) (d % 1000) 3 ++ "µs"
  else decimal d ++ "ns"

/-- Instants of the monotonic clock, in nanoseconds. -/
def instantClock : Clock Nat where
  age now seen := now - seen
  age_mono s h := Nat.sub_le_sub_right h s
  age_anti t h := Nat.sub_le_sub_left h t

inductive ReplayError where
  | replayed (ttl : Nat)
  deriving DecidableEq

def ReplayError.display : ReplayError → Str
  | .replayed ttl => "DPoP jti already used within TTL window (" ++ Duration.debug ttl ++ ")"

/-- The ids seen lately, each with the instant it was first seen at. -/
structure DpopReplayCache (L : Type*) where
  entries : L
  ttl : Nat
  maxSize : Nat

namespace DpopReplayCache

variable {L : Type*} [LruCache L Str Nat]

open LruCache

def withConfig (ttl : Nat) (maxSize : Nat) : DpopReplayCache L where
  entries := new (Nat.toPNat (max maxSize 1) (Nat.le_max_right maxSize 1))
  ttl := ttl
  maxSize := max maxSize 1

/-- The entry of the id is younger than the ttl. -/
def Remembers (cache : DpopReplayCache L) (now : Nat) (jti : Str) : Prop :=
  ∃ firstSeen ∈ peek cache.entries jti, now - firstSeen < cache.ttl

def checkAndRecord (cache : DpopReplayCache L) (now : Nat) (jti : Str) :
    Except ReplayError Unit × DpopReplayCache L :=
  let record := (.ok (), { cache with entries := put cache.entries jti now })
  match peek cache.entries jti with
  | some firstSeen =>
    let age := now - firstSeen
    if age < cache.ttl then (.error (.replayed cache.ttl), cache) else record
  | none => record

def evictExpired (cache : DpopReplayCache L) (now : Nat) : Nat × DpopReplayCache L :=
  let expired := (iter cache.entries).filterMap fun (jti, seen) =>
    if cache.ttl ≤ now - seen then some jti else none
  (expired.length, { cache with entries := expired.foldl pop cache.entries })

theorem checkAndRecord_of_remembers {cache : DpopReplayCache L} {now : Nat} {jti : Str}
    (h : cache.Remembers now jti) :
    cache.checkAndRecord now jti = (.error (.replayed cache.ttl), cache) := by
  obtain ⟨firstSeen, hpeek, hage⟩ := h
  rw [checkAndRecord, hpeek]
  exact if_pos hage

theorem checkAndRecord_of_not_remembers {cache : DpopReplayCache L} {now : Nat} {jti : Str}
    (h : ¬ cache.Remembers now jti) : cache.checkAndRecord now jti =
      (.ok (), { cache with entries := put cache.entries jti now }) := by
  rw [checkAndRecord]
  split
  · next firstSeen hpeek =>
      exact if_neg fun hage => h ⟨firstSeen, hpeek, hage⟩
  · rfl

variable [LawfulLruCache L]

open LawfulLruCache

theorem peek_evictExpired (cache : DpopReplayCache L) (now : Nat) (jti : Str) :
    peek (cache.evictExpired now).2.entries jti =
      (peek cache.entries jti).filter fun seen => now - seen < cache.ttl := by
  change peek ((ReplayMemory.ofCache instantClock cache.ttl).sweep cache.entries now) jti =
    (peek cache.entries jti).filter fun seen => instantClock.age now seen < cache.ttl
  exact ReplayMemory.peek_sweep cache.entries now jti

/-! ## The cache and the full log -/

open ReplayGuard

/-- The cache knows of each entry of the log that can still count. -/
structure Mirrors (cache : DpopReplayCache L) (log : Log Str) (now : Nat) : Prop where
  recorded : ∀ jti seen, peek cache.entries jti = some seen → (jti, seen) ∈ log
  past : ∀ jti seen, (jti, seen) ∈ log → seen ≤ now
  kept : ∀ jti seen, (jti, seen) ∈ log →
    seen + cache.ttl ≤ now ∨ ∃ later, seen ≤ later ∧ peek cache.entries jti = some later

namespace Mirrors

variable {cache : DpopReplayCache L} {log : Log Str} {t now : Nat} {jti : Str}

theorem withConfig (ttl : Nat) (maxSize : Nat) :
    Mirrors (withConfig ttl maxSize : DpopReplayCache L) [] now where
  recorded jti seen h := by
    rw [DpopReplayCache.withConfig, peek_new] at h
    cases h
  past _ _ h := absurd h List.not_mem_nil
  kept _ _ h := absurd h List.not_mem_nil

omit [LawfulLruCache L] in
theorem mono (h : Mirrors cache log t) (hle : t ≤ now) : Mirrors cache log now where
  recorded := h.recorded
  past jti seen hmem := (h.past jti seen hmem).trans hle
  kept jti seen hmem := (h.kept jti seen hmem).imp_left fun hold => hold.trans hle

omit [LawfulLruCache L] in
/-- The cache refuses what the guard with the full log refuses. -/
theorem not_remembers_iff (h : Mirrors cache log now) :
    ¬ cache.Remembers now jti ↔ Admits cache.ttl log jti now := by
  constructor
  · intro hforgot seen hmem
    rcases h.kept jti seen hmem with hold | ⟨later, hle, hpeek⟩
    · exact hold
    · have hage : ¬ now - later < cache.ttl := fun hage => hforgot ⟨later, hpeek, hage⟩
      have hpast := h.past jti later (h.recorded jti later hpeek)
      omega
  · rintro hadmits ⟨seen, hpeek, hage⟩
    have hold := hadmits seen (h.recorded jti seen hpeek)
    omega

theorem length_iter_le (h : Mirrors cache log now) :
    (iter cache.entries).length ≤ (log.map Prod.fst).toFinset.card := by
  apply length_iter_le_card
  intro k hk
  obtain ⟨seen, hpeek⟩ := Option.isSome_iff_exists.mp hk
  rw [List.mem_toFinset]
  exact List.mem_map_of_mem (h.recorded k seen hpeek)

theorem record (h : Mirrors cache log now)
    (hroom : (log.map Prod.fst).toFinset.card < cap cache.entries) :
    Mirrors { cache with entries := put cache.entries jti now } (log ++ [(jti, now)]) now where
  recorded k seen hpeek := by
    by_cases hk : k = jti
    · rw [hk, peek_put_self] at hpeek
      cases hpeek
      rw [hk]
      exact List.mem_concat_self
    · rw [peek_put_of_ne now hk (Or.inr (h.length_iter_le.trans_lt hroom))] at hpeek
      exact List.mem_append_left _ (h.recorded k seen hpeek)
  past k seen hmem := by
    rcases List.mem_append.mp hmem with hmem | hmem
    · exact h.past k seen hmem
    · cases List.mem_singleton.mp hmem
      exact le_rfl
  kept k seen hmem := by
    by_cases hk : k = jti
    · right
      rw [hk, peek_put_self]
      refine ⟨now, ?_, rfl⟩
      rcases List.mem_append.mp hmem with hmem | hmem
      · exact h.past k seen hmem
      · cases List.mem_singleton.mp hmem
        exact le_rfl
    · rw [peek_put_of_ne now hk (Or.inr (h.length_iter_le.trans_lt hroom))]
      rcases List.mem_append.mp hmem with hmem | hmem
      · exact h.kept k seen hmem
      · cases List.mem_singleton.mp hmem
        exact absurd rfl hk

theorem evictExpired (h : Mirrors cache log now) :
    Mirrors (cache.evictExpired now).2 log now where
  recorded k seen hpeek := by
    rw [peek_evictExpired, Option.filter_eq_some_iff] at hpeek
    exact h.recorded k seen hpeek.1
  past := h.past
  kept k seen hmem := by
    rcases h.kept k seen hmem with hold | ⟨later, hle, hpeek⟩
    · exact Or.inl hold
    · by_cases hage : now - later < cache.ttl
      · right
        refine ⟨later, hle, ?_⟩
        rw [peek_evictExpired, hpeek, Option.filter_some_pos (by simpa using hage)]
      · left
        have hpast := h.past k later (h.recorded k later hpeek)
        change seen + cache.ttl ≤ now
        omega

end Mirrors

end DpopReplayCache

end Oidc

end SolidPod
