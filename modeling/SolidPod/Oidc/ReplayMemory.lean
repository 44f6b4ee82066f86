import Mathlib.Algebra.Order.Group.Unbundled.Int
import SolidPod.Oidc.Replay

/-!
# How long the replay caches remember

There are two caches of proof ids: `DpopReplayCache` reads the monotonic clock
itself and can be swept, `JtiReplayCache` is told the time of day by its caller.
Both are a bounded memory over an LRU, whose size is the configured one but never
less than one.
-/

namespace SolidPod

open Foundation LruCache

namespace Oidc

local instance (priority := high) timePreorder : Preorder Int := Int.instLinearOrder.toPreorder

/-- Times of day, in nanoseconds since the epoch or, below zero, before it. -/
def systemClock : Clock Int where
  age now seen := (now - seen).toNat
  age_mono s h := Int.toNat_le_toNat (Int.sub_le_sub_right h s)
  age_anti t h := Int.toNat_le_toNat (Int.sub_le_sub_left h t)

/-! ## The cache of the verifier -/

namespace DpopReplayCache

variable {L : Type*} [LruCache L Str Nat]

def len (cache : DpopReplayCache L) : Nat := (iter cache.entries).length

def memory : ReplayMemory (DpopReplayCache L) Str Nat where
  check cache now jti := ((cache.checkAndRecord now jti).1.isOk, (cache.checkAndRecord now jti).2)
  sweep cache now := (cache.evictExpired now).2
  size := len

theorem wraps_memory (ttl maxSize : Nat) :
    (memory (L := L)).Wraps (ReplayMemory.ofCache instantClock ttl)
      fun entries => ⟨entries, ttl, maxSize⟩ where
  check entries now jti := by
    by_cases h : ReplayMemory.Recent instantClock ttl entries now jti
    · have hcheck : checkAndRecord (⟨entries, ttl, maxSize⟩ : DpopReplayCache L) now jti = _ :=
        checkAndRecord_of_remembers h
      rw [ReplayMemory.check_of_recent h, memory]
      dsimp only
      rw [hcheck]
      rfl
    · have hcheck : checkAndRecord (⟨entries, ttl, maxSize⟩ : DpopReplayCache L) now jti = _ :=
        checkAndRecord_of_not_remembers h
      rw [ReplayMemory.check_of_not_recent h, memory]
      dsimp only
      rw [hcheck]
      rfl
  sweep _ _ := rfl
  size _ := rfl

end DpopReplayCache

/-! ## The cache that is told the time -/

structure JtiReplayCache (L : Type*) where
  entries : L
  ttl : Nat
  capacity : Nat

namespace JtiReplayCache

variable {L : Type*} [LruCache L Str Int]

theorem clamped_pos (capacity : Nat) : 0 < max capacity 1 := Nat.le_max_right capacity 1

def new (capacity : Nat) (ttl : Nat) : JtiReplayCache L where
  entries := LruCache.new (Nat.toPNat (max capacity 1) (clamped_pos capacity))
  ttl := ttl
  capacity := max capacity 1

def len (cache : JtiReplayCache L) : Nat := (iter cache.entries).length

/-- A time before the one that was recorded counts as no time at all. -/
def checkAndInsert (cache : JtiReplayCache L) (jti : Str) (now : Int) :
    Except ReplayError Unit × JtiReplayCache L :=
  let insert := (.ok (), { cache with entries := put cache.entries jti now })
  match peek cache.entries jti with
  | some firstSeen =>
    let age := if now < firstSeen then 0 else (now - firstSeen).toNat
    if age < cache.ttl then (.error (.replayed cache.ttl), cache) else insert
  | none => insert

/-- The entry of the id is younger than the ttl. -/
def Remembers (cache : JtiReplayCache L) (now : Int) (jti : Str) : Prop :=
  ∃ firstSeen ∈ peek cache.entries jti, systemClock.age now firstSeen < cache.ttl

theorem age_eq (now seen : Int) :
    (if now < seen then 0 else (now - seen).toNat) = systemClock.age now seen := by
  change _ = (now - seen).toNat
  split_ifs with hlt
  · omega
  · rfl

theorem checkAndInsert_of_remembers {cache : JtiReplayCache L} {now : Int} {jti : Str}
    (h : cache.Remembers now jti) :
    cache.checkAndInsert jti now = (.error (.replayed cache.ttl), cache) := by
  obtain ⟨firstSeen, hpeek, hage⟩ := h
  rw [← age_eq] at hage
  rw [checkAndInsert, hpeek]
  exact if_pos hage

theorem checkAndInsert_of_not_remembers {cache : JtiReplayCache L} {now : Int} {jti : Str}
    (h : ¬ cache.Remembers now jti) : cache.checkAndInsert jti now =
      (.ok (), { cache with entries := put cache.entries jti now }) := by
  rw [checkAndInsert]
  split
  · next firstSeen hpeek =>
      refine if_neg fun hage => h ⟨firstSeen, hpeek, ?_⟩
      rwa [← age_eq]
  · rfl

/-- The cache is not swept: what has expired is overwritten. -/
def memory : ReplayMemory (JtiReplayCache L) Str Int where
  check cache now jti := ((cache.checkAndInsert jti now).1.isOk, (cache.checkAndInsert jti now).2)
  sweep cache _ := cache
  size := len

theorem wraps_memory (ttl capacity : Nat) :
    (memory (L := L)).Wraps (ReplayMemory.ofCache systemClock ttl).unswept
      fun entries => ⟨entries, ttl, capacity⟩ where
  check entries now jti := by
    rw [ReplayMemory.check_unswept]
    by_cases h : ReplayMemory.Recent systemClock ttl entries now jti
    · have hcheck : checkAndInsert (⟨entries, ttl, capacity⟩ : JtiReplayCache L) jti now = _ :=
        checkAndInsert_of_remembers h
      rw [ReplayMemory.check_of_recent h, memory]
      dsimp only
      rw [hcheck]
      rfl
    · have hcheck : checkAndInsert (⟨entries, ttl, capacity⟩ : JtiReplayCache L) jti now = _ :=
        checkAndInsert_of_not_remembers h
      rw [ReplayMemory.check_of_not_recent h, memory]
      dsimp only
      rw [hcheck]
      rfl
  sweep _ _ := rfl
  size _ := rfl

end JtiReplayCache

/-! ## Both of them -/

/-- Both caches last for their ttl, with the configured size or, at the least, one. -/
theorem replayCaches_lasting {L L' : Type*} [LruCache L Str Nat] [OrderedLruCache L]
    [LruCache L' Str Int] [OrderedLruCache L'] (ttl maxSize : Nat) :
    DpopReplayCache.memory.Lasting instantClock ttl (max maxSize 1)
        (DpopReplayCache.withConfig ttl maxSize : DpopReplayCache L) ∧
      JtiReplayCache.memory.Lasting systemClock ttl (max maxSize 1)
        (JtiReplayCache.new maxSize ttl : JtiReplayCache L') := by
  have hpos := Nat.le_max_right maxSize 1
  constructor
  · exact (DpopReplayCache.wraps_memory ttl (max maxSize 1)).lasting
      (ReplayMemory.lasting_ofCache instantClock ttl (Nat.toPNat _ hpos))
  · exact (JtiReplayCache.wraps_memory ttl (max maxSize 1)).lasting
      (ReplayMemory.lasting_ofCache systemClock ttl (Nat.toPNat _ hpos)).unswept

theorem replayCaches_lasting_default :
    DpopReplayCache.memory.Lasting instantClock (Duration.fromSecs 60) 10000
        (DpopReplayCache.withConfig (Duration.fromSecs 60) 10000 :
          DpopReplayCache (LruList Str Nat)) ∧
      JtiReplayCache.memory.Lasting systemClock (Duration.fromSecs 60) 10000
        (JtiReplayCache.new 10000 (Duration.fromSecs 60) : JtiReplayCache (LruList Str Int)) :=
  replayCaches_lasting (Duration.fromSecs 60) 10000

/-- A size of zero is taken for one, so the cache holds an entry more than it says. -/
theorem not_lasting_withConfig_zero :
    ¬ DpopReplayCache.memory.Lasting instantClock (Duration.fromSecs 60) 0
      (DpopReplayCache.withConfig (Duration.fromSecs 60) 0 :
        DpopReplayCache (LruList Str Nat)) := by
  intro h
  have hsize := h.bounded [.check 0 "jti-1"]
  exact absurd hsize (by decide)

end Oidc

end SolidPod
