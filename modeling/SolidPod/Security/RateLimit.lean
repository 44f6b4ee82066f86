import SolidPod.Foundation.LruCache
import SolidPod.Foundation.Text
import SolidPod.Foundation.Windows

/-!
# The rate limiter

`LruRateLimiter` keeps for each key the instants of its hits in the window of
its route, in a bounded cache. Instants and durations are whole nanoseconds; an
instant before the earliest one that the platform can represent is not an
instant.
-/

namespace SolidPod

open Foundation

namespace Security

/-- A client; an address is the text it is shown as. -/
inductive RateLimitSubject where
  | ip (addr : Str)
  | webId (url : Str)
  | custom (key : Str)
  deriving DecidableEq

def RateLimitSubject.canonical : RateLimitSubject → Str
  | .ip addr => "ip:" ++ addr
  | .webId url => "webid:" ++ url
  | .custom key => "custom:" ++ key

structure RateLimitKey where
  route : Str
  subject : RateLimitSubject
  deriving DecidableEq

def RateLimitKey.canonical (key : RateLimitKey) : Str :=
  key.route ++ "|" ++ key.subject.canonical

inductive RateLimitDecision where
  | allow
  | deny (retryAfterSecs limit windowSecs : Nat)
  deriving DecidableEq

/-- A policy; building one with no hits or no window is refused. -/
structure RoutePolicy where
  route : Str
  max : Nat
  window : Nat
  max_pos : 0 < max
  max_lt : max < 2 ^ 32
  window_pos : 0 < window

def nanosPerSec : Nat := 1000000000

/-- Sixty hits in sixty seconds. -/
def defaultPolicy : RoutePolicy where
  route := []
  max := 60
  window := 60 * nanosPerSec
  max_pos := by decide
  max_lt := by decide
  window_pos := by decide

/-- The instant a duration earlier, if there is one. -/
def checkedSub (earliest now : Int) (d : Nat) : Option Int :=
  if earliest ≤ now - d then some (now - d) else none

/-- The hits that are still in the window. -/
def prune (earliest : Int) (now : Int) (window : Nat) (hits : List Int) : List Int :=
  match checkedSub earliest now window with
  | some cutoff => hits.filter fun t => cutoff < t
  | none => []

/-- The seconds of a duration, rounded up; they do not exceed 64 bits. -/
def ceilSecs (d : Nat) : Nat :=
  if 0 < d % nanosPerSec then min (d / nanosPerSec + 1) (2 ^ 64 - 1) else d / nanosPerSec

structure LruRateLimiter (L : Type*) where
  buckets : L
  policies : List RoutePolicy
  defaultPolicy : RoutePolicy

namespace LruRateLimiter

variable {L : Type*} [LruCache L Str (List Int)]

open LruCache

def withCapacityAndPolicies (capacity : Nat) (policies : List RoutePolicy) : LruRateLimiter L where
  buckets := new (max capacity 1).toPNat'
  policies := policies
  defaultPolicy := Security.defaultPolicy

def policyFor (lim : LruRateLimiter L) (route : Str) : RoutePolicy :=
  (lim.policies.find? fun p => p.route = route).getD lim.defaultPolicy

def checkSync (earliest : Int) (lim : LruRateLimiter L) (key : RateLimitKey) (now : Int) :
    RateLimitDecision × LruRateLimiter L :=
  let policy := lim.policyFor key.route
  let hits := prune earliest now policy.window ((peek lim.buckets key.canonical).getD [])
  let windowSecs := max (policy.window / nanosPerSec) 1
  if policy.max ≤ hits.length % 2 ^ 32 then
    let elapsed := (now - hits.head?.getD now).toNat
    let remaining := policy.window - elapsed
    (.deny (max (ceilSecs remaining) 1) policy.max windowSecs,
      { lim with buckets := put lim.buckets key.canonical hits })
  else (.allow, { lim with buckets := put lim.buckets key.canonical (hits ++ [now]) })

/-- A check on the hits that are filed under its key. -/
def serve (earliest : Int) (policy : RoutePolicy) (now : Int) (filed : Option (List Int)) :
    RateLimitDecision × List Int :=
  let hits := prune earliest now policy.window (filed.getD [])
  if policy.max ≤ hits.length % 2 ^ 32 then
    let remaining := policy.window - (now - hits.head?.getD now).toNat
    (.deny (max (ceilSecs remaining) 1) policy.max (max (policy.window / nanosPerSec) 1), hits)
  else (.allow, hits ++ [now])

theorem checkSync_eq (earliest : Int) (lim : LruRateLimiter L) (key : RateLimitKey) (now : Int) :
    lim.checkSync earliest key now =
      ((serve earliest (lim.policyFor key.route) now (peek lim.buckets key.canonical)).1,
        { lim with
          buckets := put lim.buckets key.canonical
            (serve earliest (lim.policyFor key.route) now
              (peek lim.buckets key.canonical)).2 }) := by
  rw [checkSync, serve]
  split_ifs
  · rfl
  · rfl

end LruRateLimiter

end Security

end SolidPod
