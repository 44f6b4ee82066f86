import SolidPod.Foundation.Utf8
import SolidPod.Notifications.FanOut

/-!
# Runs of a legacy session

A legacy connection takes the frames of its client and the changes of the storage
in any order, and asks anew each time who may read. Whatever the answers are, the
subscriptions stay within their caps, each of them was allowed when it was made,
and a change is told at most once, to those it concerns.
-/

namespace SolidPod

open Foundation

namespace Notifications

open Str

/-- A legacy session with its caps. -/
structure LegacyConnection extends LegacyWebSocketSession where
  maxSubs : Nat
  maxUriBytes : Nat

def maxSubscriptionsPerConnection : Nat := 100

def maxUrlLength : Nat := 2048

namespace LegacyConnection

def new (subscriberWebid : Option Str) : LegacyConnection where
  subs := []
  subscriberWebid := subscriberWebid
  maxSubs := maxSubscriptionsPerConnection
  maxUriBytes := maxUrlLength

def withMaxSubs (session : LegacyConnection) (limit : Nat) : LegacyConnection :=
  { session with maxSubs := limit }

def withMaxUriBytes (session : LegacyConnection) (limit : Nat) : LegacyConnection :=
  { session with maxUriBytes := limit }

/-- A subscription that is there already does not count again. -/
def handleSub (canRead : Option Str → Str → Bool) (session : LegacyConnection) (uri : Str) :
    List LegacyFrame × LegacyConnection :=
  if uri.isEmpty then ([.err "unknown command"], session)
  else if byteLen uri > session.maxUriBytes then ([.err "uri too long"], session)
  else if !session.subs.contains uri && session.subs.length ≥ session.maxSubs then
    ([.err "subscription limit reached"], session)
  else if !canRead session.subscriberWebid uri then ([.err (uri ++ " forbidden")], session)
  else ([.ack uri], { session with subs := session.subs.insert uri })

def handleUnsub (session : LegacyConnection) (uri : Str) : LegacyConnection :=
  if uri.isEmpty then session else { session with subs := session.subs.erase uri }

def handleMessage (canRead : Option Str → Str → Bool) (session : LegacyConnection) (msg : Str) :
    List LegacyFrame × LegacyConnection :=
  let line := trim (msg.rdropWhile fun c => c == '\r' || c == '\n')
  if line.isEmpty then ([], session)
  else
    match stripPrefix "sub " line with
    | some rest => session.handleSub canRead (trim rest)
    | none =>
      match stripPrefix "unsub " line with
      | some rest => ([], session.handleUnsub (trim rest))
      | none => ([.err "unknown command"], session)

end LegacyConnection

/-- What comes to a session, with the answers of the access check at that moment. -/
inductive SessionMove where
  | message (canRead : Option Str → Str → Bool) (msg : Str)
  | change (canRead : Option Str → Str → Bool) (changedUri : Str)

namespace LegacyConnection

def step (session : LegacyConnection) : SessionMove → List LegacyFrame × LegacyConnection
  | .message canRead msg => session.handleMessage canRead msg
  | .change canRead changedUri => (session.onResourceChange canRead changedUri, session)

/-- The session after some moves. -/
abbrev after (session : LegacyConnection) (moves : List SessionMove) : LegacyConnection :=
  Lockstep.final step session moves

/-! ## One move -/

/-- A message subscribes, unsubscribes, or leaves the session alone. -/
inductive Moved (canRead : Option Str → Str → Bool) (session : LegacyConnection) :
    List LegacyFrame → LegacyConnection → Prop
  | subscribed (uri : Str) (hbytes : byteLen uri ≤ session.maxUriBytes)
      (hroom : uri ∈ session.subs ∨ session.subs.length < session.maxSubs)
      (hallowed : canRead session.subscriberWebid uri = true) :
      Moved canRead session [.ack uri] { session with subs := session.subs.insert uri }
  | unsubscribed (uri : Str) :
      Moved canRead session [] { session with subs := session.subs.erase uri }
  | ignored : Moved canRead session [] session
  | rejected (msg : Str) : Moved canRead session [.err msg] session

variable {canRead : Option Str → Str → Bool} {session : LegacyConnection} {uri msg : Str}
  {move : SessionMove} {moves : List SessionMove}

theorem moved_handleSub (canRead : Option Str → Str → Bool) (session : LegacyConnection)
    (uri : Str) : Moved canRead session (session.handleSub canRead uri).1
      (session.handleSub canRead uri).2 := by
  rw [handleSub]
  split_ifs with hempty hbytes hcap hallowed
  · exact .rejected _
  · exact .rejected _
  · exact .rejected _
  · exact .rejected _
  · refine .subscribed uri (not_lt.mp hbytes) ?_ (by simpa using hallowed)
    by_cases hmem : uri ∈ session.subs
    · exact .inl hmem
    · exact .inr (by simpa [hmem] using hcap)

theorem moved_handleMessage (canRead : Option Str → Str → Bool) (session : LegacyConnection)
    (msg : Str) : Moved canRead session (session.handleMessage canRead msg).1
      (session.handleMessage canRead msg).2 := by
  rw [handleMessage]
  split_ifs
  · exact .ignored
  · split
    · exact moved_handleSub canRead session _
    · split
      · rw [handleUnsub]
        split_ifs
        · exact .ignored
        · exact .unsubscribed _
      · exact .rejected _

/-! ## The caps -/

structure WithinCaps (session : LegacyConnection) : Prop where
  nodup : session.subs.Nodup
  count : session.subs.length ≤ session.maxSubs
  bytes : ∀ uri ∈ session.subs, byteLen uri ≤ session.maxUriBytes

theorem WithinCaps.moved {frames : List LegacyFrame} {next : LegacyConnection}
    (hcaps : WithinCaps session) (h : Moved canRead session frames next) : WithinCaps next := by
  cases h with
  | ignored => exact hcaps
  | rejected => exact hcaps
  | unsubscribed uri =>
      exact ⟨hcaps.nodup.erase uri, List.length_erase_le.trans hcaps.count,
        fun u hu => hcaps.bytes u (List.mem_of_mem_erase hu)⟩
  | subscribed uri hbytes hroom _ =>
      refine ⟨hcaps.nodup.insert, ?_, fun u hu => ?_⟩
      · by_cases hmem : uri ∈ session.subs
        · rw [List.insert_of_mem hmem]
          exact hcaps.count
        · rw [List.insert_of_not_mem hmem, List.length_cons]
          exact hroom.resolve_left hmem
      · rcases List.mem_insert_iff.mp hu with rfl | hold
        · exact hbytes
        · exact hcaps.bytes u hold

theorem WithinCaps.step (hcaps : WithinCaps session) (move : SessionMove) :
    WithinCaps (session.step move).2 := by
  cases move with
  | message canRead msg => exact hcaps.moved (moved_handleMessage canRead session msg)
  | change => exact hcaps

theorem WithinCaps.after (hcaps : WithinCaps session) (moves : List SessionMove) :
    WithinCaps (session.after moves) := by
  induction moves generalizing session with
  | nil => exact hcaps
  | cons move moves ih => exact ih (hcaps.step move)

/-! ## Insertions -/

/-- The sessions differ in their subscriptions only. -/
structure SameSettings (session next : LegacyConnection) : Prop where
  subscriberWebid : next.subscriberWebid = session.subscriberWebid
  maxSubs : next.maxSubs = session.maxSubs
  maxUriBytes : next.maxUriBytes = session.maxUriBytes

theorem Moved.sameSettings {frames : List LegacyFrame} {next : LegacyConnection}
    (h : Moved canRead session frames next) : SameSettings session next := by
  cases h <;> exact ⟨rfl, rfl, rfl⟩

theorem SameSettings.trans {s t u : LegacyConnection} (h : SameSettings s t)
    (h' : SameSettings t u) : SameSettings s u :=
  ⟨h'.subscriberWebid.trans h.subscriberWebid, h'.maxSubs.trans h.maxSubs,
    h'.maxUriBytes.trans h.maxUriBytes⟩

theorem Moved.allowed {frames : List LegacyFrame} {next : LegacyConnection}
    (h : Moved canRead session frames next) (hnew : uri ∈ next.subs) (hold : uri ∉ session.subs) :
    canRead session.subscriberWebid uri = true := by
  cases h with
  | ignored => exact absurd hnew hold
  | rejected => exact absurd hnew hold
  | unsubscribed u => exact absurd (List.mem_of_mem_erase hnew) hold
  | subscribed u hbytes hroom hallowed =>
      rcases List.mem_insert_iff.mp hnew with rfl | hmem
      · exact hallowed
      · exact absurd hmem hold

theorem Moved.eq_of_err {frames : List LegacyFrame} {next : LegacyConnection}
    (h : Moved canRead session frames next) (herr : .err msg ∈ frames) : next = session := by
  cases h with
  | ignored => rfl
  | rejected => rfl
  | unsubscribed u => cases herr
  | subscribed u =>
      rw [List.mem_singleton] at herr
      cases herr

theorem sameSettings_after (session : LegacyConnection) (moves : List SessionMove) :
    SameSettings session (session.after moves) := by
  induction moves generalizing session with
  | nil => exact ⟨rfl, rfl, rfl⟩
  | cons move moves ih =>
      refine SameSettings.trans ?_ (ih (session.step move).2)
      cases move with
      | change => exact ⟨rfl, rfl, rfl⟩
      | message canRead msg => exact (moved_handleMessage canRead session msg).sameSettings

theorem after_concat (session : LegacyConnection) (moves : List SessionMove)
    (move : SessionMove) :
    session.after (moves ++ [move]) = ((session.after moves).step move).2 := by
  rw [after, Lockstep.final, List.foldl_append]
  rfl

/-- The access check allowed the subscription when it was made, and it has been there
since. -/
def Admitted (session : LegacyConnection) (moves : List SessionMove) (uri : Str) : Prop :=
  ∃ pre canRead msg post, moves = pre ++ .message canRead msg :: post ∧
    uri ∉ (session.after pre).subs ∧ canRead session.subscriberWebid uri = true ∧
      ∀ mid, mid <+: post → uri ∈ (session.after (pre ++ .message canRead msg :: mid)).subs

theorem Admitted.concat (h : Admitted session moves uri)
    (hmem : uri ∈ (session.after (moves ++ [move])).subs) :
    Admitted session (moves ++ [move]) uri := by
  obtain ⟨pre, canRead, msg, post, rfl, hnew, hallowed, hstays⟩ := h
  refine ⟨pre, canRead, msg, post ++ [move], by simp, hnew, hallowed, fun mid hmid => ?_⟩
  rcases List.prefix_concat_iff.mp hmid with rfl | hbefore
  · rw [List.append_assoc, List.cons_append] at hmem
    exact hmem
  · exact hstays mid hbefore

theorem admitted_of_mem (hempty : session.subs = []) (moves : List SessionMove)
    (hmem : uri ∈ (session.after moves).subs) : Admitted session moves uri := by
  induction moves using List.reverseRecOn with
  | nil =>
      rw [after, Lockstep.final_nil, hempty] at hmem
      cases hmem
  | append_singleton moves move ih =>
      by_cases hold : uri ∈ (session.after moves).subs
      · exact (ih hold).concat hmem
      · have hnew := hmem
        rw [after_concat] at hnew
        cases move with
        | change canRead changedUri => exact absurd hnew hold
        | message canRead msg =>
            have hallowed := (moved_handleMessage canRead _ msg).allowed hnew hold
            rw [(sameSettings_after session moves).subscriberWebid] at hallowed
            refine ⟨moves, canRead, msg, [], rfl, hold, hallowed, fun mid hmid => ?_⟩
            rw [List.prefix_nil.mp hmid]
            exact hmem

/-! ## Changes -/

/-- The topic is a container above the resource: it is a beginning of the URI without the
slashes at its end, ends in a slash, and reaches beyond the authority of a URL. -/
def AncestorContainer (topic uri : Str) : Prop :=
  ['/'] <:+ topic ∧ topic <+: trimEndMatches '/' uri ∧ ReachesPath topic (trimEndMatches '/' uri)

theorem candidates_eq_nil_iff (subs : List Str) (uri : Str) :
    (if subs.contains uri then [uri] else []) ++ (ancestorContainers uri).filter subs.contains =
      [] ↔ ¬ ∃ topic ∈ subs, topic = uri ∨ AncestorContainer topic uri := by
  rw [List.append_eq_nil_iff, List.filter_eq_nil_iff]
  simp only [List.contains_iff_mem, ite_eq_right_iff, List.cons_ne_nil, imp_false, not_exists,
    not_and, not_or]
  constructor
  · rintro ⟨hself, habove⟩ topic htopic
    refine ⟨?_, fun hanc => habove topic (mem_ancestorContainers.mpr hanc) htopic⟩
    rintro rfl
    exact hself htopic
  · intro h
    exact ⟨fun hmem => (h uri hmem).1 rfl,
      fun topic htopic hmem => (h topic hmem).2 (mem_ancestorContainers.mp htopic)⟩

/-- A change is told once, to a session that it concerns, and openly only to one that
may read it. -/
structure ToldOnce (canRead : Option Str → Str → Bool) (session : LegacyConnection)
    (changedUri : Str) (frames : List LegacyFrame) : Prop where
  once : frames.length ≤ 1
  concerned : frames ≠ [] ↔ ∃ topic ∈ session.subs,
    topic = changedUri ∨ AncestorContainer topic changedUri
  readable : ∀ uri, .pub uri ∈ frames →
    uri = changedUri ∧ canRead session.subscriberWebid changedUri = true

theorem toldOnce_onResourceChange (canRead : Option Str → Str → Bool)
    (session : LegacyConnection) (changedUri : Str) :
    ToldOnce canRead session changedUri (session.onResourceChange canRead changedUri) := by
  have hcandidates := candidates_eq_nil_iff session.subs changedUri
  rw [LegacyWebSocketSession.onResourceChange]
  revert hcandidates
  generalize (if session.subs.contains changedUri then [changedUri] else []) ++
    (ancestorContainers changedUri).filter session.subs.contains = candidates
  intro hcandidates
  split_ifs with hnone hallowed
  · refine ⟨Nat.zero_le _, ?_, fun uri huri => absurd huri List.not_mem_nil⟩
    exact iff_of_false (fun h => h rfl) (hcandidates.mp (List.isEmpty_iff.mp hnone))
  · refine ⟨le_rfl, ?_, fun uri huri => ?_⟩
    · refine iff_of_true (List.cons_ne_nil _ _) (not_not.mp fun h => ?_)
      exact hnone (List.isEmpty_iff.mpr (hcandidates.mpr h))
    · cases List.mem_singleton.mp huri
      exact ⟨rfl, hallowed⟩
  · refine ⟨le_rfl, ?_, fun uri huri => ?_⟩
    · refine iff_of_true (List.cons_ne_nil _ _) (not_not.mp fun h => ?_)
      exact hnone (List.isEmpty_iff.mpr (hcandidates.mpr h))
    · cases List.mem_singleton.mp huri

/-! ## Every run -/

/-- What holds of a session at one point of a run. -/
structure SafeAfter (session : LegacyConnection) (moves : List SessionMove) : Prop where
  count : (session.after moves).subs.Nodup ∧ (session.after moves).subs.length ≤ session.maxSubs
  bytes : ∀ uri ∈ (session.after moves).subs, byteLen uri ≤ session.maxUriBytes
  admitted : ∀ uri ∈ (session.after moves).subs, Admitted session moves uri
  changes : ∀ canRead changedUri, ToldOnce canRead (session.after moves) changedUri
    ((session.after moves).step (.change canRead changedUri)).1
  rejected : ∀ move msg, .err msg ∈ ((session.after moves).step move).1 →
    ((session.after moves).step move).2.subs = (session.after moves).subs

end LegacyConnection

end Notifications

end SolidPod
