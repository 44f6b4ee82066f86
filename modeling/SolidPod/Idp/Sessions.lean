import SolidPod.Foundation.Expiry
import SolidPod.Idp.Tokens

/-!
# Sessions

The sessions of `SessionStore`, by their ids; its codes are kept apart from them.
A session is good until it is revoked, as long as it is looked up often enough:
every lookup puts its end off. Instants are whole numbers, and a call that reads
the clock twice is given both readings.
-/

namespace SolidPod

open Foundation Expiry

namespace Idp

inductive SessionError where
  | unknown
  | expired
  deriving DecidableEq

structure SessionRecord where
  accountId : Str
  createdAt : ℕ
  lastAccess : ℕ
  deriving DecidableEq

structure LiveSessions where
  sessions : Str → Option SessionRecord
  sessionTtl : ℕ

namespace LiveSessions

def withTtl (sessionTtl : ℕ) : LiveSessions := ⟨fun _ => none, sessionTtl⟩

/-- `HashMap::insert`, or `HashMap::remove`. -/
def set (s : LiveSessions) (id : Str) (record : Option SessionRecord) : LiveSessions :=
  { s with sessions := fun i => if i = id then record else s.sessions i }

/-- The id is drawn at random. -/
def createSession (s : LiveSessions) (id accountId : Str) (createdAt lastAccess : ℕ) :
    LiveSessions :=
  s.set id (some ⟨accountId, createdAt, lastAccess⟩)

def lookup (s : LiveSessions) (id : Str) (now renewed : ℕ) :
    Except SessionError SessionRecord × LiveSessions :=
  match s.sessions id with
  | none => (.error .unknown, s)
  | some entry =>
    if now - entry.lastAccess > s.sessionTtl then (.error .expired, s.set id none)
    else
      let entry := { entry with lastAccess := renewed }
      (.ok entry, s.set id (some entry))

def revoke (s : LiveSessions) (id : Str) : LiveSessions := s.set id none

end LiveSessions

/-- A call, with what it draws and reads from the clock. -/
inductive SessionCall where
  | createSession (id accountId : Str) (createdAt lastAccess : ℕ)
  | lookup (id : Str) (now renewed : ℕ)
  | revoke (id : Str)

def LiveSessions.after (s : LiveSessions) : SessionCall → LiveSessions
  | .createSession id accountId createdAt lastAccess =>
    s.createSession id accountId createdAt lastAccess
  | .lookup id now renewed => (s.lookup id now renewed).2
  | .revoke id => s.revoke id

/-- The store after some calls. -/
def LiveSessions.run (sessionTtl : ℕ) (calls : List SessionCall) : LiveSessions :=
  calls.foldl .after (.withTtl sessionTtl)

/-- What a call does to the session under an id, which holds its account and the time it was
created at. -/
def SessionCall.useOf (id : Str) : SessionCall → Option (Use (Str × ℕ))
  | .createSession id' accountId createdAt lastAccess =>
    if id' = id then some (.put (accountId, createdAt) lastAccess) else none
  | .lookup id' now renewed => if id' = id then some (.ask now renewed) else none
  | .revoke id' => if id' = id then some .drop else none

def usesOf (id : Str) (calls : List SessionCall) : List (Use (Str × ℕ)) :=
  calls.filterMap (SessionCall.useOf id)

/-- The record of an entry. -/
def recordOf (e : (Str × ℕ) × ℕ) : SessionRecord := ⟨e.1.1, e.1.2, e.2⟩

section Runs

variable {ttl : ℕ} {s : LiveSessions} {id : Str} {call : SessionCall} {calls : List SessionCall}

theorem lookup_of_none (h : s.sessions id = none) (now renewed : ℕ) :
    s.lookup id now renewed = (.error .unknown, s) := by
  rw [LiveSessions.lookup, h]

theorem lookup_of_le {entry : SessionRecord} {now : ℕ} (h : s.sessions id = some entry)
    (hage : now - entry.lastAccess ≤ s.sessionTtl) (renewed : ℕ) :
    s.lookup id now renewed = (.ok { entry with lastAccess := renewed },
      s.set id (some { entry with lastAccess := renewed })) := by
  rw [LiveSessions.lookup, h]
  exact if_neg (Nat.not_lt.mpr hage)

theorem lookup_of_lt {entry : SessionRecord} {now : ℕ} (h : s.sessions id = some entry)
    (hage : s.sessionTtl < now - entry.lastAccess) (renewed : ℕ) :
    s.lookup id now renewed = (.error .expired, s.set id none) := by
  rw [LiveSessions.lookup, h]
  exact if_pos hage

theorem sessionTtl_after : (s.after call).sessionTtl = s.sessionTtl := by
  cases call with
  | createSession | revoke => rfl
  | lookup id now renewed =>
      rw [LiveSessions.after, LiveSessions.lookup]
      split
      · rfl
      · split_ifs <;> rfl

theorem run_concat (calls : List SessionCall) (call : SessionCall) :
    LiveSessions.run ttl (calls ++ [call]) = (LiveSessions.run ttl calls).after call :=
  List.foldl_append

theorem sessionTtl_run (calls : List SessionCall) :
    (LiveSessions.run ttl calls).sessionTtl = ttl := by
  induction calls using List.reverseRecOn with
  | nil => rfl
  | append_singleton calls call ih => rw [run_concat, sessionTtl_after, ih]

theorem sessions_set (record : Option SessionRecord) (i : Str) :
    (s.set id record).sessions i = if i = id then record else s.sessions i := rfl

/-- A call of another id leaves the session alone. -/
theorem sessions_after_of_none (h : call.useOf id = none) :
    (s.after call).sessions id = s.sessions id := by
  cases call with
  | createSession id' accountId createdAt lastAccess =>
      rw [SessionCall.useOf] at h
      split_ifs at h with hid
      exact if_neg (Ne.symm hid)
  | revoke id' =>
      rw [SessionCall.useOf] at h
      split_ifs at h with hid
      exact if_neg (Ne.symm hid)
  | lookup id' now renewed =>
      rw [SessionCall.useOf] at h
      split_ifs at h with hid
      rw [LiveSessions.after, LiveSessions.lookup]
      split
      · rfl
      · split_ifs
        · exact if_neg (Ne.symm hid)
        · exact if_neg (Ne.symm hid)

/-- A call of the id does to the session what the use does to the entry. -/
theorem sessions_after_of_some {u : Use (Str × ℕ)} {o : Option ((Str × ℕ) × ℕ)}
    (h : call.useOf id = some u) (ho : s.sessions id = o.map recordOf) :
    (s.after call).sessions id = (use s.sessionTtl o u).map recordOf := by
  cases call with
  | createSession id' accountId createdAt lastAccess =>
      rw [SessionCall.useOf] at h
      split_ifs at h with hid
      cases h
      exact if_pos hid.symm
  | revoke id' =>
      rw [SessionCall.useOf] at h
      split_ifs at h with hid
      cases h
      exact if_pos hid.symm
  | lookup id' now renewed =>
      rw [SessionCall.useOf] at h
      split_ifs at h with hid
      cases h
      subst hid
      rw [LiveSessions.after]
      cases o with
      | none =>
          rw [lookup_of_none ho]
          exact ho
      | some e =>
          obtain ⟨v, last⟩ := e
          by_cases hage : now - last ≤ s.sessionTtl
          · rw [lookup_of_le ho hage, use_ask_of_le hage]
            exact if_pos rfl
          · rw [lookup_of_lt ho (Nat.lt_of_not_le hage), use_ask_of_lt (Nat.lt_of_not_le hage)]
            exact if_pos rfl

theorem sessions_run (calls : List SessionCall) (id : Str) :
    (LiveSessions.run ttl calls).sessions id =
      (Expiry.after ttl (usesOf id calls)).map recordOf := by
  induction calls using List.reverseRecOn with
  | nil => rfl
  | append_singleton calls call ih =>
      rw [run_concat, usesOf, List.filterMap_append]
      cases huse : call.useOf id with
      | none =>
          rw [sessions_after_of_none huse, ih, List.filterMap_cons_none huse, List.filterMap_nil,
            List.append_nil, usesOf]
      | some u =>
          rw [sessions_after_of_some huse ih, sessionTtl_run, List.filterMap_cons_some huse,
            List.filterMap_nil, after_concat, usesOf]

end Runs

/-- The session under an id was created for an account and not revoked since, and the next
lookup of it comes in time, like each one before it. -/
def LoggedIn (ttl : ℕ) (calls : List SessionCall) (id accountId : Str) (createdAt : ℕ)
    (next : ℕ × ℕ) : Prop :=
  ∃ stamp lookups, Touched (usesOf id calls) (accountId, createdAt) stamp lookups ∧
    InTime ttl ((stamp, stamp) :: (lookups ++ [next]))

/-- The next lookup is the first one that comes late. -/
def RunOut (ttl : ℕ) (calls : List SessionCall) (id accountId : Str) (createdAt : ℕ)
    (next : ℕ × ℕ) : Prop :=
  ∃ stamp lookups, Touched (usesOf id calls) (accountId, createdAt) stamp lookups ∧
    InTime ttl ((stamp, stamp) :: lookups) ∧ ¬ InTime ttl ((stamp, stamp) :: (lookups ++ [next]))

/-- A lookup answers with the session that was created under the id, if it and every lookup
before it came in time. It says that the session expired if it is the first one to come late, and
that it knows none otherwise. -/
theorem lookup_run (ttl : ℕ) (calls : List SessionCall) (id : Str) (now renewed : ℕ) :
    (∀ record, ((LiveSessions.run ttl calls).lookup id now renewed).1 = .ok record ↔
      ∃ accountId createdAt, LoggedIn ttl calls id accountId createdAt (now, renewed) ∧
        record = ⟨accountId, createdAt, renewed⟩) ∧
    (((LiveSessions.run ttl calls).lookup id now renewed).1 = .error .expired ↔
      ∃ accountId createdAt, RunOut ttl calls id accountId createdAt (now, renewed)) := by
  have hsessions : (LiveSessions.run ttl calls).sessions id =
      (Expiry.after ttl (usesOf id calls)).map recordOf := sessions_run calls id
  have hin : ∀ accountId createdAt, LoggedIn ttl calls id accountId createdAt (now, renewed) ↔ _ :=
    fun _ _ => use_ask_iff.symm
  have hout : ∀ accountId createdAt, RunOut ttl calls id accountId createdAt (now, renewed) ↔ _ :=
    fun _ _ => exists_after_iff.symm
  simp only [hin, hout]
  cases hafter : Expiry.after ttl (usesOf id calls) with
  | none =>
      rw [hafter] at hsessions
      rw [lookup_of_none hsessions]
      constructor
      · intro record
        refine iff_of_false (fun h => by cases h) ?_
        rintro ⟨accountId, createdAt, h, -⟩
        cases h
      · refine iff_of_false (fun h => by cases h) ?_
        rintro ⟨accountId, createdAt, last, h, -⟩
        cases h
  | some e =>
      obtain ⟨⟨accountId, createdAt⟩, last⟩ := e
      rw [hafter] at hsessions
      by_cases hage : now - last ≤ ttl
      · rw [lookup_of_le hsessions (by rwa [sessionTtl_run])]
        constructor
        · intro record
          rw [Except.ok.injEq]
          constructor
          · intro h
            exact ⟨accountId, createdAt, use_ask_of_le hage, h.symm⟩
          · rintro ⟨_, _, h, rfl⟩
            rw [use_ask_of_le hage] at h
            cases h
            rfl
        · refine iff_of_false (fun h => by cases h) ?_
          rintro ⟨_, _, _, h, hlate⟩
          cases h
          exact absurd hage (Nat.not_le.mpr hlate)
      · have hlate := Nat.lt_of_not_le hage
        rw [lookup_of_lt hsessions (by rwa [sessionTtl_run])]
        constructor
        · intro record
          refine iff_of_false (fun h => by cases h) ?_
          rintro ⟨_, _, h, -⟩
          rw [use_ask_of_lt hlate] at h
          cases h
        · exact iff_of_true rfl ⟨accountId, createdAt, last, rfl, hlate⟩

end Idp

end SolidPod
