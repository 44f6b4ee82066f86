import SolidPod.Foundation.Lockstep
import SolidPod.Foundation.Tables
import SolidPod.Foundation.Utf8
import SolidPod.Idp.Tokens
import SolidPod.Security.RateLimit

/-!
# Accounts and the password login

The store of accounts is the consumer's, so its answers are the parameters of
`UserStore`. `login` checks the rate limit and the password and mints a token.
The store in memory keeps the accounts under their email addresses, in lower
case, and finds them by their identifiers as well. An insertion asks neither
whether the address nor whether the identifier is taken. The accounts stay apart
as long as every insertion that takes either of them is refused for its password.
-/

namespace SolidPod

open Foundation Security

namespace Idp

structure User where
  id : Str
  email : Str
  webid : Str
  name : Option Str
  passwordHash : Str
  deriving DecidableEq

/-- The answers of a store. An error is given by its text. -/
structure UserStore where
  findByEmail : Str → Except Str (Option User)
  findById : Str → Except Str (Option User)
  verifyPassword : User → Str → Except Str Bool

/-- The store looks for what it is asked for. -/
structure UserStore.Finds (users : UserStore) : Prop where
  id : ∀ {id user}, users.findById id = .ok (some user) → user.id = id

def rateLimitRoute : Str := "idp_credentials"

inductive LoginError where
  | rateLimited (retryAfterSecs : Nat)
  | invalidGrant
  | invalidRequest (msg : Str)
  | userStore (msg : Str)
  | token (msg : Str)
  deriving DecidableEq

structure CredentialsResponse where
  accessToken : Str
  tokenType : Str
  expiresIn : UInt64
  webid : Str
  id : Str

/-- The account that an email address and a password are good for. -/
def authenticate (users : UserStore) (email password : Str) : Except LoginError User :=
  if email.isEmpty || password.isEmpty then
    .error (.invalidRequest "email and password are required")
  else
    match users.findByEmail email with
    | .error e => .error (.userStore e)
    | .ok none => .error .invalidGrant
    | .ok (some user) =>
      match users.verifyPassword user password with
      | .error e => .error (.userStore e)
      | .ok false => .error .invalidGrant
      | .ok true => .ok user

/-- A token that says who owns an account; without a thumbprint it is bound to no key. -/
def login {lib : IdpLibrary} (overflowChecks : Bool) (email password : Str) (users : UserStore)
    (jwks : Jwks lib) (issuer : Str) (dpopJkt : Option Str)
    (limiter : RateLimitKey → RateLimitDecision) (ip jti : Str) (now ttlSecs : UInt64) :
    Option (Except LoginError CredentialsResponse) :=
  match limiter ⟨rateLimitRoute, .ip ip⟩ with
  | .deny retryAfterSecs _ _ => some (.error (.rateLimited retryAfterSecs))
  | .allow =>
    match authenticate users email password with
    | .error e => some (.error e)
    | .ok user =>
      (issueAccessToken overflowChecks jwks.active issuer user.webid user.id "credentials_client"
        "openid webid" dpopJkt jti now ttlSecs).map fun issued =>
          match issued with
          | .error e => .error (.token e.display)
          | .ok token => .ok ⟨token.jwt, if dpopJkt.isSome then "DPoP" else "Bearer", ttlSecs,
              user.webid, user.id⟩

/-- A login that is let in answers with the token it was issued. -/
theorem login_of_issued {lib : IdpLibrary} {overflowChecks : Bool} {email password : Str}
    {users : UserStore} {jwks : Jwks lib} {issuer : Str} {dpopJkt : Option Str}
    {limiter : RateLimitKey → RateLimitDecision} {ip jti : Str} {now ttlSecs : UInt64}
    {user : User} {t : AccessToken} (hlimit : limiter ⟨rateLimitRoute, .ip ip⟩ = .allow)
    (hauth : authenticate users email password = .ok user)
    (hissue : issueAccessToken overflowChecks jwks.active issuer user.webid user.id
      "credentials_client" "openid webid" dpopJkt jti now ttlSecs = some (.ok t)) :
    login overflowChecks email password users jwks issuer dpopJkt limiter ip jti now ttlSecs =
      some (.ok ⟨t.jwt, if dpopJkt.isSome then "DPoP" else "Bearer", ttlSecs, user.webid,
        user.id⟩) := by
  unfold login
  simp only [hlimit, hauth, hissue, Option.map_some]

end Idp

end SolidPod

namespace SolidPod

open Foundation

namespace Idp

open Str

inductive UserStoreError where
  | hash (msg : Str)
  | backend (msg : Str)
  | passwordTooShort (minLength : Nat)
  | notImplemented
  deriving DecidableEq

def minPasswordLength : Nat := 8

/-- The accounts by email address, in the order in which the map is gone through. -/
structure InMemoryUserStore where
  inner : AList fun _ : Str => User
  keyed : ∀ r ∈ inner.entries, r.2.email = r.1

/-- What an account is made of. The salt is drawn anew. -/
structure NewUser where
  id : Str
  email : Str
  webid : Str
  name : Option Str
  password : Str
  salt : Str

namespace InMemoryUserStore

theorem keyed_empty : ∀ r ∈ (∅ : AList fun _ : Str => User).entries, r.2.email = r.1 :=
  fun _ h => absurd h List.not_mem_nil

theorem keyed_insert (s : InMemoryUserStore) (user : User) :
    ∀ r ∈ (s.inner.insert user.email user).entries, r.2.email = r.1 := by
  intro r hr
  rw [AList.entries_insert] at hr
  rcases List.mem_cons.mp hr with rfl | hr
  · rfl
  · exact s.keyed r ((List.kerase_sublist _ _).subset hr)

theorem keyed_erase (s : InMemoryUserStore) (k : Str) :
    ∀ r ∈ (s.inner.erase k).entries, r.2.email = r.1 :=
  fun r hr => s.keyed r (SecondKey.mem_entries_erase.mp hr).2

def new : InMemoryUserStore := ⟨∅, keyed_empty⟩

/-- The account takes the place of the one with its email address. -/
def put (s : InMemoryUserStore) (user : User) : InMemoryUserStore :=
  ⟨s.inner.insert user.email user, keyed_insert s user⟩

def remove (s : InMemoryUserStore) (k : Str) : InMemoryUserStore :=
  ⟨s.inner.erase k, keyed_erase s k⟩

/-- `hashPassword` is the hash of a password with a salt. -/
def insertUser (hashPassword : Str → Str → Except Str Str) (a : NewUser) (s : InMemoryUserStore) :
    Except UserStoreError User × InMemoryUserStore :=
  if byteLen a.password < minPasswordLength then
    (.error (.passwordTooShort minPasswordLength), s)
  else
    match hashPassword a.password a.salt with
    | .error e => (.error (.hash e), s)
    | .ok hash =>
      let user : User := ⟨a.id, toAsciiLowercase a.email, a.webid, a.name, hash⟩
      (.ok user, s.put user)

def findByEmail (s : InMemoryUserStore) (email : Str) : Option User :=
  s.inner.lookup (toAsciiLowercase email)

def findById (s : InMemoryUserStore) (id : Str) : Option User :=
  (SecondKey.rowNamed User.id s.inner id).map Sigma.snd

/-- Whether a row was removed. -/
def delete (id : Str) (s : InMemoryUserStore) : Bool × InMemoryUserStore :=
  match SecondKey.rowNamed User.id s.inner id with
  | some r => (true, s.remove r.1)
  | none => (false, s)

/-- The store as the provider sees it. -/
def toUserStore (verifyPassword : User → Str → Except Str Bool) (s : InMemoryUserStore) :
    UserStore :=
  ⟨fun email => .ok (s.findByEmail email), fun id => .ok (s.findById id), verifyPassword⟩

def ids (s : InMemoryUserStore) : List Str := SecondKey.names User.id s.inner

def emails (s : InMemoryUserStore) : List Str := SecondKey.names User.email s.inner

/-- The same accounts, in whatever order. -/
def SameAccounts (s t : InMemoryUserStore) : Prop := s.inner.entries.Perm t.inner.entries

variable {hashPassword : Str → Str → Except Str Str} {a : NewUser} {s t : InMemoryUserStore}
  {id email : Str} {user : User}

theorem email_eq_of_findByEmail (h : s.findByEmail email = some user) :
    user.email = toAsciiLowercase email :=
  s.keyed _ (AList.mem_lookup_iff.mp h)

theorem findById_eq_none_iff : s.findById id = none ↔ id ∉ s.ids :=
  Option.map_eq_none_iff.trans SecondKey.rowNamed_eq_none_iff

theorem id_eq_of_findById (h : s.findById id = some user) : user.id = id := by
  obtain ⟨r, hr, rfl⟩ := Option.map_eq_some_iff.mp h
  exact (SecondKey.rowNamed_eq_some hr).2

theorem toUserStore_finds (verifyPassword : User → Str → Except Str Bool)
    (s : InMemoryUserStore) : (s.toUserStore verifyPassword).Finds where
  id h := id_eq_of_findById (Except.ok.inj h)

theorem id_mem_of_findByEmail (h : s.findByEmail email = some user) : user.id ∈ s.ids :=
  List.mem_map_of_mem (AList.mem_lookup_iff.mp h)

/-- The addresses of the accounts are the keys, so no two are the same. -/
theorem nodup_emails (s : InMemoryUserStore) : s.emails.Nodup := by
  have hkeys : s.emails = s.inner.keys := List.map_congr_left s.keyed
  rw [hkeys]
  exact s.inner.keys_nodup

end InMemoryUserStore

/-! ## Runs -/

open InMemoryUserStore

inductive UserCall where
  | insert (a : NewUser)
  | findByEmail (email : Str)
  | findById (id : Str)
  | delete (id : Str)

namespace UserCall

/-- The store after a call. -/
def next (hashPassword : Str → Str → Except Str Str) (s : InMemoryUserStore) :
    UserCall → InMemoryUserStore
  | .insert a => (insertUser hashPassword a s).2
  | .findByEmail _ | .findById _ => s
  | .delete id => (s.delete id).2

end UserCall

/-- After a call the map may be gone through in another order. -/
def UserStep (hashPassword : Str → Str → Except Str Str) (s : InMemoryUserStore) (c : UserCall)
    (t : InMemoryUserStore) : Prop :=
  SameAccounts (c.next hashPassword s) t

/-- Its identifier or its address belongs to an account. -/
def NewUser.Taken (a : NewUser) (s : InMemoryUserStore) : Prop :=
  a.id ∈ s.ids ∨ toAsciiLowercase a.email ∈ s.emails

/-- The password is too short or cannot be hashed. -/
def NewUser.Unusable (hashPassword : Str → Str → Except Str Str) (a : NewUser) : Prop :=
  byteLen a.password < minPasswordLength ∨ (hashPassword a.password a.salt).isOk = false

/-- What a store promises about its accounts. -/
structure KeepsApart (hashPassword : Str → Str → Except Str Str) (s : InMemoryUserStore)
    (run : List (UserCall × InMemoryUserStore)) : Prop where
  distinct : ∀ pre post, run = pre ++ post →
    (Trace.last s pre).ids.Nodup ∧ (Trace.last s pre).emails.Nodup
  /-- An account whose identifier or address is taken is not inserted. -/
  refuses : ∀ pre a t post, run = pre ++ (.insert a, t) :: post → a.Taken (Trace.last s pre) →
    (∃ e, (insertUser hashPassword a (Trace.last s pre)).1 = .error e) ∧
      SameAccounts (Trace.last s pre) t
  /-- An account that is deleted is not found until it is inserted again. -/
  forgets : ∀ pre id t mid post, run = pre ++ (.delete id, t) :: (mid ++ post) →
    (∀ c ∈ mid, ∀ a, c.1 = .insert a → a.id = id → a.Unusable hashPassword) →
      (Trace.last t mid).findById id = none ∧
        ∀ email user, (Trace.last t mid).findByEmail email = some user → user.id ≠ id

/-- An account whose identifier or address is taken comes with a password that no account
can have. -/
def NoneTaken (hashPassword : Str → Str → Except Str Str) (s : InMemoryUserStore)
    (run : List (UserCall × InMemoryUserStore)) : Prop :=
  ∀ pre a t post, run = pre ++ (.insert a, t) :: post → a.Taken (Trace.last s pre) →
    a.Unusable hashPassword

/-! ## Steps -/

section Steps

variable {hashPassword : Str → Str → Except Str Str} {s t : InMemoryUserStore} {a : NewUser}
  {c : UserCall} {id : Str}

theorem insertUser_of_unusable (h : a.Unusable hashPassword) (s : InMemoryUserStore) :
    ∃ e, insertUser hashPassword a s = (.error e, s) := by
  by_cases hshort : byteLen a.password < minPasswordLength
  · exact ⟨_, if_pos hshort⟩
  · have hhash := h.resolve_left hshort
    cases hresult : hashPassword a.password a.salt with
    | ok hash =>
        rw [hresult] at hhash
        cases hhash
    | error e =>
        rw [insertUser, if_neg hshort, hresult]
        exact ⟨_, rfl⟩

theorem insertUser_of_not_unusable (h : ¬ a.Unusable hashPassword) (s : InMemoryUserStore) :
    ∃ user : User, user.id = a.id ∧ user.email = toAsciiLowercase a.email ∧
      insertUser hashPassword a s = (.ok user, s.put user) := by
  obtain ⟨hlong, hhash⟩ := not_or.mp h
  cases hresult : hashPassword a.password a.salt with
  | ok hash =>
      rw [insertUser, if_neg hlong, hresult]
      exact ⟨⟨a.id, toAsciiLowercase a.email, a.webid, a.name, hash⟩, rfl, rfl, rfl⟩
  | error e =>
      rw [hresult] at hhash
      exact absurd rfl hhash

/-- A new account is refused for its password alone. -/
theorem insertUser_error_iff :
    (∃ e, (insertUser hashPassword a s).1 = .error e) ↔ a.Unusable hashPassword := by
  constructor
  · rintro ⟨e, he⟩
    by_contra h
    obtain ⟨user, -, -, hinsert⟩ := insertUser_of_not_unusable h s
    rw [hinsert] at he
    cases he
  · intro h
    obtain ⟨e, hinsert⟩ := insertUser_of_unusable h s
    exact ⟨e, congrArg Prod.fst hinsert⟩

theorem nodup_ids_of_sameAccounts (h : SameAccounts s t) : s.ids.Nodup ↔ t.ids.Nodup :=
  (SecondKey.names_perm h).nodup_iff

theorem mem_ids_of_sameAccounts (h : SameAccounts s t) : id ∈ s.ids ↔ id ∈ t.ids :=
  (SecondKey.names_perm h).mem_iff

theorem ids_put {user : User} : (s.put user).ids = user.id :: (s.remove user.email).ids := rfl

theorem mem_ids_remove {k : Str} (h : id ∈ (s.remove k).ids) : id ∈ s.ids := by
  obtain ⟨r, hr, hid⟩ := SecondKey.mem_names.mp h
  exact SecondKey.mem_names.mpr ⟨r, (SecondKey.mem_entries_erase.mp hr).2, hid⟩

/-- A deletion removes the only account with the identifier. -/
theorem not_mem_ids_delete (h : s.ids.Nodup) (id : Str) : id ∉ (s.delete id).2.ids := by
  rw [InMemoryUserStore.delete]
  cases hrow : SecondKey.rowNamed User.id s.inner id with
  | none => exact SecondKey.rowNamed_eq_none_iff.mp hrow
  | some r => exact SecondKey.not_mem_names_erase h hrow

theorem delete_cases (s : InMemoryUserStore) (id : Str) :
    (s.delete id).2 = s ∨ ∃ k, (s.delete id).2 = s.remove k := by
  rw [InMemoryUserStore.delete]
  cases SecondKey.rowNamed User.id s.inner id with
  | none => exact Or.inl rfl
  | some r => exact Or.inr ⟨r.1, rfl⟩

/-- A step leaves the identifiers apart that are apart before it, unless it inserts one
that is there. -/
theorem nodup_ids_step (hstep : UserStep hashPassword s c t) (h : s.ids.Nodup)
    (hfree : ∀ a, c = .insert a → a.Taken s → a.Unusable hashPassword) : t.ids.Nodup := by
  rw [← nodup_ids_of_sameAccounts hstep]
  cases c with
  | insert a =>
      by_cases hbad : a.Unusable hashPassword
      · obtain ⟨e, hinsert⟩ := insertUser_of_unusable hbad s
        rw [UserCall.next, hinsert]
        exact h
      · obtain ⟨user, hid, -, hinsert⟩ := insertUser_of_not_unusable hbad s
        have hfresh : a.id ∉ s.ids := fun hmem => hbad (hfree a rfl (Or.inl hmem))
        rw [UserCall.next, hinsert, ids_put, hid, List.nodup_cons]
        exact ⟨fun hmem => hfresh (mem_ids_remove hmem), SecondKey.nodup_names_erase h⟩
  | findByEmail email => exact h
  | findById id => exact h
  | delete id =>
      rw [UserCall.next]
      obtain heq | ⟨k, heq⟩ := delete_cases s id
      · rw [heq]
        exact h
      · rw [heq]
        exact SecondKey.nodup_names_erase h

/-- A step adds no identifier but that of an account it inserts. -/
theorem not_mem_ids_step (hstep : UserStep hashPassword s c t) (h : id ∉ s.ids)
    (hother : ∀ a, c = .insert a → a.id = id → a.Unusable hashPassword) : id ∉ t.ids := by
  rw [← mem_ids_of_sameAccounts hstep]
  cases c with
  | insert a =>
      by_cases hbad : a.Unusable hashPassword
      · obtain ⟨e, hinsert⟩ := insertUser_of_unusable hbad s
        rw [UserCall.next, hinsert]
        exact h
      · obtain ⟨user, hid, -, hinsert⟩ := insertUser_of_not_unusable hbad s
        rw [UserCall.next, hinsert, ids_put, hid, List.mem_cons, not_or]
        exact ⟨fun heq => hbad (hother a rfl heq.symm), fun hmem => h (mem_ids_remove hmem)⟩
  | findByEmail email => exact h
  | findById id => exact h
  | delete id' =>
      rw [UserCall.next]
      obtain heq | ⟨k, heq⟩ := delete_cases s id'
      · rw [heq]
        exact h
      · rw [heq]
        exact fun hmem => h (mem_ids_remove hmem)

end Steps

/-! ## What a run keeps -/

variable {hashPassword : Str → Str → Except Str Str}
  {run : List (UserCall × InMemoryUserStore)}

theorem NoneTaken.left {s : InMemoryUserStore} {pre post : List (UserCall × InMemoryUserStore)}
    (h : NoneTaken hashPassword s (pre ++ post)) : NoneTaken hashPassword s pre := by
  intro front a t back heq
  exact h front a t (back ++ post) (by rw [heq, List.append_assoc, List.cons_append])

theorem nodup_ids_last {s : InMemoryUserStore} (hrun : Trace.IsRun (UserStep hashPassword) s run)
    (hs : s.ids.Nodup) (h : NoneTaken hashPassword s run) : (Trace.last s run).ids.Nodup := by
  refine hrun.keeps (P := fun u => u.ids.Nodup) hs ?_
  intro pre c t post heq hstep hpre
  refine nodup_ids_step hstep hpre ?_
  rintro a rfl
  exact h pre a t post heq

theorem not_mem_ids_last {s : InMemoryUserStore} {id : Str}
    (hrun : Trace.IsRun (UserStep hashPassword) s run) (hs : id ∉ s.ids)
    (h : ∀ c ∈ run, ∀ a, c.1 = .insert a → a.id = id → a.Unusable hashPassword) :
    id ∉ (Trace.last s run).ids := by
  refine hrun.keeps (P := fun u => id ∉ u.ids) hs ?_
  intro pre c t post heq hstep hpre
  exact not_mem_ids_step hstep hpre (h (c, t) (by simp [heq]))

/-- The accounts stay apart exactly in the runs in which every new account whose identifier
or address is taken is refused for its password. -/
theorem keepsApart_iff (hrun : Trace.IsRun (UserStep hashPassword) .new run) :
    KeepsApart hashPassword .new run ↔ NoneTaken hashPassword .new run := by
  constructor
  · intro h pre a t post heq htaken
    exact insertUser_error_iff.mp (h.refuses pre a t post heq htaken).1
  · intro h
    have hids : ∀ pre post, run = pre ++ post → (Trace.last .new pre).ids.Nodup := by
      rintro pre post rfl
      exact nodup_ids_last (Trace.isRun_append.mp hrun).1 List.nodup_nil h.left
    refine ⟨fun pre post heq => ⟨hids pre post heq, nodup_emails _⟩, ?_, ?_⟩
    · intro pre a t post heq htaken
      have hbad := h pre a t post heq htaken
      obtain ⟨e, hinsert⟩ := insertUser_of_unusable hbad (Trace.last .new pre)
      rw [heq, Trace.isRun_append] at hrun
      have hstep : SameAccounts (insertUser hashPassword a (Trace.last .new pre)).2 t := hrun.2.1
      rw [hinsert] at hstep ⊢
      exact ⟨⟨e, rfl⟩, hstep⟩
    · intro pre id t mid post heq hmid
      rw [heq, Trace.isRun_append] at hrun
      obtain ⟨-, hstep, hrest⟩ := hrun
      have hdeleted : id ∉ t.ids := by
        rw [← mem_ids_of_sameAccounts hstep]
        exact not_mem_ids_delete (hids pre _ heq) id
      have hgone := not_mem_ids_last (Trace.isRun_append.mp hrest).1 hdeleted hmid
      refine ⟨findById_eq_none_iff.mpr hgone, ?_⟩
      rintro email user hfound rfl
      exact hgone (id_mem_of_findByEmail hfound)

/-! ## An account under another one's address -/

/-- The hash of every password can be made. -/
def sampleHash (_ salt : Str) : Except Str Str := .ok ("$argon2id$v=19$m=19456,t=2,p=1$" ++ salt)

def ada : NewUser :=
  ⟨"u-1", "ada@example.com", "https://ada.example/profile#me", some "Ada", "correct-horse", "c2Fs"⟩

def mallory : NewUser :=
  ⟨"u-2", "ADA@example.com", "https://mallory.example/profile#me", none, "12345678", "dHNh"⟩

def withAda : InMemoryUserStore := (insertUser sampleHash ada .new).2

def withMallory : InMemoryUserStore := (insertUser sampleHash mallory withAda).2

def takeover : List (UserCall × InMemoryUserStore) :=
  [(.insert ada, withAda), (.insert mallory, withMallory)]

theorem isRun_takeover : Trace.IsRun (UserStep sampleHash) .new takeover :=
  ⟨List.Perm.refl _, List.Perm.refl _, trivial⟩

theorem keepsApart_iff_takeover : Trace.IsRun (UserStep sampleHash) .new takeover ∧
    (KeepsApart sampleHash .new takeover ↔ NoneTaken sampleHash .new takeover) :=
  ⟨isRun_takeover, keepsApart_iff isRun_takeover⟩

set_option maxRecDepth 2048 in
/-- The second account takes the place of the first, whose WebID its address no longer
leads to. -/
theorem takeover_not_keepsApart :
    (withMallory.findByEmail ada.email).map User.webid = some mallory.webid ∧
      ¬ ∀ run, Trace.IsRun (UserStep sampleHash) .new run → KeepsApart sampleHash .new run := by
  refine ⟨by decide, ?_⟩
  intro h
  have htaken : mallory.Taken withAda := Or.inr (by decide)
  have herror :=
    ((h takeover isRun_takeover).refuses [(.insert ada, withAda)] mallory withMallory []
    rfl htaken).1
  obtain hshort | hhash := insertUser_error_iff.mp herror
  · exact absurd hshort (by decide)
  · cases hhash

end Idp

end SolidPod
