import SolidPod.Foundation.Windows
import SolidPod.Idp.Usability

/-!
# Key rotation

The signing keys over time: a key is generated or inserted in place of the active
one, which is retired and published on, retired keys are pruned, and tokens are
issued in between. Instants and durations are whole nanoseconds. A token that has
not expired finds the key it was signed with under its key id.
-/

namespace SolidPod

open Foundation Str Fallible Oidc Retirement

namespace Idp

/-! ## The operations -/

def nanosPerSec : Nat := 1000000000

inductive JwksError where
  | keyGen (msg : Str)
  deriving DecidableEq

def JwksError.display : JwksError → Str
  | .keyGen msg => "key generation: " ++ msg

section Library

variable {lib : IdpLibrary}

/-- Retired keys are kept for a week if nothing else is said. -/
def Jwks.fromActive (active : SigningKey lib) : Jwks lib :=
  ⟨active, [], 7 * 24 * 3600 * nanosPerSec⟩

def Jwks.withRetention (jwks : Jwks lib) (retention : Nat) : Jwks lib :=
  { jwks with retention := retention }

def Jwks.activeKey (jwks : Jwks lib) : SigningKey lib := jwks.active

def Jwks.insertSigningKey (jwks : Jwks lib) (key : SigningKey lib) (now : Nat) : Jwks lib :=
  { jwks with
    active := key
    retired := jwks.retired ++ [(jwks.active, now)] }

/-- The key is generated first, and nothing is changed if that fails. -/
def Jwks.rotate (jwks : Jwks lib) (generated : Except JwksError (SigningKey lib)) (now : Nat) :
    Except JwksError (SigningKey lib) × Jwks lib :=
  match generated with
  | .error e => (.error e, jwks)
  | .ok new =>
      (.ok new,
        { jwks with
          active := new
          retired := jwks.retired ++ [(jwks.active, now)] })

/-- The time since each retirement is read off the clock on its own; a retirement in
the future counts as one right now. -/
def Jwks.pruneExpired (jwks : Jwks lib) (clock : Nat → Nat) : Jwks lib :=
  { jwks with retired := prune jwks.retention clock jwks.retired }

/-- All keys that are published. -/
def Jwks.keys (jwks : Jwks lib) : List (SigningKey lib) := jwks.active :: jwks.retired.map Prod.fst

/-- The document has the key under its id, and no other key under that id. -/
structure Jwks.Resolves (jwks : Jwks lib) (key : SigningKey lib) : Prop where
  mem : key.publicJwk ∈ jwks.publicDocument
  unique : ∀ k ∈ jwks.publicDocument, k.kid = key.kid → k = key.publicJwk

theorem SigningKey.kid_publicJwk (key : SigningKey lib) : key.publicJwk.kid = key.kid := by
  rw [key.published, es256Jwk]

theorem Jwks.publicDocument_eq (jwks : Jwks lib) :
    jwks.publicDocument = jwks.keys.map SigningKey.publicJwk := by
  rw [publicDocument, keys, List.map_cons, List.map_map]
  rfl

/-- Keys with different ids resolve. -/
theorem Jwks.resolves_of_mem {jwks : Jwks lib} {keys : List (SigningKey lib)}
    {key : SigningKey lib} (hkids : (keys.map SigningKey.kid).Nodup)
    (hsub : ∀ k ∈ jwks.keys, k ∈ keys) (hkey : key ∈ jwks.keys) : jwks.Resolves key where
  mem := by
    rw [publicDocument_eq]
    exact List.mem_map_of_mem hkey
  unique k hk hkid := by
    rw [publicDocument_eq] at hk
    obtain ⟨k', hk', rfl⟩ := List.mem_map.mp hk
    rw [SigningKey.kid_publicJwk] at hkid
    rw [List.inj_on_of_nodup_map hkids (hsub k' hk') (hsub key hkey) hkid]

/-! ## What happens to the keys -/

/-- What a token is asked for. -/
structure IssueArgs where
  issuer : Str
  webid : Str
  accountId : Str
  clientId : Str
  scope : Str
  dpopJkt : Option Str
  jti : Str
  now : UInt64
  ttlSecs : UInt64

inductive KeyEvent (lib : IdpLibrary) where
  | rotate (generated : Except JwksError (SigningKey lib)) (now : Nat)
  | insertSigningKey (key : SigningKey lib) (now : Nat)
  | pruneExpired (clock : Nat → Nat)
  | issue (args : IssueArgs)

/-- The key that an event makes active. -/
def KeyEvent.newKey : KeyEvent lib → Option (SigningKey lib)
  | .rotate (.ok new) _ => some new
  | .insertSigningKey key _ => some key
  | .rotate (.error _) _ | .pruneExpired _ | .issue _ => none

/-- The readings of the clock lie between two instants. A token is issued with the
last whole second, which may have begun earlier. -/
def KeyEvent.ReadsWithin (start stop : Nat) : KeyEvent lib → Prop
  | .rotate _ now | .insertSigningKey _ now => start ≤ now ∧ now ≤ stop
  | .pruneExpired clock => ∀ i, start ≤ clock i ∧ clock i ≤ stop
  | .issue args => args.now.toNat * nanosPerSec ≤ stop

structure TimedEvent (lib : IdpLibrary) where
  event : KeyEvent lib
  start : Nat
  stop : Nat
  start_le_stop : start ≤ stop
  reads : event.ReadsWithin start stop

/-- The keys, and every token that was issued, with the key that signed it. -/
structure Rotation (lib : IdpLibrary) where
  jwks : Jwks lib
  issued : List (SigningKey lib × AccessToken)

def Rotation.step (overflowChecks : Bool) (s : Rotation lib) : KeyEvent lib → Rotation lib
  | .rotate generated now => { s with jwks := (s.jwks.rotate generated now).2 }
  | .insertSigningKey key now => { s with jwks := s.jwks.insertSigningKey key now }
  | .pruneExpired clock => { s with jwks := s.jwks.pruneExpired clock }
  | .issue a =>
      let key := s.jwks.activeKey
      match issueAccessToken overflowChecks key a.issuer a.webid a.accountId a.clientId a.scope
        a.dpopJkt a.jti a.now a.ttlSecs with
      | some (.ok token) => { s with issued := s.issued ++ [(key, token)] }
      | some (.error _) | none => s

def Rotation.run (overflowChecks : Bool) (s : Rotation lib) (events : List (TimedEvent lib)) :
    Rotation lib :=
  events.foldl (fun s e => s.step overflowChecks e.event) s

/-- Each event starts when the one before it has stopped. -/
def Chronological : Nat → List (TimedEvent lib) → Prop
  | _, [] => True
  | now, e :: events => now ≤ e.start ∧ Chronological e.stop events

/-- When the last event has stopped. -/
def finish (now : Nat) (events : List (TimedEvent lib)) : Nat :=
  events.foldl (fun _ e => e.stop) now

/-- The lifetime of every token lies below the retention. -/
def ShortLived (retention : Nat) (events : List (TimedEvent lib)) : Prop :=
  ∀ e ∈ events, ∀ args, e.event = .issue args → args.ttlSecs.toNat * nanosPerSec < retention

/-! ## What stays published -/

section Run

variable {overflowChecks : Bool} {s : Rotation lib} {keys : List (SigningKey lib)} {now : Nat}

/-- The keys of tokens are kept, and all keys are of a list. -/
structure Rotation.Inv (keys : List (SigningKey lib)) (now : Nat) (s : Rotation lib) : Prop where
  covered : ∀ i ∈ s.issued, Covered s.jwks.retention s.jwks.active s.jwks.retired now i.1
    (i.2.payload.exp.toNat * nanosPerSec)
  signed : ∀ i ∈ s.issued, lib.encode .ES256 i.1.kid i.2.payload i.1.privateDer = .ok i.2.jwt
  known : ∀ k ∈ s.jwks.keys, k ∈ keys

theorem Rotation.Inv.insertSigningKey (h : s.Inv keys now) {key : SigningKey lib} {since : Nat}
    (hsince : now ≤ since) (hkey : key ∈ keys) :
    (s.step overflowChecks (.insertSigningKey key since)).Inv keys since where
  covered i hi := (h.covered i hi).retire hsince key
  signed := h.signed
  known k hk := by
    rw [step, Jwks.insertSigningKey, Jwks.keys, List.map_append] at hk
    rcases List.mem_cons.mp hk with rfl | hk
    · exact hkey
    · rcases List.mem_append.mp hk with hk | hk
      · exact h.known k (List.mem_cons_of_mem _ hk)
      · rw [List.mem_singleton.mp hk]
        exact h.known _ List.mem_cons_self

theorem Rotation.Inv.pruneExpired (h : s.Inv keys now) {clock : Nat → Nat}
    (hclock : ∀ i, clock i ≤ now) : (s.step overflowChecks (.pruneExpired clock)).Inv keys now where
  covered i hi := (h.covered i hi).prune fun j _ => hclock j
  signed := h.signed
  known k hk := by
    rcases List.mem_cons.mp hk with rfl | hk
    · exact h.known _ List.mem_cons_self
    · obtain ⟨e, he, rfl⟩ := List.mem_map.mp hk
      exact h.known _ (List.mem_cons_of_mem _ (List.mem_map_of_mem (mem_of_mem_prune he)))

/-- The expiry of a token is at most its lifetime after it was issued. -/
theorem exp_le_of_issued {signingKey : SigningKey lib} {a : IssueArgs} {t : AccessToken}
    (h : issueAccessToken overflowChecks signingKey a.issuer a.webid a.accountId a.clientId a.scope
      a.dpopJkt a.jti a.now a.ttlSecs = some (.ok t)) :
    t.payload.exp.toNat ≤ a.now.toNat + a.ttlSecs.toNat ∧
      lib.encode .ES256 signingKey.kid t.payload signingKey.privateDer = .ok t.jwt := by
  obtain ⟨exp, hadd, hpayload, hencode⟩ := issueAccessToken_eq_ok_iff.mp h
  refine ⟨?_, hencode⟩
  rw [hpayload, eq_add_of_addU64 hadd, UInt64.toNat_add]
  exact Nat.mod_le _ _

theorem Rotation.Inv.issue (h : s.Inv keys now) {a : IssueArgs}
    (hnow : a.now.toNat * nanosPerSec ≤ now)
    (httl : a.ttlSecs.toNat * nanosPerSec < s.jwks.retention) :
    (s.step overflowChecks (.issue a)).Inv keys now := by
  rw [step]
  split
  · rename_i token hissued
    obtain ⟨hexp, hencode⟩ := exp_le_of_issued hissued
    have hdeadline : token.payload.exp.toNat * nanosPerSec < now + s.jwks.retention := by
      calc token.payload.exp.toNat * nanosPerSec
          ≤ (a.now.toNat + a.ttlSecs.toNat) * nanosPerSec := Nat.mul_le_mul_right _ hexp
        _ = a.now.toNat * nanosPerSec + a.ttlSecs.toNat * nanosPerSec := Nat.add_mul _ _ _
        _ < now + s.jwks.retention := Nat.add_lt_add_of_le_of_lt hnow httl
    refine ⟨fun i hi => ?_, fun i hi => ?_, h.known⟩
    · rcases List.mem_append.mp hi with hi | hi
      · exact h.covered i hi
      · cases List.mem_singleton.mp hi
        exact .active rfl hdeadline
    · rcases List.mem_append.mp hi with hi | hi
      · exact h.signed i hi
      · cases List.mem_singleton.mp hi
        exact hencode
  · exact h
  · exact h

theorem Rotation.Inv.mono (h : s.Inv keys now) {later : Nat} (hlater : now ≤ later) :
    s.Inv keys later :=
  ⟨fun i hi => (h.covered i hi).mono hlater, h.signed, h.known⟩

theorem Rotation.retention_step (e : KeyEvent lib) :
    (s.step overflowChecks e).jwks.retention = s.jwks.retention := by
  cases e with
  | rotate generated now => cases generated <;> rfl
  | insertSigningKey key now => rfl
  | pruneExpired clock => rfl
  | issue a =>
      rw [step]
      split <;> rfl

theorem Rotation.Inv.step (h : s.Inv keys now) {e : TimedEvent lib} (hstart : now ≤ e.start)
    (hkeys : ∀ k ∈ e.event.newKey, k ∈ keys) (httl : ShortLived s.jwks.retention [e]) :
    (s.step overflowChecks e.event).Inv keys e.stop := by
  obtain ⟨event, start, stop, hle, hreads⟩ := e
  replace h := h.mono hstart
  cases event with
  | rotate generated since =>
      cases generated with
      | error err => exact h.mono hle
      | ok new =>
          have hnew : (s.step overflowChecks (.insertSigningKey new since)).Inv keys since :=
            h.insertSigningKey hreads.1 (hkeys new rfl)
          exact hnew.mono hreads.2
  | insertSigningKey key since =>
      exact (h.insertSigningKey hreads.1 (hkeys key rfl)).mono hreads.2
  | pruneExpired clock => exact (h.mono hle).pruneExpired fun i => (hreads i).2
  | issue a => exact (h.mono hle).issue hreads (httl _ (List.mem_singleton_self _) a rfl)

/-- Events in order keep the keys that are needed. -/
theorem Rotation.Inv.run (h : s.Inv keys now) {events : List (TimedEvent lib)}
    (horder : Chronological now events) (hkeys : ∀ e ∈ events, ∀ k ∈ e.event.newKey, k ∈ keys)
    (httl : ShortLived s.jwks.retention events) :
    (s.run overflowChecks events).Inv keys (finish now events) := by
  induction events generalizing s now with
  | nil => exact h
  | cons e events ih =>
      obtain ⟨hstart, horder⟩ := horder
      rw [ShortLived, List.forall_mem_cons] at httl
      rw [List.forall_mem_cons] at hkeys
      have hstep : (s.step overflowChecks e.event).Inv keys e.stop :=
        h.step hstart hkeys.1 (List.forall_mem_singleton.mpr httl.1)
      refine ih hstep horder hkeys.2 ?_
      rw [retention_step]
      exact httl.2

end Run

/-- The active key resolves, and so does the key that signed a token as long as the
token has not expired. -/
structure Rotation.Publishes (s : Rotation lib) (now : Nat) : Prop where
  active : s.jwks.Resolves s.jwks.activeKey
  live : ∀ key token, (key, token) ∈ s.issued → now ≤ token.payload.exp.toNat * nanosPerSec →
    lib.encode .ES256 key.kid token.payload key.privateDer = .ok token.jwt ∧ s.jwks.Resolves key

/-- The keys of a run, from the first one on. -/
def allKeys (active : SigningKey lib) (events : List (TimedEvent lib)) : List (SigningKey lib) :=
  active :: events.filterMap fun e => e.event.newKey

/-- No rotation and no pruning takes the key away from a token that has not expired. -/
theorem publishes_of_run (overflowChecks : Bool) (active : SigningKey lib) (retention : Nat)
    (events : List (TimedEvent lib)) (horder : Chronological 0 events)
    (httl : ShortLived retention events)
    (hkids : ((allKeys active events).map SigningKey.kid).Nodup) (now : Nat)
    (hnow : finish 0 events ≤ now) :
    (Rotation.run overflowChecks ⟨(Jwks.fromActive active).withRetention retention, []⟩
      events).Publishes now := by
  have hstart : Rotation.Inv (allKeys active events) 0
      ⟨(Jwks.fromActive active).withRetention retention, []⟩ :=
    ⟨nofun, nofun, fun k hk => List.mem_singleton.mp hk ▸ List.mem_cons_self⟩
  have hkeys : ∀ e ∈ events, ∀ k ∈ e.event.newKey, k ∈ allKeys active events := fun e he k hk =>
    List.mem_cons_of_mem _ (List.mem_filterMap.mpr ⟨e, he, hk⟩)
  have hrun : (Rotation.run overflowChecks _ events).Inv (allKeys active events) now :=
    (hstart.run horder hkeys httl).mono hnow
  refine ⟨Jwks.resolves_of_mem hkids hrun.known List.mem_cons_self, fun key token hmem hlive => ?_⟩
  exact ⟨hrun.signed _ hmem,
    Jwks.resolves_of_mem hkids hrun.known ((hrun.covered _ hmem).mem hlive)⟩

end Library

/-! ## A rotation while a token lives -/

/-- A library that signs everything. -/
def sampleSigner : IdpLibrary :=
  { sampleLibrary "https://pod/" "https://me" with encode := fun _ kid _ _ => .ok kid }

theorem published_sampleKey (kid : Str) :
    es256Jwk kid ([], []) = es256Jwk kid (sampleSigner.publicPoint []) :=
  rfl

theorem alg_sampleKey : ("ES256" : Str) = "ES256" :=
  rfl

def sampleKey (kid : Str) : SigningKey sampleSigner :=
  ⟨kid, "ES256", [], [], es256Jwk kid ([], []), 0, alg_sampleKey, published_sampleKey kid⟩

/-- A token of sixty seconds, a rotation after ten, a pruning after fifty more. -/
def sampleRotation : List (TimedEvent sampleSigner) :=
  [⟨.issue ⟨"https://pod/", "https://me", "acct-1", "app", "openid", none, "j", 10, 60⟩,
      10 * nanosPerSec, 10 * nanosPerSec, le_rfl, Nat.le_refl (10 * nanosPerSec)⟩,
    ⟨.rotate (.ok (sampleKey "new")) (20 * nanosPerSec), 20 * nanosPerSec, 20 * nanosPerSec,
      le_rfl, ⟨le_rfl, le_rfl⟩⟩,
    ⟨.pruneExpired fun _ => 70 * nanosPerSec, 70 * nanosPerSec, 70 * nanosPerSec, le_rfl,
      fun _ => ⟨le_rfl, le_rfl⟩⟩]

theorem publishes_sampleRotation :
    (Rotation.run true
        ⟨(Jwks.fromActive (sampleKey "old")).withRetention (61 * nanosPerSec), []⟩
        sampleRotation).issued.length = 1 ∧
      (Rotation.run true
        ⟨(Jwks.fromActive (sampleKey "old")).withRetention (61 * nanosPerSec), []⟩
        sampleRotation).Publishes (70 * nanosPerSec) := by
  have horder : Chronological 0 sampleRotation :=
    ⟨Nat.zero_le _, by decide, by decide, trivial⟩
  refine ⟨rfl, publishes_of_run true _ _ _ horder ?_ (by decide) _ le_rfl⟩
  intro e he args hargs
  simp only [sampleRotation, List.mem_cons, List.not_mem_nil, or_false] at he
  rcases he with rfl | rfl | rfl <;> cases hargs
  decide

end Idp

end SolidPod
