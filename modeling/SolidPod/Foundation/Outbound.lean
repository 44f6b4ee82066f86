import Mathlib.Data.List.Basic
import SolidPod.Foundation.Keeps

/-!
# Outbound requests

A program checks a host, and an HTTP client then opens connections for it. The network is an
oracle that is asked turn by turn: two look-ups of one name need not agree, and a server may
redirect the client to any URL. A name can be pinned to an address in the client, which is then
not looked up.

A connection is settled when its address was fixed by the check: it goes to the host that was
checked, and this host is an address or is pinned. Whatever the network does, only the other
connections can lead somewhere that was not approved.
-/

namespace Foundation

namespace Outbound

open Program

inductive Host (Name Addr : Type) where
  | literal (a : Addr)
  | name (n : Name)
  deriving DecidableEq

inductive Reply (Url Resp : Type) where
  | redirect (location : Url)
  | response (resp : Resp)

inductive ClientError (Err : Type) where
  | badUrl
  | tooManyRedirects
  | failed (e : Err)

/-- What the network does at each turn. `tries` tells which addresses of an answer the client
opens a connection to before it is connected or gives up. -/
structure Net (Name Addr Url Resp Err : Type) where
  lookup : Nat → Name → Except Err (List Addr)
  tries : Nat → Addr → Bool
  reply : Nat → Url → Except Err (Reply Url Resp)

/-- What the builder of an HTTP client configures. -/
structure Client (Name Addr : Type) where
  overrides : List (Name × Addr)
  redirects : Nat

/-- One request of a client: on whose behalf, the host that was checked before, and the host
that the client connects to. -/
structure Hop (Caller Name Addr : Type) where
  caller : Caller
  checked : Host Name Addr
  client : Client Name Addr
  turn : Nat
  host : Host Name Addr

structure Log (Caller Name Addr : Type) where
  turn : Nat
  hops : List (Hop Caller Name Addr)

variable {Caller Name Addr Url Resp Err : Type}

namespace Net

variable (net : Net Name Addr Url Resp Err)

/-- An address needs no look-up. -/
def resolve (turn : Nat) : Host Name Addr → Except Err (List Addr)
  | .literal a => .ok [a]
  | .name n => net.lookup turn n

def answers (turn : Nat) (host : Host Name Addr) : List Addr :=
  match net.resolve turn host with
  | .ok addrs => addrs
  | .error _ => []

def ask (host : Host Name Addr) : Program (Log Caller Name Addr) Err (List Addr) :=
  step fun log => (net.resolve log.turn host, { log with turn := log.turn + 1 })

theorem answers_of_resolve {turn : Nat} {host : Host Name Addr} {addrs : List Addr}
    (h : net.resolve turn host = .ok addrs) : net.answers turn host = addrs := by
  rw [answers, h]

end Net

namespace Client

variable [DecidableEq Name] (net : Net Name Addr Url Resp Err) (client : Client Name Addr)

/-- The addresses the client may connect to for a host. -/
def addresses (turn : Nat) : Host Name Addr → List Addr
  | .literal a => [a]
  | .name n =>
    match client.overrides.lookup n with
    | some a => [a]
    | none => net.answers turn (.name n)

/-- The client looks nothing up for this host. -/
def fixes : Host Name Addr → Bool
  | .literal _ => true
  | .name n => (client.overrides.lookup n).isSome

def visit (caller : Caller) (checked host : Host Name Addr) (url : Url) :
    Program (Log Caller Name Addr) (ClientError Err) (Reply Url Resp) :=
  step fun log => ((net.reply log.turn url).mapError .failed,
    { turn := log.turn + 1, hops := log.hops ++ [⟨caller, checked, client, log.turn, host⟩] })

/-- A request and the redirects it is answered with. `target` is the host of a URL that the
client can connect for. -/
def follow (target : Url → Option (Host Name Addr)) (caller : Caller)
    (checked : Host Name Addr) (budget : Nat) (url : Url) :
    Program (Log Caller Name Addr) (ClientError Err) Resp :=
  match target url with
  | none => fail .badUrl
  | some host => do
    match ← client.visit net caller checked host url with
    | .response resp => pure resp
    | .redirect location =>
      match budget with
      | 0 => fail .tooManyRedirects
      | budget + 1 => follow target caller checked budget location

def get (target : Url → Option (Host Name Addr)) (caller : Caller)
    (checked : Host Name Addr) (url : Url) :
    Program (Log Caller Name Addr) (ClientError Err) Resp :=
  client.follow net target caller checked client.redirects url

end Client

/-- A host whose look-up does not depend on the turn. -/
theorem returns_ask {net : Net Name Addr Url Resp Err} {host : Host Name Addr}
    {addrs : List Addr} (h : ∀ turn, net.resolve turn host = .ok addrs) :
    Returns (net.ask host : Program (Log Caller Name Addr) Err (List Addr)) addrs :=
  fun log => h log.turn

/-- A URL that is answered at every turn, and not with a redirect. -/
theorem returns_get [DecidableEq Name] {net : Net Name Addr Url Resp Err}
    {client : Client Name Addr} {target : Url → Option (Host Name Addr)} {caller : Caller}
    {checked host : Host Name Addr} {url : Url} {resp : Resp} (htarget : target url = some host)
    (hreply : ∀ turn, net.reply turn url = .ok (.response resp)) :
    Returns (client.get net target caller checked url) resp := by
  have hvisit : Returns (client.visit net caller checked host url) (.response resp) := by
    intro log
    change (net.reply log.turn url).mapError _ = _
    rw [hreply]
    rfl
  unfold Client.get Client.follow
  rw [htarget]
  exact Returns.bind hvisit (Returns.pure resp)

/-- An address has no other answer than itself. -/
theorem permits_of_literal {net : Net Name Addr Url Resp Err} {host : Host Name Addr}
    {permits : Host Name Addr → Addr → Prop} {approved : Addr} {turn : Nat}
    (happroved : permits host approved) (hanswer : approved ∈ net.answers turn host) (a : Addr)
    (hhost : host = .literal a) : permits host a := by
  rw [hhost] at hanswer
  rw [List.mem_singleton.mp hanswer] at happroved
  exact happroved

namespace Hop

variable [DecidableEq Name] (net : Net Name Addr Url Resp Err) (hop : Hop Caller Name Addr)

/-- The addresses that connections were opened to. -/
def contacted : List Addr :=
  (hop.client.addresses net hop.turn hop.host).filter (net.tries hop.turn)

def Settled : Prop := hop.host = hop.checked ∧ hop.client.fixes hop.host = true

instance [DecidableEq Addr] : Decidable hop.Settled := inferInstanceAs (Decidable (_ ∧ _))

/-- What the check before a request is good for: the settled connections are permitted, and
nothing but the checked host is pinned. -/
structure Guarded (permits : Host Name Addr → Addr → Prop) : Prop where
  settled : hop.Settled →
    ∀ a ∈ hop.client.addresses net hop.turn hop.host, permits hop.host a
  pinned : ∀ n, (hop.client.overrides.lookup n).isSome = true → hop.checked = .name n

variable {hop} {permits : Host Name Addr → Addr → Prop}

theorem addresses_of_not_settled (h : hop.Guarded net permits) (hopen : ¬ hop.Settled) :
    hop.client.addresses net hop.turn hop.host = net.answers hop.turn hop.host := by
  cases hhost : hop.host with
  | literal a => rfl
  | name n =>
      rw [Client.addresses]
      cases hpin : hop.client.overrides.lookup n with
      | none => rfl
      | some a =>
          have hfixes : (hop.client.overrides.lookup n).isSome = true := by rw [hpin]; rfl
          apply absurd _ hopen
          constructor
          · rw [hhost, h.pinned n hfixes]
          · rw [hhost]
            exact hfixes

/-- A guarded request contacts permitted addresses only, exactly when the network answers with
permitted addresses on a connection that is not settled. -/
theorem contacted_permitted_iff (h : hop.Guarded net permits) :
    (∀ a ∈ hop.contacted net, permits hop.host a) ↔
      (¬ hop.Settled →
        ∀ a ∈ net.answers hop.turn hop.host, net.tries hop.turn a = true →
          permits hop.host a) := by
  constructor
  · intro hall hopen a ha htries
    apply hall a
    rw [contacted, addresses_of_not_settled net h hopen]
    exact List.mem_filter.mpr ⟨ha, htries⟩
  · intro hall a ha
    obtain ⟨hmem, htries⟩ := List.mem_filter.mp ha
    by_cases hsettled : hop.Settled
    · exact h.settled hsettled a hmem
    · rw [addresses_of_not_settled net h hsettled] at hmem
      exact hall hsettled a hmem htries

/-- An unpinned client settles no more than an address that was checked itself. -/
theorem guarded_of_unpinned (hclient : hop.client.overrides = [])
    (hchecked : ∀ a, hop.checked = .literal a → permits hop.checked a) :
    hop.Guarded net permits where
  settled := by
    intro hsettled a ha
    obtain ⟨hsame, hfixes⟩ := hsettled
    cases hhost : hop.host with
    | literal b =>
        rw [hhost] at ha
        rw [List.mem_singleton.mp ha, ← hhost, hsame]
        exact hchecked b (hsame.symm.trans hhost)
    | name n =>
        rw [hhost, Client.fixes, hclient] at hfixes
        cases hfixes
  pinned := by
    intro n hn
    rw [hclient] at hn
    cases hn

/-- A client that pins the checked host to the address it was approved with. -/
theorem guarded_of_pinned {checked : Name} {approved : Addr}
    (hclient : hop.client.overrides = [(checked, approved)])
    (hchecked : hop.checked = .name checked) (happroved : permits hop.checked approved) :
    hop.Guarded net permits where
  settled := by
    intro hsettled a ha
    obtain ⟨hsame, -⟩ := hsettled
    rw [hsame, hchecked, Client.addresses, hclient, List.lookup_cons_self] at ha
    rw [hsame, List.mem_singleton.mp ha]
    exact happroved
  pinned := by
    intro n hn
    rw [hclient, List.lookup_cons] at hn
    by_cases hname : n = checked
    · rw [hchecked, hname]
    · have hbeq : (n == checked) = false := beq_false_of_ne hname
      rw [hbeq] at hn
      cases hn

end Hop

namespace Log

/-- A property of the requests that were made, whatever the turn is. -/
def TurnFree (I : Log Caller Name Addr → Prop) : Prop :=
  ∀ log turn, I log → I { log with turn := turn }

theorem keeps_ask {net : Net Name Addr Url Resp Err} {I : Log Caller Name Addr → Prop}
    (hI : TurnFree I) (host : Host Name Addr) :
    Keeps I (net.ask host) (fun addrs => ∃ turn, net.resolve turn host = .ok addrs) :=
  fun log hlog => ⟨hI log (log.turn + 1) hlog, fun _ haddrs => ⟨log.turn, haddrs⟩⟩

variable [DecidableEq Name] (net : Net Name Addr Url Resp Err)
  (permits : Caller → Host Name Addr → Addr → Prop)

/-- Every request so far was guarded by what its caller permits. -/
def Guarded (log : Log Caller Name Addr) : Prop :=
  ∀ hop ∈ log.hops, hop.Guarded net (permits hop.caller)

/-- Every address that was contacted so far was permitted. -/
def Approved (log : Log Caller Name Addr) : Prop :=
  ∀ hop ∈ log.hops, ∀ a ∈ hop.contacted net, permits hop.caller hop.host a

/-- On the connections that the check did not settle, the network led to permitted addresses
only. -/
def Harmless (log : Log Caller Name Addr) : Prop :=
  ∀ hop ∈ log.hops, ¬ hop.Settled →
    ∀ a ∈ net.answers hop.turn hop.host, net.tries hop.turn a = true →
      permits hop.caller hop.host a

variable {net permits}

theorem Guarded.approved_iff {log : Log Caller Name Addr} (h : log.Guarded net permits) :
    log.Approved net permits ↔ log.Harmless net permits := by
  constructor
  · intro hall hop hmem
    exact (Hop.contacted_permitted_iff net (h hop hmem)).mp (hall hop hmem)
  · intro hall hop hmem
    exact (Hop.contacted_permitted_iff net (h hop hmem)).mpr (hall hop hmem)

theorem turnFree_guarded : TurnFree (Guarded net permits) :=
  fun _ _ hlog => hlog

theorem keeps_visit {client : Client Name Addr} {caller : Caller}
    {checked host : Host Name Addr} (url : Url)
    (hhop : ∀ turn, Hop.Guarded net ⟨caller, checked, client, turn, host⟩ (permits caller)) :
    Keeps (Guarded net permits) (client.visit net caller checked host url) (fun _ => True) := by
  intro log hlog
  constructor
  · intro hop hmem
    cases List.mem_append.mp hmem with
    | inl hold => exact hlog hop hold
    | inr hnew =>
        cases List.mem_singleton.mp hnew
        exact hhop log.turn
  · intro _ _
    trivial

theorem keeps_follow {client : Client Name Addr} {caller : Caller} {checked : Host Name Addr}
    (hhop : ∀ turn host, Hop.Guarded net ⟨caller, checked, client, turn, host⟩ (permits caller))
    (target : Url → Option (Host Name Addr)) (budget : Nat) (url : Url) :
    Keeps (Guarded net permits) (client.follow net target caller checked budget url)
      (fun _ => True) := by
  induction budget generalizing url with
  | zero =>
      unfold Client.follow
      cases target url with
      | none => exact Keeps.fail _
      | some host =>
          apply Keeps.bind (keeps_visit url fun turn => hhop turn host)
          intro reply _
          cases reply with
          | response resp => exact Keeps.pure trivial
          | redirect location => exact Keeps.fail _
  | succ budget ih =>
      unfold Client.follow
      cases target url with
      | none => exact Keeps.fail _
      | some host =>
          apply Keeps.bind (keeps_visit url fun turn => hhop turn host)
          intro reply _
          cases reply with
          | response resp => exact Keeps.pure trivial
          | redirect location => exact ih location

theorem keeps_get {client : Client Name Addr} {caller : Caller} {checked : Host Name Addr}
    (hhop : ∀ turn host, Hop.Guarded net ⟨caller, checked, client, turn, host⟩ (permits caller))
    (target : Url → Option (Host Name Addr)) (url : Url) :
    Keeps (Guarded net permits) (client.get net target caller checked url) (fun _ => True) :=
  keeps_follow hhop target client.redirects url

end Log

end Outbound

end Foundation
