import SolidPod.Foundation.Fallible
import SolidPod.Http.Client

/-!
# The SSRF guard

The classes of addresses, the policy of the operator and the checks that are made before a
request goes out. A check asks the network for the addresses of a host and returns one of them.
-/

namespace SolidPod

open Foundation Str Http Program

namespace Security

inductive IpClass where
  | «public»
  | «private»
  | loopback
  | linkLocal
  | multicast
  | reserved
  deriving DecidableEq

def IpClass.debug : IpClass → Str
  | .public => "Public"
  | .private => "Private"
  | .loopback => "Loopback"
  | .linkLocal => "LinkLocal"
  | .multicast => "Multicast"
  | .reserved => "Reserved"

inductive SsrfError where
  | missingHost (url : Str)
  | dnsFailure (host source : Str)
  | noAddresses (host : Str)
  | denylisted (host : Str) (ip : IpAddr)
  | blockedClass (host : Str) (ip : IpAddr) (ipClass : IpClass)
  deriving DecidableEq

def SsrfError.display : SsrfError → Str
  | .missingHost url => "URL has no host component: " ++ url
  | .dnsFailure host source => "DNS resolution failed for host '" ++ host ++ "': " ++ source
  | .noAddresses host => "DNS resolution returned no addresses for host '" ++ host ++ "'"
  | .denylisted host ip =>
    "host '" ++ host ++ "' (resolved to " ++ ip.display ++ ") is denylisted"
  | .blockedClass host ip ipClass =>
    "host '" ++ host ++ "' (resolved to " ++ ip.display ++ ") blocked: " ++ ipClass.debug

def classifyV4 (v4 : Ipv4Addr) : IpClass :=
  if v4 = ⟨169, 254, 169, 254⟩ then .reserved
  else if v4.isUnspecified || v4.isBroadcast || v4.isDocumentation then .reserved
  else if v4.isLoopback then .loopback
  else if v4.isLinkLocal then .linkLocal
  else if v4.isMulticast then .multicast
  else if v4.isPrivate then .private
  else if v4.a = 0 then .reserved
  else if v4.a = 100 ∧ v4.b &&& 0xC0 = 0x40 then .reserved
  else if v4.a = 192 ∧ v4.b = 0 ∧ v4.c = 0 then .reserved
  else if v4.a = 192 ∧ v4.b = 88 ∧ v4.c = 99 then .reserved
  else if v4.a = 198 ∧ (v4.b = 18 ∨ v4.b = 19) then .reserved
  else if 240 ≤ v4.a then .reserved
  else .public

def classifyV6 (v6 : Ipv6Addr) : IpClass :=
  if v6 = ⟨0xfd00, 0x0ec2, 0, 0, 0, 0, 0, 0x0254⟩ then .reserved
  else if v6.isUnspecified then .reserved
  else if v6.isLoopback then .loopback
  else if v6.isMulticast then .multicast
  else
    match v6.toIpv4Mapped with
    | some v4 => classifyV4 v4
    | none =>
      if v6.s0 &&& 0xFFC0 = 0xFE80 then .linkLocal
      else if v6.s0 &&& 0xFE00 = 0xFC00 then .private
      else if v6.s0 &&& 0xFFC0 = 0xFEC0 then .private
      else if v6.s0 = 0x0100 ∧ v6.s1 = 0 ∧ v6.s2 = 0 ∧ v6.s3 = 0 then .reserved
      else if v6.s0 = 0x2001 ∧ v6.s1 = 0x0db8 then .reserved
      else .public

def classify : IpAddr → IpClass
  | .v4 ip => classifyV4 ip
  | .v6 ip => classifyV6 ip

structure SsrfPolicy where
  allowPrivate : Bool
  allowLoopback : Bool
  allowLinkLocal : Bool
  allowlist : List Str
  denylist : List Str

def SsrfPolicy.new : SsrfPolicy := ⟨false, false, false, [], []⟩

/-- The text before the first colon. -/
def hostPart (s : Str) : Str := (splitOnce ':' s).elim s Prod.fst

def listContainsHost (list : List Str) (hostLower : Str) : Bool :=
  list.any fun entry =>
    let host := hostPart (toAsciiLowercase (trim entry))
    !host.isEmpty && host == hostLower

namespace SsrfPolicy

variable (policy : SsrfPolicy)

def permitsClass : IpClass → Bool
  | .public => true
  | .private => policy.allowPrivate
  | .loopback => policy.allowLoopback
  | .linkLocal => policy.allowLinkLocal
  | .multicast | .reserved => false

/-- The decision on the address that a host was resolved to. -/
def checkAddress (host : Host) (ip : IpAddr) : Except SsrfError IpAddr :=
  let hostLower := toAsciiLowercase (hostStr host)
  if listContainsHost policy.denylist hostLower then .error (.denylisted (hostStr host) ip)
  else if listContainsHost policy.allowlist hostLower then .ok ip
  else if policy.permitsClass (classify ip) then .ok ip
  else .error (.blockedClass (hostStr host) ip (classify ip))

/-- What the policy says about an address of a host: a denied host has no permitted address,
an allowed one has no other, and otherwise the class decides. -/
def Permits (host : Host) (ip : IpAddr) : Prop :=
  listContainsHost policy.denylist (toAsciiLowercase (hostStr host)) = false ∧
    (listContainsHost policy.allowlist (toAsciiLowercase (hostStr host)) = true ∨
      policy.permitsClass (classify ip) = true)

instance (host : Host) (ip : IpAddr) : Decidable (policy.Permits host ip) :=
  inferInstanceAs (Decidable (_ ∧ _))

def resolveAndCheck (net : Net) (url : Url) : Fetch SsrfError IpAddr :=
  match url.host with
  | none => .fail (.missingHost url.text)
  | some host => do
    let addrs ← (net.ask host).mapError (.dnsFailure (hostStr host))
    match addrs with
    | [] => .fail (.noAddresses (hostStr host))
    | ip :: _ => .ofResult (policy.checkAddress host ip)

variable {policy}

theorem checkAddress_eq_ok_iff {host : Host} {ip ip' : IpAddr} :
    policy.checkAddress host ip = .ok ip' ↔ policy.Permits host ip ∧ ip = ip' := by
  rw [checkAddress, Fallible.guard_eq_ok_iff, Permits, Bool.not_eq_true]
  by_cases hallow : listContainsHost policy.allowlist (toAsciiLowercase (hostStr host)) = true
  · rw [if_pos hallow]
    simp [hallow]
  · rw [if_neg hallow]
    by_cases hclass : policy.permitsClass (classify ip) = true
    · rw [if_pos hclass]
      simp [hclass]
    · rw [if_neg hclass]
      simp [hallow, hclass]

end SsrfPolicy

/-- Names of the metadata service, with or without a port. -/
def isKnownMetadataHostname (host : Str) : Bool :=
  let lc := toAsciiLowercase (hostPart host)
  lc == "metadata.google.internal".toList || lc == "metadata".toList ||
    lc == "metadata.goog".toList

def checkIpSafe (host : Str) (ip : IpAddr) : Except SsrfError Unit :=
  if classify ip = .public then .ok () else .error (.blockedClass host ip (classify ip))

def metadataBlocked (host : Str) : SsrfError :=
  .blockedClass host (.v4 ⟨169, 254, 169, 254⟩) .reserved

def isSafeUrl (web : Web) (url : Str) : Except SsrfError Unit :=
  match web.parse url with
  | .error _ => .error (.missingHost url)
  | .ok parsed =>
    match parsed.host with
    | none => .error (.missingHost url)
    | some (.literal ip) => checkIpSafe ip.display ip
    | some (.name d) => if isKnownMetadataHostname d then .error (metadataBlocked d) else .ok ()

/-- What the checks without a policy permit: public addresses, and none of the metadata
service. -/
def PermitsByDefault : Host → IpAddr → Prop
  | .literal _, ip => classify ip = .public
  | .name d, ip => isKnownMetadataHostname d = false ∧ classify ip = .public

instance : (host : Host) → (ip : IpAddr) → Decidable (PermitsByDefault host ip)
  | .literal _, ip => inferInstanceAs (Decidable (classify ip = .public))
  | .name _, _ => inferInstanceAs (Decidable (_ ∧ _))

/-- Every address is checked, the first is returned. -/
def checkAll (host : Str) : List IpAddr → Except SsrfError (Option IpAddr)
  | [] => .ok none
  | ip :: rest => do
    checkIpSafe host ip
    let _ ← checkAll host rest
    pure (some ip)

/-- The addresses of a host are looked up, all are checked and the first is returned. -/
def firstChecked (net : Net) (host : Host) : Fetch SsrfError IpAddr := do
  let addrs ← (net.ask host).mapError (.dnsFailure (hostStr host))
  match ← Program.ofResult (checkAll (hostStr host) addrs) with
  | none => .fail (.noAddresses (hostStr host))
  | some ip => pure ip

/-- The host as it is written in a URL. An address in brackets has no port, and the look-up
takes a part of it for one. -/
def resolveAndCheck (net : Net) (host : Host) : Fetch SsrfError IpAddr :=
  if isKnownMetadataHostname (hostStr host) then .fail (metadataBlocked (hostStr host))
  else
    match host with
    | .literal (.v6 _) => .fail (.dnsFailure (hostStr host) "invalid port value")
    | _ => firstChecked net host

theorem checkIpSafe_eq_ok_iff {host : Str} {ip : IpAddr} :
    checkIpSafe host ip = .ok () ↔ classify ip = .public := by
  rw [checkIpSafe]
  by_cases hclass : classify ip = .public
  · simp [hclass]
  · simp [hclass]

theorem isPublic_of_checkAll {host : Str} {addrs : List IpAddr} {first : Option IpAddr}
    (h : checkAll host addrs = .ok first) : ∀ ip ∈ addrs, classify ip = .public := by
  induction addrs generalizing first with
  | nil => simp
  | cons ip rest ih =>
      rw [checkAll] at h
      obtain ⟨_, hip, h⟩ := Fallible.bind_eq_ok_iff.mp h
      obtain ⟨rest', hrest, -⟩ := Fallible.bind_eq_ok_iff.mp h
      exact List.forall_mem_cons.mpr ⟨checkIpSafe_eq_ok_iff.mp hip, ih hrest⟩

theorem head?_of_checkAll {host : Str} {addrs : List IpAddr} {first : Option IpAddr}
    (h : checkAll host addrs = .ok first) : first = addrs.head? := by
  cases addrs with
  | nil =>
      cases h
      rfl
  | cons ip rest =>
      rw [checkAll] at h
      obtain ⟨_, -, h⟩ := Fallible.bind_eq_ok_iff.mp h
      obtain ⟨_, -, h⟩ := Fallible.bind_eq_ok_iff.mp h
      cases h
      rfl

/-- A host that always has the same addresses, the first of which is permitted. -/
theorem returns_policy_resolveAndCheck {net : Net} {policy : SsrfPolicy} {url : Url}
    {host : Host} {ip : IpAddr} {rest : List IpAddr} (hhost : url.host = some host)
    (hresolve : ∀ turn, net.resolve turn host = .ok (ip :: rest))
    (hpermits : policy.Permits host ip) : Returns (policy.resolveAndCheck net url) ip := by
  rw [SsrfPolicy.resolveAndCheck, hhost]
  apply Returns.bind (Returns.mapError _ (Outbound.returns_ask hresolve))
  exact Returns.ofResult (SsrfPolicy.checkAddress_eq_ok_iff.mpr ⟨hpermits, rfl⟩)

section Checks

variable {net : Net} {I : Log → Prop} (hI : Outbound.Log.TurnFree I)

include hI

/-- The policy returns an address of the host that it permits. -/
theorem keeps_policy_resolveAndCheck (policy : SsrfPolicy) (url : Url) :
    Keeps I (policy.resolveAndCheck net url)
      (fun ip => ∃ host, url.host = some host ∧ policy.Permits host ip ∧
        ∃ turn, ip ∈ net.answers turn host) := by
  rw [SsrfPolicy.resolveAndCheck]
  cases hhost : url.host with
  | none => exact Keeps.fail _
  | some host =>
      apply Keeps.bind (Keeps.mapError _ (Outbound.Log.keeps_ask hI host))
      intro addrs ⟨turn, haddrs⟩
      cases addrs with
      | nil => exact Keeps.fail _
      | cons ip rest =>
          apply Keeps.ofResult
          intro ip' hip
          obtain ⟨hpermits, hsame⟩ := SsrfPolicy.checkAddress_eq_ok_iff.mp hip
          rw [← hsame]
          refine ⟨host, rfl, hpermits, turn, ?_⟩
          rw [net.answers_of_resolve haddrs]
          exact List.mem_cons_self

theorem keeps_firstChecked (host : Host) :
    Keeps I (firstChecked net host)
      (fun ip => classify ip = .public ∧ ∃ turn, ip ∈ net.answers turn host) := by
  apply Keeps.bind (Keeps.mapError _ (Outbound.Log.keeps_ask hI host))
  intro addrs ⟨turn, haddrs⟩
  apply Keeps.bind (Keeps.ofResult (Q := fun first => checkAll (hostStr host) addrs = .ok first)
    fun _ h => h)
  intro first hfirst
  cases hcase : first with
  | none => exact Keeps.fail _
  | some ip =>
      rw [hcase] at hfirst
      have hmem : ip ∈ addrs := List.mem_of_mem_head? (head?_of_checkAll hfirst).symm
      apply Keeps.pure
      constructor
      · exact isPublic_of_checkAll hfirst ip hmem
      · rw [← net.answers_of_resolve haddrs] at hmem
        exact ⟨turn, hmem⟩

/-- The check of a host returns one of its addresses, which is permitted. -/
theorem keeps_resolveAndCheck (host : Host) :
    Keeps I (resolveAndCheck net host)
      (fun ip => PermitsByDefault host ip ∧ ∃ turn, ip ∈ net.answers turn host) := by
  unfold resolveAndCheck
  split_ifs with hmetadata
  · exact Keeps.fail _
  · cases host with
    | literal addr =>
        cases addr with
        | v4 ip => exact keeps_firstChecked hI (.literal (.v4 ip))
        | v6 ip => exact Keeps.fail _
    | name d =>
        apply Keeps.weaken (keeps_firstChecked hI (.name d))
        intro ip ⟨hclass, hturn⟩
        exact ⟨⟨Bool.eq_false_iff.mpr hmetadata, hclass⟩, hturn⟩

end Checks

/-- A URL that is safe has a host, and an address in it is permitted. -/
theorem exists_host_of_isSafeUrl {web : Web} {url : Str} (h : isSafeUrl web url = .ok ()) :
    ∃ parsed host, web.parse url = .ok parsed ∧ parsed.host = some host ∧
      ∀ ip, host = .literal ip → PermitsByDefault host ip := by
  unfold isSafeUrl at h
  cases hparse : web.parse url with
  | error e =>
      simp only [hparse] at h
      cases h
  | ok parsed =>
      simp only [hparse] at h
      cases hhost : parsed.host with
      | none =>
          simp only [hhost] at h
          cases h
      | some host =>
          refine ⟨parsed, host, rfl, hhost, ?_⟩
          rintro ip rfl
          simp only [hhost] at h
          exact checkIpSafe_eq_ok_iff.mp h

end Security

end SolidPod
