import SolidPod.Idp.ClientFetch
import SolidPod.Interop.DidNostr
import SolidPod.Nostr.Resolver
import SolidPod.Oidc.Jwks

/-!
# What the fetchers contact

Every component that fetches from outside, with one log of the connections that they open. A
check approves an address, and the connection goes where the client finds the host at that
moment, or where a redirect leads. The connections that a check settles are permitted; all
connections are exactly when the network does no harm on the others.
-/

namespace SolidPod

open Foundation Str Http Program Security

namespace Server

/-- The policy of each fetcher. -/
structure FetchPolicies where
  oidc : SsrfPolicy
  didNostr : SsrfPolicy
  webId : Nostr.SsrfCheck
  allowUnsafeUrls : Bool

def FetchPolicies.Permits (policies : FetchPolicies) : Fetcher → Host → IpAddr → Prop
  | .oidc, host, ip => policies.oidc.Permits host ip
  | .didNostr, host, ip => policies.didNostr.Permits host ip
  | .webId, host, ip => policies.webId.Permits host ip
  | .clientStore, host, ip => policies.allowUnsafeUrls = true ∨ PermitsByDefault host ip

/-- The readers of what is fetched. -/
structure Readers (JwkSet : Type) where
  oidc : Oidc.Serde JwkSet
  didDoc : Bytes → Except Str Interop.DidNostrDoc
  nostr : Nostr.Serde
  json : Bytes → Except Str Json

inductive FetchCall where
  | fetchOidcConfig (issuer : Url)
  | fetchJwks (issuer : Url)
  | resolve (origin pubkey : Str) (now later : Nat)
  | resolveWebidToNostr (webid : Str)
  | resolveNostrToWebid (origin : Str) (pk : Nostr.NostrPubkey)
  | find (clientId : Str) (now : Nat) (nowSecs : UInt64)

/-- The resolver keeps the policy and the unpinned client it was made with. -/
structure Fetchers (policies : FetchPolicies) where
  didNostr : Interop.DidNostrResolver
  clients : Idp.ClientStore
  log : Log
  didNostr_ssrf : didNostr.ssrf = policies.didNostr
  didNostr_client : didNostr.client.overrides = []

/-- Nothing was fetched so far. -/
def Fetchers.start (policies : FetchPolicies) (clients : Idp.ClientStore)
    (successTtl failureTtl : Nat) : Fetchers policies where
  didNostr :=
    { Interop.DidNostrResolver.new policies.didNostr with
      successTtl := successTtl, failureTtl := failureTtl }
  clients := clients
  log := { turn := 0, hops := [] }
  didNostr_ssrf := rfl
  didNostr_client := rfl

section Run

variable {JwkSet : Type} (web : Web) (readers : Readers JwkSet) (net : Net)
  {policies : FetchPolicies}

def clientFetcher (policies : FetchPolicies) : Idp.ClientFetcher :=
  { Idp.ClientFetcher.new web with allowUnsafeUrls := policies.allowUnsafeUrls }

def Fetchers.step (s : Fetchers policies) : FetchCall → Fetchers policies
  | .fetchOidcConfig issuer =>
    { s with log :=
        ((Oidc.fetchOidcConfig web readers.oidc net issuer policies.oidc).exec s.log).2 }
  | .fetchJwks issuer =>
    { s with log := ((Oidc.fetchJwks web readers.oidc net issuer policies.oidc).exec s.log).2 }
  | .resolve origin pubkey now later =>
    let outcome := Interop.resolve web readers.didDoc net s.didNostr origin pubkey now later s.log
    let settings := Interop.settings_resolve web readers.didDoc net s.didNostr origin pubkey now
      later s.log
    { s with
      didNostr := outcome.2.1
      log := outcome.2.2
      didNostr_ssrf := settings.1.trans s.didNostr_ssrf
      didNostr_client := (congrArg _ settings.2).trans s.didNostr_client }
  | .resolveWebidToNostr webid =>
    { s with log := ((Nostr.resolveWebidToNostr web readers.nostr net
        (.withSsrf policies.webId) webid).exec s.log).2 }
  | .resolveNostrToWebid origin pk =>
    { s with log := ((Nostr.resolveNostrToWebid web readers.nostr net
        (.withSsrf policies.webId) origin pk).exec s.log).2 }
  | .find clientId now nowSecs =>
    let outcome := s.clients.findOverNet web readers.json net (clientFetcher web policies) now
      nowSecs clientId s.log
    { s with clients := outcome.2.1, log := outcome.2.2 }

def Fetchers.run (calls : List FetchCall) (s : Fetchers policies) : Fetchers policies :=
  calls.foldl (Fetchers.step web readers net) s

variable {web readers net}

theorem overrides_clientFetcher {http : Client}
    (h : (clientFetcher web policies).http = some http) : http.overrides = [] := by
  change (web.build { overrides := [], redirects := 3 }).toOption = some http at h
  unfold Web.build at h
  cases hbuilder : web.builderError with
  | some e =>
      rw [hbuilder] at h
      cases h
  | none =>
      rw [hbuilder] at h
      cases h
      rfl

/-- Every call leaves a log of guarded requests. -/
theorem Fetchers.guarded_step (s : Fetchers policies)
    (hlog : s.log.Guarded net policies.Permits) (call : FetchCall) :
    (s.step web readers net call).log.Guarded net policies.Permits := by
  cases call with
  | fetchOidcConfig issuer =>
      exact (Oidc.keeps_fetchOidcConfig (fun _ _ h => h) issuer).after hlog
  | fetchJwks issuer => exact (Oidc.keeps_fetchJwks (fun _ _ h => h) issuer).after hlog
  | resolve origin pubkey now later =>
      apply Interop.guarded_resolve s.didNostr_client _ origin pubkey now later hlog
      intro host ip h
      rw [s.didNostr_ssrf] at h
      exact h
  | resolveWebidToNostr webid =>
      have hkeeps : Keeps (Outbound.Log.Guarded net policies.Permits)
          (Nostr.resolveWebidToNostr web readers.nostr net (.withSsrf policies.webId) webid)
          (fun _ => True) := Nostr.keeps_resolveWebidToNostr rfl (fun _ _ h => h) webid
      exact hkeeps.after hlog
  | resolveNostrToWebid origin pk =>
      have hkeeps : Keeps (Outbound.Log.Guarded net policies.Permits)
          (Nostr.resolveNostrToWebid web readers.nostr net (.withSsrf policies.webId) origin pk)
          (fun _ => True) := Nostr.keeps_resolveNostrToWebid rfl (fun _ _ h => h) origin pk
      exact hkeeps.after hlog
  | find clientId now nowSecs =>
      apply Idp.guarded_findOverNet (fun _ => overrides_clientFetcher) _ s.clients now nowSecs
        clientId hlog
      intro host ip h
      exact h

theorem Fetchers.guarded_run (calls : List FetchCall) (s : Fetchers policies)
    (hlog : s.log.Guarded net policies.Permits) :
    (s.run web readers net calls).log.Guarded net policies.Permits := by
  induction calls generalizing s with
  | nil => exact hlog
  | cons call calls ih => exact ih (s.step web readers net call) (s.guarded_step hlog call)

/-- In every run, all contacted addresses were permitted for the host they were contacted for,
exactly when the network led to permitted addresses on the connections that the checks did not
settle. -/
theorem approved_iff_harmless_of_run (calls : List FetchCall) (clients : Idp.ClientStore)
    (successTtl failureTtl : Nat) :
    let s := (Fetchers.start policies clients successTtl failureTtl).run web readers net calls
    s.log.Approved net policies.Permits ↔ s.log.Harmless net policies.Permits := by
  apply Outbound.Log.Guarded.approved_iff
  apply Fetchers.guarded_run
  intro hop hmem
  cases hmem

end Run

section Sample

def sampleHost : Host := .name "rebind.example"

def sampleUrl (path : Str) : Url :=
  ⟨"https", some sampleHost, path, "https://rebind.example" ++ path⟩

/-- The URL library on the texts of the run below. -/
def sampleWeb : Web where
  parse s :=
    match stripPrefix "https://rebind.example" s with
    | some [] => .ok (sampleUrl "/")
    | some path => .ok (sampleUrl path)
    | none => .error "relative URL without a base"
  join base s := .ok { base with path := base.path ++ s, text := base.text ++ s }
  setPath base path := { base with path := path }
  showError _ := "error sending request"
  showStatus n := decimal n
  text _ body := bytesAsChars body
  builderError := none

/-- The name is looked up by a check at turns 3 and 5 and by the clients otherwise. The OP
redirects to the metadata service. -/
def sampleNet : Net where
  lookup turn name :=
    if name = "rebind.example".toList ∧ turn ≠ 3 ∧ turn ≠ 5 then .ok [.v4 ⟨10, 0, 0, 1⟩]
    else .ok [.v4 ⟨8, 8, 8, 8⟩]
  tries _ _ := true
  reply turn _ :=
    if turn = 1 then
      .ok (.redirect ⟨"http", some (.literal (.v4 ⟨169, 254, 169, 254⟩)), "/",
        "http://169.254.169.254/"⟩)
    else .error "connection refused"

def sampleReaders : Readers Unit where
  oidc := { discovery := fun _ => .error "EOF", jwks := fun _ => .error "EOF" }
  didDoc _ := .error "EOF"
  nostr := { json := fun _ => none, didDoc := fun _ => .error "EOF" }
  json _ := .error "EOF"

def samplePolicies : FetchPolicies where
  oidc := .new
  didNostr := .new
  webId := Nostr.defaultSsrfCheck
  allowUnsafeUrls := false

def sampleCalls : List FetchCall :=
  [.fetchOidcConfig ⟨"https", some (.name "op.example"), "/", "https://op.example/"⟩,
    .resolve "https://rebind.example" (List.replicate 64 '0') 0 0,
    .resolveWebidToNostr "https://rebind.example/card",
    .find "https://rebind.example/app" 0 0]

def sampleLog : Log :=
  ((Fetchers.start samplePolicies .empty 0 0).run sampleWeb sampleReaders sampleNet sampleCalls).log

theorem sampleLog_contacted :
    (sampleLog.hops.map fun hop => (hop.caller, hop.host, hop.contacted sampleNet)) =
      [(.oidc, .name "op.example", [.v4 ⟨8, 8, 8, 8⟩]),
        (.oidc, .literal (.v4 ⟨169, 254, 169, 254⟩), [.v4 ⟨169, 254, 169, 254⟩]),
        (.didNostr, sampleHost, [.v4 ⟨10, 0, 0, 1⟩]),
        (.webId, sampleHost, [.v4 ⟨10, 0, 0, 1⟩]),
        (.clientStore, sampleHost, [.v4 ⟨10, 0, 0, 1⟩])] := by
  decide +kernel

/-- The fetcher opened a connection that its policy does not permit. -/
def SampleStray (caller : Fetcher) : Prop :=
  ∃ hop ∈ sampleLog.hops, hop.caller = caller ∧
    ∃ ip ∈ hop.contacted sampleNet, ¬ samplePolicies.Permits caller hop.host ip

theorem sampleStray_of_contacted {caller : Fetcher} (host : Host) (ip : IpAddr)
    (h : (caller, host, [ip]) ∈
      sampleLog.hops.map fun hop => (hop.caller, hop.host, hop.contacted sampleNet))
    (hforbidden : ¬ samplePolicies.Permits caller host ip) : SampleStray caller := by
  obtain ⟨hop, hmem, heq⟩ := List.mem_map.mp h
  obtain ⟨hcaller, hhost, hcontacted⟩ : hop.caller = caller ∧ hop.host = host ∧
      hop.contacted sampleNet = [ip] := by simpa using heq
  refine ⟨hop, hmem, hcaller, ip, ?_, ?_⟩
  · rw [hcontacted]
    exact List.mem_singleton_self ip
  · rw [hhost]
    exact hforbidden

/-- A redirect and a second look-up lead every fetcher to an address that is not permitted. -/
theorem sampleLog_strays :
    (SampleStray .oidc ∧ SampleStray .didNostr ∧ SampleStray .webId ∧
      SampleStray .clientStore) ∧ ¬ sampleLog.Approved sampleNet samplePolicies.Permits := by
  have hoidc : SampleStray .oidc := by
    apply sampleStray_of_contacted (.literal (.v4 ⟨169, 254, 169, 254⟩)) (.v4 ⟨169, 254, 169, 254⟩)
    · rw [sampleLog_contacted]
      simp
    · change ¬ SsrfPolicy.new.Permits _ _
      decide +kernel
  have hdidNostr : SampleStray .didNostr := by
    apply sampleStray_of_contacted sampleHost (.v4 ⟨10, 0, 0, 1⟩)
    · rw [sampleLog_contacted]
      simp
    · change ¬ SsrfPolicy.new.Permits _ _
      decide +kernel
  have hprivate : ¬ PermitsByDefault sampleHost (.v4 ⟨10, 0, 0, 1⟩) := by decide
  have hwebId : SampleStray .webId := by
    apply sampleStray_of_contacted sampleHost (.v4 ⟨10, 0, 0, 1⟩)
    · rw [sampleLog_contacted]
      simp
    · exact hprivate
  have hclientStore : SampleStray .clientStore := by
    apply sampleStray_of_contacted sampleHost (.v4 ⟨10, 0, 0, 1⟩)
    · rw [sampleLog_contacted]
      simp
    · intro hpermits
      cases hpermits with
      | inl hunsafe => cases hunsafe
      | inr hdefault => exact hprivate hdefault
  constructor
  · exact ⟨hoidc, hdidNostr, hwebId, hclientStore⟩
  · intro happroved
    obtain ⟨hop, hmem, hcaller, ip, hip, hforbidden⟩ := hoidc
    have hpermits := happroved hop hmem ip hip
    rw [hcaller] at hpermits
    exact hforbidden hpermits

end Sample

end Server

end SolidPod
