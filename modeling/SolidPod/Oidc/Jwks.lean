import SolidPod.Json
import SolidPod.Security.Ssrf

/-!
# Discovery documents and key sets

The fetches of an OP's discovery document and of its keys. Both check the URL, pin the host to
the approved address and then send the request.
-/

namespace SolidPod

open Foundation Str Http Program Security

namespace Oidc

structure OidcDiscoveryDoc where
  issuer : Str
  jwksUri : Str
  authorizationEndpoint : Str
  tokenEndpoint : Str
  registrationEndpoint : Option Str
  scopesSupported : Option (List Str)
  extra : List (Str × Json)

/-- The readers of the two documents. -/
structure Serde (JwkSet : Type) where
  discovery : Bytes → Except Str OidcDiscoveryDoc
  jwks : Bytes → Except Str JwkSet

def canonicalIssuer (u : Url) : Str := trimEndMatches '/' u.text

/-- An address is never looked up, so an override of one is without effect. -/
def overridesFor (host : Host) (ip : IpAddr) : List (Str × IpAddr) :=
  match host with
  | .name n => [(n, ip)]
  | .literal _ => []

/-- A client that connects to the approved address for this host. -/
def pinnedClient (web : Web) (host : Host) (ip : IpAddr) : Except Str Client :=
  web.build { overrides := overridesFor host ip, redirects := defaultRedirects }

def discoveryUrl (web : Web) (issuer : Url) : Except Str Url :=
  let base :=
    if endsWith "/" issuer.path then issuer else web.setPath issuer (issuer.path ++ "/")
  web.join base ".well-known/openid-configuration"

section Fetches

variable {JwkSet : Type} (web : Web) (serde : Serde JwkSet) (net : Net)

def fetchOidcConfig (issuer : Url) (ssrf : SsrfPolicy) : Fetch PodError OidcDiscoveryDoc := do
  let approvedIp ← (ssrf.resolveAndCheck net issuer).mapError fun e =>
    .nip98 ("issuer SSRF: " ++ e.display)
  match issuer.host with
  | none => .fail (.nip98 ("issuer URL missing host: " ++ issuer.text))
  | some host =>
    let pinned ← ofResult ((pinnedClient web host approvedIp).mapError fun e =>
      .backend ("reqwest client build failed: " ++ e))
    let discovery ← ofResult ((discoveryUrl web issuer).mapError .urlParse)
    let resp ← (pinned.get net target .oidc host discovery).mapError fun e =>
      .backend ("discovery fetch failed: " ++ web.showError e)
    rejectIf (resp.isSuccess = false)
      (.backend ("discovery returned HTTP " ++ web.showStatus resp.status))
    let doc ← ofResult ((resp.json serde.discovery).mapError fun e =>
      .backend ("discovery parse failed: " ++ e))
    let expected := canonicalIssuer issuer
    let claimed := trimEndMatches '/' doc.issuer
    rejectIf (claimed ≠ expected)
      (.nip98 ("issuer fixation: discovery doc issuer '" ++ claimed ++
        "' does not match fetch URL '" ++ expected ++ "'"))
    pure doc

/-- The keys of an issuer. The URL in the discovery document is checked on its own. -/
def fetchJwks (issuer : Url) (ssrf : SsrfPolicy) : Fetch PodError JwkSet := do
  let doc ← fetchOidcConfig web serde net issuer ssrf
  let jwksUrl ← ofResult ((web.parse doc.jwksUri).mapError fun e =>
    .nip98 ("malformed jwks_uri '" ++ doc.jwksUri ++ "': " ++ e))
  let approvedIp ← (ssrf.resolveAndCheck net jwksUrl).mapError fun e =>
    .nip98 ("jwks_uri SSRF: " ++ e.display)
  match jwksUrl.host with
  | none => .fail (.nip98 ("jwks_uri missing host: " ++ jwksUrl.text))
  | some host =>
    let pinned ← ofResult ((pinnedClient web host approvedIp).mapError fun e =>
      .backend ("reqwest client build failed: " ++ e))
    let resp ← (pinned.get net target .oidc host jwksUrl).mapError fun e =>
      .backend ("jwks fetch failed: " ++ web.showError e)
    rejectIf (resp.isSuccess = false)
      (.backend ("jwks returned HTTP " ++ web.showStatus resp.status))
    ofResult ((resp.json serde.jwks).mapError fun e => .backend ("jwks parse failed: " ++ e))

end Fetches

theorem overrides_of_pinnedClient {web : Web} {host : Host} {ip : IpAddr} {client : Client}
    (h : pinnedClient web host ip = .ok client) : client.overrides = overridesFor host ip := by
  unfold pinnedClient Web.build at h
  cases hbuilder : web.builderError with
  | some e =>
      simp only [hbuilder] at h
      cases h
  | none =>
      simp only [hbuilder] at h
      cases h
      rfl

section Guarded

variable {JwkSet : Type} {web : Web} {serde : Serde JwkSet} {net : Net} {ssrf : SsrfPolicy}
  {permits : Fetcher → Host → IpAddr → Prop}

/-- A client that is pinned to an approved address of the host settles the connections to it. -/
theorem guarded_of_pinnedClient {host : Host} {ip : IpAddr} {client : Client}
    (hclient : pinnedClient web host ip = .ok client) (hip : permits .oidc host ip)
    {turn : Nat} (hanswer : ip ∈ net.answers turn host) (turn' : Nat) (host' : Host) :
    Outbound.Hop.Guarded net (⟨.oidc, host, client, turn', host'⟩ : Hop) (permits .oidc) := by
  have hoverrides := overrides_of_pinnedClient hclient
  cases host with
  | literal a =>
      apply Outbound.Hop.guarded_of_unpinned net hoverrides
      exact Outbound.permits_of_literal hip hanswer
  | name n =>
      apply Outbound.Hop.guarded_of_pinned net hoverrides
      · rfl
      · exact hip

variable (hpermits : ∀ host ip, ssrf.Permits host ip → permits .oidc host ip)

include hpermits

theorem keeps_fetchOidcConfig (issuer : Url) :
    Keeps (Outbound.Log.Guarded net permits) (fetchOidcConfig web serde net issuer ssrf)
      (fun _ => True) := by
  apply Keeps.bind (Keeps.mapError _ (keeps_policy_resolveAndCheck Outbound.Log.turnFree_guarded
    ssrf issuer))
  rintro ip ⟨host, hhost, hip, turn, hanswer⟩
  rw [hhost]
  apply Keeps.bind (Keeps.ofMapped _)
  intro client hclient
  apply Keeps.bind (Keeps.ofMapped _)
  intro discovery _
  have hhop := guarded_of_pinnedClient hclient (hpermits host ip hip) hanswer
  apply Keeps.bind (Keeps.mapError _ (Outbound.Log.keeps_get hhop target discovery))
  intro resp _
  apply Keeps.bind (Keeps.rejectIf _ _)
  intro _ _
  apply Keeps.bind (Keeps.ofMapped _)
  intro doc _
  apply Keeps.bind (Keeps.rejectIf _ _)
  intro _ _
  exact Keeps.pure trivial

theorem keeps_fetchJwks (issuer : Url) :
    Keeps (Outbound.Log.Guarded net permits) (fetchJwks web serde net issuer ssrf)
      (fun _ => True) := by
  apply Keeps.bind (keeps_fetchOidcConfig hpermits issuer)
  intro doc _
  apply Keeps.bind (Keeps.ofMapped _)
  intro jwksUrl _
  apply Keeps.bind (Keeps.mapError _ (keeps_policy_resolveAndCheck Outbound.Log.turnFree_guarded
    ssrf jwksUrl))
  rintro ip ⟨host, hhost, hip, turn, hanswer⟩
  rw [hhost]
  apply Keeps.bind (Keeps.ofMapped _)
  intro client hclient
  have hhop := guarded_of_pinnedClient hclient (hpermits host ip hip) hanswer
  apply Keeps.bind (Keeps.mapError _ (Outbound.Log.keeps_get hhop target jwksUrl))
  intro resp _
  apply Keeps.bind (Keeps.rejectIf _ _)
  intro _ _
  exact Keeps.weaken (Keeps.ofMapped _) fun _ _ => trivial

end Guarded

end Oidc

end SolidPod
