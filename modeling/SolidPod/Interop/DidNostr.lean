import SolidPod.Security.Ssrf

/-!
# From a Nostr key to a WebID

The resolver reads the DID document of a key and returns the first WebID that it names and
whose profile mentions the key's DID. Every URL is checked before it is fetched; the client is
not pinned to the address that was approved. What was found, and that nothing was found, is
remembered for a while.
-/

namespace SolidPod

open Foundation Str Http Program Security

namespace Interop

structure DidNostrDoc where
  id : Str
  alsoKnownAs : List Str

structure CachedEntry where
  fetched : Nat
  webId : Option Str

/-- Instants and durations are whole nanoseconds. -/
structure DidNostrResolver where
  ssrf : SsrfPolicy
  client : Client
  cache : Str → Option CachedEntry
  successTtl : Nat
  failureTtl : Nat

def DidNostrResolver.new (ssrf : SsrfPolicy) : DidNostrResolver where
  ssrf := ssrf
  client := { overrides := [], redirects := defaultRedirects }
  cache := fun _ => none
  successTtl := 300 * 1000000000
  failureTtl := 60 * 1000000000

def didNostrWellKnownUrl (origin pubkey : Str) : Str :=
  trimEndMatches '/' origin ++ "/.well-known/did/nostr/" ++ pubkey ++ ".json"

def didNostrIri (pubkey : Str) : Str := "did:nostr:" ++ pubkey

/-- The names of the predicates, one of which a profile has to mention. -/
def sameAsNames : List Str :=
  ["owl:sameAs", "schema:sameAs", "http://www.w3.org/2002/07/owl#sameAs",
    "https://schema.org/sameAs"]

/-- The body mentions a predicate and the DID, wherever they stand in it. -/
def hasBackLink (body didIri : Str) : Bool :=
  sameAsNames.any (containsStr · body) && containsStr didIri body

def errorForStatus (resp : Response) : Except Unit Response :=
  if 400 ≤ resp.status ∧ resp.status < 600 then .error () else .ok resp

section Resolve

variable (web : Web) (didDoc : Bytes → Except Str DidNostrDoc) (net : Net)
  (resolver : DidNostrResolver)

/-- `checked` is what the check looks at and `url` what is fetched. -/
def checkedGet (checked : Url) (url : Str) : Fetch Unit Response := do
  let _ ← (resolver.ssrf.resolveAndCheck net checked).mapError fun _ => ()
  match checked.host with
  | none => .fail ()
  | some host =>
    let resp ← (send web net .didNostr host resolver.client url).mapError fun _ => ()
    ofResult (errorForStatus resp)

/-- The profile that a candidate's URL leads to. -/
def candidateBody (candidate : Str) : Fetch Unit Str := do
  let url ← ofResult ((web.parse candidate).mapError fun _ => ())
  let resp ← checkedGet web net resolver url url.text
  ofResult ((resp.text web).mapError fun _ => ())

def tryCandidate (didIri candidate : Str) : Fetch Unit Str := do
  let body ← candidateBody web net resolver candidate
  rejectIf (hasBackLink body didIri = false) ()
  pure candidate

def firstVerified (didIri : Str) : List Str → Fetch Unit Str
  | [] => .fail ()
  | candidate :: rest =>
    (tryCandidate web net resolver didIri candidate).orElse (firstVerified didIri rest)

/-- The DID document of a key, under its own id. -/
def didDocument (origin pubkey : Str) : Fetch Unit DidNostrDoc := do
  let originUrl ← ofResult ((web.parse origin).mapError fun _ => ())
  let resp ← checkedGet web net resolver originUrl (didNostrWellKnownUrl origin pubkey)
  let doc ← ofResult ((resp.json didDoc).mapError fun _ => ())
  rejectIf (doc.id ≠ didNostrIri pubkey) ()
  pure doc

def resolveUncached (origin pubkey : Str) : Fetch Unit Str := do
  let doc ← didDocument web didDoc net resolver origin pubkey
  firstVerified web net resolver (didNostrIri pubkey) doc.alsoKnownAs

/-- A remembered outcome that is not too old. -/
def DidNostrResolver.remembered (resolver : DidNostrResolver) (key : Str) (now : Nat) :
    Option CachedEntry :=
  (resolver.cache key).filter fun entry =>
    let ttl := if entry.webId.isSome then resolver.successTtl else resolver.failureTtl
    decide (now - entry.fetched < ttl)

def DidNostrResolver.remember (resolver : DidNostrResolver) (key : Str) (entry : CachedEntry) :
    DidNostrResolver :=
  { resolver with cache := fun key' => if key' = key then some entry else resolver.cache key' }

/-- The call is made at `now`, and its outcome is remembered `later`. -/
def resolve (origin pubkey : Str) (now later : Nat) (log : Log) :
    Option Str × DidNostrResolver × Log :=
  match resolver.remembered (origin ++ '|' :: pubkey) now with
  | some entry => (entry.webId, resolver, log)
  | none =>
    let outcome := (resolveUncached web didDoc net resolver origin pubkey).exec log
    let webId := outcome.1.toOption
    (webId, resolver.remember (origin ++ '|' :: pubkey) ⟨later, webId⟩, outcome.2)

end Resolve

/-- The profile of a candidate whose host always has the same permitted address and whose URL is
always answered. -/
theorem returns_candidateBody {web : Web} {net : Net} {resolver : DidNostrResolver}
    {candidate body : Str} {url : Url} {host : Host} {ip : IpAddr} {rest : List IpAddr}
    {resp : Response} (hparse : web.parse candidate = .ok url)
    (hsame : web.parse url.text = .ok url) (hhost : url.host = some host)
    (htarget : target url = some host)
    (hresolve : ∀ turn, net.resolve turn host = .ok (ip :: rest))
    (hpermits : resolver.ssrf.Permits host ip)
    (hreply : ∀ turn, net.reply turn url = .ok (.response resp))
    (hstatus : errorForStatus resp = .ok resp) (hbody : resp.text web = .ok body) :
    Returns (candidateBody web net resolver candidate) body := by
  have hsend : Returns (send web net .didNostr host resolver.client url.text) resp := by
    rw [send, hsame]
    exact Outbound.returns_get htarget hreply
  have hget : Returns (checkedGet web net resolver url url.text) resp := by
    apply Returns.bind
      (Returns.mapError _ (returns_policy_resolveAndCheck hhost hresolve hpermits))
    rw [hhost]
    apply Returns.bind (Returns.mapError _ hsend)
    exact Returns.ofResult hstatus
  apply Returns.bind (Returns.ofResult (by rw [hparse]; rfl))
  apply Returns.bind hget
  exact Returns.ofResult (by rw [hbody]; rfl)

section Guarded

variable {web : Web} {didDoc : Bytes → Except Str DidNostrDoc} {net : Net}
  {resolver : DidNostrResolver} {permits : Fetcher → Host → IpAddr → Prop}
  (hclient : resolver.client.overrides = [])
  (hpermits : ∀ host ip, resolver.ssrf.Permits host ip → permits .didNostr host ip)

include hclient hpermits

theorem keeps_checkedGet (checked : Url) (url : Str) :
    Keeps (Outbound.Log.Guarded net permits) (checkedGet web net resolver checked url)
      (fun _ => True) := by
  apply Keeps.bind (Keeps.mapError _ (keeps_policy_resolveAndCheck Outbound.Log.turnFree_guarded
    resolver.ssrf checked))
  rintro ip ⟨host, hhost, hip, turn, hanswer⟩
  rw [hhost]
  have hchecked := Outbound.permits_of_literal (hpermits host ip hip) hanswer
  apply Keeps.bind (Keeps.mapError _ (keeps_send hclient hchecked url))
  intro resp _
  exact Keeps.ofResult fun _ _ => trivial

theorem keeps_firstVerified (didIri : Str) (candidates : List Str) :
    Keeps (Outbound.Log.Guarded net permits) (firstVerified web net resolver didIri candidates)
      (fun _ => True) := by
  induction candidates with
  | nil => exact Keeps.fail _
  | cons candidate rest ih =>
      apply Keeps.orElse _ ih
      apply Keeps.bind (Q := fun _ => True)
      · apply Keeps.bind (Keeps.ofMapped _)
        intro url _
        apply Keeps.bind (keeps_checkedGet hclient hpermits url url.text)
        intro resp _
        exact Keeps.weaken (Keeps.ofMapped _) fun _ _ => trivial
      · intro body _
        apply Keeps.bind (Keeps.rejectIf _ _)
        intro _ _
        exact Keeps.pure trivial

theorem keeps_resolveUncached (origin pubkey : Str) :
    Keeps (Outbound.Log.Guarded net permits)
      (resolveUncached web didDoc net resolver origin pubkey) (fun _ => True) := by
  apply Keeps.bind (Q := fun _ => True)
  · apply Keeps.bind (Keeps.ofMapped _)
    intro originUrl _
    apply Keeps.bind (keeps_checkedGet hclient hpermits originUrl _)
    intro resp _
    apply Keeps.bind (Keeps.ofMapped _)
    intro doc _
    apply Keeps.bind (Keeps.rejectIf _ _)
    intro _ _
    exact Keeps.pure trivial
  · intro doc _
    exact keeps_firstVerified hclient hpermits _ _

/-- A call leaves a log of guarded requests. -/
theorem guarded_resolve (origin pubkey : Str) (now later : Nat) {log : Log}
    (hlog : log.Guarded net permits) :
    (resolve web didDoc net resolver origin pubkey now later log).2.2.Guarded net permits := by
  unfold resolve
  cases resolver.remembered (origin ++ '|' :: pubkey) now with
  | some entry => exact hlog
  | none => exact (keeps_resolveUncached hclient hpermits origin pubkey).after hlog

end Guarded

/-- The policy and the client stay. -/
theorem settings_resolve (web : Web) (didDoc : Bytes → Except Str DidNostrDoc) (net : Net)
    (resolver : DidNostrResolver) (origin pubkey : Str) (now later : Nat) (log : Log) :
    let after := (resolve web didDoc net resolver origin pubkey now later log).2.1
    after.ssrf = resolver.ssrf ∧ after.client = resolver.client := by
  unfold resolve
  cases resolver.remembered (origin ++ '|' :: pubkey) now with
  | some entry => exact ⟨rfl, rfl⟩
  | none => exact ⟨rfl, rfl⟩

end Interop

end SolidPod
