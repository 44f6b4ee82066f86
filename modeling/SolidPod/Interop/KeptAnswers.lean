import SolidPod.Foundation.Expiry
import SolidPod.Interop.DidNostr
import SolidPod.Oidc.Jwks

/-!
# Answers that are kept for a while

The discovery document and the keys of an OP are kept under the issuer without
its last slashes, and the WebID of a Nostr key, or that none was found, under the
origin and the key. Calls that run at the same time share what is kept. What any
of them answers was fetched for the same name, and not long ago; so the keys that
an OP withdraws are believed for no longer than that.
-/

namespace SolidPod

open Foundation Str Http Program Security

namespace Oidc

/-- The answers for issuers, each with the time it was fetched at. -/
structure TtlCache (V : Type) where
  ttl : ℕ
  inner : Str → Option (V × ℕ)

section Cache

variable {V : Type}

def TtlCache.get (cache : TtlCache V) (issuer : Str) (now : ℕ) : Option V :=
  match cache.inner issuer with
  | none => none
  | some (v, fetched) => if now - fetched ≤ cache.ttl then some v else none

def TtlCache.put (cache : TtlCache V) (issuer : Str) (v : V) (now : ℕ) : TtlCache V :=
  { cache with inner := Function.update cache.inner issuer (some (v, now)) }

/-- An answer is good for the time to live, its end included. -/
def isFresh (ttl : ℕ) (_ : V) (age : ℕ) : Bool := age ≤ ttl

theorem get_eq_lookup (cache : TtlCache V) (issuer : Str) (now : ℕ) :
    cache.get issuer now = Expiry.lookup (isFresh cache.ttl) cache.inner issuer now := by
  rw [TtlCache.get, Expiry.lookup]
  cases cache.inner issuer with
  | none => rfl
  | some entry =>
      obtain ⟨v, fetched⟩ := entry
      simp only
      by_cases hage : now - fetched ≤ cache.ttl
      · rw [if_pos hage, Option.filter_some_pos (by exact decide_eq_true hage)]
        rfl
      · rw [if_neg hage, Option.filter_some_neg (by exact decide_eq_false hage)]
        rfl

/-- The answer that is kept, or one that is fetched and kept then. -/
def cachedFetch (cache : TtlCache V) (key : Str) (fetch : Fetch PodError V) (now later : ℕ)
    (log : Log) : Except PodError V × TtlCache V × Log :=
  match cache.get key now with
  | some cached => (.ok cached, cache, log)
  | none =>
    match fetch.exec log with
    | (.error e, log) => (.error e, cache, log)
    | (.ok v, log) => (.ok v, cache.put key v later, log)

end Cache

abbrev OidcConfigCache := TtlCache OidcDiscoveryDoc

abbrev JwksCache (JwkSet : Type) := TtlCache JwkSet

structure CachedFetcher (JwkSet : Type) where
  configCache : OidcConfigCache
  jwksCache : JwksCache JwkSet
  ssrf : SsrfPolicy

section Fetcher

variable {JwkSet : Type} (web : Web) (serde : Serde JwkSet) (net : Net)
  (fetcher : CachedFetcher JwkSet)

/-- The call is made at `now`, and what it fetches is kept `later`. -/
def CachedFetcher.config (issuer : Url) (now later : ℕ) (log : Log) :
    Except PodError OidcDiscoveryDoc × CachedFetcher JwkSet × Log :=
  let outcome := cachedFetch fetcher.configCache (canonicalIssuer issuer)
    (fetchOidcConfig web serde net issuer fetcher.ssrf) now later log
  (outcome.1, { fetcher with configCache := outcome.2.1 }, outcome.2.2)

def CachedFetcher.jwks (issuer : Url) (now later : ℕ) (log : Log) :
    Except PodError JwkSet × CachedFetcher JwkSet × Log :=
  let outcome := cachedFetch fetcher.jwksCache (canonicalIssuer issuer)
    (fetchJwks web serde net issuer fetcher.ssrf) now later log
  (outcome.1, { fetcher with jwksCache := outcome.2.1 }, outcome.2.2)

end Fetcher

/-- On its own such a call does what a call of a memo does that is given what was fetched. -/
theorem cachedFetch_eq_consult {V : Type} (cache : TtlCache V) (key : Str)
    (fetch : Fetch PodError V) (now later : ℕ) (log : Log) :
    let outcome := cachedFetch cache key fetch now later log
    (outcome.1.toOption, outcome.2.1.inner) = Expiry.consult (isFresh cache.ttl) cache.inner key now
      later (fetch.exec log).1.toOption := by
  rw [cachedFetch, get_eq_lookup, Expiry.consult.eq_def]
  cases Expiry.lookup (isFresh cache.ttl) cache.inner key now with
  | some v => rfl
  | none =>
      rcases fetch.exec log with ⟨e | v, rest⟩
      · rfl
      · rfl

/-- A document that is fetched for an issuer names it. -/
theorem issuer_of_fetchOidcConfig {JwkSet : Type} {web : Web} {serde : Serde JwkSet} {net : Net}
    {ssrf : SsrfPolicy} {issuer : Url} {log : Log} {doc : OidcDiscoveryDoc}
    (h : ((fetchOidcConfig web serde net issuer ssrf).exec log).1 = .ok doc) :
    trimEndMatches '/' doc.issuer = canonicalIssuer issuer := by
  rw [fetchOidcConfig] at h
  obtain ⟨ip, -, h, -⟩ := exists_of_exec_bind h
  split at h
  · cases h
  · obtain ⟨pinned, -, h, -⟩ := exists_of_exec_bind h
    obtain ⟨discovery, -, h, -⟩ := exists_of_exec_bind h
    obtain ⟨resp, -, h, -⟩ := exists_of_exec_bind h
    obtain ⟨_, -, h, -⟩ := exists_of_exec_bind h
    obtain ⟨doc', -, h, -⟩ := exists_of_exec_bind h
    obtain ⟨_, hclaimed, h, -⟩ := exists_of_exec_bind h
    cases h
    rw [exec_rejectIf] at hclaimed
    by_contra hne
    rw [if_pos hne] at hclaimed
    cases hclaimed

/-- The document of an OP whose host always has the same permitted address and which always
answers. -/
theorem returns_fetchOidcConfig {JwkSet : Type} {web : Web} {serde : Serde JwkSet} {net : Net}
    {ssrf : SsrfPolicy} {issuer discovery : Url} {host : Host} {ip : IpAddr} {rest : List IpAddr}
    {resp : Response} {doc : OidcDiscoveryDoc} (hhost : issuer.host = some host)
    (hresolve : ∀ turn, net.resolve turn host = .ok (ip :: rest)) (hpermits : ssrf.Permits host ip)
    (hbuilder : web.builderError = none) (hurl : discoveryUrl web issuer = .ok discovery)
    (htarget : target discovery = some host)
    (hreply : ∀ turn, net.reply turn discovery = .ok (.response resp))
    (hstatus : resp.isSuccess = true) (hdoc : resp.json serde.discovery = .ok doc)
    (hissuer : trimEndMatches '/' doc.issuer = canonicalIssuer issuer) :
    Returns (fetchOidcConfig web serde net issuer ssrf) doc := by
  apply Returns.bind (Returns.mapError _ (returns_policy_resolveAndCheck hhost hresolve hpermits))
  rw [hhost]
  have hclient : pinnedClient web host ip = .ok ⟨overridesFor host ip, defaultRedirects⟩ := by
    rw [pinnedClient, Web.build, hbuilder]
  apply Returns.bind (Returns.ofResult (by rw [hclient]; rfl))
  apply Returns.bind (Returns.ofResult (by rw [hurl]; rfl))
  apply Returns.bind (Returns.mapError _ (Outbound.returns_get htarget hreply))
  apply Returns.bind (Returns.rejectIf (ne_false_of_eq_true hstatus) _)
  apply Returns.bind (Returns.ofResult (by rw [hdoc]; rfl))
  apply Returns.bind (Returns.rejectIf (not_not.mpr hissuer) _)
  exact Returns.pure doc

section Runs

variable {ι JwkSet : Type} [DecidableEq ι] (web : Web) (serde : Serde JwkSet) (net : ℕ → Net)
  (ssrf : SsrfPolicy)

/-- At some time, with the network as it was then, a fetch for an issuer of this name gave an
answer. -/
def Published {V : Type} (fetch : Net → Url → Fetch PodError V) (name : Str) (time : ℕ) (v : V) :
    Prop :=
  ∃ issuer log, canonicalIssuer issuer = name ∧ ((fetch (net time) issuer).exec log).1 = .ok v

/-- The calls of a run of a cached fetcher, which starts without answers. What is fetched is what
the network gives then, and it is kept within the delay. -/
structure CachedRun {V : Type} (fetch : Net → Url → Fetch PodError V) (ttl delay : ℕ)
    (issuer : ι → Url) (sched : List (Expiry.MemoMove ι V)) (m : Expiry.Memo ι Str V) : Prop where
  timely : Schedule.Along
    (Expiry.memoStep (isFresh ttl) fun i => canonicalIssuer (issuer i))
    (Expiry.Timely (fun i => canonicalIssuer (issuer i)) (Published net fetch) delay)
    (.start (fun _ => none) 0) sched
  run : Schedule.run (Expiry.memoStep (isFresh ttl) fun i => canonicalIssuer (issuer i))
    (.start (fun _ => none) 0) sched = some m

variable {net} in
/-- Each answer was given for an issuer of the same name, not long before. -/
theorem CachedRun.recent {V : Type} {fetch : Net → Url → Fetch PodError V} {ttl delay : ℕ}
    {issuer : ι → Url} {sched : List (Expiry.MemoMove ι V)} {m : Expiry.Memo ι Str V}
    (h : CachedRun net fetch ttl delay issuer sched m) :
    Expiry.Recent (fun i => canonicalIssuer (issuer i)) (Published net fetch) delay
      (fun _ => ttl) m := by
  refine Expiry.recent_of_run (fun v age hage => of_decide_eq_true hage) ?_ h.timely h.run
  intro k v s hk
  cases hk

/-- Whatever calls run at the same time, a discovery document names the issuer that it was asked
for, kept or not, and it was fetched no longer ago than the time to live and the delay. -/
theorem issuer_of_cachedRun {ttl delay : ℕ} {issuer : ι → Url}
    {sched : List (Expiry.MemoMove ι OidcDiscoveryDoc)} {m : Expiry.Memo ι Str OidcDiscoveryDoc}
    (h : CachedRun net (fun net issuer => fetchOidcConfig web serde net issuer ssrf) ttl delay
      issuer sched m) {i : ι} {doc : OidcDiscoveryDoc} {t : ℕ}
    (hanswer : m.phase i = .answered doc t) :
    trimEndMatches '/' doc.issuer = canonicalIssuer (issuer i) ∧
      ∃ f, Published net (fun net issuer => fetchOidcConfig web serde net issuer ssrf)
        (canonicalIssuer (issuer i)) f doc ∧ f ≤ t ∧ t ≤ f + delay + ttl := by
  obtain ⟨f, ⟨issuer', log, hname, hfetch⟩, hle, hage⟩ := h.recent i doc t hanswer
  exact ⟨(issuer_of_fetchOidcConfig hfetch).trans hname, f, ⟨issuer', log, hname, hfetch⟩, hle,
    hage⟩

/-- Keys that an OP has stopped to publish are answered with for no longer than the time to live
and the delay. -/
theorem lt_of_withdrawn {ttl delay : ℕ} {issuer : ι → Url}
    {sched : List (Expiry.MemoMove ι JwkSet)} {m : Expiry.Memo ι Str JwkSet}
    (h : CachedRun net (fun net issuer => fetchJwks web serde net issuer ssrf) ttl delay issuer
      sched m) {i : ι} {set : JwkSet} {t : ℕ} (hanswer : m.phase i = .answered set t)
    (withdrawn : JwkSet → Prop) (time : ℕ)
    (hwithdrawn : ∀ f set, time ≤ f → withdrawn set →
      ¬ Published net (fun net issuer => fetchJwks web serde net issuer ssrf)
        (canonicalIssuer (issuer i)) f set)
    (hset : withdrawn set) : t < time + delay + ttl := by
  obtain ⟨f, hpublished, -, hage⟩ := h.recent i set t hanswer
  have hbefore : f < time := by
    by_contra hnot
    exact hwithdrawn f set (Nat.not_lt.mp hnot) hset hpublished
  calc t ≤ f + delay + ttl := hage
    _ < time + delay + ttl := Nat.add_lt_add_right (Nat.add_lt_add_right hbefore _) _

end Runs

section Sample

def keptUrl : Url :=
  ⟨"https", some (.literal (.v4 ⟨8, 8, 8, 8⟩)), "/", "https://8.8.8.8/"⟩

def keptWeb : Web where
  parse _ := .ok keptUrl
  join base _ := .ok base
  setPath base _ := base
  showError _ := "error sending request"
  showStatus n := decimal n
  text _ body := bytesAsChars body
  builderError := none

/-- The OP goes off the network at 10. -/
def keptNet (time : ℕ) : Net where
  lookup _ _ := .error "no such host"
  tries _ _ := true
  reply _ _ := if time < 10 then .ok (.response ⟨200, none, .ok []⟩) else .error "refused"

def keptDoc : OidcDiscoveryDoc :=
  ⟨"https://8.8.8.8", "https://8.8.8.8/", [], [], none, none, []⟩

def keptSerde : Serde Unit where
  discovery _ := .ok keptDoc
  jwks _ := .ok ()

/-- Two calls, of which the second is answered with what the first one keeps. -/
def keptCalls {V : Type} (v : V) : List (Expiry.MemoMove Bool V) :=
  [.look false 0, .fetch false 1 (some v), .keep false 2, .look true 12]

/-- What the first call fetches has to be what is given then. -/
theorem timely_keptCalls {K V : Type} [DecidableEq K] {isFresh : V → ℕ → Bool} {key : Bool → K}
    {gives : K → ℕ → V → Prop} {v : V} (h : gives (key false) 1 v) :
    Schedule.Along (Expiry.memoStep isFresh key) (Expiry.Timely key gives 1)
      (.start (fun _ => none) 0) (keptCalls v) := by
  have hlook (i : Bool) (t : ℕ) (m : Expiry.Memo Bool K V) :
      Expiry.Timely key gives 1 m (.look i t) :=
    ⟨fun _ _ _ heq => (by cases heq), fun _ _ _ _ heq => (by cases heq)⟩
  rw [keptCalls, Schedule.along_cons]
  refine ⟨hlook _ _ _, fun u hu => ?_⟩
  cases hu
  rw [Schedule.along_cons]
  refine ⟨⟨?_, fun _ _ _ _ heq => (by cases heq)⟩, fun u hu => ?_⟩
  · intro i t w heq
    cases heq
    exact h
  · cases hu
    rw [Schedule.along_cons]
    refine ⟨⟨fun _ _ _ heq => (by cases heq), ?_⟩, fun u hu => ?_⟩
    · intro i t w f heq hphase
      cases heq
      cases hphase
      exact le_rfl
    · cases hu
      rw [Schedule.along_cons]
      exact ⟨hlook _ _ _, fun u _ => fun pre i post w heq => (by cases pre <;> cases heq)⟩

theorem exists_keptCalls {V : Type} (fetch : Net → Url → Fetch PodError V) {v : V}
    (h : Returns (fetch (keptNet 1) keptUrl) v) :
    ∃ m, CachedRun keptNet fetch 10 1 (fun _ : Bool => keptUrl) (keptCalls v) m ∧
      m.phase true = .answered v 12 :=
  ⟨_, ⟨timely_keptCalls ⟨keptUrl, ⟨0, []⟩, rfl, h _⟩, rfl⟩, rfl⟩

theorem kept_permits : SsrfPolicy.new.Permits (.literal (.v4 ⟨8, 8, 8, 8⟩)) (.v4 ⟨8, 8, 8, 8⟩) := by
  decide +kernel

theorem kept_target : target keptUrl = some (.literal (.v4 ⟨8, 8, 8, 8⟩)) := by decide +kernel

theorem kept_doc_issuer : trimEndMatches '/' keptDoc.issuer = canonicalIssuer keptUrl := by
  decide +kernel

theorem kept_discoveryUrl : discoveryUrl keptWeb keptUrl = .ok keptUrl := by
  rw [discoveryUrl]
  split_ifs <;> rfl

theorem returns_kept_fetchOidcConfig :
    Returns (fetchOidcConfig keptWeb keptSerde (keptNet 1) keptUrl .new) keptDoc :=
  returns_fetchOidcConfig rfl (fun _ => rfl) kept_permits rfl kept_discoveryUrl kept_target
    (fun _ => rfl) rfl rfl kept_doc_issuer

/-- The run of the two calls, with a document. -/
theorem kept_issuer : ∃ m : Expiry.Memo Bool Str OidcDiscoveryDoc,
    m.phase true = .answered keptDoc 12 ∧
      trimEndMatches '/' keptDoc.issuer = canonicalIssuer keptUrl := by
  obtain ⟨m, hrun, hanswer⟩ := exists_keptCalls
    (fun net issuer => fetchOidcConfig keptWeb keptSerde net issuer .new)
    returns_kept_fetchOidcConfig
  exact ⟨m, hanswer, (issuer_of_cachedRun _ _ _ _ hrun hanswer).1⟩

theorem returns_kept_fetchJwks :
    Returns (fetchJwks keptWeb keptSerde (keptNet 1) keptUrl .new) () := by
  apply Returns.bind returns_kept_fetchOidcConfig
  apply Returns.bind (Returns.ofResult rfl)
  apply Returns.bind
    (Returns.mapError _ (returns_policy_resolveAndCheck rfl (fun _ => rfl) kept_permits))
  apply Returns.bind (Returns.ofResult rfl)
  apply Returns.bind (Returns.mapError _ (Outbound.returns_get kept_target fun _ => rfl))
  apply Returns.bind (Returns.rejectIf (ne_false_of_eq_true rfl) _)
  exact Returns.ofResult rfl

theorem keptNet_reply {f : ℕ} (h : 10 ≤ f) (turn : ℕ) (url : Url) :
    (keptNet f).reply turn url = .error "refused" := if_neg (Nat.not_lt.mpr h)

/-- A request fails on a network that answers nothing. -/
theorem get_ne_ok {net : Net} {e : Str} (hdown : ∀ turn url, net.reply turn url = .error e)
    {ε : Type} (g : ClientError → ε) {client : Client} {caller : Fetcher} {checked : Host}
    {url : Url} {log : Log} {resp : Response} :
    (((client.get net target caller checked url).mapError g).exec log).1 ≠ .ok resp := by
  have hfails : ∃ err, ((client.get net target caller checked url).exec log).1 = .error err := by
    rw [Outbound.Client.get, Outbound.Client.follow.eq_def]
    cases target url with
    | none => exact ⟨_, rfl⟩
    | some host =>
        have hvisit : ((client.visit net caller checked host url).exec log).1 =
            .error (.failed e) := by
          change (net.reply log.turn url).mapError _ = _
          rw [hdown]
          rfl
        simp only [exec_bind]
        split
        · rename_i reply rest heq
          rw [heq] at hvisit
          cases hvisit
        · exact ⟨_, rfl⟩
  obtain ⟨err, hget⟩ := hfails
  change ((client.get net target caller checked url).exec log).1.mapError g ≠ _
  rw [hget]
  intro heq
  cases heq

theorem not_published_keptNet {f : ℕ} (h : 10 ≤ f) (name : Str) (keys : Unit) :
    ¬ Published keptNet (fun net issuer => fetchJwks keptWeb keptSerde net issuer .new) name f
      keys := by
  rintro ⟨issuer, log, -, hfetch⟩
  simp only [fetchJwks] at hfetch
  obtain ⟨doc, hfetch, -⟩ := exists_of_exec_bind hfetch
  rw [fetchOidcConfig] at hfetch
  obtain ⟨ip, -, hfetch, -⟩ := exists_of_exec_bind hfetch
  split at hfetch
  · cases hfetch
  · obtain ⟨pinned, -, hfetch, -⟩ := exists_of_exec_bind hfetch
    obtain ⟨discovery, -, hfetch, -⟩ := exists_of_exec_bind hfetch
    obtain ⟨resp, hget, -⟩ := exists_of_exec_bind hfetch
    exact get_ne_ok (keptNet_reply h) _ hget

/-- The run of the two calls, with keys that are withdrawn at 10. -/
theorem kept_lt : ∃ m : Expiry.Memo Bool Str Unit, m.phase true = .answered () 12 ∧
    12 < 10 + 1 + 10 := by
  obtain ⟨m, hrun, hanswer⟩ := exists_keptCalls
    (fun net issuer => fetchJwks keptWeb keptSerde net issuer .new) returns_kept_fetchJwks
  refine ⟨m, hanswer, ?_⟩
  exact lt_of_withdrawn _ _ _ _ hrun hanswer (fun _ => True) 10
    (fun f keys hle _ => not_published_keptNet hle _ keys) trivial

end Sample

end Oidc

namespace Interop

/-- The entry of the memo that stands for an entry of the cache. -/
def CachedEntry.pair (entry : CachedEntry) : Option Str × ℕ := (entry.webId, entry.fetched)

/-- How long an outcome is remembered. -/
def DidNostrResolver.ttlOf (resolver : DidNostrResolver) (webId : Option Str) : ℕ :=
  if webId.isSome then resolver.successTtl else resolver.failureTtl

def DidNostrResolver.isFresh (resolver : DidNostrResolver) (webId : Option Str) (age : ℕ) : Bool :=
  age < resolver.ttlOf webId

def cacheKey (origin pubkey : Str) : Str := origin ++ '|' :: pubkey

/-- On its own a call does what a call of a memo does that is given what was found. -/
theorem resolve_eq_consult (web : Web) (didDoc : Bytes → Except Str DidNostrDoc) (net : Net)
    (resolver : DidNostrResolver) (origin pubkey : Str) (now later : ℕ) (log : Log) :
    let outcome := resolve web didDoc net resolver origin pubkey now later log
    (some outcome.1, fun key => (outcome.2.1.cache key).map CachedEntry.pair) =
      Expiry.consult resolver.isFresh (fun key => (resolver.cache key).map CachedEntry.pair)
        (cacheKey origin pubkey) now later
        (some ((resolveUncached web didDoc net resolver origin pubkey).exec log).1.toOption) := by
  have hlookup : Expiry.lookup resolver.isFresh
      (fun key => (resolver.cache key).map CachedEntry.pair) (cacheKey origin pubkey) now =
      (resolver.remembered (cacheKey origin pubkey) now).map CachedEntry.webId := by
    rw [Expiry.lookup, DidNostrResolver.remembered, Option.filter_map, Option.map_map]
    rfl
  rw [resolve, Expiry.consult.eq_def, hlookup, cacheKey]
  cases resolver.remembered (origin ++ '|' :: pubkey) now with
  | some entry => rfl
  | none =>
      simp only [Option.map_none, DidNostrResolver.remember, Prod.mk.injEq, true_and]
      funext key
      by_cases hkey : key = origin ++ '|' :: pubkey
      · rw [if_pos hkey, hkey, Function.update_self]
        rfl
      · rw [if_neg hkey, Function.update_of_ne hkey]

/-- Keys without a bar are told apart, whatever the origins are. -/
theorem cacheKey_inj {origin origin' pubkey pubkey' : Str} (h : '|' ∉ pubkey) (h' : '|' ∉ pubkey')
    (heq : cacheKey origin pubkey = cacheKey origin' pubkey') :
    origin = origin' ∧ pubkey = pubkey' := by
  have hsplit : ∀ o p : Str, '|' ∉ p →
      splitOnce '|' (cacheKey o p).reverse = some (p.reverse, o.reverse) := by
    intro o p hp
    rw [cacheKey, List.reverse_append, List.reverse_cons, List.append_assoc,
      List.singleton_append]
    exact splitOnce_append (by simpa using hp) _
  have hpair := hsplit origin pubkey h
  rw [heq, hsplit origin' pubkey' h', Option.some.injEq, Prod.mk.injEq] at hpair
  exact ⟨(List.reverse_inj.mp hpair.2).symm, (List.reverse_inj.mp hpair.1).symm⟩

section Runs

variable {ι : Type} [DecidableEq ι] (web : Web) (didDoc : Bytes → Except Str DidNostrDoc)
  (net : ℕ → Net) (resolver : DidNostrResolver)

/-- What a resolution without a cache finds, with the network as it is at a time. -/
def Found (origin pubkey : Str) (time : ℕ) (webId : Option Str) : Prop :=
  ∃ log, ((resolveUncached web didDoc (net time) resolver origin pubkey).exec log).1.toOption =
    webId

/-- What is found under a key of the cache by a call of the run. -/
def FoundUnder (origin pubkey : ι → Str) (key : Str) (time : ℕ) (webId : Option Str) : Prop :=
  ∃ i, cacheKey (origin i) (pubkey i) = key ∧
    Found web didDoc net resolver (origin i) (pubkey i) time webId

/-- Whatever calls run at the same time, a call answers with what was found for its own origin
and key, and no longer ago than such an outcome is remembered and the delay. -/
theorem found_of_run {delay : ℕ} {origin pubkey : ι → Str}
    {sched : List (Expiry.MemoMove ι (Option Str))} {m : Expiry.Memo ι Str (Option Str)}
    (hkeys : ∀ i, '|' ∉ pubkey i)
    (halong : Schedule.Along
      (Expiry.memoStep resolver.isFresh fun i => cacheKey (origin i) (pubkey i))
      (Expiry.Timely (fun i => cacheKey (origin i) (pubkey i))
        (FoundUnder web didDoc net resolver origin pubkey) delay)
      (.start (fun _ => none) 0) sched)
    (hrun : Schedule.run (Expiry.memoStep resolver.isFresh fun i => cacheKey (origin i) (pubkey i))
      (.start (fun _ => none) 0) sched = some m)
    {i : ι} {webId : Option Str} {t : ℕ} (hanswer : m.phase i = .answered webId t) :
    ∃ f, Found web didDoc net resolver (origin i) (pubkey i) f webId ∧ f ≤ t ∧
      t ≤ f + delay + resolver.ttlOf webId := by
  have hfresh : ∀ webId age, resolver.isFresh webId age = true → age ≤ resolver.ttlOf webId :=
    fun webId age hage => (of_decide_eq_true hage).le
  have hentries : Expiry.KeptInTime (FoundUnder web didDoc net resolver origin pubkey) delay
      (fun _ => none) 0 := by
    intro key webId stamp hkey
    cases hkey
  obtain ⟨f, ⟨j, hkey, hfound⟩, hle, hage⟩ :=
    Expiry.recent_of_run hfresh hentries halong hrun i webId t hanswer
  obtain ⟨horigin, hpubkey⟩ := cacheKey_inj (hkeys j) (hkeys i) hkey
  rw [horigin, hpubkey] at hfound
  exact ⟨f, hfound, hle, hage⟩

end Runs

section Sample

/-- The run of the two calls, where no document is found. -/
theorem remembered_found : ∃ m : Expiry.Memo Bool Str (Option Str),
    m.phase true = .answered none 12 ∧
      ∃ f, Found Oidc.keptWeb (fun _ => .error "EOF") Oidc.keptNet (.new .new) "https://8.8.8.8"
        "00ff" f none ∧ f ≤ 12 ∧
        12 ≤ f + 1 + (DidNostrResolver.new .new).ttlOf none := by
  obtain ⟨m, hrun, hanswer⟩ : ∃ m, Schedule.run
      (Expiry.memoStep (DidNostrResolver.new .new).isFresh fun _ : Bool =>
        cacheKey "https://8.8.8.8" "00ff") (.start (fun _ => none) 0) (Oidc.keptCalls none) =
      some m ∧ m.phase true = .answered none 12 := ⟨_, rfl, rfl⟩
  refine ⟨m, hanswer, found_of_run _ _ _ _ (fun _ => by decide) (Oidc.timely_keptCalls ?_) hrun
    hanswer⟩
  refine ⟨false, rfl, ⟨0, []⟩, ?_⟩
  cases hfound : ((resolveUncached Oidc.keptWeb (fun _ => .error "EOF") (Oidc.keptNet 1)
    (.new .new) "https://8.8.8.8" "00ff").exec ⟨0, []⟩).1 with
  | error e => rfl
  | ok webId =>
      obtain ⟨doc, hdoc, -⟩ := exists_of_exec_bind hfound
      obtain ⟨url, -, hdoc, -⟩ := exists_of_exec_bind hdoc
      obtain ⟨resp, -, hdoc, -⟩ := exists_of_exec_bind hdoc
      obtain ⟨doc', hread, -⟩ := exists_of_exec_bind hdoc
      rw [Response.json] at hread
      split at hread
      · cases hread
      · cases hread

end Sample

end Interop

end SolidPod
