import SolidPod.Idp.Clients
import SolidPod.Security.Ssrf

/-!
# Fetching client documents

A client id that is a URL names a document, which is fetched when the client is not known. The
URL is looked at before; a name in it is not resolved.
-/

namespace SolidPod

open Foundation Str Http Program Security

namespace Idp

/-- The store's side of a fetch. `allowUnsafeUrls` is for tests. -/
structure ClientFetcher where
  http : Option Client
  allowUnsafeUrls : Bool

def ClientFetcher.new (web : Web) : ClientFetcher where
  http := (web.build { overrides := [], redirects := 3 }).toOption
  allowUnsafeUrls := false

section Fetch

variable (web : Web) (json : Bytes → Except Str Json) (net : Net) (fetcher : ClientFetcher)

/-- What the server sends for a client id. -/
def fetchBody (url : Str) : Fetch RegError Json := do
  ofResult ((if fetcher.allowUnsafeUrls then .ok () else isSafeUrl web url).mapError fun e =>
    .ssrf e.display)
  let parsed ← ofResult ((web.parse url).mapError fun e => .invalidDocument ("URL parse: " ++ e))
  rejectIf (parsed.scheme ≠ "http".toList ∧ parsed.scheme ≠ "https".toList)
    (.invalidDocument ("unsupported scheme: " ++ parsed.scheme))
  match fetcher.http, parsed.host with
  | none, _ => .fail (.fetch "no HTTP client configured")
  | some _, none => .fail (.fetch (web.showError .badUrl))
  | some http, some host =>
    let resp ← (send web net .clientStore host http url).mapError fun e =>
      .fetch (web.showError e)
    rejectIf (resp.isSuccess = false)
      (.fetch ("HTTP " ++ web.showStatus resp.status ++ " from " ++ url))
    ofResult ((resp.json json).mapError fun e => .invalidDocument ("JSON parse: " ++ e))

def fetchClientDocument (nowSecs : UInt64) (url : Str) : Fetch RegError ClientDocument := do
  let body ← fetchBody web json net fetcher url
  ofResult (clientOfDocument url body nowSecs)

/-- A client by its id, over the network. -/
def ClientStore.findOverNet (store : ClientStore) (now : Nat) (nowSecs : UInt64)
    (clientId : Str) (log : Log) :
    Except RegError (Option ClientDocument) × ClientStore × Log :=
  match store.registered clientId with
  | some doc => (.ok (some doc), store, log)
  | none =>
    match (store.cache clientId).filter fun (_, at') => decide (now - at' < clientCacheTtl) with
    | some (doc, _) => (.ok (some doc), store, log)
    | none =>
      if startsWith "http://" clientId || startsWith "https://" clientId then
        match (fetchClientDocument web json net fetcher nowSecs clientId).exec log with
        | (.error e, log) => (.error e, store, log)
        | (.ok doc, log) => (.ok (some doc), store.remember doc now, log)
      else (.ok none, store, log)

/-- It is `find`, with the network's answer for the body. -/
theorem find_of_findOverNet (store : ClientStore) (now : Nat) (nowSecs : UInt64)
    (clientId : Str) (log : Log) :
    let outcome := store.findOverNet web json net fetcher now nowSecs clientId log
    (outcome.1, outcome.2.1) =
      store.find (fun url => ((fetchBody web json net fetcher url).exec log).1) now nowSecs
        clientId := by
  unfold ClientStore.findOverNet ClientStore.find
  cases store.registered clientId with
  | some doc => rfl
  | none =>
      cases (store.cache clientId).filter fun (_, at') => decide (now - at' < clientCacheTtl) with
      | some cached => rfl
      | none =>
          by_cases hurl :
              (startsWith "http://" clientId || startsWith "https://" clientId) = true
          · simp only [if_pos hurl]
            rw [fetchClientDocument, exec_bind]
            cases hbody : (fetchBody web json net fetcher clientId).exec log with
            | mk body log' =>
                cases body with
                | error e => rfl
                | ok body =>
                    have hexec : (ofResult (clientOfDocument clientId body nowSecs) :
                        Fetch RegError ClientDocument).exec log' =
                        (clientOfDocument clientId body nowSecs, log') := rfl
                    simp only [hexec]
                    cases clientOfDocument clientId body nowSecs with
                    | error e => rfl
                    | ok doc => rfl
          · simp only [if_neg hurl]

end Fetch

section Guarded

variable {web : Web} {json : Bytes → Except Str Json} {net : Net} {fetcher : ClientFetcher}
  {permits : Fetcher → Host → IpAddr → Prop}
  (hclient : ∀ http, fetcher.http = some http → http.overrides = [])
  (hpermits : ∀ host ip, fetcher.allowUnsafeUrls = true ∨ PermitsByDefault host ip →
    permits .clientStore host ip)

include hclient hpermits

theorem keeps_fetchBody (url : Str) :
    Keeps (Outbound.Log.Guarded net permits) (fetchBody web json net fetcher url)
      (fun _ => True) := by
  apply Keeps.bind (Keeps.ofMapped _)
  intro _ hsafe
  apply Keeps.bind (Keeps.ofMapped _)
  intro parsed hparsed
  apply Keeps.bind (Keeps.rejectIf _ _)
  intro _ _
  cases hhttp : fetcher.http with
  | none => exact Keeps.fail _
  | some http =>
      cases hhost : parsed.host with
      | none => exact Keeps.fail _
      | some host =>
          have hchecked : ∀ ip, host = .literal ip → permits .clientStore host ip := by
            intro ip hip
            apply hpermits
            split_ifs at hsafe with hunsafe
            · exact Or.inl hunsafe
            · obtain ⟨parsed', host', hparsed', hhost', hliteral⟩ :=
                exists_host_of_isSafeUrl hsafe
              rw [hparsed] at hparsed'
              cases hparsed'
              rw [hhost] at hhost'
              cases hhost'
              exact Or.inr (hliteral ip hip)
          apply Keeps.bind
            (Keeps.mapError _ (keeps_send (hclient http hhttp) hchecked url))
          intro resp _
          apply Keeps.bind (Keeps.rejectIf _ _)
          intro _ _
          exact Keeps.weaken (Keeps.ofMapped _) fun _ _ => trivial

/-- A look-up leaves a log of guarded requests. -/
theorem guarded_findOverNet (store : ClientStore) (now : Nat) (nowSecs : UInt64)
    (clientId : Str) {log : Log} (hlog : log.Guarded net permits) :
    (store.findOverNet web json net fetcher now nowSecs clientId log).2.2.Guarded net permits := by
  have hkeeps : Keeps (Outbound.Log.Guarded net permits)
      (fetchClientDocument web json net fetcher nowSecs clientId) (fun _ => True) := by
    apply Keeps.bind (keeps_fetchBody hclient hpermits clientId)
    intro body _
    exact Keeps.ofResult fun _ _ => trivial
  have hafter := hkeeps.after hlog
  unfold ClientStore.findOverNet
  cases store.registered clientId with
  | some doc => exact hlog
  | none =>
      cases (store.cache clientId).filter fun (_, at') => decide (now - at' < clientCacheTtl) with
      | some cached => exact hlog
      | none =>
          by_cases hurl :
              (startsWith "http://" clientId || startsWith "https://" clientId) = true
          · simp only [if_pos hurl]
            cases hfetch :
                (fetchClientDocument web json net fetcher nowSecs clientId).exec log with
            | mk doc log' =>
                rw [hfetch] at hafter
                cases doc with
                | error e => exact hafter
                | ok doc => exact hafter
          · simp only [if_neg hurl]
            exact hlog

end Guarded

end Idp

end SolidPod
