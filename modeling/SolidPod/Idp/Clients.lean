import SolidPod.Json
import SolidPod.Idp.Tokens

/-!
# Clients

The registered clients and the client documents that were fetched, by client id.
A client that is found has the id it was looked for under.
-/

namespace SolidPod

open Foundation Str

namespace Idp

structure ClientDocument where
  clientId : Str
  clientSecret : Option Str
  clientIdIssuedAt : UInt64
  redirectUris : List Str
  clientName : Option Str
  grantTypes : List Str
  responseTypes : List Str
  tokenEndpointAuthMethod : Str
  applicationType : Option Str
  scope : Option Str
  clientIdDocumentUrl : Option Str

inductive RegError where
  | invalidRequest (msg : Str)
  | ssrf (msg : Str)
  | fetch (msg : Str)
  | invalidDocument (msg : Str)
  deriving DecidableEq

def RegError.display : RegError → Str
  | .invalidRequest m => "invalid registration: " ++ m
  | .ssrf m => "SSRF-blocked: " ++ m
  | .fetch m => "fetch failed: " ++ m
  | .invalidDocument m => "invalid client document: " ++ m

def clientCacheTtl : Nat := 5 * 60 * 1000000000

/-- Instants are whole nanoseconds. -/
structure ClientStore where
  registered : Str → Option ClientDocument
  cache : Str → Option (ClientDocument × Nat)
  registered_id : ∀ id doc, registered id = some doc → doc.clientId = id
  cache_id : ∀ id doc at', cache id = some (doc, at') → doc.clientId = id

def ClientStore.empty : ClientStore := ⟨fun _ => none, fun _ => none, nofun, nofun⟩

def ClientStore.insert (store : ClientStore) (client : ClientDocument) : ClientStore where
  registered id := if id = client.clientId then some client else store.registered id
  cache := store.cache
  registered_id := by
    intro id doc h
    split_ifs at h with hid
    · cases h
      exact hid.symm
    · exact store.registered_id id doc h
  cache_id := store.cache_id

/-- A string member of a JSON object. -/
def strMember (key : Str) : Json → Option Str
  | .object m =>
    match Json.member key m with
    | some (.string s) => some s
    | _ => none
  | _ => none

/-- The strings of an array member; all else in it is dropped. -/
def strItems (key : Str) : Json → List Str
  | .object m =>
    match Json.member key m with
    | some (.array items) => items.filterMap fun v =>
        match v with
        | .string s => some s
        | _ => none
    | _ => []
  | _ => []

/-- The client that a fetched document describes. -/
def clientOfDocument (url : Str) (body : Json) (nowSecs : UInt64) :
    Except RegError ClientDocument :=
  match (strMember "client_id" body).filter (· ≠ url) with
  | some declared =>
    .error (.invalidDocument ("client_id mismatch: document says " ++ declared ++ ", URL is " ++
      url))
  | none =>
    let redirectUris := strItems "redirect_uris" body
    if redirectUris.isEmpty then
      .error (.invalidDocument "Client Identifier Document is missing redirect_uris")
    else .ok {
      clientId := url
      clientSecret := none
      clientIdIssuedAt := nowSecs
      redirectUris := redirectUris
      clientName := (strMember "client_name" body).or (strMember "name" body)
      grantTypes := ["authorization_code", "refresh_token"]
      responseTypes := ["code"]
      tokenEndpointAuthMethod := "none"
      applicationType := some "web"
      scope := (strMember "scope" body).or (some "openid webid")
      clientIdDocumentUrl := some url }

theorem clientId_of_clientOfDocument {url : Str} {body : Json} {nowSecs : UInt64}
    {doc : ClientDocument} (h : clientOfDocument url body nowSecs = .ok doc) :
    doc.clientId = url := by
  unfold clientOfDocument at h
  cases hdeclared : (strMember "client_id" body).filter (· ≠ url) with
  | some declared =>
      simp only [hdeclared] at h
      cases h
  | none =>
      simp only [hdeclared, Fallible.guard_eq_ok_iff] at h
      cases h.2
      rfl

/-- A document that was fetched, under its own id. -/
def ClientStore.remember (store : ClientStore) (doc : ClientDocument) (now : Nat) :
    ClientStore where
  registered := store.registered
  cache id := if id = doc.clientId then some (doc, now) else store.cache id
  registered_id := store.registered_id
  cache_id := by
    intro id doc' at' h
    split_ifs at h with hid
    · cases h
      exact hid.symm
    · exact store.cache_id id doc' at' h

/-- A client by its id. A URL that is not known is fetched; `fetch` answers with the
body that the server sent. -/
def ClientStore.find (store : ClientStore) (fetch : Str → Except RegError Json) (now : Nat)
    (nowSecs : UInt64) (clientId : Str) :
    Except RegError (Option ClientDocument) × ClientStore :=
  match store.registered clientId with
  | some doc => (.ok (some doc), store)
  | none =>
    match (store.cache clientId).filter fun (_, at') => decide (now - at' < clientCacheTtl) with
    | some (doc, _) => (.ok (some doc), store)
    | none =>
      if startsWith "http://" clientId || startsWith "https://" clientId then
        match fetch clientId with
        | .error e => (.error e, store)
        | .ok body =>
          match clientOfDocument clientId body nowSecs with
          | .error e => (.error e, store)
          | .ok doc => (.ok (some doc), store.remember doc now)
      else (.ok none, store)

/-- A client is found under its own id. -/
theorem ClientStore.clientId_of_find {store : ClientStore} {fetch : Str → Except RegError Json}
    {now : Nat} {nowSecs : UInt64} {clientId : Str} {doc : ClientDocument}
    (h : (store.find fetch now nowSecs clientId).1 = .ok (some doc)) :
    doc.clientId = clientId := by
  unfold ClientStore.find at h
  cases hregistered : store.registered clientId with
  | some found =>
      simp only [hregistered] at h
      cases h
      exact store.registered_id _ _ hregistered
  | none =>
      simp only [hregistered] at h
      cases hcache : (store.cache clientId).filter fun (_, at') =>
          decide (now - at' < clientCacheTtl) with
      | some cached =>
          obtain ⟨found, at'⟩ := cached
          simp only [hcache] at h
          cases h
          exact store.cache_id _ _ at' (Option.filter_eq_some_iff.mp hcache).1
      | none =>
          simp only [hcache] at h
          split_ifs at h
          · cases hfetch : fetch clientId with
            | error e =>
                simp only [hfetch] at h
                cases h
            | ok body =>
                simp only [hfetch] at h
                cases hdoc : clientOfDocument clientId body nowSecs with
                | error e =>
                    simp only [hdoc] at h
                    cases h
                | ok found =>
                    simp only [hdoc] at h
                    cases h
                    exact clientId_of_clientOfDocument hdoc
          · cases h

end Idp

end SolidPod
