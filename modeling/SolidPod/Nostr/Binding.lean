import SolidPod.Interop.DidNostr
import SolidPod.Ldp.Mentions
import SolidPod.Nostr.ProfileLinks

/-!
# Whom a link is about

A profile binds a key to a WebID when it states a link of this WebID to the key's DID. The
verifiers ask for less: the core resolver accepts a profile that mentions a predicate and the
DID anywhere, and the other one takes the first link of the tree, whoever states it. What they
return is bound exactly when the profile happens to state the link as well.
-/

namespace SolidPod

open Foundation Str Http Program

namespace Nostr

open Interop (DidNostrResolver sameAsNames hasBackLink didNostrIri candidateBody tryCandidate
  firstVerified didDocument resolveUncached)

/-- The predicates of a link, in full. -/
def linkPredicates : List Str :=
  ["http://www.w3.org/2002/07/owl#sameAs", "https://schema.org/sameAs",
    "http://schema.org/sameAs"]

/-- The graph states that this WebID is the same as the key's DID. -/
def LinksTo (g : Ldp.Graph) (webid : Str) (pk : NostrPubkey) : Prop :=
  ∃ predicate ∈ linkPredicates, ⟨.iri webid, .iri predicate, .iri (didNostrUri pk)⟩ ∈ g

/-- Some term of the graph mentions a predicate, and some term mentions the DID. -/
def MentionsLink (g : Ldp.Graph) (pk : NostrPubkey) : Prop :=
  (∃ name ∈ sameAsNames, Ldp.Mentions name g) ∧ Ldp.Mentions (didNostrUri pk) g

theorem searchable_of_mem_sameAsNames {name : Str} (h : name ∈ sameAsNames) :
    Ldp.Searchable name := by
  have hall : ∀ name ∈ sameAsNames, name ≠ [] ∧ (∀ c ∈ name, c ∉ Ldp.separators) ∧
      name.head?.all (· ∉ (":.nrt" : Str)) = true := by decide
  obtain ⟨hne, hplain, hhead⟩ := hall name h
  exact ⟨hne, hplain, fun c hc => by simpa using Option.all_eq_true _ _ |>.mp hhead c hc⟩

theorem searchable_didNostrUri (pk : NostrPubkey) : Ldp.Searchable (didNostrUri pk) where
  ne_nil := by
    intro h
    cases h
  plain := by
    intro c hc
    cases List.mem_append.mp hc with
    | inl hscheme =>
        have hall : ∀ c ∈ ("did:nostr:" : Str), c ∉ Ldp.separators := by decide
        exact hall c hscheme
    | inr hhex =>
        have hall : ∀ c ∈ ("0123456789abcdef" : Str), c ∉ Ldp.separators := by decide
        exact hall c (Hex.mem_digits_of_mem_encode hhex)
  head := by
    intro c hc
    change some 'd' = some c at hc
    cases hc
    decide

/-- The core resolver's test, in terms of the graph. -/
theorem hasBackLink_toNtriples_iff (g : Ldp.Graph) (pk : NostrPubkey) :
    hasBackLink (Ldp.toNtriples g) (didNostrUri pk) = true ↔ MentionsLink g pk := by
  rw [hasBackLink, Bool.and_eq_true, List.any_eq_true,
    Ldp.containsStr_toNtriples_iff (searchable_didNostrUri pk), MentionsLink]
  apply and_congr_left'
  constructor
  · intro ⟨name, hname, h⟩
    exact ⟨name, hname,
      (Ldp.containsStr_toNtriples_iff (searchable_of_mem_sameAsNames hname) g).mp h⟩
  · intro ⟨name, hname, h⟩
    exact ⟨name, hname,
      (Ldp.containsStr_toNtriples_iff (searchable_of_mem_sameAsNames hname) g).mpr h⟩

section Core

variable (web : Web) (didDoc : Bytes → Except Str Interop.DidNostrDoc) (net : Net)
  (resolver : DidNostrResolver) (profiles : Str → Ldp.Graph) (pk : NostrPubkey)

/-- The first of the candidates whose profile can be fetched and mentions the link, when there
is one, states it of itself. -/
def FirstMentionLinks : List Str → Log → Prop
  | [], _ => True
  | candidate :: rest, log =>
    match (candidateBody web net resolver candidate).exec log with
    | (.ok _, log') =>
      (MentionsLink (profiles candidate) pk → LinksTo (profiles candidate) candidate pk) ∧
        (¬ MentionsLink (profiles candidate) pk → FirstMentionLinks rest log')
    | (.error _, log') => FirstMentionLinks rest log'

variable {web didDoc net resolver profiles pk}

theorem exec_tryCandidate (didIri candidate : Str) (log : Log) :
    (tryCandidate web net resolver didIri candidate).exec log =
      match (candidateBody web net resolver candidate).exec log with
      | (.ok body, log') => (if hasBackLink body didIri then .ok candidate else .error (), log')
      | (.error e, log') => (.error e, log') := by
  rw [tryCandidate, exec_bind]
  cases (candidateBody web net resolver candidate).exec log with
  | mk body log' =>
      cases body with
      | error e => rfl
      | ok body =>
          change (rejectIf (hasBackLink body didIri = false) () >>= fun _ =>
            pure candidate).exec log' = _
          rw [exec_bind, exec_rejectIf]
          cases hlink : hasBackLink body didIri with
          | false =>
              simp only [hlink]
              rfl
          | true =>
              simp only [hlink]
              rfl

theorem firstVerified_linksTo_iff (pk : NostrPubkey) {candidates : List Str}
    (hprofiles : ∀ candidate ∈ candidates, ∀ log body,
      ((candidateBody web net resolver candidate).exec log).1 = .ok body →
        body = Ldp.toNtriples (profiles candidate)) (log : Log) :
    (∀ webid, ((firstVerified web net resolver (didNostrUri pk) candidates).exec log).1 =
        .ok webid → LinksTo (profiles webid) webid pk) ↔
      FirstMentionLinks web net resolver profiles pk candidates log := by
  induction candidates generalizing log with
  | nil =>
      constructor
      · intro _
        trivial
      · intro _ webid h
        cases h
  | cons candidate rest ih =>
      have hcandidate := hprofiles candidate List.mem_cons_self log
      have ih := ih fun c hc => hprofiles c (List.mem_cons_of_mem candidate hc)
      rw [firstVerified, exec_orElse, exec_tryCandidate, FirstMentionLinks]
      cases hbody : (candidateBody web net resolver candidate).exec log with
      | mk body log' =>
          rw [hbody] at hcandidate
          cases body with
          | error e => exact ih log'
          | ok body =>
              have hlink : hasBackLink body (didNostrUri pk) = true ↔
                  MentionsLink (profiles candidate) pk := by
                rw [hcandidate body rfl]
                exact hasBackLink_toNtriples_iff _ pk
              by_cases hmention : MentionsLink (profiles candidate) pk
              · simp only [hlink.mpr hmention, if_true]
                constructor
                · intro h
                  exact ⟨fun _ => h candidate rfl, fun hnot => absurd hmention hnot⟩
                · intro h webid hwebid
                  cases hwebid
                  exact h.1 hmention
              · have hfalse : hasBackLink body (didNostrUri pk) = false :=
                  Bool.eq_false_iff.mpr fun htrue => hmention (hlink.mp htrue)
                simp only [hfalse]
                constructor
                · intro h
                  exact ⟨fun hyes => absurd hyes hmention, fun _ => (ih log').mp h⟩
                · intro h
                  exact (ih log').mpr (h.2 hmention)

theorem resolveUncached_linksTo_iff {origin : Str} {log : Log}
    (hprofiles : ∀ doc log', (didDocument web didDoc net resolver origin pk.toHex).exec log =
      (.ok doc, log') → ∀ candidate ∈ doc.alsoKnownAs, ∀ log body,
        ((candidateBody web net resolver candidate).exec log).1 = .ok body →
          body = Ldp.toNtriples (profiles candidate)) :
    (∀ webid, ((resolveUncached web didDoc net resolver origin pk.toHex).exec log).1 =
        .ok webid → LinksTo (profiles webid) webid pk) ↔
      ∀ doc log', (didDocument web didDoc net resolver origin pk.toHex).exec log =
        (.ok doc, log') →
          FirstMentionLinks web net resolver profiles pk doc.alsoKnownAs log' := by
  rw [resolveUncached, exec_bind]
  cases hdoc : (didDocument web didDoc net resolver origin pk.toHex).exec log with
  | mk doc log' =>
      cases doc with
      | error e =>
          constructor
          · intro _ doc' log'' h
            cases h
          · intro _ webid h
            cases h
      | ok doc =>
          have hiff := firstVerified_linksTo_iff pk (hprofiles doc log' hdoc) log'
          constructor
          · intro h doc' log'' heq
            cases heq
            exact hiff.mp h
          · intro h
            exact hiff.mpr (h doc log' rfl)

end Core

section Tree

variable (web : Web) (tree : Json) (webid : Str)

/-- The object is the node of this WebID. An id may be relative to the profile's URL. -/
def Names (members : List (Str × Json)) : Prop :=
  ∃ key ∈ (["@id", "id"] : List Str), ∃ s, Json.member key members = some (.string s) ∧
    (s = webid ∨ ∃ base url, web.parse webid = .ok base ∧ web.join base s = .ok url ∧
      url.text = webid)

/-- The node of the WebID links to the key. -/
def NodeLinksTo (pk : NostrPubkey) : Prop :=
  ∃ members, (members, pk) ∈ links tree ∧ Names web webid members

/-- The first link that the tree states, if there is one, is to a key that the node of the
WebID links to. -/
def FirstLinkIsOwn : Prop :=
  ∀ link ∈ (links tree).head?, NodeLinksTo web tree webid link.2

variable {web tree webid} {serde : Serde} {net : Net} {resolver : NostrWebIdResolver}

theorem resolveWebidToNostr_nodeLinksTo_iff {log : Log}
    (htree : ∀ body contentType log', (fetchProfile web net resolver webid).exec log =
      (.ok (body, contentType), log') → profileTree serde.json body contentType = some tree) :
    (∀ pk, ((resolveWebidToNostr web serde net resolver webid).exec log).1 = .ok (some pk) →
        NodeLinksTo web tree webid pk) ↔
      ((∃ profile log', (fetchProfile web net resolver webid).exec log = (.ok profile, log')) →
        FirstLinkIsOwn web tree webid) := by
  rw [resolveWebidToNostr, exec_bind]
  cases hprofile : (fetchProfile web net resolver webid).exec log with
  | mk profile log' =>
      cases profile with
      | error e =>
          constructor
          · rintro _ ⟨profile, log'', h⟩
            cases h
          · intro _ pk h
            cases h
      | ok profile =>
          have hextract : extractNostrPubkeyFromProfile serde.json profile.1 profile.2 =
              (links tree).head?.map Prod.snd := by
            rw [extractNostrPubkeyFromProfile, htree profile.1 profile.2 log' hprofile]
            exact scanJson_eq tree
          constructor
          · intro h _ link hlink
            apply h
            change Except.ok (extractNostrPubkeyFromProfile serde.json profile.1 profile.2) = _
            rw [hextract, hlink]
            rfl
          · intro h pk hpk
            change Except.ok (extractNostrPubkeyFromProfile serde.json profile.1 profile.2) = _
              at hpk
            rw [hextract] at hpk
            obtain ⟨link, hlink, hsame⟩ := Option.map_eq_some_iff.mp (Except.ok.inj hpk)
            rw [← hsame]
            exact h ⟨profile, log', rfl⟩ link hlink

end Tree

section Sample

def victim : NostrPubkey := ⟨List.replicate 32 0, rfl⟩

def alice : Str := "https://alice.example/card"
def aliceTree : Str := "https://alice.example/profile"
def bob : Str := "https://bob.example/card"

/-- A link of somebody else to a DID that the victim's is a prefix of. -/
def sampleTriple : Ldp.Triple :=
  ⟨.iri bob, .iri "http://www.w3.org/2002/07/owl#sameAs", .iri (didNostrUri victim ++ "00")⟩

def sampleProfile : Ldp.Graph := Foundation.SortedSet.ofList [sampleTriple]

def bobNode : List (Str × Json) :=
  [("@id", .string bob), ("sameAs", .string (didNostrUri victim))]

def sampleTree : Json := .object [("@id", .string aliceTree), ("knows", .object bobNode)]

def sampleTreeText : Str :=
  "\x7b\"@id\":\"" ++ aliceTree ++ "\",\"knows\":\x7b\"@id\":\"" ++ bob ++
    "\",\"sameAs\":\"" ++ didNostrUri victim ++ "\"\x7d\x7d"

def sampleDocText : Str :=
  "\x7b\"id\":\"" ++ didNostrUri victim ++ "\",\"alsoKnownAs\":[\"" ++ alice ++ "\"]\x7d"

def sampleUrl (host path : Str) : Url :=
  ⟨"https", some (.name host), path, "https://" ++ host ++ path⟩

/-- The URL library on the texts below. -/
def sampleParse (s : Str) : Except Str Url :=
  match stripPrefix "https://" s with
  | none => .error "relative URL without a base"
  | some rest =>
    match splitOnce '/' rest with
    | none => .ok (sampleUrl rest "/")
    | some (host, path) => .ok (sampleUrl host ('/' :: path))

def sampleWeb : Web where
  parse := sampleParse
  join _ s := sampleParse s
  setPath base path := { base with path := path }
  showError _ := "error sending request"
  showStatus n := decimal n
  text _ body := bytesAsChars body
  builderError := none

def sampleResponse : Response :=
  ⟨200, some "application/n-triples", .ok (utf8 (Ldp.toNtriples sampleProfile))⟩

def sampleReply (url : Url) : Response :=
  if url.text = alice then sampleResponse
  else if url.text = aliceTree then
    ⟨200, some "application/ld+json", .ok (utf8 sampleTreeText)⟩
  else ⟨200, some "application/json", .ok (utf8 sampleDocText)⟩

def sampleNet : Net where
  lookup _ _ := .ok [.v4 ⟨8, 8, 8, 8⟩]
  tries _ _ := true
  reply _ url := .ok (.response (sampleReply url))

def sampleDidDoc (b : Bytes) : Except Str Interop.DidNostrDoc :=
  if b = utf8 sampleDocText then .ok ⟨didNostrUri victim, [alice]⟩ else .error "EOF"

def sampleSerde : Serde where
  json s := if s = sampleTreeText then some sampleTree else none
  didDoc _ := .error "EOF"

def sampleLog : Log := ⟨0, []⟩

theorem not_linksTo_sampleProfile : ¬ LinksTo sampleProfile alice victim := by
  rintro ⟨predicate, -, hmem⟩
  rw [sampleProfile, SortedSet.mem_ofList, List.mem_singleton] at hmem
  have hsubject : Ldp.Term.iri alice = .iri bob := congrArg Ldp.Triple.subject hmem
  injection hsubject with hsame
  exact absurd hsame (by decide)

theorem links_sampleTree : links sampleTree = [(bobNode, victim)] := by
  rfl

theorem not_nodeLinksTo_sampleTree : ¬ NodeLinksTo sampleWeb sampleTree aliceTree victim := by
  rintro ⟨members, hmem, key, hkey, s, hs, hnames⟩
  rw [links_sampleTree, List.mem_singleton] at hmem
  cases hmem
  have hbob : s = bob := by
    simp only [List.mem_cons, List.not_mem_nil, or_false] at hkey
    rcases hkey with rfl | rfl
    · cases hs
      rfl
    · cases hs
  rw [hbob] at hnames
  rcases hnames with hsame | ⟨base, url, -, hjoin, htext⟩
  · exact absurd hsame (by decide)
  · have hurl : sampleParse bob = .ok (sampleUrl "bob.example" "/card") := by rfl
    rw [show sampleWeb.join base bob = sampleParse bob from rfl, hurl] at hjoin
    cases hjoin
    exact absurd htext (by decide)

theorem alsoKnownAs_of_sample {doc : Interop.DidNostrDoc} {log : Log}
    (h : (didDocument sampleWeb sampleDidDoc sampleNet (.new .new) "https://pod.example"
      victim.toHex).exec sampleLog = (.ok doc, log)) : doc.alsoKnownAs = [alice] := by
  have hdoc : ((didDocument sampleWeb sampleDidDoc sampleNet (.new .new) "https://pod.example"
      victim.toHex).exec sampleLog).1.map Interop.DidNostrDoc.alsoKnownAs = .ok [alice] := by
    decide +kernel
  rw [h] at hdoc
  exact Except.ok.inj hdoc

theorem candidateBody_sample :
    Returns (candidateBody sampleWeb sampleNet (.new .new) alice)
      (Ldp.toNtriples sampleProfile) := by
  have hparse : sampleWeb.parse alice = .ok (sampleUrl "alice.example" "/card") := by rfl
  have hascii : mojibake (Ldp.toNtriples sampleProfile) = Ldp.toNtriples sampleProfile :=
    mojibake_of_isAscii (by decide +kernel)
  have hreply : sampleReply (sampleUrl "alice.example" "/card") = sampleResponse :=
    if_pos (by decide)
  have hstatus : Interop.errorForStatus sampleResponse = .ok sampleResponse := rfl
  rw [← hreply] at hstatus
  apply Interop.returns_candidateBody hparse hparse rfl rfl (fun _ => rfl) _ (fun _ => rfl) hstatus
  · rw [hreply]
    exact congrArg Except.ok hascii
  · change Security.SsrfPolicy.new.Permits _ _
    decide +kernel

theorem profileTree_of_sample {body contentType : Str} {log : Log}
    (h : (fetchProfile sampleWeb sampleNet (.withSsrf defaultSsrfCheck) aliceTree).exec sampleLog =
      (.ok (body, contentType), log)) :
    profileTree sampleSerde.json body contentType = some sampleTree := by
  have hprofile : ((fetchProfile sampleWeb sampleNet (.withSsrf defaultSsrfCheck)
      aliceTree).exec sampleLog).1 = .ok (sampleTreeText, "application/ld+json".toList) := by
    decide +kernel
  rw [h] at hprofile
  cases Except.ok.inj hprofile
  decide +kernel

end Sample

end Nostr

end SolidPod
