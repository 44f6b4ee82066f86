import SolidPod.Foundation.Search
import SolidPod.JsonText
import SolidPod.Provision.Basic

/-!
# The data island of a profile

The HTML of a WebID profile has its JSON-LD in a script element. Reading a profile looks for the
first place that names the media type, for the end of the tag that it is in, and from there for
the first end tag of a script. The JSON library escapes neither `<` nor `/`, and the display name
stands in the title as it is, so it depends on the strings of the profile whether the element
that is found is the one that was written.
-/

namespace SolidPod

namespace Provision

open Foundation Str QuotedText

/-- How the JSON library reads a text; an error is its message. -/
structure JsonReader where
  fromStr : Str → Except Str Json

def islandMarker : Str := "application/ld+json"

def scriptClose : Str := "</script>"

/-- `Value::get` under a string: only objects have members. -/
def getMember (key : Str) : Json → Option Json
  | .object m => Json.member key m
  | _ => none

section Reading

variable (r : JsonReader)

def readIsland (text : Str) : Except Str (Option Json) :=
  match r.fromStr text with
  | .ok value => .ok (some value)
  | .error e => .error ("WebID JSON-LD parse error: " ++ e)

/-- The value of the data island. Places are counted in characters. -/
def parseJsonLd (data : Bytes) : Except Str (Option Json) :=
  match fromUtf8 data with
  | none => .error "WebID profile must be valid UTF-8"
  | some text =>
    match find islandMarker text with
    | none => .ok none
    | some start =>
      match find ">" (text.drop start) with
      | none => .ok none
      | some tagEnd =>
        let jsonStart := start + tagEnd + 1
        match find scriptClose (text.drop jsonStart) with
        | none => .ok none
        | some scriptEnd => readIsland r (trim ((text.drop jsonStart).take scriptEnd))

/-- A string, or the one that a node object has for its id. -/
def idOf : Option Json → Option Str
  | some (.string s) => some s
  | some (.object m) =>
    match Json.member "@id" m with
    | some (.string s) => some s
    | _ => none
  | _ => none

def issuerOf (value : Json) : Option Str :=
  idOf ((getMember "solid:oidcIssuer" value).or
    (getMember "http://www.w3.org/ns/solid/terms#oidcIssuer" value))

def extractOidcIssuer (data : Bytes) : Except Str (Option Str) :=
  (parseJsonLd r data).map fun value => value.bind issuerOf

def isOpenidProvider : Json → Bool
  | .string s => s = "lws:OpenIdProvider" || s = "https://www.w3.org/ns/lws#OpenIdProvider"
  | _ => false

def providerTyped : Option Json → Bool
  | some (.array ts) => ts.any isOpenidProvider
  | some ty => isOpenidProvider ty
  | none => false

/-- The endpoint of an entry that is a provider; another entry has none. -/
def providerEndpoint : Json → Option Str
  | .object m =>
    if providerTyped (Json.member "@type" m) then
      idOf (((Json.member "serviceEndpoint" m).or (Json.member "cid:serviceEndpoint" m)).or
        (Json.member "https://www.w3.org/ns/cid/v1#serviceEndpoint" m))
    else none
  | _ => none

def providerOf (value : Json) : Option Str :=
  match ((getMember "service" value).or (getMember "cid:service" value)).or
    (getMember "https://www.w3.org/ns/cid/v1#service" value) with
  | some (.array entries) => entries.findSome? providerEndpoint
  | _ => none

def extractCidOpenidProvider (data : Bytes) : Except Str (Option Str) :=
  (parseJsonLd r data).map fun value => value.bind providerOf

def validateWebidHtml (data : Bytes) : Except Str Unit :=
  match fromUtf8 data with
  | none => .error "WebID profile must be valid UTF-8"
  | some text =>
    if containsStr islandMarker text then (parseJsonLd r data).map fun _ => ()
    else .error "WebID profile must contain a <script type=\"application/ld+json\"> block"

end Reading

/-! ## What is written and where -/

/-- The value that a profile is generated with. -/
def profileBody (pubkey : Str) (name : Option Str) (podBase : Str) (oidcIssuer : Option Str) :
    Json :=
  let webid := podBase ++ "/pods/" ++ pubkey ++ "/profile/card#me"
  .ofMembers (profileMembers pubkey (name.getD "Solid Pod User")
    (podBase ++ "/pods/" ++ pubkey ++ "/") webid ++
      issuerMembers (webid.takeWhile (· ≠ '#')) oidcIssuer)

def beforeName : Str := "<!DOCTYPE html>\n<html>\n<head>\n  <meta charset=\"utf-8\">\n  <title>"

/-- An end tag of a script element, which HTML reads in any case of its letters and with any of
the closers behind the name. -/
def ScriptEndTag (closers text : Str) : Prop :=
  ∃ tag, toAsciiLowercase tag = "</script" ∧ ∃ c ∈ closers, tag ++ [c] <:+: text

def htmlClosers : Str := "\t\n\x0c\r />"

/-- The profile reads back as it was written, and the display name is neither an end of the
script element where it stands in it nor the island that is found. -/
structure RoundTrips (r : JsonReader) (w : JsonWriter) (pubkey : Str) (name : Option Str)
    (podBase : Str) (oidcIssuer : Option Str) : Prop where
  parsed : parseJsonLd r (utf8 (generateWebidHtmlWithIssuer w pubkey name podBase oidcIssuer)) =
    .ok (some (profileBody pubkey name podBase oidcIssuer))
  issuer : extractOidcIssuer r
    (utf8 (generateWebidHtmlWithIssuer w pubkey name podBase oidcIssuer)) = .ok oidcIssuer
  provider : extractCidOpenidProvider r
    (utf8 (generateWebidHtmlWithIssuer w pubkey name podBase oidcIssuer)) = .ok oidcIssuer
  valid : validateWebidHtml r
    (utf8 (generateWebidHtmlWithIssuer w pubkey name podBase oidcIssuer)) = .ok ()
  script : ¬ ScriptEndTag htmlClosers (quoted (name.getD "Solid Pod User"))
  island : ∀ start,
    find islandMarker (generateWebidHtmlWithIssuer w pubkey name podBase oidcIssuer) =
      some start → (beforeName ++ name.getD "Solid Pod User").length ≤ start

/-- The strings of a profile that break nothing. -/
structure Harmless (pubkey : Str) (name : Option Str) (podBase : Str) (oidcIssuer : Option Str) :
    Prop where
  marker : ¬ islandMarker <:+: name.getD "Solid Pod User"
  endTag : ¬ ScriptEndTag " />" (name.getD "Solid Pod User")
  pubkey : ¬ scriptClose <:+: pubkey
  podBase : ¬ scriptClose <:+: podBase
  issuer : ∀ issuer ∈ oidcIssuer, ¬ scriptClose <:+: issuer

/-! ## Finding the island -/

section Finding

variable {r : JsonReader} {a t x y : Str}

theorem parseJsonLd_of_first (ha : ¬ islandMarker <:+: a ++ islandMarker.dropLast)
    (ht : ¬ ">" <:+: islandMarker ++ t) (hx : ¬ scriptClose <:+: x ++ scriptClose.dropLast) :
    parseJsonLd r (utf8 (a ++ (islandMarker ++ (t ++ (">" ++ (x ++ (scriptClose ++ y))))))) =
      readIsland r (trim x) := by
  have hstart := find_append_of_not_infix
    (b := t ++ (">" ++ (x ++ (scriptClose ++ y)))) ha
  have hend : find ">" (islandMarker ++ (t ++ (">" ++ (x ++ (scriptClose ++ y))))) =
      some (islandMarker ++ t).length := by
    rw [← List.append_assoc]
    refine find_append_of_not_infix ?_
    have hnil : (">" : Str).dropLast = [] := rfl
    rwa [hnil, List.append_nil]
  have hdrop : (a ++ (islandMarker ++ (t ++ (">" ++ (x ++ (scriptClose ++ y)))))).drop
      (a.length + (islandMarker ++ t).length + 1) = x ++ (scriptClose ++ y) := by
    have hwhole : (a ++ (islandMarker ++ (t ++ (">" ++ (x ++ (scriptClose ++ y)))))) =
        (a ++ (islandMarker ++ t) ++ ['>']) ++ (x ++ (scriptClose ++ y)) := by
      simp only [List.append_assoc]
      rfl
    rw [hwhole]
    refine List.drop_left' ?_
    simp only [List.length_append, List.length_singleton]
  rw [parseJsonLd, fromUtf8_utf8]
  simp only [hstart, List.drop_left, hend, hdrop, find_append_of_not_infix hx, List.take_left]

end Finding

section Generated

variable (w : JsonWriter) (pubkey : Str) (name : Option Str) (podBase : Str)
  (oidcIssuer : Option Str)

/-- What is between the name in the title and the data island, and behind the island. -/
def islandOpening : Str := "</title>\n  <script type=\"application/ld+json\">\n"

def islandClosing : Str := "\n  </script>\n</head>\n<body>\n  <h1>"

theorem islandOpening_eq :
    islandOpening = "</title>\n  <script type=\"" ++ (islandMarker ++ ("\"" ++ (">" ++ "\n"))) := by
  decide

theorem islandClosing_eq :
    islandClosing = "\n  " ++ (scriptClose ++ "\n</head>\n<body>\n  <h1>") := by
  decide

theorem prefix_generate : beforeName ++ name.getD "Solid Pod User" ++ islandOpening ++
    w.toStringPretty (profileBody pubkey name podBase oidcIssuer) ++ islandClosing <+:
      generateWebidHtmlWithIssuer w pubkey name podBase oidcIssuer := by
  -- ten parts follow the beginning of the heading
  iterate 10 refine List.IsPrefix.trans ?_ (List.prefix_append _ _)
  exact List.prefix_rfl

theorem exists_generate_eq : ∃ rest,
    generateWebidHtmlWithIssuer w pubkey name podBase oidcIssuer =
      (beforeName ++ (name.getD "Solid Pod User" ++ "</title>\n  <script type=\"")) ++
        (islandMarker ++ ("\"" ++ (">" ++
          (("\n" ++ (w.toStringPretty (profileBody pubkey name podBase oidcIssuer) ++ "\n  ")) ++
            (scriptClose ++ rest))))) := by
  obtain ⟨rest, h⟩ := prefix_generate w pubkey name podBase oidcIssuer
  refine ⟨"\n</head>\n<body>\n  <h1>" ++ rest, ?_⟩
  rw [← h, islandOpening_eq, islandClosing_eq]
  simp only [List.append_assoc]

end Generated

/-- Tags stand around the name in the title. -/
theorem infix_before_iff (displayName : Str) :
    islandMarker <:+: beforeName ++ (displayName ++ "</title>\n  <script type=\"") ++
      islandMarker.dropLast ↔ islandMarker <:+: displayName := by
  have hne : islandMarker ≠ [] := by decide
  have hbefore : beforeName =
      "<!DOCTYPE html>\n<html>\n<head>\n  <meta charset=\"utf-8\">\n  <title" ++ ">" := by
    decide
  have hafter : ("</title>\n  <script type=\"" : Str) =
      "<" ++ ("/title>\n  <script type=" ++ "\"") := by
    decide
  rw [hbefore, hafter]
  simp only [List.append_assoc]
  rw [infix_append_append_iff hne (by decide) (by decide),
    infix_append_append_iff hne (by decide) (by decide),
    infix_append_append_iff hne (by decide) (by decide),
    or_iff_right (by decide), or_iff_left (by decide)]

/-! ## End tags -/

section Tags

variable {tag s : Str}

theorem not_special_of_mem_tag (htag : toAsciiLowercase tag = "</script") {c : Char}
    (hc : c ∈ tag) : ¬ Special c := by
  intro hspecial
  have hletters : ∀ d ∈ ("</script" : Str), ¬ Special d := by decide
  have hmem : c.toLower ∈ toAsciiLowercase tag := List.mem_map_of_mem hc
  rw [htag, toLower_of_special hspecial] at hmem
  exact hletters c hmem hspecial

/-- What closes the name of a tag in a literal is not a control character. -/
theorem scriptEndTag_quoted_iff :
    ScriptEndTag htmlClosers (quoted s) ↔ ScriptEndTag " />" s := by
  have hliteral : ∀ tag, toAsciiLowercase tag = "</script" → ∀ c, ¬ Special c →
      (tag ++ [c] <:+: quoted s ↔ tag ++ [c] <:+: s) := by
    intro tag htag c hc
    refine infix_quoted_iff (by simp) ?_ ?_ s
    · intro d hd
      rcases List.mem_append.mp hd with hd | hd
      · exact not_special_of_mem_tag htag hd
      · rwa [List.mem_singleton.mp hd]
    · intro d hd hletter
      have hopen : ∀ l ∈ escapeLetters, l.toLower ≠ '<' := by decide
      cases tag with
      | nil => cases htag
      | cons e tag =>
          have hde : e = d := Option.some.inj hd
          rw [← hde] at hletter
          exact hopen e hletter (List.cons.inj htag).1
  have hclosers : ∀ c ∈ htmlClosers, c.toNat < 0x20 ∨ c ∈ (" />" : Str) := by decide
  have hplain : ∀ c ∈ (" />" : Str), ¬ Special c ∧ c ∈ htmlClosers := by decide
  constructor
  · rintro ⟨tag, htag, c, hc, h⟩
    rcases hclosers c hc with hcontrol | hc
    · refine absurd (h.subset ?_) (notMem_quoted_of_control hcontrol s)
      exact List.mem_append_right tag (List.mem_singleton.mpr rfl)
    · exact ⟨tag, htag, c, hc, (hliteral tag htag c (hplain c hc).1).mp h⟩
  · rintro ⟨tag, htag, c, hc, h⟩
    exact ⟨tag, htag, c, (hplain c hc).2, (hliteral tag htag c (hplain c hc).1).mpr h⟩

theorem infix_of_scriptEndTag {closers : Str} (h : ScriptEndTag closers s) :
    "</script" <:+: toAsciiLowercase s := by
  obtain ⟨tag, htag, c, -, hoccurs⟩ := h
  have hlower := ((List.prefix_append tag [c]).isInfix.trans hoccurs).map Char.toLower
  rwa [← htag]

theorem scriptEndTag_of_scriptClose (h : scriptClose <:+: s) : ScriptEndTag " />" s :=
  ⟨"</script", by decide, '>', by decide, h⟩

end Tags

/-! ## The strings of a profile -/

theorem scriptClose_ne_nil : scriptClose ≠ [] := by decide

/-- What has no `>` adds no end tag behind a string, and what has no `<` none before it. -/
theorem infix_append_plain_iff {s tail : Str} (h : '>' ∉ tail) :
    scriptClose <:+: s ++ tail ↔ scriptClose <:+: s := by
  refine infix_append_iff_of_last scriptClose_ne_nil fun c hc hlast => h ?_
  rw [← Option.some.inj hlast] at hc
  exact hc

theorem infix_plain_append_iff {s start : Str} (h : '<' ∉ start) :
    scriptClose <:+: start ++ s ↔ scriptClose <:+: s := by
  refine infix_append_iff_of_head scriptClose_ne_nil fun c hc hhead => h ?_
  rw [← Option.some.inj hhead] at hc
  exact hc

/-- The path between a base and a key separates them. -/
theorem infix_podUrl_iff {podBase pubkey tail : Str} (h : '>' ∉ tail) :
    scriptClose <:+: podBase ++ "/pods/" ++ pubkey ++ tail ↔
      scriptClose <:+: podBase ∨ scriptClose <:+: pubkey := by
  have hpath : ("/pods/" : Str) = "/p" ++ ("o" ++ "ds/") := by decide
  rw [infix_append_plain_iff h, hpath]
  simp only [List.append_assoc]
  rw [← List.append_assoc, infix_append_append_iff scriptClose_ne_nil (by decide) (by decide),
    infix_append_plain_iff (by decide), infix_plain_append_iff (by decide)]

section Body

variable (pubkey : Str) (name : Option Str) (podBase : Str) (oidcIssuer : Option Str)

theorem textual_profileContext {P : Str → Prop} (hplain : ∀ s, '<' ∉ s → P s) :
    Json.Textual P profileContext := by
  have hstring : ∀ s : Str, '<' ∉ s → Json.Textual P (.string s) :=
    fun s hs => .string (hplain s hs)
  have hobject : ∀ l : List (Str × Str), (∀ e ∈ l, '<' ∉ e.1 ∧ '<' ∉ e.2) →
      Json.Textual P (Json.ofMembers (l.map fun e => (e.1, .string e.2))) :=
    fun l hl => Json.textual_ofStrings fun e he => ⟨hplain _ (hl e he).1, hplain _ (hl e he).2⟩
  refine Json.textual_ofMembers ?_
  simp only [List.forall_mem_cons]
  exact ⟨⟨hplain _ (by decide), hstring _ (by decide)⟩,
    ⟨hplain _ (by decide), hstring _ (by decide)⟩,
    ⟨hplain _ (by decide), hstring _ (by decide)⟩,
    ⟨hplain _ (by decide), hstring _ (by decide)⟩,
    ⟨hplain _ (by decide), hstring _ (by decide)⟩,
    ⟨hplain _ (by decide),
      hobject [("@id", "foaf:isPrimaryTopicOf"), ("@type", "@id")] (by decide)⟩,
    ⟨hplain _ (by decide),
      hobject [("@id", "schema:mainEntityOfPage"), ("@type", "@id")] (by decide)⟩,
    ⟨hplain _ (by decide),
      hobject [("@id", "cid:service"), ("@container", "@set")] (by decide)⟩,
    ⟨hplain _ (by decide),
      hobject [("@id", "cid:serviceEndpoint"), ("@type", "@id")] (by decide)⟩,
    by simp⟩

theorem textual_profileBody {P : Str → Prop} (hplain : ∀ s, '<' ∉ s → P s)
    (hname : P (name.getD "Solid Pod User")) (hkey : P ("did:nostr:" ++ pubkey))
    (hurl : ∀ tail, '>' ∉ tail → P (podBase ++ "/pods/" ++ pubkey ++ tail))
    (hdoc : P ((podBase ++ "/pods/" ++ pubkey ++ "/profile/card#me").takeWhile (· ≠ '#') ++
      "#oidc"))
    (hissuer : ∀ issuer ∈ oidcIssuer, P issuer) :
    Json.Textual P (profileBody pubkey name podBase oidcIssuer) := by
  have hstring : ∀ s : Str, '<' ∉ s → Json.Textual P (.string s) :=
    fun s hs => .string (hplain s hs)
  have hsettings : ∀ tail : Str, '>' ∉ "/" ++ tail →
      P (podBase ++ "/pods/" ++ pubkey ++ "/" ++ tail) := by
    intro tail htail
    rw [List.append_assoc]
    exact hurl _ htail
  refine Json.textual_ofMembers ?_
  rw [List.forall_mem_append]
  constructor
  · rw [profileMembers]
    simp only [List.forall_mem_cons]
    exact ⟨⟨hplain _ (by decide), textual_profileContext hplain⟩,
      ⟨hplain _ (by decide), .string (hurl _ (by decide))⟩,
      ⟨hplain _ (by decide), hstring _ (by decide)⟩,
      ⟨hplain _ (by decide), .string hname⟩,
      ⟨hplain _ (by decide), hstring _ (by decide)⟩,
      ⟨hplain _ (by decide), hstring _ (by decide)⟩,
      ⟨hplain _ (by decide), .string (hurl _ (by decide))⟩,
      ⟨hplain _ (by decide), .string (hsettings _ (by decide))⟩,
      ⟨hplain _ (by decide), .string (hsettings _ (by decide))⟩,
      ⟨hplain _ (by decide), .string hkey⟩,
      by simp⟩
  · cases oidcIssuer with
    | none => simp [issuerMembers]
    | some issuer =>
        have hissuer' := hissuer issuer rfl
        rw [issuerMembers]
        simp only [List.forall_mem_cons]
        refine ⟨⟨hplain _ (by decide), Json.textual_ofMembers ?_⟩,
          ⟨hplain _ (by decide), .array ?_⟩, by simp⟩
        · rw [List.forall_mem_singleton]
          exact ⟨hplain "@id" (by decide), .string hissuer'⟩
        · rw [List.forall_mem_singleton]
          refine Json.textual_ofMembers ?_
          simp only [List.forall_mem_cons]
          exact ⟨⟨hplain _ (by decide), .string hdoc⟩,
            ⟨hplain _ (by decide), hstring _ (by decide)⟩,
            ⟨hplain _ (by decide), .string hissuer'⟩, by simp⟩

theorem textual_profileBody_true :
    Json.Textual (fun _ => True) (profileBody pubkey name podBase oidcIssuer) :=
  textual_profileBody pubkey name podBase oidcIssuer (fun _ _ => trivial) trivial trivial
    (fun _ _ => trivial) trivial fun _ _ => trivial

theorem getMember_profileBody (key : Str) :
    getMember key (profileBody pubkey name podBase oidcIssuer) =
      (profileMembers pubkey (name.getD "Solid Pod User") (podBase ++ "/pods/" ++ pubkey ++ "/")
        (podBase ++ "/pods/" ++ pubkey ++ "/profile/card#me") ++
          issuerMembers
            ((podBase ++ "/pods/" ++ pubkey ++ "/profile/card#me").takeWhile (· ≠ '#'))
            oidcIssuer).reverse.lookup key :=
  Json.member_membersOf key _

/-- The issuer has no part in the other members. -/
theorem getMember_of_ne {key : Str} (hissuer : key ≠ "solid:oidcIssuer")
    (hservice : key ≠ "service") :
    getMember key (profileBody pubkey name podBase oidcIssuer) =
      (profileMembers pubkey (name.getD "Solid Pod User") (podBase ++ "/pods/" ++ pubkey ++ "/")
        (podBase ++ "/pods/" ++ pubkey ++ "/profile/card#me")).reverse.lookup key := by
  rw [getMember_profileBody, List.reverse_append, List.lookup_append]
  cases oidcIssuer with
  | none => rfl
  | some issuer =>
      change (List.lookup key [("service", _), ("solid:oidcIssuer", _)]).or _ = _
      rw [List.lookup_cons, beq_eq_false_iff_ne.mpr hservice, List.lookup_cons,
        beq_eq_false_iff_ne.mpr hissuer]
      rfl

theorem getMember_oidcIssuer :
    getMember "solid:oidcIssuer" (profileBody pubkey name podBase oidcIssuer) =
      oidcIssuer.map fun issuer => Json.ofMembers [("@id", .string issuer)] := by
  rw [getMember_profileBody]
  cases oidcIssuer with
  | none => rfl
  | some issuer => rfl

theorem hasText_of_getMember {key s : Str} {v body : Json} (h : getMember key body = some v)
    (hs : Json.HasText s v) : Json.HasText s body := by
  cases body with
  | object m => exact .value (Json.mem_of_member h) hs
  | _ => cases h

/-- The body holds an end tag where one of the strings of its pod does. -/
theorem infix_pretty_profileBody_iff (number : Number → Str) :
    scriptClose <:+: (profileBody pubkey name podBase oidcIssuer).pretty number 0 ↔
      scriptClose <:+: name.getD "Solid Pod User" ∨ scriptClose <:+: pubkey ∨
        scriptClose <:+: podBase ∨ ∃ issuer ∈ oidcIssuer, scriptClose <:+: issuer := by
  have htext := textual_profileBody_true pubkey name podBase oidcIssuer
  rw [Json.infix_pretty_iff scriptClose_ne_nil (by decide) (by decide) (by decide) number htext]
  constructor
  · rintro ⟨s, hs, h⟩
    by_contra hnone
    rw [not_or, not_or, not_or] at hnone
    obtain ⟨hname, hkey, hbase, hissuer⟩ := hnone
    have hurl : ∀ tail, '>' ∉ tail →
        ¬ scriptClose <:+: podBase ++ "/pods/" ++ pubkey ++ tail := by
      intro tail htail
      rw [infix_podUrl_iff htail, not_or]
      exact ⟨hbase, hkey⟩
    have hfree : Json.Textual (fun s => ¬ scriptClose <:+: s)
        (profileBody pubkey name podBase oidcIssuer) := by
      refine textual_profileBody pubkey name podBase oidcIssuer ?_ hname ?_ hurl ?_ ?_
      · exact fun t ht h => ht (h.subset (by decide))
      · rwa [infix_plain_append_iff (by decide)]
      · rw [infix_append_plain_iff (by decide)]
        exact fun h => hurl _ (by decide) (h.trans (List.takeWhile_prefix _).isInfix)
      · exact fun issuer hmem h => hissuer ⟨issuer, hmem, h⟩
    exact hfree.of_hasText hs h
  · have hname : getMember "foaf:name" (profileBody pubkey name podBase oidcIssuer) =
        some (.string (name.getD "Solid Pod User")) :=
      getMember_of_ne pubkey name podBase oidcIssuer (by decide) (by decide)
    have hwebid : getMember "@id" (profileBody pubkey name podBase oidcIssuer) =
        some (.string (podBase ++ "/pods/" ++ pubkey ++ "/profile/card#me")) :=
      getMember_of_ne pubkey name podBase oidcIssuer (by decide) (by decide)
    have hpod : scriptClose <:+: podBase ++ "/pods/" ++ pubkey ++ "/profile/card#me" ↔
        scriptClose <:+: podBase ∨ scriptClose <:+: pubkey :=
      infix_podUrl_iff (by decide)
    rintro (h | h | h | ⟨issuer, hissuer, h⟩)
    · exact ⟨_, hasText_of_getMember hname .string, h⟩
    · exact ⟨_, hasText_of_getMember hwebid .string, hpod.mpr (Or.inr h)⟩
    · exact ⟨_, hasText_of_getMember hwebid .string, hpod.mpr (Or.inl h)⟩
    · have hmember := getMember_oidcIssuer pubkey name podBase oidcIssuer
      rw [Option.mem_def.mp hissuer] at hmember ⊢
      have hid : getMember "@id" (Json.ofMembers [("@id", .string issuer)]) =
          some (.string issuer) := rfl
      exact ⟨issuer, hasText_of_getMember hmember (hasText_of_getMember hid .string), h⟩

end Body

/-! ## Reading a profile -/

section Profile

variable (pubkey : Str) (name : Option Str) (podBase : Str) (oidcIssuer : Option Str)

theorem issuerOf_profileBody :
    issuerOf (profileBody pubkey name podBase oidcIssuer) = oidcIssuer := by
  have hexpanded : getMember "http://www.w3.org/ns/solid/terms#oidcIssuer"
      (profileBody pubkey name podBase oidcIssuer) = none :=
    getMember_of_ne pubkey name podBase oidcIssuer (by decide) (by decide)
  rw [issuerOf, getMember_oidcIssuer, hexpanded, Option.or_none]
  cases oidcIssuer with
  | none => rfl
  | some issuer => rfl

theorem providerOf_profileBody :
    providerOf (profileBody pubkey name podBase oidcIssuer) = oidcIssuer := by
  have hprefixed : getMember "cid:service" (profileBody pubkey name podBase oidcIssuer) = none :=
    getMember_of_ne pubkey name podBase oidcIssuer (by decide) (by decide)
  have hexpanded : getMember "https://www.w3.org/ns/cid/v1#service"
      (profileBody pubkey name podBase oidcIssuer) = none :=
    getMember_of_ne pubkey name podBase oidcIssuer (by decide) (by decide)
  rw [providerOf, hprefixed, hexpanded, Option.or_none, Option.or_none, getMember_profileBody]
  cases oidcIssuer with
  | none => rfl
  | some issuer => rfl

theorem trim_island (number : Number → Str) :
    trim ("\n" ++ ((profileBody pubkey name podBase oidcIssuer).pretty number 0 ++ "\n  ")) =
      (profileBody pubkey name podBase oidcIssuer).pretty number 0 := by
  obtain ⟨t, ht⟩ : ∃ t, (profileBody pubkey name podBase oidcIssuer).pretty number 0 =
      '\x7b' :: (t ++ ['\x7d']) :=
    Json.exists_block_eq _ _ _ _
  rw [trim_blank_append (by decide), trim_append_blank (by decide), ht]
  refine trim_eq_self (fun c hc => ?_) fun c hc => ?_
  · rw [← Option.some.inj hc]
    decide
  · rw [← List.cons_append, List.getLast?_concat] at hc
    rw [← Option.some.inj hc]
    decide

section Places

variable (w : JsonWriter)

theorem marker_infix_generate :
    islandMarker <:+: generateWebidHtmlWithIssuer w pubkey name podBase oidcIssuer := by
  obtain ⟨rest, hhtml⟩ := exists_generate_eq w pubkey name podBase oidcIssuer
  rw [hhtml]
  exact (List.prefix_append _ _).isInfix.trans (List.suffix_append _ _).isInfix

/-- A name with the media type is taken for the island. -/
theorem exists_find_of_marker (hmarker : islandMarker <:+: name.getD "Solid Pod User") :
    ∃ start, find islandMarker (generateWebidHtmlWithIssuer w pubkey name podBase oidcIssuer) =
      some start ∧ start < (beforeName ++ name.getD "Solid Pod User").length := by
  obtain ⟨rest, hhtml⟩ := exists_generate_eq w pubkey name podBase oidcIssuer
  have hoccurs := marker_infix_generate pubkey name podBase oidcIssuer w
  generalize hhtml' : generateWebidHtmlWithIssuer w pubkey name podBase oidcIssuer = html at *
  cases hfind : find islandMarker html with
  | none => exact absurd hoccurs (find_eq_none.mp hfind)
  | some start =>
      refine ⟨start, rfl, ?_⟩
      obtain ⟨a, b, hname⟩ := hmarker
      rw [hhtml, ← hname] at hfind
      simp only [List.append_assoc] at hfind
      rw [← List.append_assoc beforeName a] at hfind
      have hle := (find_eq_some hfind).2 _ _ rfl
      have hpos : 0 < islandMarker.length := by decide
      rw [← hname]
      simp only [List.length_append] at hle ⊢
      omega

/-- With another name the island that is found is behind it. -/
theorem find_of_not_marker (hmarker : ¬ islandMarker <:+: name.getD "Solid Pod User") {start : Nat}
    (h : find islandMarker (generateWebidHtmlWithIssuer w pubkey name podBase oidcIssuer) =
      some start) : (beforeName ++ name.getD "Solid Pod User").length ≤ start := by
  obtain ⟨rest, hhtml⟩ := exists_generate_eq w pubkey name podBase oidcIssuer
  rw [hhtml, find_append_of_not_infix (mt (infix_before_iff _).mp hmarker)] at h
  rw [← Option.some.inj h]
  simp only [List.length_append]
  omega

end Places

section Island

variable {r : JsonReader} {w : JsonWriter} {number : Number → Str}
  (hwrite : ∀ v : Json, w.toStringPretty v = v.pretty number 0)

include hwrite

/-- The name of another media type is no island, and the first end tag is behind the body. -/
theorem parseJsonLd_of_harmless (h : Harmless pubkey name podBase oidcIssuer) :
    parseJsonLd r (utf8 (generateWebidHtmlWithIssuer w pubkey name podBase oidcIssuer)) =
      readIsland r (w.toStringPretty (profileBody pubkey name podBase oidcIssuer)) := by
  obtain ⟨rest, hhtml⟩ := exists_generate_eq w pubkey name podBase oidcIssuer
  have hbody : ¬ scriptClose <:+:
      (profileBody pubkey name podBase oidcIssuer).pretty number 0 := by
    rw [infix_pretty_profileBody_iff, not_or, not_or, not_or]
    refine ⟨fun hname => h.endTag (scriptEndTag_of_scriptClose hname), h.pubkey, h.podBase, ?_⟩
    rintro ⟨issuer, hmem, hissuer⟩
    exact h.issuer issuer hmem hissuer
  have hlast : ¬ scriptClose <:+: ("\n" ++ ((profileBody pubkey name podBase oidcIssuer).pretty
      number 0 ++ "\n  ")) ++ scriptClose.dropLast := by
    have hsplit : ("\n  " : Str) = "\n" ++ "  " := by decide
    rw [hsplit, List.append_assoc, List.append_assoc, List.append_assoc,
      infix_plain_append_iff (by decide), infix_append_append_iff scriptClose_ne_nil (by decide)
        (by decide)]
    exact not_or.mpr ⟨hbody, by decide⟩
  rw [hhtml, hwrite, parseJsonLd_of_first ?_ (by decide) hlast, trim_island]
  rw [infix_before_iff]
  exact h.marker

/-- A string that holds an end tag cuts the island inside of a literal. -/
theorem parseJsonLd_ne_of_cut (hclosed : ∀ t v, r.fromStr t = .ok v → StringsClosed t)
    (hmarker : ¬ islandMarker <:+: name.getD "Solid Pod User")
    (hcut : scriptClose <:+: (profileBody pubkey name podBase oidcIssuer).pretty number 0)
    (v : Json) :
    parseJsonLd r (utf8 (generateWebidHtmlWithIssuer w pubkey name podBase oidcIssuer)) ≠
      .ok (some v) := by
  obtain ⟨rest, hhtml⟩ := exists_generate_eq w pubkey name podBase oidcIssuer
  generalize hbody : (profileBody pubkey name podBase oidcIssuer).pretty number 0 = body at hcut
  obtain ⟨x, z, hsplit, hfirst⟩ :=
    exists_first_infix scriptClose_ne_nil (hcut.trans (List.suffix_append "\n" body).isInfix)
  have hisland : "\n" ++ (body ++ "\n  ") ++ (scriptClose ++ rest) =
      x ++ (scriptClose ++ (z ++ ("\n  " ++ (scriptClose ++ rest)))) := by
    calc
      _ = "\n" ++ body ++ ("\n  " ++ (scriptClose ++ rest)) := by
          simp only [List.append_assoc]
      _ = _ := by
          rw [hsplit]
          simp only [List.append_assoc]
  have hwrapped : Wrapped '<' .outside ("\n" ++ body) := by
    rw [← hbody]
    refine (Wrapped.plain (by decide) (by decide)).append ?_
    exact Json.wrapped_pretty (by decide) (by decide) (by decide) number
      (textual_profileBody_true pubkey name podBase oidcIssuer) 0
  have hinside : Place.outside.after x = .inside := hwrapped.guarded x _ hsplit
  rw [hhtml, hwrite, hbody, hisland, parseJsonLd_of_first ?_ (by decide) hfirst, readIsland]
  · cases hread : r.fromStr (trim x) with
    | error e =>
        intro h
        cases h
    | ok u =>
        obtain ⟨b, b', hx, hb, hb'⟩ := exists_trim_eq x
        have hblank : ∀ l : Str, (∀ c ∈ l, isWhitespace c = true) →
            Place.outside.after l = .outside := by
          intro l hl
          refine after_outside_of_notMem fun hquote => ?_
          exact absurd (hl _ hquote) (by decide)
        have houtside : Place.outside.after x = .outside := by
          rw [hx, after_append, after_append, hblank b hb, hclosed _ _ hread, hblank b' hb']
        rw [hinside] at houtside
        cases houtside
  · rw [infix_before_iff]
    exact hmarker

end Island

end Profile

/-- A profile round-trips exactly when its strings are harmless. -/
theorem roundTrips_iff_harmless {r : JsonReader} {w : JsonWriter} {number : Number → Str}
    (hwrite : ∀ v : Json, w.toStringPretty v = v.pretty number 0)
    (hclosed : ∀ t v, r.fromStr t = .ok v → StringsClosed t)
    (pubkey : Str) (name : Option Str) (podBase : Str) (oidcIssuer : Option Str)
    (hread : r.fromStr (w.toStringPretty (profileBody pubkey name podBase oidcIssuer)) =
      .ok (profileBody pubkey name podBase oidcIssuer)) :
    RoundTrips r w pubkey name podBase oidcIssuer ↔
      Harmless pubkey name podBase oidcIssuer := by
  constructor
  · intro h
    have hmarker : ¬ islandMarker <:+: name.getD "Solid Pod User" := by
      intro hmarker
      obtain ⟨start, hstart, hlt⟩ :=
        exists_find_of_marker pubkey name podBase oidcIssuer w hmarker
      exact absurd (h.island start hstart) (Nat.not_le.mpr hlt)
    have hcut : ¬ scriptClose <:+: (profileBody pubkey name podBase oidcIssuer).pretty number 0 :=
      fun hcut => parseJsonLd_ne_of_cut pubkey name podBase oidcIssuer hwrite hclosed hmarker hcut _
        h.parsed
    rw [infix_pretty_profileBody_iff, not_or, not_or, not_or] at hcut
    obtain ⟨-, hkey, hbase, hissuer⟩ := hcut
    exact
      { marker := hmarker
        endTag := fun htag => h.script (scriptEndTag_quoted_iff.mpr htag)
        pubkey := hkey
        podBase := hbase
        issuer := fun issuer hmem hoccurs => hissuer ⟨issuer, hmem, hoccurs⟩ }
  · intro h
    have hparsed : parseJsonLd r
        (utf8 (generateWebidHtmlWithIssuer w pubkey name podBase oidcIssuer)) =
          .ok (some (profileBody pubkey name podBase oidcIssuer)) := by
      rw [parseJsonLd_of_harmless pubkey name podBase oidcIssuer hwrite h, readIsland, hread]
    have hcontains : containsStr islandMarker
        (generateWebidHtmlWithIssuer w pubkey name podBase oidcIssuer) = true :=
      containsStr_iff.mpr (marker_infix_generate pubkey name podBase oidcIssuer w)
    constructor
    · exact hparsed
    · rw [extractOidcIssuer, hparsed]
      exact congrArg Except.ok (issuerOf_profileBody pubkey name podBase oidcIssuer)
    · rw [extractCidOpenidProvider, hparsed]
      exact congrArg Except.ok (providerOf_profileBody pubkey name podBase oidcIssuer)
    · rw [validateWebidHtml, fromUtf8_utf8]
      simp only [hcontains, if_true, hparsed]
      rfl
    · exact mt scriptEndTag_quoted_iff.mp h.endTag
    · exact fun start => find_of_not_marker pubkey name podBase oidcIssuer w h.marker

/-! ### A profile with an issuer, and one whose name ends the script -/

/-- The texts of the library, for values without numbers. -/
def textWriter : JsonWriter where
  toStringPretty v := v.pretty (fun _ => "0") 0
  toVec _ := .ok []

/-- A reader that knows one text. -/
def readerOf (body : Json) : JsonReader where
  fromStr text :=
    if text = textWriter.toStringPretty body then .ok body
    else .error "expected value at line 1 column 1"

theorem fromStr_readerOf_self (body : Json) :
    (readerOf body).fromStr (textWriter.toStringPretty body) = .ok body :=
  if_pos rfl

theorem stringsClosed_of_readerOf {P : Str → Prop} {body : Json} (h : Json.Textual P body)
    (t : Str) (v : Json) (hread : (readerOf body).fromStr t = .ok v) : StringsClosed t := by
  rw [readerOf] at hread
  simp only at hread
  split_ifs at hread with ht
  have hwrapped : Wrapped '<' .outside (textWriter.toStringPretty body) :=
    Json.wrapped_pretty (by decide) (by decide) (by decide) _ h 0
  rw [ht]
  exact hwrapped.back

theorem roundTrips_alice :
    RoundTrips
      (readerOf (profileBody "abc" (some "Alice") "https://pods.example.com"
        (some "https://op.example")))
      textWriter "abc" (some "Alice") "https://pods.example.com" (some "https://op.example") := by
  refine (roundTrips_iff_harmless (fun _ => rfl)
    (stringsClosed_of_readerOf (textual_profileBody_true _ _ _ _)) _ _ _ _
    (fromStr_readerOf_self _)).mpr ?_
  constructor
  · decide
  · exact fun htag => absurd (infix_of_scriptEndTag htag) (by decide)
  · decide
  · decide
  · intro issuer hissuer
    rw [← Option.some.inj hissuer]
    decide

theorem not_roundTrips_script :
    ¬ RoundTrips
      (readerOf (profileBody "abc" (some "</script>") "https://pods.example.com" none))
      textWriter "abc" (some "</script>") "https://pods.example.com" none := by
  intro h
  refine parseJsonLd_ne_of_cut "abc" (some "</script>") "https://pods.example.com" none
    (fun _ => rfl) (stringsClosed_of_readerOf (textual_profileBody_true _ _ _ _)) (by decide) ?_ _
    h.parsed
  exact (infix_pretty_profileBody_iff _ _ _ _ _).mpr (Or.inl (by decide))

end Provision

end SolidPod
