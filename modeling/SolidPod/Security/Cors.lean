import SolidPod.Error
import SolidPod.Foundation.CommaList
import SolidPod.Foundation.Numerals

/-!
# Cross-origin requests

The policy on the origins that browsers may send requests from, as it is read from the
environment, and the headers of answers. A list without entries is read as the wildcard, and
only an answer that allows its origin says that it varies with it.
-/

namespace SolidPod

open Foundation Str

namespace Security

/-- The set is only asked for its members. -/
inductive AllowedOrigins where
  | wildcard
  | exact (set : List Str)

structure CorsPolicy where
  allowedOrigins : AllowedOrigins
  allowCredentials : Bool
  exposeHeaders : List Str
  maxAge : Nat

abbrev HeaderList := List (Str × Str)

namespace CorsHeader

def allowOrigin : Str := "Access-Control-Allow-Origin"
def vary : Str := "Vary"
def allowCredentials : Str := "Access-Control-Allow-Credentials"
def allowMethods : Str := "Access-Control-Allow-Methods"
def allowHeaders : Str := "Access-Control-Allow-Headers"
def maxAge : Str := "Access-Control-Max-Age"
def exposeHeaders : Str := "Access-Control-Expose-Headers"

set_option maxRecDepth 2048 in
theorem nodup : [allowOrigin, vary, allowCredentials, allowMethods, allowHeaders, maxAge,
    exposeHeaders].Nodup := by decide

end CorsHeader

def defaultMaxAgeSecs : Nat := 3600

def defaultExposeHeaders : List Str :=
  ["WAC-Allow", "Link", "ETag", "Accept-Patch", "Accept-Post", "Updates-Via"]

def defaultMethods : Str := "GET, HEAD, POST, PUT, PATCH, DELETE, OPTIONS"

def parseOrigins (raw : Str) : AllowedOrigins :=
  let trimmed := trim raw
  if trimmed = "*".toList then .wildcard
  else
    let set := commaPieces trimmed
    if set.isEmpty then .wildcard else .exact set

def normaliseHeaderList (raw : Str) : Str := join ", " (commaPieces raw)

def envBool (v : Option Str) : Bool :=
  match v with
  | none => false
  | some v => ["1".toList, "true".toList, "yes".toList, "on".toList].contains
    (toAsciiLowercase (trim v))

namespace CorsPolicy

def new : CorsPolicy := ⟨.wildcard, false, defaultExposeHeaders, defaultMaxAgeSecs⟩

/-- The values of `CORS_ALLOWED_ORIGINS`, `CORS_ALLOW_CREDENTIALS` and `CORS_MAX_AGE`, if they
are set. -/
def fromEnv (origins credentials maxAge : Option Str) : CorsPolicy where
  allowedOrigins := (origins.map parseOrigins).getD .wildcard
  allowCredentials := envBool credentials
  exposeHeaders := defaultExposeHeaders
  maxAge := (maxAge.bind fun v => parseUnsigned 64 (trim v)).getD defaultMaxAgeSecs

variable (policy : CorsPolicy)

/-- The value of `Access-Control-Allow-Origin`, if the origin is permitted. -/
def echoOrigin (origin : Option Str) : Option Str :=
  match policy.allowedOrigins with
  | .wildcard => if policy.allowCredentials then origin else some (origin.getD "*")
  | .exact set => origin.bind fun o => if set.contains o then some o else none

def originHeaders (echoed : Str) : HeaderList :=
  let credentials : HeaderList :=
    if policy.allowCredentials then [(CorsHeader.allowCredentials, "true")] else []
  (CorsHeader.allowOrigin, echoed) :: (CorsHeader.vary, "Origin".toList) :: credentials

def requestHeaders (reqMethod reqHeaders : Str) : HeaderList :=
  let methods :=
    if (trim reqMethod).isEmpty then defaultMethods else (trim reqMethod).map Char.toUpper
  [(CorsHeader.allowMethods, methods), (CorsHeader.allowHeaders, normaliseHeaderList reqHeaders),
    (CorsHeader.maxAge, decimal policy.maxAge)]

def preflightHeaders (origin : Option Str) (reqMethod reqHeaders : Str) : Option HeaderList :=
  (policy.echoOrigin origin).map fun echoed =>
    policy.originHeaders echoed ++ policy.requestHeaders reqMethod reqHeaders

def exposedHeaders : HeaderList :=
  if policy.exposeHeaders.isEmpty then []
  else [(CorsHeader.exposeHeaders, join ", " policy.exposeHeaders)]

def responseHeaders (origin : Option Str) : HeaderList :=
  ((policy.echoOrigin origin).map policy.originHeaders).getD [] ++ policy.exposedHeaders

end CorsPolicy

/-! ## What the headers say -/

/-- The origin is allowed under this value. -/
def AllowsAs (headers : HeaderList) (value : Str) : Prop :=
  (CorsHeader.allowOrigin, value) ∈ headers

def Allows (headers : HeaderList) : Prop := ∃ value, AllowsAs headers value

def AllowsCredentials (headers : HeaderList) : Prop :=
  ∃ value, (CorsHeader.allowCredentials, value) ∈ headers

def VariesWithOrigin (headers : HeaderList) : Prop :=
  (CorsHeader.vary, "Origin".toList) ∈ headers

namespace CorsPolicy

variable {policy : CorsPolicy} {origin : Option Str} {reqMethod reqHeaders value : Str}

/-- The names of the headers that depend on the origin. -/
def aboutOrigin : List Str := [CorsHeader.allowOrigin, CorsHeader.vary, CorsHeader.allowCredentials]

theorem nodup_names : (aboutOrigin ++ [CorsHeader.allowMethods, CorsHeader.allowHeaders,
    CorsHeader.maxAge, CorsHeader.exposeHeaders]).Nodup := CorsHeader.nodup

/-- The other headers have other names. -/
theorem ne_of_mem_aboutOrigin {name : Str} (hname : name ∈ aboutOrigin) :
    name ≠ CorsHeader.allowMethods ∧ name ≠ CorsHeader.allowHeaders ∧ name ≠ CorsHeader.maxAge ∧
      name ≠ CorsHeader.exposeHeaders := by
  obtain ⟨-, -, hdisjoint⟩ := List.nodup_append.mp nodup_names
  simpa using hdisjoint name hname

theorem ne_aboutOrigin : CorsHeader.allowOrigin ≠ CorsHeader.vary ∧
    CorsHeader.allowOrigin ≠ CorsHeader.allowCredentials ∧
      CorsHeader.vary ≠ CorsHeader.allowCredentials := by
  obtain ⟨hnodup, -, -⟩ := List.nodup_append.mp nodup_names
  simpa [aboutOrigin, and_assoc] using hnodup

theorem notMem_requestHeaders {name : Str} (hname : name ∈ aboutOrigin) :
    (name, value) ∉ policy.requestHeaders reqMethod reqHeaders := by
  simp [requestHeaders, ne_of_mem_aboutOrigin hname]

theorem notMem_exposedHeaders {name : Str} (hname : name ∈ aboutOrigin) :
    (name, value) ∉ policy.exposedHeaders := by
  rw [exposedHeaders]
  split_ifs
  · exact List.not_mem_nil
  · simp [ne_of_mem_aboutOrigin hname]

/-- The headers about the origin are there when it is permitted. -/
theorem mem_responseHeaders_iff {name : Str} (hname : name ∈ aboutOrigin) :
    (name, value) ∈ policy.responseHeaders origin ↔
      ∃ echoed, policy.echoOrigin origin = some echoed ∧
        (name, value) ∈ policy.originHeaders echoed := by
  rw [responseHeaders, List.mem_append]
  cases policy.echoOrigin origin with
  | none => simp [notMem_exposedHeaders hname]
  | some echoed => simp [notMem_exposedHeaders hname]

theorem mem_preflightHeaders_iff {name : Str} {headers : HeaderList} (hname : name ∈ aboutOrigin)
    (h : policy.preflightHeaders origin reqMethod reqHeaders = some headers) :
    (name, value) ∈ headers ↔ (name, value) ∈ policy.responseHeaders origin := by
  rw [mem_responseHeaders_iff hname]
  obtain ⟨echoed, hecho, rfl⟩ := Option.map_eq_some_iff.mp h
  rw [List.mem_append, hecho]
  simp [notMem_requestHeaders hname]

theorem allowsAs_responseHeaders_iff :
    AllowsAs (policy.responseHeaders origin) value ↔ policy.echoOrigin origin = some value := by
  rw [AllowsAs, mem_responseHeaders_iff List.mem_cons_self]
  constructor
  · rintro ⟨echoed, hecho, hmem⟩
    have hvalue : value = echoed := by
      rw [originHeaders] at hmem
      split_ifs at hmem
      · simpa [ne_aboutOrigin] using hmem
      · simpa [ne_aboutOrigin] using hmem
    rw [hvalue, hecho]
  · intro h
    exact ⟨value, h, List.mem_cons_self⟩

theorem variesWithOrigin_responseHeaders_iff :
    VariesWithOrigin (policy.responseHeaders origin) ↔ Allows (policy.responseHeaders origin) := by
  rw [VariesWithOrigin, mem_responseHeaders_iff (List.mem_cons_of_mem _ List.mem_cons_self)]
  constructor
  · rintro ⟨echoed, hecho, -⟩
    exact ⟨echoed, allowsAs_responseHeaders_iff.mpr hecho⟩
  · rintro ⟨echoed, hallows⟩
    exact ⟨echoed, allowsAs_responseHeaders_iff.mp hallows,
      List.mem_cons_of_mem _ List.mem_cons_self⟩

theorem allowsCredentials_responseHeaders_iff :
    AllowsCredentials (policy.responseHeaders origin) ↔
      policy.allowCredentials = true ∧ Allows (policy.responseHeaders origin) := by
  have hname : CorsHeader.allowCredentials ∈ aboutOrigin :=
    List.mem_cons_of_mem _ (List.mem_cons_of_mem _ List.mem_cons_self)
  obtain ⟨-, horigin, hvary⟩ := ne_aboutOrigin
  constructor
  · rintro ⟨value, hvalue⟩
    obtain ⟨echoed, hecho, hmem⟩ := (mem_responseHeaders_iff hname).mp hvalue
    refine ⟨?_, echoed, allowsAs_responseHeaders_iff.mpr hecho⟩
    rw [originHeaders] at hmem
    split_ifs at hmem with hcredentials
    · exact hcredentials
    · simp only [List.mem_cons, Prod.mk.injEq, List.not_mem_nil, or_false] at hmem
      rcases hmem with ⟨hsame, -⟩ | ⟨hsame, -⟩
      · exact absurd hsame.symm horigin
      · exact absurd hsame.symm hvary
  · rintro ⟨hcredentials, echoed, hallows⟩
    refine ⟨"true", (mem_responseHeaders_iff hname).mpr
      ⟨echoed, allowsAs_responseHeaders_iff.mp hallows, ?_⟩⟩
    rw [originHeaders, if_pos hcredentials]
    exact List.mem_cons_of_mem _ (List.mem_cons_of_mem _ List.mem_cons_self)

/-- An origin is echoed, except that a request without one gets the star. -/
theorem origin_of_echoOrigin (h : policy.echoOrigin origin = some value) :
    origin = some value ∨ (policy.allowCredentials = false ∧ origin = none) := by
  rw [echoOrigin] at h
  cases hallowed : policy.allowedOrigins with
  | wildcard =>
      simp only [hallowed] at h
      split_ifs at h with hcredentials
      · exact .inl h
      · cases origin with
        | none => exact .inr ⟨Bool.eq_false_iff.mpr hcredentials, rfl⟩
        | some o => exact .inl h
  | exact set =>
      simp only [hallowed] at h
      obtain ⟨o, rfl, ho⟩ := Option.bind_eq_some_iff.mp h
      split_ifs at ho
      exact .inl ho

end CorsPolicy

/-! ## The policy of the environment -/

section Env

variable (raw : Str) (credentials maxAge : Option Str)

/-- The policy for a list of origins. -/
def listPolicy : CorsPolicy := .fromEnv (some raw) credentials maxAge

/-- Only an origin of the list is allowed. -/
def ListedOnly : Prop :=
  ∀ origin, Allows ((listPolicy raw credentials maxAge).responseHeaders origin) →
    ∃ o ∈ commaPieces (trim raw), origin = some o

/-- The star does not go with credentials, in neither kind of answer. -/
def StarAlone (origin : Option Str) : Prop :=
  ∀ headers, (headers = (listPolicy raw credentials maxAge).responseHeaders origin ∨
    ∃ reqMethod reqHeaders, (listPolicy raw credentials maxAge).preflightHeaders origin reqMethod
      reqHeaders = some headers) → ¬ (AllowsAs headers "*" ∧ AllowsCredentials headers)

/-- Both kinds of answers allow the same origins, and under the same value. -/
def Agreed : Prop :=
  ∀ origin reqMethod reqHeaders value,
    (∃ headers, (listPolicy raw credentials maxAge).preflightHeaders origin reqMethod reqHeaders =
      some headers ∧ AllowsAs headers value) ↔
        AllowsAs ((listPolicy raw credentials maxAge).responseHeaders origin) value

/-- What is expected of a list of origins: answers that differ both say that they vary. -/
structure SoundAndCacheable : Prop where
  listed : ListedOnly raw credentials maxAge
  star : ∀ origin, StarAlone raw credentials maxAge origin
  agreed : Agreed raw credentials maxAge
  cacheable : ∀ o₁ o₂, (listPolicy raw credentials maxAge).responseHeaders o₁ ≠
    (listPolicy raw credentials maxAge).responseHeaders o₂ →
      VariesWithOrigin ((listPolicy raw credentials maxAge).responseHeaders o₁) ∧
        VariesWithOrigin ((listPolicy raw credentials maxAge).responseHeaders o₂)

/-- What a list of origins does: without entries it is the wildcard, and exactly the answers
that allow their origin say that they vary. -/
structure Decides : Prop where
  listed : trim raw ≠ "*" → commaPieces (trim raw) ≠ [] → ListedOnly raw credentials maxAge
  unlisted : commaPieces (trim raw) = [] →
    ∀ o, Allows ((listPolicy raw credentials maxAge).responseHeaders (some o))
  star : ∀ origin, origin ≠ some ("*" : Str) → StarAlone raw credentials maxAge origin
  agreed : Agreed raw credentials maxAge
  varies : ∀ origin, VariesWithOrigin ((listPolicy raw credentials maxAge).responseHeaders origin) ↔
    Allows ((listPolicy raw credentials maxAge).responseHeaders origin)
  cacheable : ∀ o₁ o₂, (listPolicy raw credentials maxAge).responseHeaders o₁ ≠
    (listPolicy raw credentials maxAge).responseHeaders o₂ →
      VariesWithOrigin ((listPolicy raw credentials maxAge).responseHeaders o₁) ∨
        VariesWithOrigin ((listPolicy raw credentials maxAge).responseHeaders o₂)

variable {raw credentials maxAge}

theorem parseOrigins_of_pieces (hstar : trim raw ≠ "*") (hpieces : commaPieces (trim raw) ≠ []) :
    parseOrigins raw = .exact (commaPieces (trim raw)) := by
  rw [parseOrigins]
  simp only [if_neg hstar]
  exact if_neg (mt List.isEmpty_iff.mp hpieces)

theorem parseOrigins_of_none (hpieces : commaPieces (trim raw) = []) :
    parseOrigins raw = .wildcard := by
  rw [parseOrigins]
  simp only [hpieces, List.isEmpty_nil, if_true, ite_self]

theorem listedOnly_of_pieces (hstar : trim raw ≠ "*") (hpieces : commaPieces (trim raw) ≠ []) :
    ListedOnly raw credentials maxAge := by
  rintro origin ⟨value, hvalue⟩
  have hecho := CorsPolicy.allowsAs_responseHeaders_iff.mp hvalue
  have hexact : (listPolicy raw credentials maxAge).allowedOrigins =
      .exact (commaPieces (trim raw)) := parseOrigins_of_pieces hstar hpieces
  simp only [CorsPolicy.echoOrigin, hexact] at hecho
  obtain ⟨o, rfl, ho⟩ := Option.bind_eq_some_iff.mp hecho
  split_ifs at ho with hmem
  exact ⟨o, List.contains_iff_mem.mp hmem, rfl⟩

theorem allowsAs_of_none (hpieces : commaPieces (trim raw) = []) (o : Str) :
    AllowsAs ((listPolicy raw credentials maxAge).responseHeaders (some o)) o := by
  have hwildcard : (listPolicy raw credentials maxAge).allowedOrigins = .wildcard :=
    parseOrigins_of_none hpieces
  apply CorsPolicy.allowsAs_responseHeaders_iff.mpr
  simp only [CorsPolicy.echoOrigin, hwildcard, Option.getD_some, ite_self]

theorem starAlone_of_ne {origin : Option Str} (horigin : origin ≠ some ("*" : Str)) :
    StarAlone raw credentials maxAge origin := by
  have hresponse : ¬ (AllowsAs ((listPolicy raw credentials maxAge).responseHeaders origin) "*" ∧
      AllowsCredentials ((listPolicy raw credentials maxAge).responseHeaders origin)) := by
    rintro ⟨hstar, hcredentials⟩
    rcases CorsPolicy.origin_of_echoOrigin (CorsPolicy.allowsAs_responseHeaders_iff.mp hstar) with
      horigin' | ⟨hnone, -⟩
    · exact horigin horigin'
    · rw [(CorsPolicy.allowsCredentials_responseHeaders_iff.mp hcredentials).1] at hnone
      cases hnone
  rintro headers (rfl | ⟨reqMethod, reqHeaders, hpreflight⟩) ⟨hstar, value, hcredentials⟩
  · exact hresponse ⟨hstar, value, hcredentials⟩
  · apply hresponse
    constructor
    · exact (CorsPolicy.mem_preflightHeaders_iff List.mem_cons_self hpreflight).mp hstar
    · exact ⟨value, (CorsPolicy.mem_preflightHeaders_iff (List.mem_cons_of_mem _
        (List.mem_cons_of_mem _ List.mem_cons_self)) hpreflight).mp hcredentials⟩

theorem agreed : Agreed raw credentials maxAge := by
  intro origin reqMethod reqHeaders value
  constructor
  · rintro ⟨headers, hpreflight, hallows⟩
    exact (CorsPolicy.mem_preflightHeaders_iff List.mem_cons_self hpreflight).mp hallows
  · intro hallows
    have hecho := CorsPolicy.allowsAs_responseHeaders_iff.mp hallows
    refine ⟨_, Option.map_eq_some_iff.mpr ⟨value, hecho, rfl⟩, ?_⟩
    exact List.mem_append_left _ List.mem_cons_self

/-- Answers that allow nothing are all the same. -/
theorem responseHeaders_of_not_allows {policy : CorsPolicy} {origin : Option Str}
    (h : ¬ Allows (policy.responseHeaders origin)) :
    policy.responseHeaders origin = policy.exposedHeaders := by
  cases hecho : policy.echoOrigin origin with
  | none =>
      rw [CorsPolicy.responseHeaders, hecho]
      rfl
  | some value => exact absurd ⟨value, CorsPolicy.allowsAs_responseHeaders_iff.mpr hecho⟩ h

/-- Whatever the list of origins is, an origin is allowed only if it is on the list, where there
is one. -/
theorem listPolicy_decides (raw : Str) (credentials maxAge : Option Str) :
    Decides raw credentials maxAge where
  listed := listedOnly_of_pieces
  unlisted := fun hpieces o => ⟨o, allowsAs_of_none hpieces o⟩
  star := fun _ => starAlone_of_ne
  agreed := agreed
  varies := fun _ => CorsPolicy.variesWithOrigin_responseHeaders_iff
  cacheable := by
    intro o₁ o₂ hdiffer
    rw [CorsPolicy.variesWithOrigin_responseHeaders_iff,
      CorsPolicy.variesWithOrigin_responseHeaders_iff]
    by_contra! hnone
    apply hdiffer
    rw [responseHeaders_of_not_allows hnone.1, responseHeaders_of_not_allows hnone.2]

theorem allows_listed (hstar : trim raw ≠ "*") {o : Str} (ho : o ∈ commaPieces (trim raw)) :
    Allows ((listPolicy raw credentials maxAge).responseHeaders (some o)) := by
  have hexact : (listPolicy raw credentials maxAge).allowedOrigins =
      .exact (commaPieces (trim raw)) := parseOrigins_of_pieces hstar (List.ne_nil_of_mem ho)
  refine ⟨o, CorsPolicy.allowsAs_responseHeaders_iff.mpr ?_⟩
  simp only [CorsPolicy.echoOrigin, hexact, Option.bind_some, if_pos (List.contains_iff_mem.mpr ho)]

/-- An answer to a listed origin varies and one without an origin does not; a comma lists every
origin; and the star is echoed together with credentials. -/
theorem not_soundAndCacheable :
    ¬ SoundAndCacheable "https://app.example" none none ∧ ¬ ListedOnly "," none none ∧
      ¬ StarAlone "," (some ("1" : Str)) none (some ("*" : Str)) := by
  refine ⟨?_, ?_, ?_⟩
  · intro h
    have hlisted : Allows ((listPolicy "https://app.example" none none).responseHeaders
        (some ("https://app.example" : Str))) := allows_listed (by decide) (by decide)
    have hnone : ¬ Allows ((listPolicy "https://app.example" none none).responseHeaders none) := by
      intro hallows
      obtain ⟨o, -, ho⟩ := h.listed none hallows
      cases ho
    have hvaries := h.cacheable _ none (fun hsame => hnone (hsame ▸ hlisted))
    exact hnone (CorsPolicy.variesWithOrigin_responseHeaders_iff.mp hvaries.2)
  · intro h
    have hpieces : commaPieces (trim ",") = [] := by decide
    obtain ⟨o, ho, -⟩ := h (some ("https://app.example" : Str)) ⟨_, allowsAs_of_none hpieces _⟩
    rw [hpieces] at ho
    cases ho
  · intro h
    have hallows : AllowsAs ((listPolicy "," (some ("1" : Str)) none).responseHeaders
        (some ("*" : Str))) "*" := allowsAs_of_none (by decide) "*"
    have hcredentials : (listPolicy "," (some ("1" : Str)) none).allowCredentials = true := by
      decide
    exact h _ (.inl rfl) ⟨hallows,
      CorsPolicy.allowsCredentials_responseHeaders_iff.mpr ⟨hcredentials, _, hallows⟩⟩

end Env

end Security

end SolidPod
