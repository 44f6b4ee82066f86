import SolidPod.Foundation.CommaList
import SolidPod.Foundation.F32
import SolidPod.Foundation.Choices

/-!
# Content negotiation

The format of an answer is read off the `Accept` header: the ranges are walked once, and the
first of those with the greatest weight decides. A range that stands for several formats is
taken for Turtle, whatever weight the header gives to Turtle itself.
-/

namespace SolidPod

open Foundation Str

namespace Ldp

inductive RdfFormat where
  | turtle
  | jsonLd
  | nTriples
  | rdfXml
  deriving DecidableEq

def RdfFormat.mime : RdfFormat → Str
  | .turtle => "text/turtle"
  | .jsonLd => "application/ld+json"
  | .nTriples => "application/n-triples"
  | .rdfXml => "application/rdf+xml"

def wildcards : List Str := ["*/*", "application/*", "text/*"]

/-- The format that a range in lower case is taken for. -/
def formatOfRange (mime : Str) : Option RdfFormat :=
  if mime = "text/turtle" ∨ mime = "application/turtle" then some .turtle
  else if mime = "application/ld+json" then some .jsonLd
  else if mime = "application/n-triples" then some .nTriples
  else if mime = "application/rdf+xml" then some .rdfXml
  else if mime ∈ wildcards then some .turtle
  else none

/-- A weight that is no number leaves the weight before it. -/
def readWeight (q : F32) (token : Str) : F32 := ((stripPrefix "q=" token).bind parseF32).getD q

def acceptEntry (entry : Str) : Option (F32 × RdfFormat) :=
  match (entry.splitOn ';').map trim with
  | [] => none
  | mime :: parts =>
      (formatOfRange (toAsciiLowercase mime)).map fun f => (parts.foldl readWeight (.finite 1), f)

def keepBest (best : Option (F32 × RdfFormat)) (entry : F32 × RdfFormat) :
    Option (F32 × RdfFormat) :=
  match best with
  | none => some entry
  | some b => if entry.1.gt b.1 then some entry else some b

def negotiateFormat (accept : Option Str) : RdfFormat :=
  match accept with
  | none => .turtle
  | some a =>
      if trim a = [] then .turtle
      else (((commaPieces a).filterMap acceptEntry).foldl keepBest none).elim .turtle Prod.snd

/-! ## Headers -/

def IsBlank (s : Str) : Prop := ∀ c ∈ s, c = ' ' ∨ c = '\t'

/-- A character of a type or of a subtype. -/
def IsRangeChar (c : Char) : Prop := isWhitespace c = false ∧ c ∉ [',', ';', '/']

structure MediaRange where
  type : Str
  subtype : Str
  valid : ∀ c ∈ type ++ subtype, IsRangeChar c

def MediaRange.text (range : MediaRange) : Str := range.type ++ '/' :: range.subtype

def MediaRange.name (range : MediaRange) : Str := toAsciiLowercase range.text

/-- A parameter of a media type, with the blanks around it. -/
structure RangeParameter where
  text : Str
  valid : ∀ c ∈ text, c ∉ [',', ';']
  notWeight : stripPrefix "q=" (toAsciiLowercase (trim text)) = none

structure RangeWeight where
  before : Str
  digits : Str
  after : Str
  value : ℚ
  blank : IsBlank (before ++ after)
  read : parseF32 digits = some (.finite value)
  nonneg : 0 ≤ value
  le_one : value ≤ 1

def RangeWeight.token (weight : RangeWeight) : Str := "q=" ++ weight.digits

def RangeWeight.text (weight : RangeWeight) : Str :=
  weight.before ++ weight.token ++ weight.after

/-- A member of an `Accept` header. -/
structure AcceptItem where
  before : Str
  range : MediaRange
  after : Str
  parameters : List RangeParameter
  weight : Option RangeWeight
  blank : IsBlank (before ++ after)

namespace AcceptItem

def value (item : AcceptItem) : ℚ := item.weight.elim 1 RangeWeight.value

/-- What stands behind the range. -/
def tokens (item : AcceptItem) : List Str :=
  item.parameters.map RangeParameter.text ++ item.weight.toList.map RangeWeight.text

def text (item : AcceptItem) : Str :=
  join ";" ((item.before ++ item.range.text ++ item.after) :: item.tokens)

end AcceptItem

def acceptText (items : List AcceptItem) : Str := join "," (items.map AcceptItem.text)

/-! ## What a header accepts -/

/-- The media types of a format. -/
def RdfFormat.names : RdfFormat → List Str
  | .turtle => [RdfFormat.turtle.mime, "application/turtle"]
  | f => [f.mime]

/-- The range of all subtypes of the type of a media type. -/
def anySubtype (name : Str) : Str := name.takeWhile (· != '/') ++ "/*"

/-- How closely a range names a format: by itself, by its type, as anything, or not at all. -/
def precedence (name : Str) (f : RdfFormat) : ℕ :=
  if name ∈ f.names then 3
  else if name ∈ f.names.map anySubtype then 2
  else if name = "*/*" then 1
  else 0

/-- The members that name a format the most closely. -/
def decisive (items : List AcceptItem) (f : RdfFormat) : List AcceptItem :=
  items.filter fun i => 0 < precedence i.range.name f ∧
    ∀ j ∈ items, precedence j.range.name f ≤ precedence i.range.name f

def quality (items : List AcceptItem) (f : RdfFormat) : ℚ :=
  ((decisive items f).argmax AcceptItem.value).elim 0 AcceptItem.value

/-- A header accepts the formats of a positive quality. -/
structure PicksBest (items : List AcceptItem) : Prop where
  maximal : ∀ f, 0 < quality items f →
    quality items f ≤ quality items (negotiateFormat (some (acceptText items)))
  turtle : 0 < quality items .turtle → (∀ f, quality items f ≤ quality items .turtle) →
    negotiateFormat (some (acceptText items)) = .turtle
  acceptable : (∃ f, 0 < quality items f) →
    0 < quality items (negotiateFormat (some (acceptText items)))
  anyOrder : ∀ items' : List AcceptItem, items'.Perm items →
    negotiateFormat (some (acceptText items')) = negotiateFormat (some (acceptText items))

/-- A member of the greatest weight among those that are taken for a format. -/
structure Leads (items : List AcceptItem) (item : AcceptItem) (f : RdfFormat) : Prop where
  mem : item ∈ items
  format : formatOfRange item.range.name = some f
  greatest : ∀ j ∈ items, formatOfRange j.range.name ≠ none → j.value ≤ item.value

/-- The leading members are taken for one format, and Turtle is not taken for a better one by a
wildcard. -/
structure Decided (items : List AcceptItem) : Prop where
  agree : ∀ i j f g, Leads items i f → Leads items j g → f = g
  wildcard : ∀ i f, Leads items i f → i.range.name ∈ wildcards →
    ∀ g, quality items g ≤ quality items .turtle

/-! ## What is read of a header -/

theorem blank_of_isBlank {s : Str} (h : IsBlank s) : ∀ c ∈ s, isWhitespace c = true := by
  intro c hc
  rcases h c hc with rfl | rfl
  · decide
  · decide

theorem notMem_of_isBlank {s : Str} {c : Char} (hc : isWhitespace c = false) (h : IsBlank s) :
    c ∉ s :=
  notMem_of_blank hc (blank_of_isBlank h)

theorem trim_of_isBlank {a s b : Str} (h : IsBlank (a ++ b))
    (hs : ∀ c ∈ s, isWhitespace c = false) : trim (a ++ s ++ b) = s := by
  have hblank := blank_of_isBlank h
  rw [trim_append_blank fun c hc => hblank c (List.mem_append_right _ hc),
    trim_blank_append fun c hc => hblank c (List.mem_append_left _ hc)]
  refine trim_eq_self (fun c hc => hs c (List.mem_of_mem_head? hc)) fun c hc => ?_
  exact hs c (List.mem_of_mem_getLast? hc)

theorem MediaRange.char_text (range : MediaRange) :
    ∀ c ∈ range.text, isWhitespace c = false ∧ c ∉ [',', ';'] := by
  intro c hc
  rcases List.mem_append.mp hc with hc | hc
  · obtain ⟨hwhite, hsep⟩ := range.valid c (List.mem_append_left _ hc)
    exact ⟨hwhite, by simp_all⟩
  · rcases List.mem_cons.mp hc with rfl | hc
    · exact ⟨by decide, by decide⟩
    · obtain ⟨hwhite, hsep⟩ := range.valid c (List.mem_append_right _ hc)
      exact ⟨hwhite, by simp_all⟩

theorem RangeWeight.char_token (weight : RangeWeight) :
    ∀ c ∈ weight.token, isWhitespace c = false ∧ c ∉ [',', ';'] := by
  have hmark : ∀ c ∈ ("q=" : Str), isWhitespace c = false ∧ c ∉ [',', ';'] := by decide
  intro c hc
  rcases List.mem_append.mp hc with hc | hc
  · exact hmark c hc
  · refine ⟨isWhitespace_of_parseF32 weight.read c hc, fun hsep => ?_⟩
    have hdecimal := isDecimalChar_toLower_of_parseF32 weight.read c hc
    rcases List.mem_cons.mp hsep with rfl | hsep
    · exact absurd hdecimal (by decide)
    · rw [List.mem_singleton.mp hsep] at hdecimal
      exact absurd hdecimal (by decide)

theorem RangeWeight.trim_text (weight : RangeWeight) : trim weight.text = weight.token :=
  trim_of_isBlank weight.blank fun c hc => (weight.char_token c hc).1

/-- Neither separator is in a text between blanks when it is not in the text itself. -/
theorem notMem_of_between {a s b : Str} (h : IsBlank (a ++ b))
    (hs : ∀ c ∈ s, isWhitespace c = false ∧ c ∉ [',', ';']) {c : Char} (hc : c ∈ [',', ';']) :
    c ∉ a ++ s ++ b := by
  have hwhite : isWhitespace c = false := by
    revert c
    decide
  have hblank := notMem_of_isBlank hwhite h
  rw [List.mem_append, not_or] at hblank
  rw [List.mem_append, List.mem_append]
  rintro ((ha | hmem) | hb)
  · exact hblank.1 ha
  · exact (hs c hmem).2 hc
  · exact hblank.2 hb

theorem RangeWeight.readWeight_trim_text (weight : RangeWeight) (q : F32) :
    readWeight q (trim weight.text) = .finite weight.value := by
  rw [weight.trim_text, RangeWeight.token, readWeight, stripPrefix_append, Option.bind_some,
    weight.read, Option.getD_some]

theorem RangeParameter.readWeight_trim_text (parameter : RangeParameter) (q : F32) :
    readWeight q (trim parameter.text) = q := by
  have hnone : stripPrefix "q=" (trim parameter.text) = none := by
    cases hstrip : stripPrefix "q=" (trim parameter.text) with
    | none => rfl
    | some rest =>
        have hweight := parameter.notWeight
        rw [stripPrefix_eq_some.mp hstrip, toAsciiLowercase, List.map_append] at hweight
        have hmark : ("q=" : Str).map Char.toLower = "q=" := by decide
        rw [hmark, stripPrefix_append] at hweight
        cases hweight
  rw [readWeight, hnone, Option.bind_none, Option.getD_none]

namespace AcceptItem

variable (item : AcceptItem)

/-- No piece of a member holds a separator. -/
theorem notMem_pieces {c : Char} (hc : c ∈ [',', ';']) :
    ∀ p ∈ (item.before ++ item.range.text ++ item.after) :: item.tokens, c ∉ p := by
  intro p hp
  rcases List.mem_cons.mp hp with rfl | hp
  · exact notMem_of_between item.blank item.range.char_text hc
  · rcases List.mem_append.mp hp with hp | hp
    · obtain ⟨parameter, -, rfl⟩ := List.mem_map.mp hp
      exact fun hmem => parameter.valid c hmem hc
    · obtain ⟨weight, -, rfl⟩ := List.mem_map.mp hp
      exact notMem_of_between weight.blank weight.char_token hc

theorem comma_notMem_text : ',' ∉ item.text := by
  intro h
  rcases mem_join h with ⟨p, hp, hmem⟩ | hmem
  · exact item.notMem_pieces (by decide) p hp hmem
  · exact absurd hmem (by decide)

theorem trim_text_ne_nil : trim item.text ≠ [] := by
  intro h
  obtain ⟨w, w', htext, hw, hw'⟩ := exists_trim_eq item.text
  have hslash : '/' ∈ item.text := by
    rw [text, join_cons]
    simp [MediaRange.text]
  rw [htext, h, List.append_nil] at hslash
  rcases List.mem_append.mp hslash with hmem | hmem
  · exact absurd (hw '/' hmem) (by decide)
  · exact absurd ( hw' '/' hmem) (by decide)

theorem commaPieces_text : commaPieces item.text = [trim item.text] := by
  rw [commaPieces_of_notMem item.comma_notMem_text, if_neg item.trim_text_ne_nil]

theorem foldl_readWeight_parameters (q : F32) (parameters : List RangeParameter) :
    (parameters.map fun p => trim p.text).foldl readWeight q = q := by
  induction parameters with
  | nil => rfl
  | cons p parameters ih =>
      rw [List.map_cons, List.foldl_cons, p.readWeight_trim_text, ih]

theorem foldl_readWeight_tokens :
    (item.tokens.map trim).foldl readWeight (.finite 1) = .finite item.value := by
  rw [tokens, List.map_append, List.map_map, List.foldl_append]
  have hparameters := foldl_readWeight_parameters (.finite 1) item.parameters
  rw [show (item.parameters.map (trim ∘ RangeParameter.text)).foldl readWeight (.finite 1) =
    .finite 1 from hparameters, value]
  cases item.weight with
  | none => rfl
  | some weight => exact weight.readWeight_trim_text (.finite 1)

theorem acceptEntry_trim_text :
    acceptEntry (trim item.text) =
      (formatOfRange item.range.name).map fun f => (.finite item.value, f) := by
  have hsplit : item.text.splitOn ';' =
      (item.before ++ item.range.text ++ item.after) :: item.tokens :=
    List.splitOn_intercalate ';' (item.notMem_pieces (by decide)) (List.cons_ne_nil _ _)
  have hpieces : ((trim item.text).splitOn ';').map trim =
      item.range.text :: item.tokens.map trim := by
    rw [map_trim_splitOn_trim (by decide), hsplit, List.map_cons,
      trim_of_isBlank item.blank fun c hc => (item.range.char_text c hc).1]
  simp only [acceptEntry, hpieces, item.foldl_readWeight_tokens]
  rfl

end AcceptItem

/-- What the walk keeps of a member. -/
def candidate (item : AcceptItem) : Option (ℚ × RdfFormat) :=
  (formatOfRange item.range.name).map fun f => (item.value, f)

def entryOf (c : ℚ × RdfFormat) : F32 × RdfFormat := (.finite c.1, c.2)

/-- The walk keeps the first of the greatest weights. -/
theorem foldl_keepBest (l : List (ℚ × RdfFormat)) :
    (l.map entryOf).foldl keepBest none = (l.argmax Prod.fst).map entryOf := by
  induction l using List.reverseRecOn with
  | nil => rfl
  | append_singleton l c ih =>
      rw [List.map_append, List.foldl_append, ih, List.argmax_concat]
      cases l.argmax Prod.fst with
      | none => rfl
      | some b =>
          by_cases hlt : b.1 < c.1
          · simp [keepBest, entryOf, F32.gt, hlt]
          · simp [keepBest, entryOf, F32.gt, hlt]

theorem commaPieces_acceptText (items : List AcceptItem) :
    commaPieces (acceptText items) = items.map fun item => trim item.text := by
  rw [acceptText, commaPieces_join, List.flatMap_map, List.map_eq_flatMap]
  congr 1
  funext item
  exact item.commaPieces_text

theorem filterMap_acceptEntry (items : List AcceptItem) :
    (commaPieces (acceptText items)).filterMap acceptEntry =
      (items.filterMap candidate).map entryOf := by
  rw [commaPieces_acceptText, List.filterMap_map, List.map_filterMap]
  congr 1
  funext item
  rw [Function.comp_apply, item.acceptEntry_trim_text, candidate, Option.map_map]
  rfl

def pick (items : List AcceptItem) : RdfFormat :=
  ((items.filterMap candidate).argmax Prod.fst).elim .turtle Prod.snd

theorem negotiateFormat_acceptText (items : List AcceptItem) :
    negotiateFormat (some (acceptText items)) = pick items := by
  have hwalk : ((commaPieces (acceptText items)).filterMap acceptEntry).foldl keepBest none =
      ((items.filterMap candidate).argmax Prod.fst).map entryOf := by
    rw [filterMap_acceptEntry, foldl_keepBest]
  have hpick : (((items.filterMap candidate).argmax Prod.fst).map entryOf).elim .turtle Prod.snd =
      pick items := by
    rw [pick]
    cases (items.filterMap candidate).argmax Prod.fst with
    | none => rfl
    | some c => rfl
  rw [← hpick, ← hwalk]
  by_cases htrim : trim (acceptText items) = []
  · have hnone : commaPieces (acceptText items) = [] := by
      rw [← commaPieces_trim, htrim]
      rfl
    rw [negotiateFormat, if_pos htrim, hnone]
    rfl
  · rw [negotiateFormat, if_neg htrim]

/-! ## Ranges and qualities -/

section Ranges

variable {name : Str} {f g : RdfFormat}

theorem formatOfRange_of_mem_names (h : name ∈ f.names) : formatOfRange name = some f := by
  revert name
  cases f with
  | turtle => decide
  | jsonLd => decide
  | nTriples => decide
  | rdfXml => decide

theorem formatOfRange_of_mem_wildcards (h : name ∈ wildcards) :
    formatOfRange name = some .turtle := by
  revert name
  decide

theorem mem_names_of_formatOfRange (h : formatOfRange name = some f) (hwild : name ∉ wildcards) :
    name ∈ f.names := by
  unfold formatOfRange at h
  split_ifs at h with hturtle hjson hntriples hxml
  · obtain rfl := Option.some.inj h
    rcases hturtle with rfl | rfl
    · decide
    · decide
  · obtain rfl := Option.some.inj h
    rw [hjson]
    decide
  · obtain rfl := Option.some.inj h
    rw [hntriples]
    decide
  · obtain rfl := Option.some.inj h
    rw [hxml]
    decide

theorem mem_wildcards_of_anySubtype (h : name ∈ f.names.map anySubtype) : name ∈ wildcards := by
  revert name
  cases f with
  | turtle => decide
  | jsonLd => decide
  | nTriples => decide
  | rdfXml => decide

/-- A range that names a format in any way is taken for it or for Turtle. -/
theorem formatOfRange_of_precedence (h : 0 < precedence name f) :
    formatOfRange name = some f ∨ formatOfRange name = some .turtle := by
  unfold precedence at h
  split_ifs at h with hname hfamily hany
  · exact Or.inl (formatOfRange_of_mem_names hname)
  · exact Or.inr (formatOfRange_of_mem_wildcards (mem_wildcards_of_anySubtype hfamily))
  · rw [hany]
    exact Or.inr rfl
  · exact absurd h (lt_irrefl 0)

theorem precedence_of_mem_names (h : name ∈ f.names) : precedence name f = 3 := if_pos h

theorem precedence_le (name : Str) (f : RdfFormat) : precedence name f ≤ 3 := by
  unfold precedence
  split_ifs
  · exact le_refl 3
  · decide
  · decide
  · decide

end Ranges

section Quality

variable {items : List AcceptItem} {i j : AcceptItem} {f g : RdfFormat}

theorem AcceptItem.value_nonneg (item : AcceptItem) : 0 ≤ item.value := by
  rw [value]
  cases item.weight with
  | none => exact zero_le_one
  | some weight => exact weight.nonneg

theorem quality_nonneg (items : List AcceptItem) (f : RdfFormat) : 0 ≤ quality items f := by
  rw [quality]
  cases (decisive items f).argmax AcceptItem.value with
  | none => exact le_refl 0
  | some i => exact i.value_nonneg

theorem value_le_quality (h : i ∈ decisive items f) : i.value ≤ quality items f := by
  rw [quality]
  cases hmax : (decisive items f).argmax AcceptItem.value with
  | none =>
      rw [List.argmax_eq_none.mp hmax] at h
      exact absurd h List.not_mem_nil
  | some k => exact List.le_of_mem_argmax h hmax

theorem exists_decisive_of_pos (h : 0 < quality items f) :
    ∃ i ∈ decisive items f, i.value = quality items f := by
  rw [quality] at h ⊢
  cases hmax : (decisive items f).argmax AcceptItem.value with
  | none =>
      rw [hmax] at h
      exact absurd h (lt_irrefl 0)
  | some k => exact ⟨k, List.argmax_mem hmax, rfl⟩

theorem mem_of_mem_decisive (h : i ∈ decisive items f) :
    i ∈ items ∧ 0 < precedence i.range.name f := by
  obtain ⟨hmem, hprecedence⟩ := List.mem_filter.mp h
  exact ⟨hmem, (of_decide_eq_true hprecedence).1⟩

/-- No format has a greater quality than the weight of a leading member. -/
theorem quality_le_of_leads (h : Leads items i f) (g : RdfFormat) :
    quality items g ≤ i.value := by
  by_cases hpos : 0 < quality items g
  · obtain ⟨j, hj, hvalue⟩ := exists_decisive_of_pos hpos
    obtain ⟨hmem, hprecedence⟩ := mem_of_mem_decisive hj
    rw [← hvalue]
    refine h.greatest j hmem ?_
    rcases formatOfRange_of_precedence hprecedence with hformat | hformat
    · simp [hformat]
    · simp [hformat]
  · exact (not_lt.mp hpos).trans i.value_nonneg

theorem quality_eq_of_leads (h : Leads items i f) (hname : i.range.name ∉ wildcards) :
    quality items f = i.value := by
  have hprecedence := precedence_of_mem_names (mem_names_of_formatOfRange h.format hname)
  refine le_antisymm (quality_le_of_leads h f) (value_le_quality ?_)
  refine List.mem_filter.mpr ⟨h.mem, decide_eq_true ⟨?_, fun j _ => ?_⟩⟩
  · rw [hprecedence]
    decide
  · rw [hprecedence]
    exact precedence_le j.range.name f

/-- A member that names Turtle is taken for it, and would lead as well. -/
theorem quality_turtle_lt_of_leads (h : Leads items i f) (hf : f ≠ .turtle)
    (hagree : ∀ i j f g, Leads items i f → Leads items j g → f = g)
    (hpos : 0 < quality items .turtle) : quality items .turtle < i.value := by
  refine lt_of_le_of_ne (quality_le_of_leads h .turtle) fun heq => hf ?_
  obtain ⟨j, hj, hvalue⟩ := exists_decisive_of_pos hpos
  obtain ⟨hmem, hprecedence⟩ := mem_of_mem_decisive hj
  have hformat : formatOfRange j.range.name = some .turtle :=
    (formatOfRange_of_precedence hprecedence).elim id id
  refine hagree i j f .turtle h ⟨hmem, hformat, fun k hk hknown => ?_⟩
  rw [hvalue, heq]
  exact h.greatest k hk hknown

theorem exists_isTop_iff {c : ℚ × RdfFormat} :
    FirstMaximum.IsTop Prod.fst (items.filterMap candidate) c ↔
      ∃ i, Leads items i c.2 ∧ i.value = c.1 := by
  constructor
  · rintro ⟨hmem, hle⟩
    obtain ⟨i, hi, hcandidate⟩ := List.mem_filterMap.mp hmem
    obtain ⟨f, hformat, rfl⟩ := Option.map_eq_some_iff.mp hcandidate
    refine ⟨i, ⟨hi, hformat, fun j hj hknown => ?_⟩, rfl⟩
    obtain ⟨g, hg⟩ := Option.ne_none_iff_exists'.mp hknown
    exact hle (j.value, g) (List.mem_filterMap.mpr ⟨j, hj, by rw [candidate, hg]; rfl⟩)
  · rintro ⟨i, h, hvalue⟩
    refine ⟨List.mem_filterMap.mpr ⟨i, h.mem, ?_⟩, fun d hd => ?_⟩
    · rw [candidate, h.format, Option.map_some, hvalue]
    · obtain ⟨j, hj, hcandidate⟩ := List.mem_filterMap.mp hd
      obtain ⟨g, hg, rfl⟩ := Option.map_eq_some_iff.mp hcandidate
      rw [← hvalue]
      exact h.greatest j hj (by simp [hg])

/-- The picked format is that of a leading member, where there is one. -/
theorem exists_leads_pick (hpos : ∃ f, 0 < quality items f) : ∃ i, Leads items i (pick items) := by
  rw [pick]
  cases hmax : (items.filterMap candidate).argmax Prod.fst with
  | some c =>
      obtain ⟨i, h, -⟩ := exists_isTop_iff.mp (FirstMaximum.isTop_of_argmax hmax)
      exact ⟨i, h⟩
  | none =>
      obtain ⟨f, hf⟩ := hpos
      obtain ⟨i, hi, -⟩ := exists_decisive_of_pos hf
      obtain ⟨hmem, hprecedence⟩ := mem_of_mem_decisive hi
      have hnone := List.filterMap_eq_nil_iff.mp (List.argmax_eq_none.mp hmax) i hmem
      rw [candidate, Option.map_eq_none_iff] at hnone
      rcases formatOfRange_of_precedence hprecedence with hformat | hformat
      · rw [hformat] at hnone
        cases hnone
      · rw [hformat] at hnone
        cases hnone

theorem anyOrder_iff_agree :
    (∀ items' : List AcceptItem, items'.Perm items → pick items' = pick items) ↔
      ∀ i j f g, Leads items i f → Leads items j g → f = g := by
  simp only [pick]
  rw [FirstMaximum.argmax_perm_iff]
  constructor
  · intro h i j f g hi hj
    exact h (i.value, f) (j.value, g) (exists_isTop_iff.mpr ⟨i, hi, rfl⟩)
      (exists_isTop_iff.mpr ⟨j, hj, rfl⟩)
  · intro h c d hc hd
    obtain ⟨i, hi, -⟩ := exists_isTop_iff.mp hc
    obtain ⟨j, hj, -⟩ := exists_isTop_iff.mp hd
    exact h i j c.2 d.2 hi hj

/-- A leading member with a wildcard is taken for Turtle. -/
theorem Leads.eq_turtle (h : Leads items i f) (hwild : i.range.name ∈ wildcards) : f = .turtle := by
  have hformat := h.format
  rw [formatOfRange_of_mem_wildcards hwild] at hformat
  exact (Option.some.inj hformat).symm

theorem quality_le_pick (h : Decided items) (hpos : ∃ f, 0 < quality items f) (g : RdfFormat) :
    quality items g ≤ quality items (pick items) := by
  obtain ⟨i, hi⟩ := exists_leads_pick hpos
  by_cases hwild : i.range.name ∈ wildcards
  · rw [hi.eq_turtle hwild]
    exact h.wildcard i _ hi hwild g
  · rw [quality_eq_of_leads hi hwild]
    exact quality_le_of_leads hi g

theorem pick_eq_turtle (h : Decided items) (hpos : 0 < quality items .turtle)
    (hle : ∀ f, quality items f ≤ quality items .turtle) : pick items = .turtle := by
  obtain ⟨i, hi⟩ := exists_leads_pick ⟨.turtle, hpos⟩
  by_contra hpick
  have hname : i.range.name ∉ wildcards := fun hwild => hpick (hi.eq_turtle hwild)
  have hlt := quality_turtle_lt_of_leads hi hpick h.agree hpos
  rw [← quality_eq_of_leads hi hname] at hlt
  exact absurd (hle (pick items)) (not_le.mpr hlt)

end Quality

/-- The best format is picked in every order exactly when the leading members agree on it and no
wildcard among them hides that another format is better than Turtle. -/
theorem picksBest_iff_decided (items : List AcceptItem) : PicksBest items ↔ Decided items := by
  constructor
  · rintro ⟨hmaximal, -, -, horder⟩
    simp only [negotiateFormat_acceptText] at hmaximal horder
    have hagree := anyOrder_iff_agree.mp horder
    refine ⟨hagree, fun i f hi hwild g => ?_⟩
    by_cases hpos : 0 < quality items g
    · obtain ⟨k, hk⟩ := exists_leads_pick ⟨g, hpos⟩
      have hpick : pick items = .turtle := (hagree k i _ f hk hi).trans (hi.eq_turtle hwild)
      rw [← hpick]
      exact hmaximal g hpos
    · exact (not_lt.mp hpos).trans (quality_nonneg items .turtle)
  · intro h
    constructor
    all_goals simp only [negotiateFormat_acceptText]
    · exact fun f hf => quality_le_pick h ⟨f, hf⟩ f
    · exact pick_eq_turtle h
    · rintro ⟨f, hf⟩
      exact hf.trans_le (quality_le_pick h ⟨f, hf⟩ f)
    · exact anyOrder_iff_agree.mpr h.agree

/-! ## A tie -/

instance (c : Char) : Decidable (IsRangeChar c) := inferInstanceAs (Decidable (_ ∧ _))

theorem isBlank_nil : IsBlank [] := fun _ hc => absurd hc List.not_mem_nil

def plainItem (range : MediaRange) : AcceptItem where
  before := []
  range := range
  after := []
  parameters := []
  weight := none
  blank := isBlank_nil

theorem jsonLd_valid : ∀ c ∈ ("application" : Str) ++ "ld+json", IsRangeChar c := by decide

theorem turtle_valid : ∀ c ∈ ("text" : Str) ++ "turtle", IsRangeChar c := by decide

def jsonLdFirst : List AcceptItem :=
  [plainItem ⟨"application", "ld+json", jsonLd_valid⟩, plainItem ⟨"text", "turtle", turtle_valid⟩]

example : acceptText jsonLdFirst = "application/ld+json,text/turtle" := by decide

/-- JSON-LD is picked where the header gives Turtle the same weight. -/
theorem not_picksBest_jsonLdFirst : ¬ PicksBest jsonLdFirst := by
  intro h
  have hpositive : 0 < quality jsonLdFirst .turtle := by decide +kernel
  have hgreatest : ∀ f, quality jsonLdFirst f ≤ quality jsonLdFirst .turtle := by
    intro f
    cases f with
    | turtle => exact le_refl _
    | jsonLd => decide +kernel
    | nTriples => decide +kernel
    | rdfXml => decide +kernel
  have hpick := h.turtle hpositive hgreatest
  rw [negotiateFormat_acceptText] at hpick
  revert hpick
  decide +kernel

end Ldp

end SolidPod
