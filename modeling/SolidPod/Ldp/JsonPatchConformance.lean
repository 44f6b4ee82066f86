import SolidPod.Foundation.Lockstep
import SolidPod.Ldp.JsonPatchMeaning

/-!
# Where the patcher follows RFC 6902

The patcher and the JSON library lead to the same parent for every valid
pointer. At the last token the patcher also takes an index with a sign or with
leading zeros, appends where it should replace, compares numbers as they are
written, and moves a value into its own successor. A patch is evaluated as it
should be exactly when none of these happens on the way.
-/

namespace SolidPod

namespace Ldp

namespace JsonPatch

open Foundation Str

/-! ## Tokens -/

theorem replacePair_cons_of_ne {a : Char} (ha : a ≠ '~') (c d : Char) (cs : Str) :
    replacePair c d (a :: cs) = a :: replacePair c d cs := by
  cases cs with
  | nil => rfl
  | cons b cs => rw [replacePair, if_neg (by simp [ha])]

/-- A token that can be decoded is decoded by the two replacements. -/
theorem unescapeToken_of_decodeToken {s t : Str} (h : decodeToken s = some t) :
    unescapeToken s = t := by
  induction s using decodeToken.induct generalizing t with
  | case1 =>
      cases h
      rfl
  | case2 => cases h
  | case3 c hc =>
      rw [decodeToken, if_neg hc] at h
      cases h
      rfl
  | case4 cs ih =>
      rw [decodeToken, if_pos rfl, if_pos rfl, Option.map_eq_some_iff] at h
      obtain ⟨u, hu, rfl⟩ := h
      have hslash : replacePair '1' '/' ('~' :: '0' :: cs) =
          '~' :: '0' :: replacePair '1' '/' cs := by
        rw [replacePair, if_neg (by decide), replacePair_cons_of_ne (by decide)]
      rw [← ih hu, unescapeToken, hslash, replacePair, if_pos (by decide)]
      rfl
  | case5 cs hne ih =>
      rw [decodeToken, if_pos rfl, if_neg hne, if_pos rfl, Option.map_eq_some_iff] at h
      obtain ⟨u, hu, rfl⟩ := h
      have hslash : replacePair '1' '/' ('~' :: '1' :: cs) = '/' :: replacePair '1' '/' cs := by
        rw [replacePair, if_pos (by decide)]
      rw [← ih hu, unescapeToken, hslash, replacePair_cons_of_ne (by decide)]
      rfl
  | case6 d cs h0 h1 =>
      rw [decodeToken, if_pos rfl, if_neg h0, if_neg h1] at h
      cases h
  | case7 c d cs hc ih =>
      rw [decodeToken, if_neg hc, Option.map_eq_some_iff] at h
      obtain ⟨u, hu, rfl⟩ := h
      rw [← ih hu, unescapeToken, replacePair_cons_of_ne hc, replacePair_cons_of_ne hc]
      rfl

/-! ## Pointers -/

theorem splitSlash_of_notMem {r : Str} (h : '/' ∉ r) : splitSlash r = [r] := by
  induction r with
  | nil => rfl
  | cons c r ih =>
      rw [List.mem_cons, not_or] at h
      rw [splitSlash, if_neg (Ne.symm h.1), ih h.2]

theorem splitSlash_ne_nil (p : Str) : splitSlash p ≠ [] := by
  cases p with
  | nil => simp [splitSlash]
  | cons c p =>
      rw [splitSlash]
      split
      · simp
      · split
        · simp
        · simp

theorem splitSlash_append (p : Str) {r : Str} (h : '/' ∉ r) :
    splitSlash (p ++ '/' :: r) = splitSlash p ++ [r] := by
  induction p with
  | nil =>
      change [] :: splitSlash r = [] :: [r]
      rw [splitSlash_of_notMem h]
  | cons c p ih =>
      rw [List.cons_append, splitSlash, splitSlash, ih]
      by_cases hc : c = '/'
      · rw [if_pos hc, if_pos hc]
        rfl
      · rw [if_neg hc, if_neg hc]
        cases hp : splitSlash p with
        | nil => exact absurd hp (splitSlash_ne_nil p)
        | cons q qs => rfl

theorem splitPointer_append (parent : Str) {raw : Str} (h : '/' ∉ raw) :
    splitPointer (parent ++ '/' :: raw) = (parent, unescapeToken raw) := by
  have hrev : (parent ++ '/' :: raw).reverse = raw.reverse ++ '/' :: parent.reverse := by simp
  rw [splitPointer, hrev, splitOnce_append (fun hmem => h (List.mem_reverse.mp hmem))]
  simp

/-- A valid pointer is empty, or a valid pointer to a parent and a last token. -/
theorem parsePointer_cases {path : Str} {tokens : List Str}
    (h : parsePointer path = some tokens) :
    (path = [] ∧ tokens = []) ∨ ∃ parent raw parents token, path = parent ++ '/' :: raw ∧
      '/' ∉ raw ∧ parsePointer parent = some parents ∧ decodeToken raw = some token ∧
        tokens = parents ++ [token] := by
  cases path with
  | nil =>
      cases h
      exact Or.inl ⟨rfl, rfl⟩
  | cons c cs =>
      rw [parsePointer, if_neg (by simp)] at h
      split at h
      · rename_i hstart
        have hc : c = '/' := by
          rw [startsWith, List.isPrefixOf_iff_prefix, List.cons_prefix_cons] at hstart
          exact hstart.1.symm
        obtain ⟨parent, raw, hpath, hraw⟩ : ∃ p r, c :: cs = p ++ '/' :: r ∧ '/' ∉ r :=
          exists_last_mem (by simp [hc])
        rw [hpath, splitSlash_append _ hraw, List.tail_append_of_ne_nil (splitSlash_ne_nil _),
          List.mapM_append] at h
        obtain ⟨parents, hparents, h⟩ := Option.bind_eq_some_iff.mp h
        obtain ⟨last, hlast, h⟩ := Option.bind_eq_some_iff.mp h
        cases h
        rw [List.mapM_cons, List.mapM_nil] at hlast
        obtain ⟨token, htoken, hlast⟩ := Option.bind_eq_some_iff.mp hlast
        cases hlast
        refine Or.inr ⟨parent, raw, parents, token, hpath, hraw, ?_, htoken, rfl⟩
        cases parent with
        | nil =>
            rw [splitSlash] at hparents
            exact hparents
        | cons d ds =>
            have hd : d = '/' := by
              rw [← (List.cons.inj hpath).1, hc]
            have hslash : startsWith ['/'] (d :: ds) = true := by
              simp [hd, startsWith, List.isPrefixOf]
            rw [parsePointer, if_neg (by simp), if_pos hslash]
            exact hparents
      · cases h

/-- The library splits a valid pointer into the same tokens. -/
theorem pointerTokens_of_parsePointer {path : Str} {tokens : List Str}
    (h : parsePointer path = some tokens) : pointerTokens path = some tokens := by
  rw [parsePointer] at h
  rw [pointerTokens]
  split at h
  · rename_i hempty
    rw [if_pos hempty]
    exact h
  · rename_i hempty
    rw [if_neg hempty]
    split at h
    · rename_i hstart
      rw [if_pos hstart]
      have hmap (raws : List Str) {ts : List Str} (hts : raws.mapM decodeToken = some ts) :
          raws.map unescapeToken = ts := by
        induction raws generalizing ts with
        | nil =>
            cases hts
            rfl
        | cons raw raws ih =>
            rw [List.mapM_cons] at hts
            obtain ⟨token, htoken, hts⟩ := Option.bind_eq_some_iff.mp hts
            obtain ⟨rest, hrest, hts⟩ := Option.bind_eq_some_iff.mp hts
            cases hts
            rw [List.map_cons, unescapeToken_of_decodeToken htoken, ih hrest]
      rw [hmap _ h]
    · cases h

/-! ## Indices -/

/-- A row of digits is read as its value. -/
theorem parseUsize_digits {s : Str} (hne : s ≠ []) (h : s.all isDigit = true) :
    parseUsize s = if digitsValue s < 2 ^ 64 then some (digitsValue s) else none := by
  have hstrip : stripPrefix ['+'] s = none := by
    cases s with
    | nil => exact absurd rfl hne
    | cons c cs =>
        rw [stripPrefix_singleton_cons, if_neg]
        rintro rfl
        rw [List.all_cons, Bool.and_eq_true] at h
        exact absurd h.1 (by decide)
  have hempty : s.isEmpty = false := by simpa using hne
  rw [parseUsize, hstrip, Option.getD_none, hempty, h]
  rfl

theorem parseUsize_of_arrayIndex {s : Str} {i : Nat} (h : arrayIndex s = some i) :
    parseUsize s = some i := by
  cases s with
  | nil => cases h
  | cons c cs =>
      rw [arrayIndex] at h
      split at h
      · rename_i hcanonical
        rw [Bool.and_eq_true, Bool.and_eq_true, decide_eq_true_eq] at hcanonical
        obtain ⟨⟨hdigits, -⟩, hfits⟩ := hcanonical
        rw [parseUsize_digits (by simp) hdigits, if_pos hfits]
        exact h
      · cases h

/-- The library takes the indices of RFC 6901. -/
theorem parseIndex_eq (s : Str) : parseIndex s = arrayIndex s := by
  cases s with
  | nil => rfl
  | cons c cs =>
      have hplus : startsWith ['+'] (c :: cs) = decide (c = '+') := by
        simp [startsWith, List.isPrefixOf, eq_comm, Bool.beq_eq_decide_eq]
      have hzero : startsWith ['0'] (c :: cs) = decide (c = '0') := by
        simp [startsWith, List.isPrefixOf, eq_comm, Bool.beq_eq_decide_eq]
      rw [parseIndex, arrayIndex, hplus, hzero]
      by_cases hsign : c = '+'
      · have hdigit : isDigit '+' = false := by decide
        simp [hsign, hdigit]
      · cases hdigits : (c :: cs).all isDigit with
        | false =>
            have hnone : parseUsize (c :: cs) = none := by
              rw [parseUsize, stripPrefix_singleton_cons, if_neg hsign, Option.getD_none, hdigits]
              rfl
            rw [hnone]
            simp
        | true =>
            rw [parseUsize_digits (by simp) hdigits]
            by_cases hc : c = '0'
            · cases cs with
              | nil => simp [hc, digitsValue]
              | cons d ds => simp [hc]
            · simp [hsign, hc]

theorem child_eq (token : Str) (v : Json) : child token v = descend token v := by
  cases v with
  | array a => rw [child, descend, parseIndex_eq]
  | null | bool | number | string | object => rfl

theorem setChild_eq (token : Str) (v w : Json) : setChild token v w = put token v w := by
  cases w with
  | array a => rw [setChild, put, parseIndex_eq]
  | null | bool | number | string | object => rfl

theorem jsonPointerGet_eq {path : Str} {tokens : List Str} (h : parsePointer path = some tokens)
    (doc : Json) : jsonPointerGet doc path = valueAt tokens doc := by
  have hfold (ts : List Str) (v : Json) :
      ts.foldlM (fun v token => child token v) v = valueAt ts v := by
    induction ts generalizing v with
    | nil => rfl
    | cons t ts ih =>
        rw [List.foldlM_cons, valueAt, child_eq]
        exact congrArg (Option.bind (descend t v)) (funext ih)
  rw [jsonPointerGet, pointer, pointerTokens_of_parsePointer h]
  split
  · rename_i hempty
    rw [parsePointer, if_pos hempty] at h
    cases h
    rfl
  · exact hfold tokens doc

theorem toOption_modifyAt (missing : PodError) (f : Json → Except PodError Json)
    (tokens : List Str) (doc : Json) :
    (modifyAt missing f tokens doc).toOption = modify (fun v => (f v).toOption) tokens doc := by
  induction tokens generalizing doc with
  | nil => rfl
  | cons t ts ih =>
      rw [modifyAt, modify, ← child_eq]
      cases child t doc with
      | none => rfl
      | some w =>
          rw [Option.bind_some, ← ih w]
          change (Except.map (fun w' => setChild t w' doc) (modifyAt missing f ts w)).toOption = _
          cases modifyAt missing f ts w with
          | error e => rfl
          | ok w' => exact congrArg some (setChild_eq t w' doc)

/-! ## The patcher at the last token -/

/-- What the patcher makes of the parent when it sets a member. -/
def setMember (addMode : Bool) (token : Str) (value : Json) : Json → Option Json
  | .object m =>
    if !addMode && (Json.member token m).isNone then none
    else some (.object (Json.insertMember token value m))
  | .array a =>
    if token == "-" then some (.array (a ++ [value]))
    else (parseUsize token).bind fun i =>
      if addMode then
        if i ≤ a.length then some (.array (a.insertIdx i value)) else none
      else if i < a.length then some (.array (a.set i value)) else none
  | _ => none

/-- What the patcher makes of the parent when it removes a member. -/
def dropMember (token : Str) : Json → Option Json
  | .object m => (Json.member token m).map fun _ => .object (Json.removeMember token m)
  | .array a => (parseUsize token).bind fun i =>
      if i < a.length then some (.array (a.eraseIdx i)) else none
  | _ => none

theorem toOption_modifyPointer {path : Str} {tokens : List Str}
    (h : parsePointer path = some tokens) (doc : Json) (missing : PodError)
    (f : Json → Except PodError Json) :
    (modifyPointer doc path missing f).toOption = modify (fun v => (f v).toOption) tokens doc := by
  rw [modifyPointer, pointerTokens_of_parsePointer h]
  exact toOption_modifyAt missing f tokens doc

theorem isEmpty_append_slash (parent raw : Str) : (parent ++ '/' :: raw).isEmpty = false := by
  simp

theorem toOption_jsonPointerSet {path : Str} {tokens : List Str}
    (h : parsePointer path = some tokens) (doc value : Json) (addMode : Bool) :
    (jsonPointerSet doc path value addMode).toOption =
      match tokens.getLast? with
      | none => some value
      | some token => modify (setMember addMode token value) tokens.dropLast doc := by
  rcases parsePointer_cases h with ⟨rfl, rfl⟩ | ⟨parent, raw, parents, token, rfl, hraw, hparent,
    htoken, rfl⟩
  · rfl
  · rw [jsonPointerSet, isEmpty_append_slash, if_neg (by simp), splitPointer_append parent hraw,
      unescapeToken_of_decodeToken htoken, List.getLast?_concat, List.dropLast_concat]
    simp only []
    rw [toOption_modifyPointer hparent]
    congr 1
    funext v
    cases v with
    | object m =>
        simp only [setMember]
        split <;> rfl
    | array a =>
        simp only [setMember]
        split
        · rfl
        · cases parseUsize token with
          | none => rfl
          | some i =>
              simp only [Option.bind_some]
              cases addMode with
              | true =>
                  by_cases hi : i ≤ a.length
                  · simp [hi, not_lt.mpr hi, Except.toOption]
                  · simp [hi, not_le.mp hi, Except.toOption]
              | false =>
                  by_cases hi : i < a.length
                  · simp [hi, not_le.mpr hi, Except.toOption]
                  · simp [hi, not_lt.mp hi, Except.toOption]
    | null | bool | number | string => rfl

theorem toOption_jsonPointerRemove {path : Str} {tokens : List Str}
    (h : parsePointer path = some tokens) (doc : Json) :
    (jsonPointerRemove doc path).toOption =
      match tokens.getLast? with
      | none => none
      | some token => modify (dropMember token) tokens.dropLast doc := by
  rcases parsePointer_cases h with ⟨rfl, rfl⟩ | ⟨parent, raw, parents, token, rfl, hraw, hparent,
    htoken, rfl⟩
  · rfl
  · rw [jsonPointerRemove, isEmpty_append_slash, if_neg (by simp), splitPointer_append parent hraw,
      unescapeToken_of_decodeToken htoken, List.getLast?_concat, List.dropLast_concat]
    simp only []
    rw [toOption_modifyPointer hparent]
    congr 1
    funext v
    cases v with
    | object m =>
        simp only [dropMember]
        cases Json.member token m with
        | none => rfl
        | some w => rfl
    | array a =>
        simp only [dropMember]
        cases parseUsize token with
        | none => rfl
        | some i =>
            simp only [Option.bind_some]
            by_cases hi : i < a.length
            · simp [hi, not_le.mpr hi, Except.toOption]
            · simp [hi, not_lt.mp hi, Except.toOption]
    | null | bool | number | string => rfl

/-! ## Where the last token is misread -/

/-- A number in range that is not the form of an index: it has a sign or leading
zeros. -/
def LooseIndex (token : Str) (bound : Nat) : Prop :=
  arrayIndex token = none ∧ ∃ i, parseUsize token = some i ∧ i < bound

/-- The location is in an array, and its last token is bad for that array. -/
def BadAt (bad : Str → List Json → Prop) (tokens : List Str) (doc : Json) : Prop :=
  ∃ parents token a, tokens = parents ++ [token] ∧ valueAt parents doc = some (.array a) ∧
    bad token a

def BadAdd (token : Str) (a : List Json) : Prop := LooseIndex token (a.length + 1)

def BadRemove (token : Str) (a : List Json) : Prop := LooseIndex token a.length

/-- To replace the place after the last element is to append. -/
def BadReplace (token : Str) (a : List Json) : Prop := token = "-" ∨ LooseIndex token a.length

theorem modify_congr {f g : Json → Option Json} {tokens : List Str} {doc : Json}
    (h : ∀ w, valueAt tokens doc = some w → f w = g w) :
    modify f tokens doc = modify g tokens doc := by
  induction tokens generalizing doc with
  | nil => exact h doc rfl
  | cons t ts ih =>
      rw [modify, modify]
      cases hd : descend t doc with
      | none => rfl
      | some w =>
          rw [Option.bind_some, Option.bind_some, ih]
          intro u hu
          refine h u ?_
          rw [valueAt, hd, Option.bind_some, hu]

theorem isSome_modify {f : Json → Option Json} {tokens : List Str} {doc w : Json}
    (h : valueAt tokens doc = some w) : (modify f tokens doc).isSome = (f w).isSome := by
  induction tokens generalizing doc with
  | nil =>
      cases h
      rfl
  | cons t ts ih =>
      rw [valueAt] at h
      obtain ⟨u, hu, h⟩ := Option.bind_eq_some_iff.mp h
      rw [modify, hu, Option.bind_some, Option.isSome_map, ih h]

/-- Two ways to treat the last token that differ on the bad ones differ on the
locations that end in one. -/
theorem modify_badAt {f g : Str → Json → Option Json} {bad : Str → List Json → Prop}
    (hgood : ∀ t w, (∀ a, w = .array a → ¬bad t a) → f t w = g t w)
    (hbad : ∀ t a, bad t a → (f t (.array a)).isSome ∧ g t (.array a) = none)
    (parents : List Str) (token : Str) (doc : Json) :
    (BadAt bad (parents ++ [token]) doc →
        (modify (f token) parents doc).isSome ∧ modify (g token) parents doc = none) ∧
      (¬BadAt bad (parents ++ [token]) doc →
        modify (f token) parents doc = modify (g token) parents doc) := by
  constructor
  · rintro ⟨parents', token', a, heq, hvalue, hb⟩
    obtain ⟨rfl, rfl⟩ := List.append_singleton_inj.mp heq
    obtain ⟨hf, hg⟩ := hbad token a hb
    constructor
    · rw [isSome_modify hvalue, hf]
    · rw [← Option.not_isSome_iff_eq_none, isSome_modify hvalue, hg]
      simp
  · intro hnot
    refine modify_congr ?_
    intro w hw
    refine hgood token w ?_
    rintro a rfl hb
    exact hnot ⟨parents, token, a, rfl, hw, hb⟩

theorem parseUsize_dash : parseUsize "-" = none ∧ arrayIndex "-" = none := by decide

/-- A token that is an index of neither kind in range leads nowhere. -/
theorem bind_parseUsize_of_not_loose {α : Type*} {token : Str} {bound : Nat}
    (h : ¬LooseIndex token bound) {f : Nat → Option α} (hf : ∀ i, bound ≤ i → f i = none) :
    (parseUsize token).bind f = (arrayIndex token).bind f := by
  cases hindex : arrayIndex token with
  | some i => rw [parseUsize_of_arrayIndex hindex]
  | none =>
      cases hparse : parseUsize token with
      | none => rfl
      | some i =>
          rw [Option.bind_some, Option.bind_none]
          refine hf i ?_
          by_contra hi
          exact h ⟨hindex, i, hparse, not_le.mp hi⟩

theorem setMember_true_agrees (value : Json) :
    (∀ t w, (∀ a, w = .array a → ¬BadAdd t a) → setMember true t value w = addMember t value w) ∧
      ∀ t a, BadAdd t a →
        (setMember true t value (.array a)).isSome ∧ addMember t value (.array a) = none := by
  constructor
  · intro t w hgood
    cases w with
    | array a =>
        rw [setMember, addMember]
        split
        · rfl
        · refine bind_parseUsize_of_not_loose (hgood a rfl) ?_
          intro i hi
          rw [if_pos rfl, if_neg (by omega)]
    | null | bool | number | string | object => rfl
  · rintro t a ⟨hindex, i, hparse, hi⟩
    have hdash : (t == "-") = false := by
      rw [beq_eq_false_iff_ne]
      rintro rfl
      rw [parseUsize_dash.1] at hparse
      cases hparse
    have hle : i ≤ a.length := by omega
    constructor
    · rw [setMember, hdash, hparse]
      simp [hle]
    · rw [addMember, hdash, hindex]
      rfl

/-- What replacing does to the parent. -/
def replaceMember (token : Str) (value parent : Json) : Option Json :=
  (descend token parent).map fun _ => put token value parent

theorem setMember_false_agrees (value : Json) :
    (∀ t w, (∀ a, w = .array a → ¬BadReplace t a) →
        setMember false t value w = replaceMember t value w) ∧
      ∀ t a, BadReplace t a →
        (setMember false t value (.array a)).isSome ∧ replaceMember t value (.array a) = none := by
  constructor
  · intro t w hgood
    cases w with
    | array a =>
        have hnot := hgood a rfl
        rw [BadReplace, not_or] at hnot
        have hdash : (t == "-") = false := by
          rw [beq_eq_false_iff_ne]
          exact hnot.1
        have hset : setMember false t value (.array a) = (parseUsize t).bind fun i =>
            if i < a.length then some (.array (a.set i value)) else none := by
          rw [setMember, hdash]
          rfl
        rw [hset, bind_parseUsize_of_not_loose hnot.2 (fun i hi => if_neg (not_lt.mpr hi)),
          replaceMember, descend, put]
        cases arrayIndex t with
        | none => rfl
        | some i =>
            rw [Option.bind_some, Option.bind_some, Option.map_some, Option.getD_some]
            by_cases hi : i < a.length
            · simp [hi]
            · simp [hi]
    | object m =>
        simp only [setMember, replaceMember, descend, put]
        cases Json.member t m with
        | none => rfl
        | some v => rfl
    | null | bool | number | string => rfl
  · intro t a hbad
    have hindex : arrayIndex t = none := by
      rcases hbad with rfl | hloose
      · exact parseUsize_dash.2
      · exact hloose.1
    constructor
    · rw [setMember]
      split
      · rfl
      · rename_i hdash
        rcases hbad with rfl | ⟨-, i, hparse, hi⟩
        · exact absurd rfl hdash
        · rw [hparse]
          simp [hi]
    · rw [replaceMember, descend, hindex]
      rfl

theorem dropMember_agrees :
    (∀ t w, (∀ a, w = .array a → ¬BadRemove t a) → dropMember t w = removeMember t w) ∧
      ∀ t a, BadRemove t a →
        (dropMember t (.array a)).isSome ∧ removeMember t (.array a) = none := by
  constructor
  · intro t w hgood
    cases w with
    | array a =>
        exact bind_parseUsize_of_not_loose (hgood a rfl) fun i hi => if_neg (not_lt.mpr hi)
    | null | bool | number | string | object => rfl
  · rintro t a ⟨hindex, i, hparse, hi⟩
    constructor
    · rw [dropMember, hparse]
      simp [hi]
    · rw [removeMember, hindex]
      rfl

theorem modify_concat (f : Json → Option Json) (parents : List Str) (token : Str) (doc : Json) :
    modify f (parents ++ [token]) doc =
      modify (fun w => (descend token w).bind fun u => (f u).map fun u' => put token u' w)
        parents doc := by
  induction parents generalizing doc with
  | nil => rfl
  | cons t ts ih =>
      rw [List.cons_append, modify, modify]
      exact congrArg (Option.bind (descend t doc)) (funext fun w => by rw [ih])

theorem valueAt_concat (parents : List Str) (token : Str) (doc : Json) :
    valueAt (parents ++ [token]) doc = (valueAt parents doc).bind (descend token) := by
  induction parents generalizing doc with
  | nil =>
      rw [List.nil_append, valueAt, valueAt, Option.bind_some]
      cases descend token doc <;> rfl
  | cons t ts ih =>
      rw [List.cons_append, valueAt, valueAt, Option.bind_assoc]
      exact congrArg (Option.bind (descend t doc)) (funext ih)

/-! ## Locations -/

theorem eq_nil_or_concat_of_parsePointer {path : Str} {tokens : List Str}
    (h : parsePointer path = some tokens) :
    (tokens = [] ∧ path = []) ∨ ∃ parents token, tokens = parents ++ [token] := by
  rcases parsePointer_cases h with ⟨rfl, rfl⟩ | ⟨_, _, parents, token, _, _, _, _, rfl⟩
  · exact Or.inl ⟨rfl, rfl⟩
  · exact Or.inr ⟨parents, token, rfl⟩

theorem not_badAt_nil (bad : Str → List Json → Prop) (doc : Json) : ¬BadAt bad [] doc := by
  rintro ⟨parents, token, a, h, -⟩
  simp at h

/-- Adding goes wrong exactly where the last token is misread. -/
theorem jsonPointerSet_true_spec {path : Str} {tokens : List Str}
    (h : parsePointer path = some tokens) (doc value : Json) :
    (BadAt BadAdd tokens doc → (jsonPointerSet doc path value true).toOption.isSome ∧
        addAt tokens value doc = none) ∧
      (¬BadAt BadAdd tokens doc →
        (jsonPointerSet doc path value true).toOption = addAt tokens value doc) := by
  rw [toOption_jsonPointerSet h, addAt]
  rcases eq_nil_or_concat_of_parsePointer h with ⟨rfl, rfl⟩ | ⟨parents, token, rfl⟩
  · exact ⟨fun hbad => absurd hbad (not_badAt_nil _ _), fun _ => rfl⟩
  · rw [List.getLast?_concat, List.dropLast_concat]
    obtain ⟨hgood, hbad⟩ := setMember_true_agrees value
    exact modify_badAt (fun t w => hgood t w) hbad parents token doc

theorem jsonPointerSet_false_spec {path : Str} {tokens : List Str}
    (h : parsePointer path = some tokens) (doc value : Json) :
    (BadAt BadReplace tokens doc → (jsonPointerSet doc path value false).toOption.isSome ∧
        replaceAt tokens value doc = none) ∧
      (¬BadAt BadReplace tokens doc →
        (jsonPointerSet doc path value false).toOption = replaceAt tokens value doc) := by
  rw [toOption_jsonPointerSet h, replaceAt]
  rcases eq_nil_or_concat_of_parsePointer h with ⟨rfl, rfl⟩ | ⟨parents, token, rfl⟩
  · exact ⟨fun hbad => absurd hbad (not_badAt_nil _ _), fun _ => rfl⟩
  · rw [List.getLast?_concat, List.dropLast_concat, modify_concat]
    obtain ⟨hgood, hbad⟩ := setMember_false_agrees value
    have hreplace : (fun w => (descend token w).bind fun _ =>
        (some value).map fun u' => put token u' w) = replaceMember token value := by
      funext w
      rw [replaceMember]
      cases descend token w <;> rfl
    rw [hreplace]
    exact modify_badAt (fun t w => hgood t w) hbad parents token doc

theorem jsonPointerRemove_spec {path : Str} {tokens : List Str}
    (h : parsePointer path = some tokens) (doc : Json) :
    (BadAt BadRemove tokens doc → (jsonPointerRemove doc path).toOption.isSome ∧
        removeAt tokens doc = none) ∧
      (¬BadAt BadRemove tokens doc →
        (jsonPointerRemove doc path).toOption = removeAt tokens doc) := by
  rw [toOption_jsonPointerRemove h, removeAt]
  rcases eq_nil_or_concat_of_parsePointer h with ⟨rfl, rfl⟩ | ⟨parents, token, rfl⟩
  · exact ⟨fun hbad => absurd hbad (not_badAt_nil _ _), fun _ => rfl⟩
  · rw [List.getLast?_concat, List.dropLast_concat]
    exact modify_badAt dropMember_agrees.1 dropMember_agrees.2 parents token doc

/-- A location that leads to a value does not end in a bad token. -/
theorem not_badRemove_of_valueAt {tokens : List Str} {doc v : Json}
    (h : valueAt tokens doc = some v) : ¬BadAt BadRemove tokens doc := by
  rintro ⟨parents, token, a, rfl, hvalue, hindex, -⟩
  rw [valueAt_concat, hvalue, Option.bind_some, descend, hindex] at h
  cases h

/-! ## Operations -/

/-- The document that the patcher makes with an operation, if it makes one. -/
def Operation.patched (doc : Json) : Operation → Option Json
  | .add path value => (jsonPointerSet doc path value true).toOption
  | .remove path => (jsonPointerRemove doc path).toOption
  | .replace path value => (jsonPointerSet doc path value false).toOption
  | .move src path => (jsonPointerGet doc src).bind fun value =>
      (jsonPointerRemove doc src).toOption.bind fun doc =>
        (jsonPointerSet doc path value true).toOption
  | .copy src path => (jsonPointerGet doc src).bind fun value =>
      (jsonPointerSet doc path value true).toOption
  | .test path value => (jsonPointerGet doc path).bind fun actual =>
      if actual = value then some doc else none

theorem toOption_required_bind {α : Type} (o : Option α) (e : PodError)
    (f : α → Except PodError Json) :
    (required o e >>= f).toOption = o.bind fun a => (f a).toOption := by
  cases o with
  | none => rfl
  | some a => rfl

theorem toOption_bind (x : Except PodError Json) (f : Json → Except PodError Json) :
    (x >>= f).toOption = x.toOption.bind fun a => (f a).toOption := by
  cases x with
  | error e => rfl
  | ok a => rfl

/-- The patcher runs the operation that an element of a patch is. -/
theorem toOption_applyJsonPatchOp (doc op : Json) :
    (applyJsonPatchOp doc op).toOption = (readOperation op).bind (Operation.patched doc) := by
  rw [applyJsonPatchOp, readOperation, toOption_required_bind]
  cases hname : (getKey op "op").bind asStr with
  | none => rfl
  | some name =>
      rw [Option.bind_some, toOption_required_bind]
      cases hpath : (getKey op "path").bind asStr with
      | none => rfl
      | some path =>
          rw [Option.bind_some]
          change _ = Option.bind (if name == "add" then _ else _) _
          by_cases hadd : (name == "add") = true
          · rw [if_pos hadd, if_pos hadd, toOption_required_bind]
            cases getKey op "value" <;> rfl
          rw [if_neg hadd, if_neg hadd]
          by_cases hreplace : (name == "replace") = true
          · rw [if_pos hreplace, if_pos hreplace, toOption_required_bind]
            cases getKey op "value" <;> rfl
          rw [if_neg hreplace, if_neg hreplace]
          by_cases hremove : (name == "remove") = true
          · rw [if_pos hremove, if_pos hremove]
            rfl
          rw [if_neg hremove, if_neg hremove]
          by_cases htest : (name == "test") = true
          · rw [if_pos htest, if_pos htest, toOption_required_bind]
            cases getKey op "value" with
            | none => rfl
            | some value =>
                rw [Option.bind_some, toOption_required_bind]
                refine congrArg (Option.bind _) (funext fun actual => ?_)
                split <;> rfl
          rw [if_neg htest, if_neg htest]
          by_cases hcopy : (name == "copy") = true
          · rw [if_pos hcopy, if_pos hcopy, toOption_required_bind]
            cases (getKey op "from").bind asStr with
            | none => rfl
            | some src =>
                rw [Option.bind_some, toOption_required_bind]
                rfl
          rw [if_neg hcopy, if_neg hcopy]
          by_cases hmove : (name == "move") = true
          · rw [if_pos hmove, if_pos hmove, toOption_required_bind]
            cases (getKey op "from").bind asStr with
            | none => rfl
            | some src =>
                rw [Option.bind_some, toOption_required_bind]
                refine congrArg (Option.bind _) (funext fun value => ?_)
                rw [toOption_bind]
          rw [if_neg hmove, if_neg hmove]
          rfl

/-- The step goes wrong: the last token of a location is misread, a value is
moved into what takes its place, or numbers that are equal are told apart. -/
def Operation.Misread (doc : Json) : Operation → Prop
  | .add path _ => ∃ tokens, parsePointer path = some tokens ∧ BadAt BadAdd tokens doc
  | .remove path => ∃ tokens, parsePointer path = some tokens ∧ BadAt BadRemove tokens doc
  | .replace path _ => ∃ tokens, parsePointer path = some tokens ∧ BadAt BadReplace tokens doc
  | .move src path => ∃ source tokens value rest, parsePointer src = some source ∧
      parsePointer path = some tokens ∧ valueAt source doc = some value ∧
        removeAt source doc = some rest ∧
          (BadAt BadAdd tokens rest ∨ (Inside source tokens ∧ (addAt tokens value rest).isSome))
  | .copy src path => ∃ source tokens value, parsePointer src = some source ∧
      parsePointer path = some tokens ∧ valueAt source doc = some value ∧ BadAt BadAdd tokens doc
  | .test path value => ∃ tokens actual, parsePointer path = some tokens ∧
      valueAt tokens doc = some actual ∧ actual ≠ value ∧ Same actual value

theorem jsonPointerSet_true_eq_iff {path : Str} {tokens : List Str}
    (h : parsePointer path = some tokens) (doc value : Json) :
    (jsonPointerSet doc path value true).toOption = addAt tokens value doc ↔
      ¬BadAt BadAdd tokens doc := by
  obtain ⟨hbad, hgood⟩ := jsonPointerSet_true_spec h doc value
  constructor
  · intro heq hb
    obtain ⟨hsome, hnone⟩ := hbad hb
    rw [heq, hnone] at hsome
    cases hsome
  · exact hgood

/-- A step is made as it should be exactly when it is not misread. -/
theorem patched_eq_evaluate_iff {o : Operation}
    (hvalid : ∀ p ∈ o.paths, (parsePointer p).isSome) (doc : Json) :
    o.patched doc = o.evaluate doc ↔ ¬o.Misread doc := by
  cases o with
  | add path value =>
      obtain ⟨tokens, h⟩ := Option.isSome_iff_exists.mp (hvalid path (by simp [Operation.paths]))
      have hiff := jsonPointerSet_true_eq_iff h doc value
      simp only [Operation.patched, Operation.evaluate, Operation.Misread, h, Option.some.injEq,
        exists_eq_left', bind, Option.bind_some]
      exact hiff
  | remove path =>
      obtain ⟨tokens, h⟩ := Option.isSome_iff_exists.mp (hvalid path (by simp [Operation.paths]))
      obtain ⟨hbad, hgood⟩ := jsonPointerRemove_spec h doc
      simp only [Operation.patched, Operation.evaluate, Operation.Misread, h, Option.some.injEq,
        exists_eq_left', bind, Option.bind_some]
      refine ⟨fun heq hb => ?_, hgood⟩
      obtain ⟨hsome, hnone⟩ := hbad hb
      rw [heq, hnone] at hsome
      cases hsome
  | replace path value =>
      obtain ⟨tokens, h⟩ := Option.isSome_iff_exists.mp (hvalid path (by simp [Operation.paths]))
      obtain ⟨hbad, hgood⟩ := jsonPointerSet_false_spec h doc value
      simp only [Operation.patched, Operation.evaluate, Operation.Misread, h, Option.some.injEq,
        exists_eq_left', bind, Option.bind_some]
      refine ⟨fun heq hb => ?_, hgood⟩
      obtain ⟨hsome, hnone⟩ := hbad hb
      rw [heq, hnone] at hsome
      cases hsome
  | move src path =>
      obtain ⟨source, hs⟩ := Option.isSome_iff_exists.mp (hvalid src (by simp [Operation.paths]))
      obtain ⟨tokens, ht⟩ := Option.isSome_iff_exists.mp (hvalid path (by simp [Operation.paths]))
      simp only [Operation.patched, Operation.evaluate, Operation.Misread, hs, ht,
        Option.some.injEq, exists_and_left, exists_eq_left', bind, Option.bind_some,
        jsonPointerGet_eq hs]
      cases hvalue : valueAt source doc with
      | none => simp
      | some value =>
          obtain ⟨-, hremove⟩ := jsonPointerRemove_spec hs doc
          rw [Option.bind_some, hremove (not_badRemove_of_valueAt hvalue)]
          cases hrest : removeAt source doc with
          | none => simp
          | some rest =>
              obtain ⟨hbad, hgood⟩ := jsonPointerSet_true_spec ht rest value
              rw [Option.bind_some]
              by_cases hinside : Inside source tokens
              · -- nothing may be moved into itself, so the patcher has to fail as well
                simp only [hinside, true_and, Option.some.injEq, exists_eq_left']
                constructor
                · rintro hnone (hb | hadds)
                  · rw [hnone] at hbad
                    cases (hbad hb).1
                  · by_cases hb : BadAt BadAdd tokens rest
                    · rw [hnone] at hbad
                      cases (hbad hb).1
                    · rw [← hgood hb, hnone] at hadds
                      cases hadds
                · intro hnot
                  rw [not_or] at hnot
                  rw [hgood hnot.1]
                  simpa using hnot.2
              · simp only [hinside, false_and, or_false, Option.some.injEq, exists_eq_left',
                  Option.bind_some]
                exact jsonPointerSet_true_eq_iff ht rest value
  | copy src path =>
      obtain ⟨source, hs⟩ := Option.isSome_iff_exists.mp (hvalid src (by simp [Operation.paths]))
      obtain ⟨tokens, ht⟩ := Option.isSome_iff_exists.mp (hvalid path (by simp [Operation.paths]))
      simp only [Operation.patched, Operation.evaluate, Operation.Misread, hs, ht,
        Option.some.injEq, exists_and_left, exists_eq_left', bind, Option.bind_some,
        jsonPointerGet_eq hs]
      cases hvalue : valueAt source doc with
      | none => simp
      | some value =>
          rw [Option.bind_some, Option.bind_some, jsonPointerSet_true_eq_iff ht]
          simp
  | test path value =>
      obtain ⟨tokens, h⟩ := Option.isSome_iff_exists.mp (hvalid path (by simp [Operation.paths]))
      simp only [Operation.patched, Operation.evaluate, Operation.Misread, h, Option.some.injEq,
        exists_and_left, exists_eq_left', bind, Option.bind_some, jsonPointerGet_eq h]
      cases hactual : valueAt tokens doc with
      | none => simp
      | some actual =>
          rw [Option.bind_some, Option.bind_some]
          by_cases heq : actual = value
          · have hsame : Same actual value := by rw [heq, Same]
            rw [if_pos heq, if_pos hsame]
            simp [heq]
          · by_cases hsame : Same actual value
            · simp [heq, hsame]
            · simp [heq, hsame]

/-! ## Patches -/

/-- The patcher succeeds exactly when the evaluation does, and with its document. -/
def Conforms (doc : Json) (ops : List Json) : Prop :=
  (applyJsonPatch doc (.array ops)).toOption = evaluate doc ops

/-- No operation of the evaluation is misread at its turn. -/
def NeverMisread : Json → List Json → Prop
  | _, [] => True
  | doc, op :: ops => (∀ o, readOperation op = some o → ¬o.Misread doc) ∧
      ∀ next, (readOperation op).bind (Operation.evaluate doc) = some next → NeverMisread next ops

/-- The pointers of the patch are valid. -/
def ValidPaths (ops : List Json) : Prop :=
  ∀ op ∈ ops, ∀ o, readOperation op = some o → ∀ p ∈ o.paths, (parsePointer p).isSome

theorem toOption_foldlM {σ α ε : Type} (f : σ → α → Except ε σ) (l : List α) (s : σ) :
    (l.foldlM f s).toOption = l.foldlM (fun s a => (f s a).toOption) s := by
  induction l generalizing s with
  | nil => rfl
  | cons a l ih =>
      rw [List.foldlM_cons, List.foldlM_cons]
      cases hstep : f s a with
      | error e => rfl
      | ok t => exact ih t

theorem agreeAlong_iff {ops : List Json} (hvalid : ValidPaths ops) (doc : Json) :
    Lockstep.AgreeAlong (fun doc op => (applyJsonPatchOp doc op).toOption)
        (fun doc op => (readOperation op).bind (Operation.evaluate doc)) doc ops ↔
      NeverMisread doc ops := by
  induction ops generalizing doc with
  | nil => exact Iff.rfl
  | cons op ops ih =>
      have hrest (next : Json) :=
        ih (fun op' hmem => hvalid op' (List.mem_cons_of_mem op hmem)) next
      rw [Lockstep.AgreeAlong, NeverMisread, toOption_applyJsonPatchOp]
      refine and_congr ?_ (forall_congr' fun next => imp_congr_right fun _ => hrest next)
      cases hread : readOperation op with
      | none => simp
      | some o =>
          rw [Option.bind_some, Option.bind_some,
            patched_eq_evaluate_iff (hvalid op List.mem_cons_self o hread)]
          simp

/-- The patcher evaluates a patch, and every beginning of it, as RFC 6902 does
exactly when no operation is misread at its turn. -/
theorem forall_conforms_iff {ops : List Json} (hvalid : ValidPaths ops) (doc : Json) :
    (∀ pre, pre <+: ops → Conforms doc pre) ↔ NeverMisread doc ops := by
  rw [← agreeAlong_iff hvalid doc, ← Lockstep.forall_prefix_foldlM_eq_iff]
  refine forall_congr' fun pre => imp_congr_right fun _ => ?_
  rw [Conforms, applyJsonPatch, toOption_foldlM, evaluate]

/-- The operation that replaces what is under a pointer by `null`. -/
def replaceByNull (path : Str) : Json :=
  .object [("op", .string "replace"), ("path", .string path), ("value", .null)]

theorem readOperation_replaceByNull (path : Str) :
    readOperation (replaceByNull path) = some (.replace path .null) := rfl

theorem validPaths_replaceByNull {path : Str} (h : (parsePointer path).isSome) :
    ValidPaths [replaceByNull path] := by
  intro op hop o ho p hp
  rw [List.mem_singleton.mp hop, readOperation_replaceByNull] at ho
  cases ho
  rw [List.mem_singleton.mp hp]
  exact h

theorem forall_conforms_iff_replaceByNull :
    ValidPaths [replaceByNull "/0"] ∧
      ((∀ pre, pre <+: [replaceByNull "/0"] → Conforms (.array [.bool true]) pre) ↔
        NeverMisread (.array [.bool true]) [replaceByNull "/0"]) :=
  ⟨validPaths_replaceByNull (by decide),
    forall_conforms_iff (validPaths_replaceByNull (by decide)) _⟩

/-- To replace the place after the last element appends to the array. -/
theorem replaceByNull_not_conforms :
    ¬∀ (doc : Json) (ops : List Json), ValidPaths ops → Conforms doc ops := by
  intro h
  have hpointer : parsePointer "/-" = some [['-']] := by decide
  have hvalid : ∀ p ∈ (Operation.replace "/-" .null).paths, (parsePointer p).isSome := by
    intro p hp
    rw [List.mem_singleton.mp hp, hpointer]
    rfl
  have hconforms := h (.array [.bool true]) [replaceByNull "/-"]
    (validPaths_replaceByNull (by rw [hpointer]; rfl))
  rw [Conforms, applyJsonPatch, toOption_foldlM, evaluate] at hconforms
  simp only [List.foldlM_cons, List.foldlM_nil, bind_pure, toOption_applyJsonPatchOp,
    readOperation_replaceByNull, Option.bind_some] at hconforms
  rw [patched_eq_evaluate_iff hvalid] at hconforms
  exact hconforms ⟨[['-']], hpointer, [], ['-'], [.bool true], rfl, rfl, Or.inl rfl⟩

end JsonPatch

end Ldp

end SolidPod
