import SolidPod.Error
import SolidPod.Foundation.Fallible
import SolidPod.Foundation.Numerals

/-!
# Byte ranges

The two parsers of the `Range` header and the slice of a body. A range is asked for by its
first and its last byte, by its first byte, or by the number of bytes at the end. Both parsers
read the same ranges; they read a number also where a plus sign stands before it.
-/

namespace SolidPod

open Foundation Str

namespace Ldp

/-- Both ends are part of the range. -/
structure ByteRange where
  start : UInt64
  «end» : UInt64
  deriving DecidableEq

def saturatingSub (a b : UInt64) : UInt64 := if b ≤ a then a - b else 0

namespace ByteRange

def length (r : ByteRange) : UInt64 := saturatingSub r.end r.start + 1

def contentRange (r : ByteRange) (total : UInt64) : Str :=
  "bytes " ++ decimal r.start.toNat ++ "-" ++ decimal r.end.toNat ++ "/" ++ decimal total.toNat

end ByteRange

inductive IntErrorKind where
  | empty
  | invalidDigit
  | posOverflow
  deriving DecidableEq

def IntErrorKind.display : IntErrorKind → Str
  | .empty => "cannot parse integer from empty string"
  | .invalidDigit => "invalid digit found in string"
  | .posOverflow => "number too large to fit in target type"

/-- What is wrong with a text that is no number: the digits at its front may already be too
many. -/
def intErrorKind (s : Str) : IntErrorKind :=
  let digits := ((stripPrefix ['+'] s).getD s).takeWhile Char.isDigit
  if s.isEmpty then .empty
  else if 2 ^ 64 ≤ Nat.ofDigitChars 10 digits 0 then .posOverflow
  else .invalidDigit

def parseU64 (s : Str) : Except IntErrorKind UInt64 :=
  match parseUnsigned 64 s with
  | some n => .ok (UInt64.ofNat n)
  | none => .error (intErrorKind s)

/-- `parseU64`, with what the number is for in the error. -/
def parseFor (what s : Str) : Except PodError UInt64 :=
  (parseU64 s).mapError fun e => .unsupported ("range " ++ what ++ " parse: " ++ e.display)

/-- The end of a range, which is not behind the last byte. -/
def parseEnd (endS : Str) (total : UInt64) : Except PodError UInt64 :=
  if endS.isEmpty then .ok (total - 1)
  else do
    let v ← parseFor "end" endS
    pure (min v (total - 1))

/-- The range between the texts on both sides of the hyphen. -/
def selectRange (startS endS : Str) (total : UInt64) : Except PodError ByteRange :=
  if startS.isEmpty then do
    let suffix ← parseFor "suffix" endS
    if suffix = 0 then .error (.preconditionFailed "zero suffix length")
    else pure ⟨saturatingSub total suffix, total - 1⟩
  else do
    let start ← parseFor "start" startS
    let last ← parseEnd endS total
    if last < start then
      .error (.preconditionFailed
        ("unsatisfiable range: " ++ decimal start.toNat ++ "-" ++ decimal last.toNat))
    else if total ≤ start then
      .error (.preconditionFailed
        ("range start " ++ decimal start.toNat ++ " >= total " ++ decimal total.toNat))
    else pure ⟨start, last⟩

def parseRangeHeader (header : Option Str) (total : UInt64) :
    Except PodError (Option ByteRange) :=
  let raw := (header.map trim).getD []
  if raw.isEmpty then .ok none
  else
    match stripPrefix "bytes=" raw with
    | none => .error (.unsupported ("unsupported Range unit: " ++ raw))
    | some spec =>
      if spec.contains ',' then .error (.unsupported "multi-range requests not supported")
      else
        match splitOnce '-' spec with
        | none => .error (.unsupported ("malformed Range: " ++ spec))
        | some (startS, endS) =>
          if total = 0 then
            .error (.preconditionFailed "range request against empty resource")
          else (selectRange startS endS total).map some

inductive RangeOutcome where
  | full
  | part (r : ByteRange)
  | notSatisfiable
  deriving DecidableEq

/-- As `selectRange`, with an outcome where that has an error. -/
def selectRangeV2 (startS endS : Str) (total : UInt64) : Except PodError RangeOutcome :=
  if startS.isEmpty then do
    let suffix ← parseFor "suffix" endS
    if suffix = 0 then pure .notSatisfiable
    else pure (.part ⟨saturatingSub total suffix, total - 1⟩)
  else do
    let start ← parseFor "start" startS
    let last ← parseEnd endS total
    if last < start ∨ total ≤ start then pure .notSatisfiable
    else pure (.part ⟨start, last⟩)

def parseRangeHeaderV2 (header : Option Str) (total : UInt64) : Except PodError RangeOutcome :=
  let raw := (header.map trim).getD []
  if raw.isEmpty then .ok .full
  else
    match stripPrefix "bytes=" raw with
    | none => .error (.unsupported ("unsupported Range unit: " ++ raw))
    | some spec =>
      if spec.contains ',' then .error (.unsupported "multi-range not supported")
      else
        match splitOnce '-' spec with
        | none => .error (.unsupported ("malformed Range: " ++ spec))
        | some (startS, endS) =>
          if total = 0 then .ok .notSatisfiable
          else selectRangeV2 startS endS total

/-- The sum wraps around where it does not fit. -/
def sliceRange (body : Bytes) (range : ByteRange) : Bytes :=
  let endExcl := min (range.end + 1).toNat body.length
  let start := min range.start.toNat endExcl
  (body.drop start).take (endExcl - start)

/-! ## The two parsers -/

/-- The older parser has an error where the newer one has an outcome. -/
inductive SameOutcome : Except PodError (Option ByteRange) → Except PodError RangeOutcome → Prop
  | full : SameOutcome (.ok none) (.ok .full)
  | part (r : ByteRange) : SameOutcome (.ok (some r)) (.ok (.part r))
  | unsatisfiable (m : Str) : SameOutcome (.error (.preconditionFailed m)) (.ok .notSatisfiable)
  | malformed (m m' : Str) : SameOutcome (.error (.unsupported m)) (.error (.unsupported m'))

section Parsers

variable {startS endS : Str} {total : UInt64}

theorem parseFor_cases (what s : Str) :
    (∃ n, parseFor what s = .ok n) ∨ ∃ m, parseFor what s = .error (.unsupported m) := by
  rw [parseFor]
  cases parseU64 s with
  | ok n => exact .inl ⟨n, rfl⟩
  | error e => exact .inr ⟨_, rfl⟩

theorem parseEnd_cases (endS : Str) (total : UInt64) :
    (∃ n, parseEnd endS total = .ok n) ∨ ∃ m, parseEnd endS total = .error (.unsupported m) := by
  rw [parseEnd]
  split_ifs
  · exact .inl ⟨_, rfl⟩
  · rcases parseFor_cases "end" endS with ⟨n, hn⟩ | ⟨m, hm⟩
    · rw [hn]
      exact .inl ⟨_, rfl⟩
    · rw [hm]
      exact .inr ⟨m, rfl⟩

theorem sameOutcome_select (startS endS : Str) (total : UInt64) :
    SameOutcome ((selectRange startS endS total).map some) (selectRangeV2 startS endS total) := by
  rw [selectRange, selectRangeV2]
  by_cases hstart : startS.isEmpty = true
  · rw [if_pos hstart, if_pos hstart]
    rcases parseFor_cases "suffix" endS with ⟨n, hn⟩ | ⟨m, hm⟩
    · rw [hn]
      change SameOutcome ((if n = 0 then _ else _ : Except PodError ByteRange).map some)
        (if n = 0 then _ else _)
      split_ifs
      · exact .unsatisfiable _
      · exact .part _
    · rw [hm]
      exact .malformed m m
  · rw [if_neg hstart, if_neg hstart]
    rcases parseFor_cases "start" startS with ⟨start, hn⟩ | ⟨m, hm⟩
    · rcases parseEnd_cases endS total with ⟨last, hlast⟩ | ⟨m, hm⟩
      · rw [hn, hlast]
        change SameOutcome ((if last < start then _ else if total ≤ start then _ else _ :
          Except PodError ByteRange).map some) (if last < start ∨ total ≤ start then _ else _)
        by_cases hempty : last < start
        · rw [if_pos hempty, if_pos (.inl hempty)]
          exact .unsatisfiable _
        · by_cases hbehind : total ≤ start
          · rw [if_neg hempty, if_pos hbehind, if_pos (.inr hbehind)]
            exact .unsatisfiable _
          · rw [if_neg hempty, if_neg hbehind, if_neg (not_or.mpr ⟨hempty, hbehind⟩)]
            exact .part _
      · rw [hn, hm]
        exact .malformed m m
    · rw [hm]
      exact .malformed m m

/-- The parsers differ in how they say that a range cannot be satisfied. -/
theorem sameOutcome (header : Option Str) (total : UInt64) :
    SameOutcome (parseRangeHeader header total) (parseRangeHeaderV2 header total) := by
  unfold parseRangeHeader parseRangeHeaderV2
  dsimp only
  by_cases hblank : ((header.map trim).getD []).isEmpty = true
  · rw [if_pos hblank, if_pos hblank]
    exact .full
  rw [if_neg hblank, if_neg hblank]
  cases stripPrefix "bytes=" ((header.map trim).getD []) with
  | none => exact .malformed _ _
  | some spec =>
      dsimp only
      by_cases hmulti : spec.contains ',' = true
      · rw [if_pos hmulti, if_pos hmulti]
        exact .malformed _ _
      rw [if_neg hmulti, if_neg hmulti]
      cases splitOnce '-' spec with
      | none => exact .malformed _ _
      | some sides =>
          dsimp only
          by_cases htotal : total = 0
          · rw [if_pos htotal, if_pos htotal]
            exact .unsatisfiable _
          · rw [if_neg htotal, if_neg htotal]
            exact sameOutcome_select sides.1 sides.2 total

end Parsers

/-! ## What a header asks for -/

/-- A number in decimal digits. -/
def Digits (n : UInt64) (t : Str) : Prop :=
  t ≠ [] ∧ (∀ c ∈ t, c.isDigit = true) ∧ Nat.ofDigitChars 10 t 0 = n.toNat

/-- A number in digits, or with a plus sign in front. -/
def Signed (n : UInt64) (t : Str) : Prop := Digits n t ∨ ∃ t', t = '+' :: t' ∧ Digits n t'

inductive RangeSpec where
  | suffix (n : UInt64)
  | onward (start : UInt64)
  | between (start last : UInt64)

/-- What stands before and behind the hyphen of a range, numbers being written in some way. -/
def Sides (number : UInt64 → Str → Prop) : RangeSpec → Str → Str → Prop
  | .suffix n, startS, endS => startS = [] ∧ number n endS
  | .onward n, startS, endS => number n startS ∧ endS = []
  | .between n m, startS, endS => number n startS ∧ number m endS

/-- The headers that ask for a range. -/
def Written (number : UInt64 → Str → Prop) (spec : RangeSpec) (t : Str) : Prop :=
  ∃ startS endS, t = "bytes=" ++ (startS ++ '-' :: endS) ∧ Sides number spec startS endS

/-- The bytes of a resource that are asked for, if there are any. -/
def RangeSpec.resolve (total : UInt64) : RangeSpec → Option ByteRange
  | .suffix n =>
    if n = 0 ∨ total = 0 then none else some ⟨saturatingSub total n, total - 1⟩
  | .onward n => if n < total then some ⟨n, total - 1⟩ else none
  | .between n m => if n ≤ m ∧ n < total then some ⟨n, min m (total - 1)⟩ else none

theorem plus_notMem_of_digits {n : UInt64} {t : Str} (h : Digits n t) : '+' ∉ t := by
  intro hmem
  exact absurd (h.2.1 _ hmem) (by decide)

theorem digits_ofNat_iff {digits : Str} {n : UInt64} :
    (digits ≠ [] ∧ (∀ c ∈ digits, c.isDigit = true) ∧ Nat.ofDigitChars 10 digits 0 < 2 ^ 64) ∧
      UInt64.ofNat (Nat.ofDigitChars 10 digits 0) = n ↔ Digits n digits := by
  constructor
  · rintro ⟨⟨hne, hdigits, hlt⟩, rfl⟩
    exact ⟨hne, hdigits, (UInt64.toNat_ofNat_of_lt' hlt).symm⟩
  · rintro ⟨hne, hdigits, hvalue⟩
    refine ⟨⟨hne, hdigits, ?_⟩, ?_⟩
    · rw [hvalue]
      exact n.toNat_lt
    · rw [hvalue]
      exact UInt64.ofNat_toNat

theorem parseU64_eq_ok_iff {n : UInt64} {t : Str} : parseU64 t = .ok n ↔ Signed n t := by
  have hparse : ∀ digits : Str, (stripPrefix ['+'] t).getD t = digits →
      (parseU64 t = .ok n ↔ Digits n digits) := by
    rintro digits rfl
    rw [← digits_ofNat_iff, parseU64, parseUnsigned]
    split_ifs with hnumber
    · rw [and_iff_right hnumber]
      exact ⟨Except.ok.inj, congrArg Except.ok⟩
    · apply iff_of_false
      · intro h
        cases h
      · exact fun h => hnumber h.1
  cases hstrip : stripPrefix ['+'] t with
  | none =>
      rw [hparse t (by rw [hstrip]; rfl)]
      constructor
      · exact .inl
      · rintro (h | ⟨t', rfl, -⟩)
        · exact h
        · rw [stripPrefix_singleton_cons, if_pos rfl] at hstrip
          cases hstrip
  | some digits =>
      have ht := stripPrefix_eq_some.mp hstrip
      rw [hparse digits (by rw [hstrip]; rfl)]
      constructor
      · intro h
        exact .inr ⟨digits, ht, h⟩
      · rintro (h | ⟨t', ht', h⟩)
        · exact absurd (ht ▸ List.mem_append_left _ List.mem_cons_self) (plus_notMem_of_digits h)
        · rw [ht', List.singleton_append] at ht
          rw [(List.cons.inj ht).2] at h
          exact h

theorem parseFor_eq_ok_iff {what t : Str} {n : UInt64} : parseFor what t = .ok n ↔ Signed n t := by
  rw [← parseU64_eq_ok_iff, parseFor]
  cases parseU64 t with
  | ok m => simp [Except.mapError]
  | error e => simp [Except.mapError]

theorem signed_ne_nil {n : UInt64} {t : Str} (h : Signed n t) : t ≠ [] := by
  rcases h with h | ⟨t', rfl, -⟩
  · exact h.1
  · exact List.cons_ne_nil _ _

/-- A number has neither a comma nor a hyphen. -/
theorem notMem_of_signed {n : UInt64} {t : Str} (h : Signed n t) {c : Char}
    (hc : c.isDigit = false) (hplus : c ≠ '+') : c ∉ t := by
  have hdigits : ∀ t', Digits n t' → c ∉ t' := by
    intro t' ht' hmem
    rw [ht'.2.1 c hmem] at hc
    cases hc
  rcases h with h | ⟨t', rfl, h⟩
  · exact hdigits t h
  · rw [List.mem_cons, not_or]
    exact ⟨hplus, hdigits t' h⟩

theorem toNat_pred {total : UInt64} (htotal : total ≠ 0) :
    (total - 1).toNat = total.toNat - 1 := by
  have hpos : total.toNat ≠ 0 := fun h => htotal (UInt64.toNat_inj.mp h)
  apply UInt64.toNat_sub_of_le
  rw [UInt64.le_iff_toNat_le]
  change 1 ≤ total.toNat
  omega

theorem toNat_min (a b : UInt64) : (min a b).toNat = min a.toNat b.toNat := by
  change (if a ≤ b then a else b).toNat = _
  split_ifs with h
  · rw [UInt64.le_iff_toNat_le] at h
    omega
  · rw [UInt64.le_iff_toNat_le] at h
    omega

theorem parseEnd_eq_ok_iff {endS : Str} {total last : UInt64} :
    parseEnd endS total = .ok last ↔ (endS = [] ∧ last = total - 1) ∨
      ∃ m, Signed m endS ∧ last = min m (total - 1) := by
  rw [parseEnd]
  by_cases hend : endS = []
  · rw [hend, List.isEmpty_nil, if_pos rfl, Except.ok.injEq]
    constructor
    · intro h
      exact .inl ⟨rfl, h.symm⟩
    · rintro (⟨-, h⟩ | ⟨m, hm, -⟩)
      · exact h.symm
      · exact absurd rfl (signed_ne_nil hm)
  · rw [if_neg (mt List.isEmpty_iff.mp hend), Fallible.bind_eq_ok_iff]
    constructor
    · rintro ⟨m, hm, hlast⟩
      cases hlast
      exact .inr ⟨m, parseFor_eq_ok_iff.mp hm, rfl⟩
    · rintro (⟨h, -⟩ | ⟨m, hm, rfl⟩)
      · exact absurd h hend
      · exact ⟨m, parseFor_eq_ok_iff.mpr hm, rfl⟩

theorem selectRange_suffix_eq_ok_iff {endS : Str} {total : UInt64} (htotal : total ≠ 0)
    {r : ByteRange} : selectRange [] endS total = .ok r ↔
      ∃ n, Signed n endS ∧ (RangeSpec.suffix n).resolve total = some r := by
  rw [selectRange, List.isEmpty_nil, if_pos rfl, Fallible.bind_eq_ok_iff]
  constructor
  · rintro ⟨n, hn, hrange⟩
    obtain ⟨hzero, hrange⟩ := Fallible.guard_eq_ok_iff.mp hrange
    cases hrange
    exact ⟨n, parseFor_eq_ok_iff.mp hn, if_neg (not_or.mpr ⟨hzero, htotal⟩)⟩
  · rintro ⟨n, hsigned, hrange⟩
    refine ⟨n, parseFor_eq_ok_iff.mpr hsigned, ?_⟩
    rw [RangeSpec.resolve] at hrange
    split_ifs at hrange with hzero
    obtain ⟨hzero, -⟩ := not_or.mp hzero
    rw [if_neg hzero]
    cases hrange
    rfl

/-- A range with a start has its end within the resource and not before the start. -/
theorem selectRange_from_eq_ok_iff {startS endS : Str} {total : UInt64} (hstart : startS ≠ [])
    {r : ByteRange} : selectRange startS endS total = .ok r ↔
      ∃ n last, Signed n startS ∧ parseEnd endS total = .ok last ∧
        n ≤ last ∧ n < total ∧ r = ⟨n, last⟩ := by
  rw [selectRange, if_neg (mt List.isEmpty_iff.mp hstart), Fallible.bind_eq_ok_iff]
  constructor
  · rintro ⟨n, hn, hrange⟩
    obtain ⟨last, hlast, hrange⟩ := Fallible.bind_eq_ok_iff.mp hrange
    obtain ⟨hempty, hrange⟩ := Fallible.guard_eq_ok_iff.mp hrange
    obtain ⟨hbehind, hrange⟩ := Fallible.guard_eq_ok_iff.mp hrange
    cases hrange
    exact ⟨n, last, parseFor_eq_ok_iff.mp hn, hlast, UInt64.not_lt.mp hempty,
      UInt64.not_le.mp hbehind, rfl⟩
  · rintro ⟨n, last, hn, hlast, hle, hlt, rfl⟩
    refine ⟨n, parseFor_eq_ok_iff.mpr hn, Fallible.bind_eq_ok_iff.mpr ⟨last, hlast, ?_⟩⟩
    exact Fallible.guard_eq_ok_iff.mpr ⟨UInt64.not_lt.mpr hle,
      Fallible.guard_eq_ok_iff.mpr ⟨UInt64.not_le.mpr hlt, rfl⟩⟩

theorem le_pred_iff {total n : UInt64} (htotal : total ≠ 0) : n ≤ total - 1 ↔ n < total := by
  have hpos : total.toNat ≠ 0 := fun h => htotal (UInt64.toNat_inj.mp h)
  rw [UInt64.le_iff_toNat_le, toNat_pred htotal, UInt64.lt_iff_toNat_lt]
  omega

theorem le_min_iff {a b n : UInt64} : n ≤ min a b ↔ n ≤ a ∧ n ≤ b := by
  rw [UInt64.le_iff_toNat_le, toNat_min, UInt64.le_iff_toNat_le, UInt64.le_iff_toNat_le]
  omega

/-- The range between the texts on both sides of the hyphen, by what they ask for. -/
theorem selectRange_eq_ok_iff {startS endS : Str} {total : UInt64} (htotal : total ≠ 0)
    {r : ByteRange} : selectRange startS endS total = .ok r ↔
      ∃ spec, Sides Signed spec startS endS ∧ spec.resolve total = some r := by
  by_cases hstart : startS = []
  · rw [hstart, selectRange_suffix_eq_ok_iff htotal]
    constructor
    · rintro ⟨n, hsigned, hrange⟩
      exact ⟨.suffix n, ⟨rfl, hsigned⟩, hrange⟩
    · rintro ⟨spec, hsides, hrange⟩
      cases spec with
      | suffix n => exact ⟨n, hsides.2, hrange⟩
      | onward n => exact absurd rfl (signed_ne_nil hsides.1)
      | between n m => exact absurd rfl (signed_ne_nil hsides.1)
  · rw [selectRange_from_eq_ok_iff hstart]
    constructor
    · rintro ⟨n, last, hn, hlast, hle, hlt, rfl⟩
      rcases parseEnd_eq_ok_iff.mp hlast with ⟨hend, rfl⟩ | ⟨m, hm, rfl⟩
      · exact ⟨.onward n, ⟨hn, hend⟩, if_pos hlt⟩
      · exact ⟨.between n m, ⟨hn, hm⟩, if_pos ⟨(le_min_iff.mp hle).1, hlt⟩⟩
    · rintro ⟨spec, hsides, hrange⟩
      cases spec with
      | suffix n => exact absurd hsides.1 hstart
      | onward n =>
          rw [RangeSpec.resolve] at hrange
          split_ifs at hrange with hlt
          cases hrange
          exact ⟨n, total - 1, hsides.1, parseEnd_eq_ok_iff.mpr (.inl ⟨hsides.2, rfl⟩),
            (le_pred_iff htotal).mpr hlt, hlt, rfl⟩
      | between n m =>
          rw [RangeSpec.resolve] at hrange
          split_ifs at hrange with hwithin
          cases hrange
          exact ⟨n, min m (total - 1), hsides.1, parseEnd_eq_ok_iff.mpr (.inr ⟨m, hsides.2, rfl⟩),
            le_min_iff.mpr ⟨hwithin.1, (le_pred_iff htotal).mpr hwithin.2⟩, hwithin.2, rfl⟩

theorem resolve_zero (spec : RangeSpec) : spec.resolve 0 = none := by
  have hneg : ∀ n : UInt64, ¬ n < 0 := by
    intro n h
    rw [UInt64.lt_iff_toNat_lt] at h
    exact absurd h (Nat.not_lt_zero _)
  cases spec with
  | suffix n => exact if_pos (.inr rfl)
  | onward n => rw [RangeSpec.resolve, if_neg (hneg n)]
  | between n m => rw [RangeSpec.resolve, if_neg (fun h => hneg n h.2)]

theorem notMem_sides {spec : RangeSpec} {startS endS : Str} (h : Sides Signed spec startS endS) :
    ',' ∉ startS ++ '-' :: endS ∧ '-' ∉ startS := by
  have hcomma : ∀ {n : UInt64} {t : Str}, Signed n t → ',' ∉ t :=
    fun h => notMem_of_signed h (by decide) (by decide)
  have hhyphen : ∀ {n : UInt64} {t : Str}, Signed n t → '-' ∉ t :=
    fun h => notMem_of_signed h (by decide) (by decide)
  cases spec with
  | suffix n =>
      rw [h.1]
      simp [hcomma h.2]
  | onward n =>
      rw [h.2]
      simp [hcomma h.1, hhyphen h.1]
  | between n m => simp [hcomma h.1, hcomma h.2, hhyphen h.1]

/-- What the older parser takes for a range, by what the header asks for. -/
theorem parseRangeHeader_eq_some_iff {header : Str} {total : UInt64} {r : ByteRange} :
    parseRangeHeader (some header) total = .ok (some r) ↔
      ∃ spec, Written Signed spec (trim header) ∧ spec.resolve total = some r := by
  unfold parseRangeHeader
  simp only [Option.map_some, Option.getD_some]
  constructor
  · intro h
    by_cases hblank : (trim header).isEmpty = true
    · rw [if_pos hblank] at h
      cases h
    rw [if_neg hblank] at h
    cases hunit : stripPrefix ("bytes=" : Str) (trim header) with
    | none =>
        simp only [hunit] at h
        cases h
    | some text =>
        simp only [hunit] at h
        obtain ⟨-, h⟩ := Fallible.guard_eq_ok_iff.mp h
        cases hsides : splitOnce '-' text with
        | none =>
            simp only [hsides] at h
            cases h
        | some sides =>
            simp only [hsides] at h
            obtain ⟨htotal, h⟩ := Fallible.guard_eq_ok_iff.mp h
            obtain ⟨r', hr', hr⟩ := Fallible.map_eq_ok_iff.mp h
            cases hr
            obtain ⟨spec, hspec, hresolve⟩ := (selectRange_eq_ok_iff htotal).mp hr'
            obtain ⟨htext, -⟩ := eq_append_of_splitOnce hsides
            refine ⟨spec, ⟨sides.1, sides.2, ?_, hspec⟩, hresolve⟩
            rw [← htext]
            exact stripPrefix_eq_some.mp hunit
  · rintro ⟨spec, ⟨startS, endS, htext, hsides⟩, hresolve⟩
    obtain ⟨hcomma, hhyphen⟩ := notMem_sides hsides
    have htotal : total ≠ 0 := by
      rintro rfl
      rw [resolve_zero] at hresolve
      cases hresolve
    have hne : ¬ (trim header).isEmpty = true := by simp [htext]
    rw [if_neg hne, htext, stripPrefix_append]
    dsimp only
    rw [if_neg (mt List.contains_iff_mem.mp hcomma), splitOnce_append hhyphen]
    dsimp only
    rw [if_neg htotal, (selectRange_eq_ok_iff htotal).mpr ⟨spec, hsides, hresolve⟩]
    rfl

/-! ## Ranges and slices -/

theorem toNat_saturatingSub (a b : UInt64) :
    (saturatingSub a b).toNat = a.toNat - b.toNat := by
  rw [saturatingSub]
  split_ifs with h
  · exact UInt64.toNat_sub_of_le a b h
  · rw [UInt64.le_iff_toNat_le] at h
    change 0 = _
    omega

/-- A range has a byte, and ends before the resource does. -/
structure ByteRange.Within (r : ByteRange) (total : UInt64) : Prop where
  ordered : r.start.toNat ≤ r.end.toNat
  below : r.end.toNat < total.toNat

theorem within_of_resolve {spec : RangeSpec} {total : UInt64} {r : ByteRange}
    (h : spec.resolve total = some r) : r.Within total := by
  have htotal : total ≠ 0 := by
    rintro rfl
    rw [resolve_zero] at h
    cases h
  have hpred := toNat_pred htotal
  have hpos : total.toNat ≠ 0 := fun h => htotal (UInt64.toNat_inj.mp h)
  cases spec with
  | suffix n =>
      rw [RangeSpec.resolve] at h
      split_ifs at h with hzero
      cases h
      have hn : n.toNat ≠ 0 := fun h => hzero (.inl (UInt64.toNat_inj.mp h))
      constructor
      · rw [toNat_saturatingSub, hpred]
        omega
      · rw [hpred]
        omega
  | onward n =>
      rw [RangeSpec.resolve] at h
      split_ifs at h with hbehind
      cases h
      rw [UInt64.lt_iff_toNat_lt] at hbehind
      constructor
      · dsimp only
        rw [hpred]
        omega
      · rw [hpred]
        omega
  | between n m =>
      rw [RangeSpec.resolve] at h
      split_ifs at h with hbehind
      cases h
      rw [UInt64.le_iff_toNat_le, UInt64.lt_iff_toNat_lt] at hbehind
      constructor
      · dsimp only
        rw [toNat_min]
        omega
      · rw [toNat_min]
        omega

namespace ByteRange.Within

variable {r : ByteRange} {total : UInt64} {body : Bytes}

theorem toNat_length (h : r.Within total) :
    r.length.toNat = r.end.toNat - r.start.toNat + 1 := by
  have hordered := h.ordered
  have hbelow := h.below
  have htotal := total.toNat_lt
  rw [length, UInt64.toNat_add, toNat_saturatingSub]
  change (r.end.toNat - r.start.toNat + 1) % 2 ^ 64 = _
  omega

/-- The slice of a body is what lies between the ends. -/
theorem sliceRange_eq (h : r.Within total) (hbody : body.length = total.toNat) :
    sliceRange body r = (body.drop r.start.toNat).take (r.end.toNat + 1 - r.start.toNat) := by
  have hordered := h.ordered
  have hbelow := h.below
  have htotal := total.toNat_lt
  have hend : (r.end + 1).toNat = r.end.toNat + 1 := by
    rw [UInt64.toNat_add]
    change (r.end.toNat + 1) % 2 ^ 64 = _
    omega
  have hmin : min (r.end + 1).toNat body.length = r.end.toNat + 1 := by omega
  have hstart : min r.start.toNat (r.end.toNat + 1) = r.start.toNat := by omega
  rw [sliceRange]
  simp only [hmin, hstart]

theorem length_sliceRange (h : r.Within total) (hbody : body.length = total.toNat) :
    (sliceRange body r).length = r.length.toNat := by
  have hordered := h.ordered
  have hbelow := h.below
  rw [h.sliceRange_eq hbody, h.toNat_length, List.length_take, List.length_drop]
  omega

end ByteRange.Within

/-! ## What a header is allowed to ask -/

/-- What is expected of a header and a resource: a range is given out only for a header in
digits, and it lies within the resource; ranges put a body together again. -/
structure Sound (header : Str) (total : UInt64) : Prop where
  agree : SameOutcome (parseRangeHeader (some header) total)
    (parseRangeHeaderV2 (some header) total)
  syntactic : ∀ r, parseRangeHeader (some header) total = .ok (some r) →
    ∃ spec, Written Digits spec (trim header)
  within : ∀ r, parseRangeHeader (some header) total = .ok (some r) → r.Within total
  sliced : ∀ r, parseRangeHeader (some header) total = .ok (some r) →
    ∀ body : Bytes, body.length = total.toNat →
      (sliceRange body r).length = r.length.toNat ∧
        r.length.toNat = r.end.toNat - r.start.toNat + 1 ∧ r.end.toNat + 1 < 2 ^ 64
  reassembled : ∀ body : Bytes, body.length = total.toNat → ∀ k, 0 < k → k < body.length →
    ∃ front back last,
      parseRangeHeader (some ("bytes=0-" ++ decimal (k - 1))) total = .ok (some front) ∧
      parseRangeHeader (some ("bytes=" ++ decimal k ++ "-")) total = .ok (some back) ∧
      parseRangeHeader (some ("bytes=-" ++ decimal k)) total = .ok (some last) ∧
      sliceRange body front ++ sliceRange body back = body ∧
      sliceRange body last = body.drop (body.length - k)

/-- The header has no plus sign, or asks for no byte of the resource. -/
def Plain (header : Str) (total : UInt64) : Prop :=
  '+' ∉ trim header ∨ ∀ spec, Written Signed spec (trim header) → spec.resolve total = none

section Headers

variable {header t : Str} {total : UInt64} {spec : RangeSpec}

theorem digits_of_signed {n : UInt64} (h : Signed n t) (hplus : '+' ∉ t) : Digits n t := by
  rcases h with h | ⟨t', rfl, -⟩
  · exact h
  · exact absurd List.mem_cons_self hplus

/-- Without a plus sign the numbers are in digits. -/
theorem written_digits (h : Written Signed spec t) (hplus : '+' ∉ t) : Written Digits spec t := by
  obtain ⟨startS, endS, rfl, hsides⟩ := h
  refine ⟨startS, endS, rfl, ?_⟩
  simp only [List.mem_append, List.mem_cons, not_or] at hplus
  obtain ⟨-, hstart, -, hend⟩ := hplus
  cases spec with
  | suffix n => exact ⟨hsides.1, digits_of_signed hsides.2 hend⟩
  | onward n => exact ⟨digits_of_signed hsides.1 hstart, hsides.2⟩
  | between n m => exact ⟨digits_of_signed hsides.1 hstart, digits_of_signed hsides.2 hend⟩

theorem plus_notMem_of_written (h : Written Digits spec t) : '+' ∉ t := by
  obtain ⟨startS, endS, rfl, hsides⟩ := h
  cases spec with
  | suffix n => simp [hsides.1, plus_notMem_of_digits hsides.2]
  | onward n => simp [hsides.2, plus_notMem_of_digits hsides.1]
  | between n m => simp [plus_notMem_of_digits hsides.1, plus_notMem_of_digits hsides.2]

theorem digits_decimal {k : Nat} (hk : k < 2 ^ 64) : Digits (UInt64.ofNat k) (decimal k) := by
  refine ⟨Nat.toDigits_ne_nil, ?_, ?_⟩
  · intro c hc
    exact Nat.isDigit_of_mem_toDigits (by decide) (by decide) hc
  · rw [UInt64.toNat_ofNat_of_lt' hk]
    exact Nat.ofDigitChars_ten_toDigits

/-- A header in digits has no white space to trim. -/
theorem trim_of_written (h : Written Digits spec t) : trim t = t := by
  obtain ⟨startS, endS, rfl, hsides⟩ := h
  have hdigits : ∀ c ∈ startS ++ endS, c.isDigit = true := by
    cases spec with
    | suffix n =>
        rw [hsides.1]
        exact hsides.2.2.1
    | onward n =>
        rw [hsides.2, List.append_nil]
        exact hsides.1.2.1
    | between n m => exact List.forall_mem_append.mpr ⟨hsides.1.2.1, hsides.2.2.1⟩
  have hunit : ∀ c ∈ ("bytes=" : Str), isWhitespace c = false := by decide
  have hwhite : ∀ c ∈ "bytes=" ++ (startS ++ '-' :: endS), isWhitespace c = false := by
    intro c hc
    rcases List.mem_append.mp hc with hc | hc
    · exact hunit c hc
    · rcases List.mem_append.mp hc with hc | hc
      · exact isWhitespace_of_isDigit (hdigits c (List.mem_append_left _ hc))
      · rcases List.mem_cons.mp hc with rfl | hc
        · decide
        · exact isWhitespace_of_isDigit (hdigits c (List.mem_append_right _ hc))
  have htrim := trim_word_append (by simp) hwhite []
  rwa [List.append_nil, trimEnd_nil, List.append_nil] at htrim

/-- A header in digits is parsed to the range that it asks for. -/
theorem parseRangeHeader_of_written {r : ByteRange} (h : Written Digits spec t)
    (hresolve : spec.resolve total = some r) :
    parseRangeHeader (some t) total = .ok (some r) := by
  apply parseRangeHeader_eq_some_iff.mpr
  refine ⟨spec, ?_, hresolve⟩
  rw [trim_of_written h]
  obtain ⟨startS, endS, rfl, hsides⟩ := h
  refine ⟨startS, endS, rfl, ?_⟩
  cases spec with
  | suffix n => exact ⟨hsides.1, .inl hsides.2⟩
  | onward n => exact ⟨.inl hsides.1, hsides.2⟩
  | between n m => exact ⟨.inl hsides.1, .inl hsides.2⟩

section Halves

variable {k : Nat}

theorem toNat_ofNat_of_lt (hlt : k < total.toNat) : (UInt64.ofNat k).toNat = k :=
  UInt64.toNat_ofNat_of_lt' (hlt.trans total.toNat_lt)

theorem resolve_front (hlt : k < total.toNat) :
    (RangeSpec.between 0 (UInt64.ofNat k)).resolve total = some ⟨0, UInt64.ofNat k⟩ := by
  have hne : total ≠ 0 := by
    rintro rfl
    exact absurd hlt (Nat.not_lt_zero k)
  have hmin : min (UInt64.ofNat k) (total - 1) = UInt64.ofNat k := by
    apply UInt64.toNat_inj.mp
    rw [toNat_min, toNat_ofNat_of_lt hlt, toNat_pred hne]
    omega
  rw [RangeSpec.resolve, if_pos, hmin]
  rw [UInt64.le_iff_toNat_le, UInt64.lt_iff_toNat_lt]
  change 0 ≤ _ ∧ 0 < total.toNat
  omega

theorem resolve_back (hlt : k < total.toNat) :
    (RangeSpec.onward (UInt64.ofNat k)).resolve total = some ⟨UInt64.ofNat k, total - 1⟩ := by
  rw [RangeSpec.resolve, if_pos]
  rwa [UInt64.lt_iff_toNat_lt, toNat_ofNat_of_lt hlt]

theorem resolve_last (hk : 0 < k) (hlt : k < total.toNat) :
    (RangeSpec.suffix (UInt64.ofNat k)).resolve total =
      some ⟨saturatingSub total (UInt64.ofNat k), total - 1⟩ := by
  rw [RangeSpec.resolve, if_neg]
  rintro (hzero | rfl)
  · have hnat := toNat_ofNat_of_lt hlt
    rw [hzero] at hnat
    change 0 = k at hnat
    omega
  · exact absurd hlt (Nat.not_lt_zero k)

end Halves

theorem reassembled {body : Bytes} (hbody : body.length = total.toNat) {k : Nat} (hk : 0 < k)
    (hlt : k < body.length) : ∃ front back last,
      parseRangeHeader (some ("bytes=0-" ++ decimal (k - 1))) total = .ok (some front) ∧
      parseRangeHeader (some ("bytes=" ++ decimal k ++ "-")) total = .ok (some back) ∧
      parseRangeHeader (some ("bytes=-" ++ decimal k)) total = .ok (some last) ∧
      sliceRange body front ++ sliceRange body back = body ∧
      sliceRange body last = body.drop (body.length - k) := by
  rw [hbody] at hlt
  have hltPred : k - 1 < total.toNat := by omega
  have htotal := total.toNat_lt
  have hpred : (total - 1).toNat = total.toNat - 1 := by
    apply toNat_pred
    rintro rfl
    exact absurd hlt (Nat.not_lt_zero k)
  have hkNat := toNat_ofNat_of_lt hlt
  have hfront := resolve_front hltPred
  have hback := resolve_back hlt
  have hlast := resolve_last hk hlt
  refine ⟨_, _, _, parseRangeHeader_of_written ?_ hfront, parseRangeHeader_of_written ?_ hback,
    parseRangeHeader_of_written ?_ hlast, ?_, ?_⟩
  · exact ⟨"0", decimal (k - 1), rfl, ⟨by decide, by decide, rfl⟩,
      digits_decimal (hltPred.trans htotal)⟩
  · exact ⟨decimal k, [], List.append_assoc _ _ _, digits_decimal (hlt.trans htotal), rfl⟩
  · exact ⟨[], decimal k, rfl, rfl, digits_decimal (hlt.trans htotal)⟩
  · rw [(within_of_resolve hfront).sliceRange_eq hbody,
      (within_of_resolve hback).sliceRange_eq hbody]
    dsimp only
    rw [toNat_ofNat_of_lt hltPred, hkNat, hpred]
    change (body.drop 0).take (k - 1 + 1 - 0) ++ _ = body
    have hrest : total.toNat - 1 + 1 - k = (body.drop k).length := by
      rw [List.length_drop]
      omega
    have hcount : k - 1 + 1 - 0 = k := by omega
    rw [hrest, List.take_length, hcount, List.drop_zero, List.take_append_drop]
  · rw [(within_of_resolve hlast).sliceRange_eq hbody]
    dsimp only
    rw [toNat_saturatingSub, hkNat, hpred]
    have hrest : total.toNat - 1 + 1 - (total.toNat - k) =
        (body.drop (total.toNat - k)).length := by
      rw [List.length_drop]
      omega
    rw [hrest, List.take_length, hbody]

/-- The parsers do what is expected of them except for a plus sign in a header that asks for
something. -/
theorem sound_iff_plain (header : Str) (total : UInt64) :
    Sound header total ↔ Plain header total := by
  constructor
  · intro h
    by_cases hplus : '+' ∈ trim header
    · refine .inr fun spec hspec => ?_
      by_contra hresolve
      obtain ⟨r, hr⟩ := Option.ne_none_iff_exists'.mp hresolve
      obtain ⟨spec', hdigits⟩ :=
        h.syntactic r (parseRangeHeader_eq_some_iff.mpr ⟨spec, hspec, hr⟩)
      exact plus_notMem_of_written hdigits hplus
    · exact .inl hplus
  · intro h
    have hwithin : ∀ r, parseRangeHeader (some header) total = .ok (some r) → r.Within total := by
      intro r hr
      obtain ⟨spec, -, hresolve⟩ := parseRangeHeader_eq_some_iff.mp hr
      exact within_of_resolve hresolve
    exact {
      agree := sameOutcome (some header) total
      syntactic := by
        intro r hr
        obtain ⟨spec, hspec, hresolve⟩ := parseRangeHeader_eq_some_iff.mp hr
        rcases h with hplus | hnone
        · exact ⟨spec, written_digits hspec hplus⟩
        · rw [hnone spec hspec] at hresolve
          cases hresolve
      within := hwithin
      sliced := by
        intro r hr body hbody
        have hbelow := (hwithin r hr).below
        have htotal := total.toNat_lt
        exact ⟨(hwithin r hr).length_sliceRange hbody, (hwithin r hr).toNat_length, by omega⟩
      reassembled := fun body hbody k hk hlt => reassembled hbody hk hlt }

/-- A plus sign before a number is no syntax of a range. -/
theorem not_sound_plusSign : ¬ Sound "bytes=+0-+5" 10 := by
  intro h
  have hparse : parseRangeHeader (some ("bytes=+0-+5" : Str)) 10 = .ok (some ⟨0, 5⟩) := by decide
  obtain ⟨spec, hspec⟩ := h.syntactic _ hparse
  exact absurd (by decide) (plus_notMem_of_written hspec)

end Headers

end Ldp

end SolidPod
