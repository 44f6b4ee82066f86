import SolidPod.Ldp.Patch

/-!
# What the block search finds

The search for the block of a keyword passes over a text in which the keyword
opens no block. Where the keyword stands in front of a block whose braces pair
up, that block is what it returns.
-/

namespace SolidPod

namespace Ldp

open Foundation Str

/-- The braces of a text pair up, when `depth` of them are open before it. -/
def pairsUp : Nat → Str → Bool
  | depth, [] => depth == 0
  | depth, c :: cs =>
    if c = '{' then pairsUp (depth + 1) cs
    else if c = '}' then depth != 0 && pairsUp (depth - 1) cs
    else pairsUp depth cs

/-- The keyword opens a block at the start of the text. -/
def opensHere (needle : Str) (prev : Option Char) (s : Str) : Bool :=
  startsWith needle (toAsciiLowercase s) && leftBoundary prev &&
    startsWith ['{'] (trimStart (s.drop needle.length))

/-- The keyword opens a block somewhere in the text. -/
def opensBlock (needle : Str) : Option Char → Str → Bool
  | _, [] => false
  | prev, c :: cs => opensHere needle prev (c :: cs) || opensBlock needle (some c) cs

/-! ## Braces -/

/-- A text whose braces pair up does not close the block that it is in. -/
theorem closeBrace_append_of_pairsUp {depth : Nat} {body : Str} (h : pairsUp depth body = true)
    (rest : Str) : closeBrace (depth + 1) (body ++ '}' :: rest) = some (body ++ ['}']) := by
  induction body generalizing depth with
  | nil =>
      have hdepth : depth = 0 := by simpa [pairsUp] using h
      subst hdepth
      rfl
  | cons c body ih =>
      rw [pairsUp] at h
      rw [List.cons_append, closeBrace]
      by_cases hopen : c = '{'
      · rw [if_pos hopen] at h
        rw [if_pos hopen, ih h]
        rfl
      · rw [if_neg hopen] at h
        rw [if_neg hopen]
        by_cases hclose : c = '}'
        · rw [if_pos hclose] at h
          rw [if_pos hclose]
          cases depth with
          | zero => exact absurd h (by simp)
          | succ depth =>
              rw [if_neg (by omega), Nat.add_sub_cancel, ih (by simpa using h)]
              rfl
        · rw [if_neg hclose] at h
          rw [if_neg hclose, ih h]
          rfl

theorem closeBrace_block {body : Str} (h : pairsUp 0 body = true) (rest : Str) :
    closeBrace 0 ('{' :: (body ++ '}' :: rest)) = some ('{' :: (body ++ ['}'])) := by
  rw [closeBrace, if_pos rfl, closeBrace_append_of_pairsUp h]
  rfl

theorem trim_block (body : Str) : trim ('{' :: (body ++ ['}'])) = '{' :: (body ++ ['}']) := by
  refine trim_eq_self ?_ ?_
  · intro c hc
    rw [List.head?_cons, Option.mem_some] at hc
    rw [← hc]
    decide
  · intro c hc
    rw [← List.cons_append, List.getLast?_concat, Option.mem_some] at hc
    rw [← hc]
    decide

/-- Braces around a text are taken off, with the white space inside them. -/
theorem stripBraces_block (body : Str) : stripBraces ('{' :: (body ++ ['}'])) = trim body := by
  have hprefix : stripPrefix ['{'] ('{' :: (body ++ ['}'])) = some (body ++ ['}']) := by
    rw [stripPrefix_singleton_cons, if_pos rfl]
  rw [stripBraces, trim_block, hprefix]
  change trim ((stripSuffix ['}'] (body ++ ['}'])).getD (body ++ ['}'])) = trim body
  rw [stripSuffix_append]
  rfl

/-! ## Keywords -/

/-- Characters that no occurrence of the keyword reaches over. -/
structure Fence (needle : Str) (x : Char) : Prop where
  notMem : x.toLower ∉ needle
  notWhite : isWhitespace x = false

/-- A keyword that starts before a fence ends before it. -/
theorem startsWith_append_fence {needle : Str} {x : Char} (hx : Fence needle x) (a b : Str) :
    startsWith needle (toAsciiLowercase (a ++ x :: b)) =
      startsWith needle (toAsciiLowercase a) := by
  rw [startsWith, startsWith, Bool.eq_iff_iff, List.isPrefixOf_iff_prefix,
    List.isPrefixOf_iff_prefix, toAsciiLowercase, toAsciiLowercase, List.map_append, List.map_cons]
  constructor
  · intro h
    rcases List.prefix_or_prefix_of_prefix h (List.prefix_append (a.map Char.toLower) _) with
      hle | ⟨t, ht⟩
    · exact hle
    · cases t with
      | nil => exact ⟨[], by rw [List.append_nil, ← ht, List.append_nil]⟩
      | cons y t =>
          rw [← ht, List.prefix_append_right_inj, List.cons_prefix_cons] at h
          exact absurd (by rw [← ht, h.1]; simp) hx.notMem
  · rintro ⟨t, ht⟩
    exact ⟨t ++ (x.toLower :: b.map Char.toLower), by rw [← List.append_assoc, ht]⟩

/-- What follows a fence does not change whether a block is opened before it. -/
theorem opensHere_append_fence {needle : Str} {x : Char} (hx : Fence needle x)
    (prev : Option Char) (a b : Str) :
    opensHere needle prev (a ++ x :: b) = opensHere needle prev (a ++ [x]) := by
  rw [opensHere, opensHere, startsWith_append_fence hx a b, startsWith_append_fence hx a []]
  cases hstart : startsWith needle (toAsciiLowercase a) with
  | false => rfl
  | true =>
      have hlen : needle.length ≤ a.length := by
        have hle := (List.isPrefixOf_iff_prefix.mp hstart).length_le
        rwa [toAsciiLowercase, List.length_map] at hle
      rw [List.drop_append_of_le_length hlen, List.drop_append_of_le_length hlen,
        trimStart_append_cons hx.notWhite, trimStart_append_cons hx.notWhite]
      cases trimStart (a.drop needle.length) with
      | nil => simp [startsWith, List.isPrefixOf]
      | cons c cs => simp [startsWith, List.isPrefixOf]

theorem opensBlock_append_fence {needle : Str} {x : Char} (hx : Fence needle x)
    (prev : Option Char) (a b : Str) :
    opensBlock needle prev (a ++ x :: b) =
      (opensBlock needle prev (a ++ [x]) || opensBlock needle (some x) b) := by
  induction a generalizing prev with
  | nil =>
      have hhere := opensHere_append_fence hx prev [] b
      rw [List.nil_append, List.nil_append] at hhere
      rw [List.nil_append, List.nil_append, opensBlock, opensBlock, opensBlock, hhere,
        Bool.or_false]
  | cons c a ih =>
      have hhere := opensHere_append_fence hx prev (c :: a) b
      rw [List.cons_append, List.cons_append] at hhere
      rw [List.cons_append, List.cons_append, opensBlock, opensBlock, hhere, ih, Bool.or_assoc]

/-- A fence that is not a brace opens nothing itself. -/
theorem opensBlock_append_singleton {needle : Str} {x : Char} (hx : Fence needle x)
    (hne : needle ≠ []) (hbrace : x ≠ '{') (prev : Option Char) (a : Str) :
    opensBlock needle prev (a ++ [x]) = opensBlock needle prev a := by
  have hhere (prev : Option Char) (a : Str) :
      opensHere needle prev (a ++ [x]) = opensHere needle prev a := by
    rw [opensHere, opensHere, startsWith_append_fence hx a []]
    cases hstart : startsWith needle (toAsciiLowercase a) with
    | false => rfl
    | true =>
        have hlen : needle.length ≤ a.length := by
          have hle := (List.isPrefixOf_iff_prefix.mp hstart).length_le
          rwa [toAsciiLowercase, List.length_map] at hle
        rw [List.drop_append_of_le_length hlen, trimStart_append_cons hx.notWhite]
        cases trimStart (a.drop needle.length) with
        | nil => simp [startsWith, List.isPrefixOf, Ne.symm hbrace]
        | cons c cs => simp [startsWith, List.isPrefixOf]
  induction a generalizing prev with
  | nil =>
      have hnil := hhere prev []
      rw [List.nil_append] at hnil
      change (opensHere needle prev [x] || false) = false
      rw [hnil]
      cases needle with
      | nil => exact absurd rfl hne
      | cons y ys => rfl
  | cons c a ih =>
      have hcons := hhere prev (c :: a)
      rw [List.cons_append] at hcons
      rw [List.cons_append, opensBlock, opensBlock, hcons, ih]

/-- Without an opening brace no block is opened. -/
theorem opensBlock_eq_false_of_notMem (needle : Str) {s : Str} (h : '{' ∉ s)
    (prev : Option Char) : opensBlock needle prev s = false := by
  induction s generalizing prev with
  | nil => rfl
  | cons c s ih =>
      have hhere : opensHere needle prev (c :: s) = false := by
        rw [opensHere, Bool.and_eq_false_iff]
        refine Or.inr ?_
        by_contra hstart
        rw [Bool.not_eq_false, startsWith, List.isPrefixOf_iff_prefix] at hstart
        have hmem : '{' ∈ trimStart ((c :: s).drop needle.length) := hstart.subset (by simp)
        exact h (List.mem_of_mem_drop ((List.dropWhile_suffix _).subset hmem))
      rw [opensBlock, hhere, ih fun hmem => h (List.mem_cons_of_mem c hmem)]
      rfl

theorem opensBlock_of_append {needle : Str} {a b : Str} {prev : Option Char}
    (h : opensBlock needle prev (a ++ b) = false) :
    opensBlock needle (a.getLast?.or prev) b = false := by
  induction a generalizing prev with
  | nil => exact h
  | cons c a ih =>
      rw [List.cons_append, opensBlock, Bool.or_eq_false_iff] at h
      have hlast : (c :: a).getLast?.or prev = a.getLast?.or (some c) := by
        rw [List.getLast?_cons]
        cases a.getLast? with
        | none => rfl
        | some e => rfl
      rw [hlast]
      exact ih h.2

theorem eq_colon_of_toLower {c : Char} (h : c.toLower = ':') : c = ':' := by
  unfold Char.toLower at h
  split at h
  · rename_i hupper
    have hlow : 65 ≤ c.val.toNat := hupper.1
    have hhigh : c.val.toNat ≤ 90 := hupper.2
    have hval : c.val + 32 = 58 := congrArg Char.val h
    have hnat := congrArg UInt32.toNat hval
    rw [UInt32.toNat_add] at hnat
    change (c.val.toNat + 32) % 4294967296 = 58 at hnat
    omega
  · exact h

/-- A keyword with a prefix opens a block only where the keyword itself does. -/
theorem opensBlock_of_suffix {needle : Str} (p : Str) {s : Str} {prev : Option Char}
    (h : opensBlock needle prev s = false) : opensBlock (p ++ ':' :: needle) prev s = false := by
  induction s generalizing prev with
  | nil => rfl
  | cons c s ih =>
      have hrest := h
      rw [opensBlock, Bool.or_eq_false_iff] at hrest
      have hhere : opensHere (p ++ ':' :: needle) prev (c :: s) = false := by
        by_contra hopen
        rw [Bool.not_eq_false, opensHere, Bool.and_eq_true, Bool.and_eq_true, startsWith,
          List.isPrefixOf_iff_prefix] at hopen
        obtain ⟨⟨⟨t, ht⟩, -⟩, hbrace⟩ := hopen
        obtain ⟨a, x, b, hs, ha, hx, hb⟩ : ∃ a x b, c :: s = a ++ x :: b ∧ a.length = p.length ∧
            x.toLower = ':' ∧ needle ++ t = toAsciiLowercase b := by
          rw [List.append_assoc, List.cons_append, toAsciiLowercase, List.append_eq_map_iff] at ht
          obtain ⟨a, l, hs, ha, hl⟩ := ht
          obtain ⟨x, b, rfl, hx, hb⟩ := List.map_eq_cons_iff.mp hl
          exact ⟨a, x, b, hs, by rw [← ha, List.length_map], hx, hb.symm⟩
        have hcolon := eq_colon_of_toLower hx
        have hfront : c :: s = (a ++ [x]) ++ b := by
          rw [hs, List.append_assoc]
          rfl
        have hdrop : (c :: s).drop (p ++ ':' :: needle).length = b.drop needle.length := by
          have hlen : (p ++ ':' :: needle).length = (a ++ [x]).length + needle.length := by
            rw [List.length_append, List.length_append, List.length_cons, List.length_singleton, ha]
            omega
          rw [hfront, hlen, List.drop_append, Nat.add_sub_cancel_left,
            List.drop_eq_nil_of_le (Nat.le_add_right _ _), List.nil_append]
        rw [hfront] at h
        have hb' := opensBlock_of_append h
        rw [List.getLast?_append_of_ne_nil _ (by simp), List.getLast?_singleton] at hb'
        have hopen : opensHere needle (some x) b = true := by
          have hstart : startsWith needle (toAsciiLowercase b) = true := by
            rw [startsWith, List.isPrefixOf_iff_prefix, ← hb]
            exact List.prefix_append _ _
          rw [opensHere, hstart, ← hdrop, hbrace, hcolon]
          decide
        cases b with
        | nil =>
            rw [opensHere, List.drop_nil, Bool.and_eq_true] at hopen
            cases hopen.2
        | cons d b =>
            rw [Option.some_or, opensBlock, hopen] at hb'
            cases hb'
      rw [opensBlock, hhere, ih hrest.2]
      rfl

/-! ## The search -/

/-- An occurrence that opens no block has none after it. -/
theorem block_eq_none {needle : Str} {prev : Option Char} {s : Str}
    (h : opensHere needle prev s = false)
    (hstart : startsWith needle (toAsciiLowercase s) = true) :
    (if leftBoundary prev then blockAfter (s.drop needle.length) else none) = none := by
  rw [opensHere, hstart, Bool.true_and, Bool.and_eq_false_iff] at h
  rcases h with h | h
  · rw [h]
    rfl
  · rw [blockAfter, h]
    split
    · rfl
    · rfl

/-- Where the keyword opens no block the search finds none. -/
theorem searchBlock_eq_none {needle : Str} {s : Str} {prev : Option Char} (skip : ℕ)
    (h : opensBlock needle prev s = false) : searchBlock needle skip prev s = none := by
  induction s generalizing prev skip with
  | nil =>
      cases skip with
      | zero => rfl
      | succ skip => rfl
  | cons c s ih =>
      rw [opensBlock, Bool.or_eq_false_iff] at h
      cases skip with
      | succ skip =>
          rw [searchBlock]
          exact ih skip h.2
      | zero =>
          rw [searchBlock]
          split
          · rename_i hstart
            rw [block_eq_none h.1 hstart]
            exact ih _ h.2
          · exact ih 0 h.2

/-- The search gets past a fence, if the keyword opens no block before it. -/
theorem searchBlock_append_fence {needle : Str} {x : Char} (hx : Fence needle x)
    {prev : Option Char} {a : Str} (h : opensBlock needle prev (a ++ [x]) = false) (b : Str)
    {skip : ℕ} (hskip : skip ≤ a.length) :
    searchBlock needle skip prev (a ++ x :: b) = searchBlock needle 0 (some x) b := by
  induction a generalizing prev skip with
  | nil =>
      have hzero : skip = 0 := by simpa using hskip
      have hstart : startsWith needle (toAsciiLowercase (x :: b)) = needle.isEmpty := by
        have hfence := startsWith_append_fence hx [] b
        rw [List.nil_append] at hfence
        rw [hfence]
        cases needle with
        | nil => rfl
        | cons d ds => rfl
      rw [List.nil_append, opensBlock, Bool.or_eq_false_iff] at h
      rw [hzero, List.nil_append, searchBlock]
      split
      · rename_i htrue
        have hnil : needle = [] := by simpa [hstart] using htrue
        have hhere := opensHere_append_fence hx prev [] b
        rw [List.nil_append, List.nil_append] at hhere
        rw [block_eq_none (hhere.trans h.1) htrue, hnil]
        rfl
      · rfl
  | cons c a ih =>
      rw [List.cons_append, opensBlock, Bool.or_eq_false_iff] at h
      cases skip with
      | succ skip =>
          rw [List.cons_append, searchBlock]
          exact ih h.2 (by simpa using hskip)
      | zero =>
          have hhere := opensHere_append_fence hx prev (c :: a) b
          have hfence := startsWith_append_fence hx (c :: a) b
          rw [List.cons_append, List.cons_append] at hhere
          rw [List.cons_append] at hfence
          rw [List.cons_append, searchBlock]
          split
          · rename_i hstart
            have hlen : needle.length ≤ (c :: a).length := by
              rw [hfence, startsWith, List.isPrefixOf_iff_prefix] at hstart
              have hle := hstart.length_le
              rwa [toAsciiLowercase, List.length_map] at hle
            rw [block_eq_none (hhere.trans h.1) hstart]
            exact ih h.2 (by rw [List.length_cons] at hlen; omega)
          · exact ih h.2 (Nat.zero_le _)

/-- A keyword in front of a block whose braces pair up finds that block. -/
theorem searchBlock_block {needle gap body : Str} {prev : Option Char} (hne : needle ≠ [])
    (hneedle : toAsciiLowercase needle = needle) (hprev : leftBoundary prev = true)
    (hgap : ∀ c ∈ gap, isWhitespace c = true) (hbody : pairsUp 0 body = true) (rest : Str) :
    searchBlock needle 0 prev (needle ++ (gap ++ '{' :: (body ++ '}' :: rest))) =
      some ('{' :: (body ++ ['}'])) := by
  cases needle with
  | nil => exact absurd rfl hne
  | cons c cs =>
      have hstart : startsWith (c :: cs)
          (toAsciiLowercase (c :: (cs ++ (gap ++ '{' :: (body ++ '}' :: rest))))) = true := by
        rw [startsWith, List.isPrefixOf_iff_prefix, ← List.cons_append, toAsciiLowercase,
          List.map_append]
        change c :: cs <+: toAsciiLowercase (c :: cs) ++ _
        rw [hneedle]
        exact List.prefix_append _ _
      have hdrop : (c :: (cs ++ (gap ++ '{' :: (body ++ '}' :: rest)))).drop (c :: cs).length =
          gap ++ '{' :: (body ++ '}' :: rest) := by
        rw [← List.cons_append, List.drop_left]
      have htrim : trimStart (gap ++ '{' :: (body ++ '}' :: rest)) =
          '{' :: (body ++ '}' :: rest) := by
        rw [trimStart_blank_append hgap, trimStart_cons_of_not (by decide)]
      have hblock : blockAfter (gap ++ '{' :: (body ++ '}' :: rest)) =
          some ('{' :: (body ++ ['}'])) := by
        rw [blockAfter, htrim]
        exact closeBrace_block hbody rest
      rw [List.cons_append, searchBlock, if_pos hstart, if_pos hprev, hdrop, hblock]
      rfl

end Ldp

end SolidPod
