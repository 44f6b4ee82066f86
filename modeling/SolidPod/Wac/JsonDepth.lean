import SolidPod.Foundation.JsonGrammar
import SolidPod.Wac.Resolver

/-!
# The depth of an ACL document

The scan for the depth of a document knows three things: how many brackets are open, whether a
string is open, and whether its last octet was a backslash. In a JSON text, as far as it is one,
the brackets it counts are the containers that are open.
-/

namespace SolidPod

namespace Wac

open Foundation Str JsonGrammar

/-- The state of the scan. -/
structure DepthScan where
  depth : ℕ
  inStr : Bool
  esc : Bool

namespace DepthScan

def step : DepthScan → UInt8 → DepthScan
  | ⟨depth, true, true⟩, _ => ⟨depth, true, false⟩
  | ⟨depth, true, false⟩, b =>
    if b = 0x5C then ⟨depth, true, true⟩
    else if b = 0x22 then ⟨depth, false, false⟩
    else ⟨depth, true, false⟩
  | ⟨depth, false, esc⟩, b =>
    if b = 0x22 then ⟨depth, true, esc⟩
    else if b = 0x7B ∨ b = 0x5B then ⟨depth + 1, false, esc⟩
    else if b = 0x7D ∨ b = 0x5D then ⟨depth - 1, false, esc⟩
    else ⟨depth, false, esc⟩

/-- The depth behind each octet. -/
def depths (s : DepthScan) : Bytes → List ℕ
  | [] => []
  | b :: bs => (s.step b).depth :: (s.step b).depths bs

variable {s : DepthScan} {max : ℕ} {b : UInt8}

theorem checkJsonDepthFrom_cons (bs : Bytes) (h : (s.step b).depth ≤ max) :
    checkJsonDepthFrom max s.depth s.inStr s.esc (b :: bs) =
      checkJsonDepthFrom max (s.step b).depth (s.step b).inStr (s.step b).esc bs := by
  obtain ⟨depth, inStr, esc⟩ := s
  cases inStr with
  | true =>
      cases esc with
      | true => rfl
      | false =>
          simp only [checkJsonDepthFrom, step, Bool.false_eq_true, if_false]
          split_ifs
          · rfl
          · rfl
          · rfl
  | false =>
      simp only [checkJsonDepthFrom, step, Bool.or_eq_true, decide_eq_true_eq] at h ⊢
      split_ifs at h ⊢ with hquote hopen hdeep
      · rfl
      · exact absurd h (Nat.not_le.mpr hdeep)
      · rfl
      · rfl
      · rfl

/-- The scan is refused at the first octet behind which the depth exceeds the bound. -/
theorem checkJsonDepthFrom_ne_ok (bs : Bytes) (h : s.depth ≤ max) (hlt : max < (s.step b).depth) :
    checkJsonDepthFrom max s.depth s.inStr s.esc (b :: bs) ≠ .ok () := by
  obtain ⟨depth, inStr, esc⟩ := s
  cases inStr with
  | true =>
      cases esc with
      | true => exact absurd h (Nat.not_le.mpr hlt)
      | false =>
          simp only [step] at h hlt
          split_ifs at hlt
          · exact absurd h (Nat.not_le.mpr hlt)
          · exact absurd h (Nat.not_le.mpr hlt)
          · exact absurd h (Nat.not_le.mpr hlt)
  | false =>
      simp only [checkJsonDepthFrom, step, Bool.or_eq_true, decide_eq_true_eq] at h hlt ⊢
      split_ifs at hlt ⊢ with hquote hopen hdeep
      · exact absurd h (Nat.not_le.mpr hlt)
      · rintro ⟨⟩
      · exact absurd hlt hdeep
      · exact absurd ((Nat.sub_le depth 1).trans h) (Nat.not_le.mpr hlt)
      · exact absurd h (Nat.not_le.mpr hlt)

theorem checkJsonDepthFrom_eq_ok_iff (bs : Bytes) (h : s.depth ≤ max) :
    checkJsonDepthFrom max s.depth s.inStr s.esc bs = .ok () ↔ ∀ d ∈ s.depths bs, d ≤ max := by
  induction bs generalizing s with
  | nil =>
      rw [checkJsonDepthFrom]
      simp [depths]
  | cons b bs ih =>
      rw [depths, List.forall_mem_cons]
      by_cases hle : (s.step b).depth ≤ max
      · rw [checkJsonDepthFrom_cons bs hle, ih hle, and_iff_right hle]
      · exact iff_of_false (checkJsonDepthFrom_ne_ok bs h (Nat.lt_of_not_le hle))
          fun hall => hle hall.1

/-- Where no string is open. -/
def outside (k : ℕ) : DepthScan := ⟨k, false, false⟩

def inside (k : ℕ) : DepthScan := ⟨k, true, false⟩

theorem depths_append (s : DepthScan) (x y : Bytes) :
    s.depths (x ++ y) = s.depths x ++ (x.foldl step s).depths y := by
  induction x generalizing s with
  | nil => rfl
  | cons b x ih => rw [List.cons_append, depths, ih, depths, List.foldl_cons, List.cons_append]

theorem length_depths (s : DepthScan) (x : Bytes) : (s.depths x).length = x.length := by
  induction x generalizing s with
  | nil => rfl
  | cons b x ih => rw [depths, List.length_cons, List.length_cons, ih]

/-- The scan comes out of the text as it went in, and between as deep as `heights` says. -/
def Passes (heights : List ℕ) (t : Bytes) : Prop :=
  ∀ k rest, (outside k).depths (t ++ rest) = heights.map (· + k) ++ (outside k).depths rest

variable {heights heights' : List ℕ} {t t' : Bytes}

theorem Passes.append (h : Passes heights t) (h' : Passes heights' t') :
    Passes (heights ++ heights') (t ++ t') := by
  intro k rest
  rw [List.append_assoc, h, h', List.map_append, List.append_assoc]

/-- An octet outside of strings that opens nothing. -/
def Quiet (b : UInt8) : Prop := b ∉ ([0x22, 0x7B, 0x5B, 0x7D, 0x5D] : Bytes)

instance (b : UInt8) : Decidable (Quiet b) := inferInstanceAs (Decidable (¬ _))

theorem step_outside_of_quiet {b : UInt8} (h : Quiet b) (k : ℕ) :
    (outside k).step b = outside k := by
  simp only [Quiet, List.mem_cons, not_or] at h
  obtain ⟨hquote, hbrace, hbracket, hbrace', hbracket', -⟩ := h
  rw [outside, step, if_neg hquote, if_neg (not_or.mpr ⟨hbrace, hbracket⟩),
    if_neg (not_or.mpr ⟨hbrace', hbracket'⟩)]

theorem Passes.nil : Passes [] [] := fun _ _ => rfl

theorem passes_singleton {b : UInt8} (h : Quiet b) : Passes [0] [b] := by
  intro k rest
  rw [List.singleton_append, depths, step_outside_of_quiet h, List.map_singleton, Nat.zero_add]
  rfl

theorem passes_quiet (h : ∀ b ∈ t, Quiet b) : Passes (level 0 t) t := by
  induction t with
  | nil => exact .nil
  | cons b t ih =>
      rw [List.forall_mem_cons] at h
      exact (passes_singleton h.1).append (ih h.2)

theorem quiet_of_blank (h : Blank t) : ∀ b ∈ t, Quiet b := by
  have hnot : ∀ b ∈ ([0x22, 0x7B, 0x5B, 0x7D, 0x5D] : Bytes), ¬ IsBlank b := by decide
  exact fun b hb hmem => hnot b hmem (h b hb)

theorem passes_blank (h : Blank t) : Passes (level 0 t) t := passes_quiet (quiet_of_blank h)

/-! ### Strings -/

/-- The scan stays in the string. -/
def Stays (t : Bytes) : Prop :=
  ∀ k rest, (inside k).depths (t ++ rest) = level k t ++ (inside k).depths rest

theorem Stays.nil : Stays [] := fun _ _ => rfl

theorem Stays.append (h : Stays t) (h' : Stays t') : Stays (t ++ t') := by
  intro k rest
  rw [List.append_assoc, h, h', level_append, List.append_assoc]

theorem stays_plain {b : UInt8} (hslash : b ≠ 0x5C) (hquote : b ≠ 0x22) : Stays [b] := by
  intro k rest
  have hstep : (inside k).step b = inside k := by
    rw [inside, step, if_neg hslash, if_neg hquote]
  rw [List.singleton_append, depths, hstep]
  rfl

theorem stays_escape (b : UInt8) : Stays [0x5C, b] := fun _ _ => rfl

theorem stays_hexDigits (h : ∀ b ∈ t, IsHexDigit b) : Stays t := by
  have hnot : ∀ b ∈ ([0x5C, 0x22] : Bytes), ¬ IsHexDigit b := by decide
  induction t with
  | nil => exact .nil
  | cons b t ih =>
      rw [List.forall_mem_cons] at h
      have hslash : b ≠ 0x5C := fun heq => hnot _ (by decide) (heq ▸ h.1)
      have hquote : b ≠ 0x22 := fun heq => hnot _ (by decide) (heq ▸ h.1)
      exact (stays_plain hslash hquote).append (ih h.2)

theorem stays_chars (h : Chars t) : Stays t := by
  induction h with
  | nil => exact .nil
  | plain _ hquote hslash _ ih => exact (stays_plain hslash hquote).append ih
  | escape _ _ ih => exact (stays_escape _).append ih
  | unicode _ hds _ ih => exact (stays_escape _).append ((stays_hexDigits hds).append ih)

/-- A literal is left at its last quote and not before. -/
theorem passes_literal (h : IsLiteral t) : Passes (level 0 t) t := by
  cases h with
  | @quoted s h =>
      intro k rest
      have hopen : (outside k).step 0x22 = inside k := rfl
      have hclose : (inside k).step 0x22 = outside k := rfl
      have hlevel : (level 0 (0x22 :: (s ++ [0x22]))).map (· + k) = k :: (level k s ++ [k]) := by
        rw [level, List.length_cons, List.length_append, List.length_singleton,
          List.map_replicate, Nat.zero_add, List.replicate_succ, List.replicate_succ']
        rfl
      rw [hlevel, List.cons_append, depths, hopen, List.append_assoc, stays_chars h,
        List.singleton_append, depths, hclose, List.cons_append, List.append_assoc]
      rfl

/-! ### The rest of the grammar -/

theorem quiet_of_isDigit {b : UInt8} (h : IsDigit b) : Quiet b := by
  have hnot : ∀ b ∈ ([0x22, 0x7B, 0x5B, 0x7D, 0x5D] : Bytes), ¬ IsDigit b := by decide
  exact fun hmem => hnot b hmem h

theorem quiet_of_isInteger (h : IsInteger t) : ∀ b ∈ t, Quiet b := by
  cases h with
  | zero => decide
  | digits hd _ h =>
      rw [List.forall_mem_cons]
      exact ⟨quiet_of_isDigit hd, fun b hb => quiet_of_isDigit (h b hb)⟩

theorem quiet_of_isFraction (h : IsFraction t) : ∀ b ∈ t, Quiet b := by
  cases h with
  | none => decide
  | digits h =>
      rw [List.forall_mem_cons]
      exact ⟨by decide, fun b hb => quiet_of_isDigit (h.digit b hb)⟩

theorem quiet_of_isExponent (h : IsExponent t) : ∀ b ∈ t, Quiet b := by
  cases h with
  | none => decide
  | digits he hsign h =>
      rw [List.forall_mem_cons, List.forall_mem_append]
      refine ⟨?_, ?_, fun b hb => quiet_of_isDigit (h.digit b hb)⟩
      · rcases he with rfl | rfl
        · decide
        · decide
      · rcases hsign with rfl | rfl | rfl
        · decide
        · decide
        · decide

theorem passes_scalar (h : Scalar t) : Passes (level 0 t) t := by
  cases h with
  | null => exact passes_quiet (by decide)
  | true => exact passes_quiet (by decide)
  | false => exact passes_quiet (by decide)
  | number hsign hint hfrac hexp =>
      refine passes_quiet ?_
      rw [List.forall_mem_append, List.forall_mem_append, List.forall_mem_append]
      refine ⟨?_, quiet_of_isInteger hint, quiet_of_isFraction hfrac, quiet_of_isExponent hexp⟩
      rcases hsign with rfl | rfl
      · decide
      · decide
  | literal h => exact passes_literal h

theorem passes_lead {c : Container} (h : Lead c t) : Passes (level 0 t) t := by
  cases h with
  | item hw => exact passes_blank hw
  | @key w k w' w'' hw hk hw' hw'' =>
      have hcolon : Passes (level 0 (0x3A :: w'')) (0x3A :: w'') := by
        refine passes_quiet ?_
        rw [List.forall_mem_cons]
        exact ⟨by decide, quiet_of_blank hw''⟩
      rw [level_append, level_append, level_append]
      exact (passes_blank hw).append ((passes_literal hk).append ((passes_blank hw').append hcolon))

/-- Inside of a container the scan is one deeper. -/
theorem Passes.enclosed (c : Container) (h : Passes heights t) :
    Passes (1 :: (heights.map (· + 1) ++ [0])) (c.left :: (t ++ [c.right])) := by
  intro k rest
  have hopen : (outside k).step c.left = outside (k + 1) := by
    cases c with
    | array => rfl
    | object => rfl
  have hclose : (outside (k + 1)).step c.right = outside k := by
    cases c with
    | array => rfl
    | object => rfl
  have hheights : (1 :: (heights.map (· + 1) ++ [0])).map (· + k) =
      (k + 1) :: (heights.map (· + (k + 1)) ++ [k]) := by
    simp [Nat.add_comm, Nat.add_left_comm]
  rw [hheights, List.cons_append, depths, hopen, List.append_assoc, h, List.singleton_append,
    depths, hclose, List.cons_append, List.append_assoc]
  rfl

theorem passes_of_derives {c : Option Container} (h : Derives c heights t) :
    Passes heights t := by
  induction h with
  | scalar h => exact passes_scalar h
  | @empty c w hw =>
      have henclosed := (passes_blank hw).enclosed c
      rwa [level, List.map_replicate] at henclosed
  | nested _ ih => exact ih.enclosed _
  | last hl _ hw ih => exact (passes_lead hl).append (ih.append (passes_blank hw))
  | more hl _ hw _ ih ih' =>
      exact (passes_lead hl).append (ih.append ((passes_blank hw).append
        ((passes_singleton (by decide)).append ih')))

theorem passes_of_text (h : Text heights t) : Passes heights t := by
  cases h with
  | value hw h hw' =>
      exact (passes_blank hw).append ((passes_of_derives h).append (passes_blank hw'))

theorem depths_of_text (h : Text heights t) : (outside 0).depths t = heights := by
  have hpass := passes_of_text h 0 []
  rw [List.append_nil] at hpass
  rw [hpass]
  simp [depths]

theorem checkJsonDepth_eq_ok_iff (body : Bytes) (bound : ℕ) :
    checkJsonDepth body bound = .ok () ↔ ∀ d ∈ (outside 0).depths body, d ≤ bound :=
  checkJsonDepthFrom_eq_ok_iff (s := outside 0) body (Nat.zero_le bound)

/-- What has been read is as deep as the scan behind it. -/
theorem opened_mem_of_reached {p : Bytes} {opened : ℕ} (h : Reached p opened) :
    opened ∈ 0 :: (outside 0).depths p := by
  obtain ⟨heights, t, htext, ⟨rest, rfl⟩, hopened⟩ := h
  rw [← depths_of_text htext, depths_append, ← List.cons_append,
    List.getElem?_append_left (by rw [List.length_cons, length_depths]; omega)] at hopened
  exact List.mem_of_getElem? hopened

theorem opened_le_of_ok {body p : Bytes} {bound opened : ℕ}
    (hok : checkJsonDepth body bound = .ok ()) (hp : p <+: body) (h : Reached p opened) :
    opened ≤ bound := by
  obtain ⟨rest, rfl⟩ := hp
  rw [checkJsonDepth_eq_ok_iff, depths_append, List.forall_mem_append] at hok
  rcases List.mem_cons.mp (opened_mem_of_reached h) with rfl | hmem
  · exact Nat.zero_le bound
  · exact hok.1 opened hmem

theorem checkJsonDepth_eq_ok_iff_of_nested {body : Bytes} {depth : ℕ} (h : Nested depth body)
    (bound : ℕ) : checkJsonDepth body bound = .ok () ↔ depth ≤ bound := by
  obtain ⟨heights, htext, rfl⟩ := h
  rw [checkJsonDepth_eq_ok_iff, depths_of_text htext, foldr_max_le_iff]

/-- A document whose fate depends on the library's reader takes it no deeper than the limit. -/
theorem opened_le_of_reads {fromSlice fromSlice' : Bytes → Except Str AclDocument}
    {body p : Bytes} {maxBytes maxDepth opened : ℕ}
    (hreads : parseJsonldAclWithLimits fromSlice body maxBytes maxDepth ≠
      parseJsonldAclWithLimits fromSlice' body maxBytes maxDepth)
    (hp : p <+: body) (h : Reached p opened) : opened ≤ maxDepth := by
  cases hcheck : checkJsonDepth body maxDepth with
  | ok _ => exact opened_le_of_ok hcheck hp h
  | error e =>
      refine absurd ?_ hreads
      simp only [parseJsonldAclWithLimits, hcheck]

end DepthScan

open DepthScan

/-- The check lets no reader of JSON go deeper than its bound, also not in a document that the
reader refuses later on, and lets every text through that is not nested deeper. -/
theorem checkJsonDepth_bounds_nesting (body : Bytes) (bound : ℕ) :
    (checkJsonDepth body bound = .ok () →
      (∀ depth, Nested depth body → depth ≤ bound) ∧
        ∀ p opened, p <+: body → Reached p opened → opened ≤ bound) ∧
      ∀ depth, Nested depth body → depth ≤ bound → checkJsonDepth body bound = .ok () :=
  ⟨fun hok => ⟨fun _ h => (checkJsonDepth_eq_ok_iff_of_nested h bound).mp hok,
      fun _ _ => opened_le_of_ok hok⟩,
    fun _ h => (checkJsonDepth_eq_ok_iff_of_nested h bound).mpr⟩

/-- An array below a key that is a bracket. -/
theorem nested_bracketKey : Nested 2 [0x7B, 0x22, 0x5B, 0x22, 0x3A, 0x5B, 0x5D, 0x7D] := by
  have hnil : Blank [] := by decide
  have hkey : IsLiteral [0x22, 0x5B, 0x22] :=
    .quoted (.plain (by decide) (by decide) (by decide) .nil)
  exact ⟨[1, 1, 1, 1, 1, 2, 1, 0],
    .value hnil (.nested (.last (.key hnil hkey hnil hnil) (.empty .array hnil) hnil)) hnil, rfl⟩

theorem checkJsonDepth_bracketKey :
    checkJsonDepth [0x7B, 0x22, 0x5B, 0x22, 0x3A, 0x5B, 0x5D, 0x7D] 2 = .ok () :=
  (checkJsonDepth_bounds_nesting _ 2).2 2 nested_bracketKey (Nat.le_refl 2)

end Wac

end SolidPod
