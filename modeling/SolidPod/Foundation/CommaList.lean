import SolidPod.Foundation.Text

/-!
# Lists between commas

The pieces of a text between its commas, without the white space around them and without the
pieces that are empty. A comma separates what is before it from what is behind, and white space
at the ends does not count.
-/

namespace Foundation

namespace Str

def commaPieces (raw : Str) : List Str :=
  ((raw.splitOn ',').map trim).filter fun s => !s.isEmpty

variable {a b s w : Str}

theorem commaPieces_append_comma (a b : Str) :
    commaPieces (a ++ ',' :: b) = commaPieces a ++ commaPieces b := by
  rw [commaPieces, List.splitOn_append_cons_self, List.map_append, List.filter_append]
  rfl

/-- A text without a comma is one piece, or none. -/
theorem commaPieces_of_notMem (h : ',' ∉ s) :
    commaPieces s = if trim s = [] then [] else [trim s] := by
  rw [commaPieces, List.splitOn_eq_singleton h]
  by_cases hs : trim s = []
  · simp [hs]
  · simp [hs]

/-! ## White space around a text -/

variable {c : Char}

theorem notMem_of_blank (hc : isWhitespace c = false) (hw : ∀ d ∈ w, isWhitespace d = true) :
    c ∉ w := by
  intro hmem
  rw [hw c hmem] at hc
  cases hc

theorem map_trim_splitOn_blank_append (hc : isWhitespace c = false)
    (hw : ∀ d ∈ w, isWhitespace d = true) :
    ((w ++ s).splitOn c).map trim = (s.splitOn c).map trim := by
  have hcw := notMem_of_blank hc hw
  by_cases hs : c ∈ s
  · obtain ⟨a, b, rfl, ha⟩ := List.eq_append_cons_of_mem hs
    have hwa : c ∉ w ++ a := by simp [hcw, ha]
    rw [← List.append_assoc, List.splitOn_append_cons_self, List.splitOn_append_cons_self,
      List.splitOn_eq_singleton hwa, List.splitOn_eq_singleton ha, List.map_append,
      List.map_append, List.map_singleton, List.map_singleton, trim_blank_append hw]
  · have hws : c ∉ w ++ s := by simp [hcw, hs]
    rw [List.splitOn_eq_singleton hws, List.splitOn_eq_singleton hs, List.map_singleton,
      List.map_singleton, trim_blank_append hw]

theorem map_trim_splitOn_append_blank (hc : isWhitespace c = false)
    (hw : ∀ d ∈ w, isWhitespace d = true) :
    ((s ++ w).splitOn c).map trim = (s.splitOn c).map trim := by
  have hcw := notMem_of_blank hc hw
  by_cases hs : c ∈ s
  · obtain ⟨a, b, rfl, hb⟩ := exists_last_mem hs
    have hbw : c ∉ b ++ w := by simp [hcw, hb]
    rw [List.append_assoc, List.cons_append, List.splitOn_append_cons_self,
      List.splitOn_append_cons_self, List.splitOn_eq_singleton hbw, List.splitOn_eq_singleton hb,
      List.map_append, List.map_append, List.map_singleton, List.map_singleton,
      trim_append_blank hw]
  · have hsw : c ∉ s ++ w := by simp [hcw, hs]
    rw [List.splitOn_eq_singleton hsw, List.splitOn_eq_singleton hs, List.map_singleton,
      List.map_singleton, trim_append_blank hw]

theorem map_trim_splitOn_trim (hc : isWhitespace c = false) (s : Str) :
    ((trim s).splitOn c).map trim = (s.splitOn c).map trim := by
  obtain ⟨w, w', hs, hw, hw'⟩ := exists_trim_eq s
  have hpieces := congrArg (fun t => (t.splitOn c).map trim) hs
  rw [map_trim_splitOn_append_blank hc hw', map_trim_splitOn_blank_append hc hw] at hpieces
  exact hpieces.symm

theorem commaPieces_blank_append (hw : ∀ d ∈ w, isWhitespace d = true) :
    commaPieces (w ++ s) = commaPieces s := by
  rw [commaPieces, map_trim_splitOn_blank_append (by decide) hw]
  rfl

theorem commaPieces_append_blank (hw : ∀ d ∈ w, isWhitespace d = true) :
    commaPieces (s ++ w) = commaPieces s := by
  rw [commaPieces, map_trim_splitOn_append_blank (by decide) hw]
  rfl

theorem commaPieces_trim (s : Str) : commaPieces (trim s) = commaPieces s := by
  rw [commaPieces, map_trim_splitOn_trim (by decide)]
  rfl

/-- The pieces of a list are the pieces of its members. -/
theorem commaPieces_join (l : List Str) : commaPieces (join "," l) = l.flatMap commaPieces := by
  induction l with
  | nil => rfl
  | cons a l ih =>
      cases l with
      | nil => simp [join]
      | cons b l =>
          have hjoin : join "," (a :: b :: l) = a ++ ',' :: join "," (b :: l) := by
            simp [join, List.intercalate]
          rw [hjoin, commaPieces_append_comma, ih]
          rfl

end Str

end Foundation
