import SolidPod.Foundation.EndedLines
import SolidPod.Foundation.Numerals
import SolidPod.Foundation.Search
import SolidPod.Git.Service

/-!
# What the git backend answers

The backend writes lines of headers, a blank line and a body of any octets. The
reader looks for the blank line in the whole of the output: for two line ends of two
octets first, and only when there are none for two of one octet. A backend that ends
its lines with one octet is read as far as its body has no blank line of the other
kind; if it has one, all of the output up to there is taken for headers.
-/

namespace SolidPod

open Foundation Str EndedLines

namespace Git

def crlfBlankLine : Bytes := [0x0D, 0x0A, 0x0D, 0x0A]

def lfBlankLine : Bytes := [0x0A, 0x0A]

def findSubsequence (haystack needle : Bytes) : Option ℕ := firstInfix needle haystack

/-- The place and the length of the blank line. -/
def findSeparator (stdout : Bytes) : Option (ℕ × ℕ) :=
  match findSubsequence stdout crlfBlankLine with
  | some i => some (i, 4)
  | none => (findSubsequence stdout lfBlankLine).map fun i => (i, 2)

/-- The status and the headers that were read so far. -/
structure CgiHead where
  status : ℕ
  headers : List (Str × Str)
  deriving DecidableEq

def splitWhitespace (s : Str) : List Str := (s.splitOnP isWhitespace).filter fun w => !w.isEmpty

/-- The number that a value begins with. -/
def readStatus (value : Str) : ℕ :=
  ((splitWhitespace value).head?.bind (parseUnsigned 16)).getD 200

/-- Whether a header is the one for the status. -/
def isStatusField (h : Str × Str) : Bool :=
  toAsciiLowercase h.1 = toAsciiLowercase "status"

def readField (head : CgiHead) (h : Str × Str) : CgiHead :=
  if isStatusField h then { head with status := readStatus h.2 }
  else { head with headers := head.headers ++ [h] }

def readLine (head : CgiHead) (line : Str) : CgiHead :=
  let line := trim line
  if line.isEmpty then head
  else
    match splitOnce ':' line with
    | none => head
    | some (key, value) => readField head (trim key, trim value)

def isLineBreak (c : Char) : Bool := c == '\n' || c == '\r'

def readHead (headerSection : Str) : CgiHead :=
  (headerSection.splitOnP isLineBreak).foldl readLine ⟨200, []⟩

def corsHeaders : List (Str × Str) :=
  [("Access-Control-Allow-Origin", "*"),
    ("Access-Control-Allow-Methods", "GET, POST, OPTIONS"),
    ("Access-Control-Allow-Headers", "Content-Type, Authorization")]

/-- The answer to the client. `utf8Error` is what is said of octets that are no UTF-8. -/
def parseCgiOutput (utf8Error : Bytes → Str) (stdout : Bytes) : Except GitError GitResponse :=
  match findSeparator stdout with
  | none => .error (.malformedCgi "no header/body separator")
  | some (sepIdx, sepLen) =>
    match fromUtf8 (stdout.take sepIdx) with
    | none => .error (.malformedCgi (("utf-8 in headers: " : Str) ++
        utf8Error (stdout.take sepIdx)))
    | some headerSection =>
      let head := readHead headerSection
      .ok ⟨head.status, head.headers ++ corsHeaders, stdout.drop (sepIdx + sepLen)⟩

/-- How a backend ends its lines. -/
inductive LineEnding where
  | crlf
  | lf
  deriving DecidableEq

def LineEnding.mark : LineEnding → Str
  | .crlf => "\r\n"
  | .lf => "\n"

/-- The header for a status, with or without words for it. -/
def statusField (status : ℕ) (reason : Option Str) : Str × Str :=
  ("Status", Nat.toDigits 10 status ++ reason.elim [] fun r => ' ' :: r)

def headerLine (h : Str × Str) : Str := h.1 ++ ':' :: ' ' :: h.2

/-- The lines that a backend writes. -/
def headerLines (status : ℕ) (reason : Option Str) (headers : List (Str × Str)) : List Str :=
  (statusField status reason :: headers).map headerLine

/-- What a backend writes for an answer. -/
def renderCgi (ending : LineEnding) (status : ℕ) (reason : Option Str)
    (headers : List (Str × Str)) (body : Bytes) : Bytes :=
  utf8 (ended ending.mark (headerLines status reason headers) ++ ending.mark) ++ body

/-- A header that can be written on a line. -/
structure IsField (h : Str × Str) : Prop where
  colon : ':' ∉ h.1
  name_line : ∀ c ∈ h.1, isLineBreak c = false
  name_trim : trim h.1 = h.1
  value_line : ∀ c ∈ h.2, isLineBreak c = false
  value_trim : trim h.2 = h.2

section Separator

variable {a body : Bytes}

theorem findSeparator_crlf (body : Bytes) (h : ¬ crlfBlankLine <:+: a ++ crlfBlankLine.dropLast) :
    findSeparator (a ++ (crlfBlankLine ++ body)) = some (a.length, 4) := by
  rw [findSeparator, findSubsequence, firstInfix_append_append h]

theorem findSeparator_lf (hcrlf : ¬ crlfBlankLine <:+: a ++ (lfBlankLine ++ body))
    (h : ¬ lfBlankLine <:+: a ++ lfBlankLine.dropLast) :
    findSeparator (a ++ (lfBlankLine ++ body)) = some (a.length, 2) := by
  rw [findSeparator, findSubsequence, firstInfix_eq_none.mpr hcrlf, findSubsequence,
    firstInfix_append_append h]
  rfl

end Separator

section Output

variable {i n : ℕ}

theorem parseCgiOutput_of_findSeparator (utf8Error : Bytes → Str) {t : Str} {sep body : Bytes}
    (h : findSeparator (utf8 t ++ (sep ++ body)) = some ((utf8 t).length, sep.length)) :
    parseCgiOutput utf8Error (utf8 t ++ (sep ++ body)) =
      .ok ⟨(readHead t).status, (readHead t).headers ++ corsHeaders, body⟩ := by
  have hdrop : (utf8 t ++ (sep ++ body)).drop ((utf8 t).length + sep.length) = body := by
    rw [← List.append_assoc, ← List.length_append, List.drop_left]
  simp only [parseCgiOutput, h, List.take_left, fromUtf8_utf8, hdrop]

/-- Whatever the headers are, the body is what follows the separator. -/
theorem body_of_parseCgiOutput {utf8Error : Bytes → Str} {stdout : Bytes} {r : GitResponse}
    (hsep : findSeparator stdout = some (i, n)) (h : parseCgiOutput utf8Error stdout = .ok r) :
    r.body = stdout.drop (i + n) := by
  simp only [parseCgiOutput, hsep] at h
  split at h
  · cases h
  · cases h
    rfl

end Output

section Reading

/-- A line with a colon is read as the two texts around it. -/
theorem readLine_headerLine {h : Str × Str} (hcolon : ':' ∉ h.1) (head : CgiHead) :
    readLine head (headerLine h) = readField head (trim h.1, trim h.2) := by
  have hline : trim (headerLine h) = trimStart h.1 ++ ':' :: trimEnd (' ' :: h.2) := by
    rw [headerLine, trim, trimStart_append_cons (by decide), trimEnd_append_cons (by decide)]
  have hname : ':' ∉ trimStart h.1 := fun hmem =>
    hcolon ((List.dropWhile_suffix isWhitespace).subset hmem)
  have hvalue : trim (' ' :: h.2) = trim h.2 :=
    trim_blank_append (w := [' ']) (by decide) h.2
  simp only [readLine, hline]
  rw [if_neg (by simp), splitOnce_append hname]
  simp only [trim_trimStart, trim_trimEnd, hvalue]

theorem head?_splitWhitespace {word rest : Str} (hne : word ≠ [])
    (hword : ∀ c ∈ word, isWhitespace c = false)
    (hrest : ∀ c ∈ rest.head?, isWhitespace c = true) :
    (splitWhitespace (word ++ rest)).head? = some word := by
  cases rest with
  | nil =>
      rw [List.append_nil, splitWhitespace, List.splitOnP_eq_singleton hword]
      simp [hne]
  | cons c rest =>
      rw [splitWhitespace, List.splitOnP_append_cons_of_forall_mem hword c (hrest c rfl)]
      simp [hne]

/-- The status is read from its number, with words behind it or without. -/
theorem readStatus_statusField {status : ℕ} (hstatus : status < 2 ^ 16) (reason : Option Str) :
    readStatus (trim (statusField status reason).2) = status := by
  have hdigits : ∀ c ∈ Nat.toDigits 10 status, isWhitespace c = false := fun c hc =>
    isWhitespace_of_isDigit (Nat.isDigit_of_mem_toDigits (by decide) (by decide) hc)
  have hrest : ∀ c ∈ (trimEnd (reason.elim [] fun r => ' ' :: r)).head?,
      isWhitespace c = true := by
    intro c hc
    obtain ⟨tail, htail⟩ := List.rdropWhile_prefix isWhitespace (reason.elim [] fun r => ' ' :: r)
    change trimEnd _ ++ tail = _ at htail
    cases hend : trimEnd (reason.elim [] fun r => ' ' :: r) with
    | nil =>
        rw [hend] at hc
        cases hc
    | cons d rest =>
        rw [hend] at hc htail
        cases hc
        cases reason with
        | none => cases htail
        | some r =>
            cases htail
            rfl
  have hvalue : trim (statusField status reason).2 =
      Nat.toDigits 10 status ++ trimEnd (reason.elim [] fun r => ' ' :: r) :=
    trim_word_append Nat.toDigits_ne_nil hdigits _
  have hfirst := head?_splitWhitespace Nat.toDigits_ne_nil hdigits hrest
  rw [readStatus, hvalue, hfirst, Option.bind_some, parseUnsigned_toDigits hstatus,
    Option.getD_some]

theorem headers_foldl_readField (fields : List (Str × Str)) (head : CgiHead) :
    (fields.foldl readField head).headers =
      head.headers ++ fields.filter fun h => !isStatusField h := by
  induction fields generalizing head with
  | nil => exact (List.append_nil _).symm
  | cons h fields ih =>
      rw [List.foldl_cons, ih, readField]
      cases hfield : isStatusField h with
      | true => simp [hfield]
      | false => simp [hfield]

theorem foldl_readField_of_plain {fields : List (Str × Str)}
    (hplain : ∀ h ∈ fields, isStatusField h = false) (head : CgiHead) :
    fields.foldl readField head = { head with headers := head.headers ++ fields } := by
  induction fields generalizing head with
  | nil => simp
  | cons h fields ih =>
      rw [List.forall_mem_cons] at hplain
      rw [List.foldl_cons, ih hplain.2, readField, hplain.1]
      simp

end Reading

section Rendering

variable {utf8Error : Bytes → Str} {ending : LineEnding} {status : ℕ} {reason : Option Str}
  {headers : List (Str × Str)} {body : Bytes}

theorem isLineBreak_of_mem_headerLine {h : Str × Str} (hname : ∀ c ∈ h.1, isLineBreak c = false)
    (hvalue : ∀ c ∈ h.2, isLineBreak c = false) : ∀ c ∈ headerLine h, isLineBreak c = false := by
  intro c hc
  rw [headerLine, List.mem_append, List.mem_cons, List.mem_cons] at hc
  rcases hc with hc | rfl | rfl | hc
  · exact hname c hc
  · rfl
  · rfl
  · exact hvalue c hc

theorem isLineBreak_of_mem_headerLines (status : ℕ)
    (hreason : ∀ r ∈ reason, ∀ c ∈ r, isLineBreak c = false)
    (hheaders : ∀ h ∈ headers, IsField h) :
    ∀ l ∈ headerLines status reason headers, ∀ c ∈ l, isLineBreak c = false := by
  rw [headerLines, List.map_cons, List.forall_mem_cons]
  have hname : ∀ c ∈ ("Status" : Str), isLineBreak c = false := by decide
  refine ⟨isLineBreak_of_mem_headerLine hname fun c hc => ?_, ?_⟩
  · rcases List.mem_append.mp hc with hdigit | hword
    · have hwhite := isWhitespace_of_isDigit
        (Nat.isDigit_of_mem_toDigits (by decide) (by decide) hdigit)
      cases hbreak : isLineBreak c with
      | false => rfl
      | true =>
          rw [isLineBreak, Bool.or_eq_true, beq_iff_eq, beq_iff_eq] at hbreak
          rcases hbreak with rfl | rfl <;> cases hwhite
    · cases reason with
      | none => cases hword
      | some r =>
          rcases List.mem_cons.mp hword with rfl | hword
          · rfl
          · exact hreason r rfl c hword
  · intro l hl
    obtain ⟨h, hmem, rfl⟩ := List.mem_map.mp hl
    exact isLineBreak_of_mem_headerLine (hheaders h hmem).name_line (hheaders h hmem).value_line

/-- The lines up to the line end of the last one. -/
def renderHead (ending : LineEnding) (status : ℕ) (reason : Option Str)
    (headers : List (Str × Str)) : Str :=
  joined ending.mark (headerLine (statusField status reason)) (headers.map headerLine)

theorem renderCgi_eq (ending : LineEnding) (status : ℕ) (reason : Option Str)
    (headers : List (Str × Str)) (body : Bytes) :
    renderCgi ending status reason headers body =
      utf8 (renderHead ending status reason headers) ++
        (utf8 (ending.mark ++ ending.mark) ++ body) := by
  rw [renderCgi, headerLines, List.map_cons, ended_cons, renderHead]
  simp only [utf8_append, List.append_assoc]

/-- The headers of a list are read in their order, but for those for the status. -/
theorem readHead_renderHead (hreason : ∀ r ∈ reason, ∀ c ∈ r, isLineBreak c = false)
    (hstatus : status < 2 ^ 16) (hheaders : ∀ h ∈ headers, IsField h) :
    readHead (renderHead ending status reason headers) =
      headers.foldl readField ⟨status, []⟩ := by
  have hblank : ∀ head, readLine head [] = head := fun head => rfl
  have hne : ending.mark ≠ [] := by cases ending <;> decide
  have hmark : ∀ c ∈ ending.mark, isLineBreak c = true := by cases ending <;> decide
  have hlines := isLineBreak_of_mem_headerLines status hreason hheaders
  rw [headerLines, List.map_cons] at hlines
  have hfields : ∀ head, (headers.map headerLine).foldl readLine head =
      headers.foldl readField head := by
    intro head
    rw [List.foldl_map]
    refine List.foldl_ext _ _ _ fun head h hmem => ?_
    have hfield := hheaders h hmem
    rw [readLine_headerLine hfield.colon, hfield.name_trim, hfield.value_trim]
  have hfirst : readLine ⟨200, []⟩ (headerLine (statusField status reason)) = ⟨status, []⟩ := by
    have hcolon : ':' ∉ ("Status" : Str) := by decide
    rw [readLine_headerLine hcolon]
    change CgiHead.mk (readStatus (trim (statusField status reason).2)) [] = _
    rw [readStatus_statusField hstatus]
  rw [readHead, renderHead, foldl_splitOnP_joined hblank hne hmark hlines, List.foldl_cons,
    hfirst, hfields]

theorem utf8_joined (mark l : Str) (ls : List Str) :
    utf8 (joined mark l ls) = joined (utf8 mark) (utf8 l) (ls.map utf8) := by
  rw [joined, utf8_append, utf8_flatMap, joined, List.flatMap_map]
  simp only [utf8_append]

/-- The octet of a line break is in no line. -/
theorem octet_notMem_headerLines (hreason : ∀ r ∈ reason, ∀ c ∈ r, isLineBreak c = false)
    (hheaders : ∀ h ∈ headers, IsField h) {c : Char} (hc : isLineBreak c = true)
    (hascii : isAscii c = true) :
    ∀ l ∈ headerLines status reason headers, UInt8.ofNat c.toNat ∉ utf8 l := by
  intro l hl hmem
  have hline := isLineBreak_of_mem_headerLines status hreason hheaders l hl c
    (mem_of_octet_mem_utf8 hascii hmem)
  rw [hc] at hline
  cases hline

/-- No blank line stands in the headers. -/
theorem not_infix_renderHead {b : UInt8} {bs : Bytes} (hmark : utf8 ending.mark = b :: bs)
    (hb : b ∉ bs) (hlines : ∀ l ∈ headerLines status reason headers, b ∉ utf8 l) :
    ¬ (b :: bs) ++ (b :: bs) <:+: utf8 (renderHead ending status reason headers) ++
      ((b :: bs) ++ (b :: bs)).dropLast := by
  rw [renderHead, utf8_joined, hmark]
  refine not_infix_joined hb fun octets hoctets => ?_
  rw [← List.map_cons, ← List.map_cons, List.map_map, List.mem_map] at hoctets
  obtain ⟨h, hh, rfl⟩ := hoctets
  refine ⟨fun hnil => ?_, hlines _ (List.mem_map_of_mem hh)⟩
  have hchars : headerLine h = [] := utf8_injective hnil
  rw [headerLine] at hchars
  exact List.append_ne_nil_of_right_ne_nil _ (List.cons_ne_nil _ _) hchars

/-- The lines of one kind of line end have no octet of the other. -/
theorem cr_notMem_renderHead (hreason : ∀ r ∈ reason, ∀ c ∈ r, isLineBreak c = false)
    (hheaders : ∀ h ∈ headers, IsField h) :
    ∀ b ∈ utf8 (renderHead .lf status reason headers) ++ lfBlankLine,
      crlfBlankLine.head? ≠ some b := by
  intro b hb hhead
  cases hhead
  rcases List.mem_append.mp hb with hmem | hmem
  · have hchar : '\r' ∈ renderHead .lf status reason headers :=
      mem_of_octet_mem_utf8 (by decide) hmem
    have hlines := isLineBreak_of_mem_headerLines status hreason hheaders
    rw [headerLines, List.map_cons, List.forall_mem_cons] at hlines
    rw [renderHead, joined, List.mem_append, List.mem_flatMap] at hchar
    rcases hchar with hchar | ⟨l, hl, hchar⟩
    · cases hlines.1 _ hchar
    · rcases List.mem_append.mp hchar with hchar | hchar
      · revert hchar
        decide
      · cases hlines.2 l hl _ hchar
  · revert hmem
    decide

/-- The separator is found behind the headers, unless the body of short line ends has
a blank line of the long ones. -/
theorem findSeparator_renderCgi (hreason : ∀ r ∈ reason, ∀ c ∈ r, isLineBreak c = false)
    (hheaders : ∀ h ∈ headers, IsField h) (hbody : ending = .lf → ¬ crlfBlankLine <:+: body) :
    findSeparator (utf8 (renderHead ending status reason headers) ++
        (utf8 (ending.mark ++ ending.mark) ++ body)) =
      some ((utf8 (renderHead ending status reason headers)).length,
        (utf8 (ending.mark ++ ending.mark)).length) := by
  cases ending with
  | crlf =>
      have hmark : utf8 LineEnding.crlf.mark = 0x0D :: [0x0A] := rfl
      refine findSeparator_crlf body (not_infix_renderHead hmark (by decide) ?_)
      exact octet_notMem_headerLines (c := '\r') hreason hheaders rfl rfl
  | lf =>
      have hmark : utf8 LineEnding.lf.mark = 0x0A :: [] := rfl
      refine findSeparator_lf ?_ ?_
      · rw [← List.append_assoc, infix_append_iff_of_head (by decide)
          (cr_notMem_renderHead hreason hheaders)]
        exact hbody rfl
      · refine not_infix_renderHead hmark List.not_mem_nil ?_
        exact octet_notMem_headerLines (c := '\n') hreason hheaders rfl rfl

/-- A blank line of long line ends in the body is taken for the separator when the
backend writes short ones, and all before it is lost from the body. -/
theorem not_infix_of_parseCgiOutput (hreason : ∀ r ∈ reason, ∀ c ∈ r, isLineBreak c = false)
    (hheaders : ∀ h ∈ headers, IsField h) {r : GitResponse}
    (h : parseCgiOutput utf8Error (renderCgi .lf status reason headers body) = .ok r)
    (hbody : r.body = body) : ¬ crlfBlankLine <:+: body := by
  intro hblank
  obtain ⟨a, rest, rfl, hfirst⟩ := exists_append_firstInfix (by decide) hblank
  have hrender : renderCgi .lf status reason headers (a ++ (crlfBlankLine ++ rest)) =
      utf8 (renderHead .lf status reason headers) ++ lfBlankLine ++ a ++
        (crlfBlankLine ++ rest) := by
    rw [renderCgi_eq]
    simp only [List.append_assoc]
    rfl
  have hbefore : ¬ crlfBlankLine <:+: utf8 (renderHead .lf status reason headers) ++
      lfBlankLine ++ a ++ crlfBlankLine.dropLast := by
    rwa [List.append_assoc, infix_append_iff_of_head (by decide)
      (cr_notMem_renderHead hreason hheaders)]
  rw [hrender] at h
  have hrest := body_of_parseCgiOutput (findSeparator_crlf rest hbefore) h
  rw [hbody, ← List.append_assoc, ← List.append_assoc] at hrest
  have hlength := congrArg List.length hrest
  simp only [List.length_drop, List.length_append] at hlength
  have hfour : crlfBlankLine.length = 4 := rfl
  omega

/-- What a backend writes is read as the status, the headers and the body that it was
written for exactly when no header is itself one for the status and, if the lines end
in one octet, the body has no blank line of the long line ends. -/
theorem parseCgiOutput_renderCgi_iff (utf8Error : Bytes → Str) (ending : LineEnding)
    (hstatus : status < 2 ^ 16) (hreason : ∀ r ∈ reason, ∀ c ∈ r, isLineBreak c = false)
    (hheaders : ∀ h ∈ headers, IsField h) (body : Bytes) :
    parseCgiOutput utf8Error (renderCgi ending status reason headers body) =
        .ok ⟨status, headers ++ corsHeaders, body⟩ ↔
      (∀ h ∈ headers, toAsciiLowercase h.1 ≠ toAsciiLowercase "status") ∧
        (ending = .lf → ¬ crlfBlankLine <:+: body) := by
  have hplain : (∀ h ∈ headers, toAsciiLowercase h.1 ≠ toAsciiLowercase "status") ↔
      ∀ h ∈ headers, isStatusField h = false := by
    simp only [isStatusField, decide_eq_false_iff_not, ne_eq]
  rw [hplain]
  have hparse : (ending = .lf → ¬ crlfBlankLine <:+: body) →
      parseCgiOutput utf8Error (renderCgi ending status reason headers body) =
        .ok ⟨(headers.foldl readField ⟨status, []⟩).status,
          (headers.foldl readField ⟨status, []⟩).headers ++ corsHeaders, body⟩ := by
    intro hbody
    rw [renderCgi_eq, parseCgiOutput_of_findSeparator utf8Error
      (findSeparator_renderCgi hreason hheaders hbody),
      readHead_renderHead hreason hstatus hheaders]
  constructor
  · intro h
    have hbody : ending = .lf → ¬ crlfBlankLine <:+: body := by
      rintro rfl
      exact not_infix_of_parseCgiOutput hreason hheaders h rfl
    refine ⟨fun field hfield => ?_, hbody⟩
    rw [hparse hbody] at h
    have hread := congrArg GitResponse.headers (Except.ok.inj h)
    simp only [headers_foldl_readField, List.nil_append, List.append_cancel_right_eq] at hread
    simpa using List.filter_eq_self.mp hread field hfield
  · rintro ⟨hfields, hbody⟩
    rw [hparse hbody, foldl_readField_of_plain hfields]
    rfl

/-- A body with a blank line of the long line ends. -/
def packBody : Bytes := utf8 "PACK\r\n\r\nDATA"

def packHeaders : List (Str × Str) := [("Content-Type", "application/x-git"), ("Expires", "")]

/-- What is read as headers when the body is cut. -/
def packHead : Str := "Status: 200 OK\nContent-Type: application/x-git\nExpires: \n\nPACK"

theorem isField_packHeaders : ∀ h ∈ packHeaders, IsField h := by
  intro h hmem
  rcases List.mem_cons.mp hmem with rfl | hmem
  · exact ⟨by decide, by decide, by decide, by decide, by decide⟩
  · rw [List.mem_singleton.mp hmem]
    exact ⟨by decide, by decide, by decide, by decide, by decide⟩

theorem parseCgiOutput_renderCgi_pack :
    parseCgiOutput (fun _ => []) (renderCgi .crlf 404 (some "Not Found") packHeaders packBody) =
      .ok ⟨404, packHeaders ++ corsHeaders, packBody⟩ :=
  (parseCgiOutput_renderCgi_iff (fun _ => []) .crlf (by decide) (by decide)
    isField_packHeaders packBody).mpr ⟨by decide, fun h => by cases h⟩

/-- The front of the body is lost when the lines end in one octet. -/
theorem parseCgiOutput_cuts_packBody :
    parseCgiOutput (fun _ => []) (renderCgi .lf 200 (some "OK") packHeaders packBody) =
        .ok ⟨200, packHeaders ++ corsHeaders, utf8 "DATA"⟩ ∧
      parseCgiOutput (fun _ => []) (renderCgi .lf 200 (some "OK") packHeaders packBody) ≠
        .ok ⟨200, packHeaders ++ corsHeaders, packBody⟩ := by
  have hhead : readHead packHead = ⟨200, packHeaders⟩ := by decide +kernel
  have hsep := findSeparator_crlf (a := utf8 packHead) (utf8 "DATA") (by decide)
  have hparse := parseCgiOutput_of_findSeparator (fun _ => []) hsep
  rw [hhead] at hparse
  refine ⟨hparse, ?_⟩
  intro h
  have hbody := congrArg GitResponse.body (Except.ok.inj (hparse.symm.trans h))
  revert hbody
  decide

end Rendering

end Git

end SolidPod
