import TptAsync.Http.HeadLimit
import TptAsync.Http.HeadLines

set_option autoImplicit false

/-!
# Lines put together

Lines that are joined by CRLF are the lines of the text exactly if none of them holds a CRLF. The
head ends behind the last of them if none is empty.
-/

namespace TptAsync.Http

open Lib

section Cut

theorem crlf_prefix_iff {first second : UInt8} {rest : Bytes} :
    crlf <+: first :: second :: rest ↔ first = 13 ∧ second = 10 := by
  rw [crlf, List.cons_prefix_cons, List.cons_prefix_cons]
  simp [eq_comm]

theorem not_crlf_prefix_short {last : Bytes}
    (short : ∀ first second rest, last = first :: second :: rest → False) : ¬ crlf <:+: last := by
  intro inside
  have length := inside.length_le
  rcases last with _ | ⟨first, _ | ⟨second, rest⟩⟩
  · simp [crlf] at length
  · simp [crlf] at length
  · exact short first second rest rfl

/-- A CRLF cuts, whatever stands around it. -/
theorem textLines_append (current text rest : Bytes) :
    textLines current (text ++ (crlf ++ rest)) = textLines current text ++ textLines [] rest := by
  induction current, text using textLines_induction with
  | lineEnd current text ih =>
      simp only [List.cons_append, textLines, and_self, if_true, ih]
  | inside current first second text inside ih =>
      simp only [List.cons_append] at ih ⊢
      rw [textLines, if_neg inside, ih, textLines, if_neg inside]
  | last current last short =>
      rw [textLines_short short]
      rcases last with _ | ⟨first, _ | ⟨second, last⟩⟩
      · simp [textLines, crlf]
      · have inside : ¬ (first = 13 ∧ (13 : UInt8) = 10) := by simp
        simp [textLines, crlf]
      · exact (short first second last rfl).elim

/-- A text is one line exactly if it holds no CRLF. -/
theorem textLines_singleton_iff (current text : Bytes) :
    (textLines current text).length = 1 ↔ ¬ crlf <:+: text := by
  induction current, text using textLines_induction with
  | lineEnd current text ih =>
      obtain ⟨lines, shape⟩ := textLines_first [] text
      have here : crlf <:+: 13 :: 10 :: text := (List.prefix_append crlf text).isInfix
      rw [textLines, if_pos ⟨rfl, rfl⟩, shape]
      simp [here]
  | inside current first second text inside ih =>
      rw [textLines, if_neg inside, ih, List.infix_cons_iff (a := first), crlf_prefix_iff]
      simp [inside]
  | last current last short =>
      rw [textLines_short short]
      simp [not_crlf_prefix_short short]

theorem textLines_of_line {line : Bytes} (uncut : ¬ crlf <:+: line) : textLines [] line = [line] := by
  have one := (textLines_singleton_iff [] line).mpr uncut
  obtain ⟨lines, shape⟩ := textLines_first [] line
  rw [shape, List.length_cons, Nat.add_eq_right, List.length_eq_zero_iff] at one
  rw [shape, one, find_eq_none_iff.mpr uncut]
  simp

/-- There are at least as many lines as have been joined, and just as many only if none is cut. -/
theorem textLines_headText (first : Bytes) (lines : List Bytes) :
    lines.length < (textLines [] (headText first lines)).length ∧
      ((textLines [] (headText first lines)).length = lines.length + 1 ↔
        ∀ line ∈ first :: lines, ¬ crlf <:+: line) := by
  have some : ∀ line, 1 ≤ (textLines [] line).length := by
    intro line
    obtain ⟨lines, shape⟩ := textLines_first [] line
    simp [shape]
  have one := textLines_singleton_iff [] first
  have first' : 0 < (textLines [] first).length := some first
  induction lines generalizing first with
  | nil => simpa [headText, one] using first'
  | cons line lines ih =>
      obtain ⟨more, exactly⟩ := ih line (textLines_singleton_iff [] line) (some line)
      rw [headText, textLines_append, List.length_append, List.forall_mem_cons, ← exactly, ← one,
        List.length_cons]
      omega

theorem textLines_of_lines {first : Bytes} {lines : List Bytes}
    (uncut : ∀ line ∈ first :: lines, ¬ crlf <:+: line) :
    textLines [] (headText first lines) = first :: lines := by
  induction lines generalizing first with
  | nil => exact textLines_of_line (uncut first (.head _))
  | cons line lines ih =>
      rw [headText, textLines_append, textLines_of_line (uncut first (.head _)),
        ih fun other member => uncut other (.tail _ member)]
      rfl

end Cut

section HeadEnd

/-- Whether a text starts with an empty line. -/
theorem textLines_starts (text : Bytes) : ∃ line lines, textLines [] text = line :: lines ∧
    (line = [] ↔ text = [] ∨ crlf <+: text) := by
  obtain ⟨lines, shape⟩ := textLines_first [] text
  refine ⟨_, lines, shape, ?_⟩
  rw [List.nil_append, List.take_eq_nil_iff]
  constructor
  · intro empty
    cases found : find crlf text with
    | none =>
        rw [found, Option.getD_none, List.length_eq_zero_iff] at empty
        exact .inl (empty.elim id id)
    | some position =>
        rw [found, Option.getD_some] at empty
        refine empty.symm.imp id fun zero => ?_
        have here := (find_eq_some_iff.mp found).1
        rwa [zero, List.drop_zero] at here
  · intro starts
    cases starts with
    | inl empty => exact .inr empty
    | inr here => exact .inl (by rw [find_eq_zero here, Option.getD_some])

theorem crlf_prefix_append {text rest : Bytes} :
    crlf <+: text ++ (headerDelim ++ rest) ↔ text = [] ∨ crlf <+: text := by
  rcases text with _ | ⟨first, _ | ⟨second, text⟩⟩
  · simp [crlf, headerDelim]
  · simp [crlf, headerDelim]
  · simp [crlf_prefix_iff]

theorem headerDelim_prefix_iff {text : Bytes} : headerDelim <+: 13 :: 10 :: text ↔ crlf <+: text := by
  rw [headerDelim, crlf, List.cons_prefix_cons, List.cons_prefix_cons]
  simp

/-- The blank line is the first empty one. -/
theorem find_headerDelim_iff (current text rest : Bytes) :
    find headerDelim (text ++ (headerDelim ++ rest)) = some text.length ↔
      [] ∉ (textLines current text).tail := by
  induction current, text using textLines_induction with
  | lineEnd current text ih =>
      have starts : headerDelim <+: 13 :: 10 :: (text ++ (headerDelim ++ rest)) ↔
          text = [] ∨ crlf <+: text :=
        headerDelim_prefix_iff.trans crlf_prefix_append
      obtain ⟨line, lines, shape, empty⟩ := textLines_starts text
      rw [textLines, if_pos ⟨rfl, rfl⟩, List.tail_cons, shape, List.mem_cons, not_or]
      rw [shape, List.tail_cons] at ih
      simp only [List.cons_append, List.length_cons]
      by_cases here : text = [] ∨ crlf <+: text
      · rw [find_eq_zero (starts.mpr here)]
        simp [empty.mpr here]
      · have later : ¬ headerDelim <+: 10 :: (text ++ (headerDelim ++ rest)) := by
          rw [headerDelim, List.cons_prefix_cons]
          simp
        rw [find_cons_of_away (mt starts.mp here), find_cons_of_away later, ← ih]
        simp [eq_comm, mt empty.mp here]
  | inside current first second text inside ih =>
      have away : ¬ headerDelim <+: first :: second :: (text ++ (headerDelim ++ rest)) := by
        intro here
        rw [headerDelim, List.cons_prefix_cons, List.cons_prefix_cons] at here
        exact inside ⟨here.1.symm, here.2.1.symm⟩
      rw [textLines, if_neg inside, ← ih]
      simp only [List.cons_append, List.length_cons]
      rw [find_cons_of_away away]
      simp
  | last current last short =>
      rw [textLines_short short]
      rcases last with _ | ⟨first, _ | ⟨second, last⟩⟩
      · simp [find_eq_zero]
      · have away : ¬ headerDelim <+: first :: (headerDelim ++ rest) := by
          intro here
          rw [headerDelim, List.cons_prefix_cons] at here
          simp [List.cons_prefix_cons] at here
        rw [List.singleton_append, find_cons_of_away away, find_eq_zero (List.prefix_append _ _)]
        simp
      · exact (short first second last rfl).elim

end HeadEnd

section Folding

/-- A line that continues the one before it. -/
def Folding (text : Bytes) : Prop := [10, 32] <:+: text ∨ [10, 9] <:+: text

theorem folded_iff (text : Bytes) : folded text = true ↔ Folding text := by
  rw [folded, Bool.or_eq_true, find_isSome_iff, find_isSome_iff, Folding]

/-- A fold is in one of two lines, or the second one starts with white space. -/
theorem infix_append_crlf {white : UInt8} (notCr : white ≠ 13) (text rest : Bytes) :
    [10, white] <:+: text ++ (crlf ++ rest) ↔
      [10, white] <:+: text ∨ rest.head? = some white ∨ [10, white] <:+: rest := by
  induction text with
  | nil =>
      cases rest with
      | nil => simp [crlf, List.infix_cons_iff, List.cons_prefix_cons]
      | cons first rest =>
          simp [crlf, List.infix_cons_iff, List.cons_prefix_cons, @eq_comm _ white]
  | cons first text ih =>
      rw [List.cons_append, List.infix_cons_iff, ih, List.infix_cons_iff (a := first), or_assoc]
      refine or_congr ?_ Iff.rfl
      cases text with
      | nil => simp [crlf, List.cons_prefix_cons, notCr]
      | cons second text => simp [List.cons_prefix_cons]

theorem headText_head? {white : UInt8} (notCr : white ≠ 13) (line : Bytes) (lines : List Bytes) :
    (headText line lines).head? = some white ↔ line.head? = some white := by
  cases lines with
  | nil => rfl
  | cons next lines => cases line <;> simp [headText, crlf, notCr.symm]

theorem not_infix_headText {white : UInt8} (notCr : white ≠ 13) (first : Bytes) (lines : List Bytes) :
    ¬ [10, white] <:+: headText first lines ↔
      (∀ line ∈ first :: lines, ¬ [10, white] <:+: line) ∧ ∀ line ∈ lines, line.head? ≠ some white := by
  induction lines generalizing first with
  | nil => simp [headText]
  | cons line lines ih =>
      rw [headText, infix_append_crlf notCr, headText_head? notCr, not_or, not_or, ih]
      simp only [List.forall_mem_cons]
      constructor
      · rintro ⟨own, starts, later, others⟩
        exact ⟨⟨own, later⟩, starts, others⟩
      · rintro ⟨⟨own, later⟩, starts, others⟩
        exact ⟨own, starts, later, others⟩

/-- A line that white space makes part of the line before it. -/
def Indented (line : Bytes) : Prop := line.head? = some 32 ∨ line.head? = some 9

theorem not_folding_headText (first : Bytes) (lines : List Bytes) :
    ¬ Folding (headText first lines) ↔
      (∀ line ∈ first :: lines, ¬ Folding line) ∧ ∀ line ∈ lines, ¬ Indented line := by
  simp only [Folding, Indented, not_or, forall_and, not_infix_headText (show (32 : UInt8) ≠ 13 by decide),
    not_infix_headText (show (9 : UInt8) ≠ 13 by decide), and_assoc, and_left_comm]

end Folding

section Headers

/-- The line that a header is sent as. -/
def sentLine (header : Bytes × Bytes) : Bytes := header.1 ++ 58 :: 32 :: header.2

/-- A header whose line stays one line, and is read as this header. -/
structure SafeHeader (header : Bytes × Bytes) : Prop where
  name : 58 ∉ header.1 ∧ ¬ Indented header.1
  value : ¬ Indented header.2 ∧ ¬ Indented header.2.reverse
  uncut : ¬ crlf <:+: sentLine header
  unfolded : ¬ Folding (sentLine header)

theorem leadingOws_eq_zero {value : Bytes} : leadingOws value = 0 ↔ ¬ Indented value := by
  cases value with
  | nil => simp [leadingOws, Indented]
  | cons first rest => by_cases space : first = 32 <;> by_cases tab : first = 9 <;>
      simp [leadingOws, Indented, space, tab]

theorem trimOws_blank_iff (value : Bytes) : (trimOws (32 :: value)).slice (32 :: value) = value ↔
    ¬ Indented value ∧ ¬ Indented value.reverse := by
  rw [← leadingOws_eq_zero, ← leadingOws_eq_zero, trimOws_space_slice, trimOws_slice]
  constructor
  · intro same
    have lengths := congrArg List.length same
    rw [List.length_reverse, List.length_drop, List.length_reverse, List.length_drop] at lengths
    have within := leadingOws_le value
    have none : leadingOws value = 0 ∨ value = [] := by
      by_contra both
      rw [not_or, ← List.length_eq_zero_iff] at both
      omega
    have leading : leadingOws value = 0 := none.elim id fun empty => by rw [empty]; rfl
    rw [leading, List.drop_zero] at lengths
    have within' := leadingOws_le value.reverse
    rw [List.length_reverse] at within'
    exact ⟨leading, by omega⟩
  · intro none
    rw [none.1, List.drop_zero, none.2, List.drop_zero, List.reverse_reverse]

theorem colon_mem_sentLine (header : Bytes × Bytes) : 58 ∈ sentLine header := by
  simp [sentLine]

theorem indented_sentLine (header : Bytes × Bytes) : Indented (sentLine header) ↔ Indented header.1 := by
  obtain ⟨name, value⟩ := header
  cases name <;> simp [Indented, sentLine]

theorem lineHeader_sentLine_iff (header : Bytes × Bytes) : lineHeader (sentLine header) = header ↔
    58 ∉ header.1 ∧ ¬ Indented header.2 ∧ ¬ Indented header.2.reverse := by
  obtain ⟨name, value⟩ := header
  by_cases colon : 58 ∈ name
  · refine iff_of_false (fun same => ?_) (fun safe => safe.1 colon)
    have first : (sentLine (name, value)).takeWhile (· ≠ 58) = name := congrArg Prod.fst same
    rw [← first] at colon
    simpa using List.mem_takeWhile_imp colon
  · have field : lineField (sentLine (name, value)) = (name, 32 :: value) :=
      @lineField_line (name, 32 :: value) colon
    rw [lineHeader, field, Prod.mk.injEq, Field.value, trimOws_blank_iff]
    simp [colon]

/-- A first line and headers, as they are sent. -/
def sentText (first : Bytes) (headers : List (Bytes × Bytes)) : Bytes :=
  headText first (headers.map sentLine)

/-- Lines that make up a head of just these lines. -/
structure SafeHead (first : Bytes) (headers : List (Bytes × Bytes)) : Prop where
  size : (sentText first headers ++ headerDelim).length ≤ maxHead
  uncut : ¬ crlf <:+: first
  unfolded : ¬ Folding first
  headers : ∀ header ∈ headers, SafeHeader header

variable {β : Type} {empty : HttpError} {parseLine : Bytes → Except HttpError β}
  {place : β → Nat → (Range × Range) × Version × Option Nat} {first : Bytes}
  {headers : List (Bytes × Bytes)} {ranges : HeadRanges}

theorem sentLine_ne_nil (header : Bytes × Bytes) : sentLine header ≠ [] :=
  List.ne_nil_of_mem (colon_mem_sentLine header)

theorem headBytes_sent (found : find headerDelim (sentText first headers ++ headerDelim) =
    some (sentText first headers).length) :
    headBytes (sentText first headers ++ headerDelim) = sentText first headers := by
  rw [headBytes, found, Option.getD_some, List.take_left]

/-- The header fields in the lines that are made of some headers. -/
def sentFields (first : Bytes) (headers : List (Bytes × Bytes)) : List (Bytes × Bytes) :=
  ((textLines [] (sentText first headers)).tail.filter (· ≠ [])).map lineHeader

theorem sentFields_safe (uncut : ¬ crlf <:+: first) (safe : ∀ header ∈ headers, SafeHeader header) :
    sentFields first headers = headers := by
  have lines : textLines [] (sentText first headers) = first :: headers.map sentLine := by
    apply textLines_of_lines
    exact List.forall_mem_cons.mpr ⟨uncut, List.forall_mem_map.mpr fun header member =>
      (safe header member).uncut⟩
  have all : (headers.map sentLine).filter (· ≠ []) = headers.map sentLine :=
    List.filter_eq_self.mpr (List.forall_mem_map.mpr fun header _ =>
      decide_eq_true (sentLine_ne_nil header))
  rw [sentFields, lines, List.tail_cons, all, List.map_map]
  conv_rhs => rw [← List.map_id headers]
  refine List.map_congr_left fun header member => ?_
  exact (lineHeader_sentLine_iff header).mpr ⟨(safe header member).name.1, (safe header member).value⟩

/-- A head that is read as a whole has the fields that are in its lines. -/
theorem sent_fields (whole : WholeHead (parseHead empty parseLine place)
      (sentText first headers ++ headerDelim) ranges) :
    (HeaderBlock.mk (sentText first headers ++ headerDelim) ranges.headers).iter =
      sentFields first headers ∧
    textFields (sentText first headers ++ headerDelim) = sentFields first headers := by
  obtain ⟨stop, _, _, complete, _, _, _, consumed, _⟩ := parseHead_found whole.parsed
  obtain ⟨_, found, _⟩ := findHeadEnd_some_iff.mp complete
  have stops : stop = (sentText first headers).length := by
    rw [whole.whole, List.length_append] at consumed
    exact (Nat.add_right_cancel consumed).symm
  have fields : textFields (sentText first headers ++ headerDelim) = sentFields first headers := by
    rw [textFields, headBytes_sent (stops ▸ found), sentFields]
  exact ⟨(parseHead_fields whole.parsed).trans fields, fields⟩

/-- The strings make one head, and no line of it goes wrong. -/
structure OneHead (parseLine : Bytes → Except HttpError β) (first : Bytes)
    (headers : List (Bytes × Bytes)) (parts : β) : Prop where
  size : (sentText first headers ++ headerDelim).length ≤ maxHead
  unfolded : ¬ Folding (sentText first headers)
  lines : ∃ line lines, textLines [] (sentText first headers) = line :: lines ∧
    parseLine line = .ok parts ∧ ∀ line ∈ lines, 58 ∈ line

theorem OneHead.of_whole (whole : WholeHead (parseHead empty parseLine place)
      (sentText first headers ++ headerDelim) ranges) :
    ∃ parts, OneHead parseLine first headers parts ∧
      (ranges.first, ranges.version, ranges.status) = place parts 0 := by
  obtain ⟨stop, _, _, complete, _, _, _, consumed, _⟩ := parseHead_found whole.parsed
  obtain ⟨size, found, unfolded⟩ := findHeadEnd_some_iff.mp complete
  have stops : stop = (sentText first headers).length := by
    rw [whole.whole, List.length_append] at consumed
    exact (Nat.add_right_cancel consumed).symm
  subst stops
  rw [List.take_left, ← Bool.not_eq_true, folded_iff] at unfolded
  obtain ⟨line, lines, parts, cut, _, parsed, placed, _, colons⟩ := parseHead_lines whole.parsed
  rw [headBytes_sent found] at cut
  have solid : [] ∉ lines := by
    have tail := (find_headerDelim_iff [] (sentText first headers) []).mp
      (by rw [List.append_nil]; exact found)
    rwa [cut] at tail
  have all : lines.filter (· ≠ []) = lines :=
    List.filter_eq_self.mpr fun line member => decide_eq_true fun same => solid (same ▸ member)
  exact ⟨parts, ⟨size, unfolded, line, lines, cut, parsed, all ▸ colons⟩, placed⟩

theorem OneHead.whole {parts : β} (one : OneHead parseLine first headers parts) (filled : first ≠ []) :
    ∃ ranges, WholeHead (parseHead empty parseLine place) (sentText first headers ++ headerDelim)
      ranges := by
  obtain ⟨line, lines, cut, parsed, colons⟩ := one.lines
  have found : find headerDelim (sentText first headers ++ headerDelim) =
      some (sentText first headers).length := by
    have found := (find_headerDelim_iff [] (sentText first headers) []).mpr
      (by rw [cut]; exact fun member => absurd (colons [] member) (by simp))
    rwa [List.append_nil] at found
  have unfolded : folded (sentText first headers) = false := by
    rw [← Bool.not_eq_true, folded_iff]
    exact one.unfolded
  have complete := findHeadEnd_some_iff.mpr ⟨one.size, found, by rw [List.take_left, unfolded]⟩
  have nonempty : sentText first headers ≠ [] := by
    rw [sentText]
    cases headers with
    | nil => exact filled
    | cons header headers => simp [headText, crlf]
  obtain ⟨ranges, parsed, consumed⟩ := @parseHead_ok β empty parseLine place _ _ line lines parts
    complete (by rw [List.take_left]; exact cut) (by rw [List.take_left]; exact nonempty) parsed
    fun line member => colons line (List.mem_filter.mp member).1
  exact ⟨ranges, parsed, by rw [consumed, List.length_append]; rfl⟩

/-- A head that is read as the headers it was made of is made of safe ones. -/
theorem safeHead_of_parseHead
    (accepted : parseHead empty parseLine place (sentText first headers ++ headerDelim) =
      .ok (some ranges))
    (whole : ranges.consumed = (sentText first headers ++ headerDelim).length)
    (same : (HeaderBlock.mk (sentText first headers ++ headerDelim) ranges.headers).iter = headers) :
    SafeHead first headers ∧ ∃ parts, parseLine first = .ok parts ∧
      (ranges.first, ranges.version, ranges.status) = place parts 0 := by
  have read : WholeHead (parseHead empty parseLine place) (sentText first headers ++ headerDelim) ranges :=
    ⟨accepted, whole⟩
  obtain ⟨parts, one, placed⟩ := OneHead.of_whole read
  obtain ⟨line, lines, cut, parsed, colons⟩ := one.lines
  have all : lines.filter (· ≠ []) = lines :=
    List.filter_eq_self.mpr fun line member => decide_eq_true (List.ne_nil_of_mem (colons line member))
  have iter := same.symm.trans (sent_fields read).1
  rw [sentFields, cut, List.tail_cons, all] at iter
  have count : (textLines [] (headText first (headers.map sentLine))).length =
      (headers.map sentLine).length + 1 := by
    rw [← sentText, cut, List.length_cons, List.length_map, iter, List.length_map]
  have uncut := (textLines_headText first (headers.map sentLine)).2.mp count
  have lines' := textLines_of_lines uncut
  rw [← sentText, cut] at lines'
  obtain ⟨rfl, rfl⟩ := List.cons.inj lines'
  obtain ⟨unfolded, unindented⟩ := (not_folding_headText _ _).mp one.unfolded
  refine ⟨⟨one.size, uncut line (.head _), unfolded line (.head _), fun header member => ?_⟩,
    parts, parsed, placed⟩
  have inside := List.mem_map_of_mem (f := sentLine) member
  have read : lineHeader (sentLine header) = header := by
    rw [List.map_map] at iter
    conv at iter => lhs; rw [← List.map_id headers]
    exact (List.map_inj_left.mp iter header member).symm
  obtain ⟨colon, starts, ends⟩ := (lineHeader_sentLine_iff header).mp read
  exact ⟨⟨colon, mt (indented_sentLine header).mpr (unindented _ inside)⟩, ⟨starts, ends⟩,
    uncut _ (.tail _ inside), unfolded _ (.tail _ inside)⟩

/-- A head that is made of safe headers is read as these. -/
theorem SafeHead.parses (safe : SafeHead first headers) (nonempty : first ≠ []) {parts : β}
    (parsed : parseLine first = .ok parts) :
    ∃ ranges, parseHead empty parseLine place (sentText first headers ++ headerDelim) =
        .ok (some ranges) ∧
      ranges.consumed = (sentText first headers ++ headerDelim).length ∧
      (HeaderBlock.mk (sentText first headers ++ headerDelim) ranges.headers).iter = headers ∧
      (ranges.first, ranges.version, ranges.status) = place parts 0 := by
  have uncut : ∀ line ∈ first :: headers.map sentLine, ¬ crlf <:+: line := by
    refine List.forall_mem_cons.mpr ⟨safe.uncut, List.forall_mem_map.mpr fun header member => ?_⟩
    exact (safe.headers header member).uncut
  have lines : textLines [] (sentText first headers) = first :: headers.map sentLine :=
    textLines_of_lines uncut
  have unfolded : ¬ Folding (sentText first headers) := by
    rw [sentText, not_folding_headText]
    refine ⟨List.forall_mem_cons.mpr ⟨safe.unfolded, List.forall_mem_map.mpr fun header member => ?_⟩,
      List.forall_mem_map.mpr fun header member => ?_⟩
    · exact (safe.headers header member).unfolded
    · exact mt (indented_sentLine header).mp (safe.headers header member).name.2
  have one : OneHead parseLine first headers parts :=
    ⟨safe.size, unfolded, first, _, lines, parsed,
      List.forall_mem_map.mpr fun header _ => colon_mem_sentLine header⟩
  obtain ⟨ranges, read⟩ := @OneHead.whole _ empty _ place _ _ _ one nonempty
  obtain ⟨parts', one', placed⟩ := OneHead.of_whole read
  obtain ⟨line, lines', cut, parsed', _⟩ := one'.lines
  obtain ⟨rfl, _⟩ := List.cons.inj (lines.symm.trans cut)
  obtain rfl := Except.ok.inj (parsed.symm.trans parsed')
  exact ⟨ranges, read.parsed, read.whole,
    (sent_fields read).1.trans (sentFields_safe safe.uncut safe.headers), placed⟩

end Headers

end TptAsync.Http
