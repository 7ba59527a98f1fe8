import Mathlib.Data.List.TakeWhile
import TptAsync.Http.Parse

set_option autoImplicit false

/-!
# Heads on the wire

A head is a first line and header lines, joined by CRLF and ended by a blank line. The
scanners find exactly these parts, whatever bytes follow.
-/

namespace TptAsync.Http

open Lib

/-- The lines of a head up to the blank line. -/
def headText (first : Bytes) : List Bytes → Bytes
  | [] => first
  | line :: lines => first ++ (crlf ++ headText line lines)

/-- A line holds no CR and no LF. -/
def LineBytes (line : Bytes) : Prop := 13 ∉ line ∧ 10 ∉ line

/-- A header line is not empty and does not start with whitespace, which would fold it
into the line before. -/
structure HeaderLine (line : Bytes) : Prop where
  bytes : LineBytes line
  starts : ∃ byte rest, line = byte :: rest ∧ byte ≠ 32 ∧ byte ≠ 9

variable {first : Bytes} {lines : List Bytes}

theorem headText_starts (line : Bytes) (lines : List Bytes) (header : HeaderLine line)
    (rest : Bytes) : ∃ byte more, headText line lines ++ rest = byte :: more ∧
      byte ≠ 13 ∧ byte ≠ 10 ∧ byte ≠ 32 ∧ byte ≠ 9 := by
  obtain ⟨byte, tail, rfl, notSpace, notTab⟩ := header.starts
  have notCr : byte ≠ 13 := fun same => header.bytes.1 (by simp [same])
  have notLf : byte ≠ 10 := fun same => header.bytes.2 (by simp [same])
  cases lines <;> exact ⟨byte, _, rfl, notCr, notLf, notSpace, notTab⟩

theorem find_headerDelim (firstBytes : LineBytes first) (headers : ∀ line ∈ lines, HeaderLine line)
    (rest : Bytes) :
    find headerDelim (headText first lines ++ (headerDelim ++ rest)) =
      some (headText first lines).length := by
  induction lines generalizing first with
  | nil =>
      rw [headText, headerDelim, find_append_of_not_mem firstBytes.1,
        find_eq_zero (List.prefix_append _ _)]
      simp
  | cons line lines ih =>
      have header := headers line (.head _)
      obtain ⟨byte, more, starts, notCr, _⟩ :=
        headText_starts line lines header (headerDelim ++ rest)
      have away : ¬ headerDelim <+: 13 :: 10 :: (headText line lines ++ (headerDelim ++ rest)) := by
        rw [starts]
        simp [headerDelim, List.cons_prefix_cons, notCr.symm]
      have found := ih header.bytes fun later member => headers later (.tail _ member)
      rw [headText, List.append_assoc, crlf]
      simp only [headerDelim, List.cons_append, List.nil_append] at away found ⊢
      rw [find_append_of_not_mem firstBytes.1, find_cons_of_away away,
        find_cons_of_away (by simp [List.cons_prefix_cons]), found]
      simp only [Option.map_some, List.length_append, List.length_cons, Option.some.injEq]
      omega

/-- No line of a head is folded. -/
theorem not_folded {white : UInt8} (notCr : white ≠ 13) (firstBytes : LineBytes first)
    (headers : ∀ line ∈ lines, HeaderLine line)
    (starts : ∀ line ∈ lines, ∀ rest, line ≠ white :: rest) :
    ¬ [10, white] <:+: headText first lines ++ headerDelim := by
  rw [← find_eq_none_iff]
  induction lines generalizing first with
  | nil =>
      rw [headText, find_append_of_not_mem firstBytes.2, headerDelim]
      simp [find, notCr]
  | cons line lines ih =>
      have header := headers line (.head _)
      obtain ⟨byte, tail, rfl, _⟩ := header.starts
      have other : byte ≠ white := by
        rintro rfl
        exact starts _ (.head _) tail rfl
      have rest := ih header.bytes (fun later member => headers later (.tail _ member))
        fun later member => starts later (.tail _ member)
      have away : ¬ [10, white] <+: 10 :: (headText (byte :: tail) lines ++ headerDelim) := by
        cases lines <;> simp [headText, List.cons_prefix_cons, other.symm]
      rw [headText, List.append_assoc, crlf, find_append_of_not_mem firstBytes.2]
      simp only [List.cons_append, List.nil_append]
      rw [find_cons_of_away (by simp [List.cons_prefix_cons]), find_cons_of_away away,
        rest]
      rfl

section FindHeadEnd

variable (firstBytes : LineBytes first) (headers : ∀ line ∈ lines, HeaderLine line)
include firstBytes headers

theorem no_fold_in {scanned : Bytes} (initial : scanned <+: headText first lines ++ headerDelim) :
    ((find [10, 32] scanned).isSome || (find [10, 9] scanned).isSome) = false := by
  have absent : ∀ {white : UInt8}, white = 32 ∨ white = 9 → find [10, white] scanned = none := by
    intro white space
    refine find_eq_none_iff.mpr fun inside => not_folded ?_ firstBytes headers ?_
      (inside.trans initial.isInfix)
    · rcases space with rfl | rfl <;> decide
    · intro line member rest same
      obtain ⟨byte, tail, shape, notSpace, notTab⟩ := (headers line member).starts
      rw [shape, List.cons.injEq] at same
      rcases space with rfl | rfl
      · exact notSpace same.1
      · exact notTab same.1
  rw [absent (.inl rfl), absent (.inr rfl)]
  rfl

theorem findHeadEnd_complete {rest : Bytes}
    (fits : (headText first lines ++ (headerDelim ++ rest)).length ≤ maxHead) :
    findHeadEnd (headText first lines ++ (headerDelim ++ rest)) =
      .ok (some (headText first lines).length) := by
  have unfolded := no_fold_in firstBytes headers
    (List.prefix_append _ _)
  simp only [findHeadEnd, if_neg (Nat.not_lt.mpr fits), find_headerDelim firstBytes headers,
    List.take_left', unfolded, Bool.false_eq_true, if_false]

/-- Before its last byte arrives, a head is incomplete. -/
theorem findHeadEnd_partial {buf : Bytes} (initial : buf <+: headText first lines ++ headerDelim)
    (shorter : buf.length < (headText first lines ++ headerDelim).length)
    (fits : buf.length ≤ maxHead) : findHeadEnd buf = .ok none := by
  have incomplete : find headerDelim buf = none := by
    cases found : find headerDelim buf with
    | none => rfl
    | some position =>
        have whole := find_initial initial found
        have complete := find_headerDelim firstBytes headers []
        rw [List.append_nil, whole, Option.some.injEq] at complete
        have within := find_length_le found
        rw [List.length_append] at shorter
        omega
  have unfolded : ∀ scanned, scanned <+: buf →
      ((find [10, 32] scanned).isSome || (find [10, 9] scanned).isSome) = false :=
    fun scanned part => no_fold_in firstBytes headers (part.trans initial)
  simp only [findHeadEnd, if_neg (Nat.not_lt.mpr fits), incomplete]
  cases findLast crlf buf with
  | none => simp [unfolded [] (List.nil_prefix)]
  | some last => simp [unfolded _ (List.take_prefix last buf)]

end FindHeadEnd

theorem firstLine_headText (firstBytes : LineBytes first) (nonempty : first ≠ []) :
    firstLine (headText first lines) = some ⟨0, first.length⟩ := by
  cases lines with
  | nil => simp [firstLine, headText, crlf, find_of_not_mem firstBytes.1, nonempty]
  | cons line lines =>
      rw [firstLine, headText, crlf, find_append_of_not_mem firstBytes.1,
        find_eq_zero (List.prefix_append _ _)]
      simp

section Collect

variable {buf : Bytes} {skip start seen i : Nat} {out : List HeaderRange}

theorem collectLoop_line {line : Bytes} (bytes : 13 ∉ line) (rest : Bytes) :
    collectLoop buf skip start seen i out (line ++ 13 :: 10 :: rest) = (do
      let out ← collectLine skip seen start ((Range.mk start (i + line.length)).slice buf) out
      collectLoop buf skip (i + line.length + 2) (seen + 1) (i + line.length + 2) out rest) := by
  induction line generalizing i with
  | nil => simp only [List.nil_append, collectLoop, and_self, if_true, List.length_nil, Nat.add_zero]
  | cons byte line ih =>
      obtain ⟨notCr, bytes⟩ := not_or.mp (List.mem_cons.not.mp bytes)
      obtain ⟨second, more, follows⟩ : ∃ second more, line ++ 13 :: 10 :: rest = second :: more := by
        cases line <;> exact ⟨_, _, rfl⟩
      have step : collectLoop buf skip start seen i out (byte :: line ++ 13 :: 10 :: rest) =
          collectLoop buf skip start seen (i + 1) out (line ++ 13 :: 10 :: rest) := by
        rw [List.cons_append, follows, collectLoop, if_neg (fun same => notCr same.1.symm)]
      rw [step, ih bytes, List.length_cons, Nat.add_assoc i 1, Nat.add_comm 1]

theorem collectLoop_last {line : Bytes} (bytes : 13 ∉ line) :
    collectLoop buf skip start seen i out line = collectLine skip seen start (buf.drop start) out := by
  induction line generalizing i with
  | nil => rfl
  | cons byte line ih =>
      obtain ⟨notCr, bytes⟩ := not_or.mp (List.mem_cons.not.mp bytes)
      cases line with
      | nil => rfl
      | cons second more =>
          rw [collectLoop, if_neg (fun same => notCr same.1.symm)]
          exact ih bytes

end Collect

/-- A header as it is sent: the name, and everything between the colon and the line's end. -/
abbrev Field := Bytes × Bytes

def Field.line (field : Field) : Bytes := field.1 ++ 58 :: field.2

/-- The value of a field, without the whitespace around it. -/
def Field.value (field : Field) : Bytes := (trimOws field.2).slice field.2

/-- A name is not empty, does not start with whitespace, and holds no colon. -/
structure Field.WellFormed (field : Field) : Prop where
  line : HeaderLine field.line
  name : 58 ∉ field.1

/-- The ranges of fields that follow each other from `start` on. -/
def fieldRanges (start : Nat) : List Field → List HeaderRange
  | [] => []
  | field :: fields =>
      let colon := start + field.1.length
      (⟨start, colon⟩, ⟨colon + 1 + (trimOws field.2).start, colon + 1 + (trimOws field.2).stop⟩) ::
        fieldRanges (start + field.line.length + 2) fields

theorem headerRanges_line (start : Nat) {field : Field} (name : 58 ∉ field.1) :
    headerRanges start field.line = .ok (⟨start, start + field.1.length⟩,
      ⟨start + field.1.length + 1 + (trimOws field.2).start,
        start + field.1.length + 1 + (trimOws field.2).stop⟩) := by
  have colon : field.line.findIdx? (· = 58) = some field.1.length := by
    have before : field.1.findIdx? (· = 58) = none := by
      rw [List.findIdx?_eq_none_iff]
      intro byte member
      rw [decide_eq_false_iff_not]
      exact fun same => name (same ▸ member)
    simp [Field.line, List.findIdx?_append, before, List.findIdx?_cons]
  simp only [headerRanges, colon]
  simp [Field.line]

theorem collectLoop_fields {buf before : Bytes} {field : Field} {fields : List Field}
    {seen : Nat} {out : List HeaderRange} (wellFormed : ∀ other ∈ field :: fields, other.WellFormed)
    (counted : 1 ≤ seen) (shape : buf = before ++ headText field.line (fields.map Field.line)) :
    collectLoop buf 1 before.length seen before.length out
        (headText field.line (fields.map Field.line)) =
      .ok (out ++ fieldRanges before.length (field :: fields)) := by
  have own := wellFormed field (.head _)
  have nonempty : field.line ≠ [] := by
    obtain ⟨byte, rest, starts, _⟩ := own.line.starts
    simp [starts]
  have collects : ∀ out, collectLine 1 seen before.length field.line out =
      .ok (out ++ fieldRanges before.length [field]) := by
    intro out
    rw [collectLine, if_pos ⟨counted, nonempty⟩, headerRanges_line _ own.name]
    rfl
  induction fields generalizing before field seen out with
  | nil =>
      rw [List.map_nil, headText] at shape ⊢
      rw [collectLoop_last own.line.bytes.1, shape, List.drop_left, collects]
  | cons next fields ih =>
      rw [List.map_cons, headText] at shape ⊢
      have slice : (Range.mk before.length (before.length + field.line.length)).slice buf =
          field.line := by
        rw [Range.slice, shape, List.drop_left, Nat.add_sub_cancel_left, List.take_left]
      have nextWell := wellFormed next (.tail _ (.head _))
      have nextNonempty : next.line ≠ [] := by
        obtain ⟨byte, rest, starts, _⟩ := nextWell.line.starts
        simp [starts]
      have positions : (before ++ (field.line ++ crlf)).length =
          before.length + field.line.length + 2 := by
        simp [crlf, Nat.add_assoc]
      have rest := @ih (before ++ (field.line ++ crlf)) next (seen + 1)
        (out ++ fieldRanges before.length [field])
        (fun other member => wellFormed other (.tail _ member)) (by omega)
        (by simpa only [List.append_assoc] using shape) nextWell nextNonempty (by
          intro out
          rw [collectLine, if_pos ⟨by omega, nextNonempty⟩, headerRanges_line _ nextWell.name]
          rfl)
      rw [positions] at rest
      simp only [crlf, List.cons_append, List.nil_append]
      rw [collectLoop_line own.line.bytes.1, slice, collects]
      simp only [bind, Except.bind]
      rw [rest, List.append_assoc]
      rfl

theorem collectHeaderRanges_headText (firstBytes : LineBytes first) {fields : List Field}
    (wellFormed : ∀ field ∈ fields, field.WellFormed) :
    collectHeaderRanges (headText first (fields.map Field.line)) 1 =
      .ok (fieldRanges (first.length + 2) fields) := by
  have skipped : ∀ start line out, collectLine 1 0 start line out = .ok out := by
    intro start line out
    simp [collectLine]
  rw [collectHeaderRanges]
  cases fields with
  | nil =>
      rw [List.map_nil, headText, collectLoop_last firstBytes.1, skipped]
      rfl
  | cons field fields =>
      have positions : (first ++ crlf).length = first.length + 2 := by simp [crlf]
      have rest := @collectLoop_fields _ (first ++ crlf) _ _ _ [] wellFormed le_rfl rfl
      rw [positions, List.nil_append] at rest
      have shape : headText first ((field :: fields).map Field.line) =
          first ++ 13 :: 10 :: headText field.line (fields.map Field.line) := rfl
      rw [shape, collectLoop_line firstBytes.1, skipped]
      simp only [bind, Except.bind, Nat.zero_add]
      rw [← rest]
      simp [crlf]

theorem slice_append (range : Range) (before part after : Bytes) (within : range.stop ≤ part.length) :
    (Range.mk (before.length + range.start) (before.length + range.stop)).slice
      (before ++ (part ++ after)) = range.slice part := by
  simp only [Range.slice]
  rw [List.drop_append, List.drop_of_length_le (by omega), List.nil_append,
    Nat.add_sub_cancel_left, Nat.add_sub_add_left, List.drop_append]
  by_cases inside : range.start ≤ part.length
  · rw [List.take_append_of_le_length]
    rw [List.length_drop]
    omega
  · rw [show range.stop - range.start = 0 by omega]
    simp

theorem leadingOws_le (text : Bytes) : leadingOws text ≤ text.length :=
  (List.takeWhile_prefix _).length_le

theorem leadingOws_space (text : Bytes) : leadingOws (32 :: text) = leadingOws text + 1 := by
  simp [leadingOws]

theorem leadingOws_blank {text : Bytes} : ∀ byte ∈ text.take (leadingOws text), byte = 32 ∨ byte = 9 := by
  intro byte member
  rw [leadingOws, ← List.prefix_iff_eq_take.mp (List.takeWhile_prefix _)] at member
  simpa using List.mem_takeWhile_imp member

theorem trimOws_stop_le (value : Bytes) : (trimOws value).stop ≤ value.length :=
  Nat.sub_le _ _

/-- The text behind the leading blanks, of which the trailing ones are cut off. -/
theorem trimOws_slice (text : Bytes) : (trimOws text).slice text =
    ((text.drop (leadingOws text)).reverse.drop
      (leadingOws (text.drop (leadingOws text)).reverse)).reverse := by
  rw [List.drop_reverse, List.reverse_reverse, trimOws, Range.slice, List.length_drop,
    Nat.sub_right_comm]

theorem trimOws_space (text : Bytes) : trimOws (32 :: text) = offsetRange (trimOws text) 1 := by
  have trailing := leadingOws_le (text.drop (leadingOws text)).reverse
  have leading := leadingOws_le text
  rw [List.length_reverse, List.length_drop] at trailing
  simp only [trimOws, leadingOws_space, offsetRange, List.drop_succ_cons, List.length_cons]
  rw [Nat.sub_add_comm (by omega)]

theorem trimOws_space_slice (text : Bytes) :
    (trimOws (32 :: text)).slice (32 :: text) = (trimOws text).slice text := by
  rw [trimOws_space, offsetRange, Range.slice, Range.slice, List.drop_succ_cons, Nat.add_sub_add_right]

theorem headText_append_crlf (first : Bytes) (lines : List Bytes) :
    headText first lines ++ crlf = first ++ crlf ++ lines.flatMap (· ++ crlf) := by
  induction lines generalizing first with
  | nil => simp [headText]
  | cons line lines ih => rw [headText, List.append_assoc, List.append_assoc, ih]; simp

/-- The ranges of a field on its line lead to its name and its value. -/
theorem field_slices (before after : Bytes) (field : Field) :
    let colon := before.length + field.1.length
    let whole := before ++ (field.line ++ after)
    ((Range.mk before.length colon).slice whole,
      (Range.mk (colon + 1 + (trimOws field.2).start) (colon + 1 + (trimOws field.2).stop)).slice
        whole) = (field.1, field.value) := by
  have value := slice_append (trimOws field.2) (before ++ (field.1 ++ [58])) field.2 after
    (trimOws_stop_le _)
  simp only [Field.line, Field.value, List.append_assoc, List.cons_append, List.nil_append] at value ⊢
  congr 1
  · simp [Range.slice]
  · simpa [Nat.add_assoc] using value

/-- The ranges of fields lead to their names and values. -/
theorem iter_fieldRanges (before : Bytes) (fields : List Field) (after : Bytes) :
    (HeaderBlock.mk (before ++ (fields.flatMap (fun field => field.line ++ crlf) ++ after))
      (fieldRanges before.length fields)).iter =
        fields.map fun field => (field.1, field.value) := by
  induction fields generalizing before with
  | nil => rfl
  | cons field fields ih =>
      have positions : (before ++ (field.line ++ crlf)).length =
          before.length + field.line.length + 2 := by
        simp [crlf, Nat.add_assoc]
      have rest := ih (before ++ (field.line ++ crlf))
      rw [positions] at rest
      generalize tail : fields.flatMap (fun field => field.line ++ crlf) ++ after = more at rest
      have shape : before ++ ((field :: fields).flatMap (fun field => field.line ++ crlf) ++ after) =
          before ++ (field.line ++ crlf) ++ more := by
        rw [← tail]
        simp
      have own := field_slices before (crlf ++ more) field
      rw [shape]
      simp only [HeaderBlock.iter, fieldRanges, List.map_cons] at rest ⊢
      rw [← rest]
      simp only [List.append_assoc] at own ⊢
      rw [own]

section Parse

variable {fields : List Field} {rest : Bytes}

/-- The header block that a head's ranges make of it. -/
def headBlock (first : Bytes) (fields : List Field) (buf : Bytes) : HeaderBlock :=
  ⟨buf, fieldRanges (first.length + 2) fields⟩

theorem headBlock_iter (first : Bytes) (fields : List Field) (rest : Bytes) :
    (headBlock first fields
      (headText first (fields.map Field.line) ++ (headerDelim ++ rest))).iter =
        fields.map fun field => (field.1, field.value) := by
  have shape : headText first (fields.map Field.line) ++ (headerDelim ++ rest) =
      first ++ crlf ++ (fields.flatMap (fun field => field.line ++ crlf) ++ (crlf ++ rest)) := by
    have joined := headText_append_crlf first (fields.map Field.line)
    rw [show headerDelim = crlf ++ crlf from rfl, List.append_assoc, ← List.append_assoc, joined]
    simp [List.flatMap_map]
  have positions : (first ++ crlf).length = first.length + 2 := by simp [crlf]
  rw [shape, headBlock, ← positions]
  exact iter_fieldRanges _ _ _

theorem fields_headerLine (wellFormed : ∀ field ∈ fields, field.WellFormed) :
    ∀ line ∈ fields.map Field.line, HeaderLine line := by
  intro line member
  obtain ⟨field, inFields, rfl⟩ := List.mem_map.mp member
  exact (wellFormed field inFields).line

theorem slice_headText (lines : List Bytes) (rest : Bytes) :
    (Range.mk 0 first.length).slice (headText first lines ++ rest) = first := by
  cases lines <;> simp [Range.slice, headText]

variable (firstBytes : LineBytes first) (nonempty : first ≠ [])
  (wellFormed : ∀ field ∈ fields, field.WellFormed)
  (fits : (headText first (fields.map Field.line) ++ (headerDelim ++ rest)).length ≤ maxHead)
include firstBytes nonempty wellFormed fits

theorem parseResponseRanges_complete :
    parseResponseRanges (headText first (fields.map Field.line) ++ (headerDelim ++ rest)) = (do
      let (version, status, reason) ← parseStatusLine first
      .ok (some {
        first := (offsetRange reason 0, offsetRange reason 0)
        version, status := some status, headers := fieldRanges (first.length + 2) fields
        consumed := (headText first (fields.map Field.line)).length + headerDelim.length })) := by
  have headers := fields_headerLine wellFormed
  simp only [parseResponseRanges, findHeadEnd_complete firstBytes headers fits, bind, Except.bind,
    List.take_left', firstLine_headText firstBytes nonempty, slice_headText,
    collectHeaderRanges_headText firstBytes wellFormed]

theorem parseRequestRanges_complete :
    parseRequestRanges (headText first (fields.map Field.line) ++ (headerDelim ++ rest)) = (do
      let (method, target, version) ← parseRequestLine first
      .ok (some {
        first := (offsetRange method 0, offsetRange target 0)
        version, status := none, headers := fieldRanges (first.length + 2) fields
        consumed := (headText first (fields.map Field.line)).length + headerDelim.length })) := by
  have headers := fields_headerLine wellFormed
  simp only [parseRequestRanges, findHeadEnd_complete firstBytes headers fits, bind, Except.bind,
    List.take_left', firstLine_headText firstBytes nonempty, slice_headText,
    collectHeaderRanges_headText firstBytes wellFormed]

end Parse

end TptAsync.Http
