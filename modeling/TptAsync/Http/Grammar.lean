import TptAsync.Http.HeadLines

set_option autoImplicit false

/-!
# What the head parser lets through

Of the lines of a head, the parser checks the method, the version, and that a header line
has a colon. Whether a head it accepts is one that a strict peer reads in the same way
is decided by its lines alone.
-/

namespace TptAsync.Http

open Lib

theorem drop_leadingOws (value : Bytes) (byte : UInt8) (other : byte ≠ 32 ∧ byte ≠ 9) :
    byte ∈ value.drop (leadingOws value) ↔ byte ∈ value := by
  refine ⟨List.mem_of_mem_drop, fun member => ?_⟩
  rw [← List.take_append_drop (leadingOws value) value, List.mem_append] at member
  exact member.resolve_left fun taken => (leadingOws_blank byte taken).elim other.1 other.2

theorem mem_value {field : Field} {byte : UInt8} (other : byte ≠ 32 ∧ byte ≠ 9) :
    byte ∈ field.value ↔ byte ∈ field.2 := by
  rw [Field.value, trimOws_slice, List.mem_reverse, drop_leadingOws _ _ other, List.mem_reverse, drop_leadingOws _ _ other]

section Strict

/-- Neither whitespace nor a control character. -/
def Visible (byte : UInt8) : Prop := 32 < byte ∧ byte ≠ 127

/-- A name is a token, and no value carries a line end or a NUL. -/
structure StrictHeader (header : Bytes × Bytes) : Prop where
  name : header.1 ≠ [] ∧ header.1.all isTcharStrict = true
  value : 13 ∉ header.2 ∧ 10 ∉ header.2 ∧ 0 ∉ header.2

/-- A request head as the grammar of the protocol has it. -/
structure StrictHead (head : RequestHead) : Prop where
  method : head.method ≠ [] ∧ head.method.all isTcharStrict = true
  target : head.target ≠ [] ∧ ∀ byte ∈ head.target, Visible byte
  headers : ∀ header ∈ head.headers.iter, StrictHeader header

/-- A header line that a strict peer takes: tokens up to the colon, which is not the first
character, and no stray line end or NUL. -/
structure StrictLine (line : Bytes) : Prop where
  starts : line.head? ≠ some 58
  name : (line.takeWhile (· ≠ 58)).all isTcharStrict = true
  bytes : 13 ∉ line ∧ 10 ∉ line ∧ 0 ∉ line

/-- The lines of a head in front of the blank line, as a strict peer takes them. -/
structure StrictLines (requestLine : Bytes) (lines : List Bytes) : Prop where
  requestLine : ∀ byte ∈ requestLine, 32 ≤ byte ∧ byte ≠ 127
  headers : ∀ line ∈ lines, line ≠ [] → StrictLine line

def StrictText (text : Bytes) : Prop :=
  ∀ requestLine lines, textLines [] text = requestLine :: lines → StrictLines requestLine lines

theorem tchar_visible {byte : UInt8} (tchar : isTcharStrict byte = true) : Visible byte := by
  have punctuation : (ascii "!#$%&'*+-.^_`|~").all (fun byte => decide (32 < byte ∧ byte ≠ 127)) =
      true := by decide
  simp only [isTcharStrict, Bool.or_eq_true, Bool.and_eq_true, decide_eq_true_iff,
    List.contains_iff_mem] at tchar
  rcases tchar with ((upper | lower) | digit) | other
  · exact ⟨by grind, by grind⟩
  · exact ⟨by grind, by grind⟩
  · exact ⟨by grind, by grind⟩
  · have visible : 32 < byte ∧ byte ≠ 127 :=
      of_decide_eq_true (List.all_eq_true.mp punctuation byte other)
    exact visible

theorem strictLine_iff {line : Bytes} (colon : 58 ∈ line) :
    StrictHeader (lineHeader line) ↔ StrictLine line := by
  obtain ⟨field, rfl, absent⟩ := exists_field colon
  have before : field.line.takeWhile (· ≠ 58) = field.1 := congrArg Prod.fst (lineField_line absent)
  have bytes : ∀ byte : UInt8, byte ≠ 32 ∧ byte ≠ 9 → byte ≠ 58 → isTcharStrict byte = false →
      field.1.all isTcharStrict = true → (byte ∉ field.value ↔ byte ∉ field.line) := by
    intro byte other notColon excluded token
    have outside : byte ∉ field.1 := by
      intro member
      rw [List.all_eq_true.mp token byte member] at excluded
      cases excluded
    rw [mem_value other, Field.line, List.mem_append, List.mem_cons]
    simp [outside, notColon]
  have starts : field.1 ≠ [] ↔ field.line.head? ≠ some 58 := by
    cases shape : field.1 with
    | nil => simp [Field.line, shape]
    | cons byte rest =>
        have other : byte ≠ 58 := by
          rintro rfl
          exact absent (by simp [shape])
        simp [Field.line, shape, other]
  rw [lineHeader, lineField_line absent]
  constructor
  · rintro ⟨⟨nonempty, token⟩, carriage, feed, nul⟩
    refine ⟨starts.mp nonempty, before ▸ token, ?_, ?_, ?_⟩
    · exact (bytes 13 (by decide) (by decide) (by decide) token).mp carriage
    · exact (bytes 10 (by decide) (by decide) (by decide) token).mp feed
    · exact (bytes 0 (by decide) (by decide) (by decide) token).mp nul
  · rintro ⟨first, token, carriage, feed, nul⟩
    rw [before] at token
    refine ⟨⟨starts.mpr first, token⟩, ?_, ?_, ?_⟩
    · exact (bytes 13 (by decide) (by decide) (by decide) token).mpr carriage
    · exact (bytes 10 (by decide) (by decide) (by decide) token).mpr feed
    · exact (bytes 0 (by decide) (by decide) (by decide) token).mpr nul

theorem RequestLine.strict_iff {line method target version : Bytes}
    (split : RequestLine line method target version) :
    (∀ byte ∈ target, Visible byte) ↔ ∀ byte ∈ line, 32 ≤ byte ∧ byte ≠ 127 := by
  constructor
  · intro visible byte member
    have versions : version.all (fun byte => decide (32 ≤ byte ∧ byte ≠ 127)) = true := by
      rcases split.version with rfl | rfl <;> decide
    rw [split.shape, List.mem_append, List.mem_cons, List.mem_append, List.mem_cons] at member
    rcases member with inMethod | rfl | inTarget | rfl | inVersion
    · have visible := tchar_visible (List.all_eq_true.mp split.method.2 byte inMethod)
      exact ⟨UInt8.le_of_lt visible.1, visible.2⟩
    · decide
    · exact ⟨UInt8.le_of_lt (visible byte inTarget).1, (visible byte inTarget).2⟩
    · decide
    · exact of_decide_eq_true (List.all_eq_true.mp versions byte inVersion)
  · intro printable byte member
    have inside := printable byte (by rw [split.shape]; simp [member])
    refine ⟨UInt8.lt_of_le_of_ne inside.1 ?_, inside.2⟩
    rintro rfl
    exact split.target.2 member

/-- The head that comes of an accepted text is strict exactly if the text is. -/
theorem parseRequest_strict_iff {buf : Bytes} {ranges : HeadRanges}
    (accepted : parseRequestRanges buf = .ok (some ranges)) :
    StrictHead (RequestHead.fromRanges buf ranges) ↔ StrictText (headBytes buf) := by
  obtain ⟨requestLine, lines, version, text, split, headers, colons⟩ :=
    parseRequestRanges_lines accepted
  constructor
  · intro strict first rest same
    obtain ⟨rfl, rfl⟩ := List.cons.inj (text.symm.trans same)
    refine ⟨split.strict_iff.mp strict.target.2, fun line member nonempty => ?_⟩
    have kept : line ∈ lines.filter (· ≠ []) := List.mem_filter.mpr ⟨member, by simpa using nonempty⟩
    refine (strictLine_iff (colons line kept)).mp (strict.headers _ ?_)
    rw [headers]
    exact List.mem_map_of_mem kept
  · intro strict
    have strict := strict requestLine lines text
    refine ⟨split.method, ⟨split.target.1, split.strict_iff.mpr strict.requestLine⟩, ?_⟩
    rw [headers]
    intro header member
    obtain ⟨line, kept, rfl⟩ := List.mem_map.mp member
    obtain ⟨inside, nonempty⟩ := List.mem_filter.mp kept
    exact (strictLine_iff (colons line kept)).mpr (strict.headers line inside (by simpa using nonempty))

/-- A text with one good header line makes a strict head. -/
theorem parseRequest_strict_length :
    let buf := ascii "GET / HTTP/1.1\r\nContent-Length: 5\r\n\r\n"
    let ranges : HeadRanges := ⟨(⟨0, 3⟩, ⟨4, 5⟩), .http11, none, [(⟨16, 30⟩, ⟨32, 33⟩)], 37⟩
    parseRequestRanges buf = .ok (some ranges) ∧ StrictHead (RequestHead.fromRanges buf ranges) := by
  intro buf ranges
  have accepted : parseRequestRanges buf = .ok (some ranges) := rfl
  refine ⟨accepted, (parseRequest_strict_iff accepted).mpr ?_⟩
  intro requestLine lines text
  have parts : textLines [] (headBytes buf) = [ascii "GET / HTTP/1.1", ascii "Content-Length: 5"] := by
    decide
  obtain ⟨rfl, rfl⟩ := List.cons.inj (parts.symm.trans text)
  have visible : (ascii "GET / HTTP/1.1").all (fun byte => decide (32 ≤ byte ∧ byte ≠ 127)) = true := by
    decide
  refine ⟨fun byte member => of_decide_eq_true (List.all_eq_true.mp visible byte member), ?_⟩
  intro line member _
  obtain rfl := List.mem_singleton.mp member
  exact ⟨by decide, by decide, by decide⟩

/-- A space in front of the colon becomes part of the name, and the length is not seen. -/
theorem parseRequest_spaced_name :
    let buf := ascii "GET / HTTP/1.1\r\nContent-Length : 5\r\n\r\n"
    ∃ ranges, parseRequestRanges buf = .ok (some ranges) ∧
      (RequestHead.fromRanges buf ranges).headers.iter = [(ascii "Content-Length ", ascii "5")] ∧
      requestBodyKind (RequestHead.fromRanges buf ranges).headers = .ok .empty ∧
      ¬ StrictHead (RequestHead.fromRanges buf ranges) := by
  intro buf
  let ranges : HeadRanges := ⟨(⟨0, 3⟩, ⟨4, 5⟩), .http11, none, [(⟨16, 31⟩, ⟨33, 34⟩)], 38⟩
  have headers : (RequestHead.fromRanges buf ranges).headers.iter =
      [(ascii "Content-Length ", ascii "5")] := rfl
  refine ⟨ranges, rfl, headers, rfl, ?_⟩
  intro strict
  have header := strict.headers (ascii "Content-Length ", ascii "5") (by simp [headers])
  exact absurd header.name.2 (by decide)

end Strict

end TptAsync.Http
