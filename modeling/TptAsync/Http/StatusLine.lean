import TptAsync.Http.HeadLines

set_option autoImplicit false

/-!
# What a status line says

The grammar of a status line, with the version, the code and the place of the reason. The
parser works with fixed offsets: the byte at offset 5 is the major version, and nothing
looks at the byte behind the code.
-/

namespace TptAsync.Http

open Lib

section Grammar

def Version.spelling : Version → Bytes
  | .http10 => ascii "HTTP/1.0"
  | .http11 => ascii "HTTP/1.1"

def Blank (byte : UInt8) : Prop := byte = 32 ∨ byte = 9

/-- Where a text stands without the blanks around it. -/
structure Trimmed (text : Bytes) (range : Range) : Prop where
  ordered : range.start ≤ range.stop ∧ range.stop ≤ text.length
  before : ∀ byte ∈ text.take range.start, Blank byte
  after : ∀ byte ∈ text.drop range.stop, Blank byte
  first : ∀ byte, (range.slice text).head? = some byte → ¬ Blank byte
  last : ∀ byte, (range.slice text).getLast? = some byte → ¬ Blank byte

/-- The number that decimal digits stand for. -/
def digitsValue (digits : Bytes) : Nat :=
  digits.foldl (fun value digit => 10 * value + (digit.toNat - 48)) 0

structure StatusCode (digits : Bytes) : Prop where
  numeral : digits.length = 3 ∧ digits.all Bytes.isDigit = true
  range : 100 ≤ digitsValue digits ∧ digitsValue digits ≤ 599

/-- A status line and what it says. -/
inductive StatusLine : Bytes → Version → Nat → Range → Prop where
  | bare (version : Version) {digits : Bytes} (code : StatusCode digits) :
      StatusLine (version.spelling ++ 32 :: digits) version (digitsValue digits) ⟨12, 12⟩
  | withReason (version : Version) {digits text : Bytes} {reason : Range} (code : StatusCode digits)
      (trimmed : Trimmed text reason) :
      StatusLine (version.spelling ++ 32 :: (digits ++ 32 :: text)) version (digitsValue digits)
        (offsetRange reason 13)

end Grammar

section Trim

theorem leadingOws_solid {text : Bytes} {byte : UInt8}
    (first : (text.drop (leadingOws text)).head? = some byte) : ¬ Blank byte := by
  induction text with
  | nil => simp at first
  | cons head rest ih =>
      by_cases blank : Blank head
      · have more : leadingOws (head :: rest) = leadingOws rest + 1 := by
          rcases blank with rfl | rfl <;> simp [leadingOws]
        rw [more, List.drop_succ_cons] at first
        exact ih first
      · have none : leadingOws (head :: rest) = 0 := by
          rw [Blank, not_or] at blank
          simp [leadingOws, blank.1, blank.2]
        rw [none, List.drop_zero, List.head?_cons, Option.some.injEq] at first
        exact first ▸ blank

theorem trimOws_trimmed (text : Bytes) : Trimmed text (trimOws text) := by
  have leading := leadingOws_le text
  have trailing := leadingOws_le (text.drop (leadingOws text)).reverse
  rw [List.length_reverse, List.length_drop] at trailing
  constructor
  case ordered =>
    simp only [trimOws]
    omega
  case before => exact leadingOws_blank
  case after =>
    intro byte member
    apply @leadingOws_blank (text.drop (leadingOws text)).reverse
    rw [List.take_reverse, List.mem_reverse, List.drop_drop, List.length_drop]
    convert member using 3
    simp only [trimOws]
    omega
  case first =>
    intro byte first
    apply leadingOws_solid
    rw [trimOws, Range.slice, List.head?_take] at first
    split at first
    · cases first
    · exact first
  case last =>
    intro byte last
    rw [trimOws_slice, List.getLast?_reverse] at last
    exact leadingOws_solid last

end Trim

section Parsing

variable {line : Bytes} {version : Version} {status : Nat} {reason : Range}

/-- The parts of an accepted line by their offsets. -/
structure StatusCut (line : Bytes) (version : Version) (digits rest : Bytes) : Prop where
  shape : line = version.spelling ++ 32 :: (digits ++ rest)
  code : StatusCode digits

theorem spelling_length (version : Version) : version.spelling.length = 8 := by
  cases version <;> decide

theorem StatusCut.unique {version' : Version} {digits rest digits' rest' : Bytes}
    (cut : StatusCut line version digits rest) (other : StatusCut line version' digits' rest') :
    version = version' ∧ digits = digits' ∧ rest = rest' := by
  have same := cut.shape.symm.trans other.shape
  obtain ⟨spellings, behind⟩ := List.append_inj same
    ((spelling_length version).trans (spelling_length version').symm)
  obtain ⟨sameDigits, sameRest⟩ := List.append_inj (List.cons.inj behind).2
    (cut.code.numeral.1.trans other.code.numeral.1.symm)
  refine ⟨?_, sameDigits, sameRest⟩
  cases version <;> cases version' <;> first | rfl | exact absurd spellings (by decide)

theorem written_of_starts
    (start : (ascii "HTTP/1.1 ").isPrefixOf line = true ∨ (ascii "HTTP/1.0 ").isPrefixOf line = true) :
    ∃ (written : Version) (tail : Bytes), line = written.spelling ++ 32 :: tail := by
  rw [List.isPrefixOf_iff_prefix, List.isPrefixOf_iff_prefix] at start
  rcases start with ⟨tail, rfl⟩ | ⟨tail, rfl⟩
  · exact ⟨.http11, tail, rfl⟩
  · exact ⟨.http10, tail, rfl⟩

theorem written_starts (written : Version) (tail : Bytes) :
    ¬ (!(ascii "HTTP/1.1 ").isPrefixOf (written.spelling ++ 32 :: tail) ∧
      !(ascii "HTTP/1.0 ").isPrefixOf (written.spelling ++ 32 :: tail)) := by
  have at11 : (ascii "HTTP/1.1 ").isPrefixOf (Version.http11.spelling ++ 32 :: tail) = true := by
    rw [List.isPrefixOf_iff_prefix]
    exact ⟨tail, rfl⟩
  have at10 : (ascii "HTTP/1.0 ").isPrefixOf (Version.http10.spelling ++ 32 :: tail) = true := by
    rw [List.isPrefixOf_iff_prefix]
    exact ⟨tail, rfl⟩
  cases written with
  | http10 => simp [at10]
  | http11 => simp [at11]

/-- The byte that decides the version is the same in both. -/
theorem written_major (written : Version) (tail : Bytes) :
    (written.spelling ++ 32 :: tail)[5]? = some 49 := by
  rw [List.getElem?_append_left (by rw [spelling_length]; decide)]
  cases written <;> decide

theorem written_rest (written : Version) (tail : Bytes) :
    (written.spelling ++ 32 :: tail).drop 9 = tail := by
  rw [List.append_cons, List.drop_left' (by simp [spelling_length])]

theorem digitsValue_three (hundreds tens units : UInt8) : digitsValue [hundreds, tens, units] =
    (hundreds.toNat - 48) * 100 + (tens.toNat - 48) * 10 + (units.toNat - 48) := by
  simp only [digitsValue, List.foldl_cons, List.foldl_nil]
  omega

theorem parseStatusLine_sound (parsed : parseStatusLine line = .ok (version, status, reason)) :
    ∃ written digits rest, StatusCut line written digits rest ∧ version = .http11 ∧
      status = digitsValue digits ∧ reason = offsetRange (trimOws rest) 12 := by
  rw [parseStatusLine] at parsed
  split at parsed
  · cases parsed
  · next start =>
      rw [not_and_or, Bool.not_eq_true', Bool.not_eq_true', Bool.not_eq_false, Bool.not_eq_false] at start
      obtain ⟨written, tail, rfl⟩ := written_of_starts start
      simp only [written_major, written_rest, if_true] at parsed
      split at parsed
      · next hundreds tens units rest =>
          split at parsed
          · cases parsed
          · next digits =>
              split at parsed
              · next range =>
                  obtain ⟨sameVersion, rfl, rfl⟩ : Version.http11 = version ∧ _ = status ∧ _ = reason := by
                    simpa using parsed
                  refine ⟨written, [hundreds, tens, units], rest, ⟨rfl, ⟨rfl, ?_⟩, ?_⟩, sameVersion.symm,
                    (digitsValue_three _ _ _).symm, ?_⟩
                  · simpa using digits
                  · rw [digitsValue_three]
                    exact range
                  · simp only [offsetRange, Range.mk.injEq]
                    omega
              · cases parsed
      · cases parsed

theorem StatusCut.parse {written : Version} {digits rest : Bytes} (cut : StatusCut line written digits rest) :
    parseStatusLine line = .ok (.http11, digitsValue digits, offsetRange (trimOws rest) 12) := by
  obtain ⟨rfl, ⟨three, isDigits⟩, range⟩ := cut
  obtain ⟨hundreds, tens, units, rfl⟩ := List.length_eq_three.mp three
  rw [parseStatusLine, if_neg (written_starts _ _)]
  simp only [written_major, written_rest, if_true, List.cons_append, List.nil_append, isDigits]
  rw [digitsValue_three] at range ⊢
  simp only [Bool.not_true, Bool.false_eq_true, if_false, if_pos range, offsetRange]
  congr 4 <;> omega

theorem StatusLine.cut (spelled : StatusLine line version status reason) : ∃ digits rest,
    StatusCut line version digits rest ∧ status = digitsValue digits ∧
      (rest = [] ∨ rest.head? = some 32) := by
  cases spelled with
  | @bare _ digits code => exact ⟨digits, [], ⟨by rw [List.append_nil], code⟩, rfl, .inl rfl⟩
  | @withReason _ digits text _ code _ => exact ⟨digits, 32 :: text, ⟨rfl, code⟩, rfl, .inr rfl⟩

/-- What the parser returns is what the line says, if the offsets are right for it. -/
theorem StatusCut.reads {digits rest : Bytes} (cut : StatusCut line version digits rest)
    (separated : rest = [] ∨ rest.head? = some 32) :
    StatusLine line version (digitsValue digits) (offsetRange (trimOws rest) 12) := by
  obtain ⟨rfl, code⟩ := cut
  cases rest with
  | nil =>
      rw [List.append_nil]
      exact .bare version code
  | cons first text =>
      obtain rfl : first = 32 := by simpa using separated
      have shifted : offsetRange (trimOws (32 :: text)) 12 = offsetRange (trimOws text) 13 := by
        rw [trimOws_space]
        simp only [offsetRange, Nat.add_assoc]
      rw [shifted]
      exact .withReason version code (trimOws_trimmed text)

end Parsing

section Exactness

/-- The parser takes exactly the lines of the grammar, returns what they say, and so does the
head that begins with the line. -/
structure StatusLineExact (line : Bytes) : Prop where
  accepted : (∃ result, parseStatusLine line = .ok result) ↔
    ∃ version status reason, StatusLine line version status reason
  returned : ∀ version status reason, parseStatusLine line = .ok (version, status, reason) →
    StatusLine line version status reason
  reported : ∀ buf ranges, parseResponseRanges buf = .ok (some ranges) →
    (textLines [] (headBytes buf)).head? = some line →
    ∃ reason, StatusLine line (ResponseHead.fromRanges buf ranges).version
        (ResponseHead.fromRanges buf ranges).status reason ∧
      (ResponseHead.fromRanges buf ranges).reason = reason.slice line

/-- A line that goes on behind its code goes on with a space, and its version is 1.1. -/
def Separated (line : Bytes) : Prop :=
  ∀ version digits rest, StatusCut line version digits rest →
    version = .http11 ∧ (rest = [] ∨ rest.head? = some 32)

variable {line : Bytes}

theorem separated_of_exact (exact : StatusLineExact line) : Separated line := by
  intro version digits rest cut
  obtain ⟨digits', rest', other, _, separated⟩ := (exact.returned _ _ _ cut.parse).cut
  obtain ⟨rfl, _, rfl⟩ := cut.unique other
  exact ⟨rfl, separated⟩

theorem returned_of_separated (separated : Separated line) {version : Version} {status : Nat}
    {reason : Range} (parsed : parseStatusLine line = .ok (version, status, reason)) :
    StatusLine line version status reason := by
  obtain ⟨written, digits, rest, cut, rfl, rfl, rfl⟩ := parseStatusLine_sound parsed
  obtain ⟨rfl, behind⟩ := separated _ _ _ cut
  exact cut.reads behind

theorem parseStatusLine_within {version : Version} {status : Nat} {reason : Range}
    (parsed : parseStatusLine line = .ok (version, status, reason)) : reason.stop ≤ line.length := by
  obtain ⟨written, digits, rest, cut, _, _, rfl⟩ := parseStatusLine_sound parsed
  have within : (trimOws rest).stop ≤ rest.length := (trimOws_trimmed rest).ordered.2
  rw [cut.shape, List.length_append, spelling_length, List.length_cons, List.length_append,
    cut.code.numeral.1]
  simp only [offsetRange]
  omega

theorem slice_of_initial {buf : Bytes} {range : Range} (initial : line <+: buf)
    (within : range.stop ≤ line.length) : range.slice buf = range.slice line := by
  rcases Nat.lt_or_ge range.stop range.start with empty | ordered
  · rw [Range.slice, Range.slice, Nat.sub_eq_zero_of_le (Nat.le_of_lt empty), List.take_zero,
      List.take_zero]
  · exact (Bytes.window_of_prefix initial (by omega)).symm

/-- The parser is exact on the lines for which its offsets are right, and only on these. -/
theorem statusLine_exact_iff (line : Bytes) : StatusLineExact line ↔ Separated line := by
  constructor
  · exact separated_of_exact
  · intro separated
    constructor
    case accepted =>
      constructor
      · rintro ⟨⟨version, status, reason⟩, parsed⟩
        exact ⟨version, status, reason, returned_of_separated separated parsed⟩
      · rintro ⟨version, status, reason, spelled⟩
        obtain ⟨digits, rest, cut, _⟩ := spelled.cut
        exact ⟨_, cut.parse⟩
    case returned => exact fun _ _ _ => returned_of_separated separated
    case reported =>
      intro buf ranges accepted begins
      rw [parseResponseRanges_eq] at accepted
      obtain ⟨first, lines, ⟨version, status, reason⟩, cut, initial, parsed, placed, _⟩ :=
        parseHead_lines accepted
      obtain rfl : first = line := by
        rw [cut] at begins
        simpa using begins
      obtain ⟨sameFirst, sameVersion, sameStatus⟩ :
          ranges.first = (offsetRange reason 0, offsetRange reason 0) ∧ ranges.version = version ∧
            ranges.status = some status := by
        simpa [placeStatusLine] using placed
      refine ⟨reason, ?_, ?_⟩
      · simp only [ResponseHead.fromRanges, sameVersion, sameStatus, Option.getD_some]
        exact returned_of_separated separated parsed
      · simp only [ResponseHead.reason, ResponseHead.fromRanges, sameFirst]
        exact slice_of_initial initial (parseStatusLine_within parsed)

/-- A line of version 1.0 is read as one of version 1.1. -/
theorem statusLine_version_misread : ¬ StatusLineExact (ascii "HTTP/1.0 200 OK") := by
  intro exact
  have code : StatusCode (ascii "200") := ⟨by decide, by decide⟩
  have cut : StatusCut (ascii "HTTP/1.0 200 OK") .http10 (ascii "200") (ascii " OK") := ⟨rfl, code⟩
  exact absurd (separated_of_exact exact _ _ _ cut).1 (by decide)

/-- So is a line without anything between the code and the reason taken for one with a space. -/
example : ¬ StatusLineExact (ascii "HTTP/1.1 200OK") := by
  intro exact
  have code : StatusCode (ascii "200") := ⟨by decide, by decide⟩
  have cut : StatusCut (ascii "HTTP/1.1 200OK") .http11 (ascii "200") (ascii "OK") := ⟨rfl, code⟩
  exact absurd (separated_of_exact exact _ _ _ cut).2 (by decide)

end Exactness

end TptAsync.Http
