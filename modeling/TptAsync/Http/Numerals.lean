import TptAsync.Http.BodyReaderProperties

set_option autoImplicit false

/-!
# The numerals that frame a body

The length and the size of a chunk are decoded, trimmed of white space and handed to the
number parser of the library. Which spellings come through is compared with the digits of
the grammar.
-/

namespace TptAsync.Http

open Lib

def Blanks (text : List Char) : Prop := ∀ char ∈ text, char = ' ' ∨ char = '\t'

/-- Digits for a number of 64 bits, with spaces and tabs around them at most. -/
def Numeral (radix : Nat) (bytes : Bytes) (value : Nat) : Prop :=
  ∃ before digits after, bytes = (before ++ (digits ++ after)).map Char.toUInt8 ∧
    Blanks before ∧ Blanks after ∧ Text.Digits radix digits value

/-- How the library reads a text: white space, perhaps a plus sign, digits, and white space. -/
structure Spelling (plus : Bool) (radix : Nat) (text before sign digits after : List Char)
    (value : Nat) : Prop where
  shape : text = before ++ ((sign ++ digits) ++ after)
  white : ∀ char ∈ before, Text.isWhitespace char = true
  blank : ∀ char ∈ after, Text.isWhitespace char = true
  sign : sign = [] ∨ plus = true ∧ sign = ['+']
  digits : Text.Digits radix digits value

/-- However digits are spelled in these bytes, there is no sign in front of them, and nothing but
spaces and tabs around them. -/
def PlainlySpelled (plus : Bool) (radix : Nat) (bytes : Bytes) : Prop :=
  ∀ text before sign digits after value, Text.fromUtf8 bytes = some text →
    Spelling plus radix text before sign digits after value →
    sign = [] ∧ Blanks before ∧ Blanks after

section Spelling

variable {plus : Bool} {radix value : Nat} {bytes : Bytes} {text before sign digits after : List Char}

theorem Spelling.solid (spelling : Spelling plus radix text before sign digits after value) :
    ∀ char ∈ sign ++ digits, Text.isWhitespace char = false := by
  intro char member
  rcases List.mem_append.mp member with inSign | inDigits
  · rcases spelling.sign with rfl | ⟨_, rfl⟩
    · cases inSign
    · rw [List.mem_singleton.mp inSign]
      decide
  · exact (Text.digitValue_char (spelling.digits.valid char inDigits)).2.1

theorem Spelling.nonempty (spelling : Spelling plus radix text before sign digits after value) :
    sign ++ digits ≠ [] := by
  simp [spelling.digits.nonempty]

theorem Spelling.trimmed (spelling : Spelling plus radix text before sign digits after value) :
    Text.trim text = sign ++ digits := by
  rw [spelling.shape]
  exact Text.trim_between spelling.white spelling.solid spelling.blank spelling.nonempty

theorem Spelling.unique {sign' before' digits' after' : List Char} {plus' : Bool} {value' : Nat}
    (spelling : Spelling plus radix text before sign digits after value)
    (other : Spelling plus' radix text before' sign' digits' after' value') :
    before = before' ∧ sign ++ digits = sign' ++ digits' ∧ after = after' :=
  Text.around_unique (spelling.shape.symm.trans other.shape) spelling.white spelling.blank
    spelling.solid spelling.nonempty other.white other.blank other.solid other.nonempty

theorem Blanks.white {blanks : List Char} (blank : Blanks blanks) :
    ∀ char ∈ blanks, char.toNat < 128 ∧ Text.isWhitespace char = true := by
  intro char member
  rcases blank char member with rfl | rfl <;> decide

theorem numeral_iff : Numeral radix bytes value ↔ ∃ text before digits after,
    Text.fromUtf8 bytes = some text ∧ Spelling plus radix text before [] digits after value ∧
      Blanks before ∧ Blanks after := by
  have low : ∀ {before digits after : List Char}, Blanks before → Blanks after →
      Text.Digits radix digits value → ∀ char ∈ before ++ (digits ++ after), char.toNat < 128 := by
    intro before digits after front back numeral char member
    rw [List.mem_append, List.mem_append] at member
    rcases member with inFront | inDigits | inBack
    · exact (front.white char inFront).1
    · exact (Text.digitValue_char (numeral.valid char inDigits)).1
    · exact (back.white char inBack).1
  constructor
  · rintro ⟨before, digits, after, rfl, front, back, numeral⟩
    refine ⟨_, before, digits, after, Text.fromUtf8_map (low front back numeral), ?_, front, back⟩
    exact ⟨rfl, fun char member => (front.white char member).2,
      fun char member => (back.white char member).2, .inl rfl, numeral⟩
  · rintro ⟨text, before, digits, after, decoded, spelling, front, back⟩
    refine ⟨before, digits, after, ?_, front, back, spelling.digits⟩
    rw [← Text.toUtf8_of_low (low front back spelling.digits), ← Text.toUtf8_of_fromUtf8 decoded,
      spelling.shape, List.nil_append]

/-- The library reads a text between white space as it is spelled. -/
theorem fromStrRadix_trim_iff : Text.fromStrRadix radix (Text.trim text) = some value ↔
    ∃ before sign digits after, Spelling true radix text before sign digits after value := by
  constructor
  · intro found
    obtain ⟨sign, digits, trimmed, signed, numeral⟩ := Text.fromStrRadix_iff.mp found
    obtain ⟨before, after, shape, white, blank⟩ := Text.exists_around text
    rw [trimmed] at shape
    exact ⟨before, sign, digits, after, shape, white, blank,
      signed.imp_right fun plus => ⟨rfl, plus⟩, numeral⟩
  · rintro ⟨before, sign, digits, after, spelling⟩
    rw [spelling.trimmed]
    exact Text.fromStrRadix_iff.mpr ⟨sign, digits, rfl, spelling.sign.imp_right (·.2), spelling.digits⟩

/-- A parser that takes every spelling is strict on the bytes whose spelling is plain. -/
theorem strict_iff {parsed : Except HttpError Nat}
    (reads : ∀ value, parsed = .ok value ↔ ∃ text before sign digits after,
      Text.fromUtf8 bytes = some text ∧ Spelling plus radix text before sign digits after value) :
    (∀ value, parsed = .ok value ↔ Numeral radix bytes value) ↔ PlainlySpelled plus radix bytes := by
  constructor
  · intro strict text before sign digits after value decoded spelling
    have numeral := (strict value).mp ((reads value).mpr ⟨_, _, _, _, _, decoded, spelling⟩)
    obtain ⟨text', before', digits', after', decoded', spelling', front, back⟩ :=
      (@numeral_iff plus _ _ _).mp numeral
    obtain rfl := Option.some.inj (decoded.symm.trans decoded')
    obtain ⟨rfl, same, rfl⟩ := spelling.unique spelling'
    refine ⟨?_, front, back⟩
    rcases spelling.sign with none | ⟨_, rfl⟩
    · exact none
    · have digit := spelling'.digits.valid '+' (by rw [← List.nil_append digits', ← same]; simp)
      exact absurd rfl (Text.digitValue_char digit).2.2.1
  · intro plain value
    rw [reads value, @numeral_iff plus]
    constructor
    · rintro ⟨text, before, sign, digits, after, decoded, spelling⟩
      obtain ⟨rfl, front, back⟩ := plain _ _ _ _ _ _ decoded spelling
      exact ⟨text, before, digits, after, decoded, spelling, front, back⟩
    · rintro ⟨text, before, digits, after, decoded, spelling, _⟩
      exact ⟨text, before, [], digits, after, decoded, spelling⟩

end Spelling

section Parsers

theorem parseContentLength_iff {value : Bytes} {length : Nat} :
    parseContentLength value = .ok length ↔ ∃ text before sign digits after,
      Text.fromUtf8 value = some text ∧ Spelling false 10 text before sign digits after length := by
  rw [parseContentLength]
  constructor
  · intro parsed
    split at parsed
    · cases parsed
    · next text decoded =>
        dsimp only at parsed
        split at parsed
        · cases parsed
        · next digital =>
            split at parsed
            · cases parsed
            · next found =>
                cases parsed
                obtain ⟨before, sign, digits, after, spelling⟩ := fromStrRadix_trim_iff.mp found
                refine ⟨text, before, sign, digits, after, decoded, spelling.shape, spelling.white,
                  spelling.blank, .inl ?_, spelling.digits⟩
                -- A plus sign is not one of the digits that are checked for.
                rcases spelling.sign with none | ⟨_, rfl⟩
                · exact none
                · exact absurd (.inr (by simp [spelling.trimmed])) digital
  · rintro ⟨text, before, sign, digits, after, decoded, spelling⟩
    obtain rfl : sign = [] := by simpa using spelling.sign
    have trimmed := spelling.trimmed
    rw [List.nil_append] at trimmed
    have digital : digits.all Char.isDigit = true := by
      rw [List.all_eq_true]
      exact fun char member => Text.isDigit_of_digitValue (spelling.digits.valid char member)
    have found : Text.fromStrRadix 10 (Text.trim text) = some length :=
      fromStrRadix_trim_iff.mpr ⟨before, [], digits, after, spelling.shape, spelling.white,
        spelling.blank, .inl rfl, spelling.digits⟩
    rw [trimmed] at found
    simp [decoded, trimmed, digital, spelling.digits.nonempty, found]

theorem parseChunkSize_iff {line : Bytes} {size : Nat} :
    BodyReader.parseChunkSize line = .ok size ↔ ∃ text before sign digits after,
      Text.fromUtf8 (line.takeWhile (· ≠ 59)) = some text ∧
        Spelling true 16 text before sign digits after size := by
  rw [BodyReader.parseChunkSize]
  constructor
  · intro parsed
    split at parsed
    · cases parsed
    · next text decoded =>
        split at parsed
        · cases parsed
        · next found =>
            cases parsed
            obtain ⟨before, sign, digits, after, spelling⟩ := fromStrRadix_trim_iff.mp found
            exact ⟨text, before, sign, digits, after, decoded, spelling⟩
  · rintro ⟨text, before, sign, digits, after, decoded, spelling⟩
    simp only [decoded, fromStrRadix_trim_iff.mpr ⟨before, sign, digits, after, spelling⟩]

end Parsers

section Strictness

/-- The value of a `Content-Length` is a length exactly if it is a numeral. -/
def LengthStrict (headers : HeaderBlock) : Prop :=
  ∀ value, headers.get (ascii "content-length") = some value → ∀ length,
    contentLengthKind headers = .ok (.contentLength length) ↔ Numeral 10 value length

/-- What is left to do for a read once the size of the chunk is known. -/
def BodyReader.readSized (size capacity : Nat) : Async HttpError BodyReader Bytes :=
  if size = 0 then do
    let conn := (← Async.get).conn
    skipTrailers (conn.buf.length + conn.undelivered.length + 1)
    Async.modify fun reader => { reader with finished := true }
    pure []
  else do
    Async.modify fun reader => { reader with chunkRemaining := size }
    readChunkData capacity

/-- Between two chunks, a read goes on with the size in the line if that is a numeral, and fails
on every other line. -/
structure SizeStrict (line : Bytes) : Prop where
  parsed : ∀ size, BodyReader.parseChunkSize line = .ok size ↔ Numeral 16 (line.takeWhile (· ≠ 59)) size
  used : ∀ size capacity reader later, Numeral 16 (line.takeWhile (· ≠ 59)) size →
    reader.chunkRemaining = 0 → (BodyReader.onConn HttpConnection.readLine).Runs reader line later →
    BodyReader.readChunked capacity reader = BodyReader.readSized size capacity later
  refused : ∀ capacity reader later, (¬ ∃ size, Numeral 16 (line.takeWhile (· ≠ 59)) size) →
    reader.chunkRemaining = 0 → (BodyReader.onConn HttpConnection.readLine).Runs reader line later →
    BodyReader.readChunked capacity reader = (.failed (.parse "invalid chunk size"), later)

theorem BodyReader.readChunked_line {capacity : Nat} {reader later : BodyReader} {line : Bytes}
    (start : reader.chunkRemaining = 0) (reads : (onConn HttpConnection.readLine).Runs reader line later) :
    readChunked capacity reader =
      (Async.ofExcept (parseChunkSize line) >>= fun size => readSized size capacity) later := by
  rw [readChunked, (Async.Runs.get reader).bind_eq, start, if_neg (Nat.lt_irrefl 0), reads.bind_eq]
  rfl

theorem BodyReader.parseChunkSize_error {line : Bytes} (refused : ∀ size, parseChunkSize line ≠ .ok size) :
    parseChunkSize line = .error (.parse "invalid chunk size") := by
  unfold parseChunkSize at refused ⊢
  cases decoded : Text.fromUtf8 (line.takeWhile (· ≠ 59)) with
  | none => rfl
  | some text =>
      cases found : Text.fromStrRadix 16 (Text.trim text) with
      | none => simp [found]
      | some size =>
          simp only [decoded, found] at refused
          exact absurd rfl (refused size)

theorem lengthStrict_iff (headers : HeaderBlock) : LengthStrict headers ↔
    ∀ value, headers.get (ascii "content-length") = some value → PlainlySpelled false 10 value := by
  apply forall₂_congr
  intro value present
  have kind : ∀ length, contentLengthKind headers = .ok (.contentLength length) ↔
      parseContentLength value = .ok length := by
    intro length
    rw [contentLengthKind, present]
    cases parsed : parseContentLength value with
    | error error => simp [bind, Except.bind, parsed]
    | ok read => simp [bind, Except.bind, parsed]
  simp only [kind]
  exact strict_iff fun length => parseContentLength_iff

theorem sizeStrict_iff (line : Bytes) :
    SizeStrict line ↔ PlainlySpelled true 16 (line.takeWhile (· ≠ 59)) := by
  rw [← strict_iff fun size => parseChunkSize_iff]
  constructor
  · exact fun strict => strict.parsed
  · intro parsed
    constructor
    case parsed => exact parsed
    case used =>
      intro size capacity reader later numeral start reads
      rw [BodyReader.readChunked_line start reads, (parsed size).mpr numeral]
      rfl
    case refused =>
      intro capacity reader later none start reads
      have error := BodyReader.parseChunkSize_error fun size found => none ⟨size, (parsed size).mp found⟩
      rw [BodyReader.readChunked_line start reads, error]
      rfl

/-- The numerals that frame bodies are read strictly exactly where they are spelled plainly. -/
theorem framingNumerals_strict_iff (headers : HeaderBlock) (line : Bytes) :
    (LengthStrict headers ↔
      ∀ value, headers.get (ascii "content-length") = some value → PlainlySpelled false 10 value) ∧
    (SizeStrict line ↔ PlainlySpelled true 16 (line.takeWhile (· ≠ 59))) :=
  ⟨lengthStrict_iff headers, sizeStrict_iff line⟩

/-- A vertical tab in front of a length, and a plus sign in front of a size. -/
theorem framingNumerals_misspelled :
    ¬ LengthStrict ⟨ascii "Content-Length" ++ [11, 53], [(⟨0, 14⟩, ⟨14, 16⟩)]⟩ ∧
      ¬ SizeStrict (ascii "+5") := by
  have digits : ∀ radix, (Text.digitValue radix '5').isSome → Text.number radix ['5'] = 5 →
      Text.Digits radix ['5'] 5 := fun radix digit five =>
    ⟨by simp, List.forall_mem_singleton.mpr digit, five, by decide⟩
  have none : ∀ char ∈ ([] : List Char), Text.isWhitespace char = true := List.forall_mem_nil _
  constructor
  · intro strict
    have decoded : Text.fromUtf8 [11, 53] = some [Char.ofNat 11, '5'] :=
      Text.fromUtf8_of_low (List.forall_mem_cons.mpr ⟨by decide, List.forall_mem_singleton.mpr (by decide)⟩)
    have plain := (lengthStrict_iff _).mp strict [11, 53] (by decide) _ [Char.ofNat 11] [] ['5'] [] 5 decoded
      ⟨rfl, List.forall_mem_singleton.mpr (by decide), none, .inl rfl, digits 10 (by decide) (by decide)⟩
    rcases plain.2.1 _ (.head _) with space | tab
    · exact absurd space (by decide)
    · exact absurd tab (by decide)
  · intro strict
    have part : (ascii "+5").takeWhile (· ≠ 59) = [43, 53] := by decide
    have decoded : Text.fromUtf8 ((ascii "+5").takeWhile (· ≠ 59)) = some ['+', '5'] := by
      rw [part]
      exact Text.fromUtf8_of_low
        (List.forall_mem_cons.mpr ⟨by decide, List.forall_mem_singleton.mpr (by decide)⟩)
    have plain := (sizeStrict_iff _).mp strict _ [] ['+'] ['5'] [] 5 decoded
      ⟨rfl, none, none, .inr ⟨rfl, rfl⟩, digits 16 (by decide) (by decide)⟩
    exact absurd plain.1 (by decide)

end Strictness

end TptAsync.Http
