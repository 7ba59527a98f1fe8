import TptAsync.Http.BodyReader
import TptAsync.Http.ConnectionProperties
import TptAsync.Http.HeadProperties
import TptAsync.Lib.TextProperties

set_option autoImplicit false

/-!
# Reading bodies

What a body reader still has to read, as a relation between the reader, the rest of the
body and the bytes after it. Each read takes some bytes off the body and keeps the relation.
-/

namespace TptAsync.Http

open Lib

/-- A decimal value is read as the number it stands for. -/
theorem parseContentLength_digits {digits : List Char} (nonempty : digits ≠ [])
    (valid : ∀ char ∈ digits, char.isDigit = true) (fits : Text.number 10 digits ≤ U64.max) :
    parseContentLength (digits.map Char.toUInt8) = .ok (Text.number 10 digits) := by
  have digit : ∀ char ∈ digits, (Text.digitValue 10 char).isSome := by
    intro char member
    rw [Text.digitValue_of_isDigit (valid char member)]
    rfl
  have trimmed : Text.trim digits = digits := by
    have plain := @Text.trim_append _ []
      (fun char member => (Text.digitValue_char (digit char member)).2.1) (by simp) nonempty
    rwa [List.append_nil] at plain
  have allDigits : digits.all Char.isDigit = true := by simpa using valid
  rw [parseContentLength,
    Text.fromUtf8_map fun char member => (Text.digitValue_char (digit char member)).1]
  simp [trimmed, nonempty, allDigits, Text.fromStrRadix_eq digit nonempty fits]

theorem parseContentLength_decimal {length : Nat} (fits : length ≤ U64.max) :
    parseContentLength (decimal length) = .ok length := by
  have parsed := @parseContentLength_digits (Nat.toDigits 10 length)
    Nat.toDigits_ne_nil (fun char member => Nat.isDigit_of_mem_toDigits (by decide) (by decide) member)
    (by rwa [Text.number_toDigits])
  rwa [Text.number_toDigits] at parsed

/-- The first line of a chunk: its size in hexadecimal, perhaps blanks, and perhaps an
extension behind a semicolon. -/
structure SizeLine (line : Bytes) (size : Nat) : Prop where
  unbroken : ¬ crlf <:+: line
  fits : size ≤ U64.max
  parts : ∃ digits blanks extension,
    line = (digits ++ blanks).map Char.toUInt8 ++ extension ∧ digits ≠ [] ∧
      (∀ char ∈ digits, (Text.digitValue 16 char).isSome) ∧ Text.number 16 digits = size ∧
      (∀ char ∈ blanks, char = ' ' ∨ char = '\t') ∧
      (extension = [] ∨ ∃ rest, extension = 59 :: rest)

theorem parseChunkSize_line {line : Bytes} {size : Nat} (sizeLine : SizeLine line size) :
    BodyReader.parseChunkSize line = .ok size := by
  obtain ⟨digits, blanks, extension, rfl, nonempty, valid, rfl, blank, extended⟩ := sizeLine.parts
  have blankChar : ∀ char ∈ blanks, char.toNat < 128 ∧ Text.isWhitespace char = true ∧
      char.toUInt8 ≠ 59 := by
    intro char member
    rcases blank char member with rfl | rfl <;> decide
  have digitChar : ∀ char ∈ digits, char.toUInt8 ≠ 59 := by
    intro char member same
    have low := (Text.digitValue_char (valid char member)).1
    have semicolon : char = Text.toChar 59 := by rw [← same, Text.toChar_toUInt8 low]
    have digit := valid char member
    rw [semicolon] at digit
    revert digit
    decide
  have cut : ((digits ++ blanks).map Char.toUInt8 ++ extension).takeWhile (· ≠ 59) =
      (digits ++ blanks).map Char.toUInt8 := by
    rw [List.takeWhile_append_of_pos]
    · rcases extended with rfl | ⟨rest, rfl⟩ <;> simp
    · intro byte member
      obtain ⟨char, inText, rfl⟩ := List.mem_map.mp member
      rcases List.mem_append.mp inText with inDigits | inBlanks
      · simpa using digitChar char inDigits
      · simpa using (blankChar char inBlanks).2.2
  have low : ∀ char ∈ digits ++ blanks, char.toNat < 128 := by
    intro char member
    rcases List.mem_append.mp member with inDigits | inBlanks
    · exact (Text.digitValue_char (valid char inDigits)).1
    · exact (blankChar char inBlanks).1
  have trimmed := Text.trim_append
    (fun char member => (Text.digitValue_char (valid char member)).2.1)
    (fun char member => (blankChar char member).2.1) nonempty
  simp only [BodyReader.parseChunkSize, cut, Text.fromUtf8_map low, trimmed,
    Text.fromStrRadix_eq valid nonempty sizeLine.fits]

/-- A chunked body on the wire, and the bytes that it carries. -/
inductive ChunkedBody : Bytes → Bytes → Prop
  | last {line : Bytes} (sizeLine : SizeLine line 0) (trailers : List Bytes)
      (lines : ∀ trailer ∈ trailers, ¬ crlf <:+: trailer ∧ trailer ≠ []) :
      ChunkedBody (line ++ (crlf ++ (trailers.flatMap (· ++ crlf) ++ crlf))) []
  | chunk {line data wire body : Bytes} (sizeLine : SizeLine line data.length) (nonempty : data ≠ [])
      (rest : ChunkedBody wire body) :
      ChunkedBody (line ++ (crlf ++ (data ++ (crlf ++ wire)))) (data ++ body)

namespace BodyReader

open HttpConnection

/-- The first line of a chunk as a reader takes it. -/
structure SizeRead (line : Bytes) (size : Nat) : Prop where
  unbroken : ¬ crlf <:+: line
  parsed : parseChunkSize line = .ok size

/-- What a reader takes for a chunked body, and the bytes that it returns. Not every first line is
one that a sender may write. -/
inductive Chunks : Bytes → Bytes → Prop
  | last {line : Bytes} (size : SizeRead line 0) (trailers : List Bytes)
      (lines : ∀ trailer ∈ trailers, ¬ crlf <:+: trailer ∧ trailer ≠ []) :
      Chunks (line ++ (crlf ++ (trailers.flatMap (· ++ crlf) ++ crlf))) []
  | chunk {line data wire body : Bytes} (size : SizeRead line data.length) (nonempty : data ≠ [])
      (rest : Chunks wire body) :
      Chunks (line ++ (crlf ++ (data ++ (crlf ++ wire)))) (data ++ body)

theorem SizeLine.read {line : Bytes} {size : Nat} (sizeLine : SizeLine line size) :
    SizeRead line size := ⟨sizeLine.unbroken, parseChunkSize_line sizeLine⟩

theorem ChunkedBody.chunks {wire body : Bytes} (chunked : ChunkedBody wire body) :
    Chunks wire body := by
  induction chunked with
  | last sizeLine trailers lines => exact .last (SizeLine.read sizeLine) trailers lines
  | chunk sizeLine nonempty _ ih => exact .chunk (SizeLine.read sizeLine) nonempty ih

variable {reader : BodyReader} {body rest : Bytes}

/-- The reader still has `body` to read, and then the stream goes on with `rest`. -/
inductive Holds (reader : BodyReader) (rest : Bytes) : Bytes → Prop
  | done (finished : reader.finished = true) (stream : reader.conn.stream = rest) :
      Holds reader rest []
  | contentLength {length : Nat} {body : Bytes} (kind : reader.kind = .contentLength length)
      (unfinished : reader.finished = false) (remaining : reader.remaining = body.length)
      (stream : reader.conn.stream = body ++ rest) : Holds reader rest body
  | chunkStart {wire body : Bytes} (kind : reader.kind = .chunked)
      (unfinished : reader.finished = false) (remaining : reader.chunkRemaining = 0)
      (chunked : Chunks wire body) (stream : reader.conn.stream = wire ++ rest) :
      Holds reader rest body
  | chunkData {data wire body : Bytes} (kind : reader.kind = .chunked)
      (unfinished : reader.finished = false) (remaining : reader.chunkRemaining = data.length)
      (nonempty : data ≠ []) (chunked : Chunks wire body)
      (stream : reader.conn.stream = data ++ (crlf ++ (wire ++ rest))) :
      Holds reader rest (data ++ body)

theorem Holds.new_contentLength {conn : HttpConnection} (stream : conn.stream = body ++ rest) :
    Holds (new conn (.contentLength body.length)) rest body := by
  by_cases empty : body = []
  · subst empty
    exact .done rfl stream
  · exact .contentLength rfl (by simp [new, empty]) rfl stream

theorem Holds.new_chunked {conn : HttpConnection} {wire : Bytes} (chunked : Chunks wire body)
    (stream : conn.stream = wire ++ rest) : Holds (new conn .chunked) rest body :=
  .chunkStart rfl rfl rfl chunked stream

/-- The reader has moved past some bytes of its connection. -/
structure Follows (before after : BodyReader) : Prop where
  advances : ∃ taken, before.conn.Advances taken after.conn
  buffered : after.conn.buf.length ≤ max before.conn.buf.length readChunk

theorem Follows.refl (live : reader.conn.Live) : Follows reader reader :=
  ⟨⟨[], .refl live⟩, le_max_left _ _⟩

theorem Follows.trans {first second third : BodyReader} (left : Follows first second)
    (right : Follows second third) : Follows first third := by
  obtain ⟨taken, advances⟩ := left.advances
  obtain ⟨more, further⟩ := right.advances
  have leftBound := left.buffered
  have rightBound := right.buffered
  exact ⟨⟨taken ++ more, advances.trans further⟩, by omega⟩

theorem Follows.live {before after : BodyReader} (follows : Follows before after) :
    after.conn.Live := by
  obtain ⟨_, advances⟩ := follows.advances
  exact advances.live

theorem Runs.onConn {α : Type} {action : Async HttpError HttpConnection α} {value : α}
    {conn : HttpConnection} (runs : action.Runs reader.conn value conn) :
    (onConn action).Runs reader value { reader with conn } :=
  .zoom runs

/-- Reading some of `data`, which stands at the front of the stream. -/
theorem readRaw_part {capacity : Nat} {data more : Bytes} (live : reader.conn.Live)
    (room : 0 < capacity) (nonempty : data ≠ []) (stream : reader.conn.stream = data ++ more) :
    ∃ part left conn, (onConn (readRaw (min capacity data.length))).Runs reader part
        { reader with conn } ∧
      part ≠ [] ∧ data = part ++ left ∧ conn.stream = left ++ more ∧
      Follows reader { reader with conn } := by
  have positive : 0 < data.length := List.length_pos_of_ne_nil nonempty
  obtain ⟨part, conn, reads, someBytes, fits, advances, shrinks⟩ :=
    @readRaw_runs _ (min capacity data.length) live (by simp [stream, nonempty])
      (by omega)
  obtain ⟨left, split⟩ : part <+: data := by
    refine List.prefix_of_prefix_length_le ?_ (List.prefix_append data more) (by omega)
    rw [← stream, advances.stream]
    exact List.prefix_append _ _
  refine ⟨part, left, conn, .zoom reads, someBytes, split.symm, ?_, ⟨⟨part, advances⟩, by simp only; omega⟩⟩
  rw [advances.stream, ← split, List.append_assoc] at stream
  exact List.append_cancel_left stream

section Read

variable {capacity : Nat} {data wire : Bytes}

theorem readContentLength_runs {length : Nat} (live : reader.conn.Live) (room : 0 < capacity)
    (kind : reader.kind = .contentLength length) (unfinished : reader.finished = false)
    (remaining : reader.remaining = body.length) (nonempty : body ≠ [])
    (stream : reader.conn.stream = body ++ rest) :
    ∃ part left after, (readContentLength capacity).Runs reader part after ∧ part ≠ [] ∧
      body = part ++ left ∧ Holds after rest left ∧ Follows reader after := by
  obtain ⟨part, left, conn, reads, someBytes, split, streamLeft, follows⟩ :=
    readRaw_part live room nonempty stream
  have positive : 0 < body.length := List.length_pos_of_ne_nil nonempty
  have partPositive : 0 < part.length := List.length_pos_of_ne_nil someBytes
  have lengths : body.length = part.length + left.length := by rw [split, List.length_append]
  refine ⟨part, left, { reader with conn, remaining := reader.remaining - part.length }, ?_,
    someBytes, split, .contentLength kind unfinished ?_ streamLeft, follows.advances, follows.buffered⟩
  · refine (Async.Runs.get reader).bind ?_
    rw [← remaining] at reads
    rw [if_neg (by omega)]
    refine reads.bind ?_
    rw [if_neg partPositive.ne']
    exact (Async.Runs.modify _ _).bind (.pure _ _)
  · simp only
    omega

theorem readChunkData_runs (live : reader.conn.Live) (room : 0 < capacity)
    (kind : reader.kind = .chunked) (unfinished : reader.finished = false)
    (remaining : reader.chunkRemaining = data.length) (nonempty : data ≠ [])
    (chunked : Chunks wire body) (stream : reader.conn.stream = data ++ (crlf ++ (wire ++ rest))) :
    ∃ part left after, (readChunkData capacity).Runs reader part after ∧ part ≠ [] ∧
      data ++ body = part ++ left ∧ Holds after rest left ∧ Follows reader after := by
  obtain ⟨part, left, conn, reads, someBytes, split, streamLeft, follows⟩ :=
    readRaw_part live room nonempty stream
  have partPositive : 0 < part.length := List.length_pos_of_ne_nil someBytes
  have lengths : data.length = part.length + left.length := by rw [split, List.length_append]
  let middle : BodyReader := { reader with conn, chunkRemaining := reader.chunkRemaining - part.length }
  have left_iff : middle.chunkRemaining = 0 ↔ left = [] := by
    rw [← List.length_eq_zero_iff]
    simp only [middle]
    omega
  have starts : ∀ {result after}, Async.Runs (do
        if (← Async.get).chunkRemaining = 0 then
          onConn (expectExact crlf)
          pure part
        else pure part) middle result after →
      (readChunkData capacity).Runs reader result after := by
    intro result after continues
    rw [← remaining] at reads
    refine (Async.Runs.get reader).bind (reads.bind ?_)
    rw [if_neg partPositive.ne']
    exact (Async.Runs.modify _ _).bind continues
  by_cases whole : left = []
  · subst whole
    obtain ⟨conn', expects, advances, shrinks⟩ :=
      @expectExact_runs _ _ (wire ++ rest) follows.live streamLeft
    have bound : conn.buf.length ≤ max reader.conn.buf.length readChunk := follows.buffered
    have shrinks : conn'.buf.length ≤ conn.buf.length := shrinks
    refine ⟨part, body, { middle with conn := conn' }, starts ((Async.Runs.get middle).bind ?_), someBytes, ?_,
      .chunkStart kind unfinished (left_iff.mpr rfl) chunked ?_, ?_⟩
    · rw [if_pos (left_iff.mpr rfl)]
      exact Async.Runs.bind (Runs.onConn expects) (Async.Runs.pure _ part)
    · rw [split, List.append_nil]
    · rw [advances.stream, List.nil_append] at streamLeft
      exact List.append_cancel_left streamLeft
    · obtain ⟨taken, moved⟩ := follows.advances
      exact ⟨⟨_, moved.trans advances⟩, by simp only; omega⟩
  · refine ⟨part, left ++ body, middle, starts ((Async.Runs.get middle).bind ?_), someBytes, ?_,
      .chunkData kind unfinished ?_ whole chunked streamLeft, follows.advances, follows.buffered⟩
    · rw [if_neg (fun zero => whole (left_iff.mp zero))]
      exact .pure _ _
    · rw [split, List.append_assoc]
    · simp only [middle]
      omega

theorem skipTrailers_runs {fuel : Nat} {trailers : List Bytes} (live : reader.conn.Live)
    (lines : ∀ trailer ∈ trailers, ¬ crlf <:+: trailer ∧ trailer ≠ []) (enough : trailers.length < fuel)
    (stream : reader.conn.stream = trailers.flatMap (· ++ crlf) ++ (crlf ++ rest)) :
    ∃ conn, (skipTrailers fuel).Runs reader () { reader with conn } ∧ conn.stream = rest ∧
      Follows reader { reader with conn } := by
  induction trailers generalizing reader fuel with
  | nil =>
      obtain ⟨fuel, rfl⟩ := Nat.exists_eq_succ_of_ne_zero (Nat.pos_of_lt_add_left enough).ne'
      obtain ⟨conn, reads, advances, bounded⟩ :=
        @readLine_runs _ [] _ live (by decide) (by simpa using stream)
      refine ⟨conn, (Runs.onConn reads).bind ?_, ?_, ⟨⟨_, advances⟩, bounded⟩⟩
      · exact .pure _ _
      · rw [advances.stream] at stream
        exact @List.append_cancel_left _ crlf _ _ (by simpa using stream)
  | cons trailer trailers ih =>
      obtain ⟨fuel, rfl⟩ := Nat.exists_eq_succ_of_ne_zero (Nat.zero_lt_of_lt enough).ne'
      obtain ⟨unbroken, nonempty⟩ := lines trailer (.head _)
      obtain ⟨conn, reads, advances, bounded⟩ := readLine_runs
        live unbroken
        (by simpa [List.append_assoc] using stream)
      have streamLeft : conn.stream = trailers.flatMap (· ++ crlf) ++ (crlf ++ rest) := by
        rw [advances.stream] at stream
        exact @List.append_cancel_left _ (trailer ++ crlf) _ _ (by simpa [List.append_assoc] using stream)
      obtain ⟨last, skips, streamLast, follows⟩ := @ih { reader with conn } _
        advances.live (fun later member => lines later (.tail _ member))
        (by simpa using enough) streamLeft
      refine ⟨last, (Runs.onConn reads).bind ?_, streamLast,
        .trans ⟨⟨_, advances⟩, bounded⟩ follows⟩
      rw [if_neg nonempty]
      exact skips

theorem trailers_length_le (trailers : List Bytes) :
    trailers.length ≤ (trailers.flatMap (· ++ crlf)).length := by
  induction trailers with
  | nil => exact le_rfl
  | cons trailer trailers ih =>
      rw [List.flatMap_cons, List.length_append, List.length_append, List.length_cons,
        show crlf.length = 2 from rfl]
      omega

theorem stream_length (conn : HttpConnection) :
    conn.stream.length = conn.buf.length + conn.undelivered.length := List.length_append

theorem readChunked_runs {capacity : Nat} (live : reader.conn.Live) (room : 0 < capacity)
    (kind : reader.kind = .chunked) (unfinished : reader.finished = false)
    (remaining : reader.chunkRemaining = 0) (chunked : Chunks wire body)
    (stream : reader.conn.stream = wire ++ rest) :
    ∃ part left after, (readChunked capacity).Runs reader part after ∧
      (part = [] → body = [] ∧ after.finished = true) ∧ body = part ++ left ∧
      Holds after rest left ∧ Follows reader after := by
  cases chunked with
  | @last line size trailers lines =>
      obtain ⟨conn, reads, advances, bounded⟩ := readLine_runs
        live size.unbroken
        (by simpa [List.append_assoc] using stream)
      have streamLeft : conn.stream = trailers.flatMap (· ++ crlf) ++ (crlf ++ rest) := by
        rw [advances.stream] at stream
        exact @List.append_cancel_left _ (line ++ crlf) _ _ (by simpa [List.append_assoc] using stream)
      let middle : BodyReader := { reader with conn }
      have enough : trailers.length < conn.buf.length + conn.undelivered.length + 1 := by
        have lengths := congrArg List.length streamLeft
        rw [stream_length, List.length_append] at lengths
        have lines := trailers_length_le trailers
        omega
      obtain ⟨last, skips, streamLast, follows⟩ :=
        @skipTrailers_runs middle _ _ _ advances.live lines enough streamLeft
      refine ⟨[], [], { middle with conn := last, finished := true }, ?_, fun _ => ⟨rfl, rfl⟩, rfl,
        .done rfl streamLast, .trans ⟨⟨_, advances⟩, bounded⟩
          ⟨follows.advances, follows.buffered⟩⟩
      refine (Async.Runs.get reader).bind ?_
      rw [if_neg (by omega)]
      refine (Runs.onConn reads).bind ?_
      rw [size.parsed]
      refine Async.Runs.bind (Async.Runs.pure middle 0) ?_
      rw [if_pos rfl]
      exact (Async.Runs.get middle).bind (skips.bind ((Async.Runs.modify _ _).bind (.pure _ _)))
  | @chunk line data wire body size nonempty chunked =>
      have positive : 0 < data.length := List.length_pos_of_ne_nil nonempty
      obtain ⟨conn, reads, advances, bounded⟩ := readLine_runs
        live size.unbroken
        (by simpa [List.append_assoc] using stream)
      have streamLeft : conn.stream = data ++ (crlf ++ (wire ++ rest)) := by
        rw [advances.stream] at stream
        exact @List.append_cancel_left _ (line ++ crlf) _ _ (by simpa [List.append_assoc] using stream)
      let middle : BodyReader := { reader with conn, chunkRemaining := data.length }
      obtain ⟨part, left, after, continues, someBytes, split, holds, follows⟩ :=
        @readChunkData_runs middle _ _ _ _ _ advances.live room kind unfinished rfl nonempty chunked
          streamLeft
      refine ⟨part, left, after, ?_, fun none => absurd none someBytes, split, holds,
        .trans ⟨⟨_, advances⟩, bounded⟩ follows⟩
      refine (Async.Runs.get reader).bind ?_
      rw [if_neg (by omega)]
      refine (Runs.onConn reads).bind ?_
      rw [size.parsed]
      refine Async.Runs.bind (Async.Runs.pure _ data.length) ?_
      rw [if_neg positive.ne']
      exact (Async.Runs.modify _ _).bind continues

theorem Holds.of_finished (holds : Holds reader rest body) (finished : reader.finished = true) :
    body = [] ∧ reader.conn.stream = rest := by
  cases holds with
  | done _ stream => exact ⟨rfl, stream⟩
  | contentLength _ unfinished _ _ => simp [finished] at unfinished
  | chunkStart _ unfinished _ _ _ => simp [finished] at unfinished
  | chunkData _ unfinished _ _ _ _ => simp [finished] at unfinished

/-- What a read does with the bytes that its framing gave. -/
theorem read_unfinished {capacity : Nat} {kind : BodyKind} {part : Bytes} {middle : BodyReader}
    (room : 0 < capacity) (framing : reader.kind = kind) (unfinished : reader.finished = false)
    (runs : (readFramed kind capacity).Runs reader part middle) :
    (read capacity).Runs reader part
      (if part = [] then { middle with finished := true } else middle) := by
  refine (Async.Runs.get reader).bind ?_
  rw [if_neg (by simp [unfinished, room.ne']), framing]
  refine runs.bind ?_
  cases part with
  | nil => exact (Async.Runs.modify _ _).bind (.pure _ _)
  | cons byte bytes => exact Async.Runs.pure middle (byte :: bytes)

/-- One read takes some bytes off the body, or finds it complete. -/
theorem read_runs {capacity : Nat} (live : reader.conn.Live) (room : 0 < capacity)
    (holds : Holds reader rest body) :
    ∃ part left after, (read capacity).Runs reader part after ∧
      (part = [] → body = [] ∧ after.finished = true) ∧ body = part ++ left ∧
      Holds after rest left ∧ Follows reader after := by
  cases holds with
  | done finished stream =>
      refine ⟨[], [], reader, (Async.Runs.get reader).bind ?_, fun _ => ⟨rfl, finished⟩, rfl,
        .done finished stream, .refl live⟩
      rw [if_pos (.inl finished)]
      exact .pure _ _
  | @contentLength length body kind unfinished remaining stream =>
      by_cases empty : body = []
      · subst empty
        have nothing : (readContentLength capacity).Runs reader [] reader := by
          refine (Async.Runs.get reader).bind ?_
          rw [if_pos (show reader.remaining = 0 from remaining)]
          exact .pure _ _
        exact ⟨[], [], _, read_unfinished room kind unfinished nothing, fun _ => ⟨rfl, rfl⟩,
          rfl, .done rfl stream, ⟨⟨[], .refl live⟩, le_max_left _ _⟩⟩
      · obtain ⟨part, left, after, reads, someBytes, split, held, follows⟩ :=
          readContentLength_runs live room kind unfinished remaining empty stream
        have result := read_unfinished room kind unfinished reads
        rw [if_neg someBytes] at result
        exact ⟨part, left, after, result, fun none => absurd none someBytes, split, held, follows⟩
  | @chunkStart wire body kind unfinished remaining chunked stream =>
      obtain ⟨part, left, after, reads, last, split, held, follows⟩ :=
        readChunked_runs live room kind unfinished remaining chunked stream
      have result := read_unfinished room kind unfinished reads
      by_cases none : part = []
      · subst none
        obtain ⟨rfl, finished⟩ := last rfl
        obtain ⟨rfl, streamLeft⟩ := held.of_finished finished
        exact ⟨[], [], _, result, fun _ => ⟨rfl, rfl⟩, rfl, .done rfl streamLeft,
          ⟨follows.advances, follows.buffered⟩⟩
      · rw [if_neg none] at result
        exact ⟨part, left, after, result, fun empty => absurd empty none, split, held, follows⟩
  | @chunkData data wire body kind unfinished remaining nonempty chunked stream =>
      obtain ⟨part, left, after, reads, someBytes, split, held, follows⟩ :=
        readChunkData_runs live room kind unfinished remaining nonempty chunked stream
      have dataPositive : 0 < data.length := List.length_pos_of_ne_nil nonempty
      have inside : (readChunked capacity).Runs reader part after := by
        refine (Async.Runs.get reader).bind ?_
        rw [if_pos (by omega)]
        exact reads
      have result := read_unfinished room kind unfinished inside
      rw [if_neg someBytes] at result
      exact ⟨part, left, after, result, fun none => absurd none someBytes, split, held, follows⟩

theorem Chunks.length_le (chunked : Chunks wire body) : body.length ≤ wire.length := by
  induction chunked with
  | last => exact Nat.zero_le _
  | chunk _ _ _ ih =>
      simp only [List.length_append]
      omega

theorem Holds.length_le (holds : Holds reader rest body) :
    body.length ≤ reader.conn.stream.length := by
  cases holds with
  | done _ _ => exact Nat.zero_le _
  | contentLength _ _ _ stream =>
      rw [stream, List.length_append]
      omega
  | chunkStart _ _ _ chunked stream =>
      have shorter := chunked.length_le
      rw [stream, List.length_append]
      omega
  | chunkData _ _ _ _ chunked stream =>
      have shorter := chunked.length_le
      rw [stream]
      simp only [List.length_append]
      omega

theorem readToVecLoop_runs {max fuel : Nat} {out : Bytes} (live : reader.conn.Live)
    (holds : Holds reader rest body) (fits : out.length + body.length ≤ max)
    (enough : body.length < fuel) :
    ∃ after, (readToVecLoop max fuel out).Runs reader (out ++ body) after ∧
      after.finished = true ∧ after.conn.stream = rest ∧ Follows reader after := by
  induction fuel generalizing reader body out with
  | zero => exact absurd enough (Nat.not_lt_zero _)
  | succ fuel ih =>
      obtain ⟨part, left, middle, reads, last, split, held, follows⟩ :=
        @read_runs _ _ _ 8192 live (by decide) holds
      by_cases none : part = []
      · obtain ⟨rfl, finished⟩ := last none
        subst none
        refine ⟨middle, reads.bind ?_, finished, (held.of_finished finished).2, follows⟩
        rw [if_pos List.length_nil, List.append_nil]
        exact .pure _ _
      · have positive : 0 < part.length := List.length_pos_of_ne_nil none
        have lengths : body.length = part.length + left.length := by rw [split, List.length_append]
        obtain ⟨after, loops, finished, streamLeft, further⟩ :=
          @ih _ _ (out ++ part) follows.live held
            (by rw [List.length_append]; omega) (by omega)
        refine ⟨after, reads.bind ?_, finished, streamLeft, follows.trans further⟩
        rw [if_neg positive.ne', if_neg (by omega), split, ← List.append_assoc]
        exact loops

theorem readToVecLoop_large {max fuel : Nat} {out : Bytes} (live : reader.conn.Live)
    (holds : Holds reader rest body) (large : max < out.length + body.length) (room : out.length ≤ max)
    (enough : body.length < fuel) :
    ∃ error after, readToVecLoop max fuel out reader = (.failed error, after) := by
  induction fuel generalizing reader body out with
  | zero => exact absurd enough (Nat.not_lt_zero _)
  | succ fuel ih =>
      obtain ⟨part, left, middle, reads, last, split, held, follows⟩ :=
        @read_runs _ _ _ 8192 live (by decide) holds
      have lengths : body.length = part.length + left.length := by rw [split, List.length_append]
      have someBytes : part ≠ [] := by
        intro none
        obtain ⟨rfl, _⟩ := last none
        exact absurd large (Nat.not_lt.mpr room)
      have positive := List.length_pos_of_ne_nil someBytes
      rw [readToVecLoop, reads.bind_eq, if_neg positive.ne']
      by_cases enoughBytes : max < out.length + part.length
      · rw [if_pos enoughBytes]
        exact ⟨_, middle, rfl⟩
      · rw [if_neg enoughBytes]
        exact ih follows.live held (by rw [List.length_append]; omega)
          (by rw [List.length_append]; omega) (by omega)

/-- Reading the whole body leaves exactly the bytes behind it. -/
theorem readToVec_runs {max : Nat} (live : reader.conn.Live) (holds : Holds reader rest body)
    (fits : body.length ≤ max) :
    ∃ after, (readToVec max).Runs reader body after ∧ after.finished = true ∧
      after.conn.stream = rest ∧ Follows reader after := by
  have enough := holds.length_le
  rw [stream_length] at enough
  obtain ⟨after, loops, rest⟩ := @readToVecLoop_runs _ _ _ _ _ [] live holds (by simpa using fits)
    (Nat.lt_succ_of_le enough)
  exact ⟨after, (Async.Runs.get reader).bind loops, rest⟩

/-- Reading a whole body does not wait: it returns the body, or the body is too large. -/
theorem readToVec_ends {max : Nat} (live : reader.conn.Live) (holds : Holds reader rest body) :
    (∃ after, (readToVec max).Runs reader body after ∧ after.conn.stream = rest ∧ Follows reader after) ∨
      ∃ error after, readToVec max reader = (.failed error, after) := by
  rcases Nat.lt_or_ge max body.length with large | fits
  · have enough := holds.length_le
    rw [stream_length] at enough
    right
    rw [readToVec, (Async.Runs.get reader).bind_eq]
    exact readToVecLoop_large live holds (by simpa using large) (Nat.zero_le _)
      (Nat.lt_succ_of_le enough)
  · obtain ⟨after, reads, _, left, follows⟩ := readToVec_runs live holds fits
    exact .inl ⟨after, reads, left, follows⟩

end Read

end BodyReader

end TptAsync.Http
