import TptAsync.Http.Requests

set_option autoImplicit false

/-!
# Where a response ends

Which responses the client can tell the end of, from the head that the server sends.
-/

namespace TptAsync.Http

open Lib

namespace ResponseData

/-- A header that the server sends as it is: a token, and a value without CR and LF. The
framing headers are the server's own. -/
structure SendableHeader (header : Bytes × Bytes) : Prop where
  name : header.1 ≠ [] ∧ header.1.all isTcharStrict = true
  value : LineBytes header.2
  noLength : Bytes.eqIgnoreCase header.1 (ascii "content-length") = false
  noCoding : Bytes.eqIgnoreCase header.1 (ascii "transfer-encoding") = false

/-- A response that a handler can return to a request other than HEAD. -/
structure Answerable (response : ResponseData) : Prop where
  status : 200 ≤ response.status ∧ response.status ≤ 599
  bodied : response.status ≠ 204 ∧ response.status ≠ 304
  headers : ∀ header ∈ response.headers, SendableHeader header

/-- The client parses the head as a whole, finds a framing that does not depend on the end
of the stream, and reads exactly the body, however it is delivered and whatever follows it. -/
def SelfDelimiting (response : ResponseData) : Prop :=
  ∃ ranges head kind, parseResponseRanges response.head = .ok (some ranges) ∧
    ranges.consumed = response.head.length ∧ head = ResponseHead.fromRanges response.head ranges ∧
    responseBodyKind head.headers head.status false = .ok kind ∧ kind ≠ .untilEof ∧
    ∀ conn max later, conn.Live → conn.stream = response.body ++ later → response.body.length ≤ max →
      ∃ reader, (BodyReader.readToVec max).Runs (BodyReader.new conn kind) response.body reader ∧
        reader.conn.stream = later

/-- The room that the headers take in a head. -/
def headersSize (response : ResponseData) : Nat :=
  (response.headers.map fun (name, value) => name.length + value.length + 4).sum

def statusLine (response : ResponseData) : Bytes :=
  ascii "HTTP/1.1 " ++ decimal response.status ++ [32] ++ response.reason

/-- The header fields of the head, with the value as it stands behind the colon. -/
def fields (response : ResponseData) : List Field :=
  response.headers.map (fun (name, value) => (name, 32 :: value)) ++
    if response.body ≠ [] then [(ascii "content-length", 32 :: decimal response.body.length)] else []

variable {response : ResponseData}

theorem head_eq (response : ResponseData) :
    response.head = headText response.statusLine (response.fields.map Field.line) ++ headerDelim := by
  have joined := headText_append_crlf response.statusLine (response.fields.map Field.line)
  have colon : ascii ": " = [58, 32] := by decide
  have contentLength : ascii "content-length: " = ascii "content-length" ++ [58, 32] := by decide
  rw [show headerDelim = crlf ++ crlf from rfl, ← List.append_assoc, joined, head, renderHead, colon,
    contentLength]
  by_cases empty : response.body = [] <;>
    simp [fields, statusLine, empty, List.flatMap_map, Field.line]

section StatusLine

theorem digit_bytes : ∀ digit < 10, Bytes.isDigit (Nat.digitChar digit).toUInt8 = true ∧
    (Nat.digitChar digit).toUInt8.toNat - 48 = digit := by
  decide

/-- A status is written with three digits. -/
theorem decimal_status {status : Nat} (range : 100 ≤ status ∧ status ≤ 999) :
    decimal status = [(Nat.digitChar (status / 100)).toUInt8,
      (Nat.digitChar (status / 10 % 10)).toUInt8, (Nat.digitChar (status % 10)).toUInt8] := by
  have units : Nat.toDigits 10 status =
      [Nat.digitChar (status / 100), Nat.digitChar (status / 10 % 10), Nat.digitChar (status % 10)] := by
    rw [Nat.toDigits_of_base_le (by decide) (by omega), Nat.toDigits_of_base_le (by decide) (by omega),
      Nat.toDigits_of_lt_base (by omega), Nat.div_div_eq_div_mul]
    rfl
  rw [decimal, units]
  rfl

theorem reason_bytes (response : ResponseData) : LineBytes response.reason := by
  unfold reason LineBytes
  split <;> decide

theorem statusLine_bytes (range : 200 ≤ response.status ∧ response.status ≤ 599) :
    LineBytes response.statusLine := by
  have digits : ∀ digit < 10, (Nat.digitChar digit).toUInt8 ≠ 13 ∧ (Nat.digitChar digit).toUInt8 ≠ 10 := by
    decide
  obtain ⟨hundredsCr, hundredsLf⟩ := digits (response.status / 100) (by omega)
  obtain ⟨tensCr, tensLf⟩ := digits (response.status / 10 % 10) (by omega)
  obtain ⟨unitsCr, unitsLf⟩ := digits (response.status % 10) (by omega)
  obtain ⟨reasonCr, reasonLf⟩ := reason_bytes response
  have version : 13 ∉ ascii "HTTP/1.1 " ∧ 10 ∉ ascii "HTTP/1.1 " := by decide
  rw [statusLine, decimal_status (by omega)]
  constructor
  · simp [version.1, hundredsCr.symm, tensCr.symm, unitsCr.symm, reasonCr]
  · simp [version.2, hundredsLf.symm, tensLf.symm, unitsLf.symm, reasonLf]

/-- What a status line of three digits is read as; the status is checked after that. -/
theorem parseStatusLine_digits {status : Nat} (range : 100 ≤ status ∧ status ≤ 999) (reason : Bytes) :
    parseStatusLine (ascii "HTTP/1.1 " ++ decimal status ++ [32] ++ reason) =
      if status ≤ 599 then
        .ok (.http11, status, ⟨12 + (trimOws (32 :: reason)).start, 12 + (trimOws (32 :: reason)).stop⟩)
      else .error (.parse "malformed status line") := by
  obtain ⟨hundreds, hundredsValue⟩ := digit_bytes (status / 100) (by omega)
  obtain ⟨tens, tensValue⟩ := digit_bytes (status / 10 % 10) (by omega)
  obtain ⟨units, unitsValue⟩ := digit_bytes (status % 10) (by omega)
  generalize shape : ascii "HTTP/1.1 " ++ decimal status ++ [32] ++ reason = line
  rw [List.append_assoc, List.append_assoc] at shape
  have version : (ascii "HTTP/1.1 ").isPrefixOf line = true := by
    rw [List.isPrefixOf_iff_prefix, ← shape]
    exact List.prefix_append _ _
  have major : (line)[5]? = some 49 := by
    rw [← shape, List.getElem?_append_left (by decide)]
    decide
  have rest : line.drop 9 = (Nat.digitChar (status / 100)).toUInt8 ::
      (Nat.digitChar (status / 10 % 10)).toUInt8 :: (Nat.digitChar (status % 10)).toUInt8 ::
      32 :: reason := by
    rw [← shape, decimal_status range, List.drop_left' (by decide)]
    rfl
  have code : status / 100 * 100 + status / 10 % 10 * 10 + status % 10 = status := by omega
  simp only [parseStatusLine, version, major, rest, List.all_cons, List.all_nil, hundreds, tens, units,
    hundredsValue, tensValue, unitsValue, code]
  simp only [Bool.not_true, Bool.and_true, Bool.false_eq_true, false_and, if_false, if_true, range.1,
    true_and]

theorem parseStatusLine_statusLine (range : 200 ≤ response.status ∧ response.status ≤ 599) :
    ∃ reason, parseStatusLine response.statusLine = .ok (.http11, response.status, reason) := by
  rw [statusLine, parseStatusLine_digits (by omega), if_pos range.2]
  exact ⟨_, rfl⟩

end StatusLine

section Fields

theorem sendable_wellFormed {header : Bytes × Bytes} (sendable : SendableHeader header) :
    Field.WellFormed (header.1, 32 :: header.2) := by
  obtain ⟨nonempty, token⟩ := sendable.name
  obtain ⟨⟨nameCr, nameLf⟩, _⟩ := WireRequest.tchar_bytes token
  obtain ⟨valueCr, valueLf⟩ := sendable.value
  have absent : ∀ byte : UInt8, isTcharStrict byte = false → byte ∉ header.1 := by
    intro byte excluded member
    simp [List.all_eq_true.mp token byte member] at excluded
  refine ⟨⟨⟨?_, ?_⟩, ?_⟩, absent 58 (by decide)⟩
  · simp [Field.line, nameCr, valueCr]
  · simp [Field.line, nameLf, valueLf]
  · obtain ⟨byte, rest, shape⟩ := List.exists_cons_of_ne_nil nonempty
    refine ⟨byte, rest ++ 58 :: 32 :: header.2, by simp [Field.line, shape], ?_, ?_⟩
    · rintro rfl
      exact absent 32 (by decide) (by simp [shape])
    · rintro rfl
      exact absent 9 (by decide) (by simp [shape])

theorem decimal_bytes {length : Nat} {byte : UInt8} (member : byte ∈ decimal length) :
    Bytes.isDigit byte = true := by
  obtain ⟨char, inDigits, rfl⟩ := List.mem_map.mp member
  have digit := Nat.isDigit_of_mem_toDigits (by decide) (by decide) inDigits
  have range : 48 ≤ char.toNat ∧ char.toNat ≤ 57 := by
    simpa [Char.isDigit, UInt32.le_iff_toNat_le] using digit
  have value : char.toUInt8.toNat = char.toNat := by
    rw [Char.toUInt8, UInt32.toNat_toUInt8]
    exact Nat.mod_eq_of_lt (by change char.toNat < _; omega)
  simp only [Bytes.isDigit, UInt8.le_iff_toNat_le, value, Bool.and_eq_true, decide_eq_true_eq]
  exact range

theorem decimal_not_mem (length : Nat) {byte : UInt8} (other : Bytes.isDigit byte = false) :
    byte ∉ decimal length := by
  intro member
  simp [decimal_bytes member] at other

theorem contentLength_wellFormed (length : Nat) :
    Field.WellFormed (ascii "content-length", 32 :: decimal length) := by
  have name : 13 ∉ ascii "content-length" ∧ 10 ∉ ascii "content-length" ∧
      58 ∉ ascii "content-length" := by decide
  refine ⟨⟨⟨?_, ?_⟩, 99, _, rfl, by decide, by decide⟩, name.2.2⟩
  · simp [Field.line, name.1, @decimal_not_mem length 13 (by decide)]
  · simp [Field.line, name.2.1, @decimal_not_mem length 10 (by decide)]

/-- A blank in front of a value that holds none is trimmed. -/
theorem trimOws_blank {value : Bytes} (solid : ∀ byte ∈ value, byte ≠ 32 ∧ byte ≠ 9) :
    (trimOws (32 :: value)).slice (32 :: value) = value := by
  have none : ∀ bytes : Bytes, (∀ byte ∈ bytes, byte ∈ value) → leadingOws bytes = 0 := by
    intro bytes inside
    cases bytes with
    | nil => rfl
    | cons byte rest => simp [leadingOws, solid byte (inside byte (.head _))]
  have first := none value fun _ member => member
  have last := none value.reverse fun byte member => List.mem_reverse.mp member
  rw [trimOws_space_slice, trimOws_slice, first, List.drop_zero, last, List.drop_zero,
    List.reverse_reverse]

theorem fields_wellFormed (headers : ∀ header ∈ response.headers, SendableHeader header) :
    ∀ field ∈ response.fields, field.WellFormed := by
  intro field member
  rcases List.mem_append.mp member with own | framing
  · obtain ⟨header, inHeaders, rfl⟩ := List.mem_map.mp own
    exact sendable_wellFormed (headers header inHeaders)
  · split at framing
    · rw [List.mem_singleton] at framing
      exact framing ▸ contentLength_wellFormed _
    · simp at framing

/-- The handler's headers do not frame the body. -/
theorem fields_get (headers : ∀ header ∈ response.headers, SendableHeader header) {name : Bytes}
    (framing : name = ascii "content-length" ∨ name = ascii "transfer-encoding") :
    ((response.fields.map fun field : Field => (field.1, field.value)).find?
        fun header => Bytes.eqIgnoreCase header.1 name).map (·.2) =
      if response.body ≠ [] ∧ name = ascii "content-length" then some (decimal response.body.length)
      else none := by
  have others : ((response.headers.map fun (name, value) => ((name, 32 :: value) : Field)).map
      fun field : Field => (field.1, field.value)).find? (fun header => Bytes.eqIgnoreCase header.1 name) =
        none := by
    rw [List.find?_eq_none]
    intro header member
    simp only [List.mem_map] at member
    obtain ⟨_, ⟨sent, inHeaders, rfl⟩, rfl⟩ := member
    rcases framing with rfl | rfl
    · simp [(headers sent inHeaders).noLength]
    · simp [(headers sent inHeaders).noCoding]
  rw [fields, List.map_append, List.find?_append, others, Option.none_or]
  have value : Field.value (ascii "content-length", 32 :: decimal response.body.length) =
      decimal response.body.length := trimOws_blank fun byte member =>
    ⟨fun same => decimal_not_mem _ (by decide) (same ▸ member),
      fun same => decimal_not_mem _ (by decide) (same ▸ member)⟩
  have own : Bytes.eqIgnoreCase (ascii "content-length") (ascii "content-length") = true := by decide
  have other : Bytes.eqIgnoreCase (ascii "content-length") (ascii "transfer-encoding") = false := by
    decide
  by_cases empty : response.body = []
  · simp [empty]
  · rcases framing with rfl | rfl
    · simp [empty, own, value]
    · simp [empty, other]
      decide

end Fields

section Head

theorem head_length (range : 200 ≤ response.status ∧ response.status ≤ 599)
    (nonempty : response.body ≠ []) :
    response.head.length = response.reason.length + response.headersSize +
      (decimal response.body.length).length + 35 := by
  have headers : (response.headers.flatMap
      fun (name, value) => name ++ ascii ": " ++ value ++ crlf).length = response.headersSize := by
    rw [List.length_flatMap, headersSize]
    congr 1
    refine List.map_congr_left fun (name, value) _ => ?_
    simp only [List.length_append, show (ascii ": ").length = 2 from rfl, show crlf.length = 2 from rfl]
    omega
  have status : (decimal response.status).length = 3 := by rw [decimal_status (by omega)]; rfl
  simp only [head, renderHead, if_pos (decide_eq_true nonempty), List.length_append, headers, status,
    show (ascii "HTTP/1.1 ").length = 9 from rfl, show (ascii "content-length: ").length = 16 from rfl,
    show crlf.length = 2 from rfl, List.length_cons, List.length_nil]
  omega

/-- What the client makes of the head. -/
theorem parse_head (range : 200 ≤ response.status ∧ response.status ≤ 599)
    (headers : ∀ header ∈ response.headers, SendableHeader header)
    (fits : response.head.length ≤ maxHead) :
    ∃ ranges, parseResponseRanges response.head = .ok (some ranges) ∧
      ranges.consumed = response.head.length ∧ ranges.status = some response.status ∧
      (HeaderBlock.mk response.head ranges.headers).iter =
        response.fields.map fun field : Field => (field.1, field.value) := by
  have whole : response.head = headText response.statusLine (response.fields.map Field.line) ++
      (headerDelim ++ []) := by rw [List.append_nil, head_eq]
  obtain ⟨reason, line⟩ := parseStatusLine_statusLine range
  have nonempty : response.statusLine ≠ [] := by simp [statusLine]
  have parsed := parseResponseRanges_complete (statusLine_bytes range) nonempty
    (fields_wellFormed headers) (whole ▸ fits)
  have iter := headBlock_iter response.statusLine response.fields []
  rw [line] at parsed
  rw [← whole] at parsed iter
  refine ⟨_, parsed, ?_, rfl, iter⟩
  rw [head_eq, List.length_append]

theorem parse_head_tooLarge (large : maxHead < response.head.length) :
    ∃ error, parseResponseRanges response.head = .error error := by
  refine ⟨.parse "message head exceeds 64 KiB", ?_⟩
  simp only [parseResponseRanges, findHeadEnd, if_pos large, bind, Except.bind]

theorem responseBodyKind_head (answerable : response.Answerable) {headers : HeaderBlock}
    (iter : headers.iter = response.fields.map fun field : Field => (field.1, field.value)) :
    responseBodyKind headers response.status false =
      .ok (if response.body = [] then .untilEof else .contentLength response.body.length) := by
  have length := fields_get answerable.headers (.inl rfl)
  have coding := fields_get answerable.headers (.inr rfl)
  rw [← iter] at length coding
  have range := answerable.status
  have bodied := answerable.bodied
  have large := response.bodyFits
  have different : ascii "transfer-encoding" ≠ ascii "content-length" := by decide
  rw [responseBodyKind, if_neg (by omega), if_neg Bool.false_ne_true, HeaderBlock.get, coding,
    if_neg (fun both => different both.2), contentLengthKind, HeaderBlock.get, length]
  by_cases empty : response.body = []
  · simp [empty, bind, Except.bind]
  · simp [empty, bind, Except.bind, @parseContentLength_decimal response.body.length
      (by rw [U64.max]; omega)]

end Head

theorem SelfDelimiting.nonempty (answerable : response.Answerable)
    (delimits : response.SelfDelimiting) : response.body ≠ [] ∧ response.head.length ≤ maxHead := by
  obtain ⟨ranges, head, kind, parsed, _, rfl, framing, delimited, _⟩ := delimits
  have fits : response.head.length ≤ maxHead := by
    by_contra large
    obtain ⟨error, rejected⟩ := parse_head_tooLarge (Nat.not_le.mp large)
    rw [rejected] at parsed
    cases parsed
  obtain ⟨_, again, _, status, iter⟩ := parse_head answerable.status answerable.headers fits
  rw [parsed, Except.ok.injEq, Option.some.injEq] at again
  subst again
  refine ⟨fun empty => ?_, fits⟩
  have untilEof := responseBodyKind_head answerable iter
  simp only [ResponseHead.fromRanges, status, Option.getD_some] at framing
  rw [untilEof, if_pos empty, Except.ok.injEq] at framing
  exact delimited framing.symm

theorem selfDelimiting_of_nonempty (answerable : response.Answerable) (nonempty : response.body ≠ [])
    (fits : response.head.length ≤ maxHead) : response.SelfDelimiting := by
  obtain ⟨ranges, parsed, consumed, status, iter⟩ := parse_head answerable.status answerable.headers fits
  have framing := responseBodyKind_head answerable iter
  rw [if_neg nonempty] at framing
  refine ⟨ranges, _, .contentLength response.body.length, parsed, consumed, rfl, ?_, nofun, ?_⟩
  · simpa only [ResponseHead.fromRanges, status, Option.getD_some] using framing
  · intro conn max later live stream limit
    have holds : BodyReader.Holds (BodyReader.new conn (.contentLength response.body.length)) later
        response.body := .contentLength rfl (by simp [BodyReader.new, nonempty]) rfl stream
    obtain ⟨reader, reads, _, streamLeft, _⟩ := BodyReader.readToVec_runs live holds limit
    exact ⟨reader, reads, streamLeft⟩

/-- A response is self-delimiting exactly when its body is not empty, and its head fits the
client's buffer. -/
theorem selfDelimiting_iff (answerable : response.Answerable) :
    response.SelfDelimiting ↔ response.body ≠ [] ∧ response.reason.length + response.headersSize +
      (decimal response.body.length).length + 35 ≤ maxHead := by
  constructor
  · intro delimits
    obtain ⟨nonempty, fits⟩ := delimits.nonempty answerable
    exact ⟨nonempty, head_length answerable.status nonempty ▸ fits⟩
  · rintro ⟨nonempty, fits⟩
    rw [← head_length answerable.status nonempty] at fits
    exact selfDelimiting_of_nonempty answerable nonempty fits

theorem hello_fits : (ascii "hi").length < 2 ^ 63 := by decide

def hello : ResponseData := ⟨200, [(ascii "content-type", ascii "text/plain")], ascii "hi", hello_fits⟩

theorem selfDelimiting_hello : hello.SelfDelimiting := by
  have answerable : hello.Answerable := by
    refine ⟨by decide, by decide, ?_⟩
    intro header member
    obtain rfl := List.mem_singleton.mp member
    exact ⟨by decide, by unfold LineBytes; decide, by decide, by decide⟩
  exact (selfDelimiting_iff answerable).mpr ⟨by decide, by decide⟩

/-- A response without a body. -/
def emptyBody : ResponseData := ⟨200, [], [], by decide⟩

theorem not_selfDelimiting_emptyBody : emptyBody.Answerable ∧ ¬ emptyBody.SelfDelimiting := by
  have answerable : emptyBody.Answerable := ⟨by decide, by decide, nofun⟩
  exact ⟨answerable, fun delimits => (delimits.nonempty answerable).1 rfl⟩

end ResponseData

end TptAsync.Http
