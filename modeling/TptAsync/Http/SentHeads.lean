import TptAsync.Http.ClientProperties
import TptAsync.Http.HeadLimit
import TptAsync.Http.Lines
import TptAsync.Http.ResponseProperties

set_option autoImplicit false

/-!
# What is made of a head that was sent

The strings of a request and of a response are put into the head as they are. A peer reads them
back just if none of them holds what ends a line or a name.
-/

namespace TptAsync.Http

open Lib HttpConnection

section Quiet

/-- Nothing is written. -/
def Quiet (before after : HttpConnection) : Prop := after.io.outbound = before.io.outbound

instance : Std.Refl Quiet := ⟨fun _ => rfl⟩

instance : Trans Quiet Quiet Quiet := ⟨fun first second => second.trans first⟩

theorem pollRead_quiet (conn : HttpConnection) (capacity : Nat) :
    Quiet conn { conn with io := (Transport.pollRead capacity conn.io).2 } := by
  obtain ⟨data, inbound, after, _⟩ := pollRead_takes conn.io capacity
  rw [Quiet, after]

theorem quiet_respected : Respected Quiet Quiet where
  fill := by
    intro conn
    have kept := pollRead_quiet conn readChunk
    rw [fill_eq]
    cases ends : Transport.pollRead readChunk conn.io with
    | mk outcome io =>
        rw [ends] at kept
        cases outcome <;> exact kept
  readRaw := by
    intro capacity conn
    rw [readRaw, (Async.Runs.get conn).bind_eq]
    by_cases buffered : conn.buf ≠ []
    · rw [if_pos buffered]
      rfl
    · have kept := pollRead_quiet conn capacity
      rw [if_neg buffered, onIo, Async.zoom]
      cases ends : Transport.pollRead capacity conn.io with
      | mk outcome io =>
          rw [ends] at kept
          cases outcome <;> exact kept
  drop _ _ := rfl

end Quiet

/-- Whatever comes of it, a send writes the head and the body. -/
theorem ClientConnection.send_outbound (request : Request) (host : Bytes) (conn : HttpConnection) :
    (send request host conn).2.io.outbound = conn.io.outbound ++ (request.head host ++ request.body) := by
  have quiet : Async.Moves Quiet Quiet (do
      let head ← readResponseHead
      let body ← responseBody head request.isHead
      pure (Response.mk head body)) := by
    refine .bind (readResponseHead_moves quiet_respected) fun head => ?_
    exact .bind (.bind (.ofExcept _) fun _ => .bind .get fun _ => .pure _) fun _ => .pure _
  rw [send, (writeMessage_runs conn _ _).bind_eq]
  exact Async.Moves.same_iff.mp quiet _

theorem sentText_eq (first : Bytes) (headers : List (Bytes × Bytes)) :
    sentText first headers ++ headerDelim = first ++ crlf ++
      headers.flatMap (fun (name, value) => name ++ ascii ": " ++ value ++ crlf) ++ crlf := by
  have joined := headText_append_crlf first (headers.map sentLine)
  rw [show headerDelim = crlf ++ crlf from rfl, ← List.append_assoc, sentText, joined]
  simp [List.flatMap_map, sentLine, show ascii ": " = [58, 32] by decide]

/-- A request head that is read as it was put together. -/
structure ReadBack (method target : Bytes) (headers : List (Bytes × Bytes)) (head : Bytes)
    (ranges : HeadRanges) : Prop where
  method : (RequestHead.fromRanges head ranges).method = method
  target : (RequestHead.fromRanges head ranges).target = target
  headers : (RequestHead.fromRanges head ranges).headers.iter = headers
  version : ranges.version = .http11

theorem sentRequest_parses {method target : Bytes} {headers : List (Bytes × Bytes)}
    (token : method ≠ [] ∧ method.all isTcharStrict = true) (solid : target ≠ [] ∧ 32 ∉ target)
    (safe : SafeHead (method ++ 32 :: (target ++ 32 :: ascii "HTTP/1.1")) headers) :
    let head := sentText (method ++ 32 :: (target ++ 32 :: ascii "HTTP/1.1")) headers ++ headerDelim
    ∃ ranges, WholeHead parseRequestRanges head ranges ∧ ReadBack method target headers head ranges := by
  intro head
  obtain ⟨ranges, parsed, whole, iter, placed⟩ := @SafeHead.parses _ (.parse "empty request head")
    parseRequestLine placeRequestLine _ _ safe (by simp) _
    (WireRequest.parseRequestLine_parts token solid)
  simp only [placeRequestLine, Prod.mk.injEq] at placed
  obtain ⟨first, version, _⟩ := placed
  obtain ⟨rest, shape⟩ : method ++ 32 :: (target ++ 32 :: ascii "HTTP/1.1") <+: head := by
    rw [show head = _ from sentText_eq _ _, List.append_assoc, List.append_assoc]
    exact List.prefix_append _ _
  refine ⟨ranges, ⟨parsed, whole⟩, ⟨?_, ?_, iter, version⟩⟩
  · simp [RequestHead.method, RequestHead.fromRanges, first, offsetRange, Range.slice, ← shape]
  · simp [RequestHead.target, RequestHead.fromRanges, first, offsetRange, Range.slice, ← shape]

namespace Request

/-- The header fields that are sent. -/
def fields (request : Request) (host : Bytes) : List (Bytes × Bytes) :=
  request.headers ++
    ((if request.headers.any fun (name, _) => Bytes.eqIgnoreCase name (ascii "host") then []
      else [(ascii "host", host)]) ++ [(ascii "content-length", decimal request.body.length)])

def requestLine (request : Request) : Bytes :=
  request.method ++ 32 :: (request.target ++ 32 :: ascii "HTTP/1.1")

theorem head_eq (request : Request) (host : Bytes) :
    request.head host = sentText request.requestLine (request.fields host) ++ headerDelim := by
  have length : ascii "content-length: " = ascii "content-length" ++ ascii ": " := by decide
  have hostLine : ascii "host: " = ascii "host" ++ ascii ": " := by decide
  have version : ascii " HTTP/1.1" = 32 :: ascii "HTTP/1.1" := by decide
  rw [sentText_eq, head, length, hostLine, version, fields, requestLine]
  split <;> simp

/-- The parser of a server reads the head with what was given, and the body is behind it. -/
def ReadsAs (request : Request) (host wire : Bytes) : Prop :=
  ∃ head ranges, FirstVerdict parseRequestRanges wire head (.ok (some ranges)) ∧
    ranges.consumed = head.length ∧ (RequestHead.fromRanges head ranges).method = request.method ∧
    (RequestHead.fromRanges head ranges).target = request.target ∧
    (RequestHead.fromRanges head ranges).headers.iter = request.fields host ∧
    wire = head ++ request.body

/-- A send fails without writing anything, or it writes just this request. -/
def Uninjected (request : Request) (host : Bytes) : Prop :=
  ∀ conn, (∃ error, (ClientConnection.send request host conn).1 = .failed error ∧
      (ClientConnection.send request host conn).2.io.outbound = conn.io.outbound) ∨
    ∃ wire, (ClientConnection.send request host conn).2.io.outbound = conn.io.outbound ++ wire ∧
      request.ReadsAs host wire

variable {request : Request} {host : Bytes}

/-- What `parse_request_ranges` makes of a head that was sent. -/
structure Read (request : Request) (host : Bytes) (ranges : HeadRanges) : Prop where
  parsed : parseRequestRanges (request.head host) = .ok (some ranges)
  whole : ranges.consumed = (request.head host).length
  method : (RequestHead.fromRanges (request.head host) ranges).method = request.method
  target : (RequestHead.fromRanges (request.head host) ranges).target = request.target
  headers : (RequestHead.fromRanges (request.head host) ranges).headers.iter = request.fields host

theorem uninjected_iff_read : request.Uninjected host ↔ ∃ ranges, request.Read host ranges := by
  constructor
  · intro uninjected
    cases uninjected (.new ⟨[], .pending, []⟩) with
    | inl nothing =>
        obtain ⟨_, _, same⟩ := nothing
        rw [ClientConnection.send_outbound, head_eq] at same
        simp [headerDelim] at same
    | inr writes =>
        obtain ⟨wire, writes, head, ranges, word, whole, method, target, headers, rfl⟩ := writes
        rw [ClientConnection.send_outbound, List.append_cancel_left_eq, List.append_cancel_right_eq]
          at writes
        subst writes
        exact ⟨ranges, word.parsed, whole, method, target, headers⟩
  · rintro ⟨ranges, read⟩ conn
    refine .inr ⟨_, ClientConnection.send_outbound request host conn, _, ranges, ?_, read.whole,
      read.method, read.target, read.headers, rfl⟩
    exact WholeHead.firstVerdict parseRequestRanges_incremental ⟨read.parsed, read.whole⟩ _

/-- What the strings of a request must be like. -/
structure Safe (request : Request) (host : Bytes) : Prop where
  method : request.method ≠ [] ∧ request.method.all isTcharStrict = true
  target : request.target ≠ [] ∧ 32 ∉ request.target
  head : SafeHead request.requestLine (request.fields host)

theorem Read.safe {ranges : HeadRanges} (read : request.Read host ranges) : request.Safe host := by
  obtain ⟨_, _, _, _, split, _⟩ := parseRequestRanges_lines read.parsed
  rw [read.method, read.target] at split
  have parsed := read.parsed
  have whole := read.whole
  have headers : (HeaderBlock.mk (request.head host) ranges.headers).iter = request.fields host :=
    read.headers
  rw [parseRequestRanges_eq, head_eq] at parsed
  rw [head_eq] at whole headers
  exact ⟨split.method, split.target, (safeHead_of_parseHead parsed whole headers).1⟩

theorem Safe.read (safe : request.Safe host) :
    ∃ ranges, request.Read host ranges ∧ ranges.version = .http11 := by
  obtain ⟨ranges, whole, read⟩ := sentRequest_parses safe.method safe.target safe.head
  rw [← requestLine, ← head_eq] at whole read
  exact ⟨ranges, ⟨whole.parsed, whole.whole, read.method, read.target, read.headers⟩, read.version⟩

/-- A request is sent as it is exactly if its strings are safe. -/
theorem uninjected_iff : request.Uninjected host ↔ request.Safe host := by
  rw [uninjected_iff_read]
  constructor
  · rintro ⟨ranges, read⟩
    exact read.safe
  · intro safe
    obtain ⟨ranges, read, _⟩ := safe.read
    exact ⟨ranges, read⟩

end Request

section Responses

def statusLine (status : Nat) (reason : Bytes) : Bytes :=
  ascii "HTTP/1.1 " ++ decimal status ++ [32] ++ reason

/-- The header fields of a response as they are sent. -/
def sentHeaders (headers : List (Bytes × Bytes)) (includeContentLength : Bool) (bodyLen : Nat) :
    List (Bytes × Bytes) :=
  headers ++ if includeContentLength then [(ascii "content-length", decimal bodyLen)] else []

theorem renderHead_eq (status : Nat) (reason : Bytes) (headers : List (Bytes × Bytes))
    (includeContentLength : Bool) (bodyLen : Nat) :
    renderHead status reason headers includeContentLength bodyLen [] =
      sentText (statusLine status reason) (sentHeaders headers includeContentLength bodyLen) ++
        headerDelim := by
  have length : ascii "content-length: " = ascii "content-length" ++ ascii ": " := by decide
  rw [sentText_eq, renderHead, length, sentHeaders, statusLine]
  split <;> simp

theorem parseStatusLine_short {status : Nat} (short : status < 100) (reason : Bytes) :
    parseStatusLine (statusLine status reason) = .error (.parse "malformed status line") := by
  have version : (ascii "HTTP/1.1 ").isPrefixOf (statusLine status reason) = true := by
    rw [List.isPrefixOf_iff_prefix, statusLine, List.append_assoc, List.append_assoc]
    exact List.prefix_append _ _
  have rest : (statusLine status reason).drop 9 = decimal status ++ 32 :: reason := by
    rw [statusLine, List.append_assoc, List.append_assoc, List.drop_left' (by decide)]
    rfl
  have space : Bytes.isDigit 32 = false := by decide
  rw [parseStatusLine, if_neg (by simp [version])]
  simp only [rest]
  rcases Nat.lt_or_ge status 10 with single | double
  · rw [decimal, Nat.toDigits_of_lt_base single]
    cases reason <;> simp [space]
  · rw [decimal, Nat.toDigits_of_base_le (by decide) double, Nat.toDigits_of_lt_base (by omega)]
    simp [space]

/-- Up to three digits, the status line is taken if the status is in range. -/
theorem parseStatusLine_ok_iff {status : Nat} (digits : status ≤ 999) (reason : Bytes) :
    (∃ parts, parseStatusLine (statusLine status reason) = .ok parts) ↔ 100 ≤ status ∧ status ≤ 599 := by
  rcases Nat.lt_or_ge status 100 with short | enough
  · rw [parseStatusLine_short short]
    refine iff_of_false ?_ (by omega)
    rintro ⟨_, same⟩
    cases same
  · rw [statusLine, ResponseData.parseStatusLine_digits ⟨enough, digits⟩]
    split
    · next within => exact iff_of_true ⟨_, rfl⟩ ⟨enough, within⟩
    · next beyond =>
        refine iff_of_false ?_ (fun range => beyond range.2)
        rintro ⟨_, same⟩
        cases same

namespace ResponseData

/-- The parser of a client reads the head with just the handler's fields, and the length. -/
def Uninjected (response : ResponseData) : Prop :=
  ∃ ranges, WholeHead parseResponseRanges response.head ranges ∧
    (HeaderBlock.mk response.head ranges.headers).iter =
      sentHeaders response.headers (response.body ≠ []) response.body.length

/-- What the status and the headers of a response must be like. -/
structure Safe (response : ResponseData) : Prop where
  status : ∃ parts, parseStatusLine (Http.statusLine response.status response.reason) = .ok parts
  head : SafeHead (Http.statusLine response.status response.reason)
    (sentHeaders response.headers (response.body ≠ []) response.body.length)

theorem uninjected_iff (response : ResponseData) : response.Uninjected ↔ response.Safe := by
  have shape : response.head = _ := renderHead_eq _ _ _ _ _
  rw [Uninjected, shape]
  constructor
  · rintro ⟨ranges, whole, headers⟩
    have parsed := whole.parsed
    rw [parseResponseRanges_eq] at parsed
    obtain ⟨head, parts, line, _⟩ := safeHead_of_parseHead parsed whole.whole headers
    exact ⟨⟨parts, line⟩, head⟩
  · rintro ⟨⟨parts, line⟩, head⟩
    have nonempty : Http.statusLine response.status response.reason ≠ [] := by
      simp [Http.statusLine]
    obtain ⟨ranges, parsed, whole, headers, _⟩ := @SafeHead.parses _ (.parse "empty status head")
      parseStatusLine placeStatusLine _ _ head nonempty _ line
    exact ⟨ranges, ⟨parsed, whole⟩, headers⟩

end ResponseData

end Responses

/-- Nothing is injected through a request or a response exactly if the strings are safe. -/
theorem heads_uninjected_iff (request : Request) (host : Bytes) (response : ResponseData) (status : Nat)
    (reason : Bytes) :
    (request.Uninjected host ↔ request.Safe host) ∧ (response.Uninjected ↔ response.Safe) ∧
      (status ≤ 999 → ((∃ parts, parseStatusLine (statusLine status reason) = .ok parts) ↔
        100 ≤ status ∧ status ≤ 599)) :=
  ⟨Request.uninjected_iff, response.uninjected_iff, fun digits => parseStatusLine_ok_iff digits reason⟩

theorem heads_uninjected_iff_minimal :
    Request.Uninjected ⟨ascii "GET", ascii "/", [], []⟩ (ascii "localhost") ∧
      ∃ parts, parseStatusLine (statusLine 404 (ascii "Not Found")) = .ok parts := by
  obtain ⟨sent, _, line⟩ := heads_uninjected_iff ⟨ascii "GET", ascii "/", [], []⟩ (ascii "localhost")
    ⟨404, [], [], by decide⟩ 404 (ascii "Not Found")
  refine ⟨sent.mpr ⟨by decide, by decide, by decide, by decide, ?_, ?_⟩,
    (line (by decide)).mpr (by decide)⟩
  · unfold Folding
    decide
  · have safe : ∀ header : Bytes × Bytes, (58 ∉ header.1 ∧ ¬ Indented header.1) →
        (¬ Indented header.2 ∧ ¬ Indented header.2.reverse) → ¬ crlf <:+: sentLine header →
        ¬ Folding (sentLine header) → SafeHeader header := fun _ => .mk
    have both : Request.fields ⟨ascii "GET", ascii "/", [], []⟩ (ascii "localhost") =
        [(ascii "host", ascii "localhost"), (ascii "content-length", ascii "0")] := rfl
    rw [both]
    unfold Folding Indented at safe
    exact List.forall_mem_cons.mpr ⟨safe _ (by decide) (by decide) (by decide) (by decide),
      List.forall_mem_singleton.mpr (safe _ (by decide) (by decide) (by decide) (by decide))⟩

/-- A value with a line end in it adds a header. -/
theorem not_heads_uninjected :
    let injected := (ascii "x-a", ascii "1\r\nx-b: 2")
    ¬ Request.Uninjected ⟨ascii "GET", ascii "/", [injected], []⟩ (ascii "localhost") ∧
      ¬ ResponseData.Uninjected ⟨200, [injected], [], by decide⟩ := by
  intro injected
  have cut : crlf <:+: sentLine injected := by decide
  rw [Request.uninjected_iff, ResponseData.uninjected_iff]
  constructor
  · intro safe
    exact (safe.head.headers injected (by simp [Request.fields])).uncut cut
  · intro safe
    exact (safe.head.headers injected (by simp [sentHeaders])).uncut cut

section RoundTrip

/-- A value without a line end, and without white space around it. -/
structure PlainValue (value : Bytes) : Prop where
  bytes : LineBytes value
  bare : ¬ Indented value ∧ ¬ Indented value.reverse

instance (value : Bytes) : Decidable (PlainValue value) :=
  decidable_of_iff ((13 ∉ value ∧ 10 ∉ value) ∧ ¬ (value.head? = some 32 ∨ value.head? = some 9) ∧
      ¬ (value.reverse.head? = some 32 ∨ value.reverse.head? = some 9))
    ⟨fun plain => ⟨plain.1, plain.2⟩, fun plain => ⟨plain.bytes, plain.bare⟩⟩

structure PlainHeader (header : Bytes × Bytes) : Prop where
  name : header.1 ≠ [] ∧ header.1.all isTcharStrict = true
  value : PlainValue header.2

theorem LineBytes.uncut {line : Bytes} (bytes : LineBytes line) : ¬ crlf <:+: line :=
  fun inside => bytes.1 (inside.subset (.head _))

theorem LineBytes.unfolded {line : Bytes} (bytes : LineBytes line) : ¬ Folding line :=
  fun inside => bytes.2 (inside.elim (·.subset (.head _)) (·.subset (.head _)))

theorem PlainHeader.safe {header : Bytes × Bytes} (plain : PlainHeader header) : SafeHeader header := by
  have token := plain.name.2
  obtain ⟨nameBytes, _⟩ := WireRequest.tchar_bytes token
  have absent : ∀ byte : UInt8, isTcharStrict byte = false → byte ∉ header.1 := by
    intro byte excluded member
    simp [List.all_eq_true.mp token byte member] at excluded
  have bytes : LineBytes (sentLine header) := by
    simp [LineBytes, sentLine, nameBytes.1, nameBytes.2, plain.value.bytes.1, plain.value.bytes.2]
  refine ⟨⟨absent 58 (by decide), fun indented => ?_⟩, plain.value.bare, bytes.uncut, bytes.unfolded⟩
  cases indented with
  | inl space => exact absent 32 (by decide) (List.mem_of_head? space)
  | inr tab => exact absent 9 (by decide) (List.mem_of_head? tab)

theorem contentLength_plain (length : Nat) : PlainHeader (ascii "content-length", decimal length) := by
  have bare : ∀ bytes : Bytes, (∀ byte ∈ bytes, byte ∈ decimal length) → ¬ Indented bytes := by
    rintro bytes inside (space | tab)
    · exact ResponseData.decimal_not_mem length (by decide) (inside 32 (List.mem_of_head? space))
    · exact ResponseData.decimal_not_mem length (by decide) (inside 9 (List.mem_of_head? tab))
  refine ⟨by dsimp only; decide, ⟨?_, ?_⟩, bare _ fun _ => id, bare _ fun _ => List.mem_reverse.mp⟩
  · exact ResponseData.decimal_not_mem length (by decide)
  · exact ResponseData.decimal_not_mem length (by decide)

/-- A request that is well formed. -/
structure Request.Plain (request : Request) (host : Bytes) : Prop where
  method : request.method ≠ [] ∧ request.method.all isTcharStrict = true
  target : request.target ≠ [] ∧ 32 ∉ request.target ∧ LineBytes request.target
  headers : ∀ header ∈ request.headers, PlainHeader header
  hostValue : PlainValue host
  size : (request.head host).length ≤ maxHead

theorem Request.Plain.safe {request : Request} {host : Bytes} (plain : request.Plain host) :
    request.Safe host := by
  obtain ⟨targetNonempty, targetSpace, targetBytes⟩ := plain.target
  obtain ⟨methodBytes, _⟩ := WireRequest.tchar_bytes plain.method.2
  have bytes : LineBytes request.requestLine := by
    have version : LineBytes (ascii "HTTP/1.1") := by unfold LineBytes; decide
    simp [LineBytes, Request.requestLine, methodBytes.1, methodBytes.2, targetBytes.1, targetBytes.2,
      version.1, version.2]
  refine ⟨plain.method, ⟨targetNonempty, targetSpace⟩, ?_, bytes.uncut, bytes.unfolded, ?_⟩
  · rw [← Request.head_eq]
    exact plain.size
  · intro header member
    refine PlainHeader.safe ?_
    simp only [Request.fields, List.mem_append, List.mem_singleton] at member
    rcases member with given | host | length
    · exact plain.headers header given
    · split at host
      · cases host
      · rw [List.mem_singleton.mp host]
        exact ⟨by dsimp only; decide, plain.hostValue⟩
    · exact length ▸ contentLength_plain _

/-- What is rendered from well-formed parts is parsed to these parts. -/
theorem renderHead_parses {status : Nat} {reason : Bytes} {headers : List (Bytes × Bytes)}
    {includeContentLength : Bool} {bodyLen : Nat} (range : 100 ≤ status ∧ status ≤ 599)
    (plainReason : PlainValue reason) (plainHeaders : ∀ header ∈ headers, PlainHeader header)
    (size : (renderHead status reason headers includeContentLength bodyLen []).length ≤ maxHead) :
    let head := renderHead status reason headers includeContentLength bodyLen []
    ∃ ranges, WholeHead parseResponseRanges head ranges ∧
      (ResponseHead.fromRanges head ranges).status = status ∧
      (ResponseHead.fromRanges head ranges).reason = reason ∧
      (ResponseHead.fromRanges head ranges).headers.iter =
        sentHeaders headers includeContentLength bodyLen := by
  intro head
  have shape : head = _ := renderHead_eq status reason headers includeContentLength bodyLen
  have version : LineBytes (ascii "HTTP/1.1 ") := by unfold LineBytes; decide
  have bytes : LineBytes (statusLine status reason) := by
    have carriage := @ResponseData.decimal_not_mem status 13 (by decide)
    have feed := @ResponseData.decimal_not_mem status 10 (by decide)
    simp [LineBytes, statusLine, version.1, version.2, carriage, feed, plainReason.bytes.1,
      plainReason.bytes.2]
  have safe : SafeHead (statusLine status reason)
      (sentHeaders headers includeContentLength bodyLen) := by
    refine ⟨shape ▸ size, bytes.uncut, bytes.unfolded, fun header member => PlainHeader.safe ?_⟩
    cases List.mem_append.mp member with
    | inl given => exact plainHeaders header given
    | inr length =>
        split at length
        · exact List.mem_singleton.mp length ▸ contentLength_plain bodyLen
        · cases length
  have line := @ResponseData.parseStatusLine_digits status ⟨range.1, by omega⟩ reason
  rw [if_pos range.2] at line
  have nonempty : statusLine status reason ≠ [] := by simp [statusLine]
  obtain ⟨ranges, parsed, whole, iter, placed⟩ := @SafeHead.parses _ (.parse "empty status head")
    parseStatusLine placeStatusLine _ _ safe nonempty _ line
  rw [← shape] at parsed whole iter
  simp only [placeStatusLine, Prod.mk.injEq] at placed
  obtain ⟨first, _, code⟩ := placed
  refine ⟨ranges, ⟨parsed, whole⟩, ?_, ?_, iter⟩
  · rw [ResponseHead.fromRanges, code, Option.getD_some]
  · have length : (ascii "HTTP/1.1 " ++ decimal status).length = 12 := by
      rw [ResponseData.decimal_status ⟨range.1, by omega⟩]
      rfl
    obtain ⟨rest, tail⟩ : statusLine status reason <+: head := by
      rw [shape, sentText_eq, List.append_assoc, List.append_assoc]
      exact List.prefix_append _ _
    have slice := slice_append (trimOws (32 :: reason)) (ascii "HTTP/1.1 " ++ decimal status)
      (32 :: reason) rest (trimOws_stop_le _)
    rw [(trimOws_blank_iff reason).mpr plainReason.bare, length] at slice
    rw [ResponseHead.reason, ResponseHead.fromRanges, first, ← tail, statusLine, List.append_assoc,
      List.append_assoc]
    exact slice

/-- Rendering and parsing heads are inverse on well-formed messages. -/
theorem heads_round_trip :
    (∀ (request : Request) (host : Bytes), request.Plain host →
      ∃ ranges, request.Read host ranges ∧ ranges.version = .http11) ∧
    ∀ (status : Nat) (reason : Bytes) (headers : List (Bytes × Bytes)) (includeContentLength : Bool)
      (bodyLen : Nat), 100 ≤ status ∧ status ≤ 599 → PlainValue reason →
      (∀ header ∈ headers, PlainHeader header) →
      (renderHead status reason headers includeContentLength bodyLen []).length ≤ maxHead →
      let head := renderHead status reason headers includeContentLength bodyLen []
      ∃ ranges, parseResponseRanges head = .ok (some ranges) ∧
        (ResponseHead.fromRanges head ranges).status = status ∧
        (ResponseHead.fromRanges head ranges).reason = reason ∧
        (ResponseHead.fromRanges head ranges).headers.iter =
          sentHeaders headers includeContentLength bodyLen := by
  refine ⟨fun _ _ plain => plain.safe.read, fun _ _ _ _ _ range plainReason plainHeaders size => ?_⟩
  obtain ⟨ranges, whole, read⟩ := renderHead_parses range plainReason plainHeaders size
  exact ⟨ranges, whole.parsed, read⟩

theorem heads_round_trip_field :
    let field := (ascii "x-time", ascii "12:30")
    let request : Request := ⟨ascii "GET", ascii "/", [field], []⟩
    let head := renderHead 200 (ascii "OK") [field] true 2 []
    (∃ ranges, request.Read (ascii "localhost") ranges ∧ ranges.version = .http11) ∧
      ∃ ranges, parseResponseRanges head = .ok (some ranges) ∧
        (ResponseHead.fromRanges head ranges).status = 200 ∧
        (ResponseHead.fromRanges head ranges).reason = ascii "OK" ∧
        (ResponseHead.fromRanges head ranges).headers.iter =
          [field, (ascii "content-length", ascii "2")] := by
  intro field request head
  have headers : ∀ header ∈ [field], PlainHeader header :=
    List.forall_mem_singleton.mpr ⟨by decide, by decide⟩
  constructor
  · exact heads_round_trip.1 request (ascii "localhost")
      ⟨by decide, by unfold LineBytes; decide, headers, by decide, by decide⟩
  · exact heads_round_trip.2 200 (ascii "OK") [field] true 2 (by decide) (by decide) headers (by decide)

end RoundTrip

end TptAsync.Http
