import TptAsync.Http.BodyReaderProperties
import TptAsync.Http.Framing
import TptAsync.Http.Server

set_option autoImplicit false

/-!
# Requests on the wire

A well-formed request is read back as it was sent, and the reader stops right behind it.
-/

namespace TptAsync.Http

open Lib

/-- A request as it is sent: its head, the bytes behind the head, and the body that these
stand for. -/
structure WireRequest where
  method : Bytes
  target : Bytes
  fields : List Field
  wire : Bytes
  body : Bytes

namespace WireRequest

def requestLine (request : WireRequest) : Bytes :=
  request.method ++ 32 :: (request.target ++ 32 :: ascii "HTTP/1.1")

def head (request : WireRequest) : Bytes :=
  headText request.requestLine (request.fields.map Field.line) ++ headerDelim

def bytes (request : WireRequest) : Bytes := request.head ++ request.wire

def headers (request : WireRequest) : List (Bytes × Bytes) :=
  request.fields.map fun field => (field.1, field.value)

/-- The values of every header with `name`, in order. -/
def values (request : WireRequest) (name : Bytes) : List Bytes :=
  (request.headers.filter fun header => Bytes.eqIgnoreCase header.1 name).map (·.2)

/-- A `Connection` header asks for the connection to be closed. -/
def closes (request : WireRequest) : Bool :=
  (request.values (ascii "connection")).any (Bytes.eqIgnoreCase · (ascii "close"))

def chunked (request : WireRequest) : Bool := request.values (ascii "transfer-encoding") ≠ []

def view (request : WireRequest) : RequestView where
  method := request.method
  target := request.target
  version := .http11
  headers := request.headers
  keepAlive := !request.closes

/-- The headers frame the bytes behind the head as the body. Sizes are 64 bits wide. -/
inductive Framed (request : WireRequest) : Prop
  | absent (noCoding : request.values (ascii "transfer-encoding") = [])
      (noLength : request.values (ascii "content-length") = []) (wire : request.wire = [])
      (body : request.body = [])
  | contentLength (noCoding : request.values (ascii "transfer-encoding") = []) (digits : List Char)
      (length : request.values (ascii "content-length") = [digits.map Char.toUInt8])
      (nonempty : digits ≠ []) (valid : ∀ char ∈ digits, char.isDigit = true)
      (number : Text.number 10 digits = request.body.length) (fits : request.body.length ≤ U64.max)
      (wire : request.wire = request.body)
  | chunked (coding : Bytes) (codings : request.values (ascii "transfer-encoding") = [coding])
      (acceptable : Bytes.eqIgnoreCase coding (ascii "chunked") = true)
      (noLength : request.values (ascii "content-length") = [])
      (wire : ChunkedBody request.wire request.body)

structure WellFormed (request : WireRequest) : Prop where
  method : request.method ≠ [] ∧ request.method.all isTcharStrict = true
  target : request.target ≠ [] ∧ LineBytes request.target ∧ 32 ∉ request.target
  fields : ∀ field ∈ request.fields, field.WellFormed
  size : request.head.length ≤ maxHead - HttpConnection.readChunk
  connection : (request.values (ascii "connection")).length ≤ 1
  framed : request.Framed

variable {request : WireRequest}

section RequestLine

theorem tchar_bytes {bytes : Bytes} (token : bytes.all isTcharStrict = true) :
    LineBytes bytes ∧ 32 ∉ bytes := by
  have all := List.all_eq_true.mp token
  have absent : ∀ byte : UInt8, isTcharStrict byte = false → byte ∉ bytes := by
    intro byte excluded member
    simp [all byte member] at excluded
  exact ⟨⟨absent 13 (by decide), absent 10 (by decide)⟩, absent 32 (by decide)⟩

theorem findIdx?_space {before after : Bytes} (bytes : 32 ∉ before) :
    (before ++ 32 :: after).findIdx? (· = 32) = some before.length := by
  have none : before.findIdx? (· = 32) = none := by
    rw [List.findIdx?_eq_none_iff]
    intro byte member
    rw [decide_eq_false_iff_not]
    exact fun same => bytes (same ▸ member)
  simp [List.findIdx?_append, none, List.findIdx?_cons]

theorem requestLine_bytes (wellFormed : request.WellFormed) : LineBytes request.requestLine := by
  obtain ⟨⟨methodCr, methodLf⟩, _⟩ := tchar_bytes wellFormed.method.2
  obtain ⟨_, ⟨targetCr, targetLf⟩, _⟩ := wellFormed.target
  have version : 13 ∉ ascii "HTTP/1.1" ∧ 10 ∉ ascii "HTTP/1.1" := by decide
  constructor
  · simp [requestLine, methodCr, targetCr, version.1]
  · simp [requestLine, methodLf, targetLf, version.2]

theorem parseRequestLine_parts {method target : Bytes}
    (name : method ≠ [] ∧ method.all isTcharStrict = true) (place : target ≠ [] ∧ 32 ∉ target) :
    parseRequestLine (method ++ 32 :: (target ++ 32 :: ascii "HTTP/1.1")) =
      .ok (⟨0, method.length⟩, ⟨method.length + 1, method.length + 1 + target.length⟩, .http11) := by
  obtain ⟨methodNonempty, token⟩ := name
  obtain ⟨targetNonempty, targetBytes⟩ := place
  generalize shape : method ++ 32 :: (target ++ 32 :: ascii "HTTP/1.1") = line
  have rest : line.drop (method.length + 1) = target ++ 32 :: ascii "HTTP/1.1" := by
    rw [← shape, ← List.singleton_append, ← List.append_assoc, List.drop_left' (by simp)]
  have version : (target ++ 32 :: ascii "HTTP/1.1").drop (target.length + 1) = ascii "HTTP/1.1" := by
    rw [← List.singleton_append, ← List.append_assoc, List.drop_left' (by simp)]
  have first : line.take method.length = method := by rw [← shape, List.take_left]
  have sp1 : line.findIdx? (· = 32) = some method.length := by
    rw [← shape, findIdx?_space (tchar_bytes token).2]
  simp [parseRequestLine, sp1, rest, version, first, token, findIdx?_space targetBytes,
    methodNonempty, targetNonempty]

theorem parseRequestLine_requestLine (wellFormed : request.WellFormed) :
    parseRequestLine request.requestLine =
      .ok (⟨0, request.method.length⟩,
        ⟨request.method.length + 1, request.method.length + 1 + request.target.length⟩, .http11) :=
  parseRequestLine_parts wellFormed.method ⟨wellFormed.target.1, wellFormed.target.2.2⟩

end RequestLine

section ReadHead

open HttpConnection

variable {conn : HttpConnection} {rest : Bytes}

/-- The head that the server makes of a request. -/
def requestHead (request : WireRequest) : RequestHead where
  buf := request.head
  methodRange := ⟨0, request.method.length⟩
  targetRange := ⟨request.method.length + 1, request.method.length + 1 + request.target.length⟩
  version := .http11
  headers := headBlock request.requestLine request.fields request.head

theorem requestHead_headers (request : WireRequest) :
    request.requestHead.headers.iter = request.headers := by
  have block := headBlock_iter request.requestLine request.fields []
  rwa [List.append_nil] at block

theorem requestHead_get (request : WireRequest) (name : Bytes) :
    request.requestHead.headers.get name = (request.values name).head? := by
  rw [HeaderBlock.get_eq, HeaderBlock.values, requestHead_headers, values]

theorem keepAliveRequested_requestHead (wellFormed : request.WellFormed) :
    keepAliveRequested request.requestHead = !request.closes := by
  have single := wellFormed.connection
  simp only [keepAliveRequested, requestHead_get, closes]
  change (!(((request.values (ascii "connection")).head?.map _).getD false)) = _
  match request.values (ascii "connection"), single with
  | [], _ => rfl
  | [value], _ => simp

theorem requestHead_view (wellFormed : request.WellFormed) :
    request.requestHead.view (keepAliveRequested request.requestHead) = request.view := by
  have start : request.head = request.method ++ (32 :: request.target ++
      request.head.drop (request.method.length + (1 + request.target.length))) := by
    have initial : request.method ++ (32 :: request.target) <+: request.head := by
      rw [head]
      cases request.fields <;>
        exact ⟨_, by simp only [List.map_nil, List.map_cons, headText, requestLine, List.append_assoc,
          List.cons_append]; rfl⟩
    obtain ⟨tail, shape⟩ := initial
    conv_rhs => rw [← shape]
    rw [← shape, List.drop_left' (by simp; omega), List.append_assoc]
  have method : request.requestHead.method = request.method := by
    simp only [RequestHead.method, requestHead, Range.slice]
    rw [start]
    simp
  have target : request.requestHead.target = request.target := by
    simp only [RequestHead.target, requestHead, Range.slice]
    rw [start, ← List.singleton_append, List.append_assoc, ← List.append_assoc request.method,
      List.drop_left' (by simp)]
    simp
  simp only [RequestHead.view, method, target, requestHead_headers,
    keepAliveRequested_requestHead wellFormed]
  rfl

theorem readRequestHeadLoop_runs {fuel : Nat} (wellFormed : request.WellFormed) (live : conn.Live)
    (shape : conn.stream = request.head ++ rest) (enough : conn.undelivered.length < fuel)
    (buffered : conn.buf.length ≤ maxHead) :
    ∃ after, (readRequestHeadLoop fuel).Runs conn (some request.requestHead) after ∧
      conn.Advances request.head after ∧ after.buf.length ≤ maxHead := by
  have lines := requestLine_bytes wellFormed
  have nonempty : request.requestLine ≠ [] := by simp [requestLine]
  have headers : ∀ line ∈ request.fields.map Field.line, HeaderLine line := by
    intro line member
    obtain ⟨field, inFields, rfl⟩ := List.mem_map.mp member
    exact (wellFormed.fields field inFields).line
  induction fuel generalizing conn with
  | zero => exact absurd enough (Nat.not_lt_zero _)
  | succ fuel ih =>
      have initial : conn.buf <+: request.head ++ rest := ⟨conn.undelivered, shape⟩
      rcases Nat.lt_or_ge conn.buf.length request.head.length with short | long
      · have part : conn.buf <+: request.head :=
          List.prefix_of_prefix_length_le initial (List.prefix_append _ _) short.le
        have incomplete : parseRequestRanges conn.buf = .ok none := by
          simp only [parseRequestRanges, findHeadEnd_partial lines headers part short buffered, bind,
            Except.bind]
        have missing : conn.undelivered ≠ [] := by
          intro delivered
          have lengths := congrArg List.length shape
          rw [stream, delivered, List.append_nil, List.length_append] at lengths
          omega
        obtain ⟨count, middle, fills, positive, advances, grows, shrinks⟩ := fill_runs live missing
        have size := wellFormed.size
        have room : readChunk ≤ maxHead := by decide
        obtain ⟨after, loops, kept, bounded⟩ := ih advances.live
          (by rw [← shape, advances.stream, List.nil_append]) (by omega) (by omega)
        refine ⟨after, (Async.Runs.get conn).bind ?_, by simpa using advances.trans kept, bounded⟩
        refine (Async.Runs.set conn { conn with buf := [] }).bind ?_
        rw [incomplete]
        refine (Async.Runs.pure _ none).bind ((Async.Runs.set _ conn).bind (fills.bind ?_))
        rw [if_neg positive.ne']
        exact loops
      · obtain ⟨tail, held⟩ : request.head <+: conn.buf :=
          List.prefix_of_prefix_length_le (List.prefix_append _ _) initial long
        have bound : (headText request.requestLine (request.fields.map Field.line) ++
            (headerDelim ++ tail)).length ≤ maxHead := by
          rw [← List.append_assoc]
          exact held ▸ buffered
        have parsed := parseRequestRanges_complete lines nonempty wellFormed.fields bound
        rw [← List.append_assoc, show headText request.requestLine (request.fields.map Field.line) ++
          headerDelim ++ tail = conn.buf from held, parseRequestLine_requestLine wellFormed] at parsed
        simp only [bind, Except.bind] at parsed
        have consumed : (headText request.requestLine (request.fields.map Field.line)).length +
            headerDelim.length = request.head.length := List.length_append.symm
        refine ⟨{ conn with buf := tail }, (Async.Runs.get conn).bind ?_,
          ⟨?_, ⟨live.segments, live.eof⟩, rfl, rfl⟩, ?_⟩
        · refine (Async.Runs.set conn { conn with buf := [] }).bind ?_
          rw [parsed]
          refine (Async.Runs.pure _ _).bind ?_
          simp only [consumed]
          rw [show conn.buf.take request.head.length = request.head by rw [← held, List.take_left],
            show conn.buf.drop request.head.length = tail by rw [← held, List.drop_left]]
          rfl
        · simp only [stream, undelivered, ← held, List.append_assoc]
        · have lengths := congrArg List.length held
          rw [List.length_append] at lengths
          simp only
          omega

/-- A head is read as it was sent, wherever the transport cuts it. -/
theorem readRequestHead_runs (wellFormed : request.WellFormed) (live : conn.Live)
    (shape : conn.stream = request.head ++ rest) (buffered : conn.buf.length ≤ maxHead) :
    ∃ after, readRequestHead.Runs conn (some request.requestHead) after ∧
      conn.Advances request.head after ∧ after.buf.length ≤ maxHead := by
  obtain ⟨after, loops, advances, bounded⟩ :=
    readRequestHeadLoop_runs wellFormed live shape (Nat.lt_succ_self _) buffered
  exact ⟨after, (Async.Runs.get conn).bind loops, advances, bounded⟩

end ReadHead

section ReadBody

open BodyReader

variable {conn : HttpConnection} {rest : Bytes}

/-- The framing that the headers of a request announce. -/
theorem requestBodyKind_runs (framed : request.Framed) (stream : conn.stream = request.wire ++ rest) :
    ∃ kind, requestBodyKind request.requestHead.headers = .ok kind ∧
      Holds (BodyReader.new conn kind) rest request.body ∧
      (BodyReader.new conn kind).isFinished = (!request.chunked && request.body = []) := by
  simp only [requestBodyKind, contentLengthKind, requestHead_get, WireRequest.chunked]
  cases framed with
  | absent noCoding noLength wire body =>
      refine ⟨.empty, ?_, ?_, ?_⟩
      · simp [noCoding, noLength]
      · rw [body]
        rw [wire, List.nil_append] at stream
        exact .done rfl stream
      · simp [isFinished, BodyReader.new, noCoding, body]
  | contentLength noCoding digits length nonempty valid number fits wire =>
      refine ⟨.contentLength request.body.length, ?_, ?_, ?_⟩
      · have parsed := parseContentLength_digits nonempty valid (number ▸ fits)
        simp [noCoding, length, parsed, number, bind, Except.bind]
      · by_cases empty : request.body = []
        · rw [wire, empty, List.nil_append] at stream
          rw [empty]
          exact .done rfl stream
        · exact .contentLength rfl (by simp [BodyReader.new, empty]) rfl (wire ▸ stream)
      · simp [isFinished, BodyReader.new, noCoding]
  | chunked coding codings acceptable noLength wire =>
      refine ⟨.chunked, ?_, ?_, ?_⟩
      · simp [codings, noLength, acceptableTransferEncoding, acceptable]
      · exact .chunkStart rfl rfl rfl (BodyReader.ChunkedBody.chunks wire) stream
      · simp [isFinished, BodyReader.new, codings]

end ReadBody

end WireRequest

end TptAsync.Http
