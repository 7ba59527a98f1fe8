import TptAsync.Http.Dialogue
import TptAsync.Http.SentHeads
import TptAsync.Http.ServerProperties

set_option autoImplicit false

/-!
# A dialogue is a sequence of calls of the handler

Both ends of a connection together do what calling the handler would do: each request reaches it
once, as it was sent, and the client gets just the answer to it, wherever the transport cuts.
-/

namespace TptAsync.Http

open Lib HttpConnection

variable {σ : Type}

namespace ResponseData

/-- What the client makes of a response. -/
def reply (response : ResponseData) : Reply where
  status := response.status
  reason := response.reason
  headers := sentHeaders response.headers (response.body ≠ []) response.body.length
  body := response.body

end ResponseData

namespace Call

def closes (call : Call) : Bool :=
  ((call.request.headers.filter fun header => Bytes.eqIgnoreCase header.1 (ascii "connection")).map
    (·.2)).any (Bytes.eqIgnoreCase · (ascii "close"))

/-- What a handler sees of the request. -/
def view (call : Call) : RequestView where
  method := call.request.method
  target := call.request.target
  version := .http11
  headers := call.request.fields call.host
  keepAlive := !call.closes

/-- The answer of a handler that is called with the request. -/
def answer (handler : Handler σ) (state : σ) (call : Call) : Answer σ :=
  (handler state call.view).answer call.request.body

/-- The server closes the connection behind its answer. -/
def stops (handler : Handler σ) (state : σ) (call : Call) : Bool :=
  call.closes || (!(call.answer handler state).read && call.request.body ≠ [])

/-- The state of the handler for the next request. -/
def next (handler : Handler σ) (state : σ) (call : Call) : Option σ :=
  if call.stops handler state then none else some (call.answer handler state).state

end Call

/-- What the client finds when the server has hung up. -/
def Call.cutOff (call : Call) : HttpError :=
  match call.refusal with
  | some error => .io error
  | none => .connectionClosed

/-- The replies to some calls if these call the handler, up to the one behind which the server
closes. -/
def replies (handler : Handler σ) : Option σ → List Call → List (Outcome HttpError Reply)
  | _, [] => []
  | none, call :: later => .failed call.cutOff :: replies handler none later
  | some state, call :: later =>
      .ready (call.answer handler state).response.reply :: replies handler (call.next handler state) later

/-- The state of the handler after some calls. -/
def stateAfter (handler : Handler σ) (state : Option σ) (calls : List Call) : Option σ :=
  calls.foldl (fun state call => state.bind fun state => call.next handler state) state

namespace Call

/-- A header that does not frame the body. -/
structure PlainOther (header : Bytes × Bytes) : Prop where
  plain : PlainHeader header
  noLength : Bytes.eqIgnoreCase header.1 (ascii "content-length") = false
  noCoding : Bytes.eqIgnoreCase header.1 (ascii "transfer-encoding") = false

/-- A request that the server reads as it is. -/
structure Servable (call : Call) : Prop where
  plain : call.request.Plain call.host
  size : (call.request.head call.host).length ≤ maxHead - readChunk
  fits : call.request.body.length ≤ U64.max
  headers : ∀ header ∈ call.request.headers, PlainOther header
  connection : (call.request.headers.filter fun header =>
    Bytes.eqIgnoreCase header.1 (ascii "connection")).length ≤ 1

/-- A response that the client reads as it is. One without a body must say so by its status, or by
the end of the connection. -/
structure Readable (call : Call) (response : ResponseData) (stops : Bool) : Prop where
  status : 200 ≤ response.status ∧ response.status ≤ 599
  headers : ∀ header ∈ response.headers, PlainOther header
  size : response.head.length ≤ maxHead - readChunk
  limit : response.body.length ≤ call.max
  framed : if response.status = 204 ∨ response.status = 304 ∨ call.request.isHead = true then
    response.body = [] else response.body ≠ [] ∨ stops = true

end Call

/-- Every request and every answer to it can be read by the other end. -/
def Conducted (handler : Handler σ) : Option σ → List Call → Prop
  | _, [] => True
  | none, _ => True
  | some state, call :: later =>
      call.Servable ∧ (handler state call.view).Suffices call.request.body ∧
        call.Readable (call.answer handler state).response (call.stops handler state) ∧
        Conducted handler (call.next handler state) later

section Cut

theorem Cutter.cut_nil (cutter : Cutter) : cutter.cut [] = [] :=
  List.eq_nil_iff_forall_not_mem.mpr fun segment member =>
    cutter.nonempty [] segment member (List.flatten_eq_nil_iff.mp (cutter.flatten []) segment member)

def Cutter.bytewise : Cutter where
  cut bytes := bytes.map ([·])
  flatten bytes := by rw [← List.flatMap_def, List.flatMap_singleton']
  nonempty bytes segment member := by
    obtain ⟨byte, _, rfl⟩ := List.mem_map.mp member
    exact List.cons_ne_nil _ _

end Cut

/-- A blank that is sent in front of a plain value is not read as a part of it. -/
theorem plain_values {headers : List (Bytes × Bytes)} (plain : ∀ header ∈ headers, PlainHeader header) :
    (headers.map fun (name, value) => ((name, 32 :: value) : Field)).map
      (fun field : Field => (field.1, field.value)) = headers := by
  rw [List.map_map]
  refine (List.map_congr_left fun header member => ?_).trans (List.map_id _)
  exact Prod.ext rfl ((trimOws_blank_iff header.2).mpr (plain header member).value.bare)

section Request

namespace Call

variable {call : Call}

theorem PlainOther.sendable {header : Bytes × Bytes} (other : PlainOther header) :
    ResponseData.SendableHeader header :=
  ⟨other.plain.name, other.plain.value.bytes, other.noLength, other.noCoding⟩

/-- The request as the server sees it. -/
def onWire (call : Call) : WireRequest where
  method := call.request.method
  target := call.request.target
  fields := (call.request.fields call.host).map fun (name, value) => (name, 32 :: value)
  wire := call.request.body
  body := call.request.body

theorem onWire_bytes (call : Call) :
    call.onWire.bytes = call.request.head call.host ++ call.request.body := by
  have lines : call.onWire.fields.map Field.line = (call.request.fields call.host).map sentLine := by
    simp [onWire, Field.line, sentLine]
  rw [WireRequest.bytes, WireRequest.head, lines, Request.head_eq]
  rfl

theorem mem_fields {request : Request} {host : Bytes} {header : Bytes × Bytes}
    (member : header ∈ request.fields host) : header ∈ request.headers ∨
      header = (ascii "host", host) ∨ header = (ascii "content-length", decimal request.body.length) := by
  simp only [Request.fields, List.mem_append, List.mem_singleton] at member
  refine member.imp_right (.imp_left fun added => ?_)
  split at added
  · cases added
  · exact List.mem_singleton.mp added

theorem field_plain (servable : call.Servable) :
    ∀ header ∈ call.request.fields call.host, PlainHeader header := by
  intro header member
  rcases mem_fields member with given | rfl | rfl
  · exact (servable.headers header given).plain
  · exact ⟨by dsimp only; decide, servable.plain.hostValue⟩
  · exact contentLength_plain _

theorem field_wellFormed (servable : call.Servable) : ∀ field ∈ call.onWire.fields, field.WellFormed := by
  intro field member
  obtain ⟨header, inFields, rfl⟩ := List.mem_map.mp member
  rcases mem_fields inFields with given | rfl | rfl
  · exact ResponseData.sendable_wellFormed (servable.headers header given).sendable
  · exact @ResponseData.sendable_wellFormed (ascii "host", call.host)
      ⟨by dsimp only; decide, servable.plain.hostValue.bytes, by dsimp only; decide, by dsimp only; decide⟩
  · exact ResponseData.contentLength_wellFormed _

theorem onWire_headers (servable : call.Servable) :
    call.onWire.headers = call.request.fields call.host :=
  plain_values (field_plain servable)

/-- Apart from the host, the client adds the length only. -/
theorem fields_filter (request : Request) (host : Bytes) {name : Bytes}
    (other : Bytes.eqIgnoreCase (ascii "host") name = false) :
    ((request.fields host).filter fun header => Bytes.eqIgnoreCase header.1 name) =
      (request.headers.filter fun header => Bytes.eqIgnoreCase header.1 name) ++
        if Bytes.eqIgnoreCase (ascii "content-length") name then
          [(ascii "content-length", decimal request.body.length)] else [] := by
  simp only [Request.fields, List.filter_append]
  congr 1
  split <;> simp [List.filter_cons, other]

theorem onWire_values (servable : call.Servable) {name : Bytes}
    (other : Bytes.eqIgnoreCase (ascii "host") name = false) :
    call.onWire.values name =
      (call.request.headers.filter fun header => Bytes.eqIgnoreCase header.1 name).map (·.2) ++
        if Bytes.eqIgnoreCase (ascii "content-length") name then
          [decimal call.request.body.length] else [] := by
  rw [WireRequest.values, onWire_headers servable, fields_filter _ _ other, List.map_append]
  split <;> rfl

theorem onWire_coding (servable : call.Servable) :
    call.onWire.values (ascii "transfer-encoding") = [] := by
  have none : (call.request.headers.filter fun header =>
      Bytes.eqIgnoreCase header.1 (ascii "transfer-encoding")) = [] :=
    List.filter_eq_nil_iff.mpr fun header member => by simp [(servable.headers header member).noCoding]
  rw [onWire_values servable (by decide), none, if_neg (by decide)]
  rfl

theorem onWire_length (servable : call.Servable) :
    call.onWire.values (ascii "content-length") = [decimal call.request.body.length] := by
  have none : (call.request.headers.filter fun header =>
      Bytes.eqIgnoreCase header.1 (ascii "content-length")) = [] :=
    List.filter_eq_nil_iff.mpr fun header member => by simp [(servable.headers header member).noLength]
  rw [onWire_values servable (by decide), none, if_pos (by decide)]
  rfl

theorem onWire_connection (servable : call.Servable) : call.onWire.values (ascii "connection") =
    (call.request.headers.filter fun header =>
      Bytes.eqIgnoreCase header.1 (ascii "connection")).map (·.2) := by
  rw [onWire_values servable (by decide), if_neg (by decide), List.append_nil]

theorem onWire_framed (servable : call.Servable) : call.onWire.Framed :=
  .contentLength (onWire_coding servable) (Nat.toDigits 10 call.request.body.length)
    (onWire_length servable) Nat.toDigits_ne_nil
    (fun _ member => Nat.isDigit_of_mem_toDigits (by decide) (by decide) member)
    (Text.number_toDigits _) servable.fits rfl

theorem onWire_wellFormed (servable : call.Servable) : call.onWire.WellFormed := by
  obtain ⟨targetNonempty, targetSpace, targetBytes⟩ := servable.plain.target
  refine ⟨servable.plain.method, ⟨targetNonempty, targetBytes, targetSpace⟩, field_wellFormed servable,
    ?_, ?_, onWire_framed servable⟩
  · have whole := onWire_bytes call
    rw [WireRequest.bytes] at whole
    rw [List.append_cancel_right whole]
    exact servable.size
  · rw [onWire_connection servable, List.length_map]
    exact servable.connection

theorem onWire_closes (servable : call.Servable) : call.onWire.closes = call.closes := by
  rw [WireRequest.closes, onWire_connection servable]
  rfl

theorem onWire_view (servable : call.Servable) : call.onWire.view = call.view := by
  rw [WireRequest.view, onWire_headers servable, onWire_closes servable]
  rfl

/-- The exchange that a call makes the server do. -/
def exchange (handler : Handler σ) (state : σ) (call : Call) : Exchange σ :=
  ⟨call.onWire, handler state call.onWire.view⟩

theorem exchange_answer (servable : call.Servable) (handler : Handler σ) (state : σ) :
    (call.exchange handler state).answer = call.answer handler state := by
  rw [exchange, Exchange.answer, onWire_view servable]
  rfl

theorem exchange_stops (servable : call.Servable) (handler : Handler σ) (state : σ) :
    (call.exchange handler state).stops = call.stops handler state := by
  have whole : call.onWire.chunked = false := by
    rw [WireRequest.chunked, onWire_coding servable]
    rfl
  rw [Exchange.stops, exchange_answer servable]
  simp only [exchange, onWire_closes servable, whole, Bool.false_or, stops]
  rfl

end Call

end Request

section Response

variable {call : Call} {response : ResponseData} {stops : Bool} {conn : HttpConnection}

theorem reason_plain (response : ResponseData) : PlainValue response.reason := by
  unfold ResponseData.reason
  split <;> decide

theorem fields_plain (headers : ∀ header ∈ response.headers, PlainHeader header) :
    response.fields.map (fun field : Field => (field.1, field.value)) =
      sentHeaders response.headers (response.body ≠ []) response.body.length := by
  have plain : ∀ header ∈ sentHeaders response.headers (response.body ≠ []) response.body.length,
      PlainHeader header := by
    intro header member
    rcases List.mem_append.mp member with given | length
    · exact headers header given
    · split at length
      · exact List.mem_singleton.mp length ▸ contentLength_plain _
      · cases length
  rw [← plain_values plain, ResponseData.fields, sentHeaders, List.map_append]
  split <;> simp_all

/-- How the client told the body of a response. -/
inductive ReplyKind (response : ResponseData) (stops : Bool) : BodyKind → Prop
  | empty (bodiless : response.body = []) : ReplyKind response stops .empty
  | contentLength : ReplyKind response stops (.contentLength response.body.length)
  | untilEof (bodiless : response.body = []) (closes : stops = true) : ReplyKind response stops .untilEof

/-- The head of a response that the client can read. -/
theorem Call.Readable.head (readable : call.Readable response stops) :
    ∃ ranges kind, WholeHead parseResponseRanges response.head ranges ∧
      let head := ResponseHead.fromRanges response.head ranges
      (⟨head.status, head.reason, head.headers.iter, response.body⟩ : Reply) = response.reply ∧
        responseBodyKind head.headers head.status call.request.isHead = .ok kind ∧
        ReplyKind response stops kind := by
  have plain : ∀ header ∈ response.headers, PlainHeader header := fun header member =>
    (readable.headers header member).plain
  have range := readable.status
  have fits : response.head.length ≤ maxHead := readable.size.trans (Nat.sub_le _ _)
  obtain ⟨ranges, whole, status, reason, headers⟩ :=
    renderHead_parses ⟨by omega, range.2⟩ (reason_plain response) plain fits
  rw [← ResponseData.head] at status reason headers
  have framed := readable.framed
  suffices ∃ kind, responseBodyKind (ResponseHead.fromRanges response.head ranges).headers
      response.status call.request.isHead = .ok kind ∧ ReplyKind response stops kind by
    obtain ⟨kind, framing, told⟩ := this
    refine ⟨ranges, kind, whole, ?_, by rw [status]; exact framing, told⟩
    rw [status, reason, headers]
    rfl
  split at framed
  · next bodiless =>
      refine ⟨.empty, ?_, .empty framed⟩
      rw [responseBodyKind]
      split
      · rfl
      · next bodied =>
          have isHead : call.request.isHead = true := by
            rcases bodiless with none | notModified | isHead
            · exact absurd (.inl none) bodied
            · exact absurd (.inr (.inl notModified)) bodied
            · exact isHead
          rw [if_pos isHead]
  · next bodied =>
      rw [not_or, not_or, Bool.not_eq_true] at bodied
      obtain ⟨content, modified, isHead⟩ := bodied
      have answerable : response.Answerable :=
        ⟨range, ⟨content, modified⟩, fun header member => (readable.headers header member).sendable⟩
      have framing := ResponseData.responseBodyKind_head answerable
        (headers.trans (fields_plain plain).symm)
      refine ⟨_, isHead ▸ framing, ?_⟩
      split
      · next empty => exact .untilEof empty (framed.resolve_left (absurd empty))
      · exact .contentLength

/-- The reader reads the body, and nothing but the body. -/
theorem ReplyKind.readToVec {kind : BodyKind} {max : Nat} (told : ReplyKind response stops kind)
    (live : conn.Live) (stream : conn.stream = response.body) (limit : response.body.length ≤ max)
    (ends : stops = true → conn.io.ending = .eof) :
    ∃ reader, (BodyReader.readToVec max).Runs (.new conn kind) response.body reader ∧
      reader.conn.stream = [] ∧ ∃ taken, conn.Advances taken reader.conn := by
  have holds : BodyReader.Holds (.new conn kind) [] response.body → _ := fun holds =>
    BodyReader.readToVec_runs live holds limit
  cases told with
  | empty bodiless =>
      obtain ⟨reader, reads, _, left, follows⟩ := holds (by
        rw [bodiless]
        exact .done rfl (stream.trans bodiless))
      exact ⟨reader, reads, left, follows.advances⟩
  | contentLength =>
      obtain ⟨reader, reads, _, left, follows⟩ := holds
        (.new_contentLength (stream.trans (List.append_nil _).symm))
      exact ⟨reader, reads, left, follows.advances⟩
  | untilEof bodiless closes =>
      rw [bodiless] at stream
      have nothing := readRaw_ended live stream 8192
      rw [ends closes] at nothing
      have read : (BodyReader.read 8192).Runs (.new conn .untilEof) []
          { BodyReader.new conn .untilEof with finished := true } := by
        have ended : (BodyReader.onConn (readRaw 8192)).Runs (.new conn .untilEof) []
            (.new conn .untilEof) := Async.Runs.zoom nothing
        rw [Async.Runs, BodyReader.read, (Async.Runs.get _).bind_eq]
        exact ended.bind rfl
      refine ⟨{ BodyReader.new conn .untilEof with finished := true },
        (Async.Runs.get _).bind (read.bind ?_), stream, [], .refl live⟩
      rw [bodiless]
      exact .pure _ _

/-- A response that stands alone in the stream is read as a whole. -/
theorem Call.Readable.readReply (readable : call.Readable response stops) (live : conn.Live)
    (stream : conn.stream = response.head ++ response.body) (short : conn.buf.length ≤ maxHead)
    (ends : stops = true → conn.io.ending = .eof) :
    ∃ after taken, (ClientConnection.readReply call.request call.max).Runs conn response.reply after ∧
      after.stream = [] ∧ conn.Advances taken after := by
  obtain ⟨ranges, kind, whole, reply, framing, told⟩ := readable.head
  have size := readable.size
  have room : readChunk ≤ maxHead := by decide
  obtain ⟨middle, reads, advances, _⟩ := headLoop_found ResponseHead.fromRanges
    (Async.fail .connectionClosed) parseResponseRanges_incremental live ⟨response.body, stream.symm⟩
    whole.parsed (Nat.lt_succ_self conn.undelivered.length) fun buf _ bound => by omega
  rw [whole.whole, List.take_length] at reads advances
  rw [← readResponseHeadLoop_eq] at reads
  have left : middle.stream = response.body :=
    (List.append_cancel_left (stream.symm.trans advances.stream)).symm
  obtain ⟨reader, body, unread, taken, moved⟩ := told.readToVec advances.live left readable.limit
    fun closes => advances.ending.trans (ends closes)
  have awaits : (ClientConnection.awaitResponse call.request).Runs conn
      ⟨.fromRanges response.head ranges, .new middle kind⟩ middle := by
    refine ((Async.Runs.get conn).bind reads).bind ?_
    have framed : (responseBody (.fromRanges response.head ranges) call.request.isHead).Runs middle
        (.new middle kind) middle := by
      rw [responseBody, framing]
      exact (Async.Runs.ofExcept middle kind).bind ((Async.Runs.get middle).bind (.pure middle _))
    exact framed.bind (.pure middle _)
  have whole : Response.bodyBytes call.max ⟨.fromRanges response.head ranges, .new middle kind⟩ =
      (.ready response.body, ⟨.fromRanges response.head ranges, reader⟩) := Async.Runs.zoom body
  refine ⟨reader.conn, response.head ++ taken, awaits.bind ?_, unread, advances.trans moved⟩
  rw [whole]
  refine (Async.Runs.set middle reader.conn).bind ?_
  rw [← reply]
  exact .pure _ _

end Response

namespace HttpConnection

variable {conn : HttpConnection}

/-- Nothing is on its way from one end to the other, or back. -/
structure Idle (conn : HttpConnection) : Prop where
  opened : conn.Open
  read : conn.stream = []
  sent : conn.io.outbound = []

theorem new_idle : Idle (.new ⟨[], .pending, []⟩) := ⟨⟨⟨by simp [HttpConnection.new], rfl⟩, rfl⟩, rfl, rfl⟩

theorem receive_cut (cutter : Cutter) (bytes : Bytes) (live : conn.Live) (read : conn.stream = []) :
    (conn.receive (cutter.cut bytes)).Live ∧ (conn.receive (cutter.cut bytes)).stream = bytes ∧
      (conn.receive (cutter.cut bytes)).buf.length ≤ maxHead := by
  obtain ⟨buffered, inbound⟩ := stream_eq_nil live read
  refine ⟨⟨?_, live.eof⟩, ?_, by simp [receive, buffered]⟩
  · simpa [receive, inbound] using cutter.nonempty bytes
  · simp [receive, HttpConnection.stream, undelivered, buffered, inbound, cutter.flatten]

end HttpConnection

namespace Dialogue

variable {handler : Handler σ} {dialogue : Dialogue σ} {state : σ} {call : Call}

/-- Between two calls. -/
inductive InStep (dialogue : Dialogue σ) : Option σ → Prop
  | going {state : σ} (serving : dialogue.serving = some state) (client : dialogue.client.Idle)
      (server : dialogue.server.Idle) : InStep dialogue (some state)
  | ended (serving : dialogue.serving = none) (buffered : dialogue.client.buf = [])
      (inbound : dialogue.client.io.inbound = []) (ending : dialogue.client.io.ending = .eof)
      (sent : dialogue.server.io.outbound = []) : InStep dialogue none

theorem readReply_ended {conn : HttpConnection} (request : Request) (max : Nat)
    (buffered : conn.buf = []) (inbound : conn.io.inbound = []) (ending : conn.io.ending = .eof) :
    ∃ after, ClientConnection.readReply request max conn = (.failed .connectionClosed, after) ∧
      after.buf = [] ∧ after.io = conn.io := by
  obtain ⟨⟨inbound, ending, outbound⟩, buf, eof⟩ := conn
  cases buffered
  cases inbound
  cases ending
  exact ⟨_, rfl, rfl, rfl⟩

/-- A request that is taken is served. -/
theorem call_of_serve {served : Dialogue σ} {outcome : Outcome HttpError Reply} {client : HttpConnection}
    (taken : dialogue.serving.isSome = true ∨ call.refusal = none)
    (serves : serve handler ⟨dialogue.client.flushed, dialogue.server.receive (call.requestCut.cut
      (dialogue.client.io.outbound ++ call.onWire.bytes)), dialogue.serving⟩ = some served)
    (reads : ClientConnection.readReply call.request call.max
      (served.client.receive (call.responseCut.cut served.server.io.outbound)) = (outcome, client)) :
    dialogue.call handler call = some (outcome, ⟨client, served.server.flushed, served.serving⟩) := by
  have writes := writeMessage_runs dialogue.client (call.request.head call.host) call.request.body
  rw [← call.onWire_bytes] at writes
  have accepted : (if dialogue.serving.isSome then none else call.refusal) = none := by
    split
    · rfl
    · next ended => exact taken.resolve_left ended
  rw [Dialogue.call, accepted]
  simp only [ClientConnection.sendRequest, show writeMessage _ _ _ = _ from writes]
  exact Option.bind_eq_some_iff.mpr ⟨served, serves, by simp only [reads]⟩

/-- A call of a server that has closed the connection. -/
theorem call_ended (serving : dialogue.serving = none) (buffered : dialogue.client.buf = [])
    (inbound : dialogue.client.io.inbound = []) (ending : dialogue.client.io.ending = .eof)
    (sent : dialogue.server.io.outbound = []) :
    ∃ next, dialogue.call handler call = some (.failed call.cutOff, next) ∧ next.InStep none := by
  cases refusal : call.refusal with
  | some error =>
      obtain ⟨client, server, state⟩ := dialogue
      cases serving
      refine ⟨⟨client, server, none⟩, ?_, .ended rfl buffered inbound ending sent⟩
      rw [Dialogue.call, Call.cutOff, refusal]
      rfl
  | none =>
      let left : Dialogue σ := ⟨dialogue.client.flushed, dialogue.server.receive (call.requestCut.cut
        (dialogue.client.io.outbound ++ call.onWire.bytes)), dialogue.serving⟩
      have serves : serve handler left = some left := by rw [serve, show left.serving = none from serving]
      have still : left.client.receive (call.responseCut.cut left.server.io.outbound) =
          dialogue.client.flushed := by
        rw [show left.server.io.outbound = [] from sent, call.responseCut.cut_nil, receive, List.append_nil]
      obtain ⟨after, fails, emptied, same⟩ := @readReply_ended dialogue.client.flushed call.request call.max
        buffered inbound ending
      rw [← still] at fails
      rw [Call.cutOff, refusal]
      exact ⟨_, call_of_serve (.inr refusal) serves fails, .ended serving emptied
        ((congrArg _ same).trans inbound) ((congrArg _ same).trans ending) rfl⟩

/-- A call of a server that waits for a request. -/
theorem call_going (serving : dialogue.serving = some state) (client : dialogue.client.Idle)
    (server : dialogue.server.Idle) (servable : call.Servable)
    (enough : (handler state call.view).Suffices call.request.body)
    (readable : call.Readable (call.answer handler state).response (call.stops handler state)) :
    ∃ next, dialogue.call handler call =
        some (.ready (call.answer handler state).response.reply, next) ∧
      next.InStep (call.next handler state) := by
  obtain ⟨live, stream, buffered⟩ := receive_cut call.requestCut call.onWire.bytes server.opened.live
    server.read
  obtain ⟨after, serves, alive, ending, outbound, _, goesOn⟩ := @serveOne_runs _ handler state
    (call.exchange handler state) _ [] (call.onWire_wellFormed servable) rfl
    (by rw [Call.exchange, call.onWire_view servable]; exact enough) live
    (stream.trans (List.append_nil _).symm) buffered
  rw [Call.exchange_answer servable, Call.exchange_stops servable] at serves
  rw [Call.exchange_stops servable] at goesOn
  rw [Exchange.output, Exchange.response, Call.exchange_answer servable,
    show (receive _ _).io.outbound = dialogue.server.io.outbound from rfl, server.sent,
    List.nil_append] at outbound
  let arrived : Dialogue σ := ⟨dialogue.client.flushed, dialogue.server.receive (call.requestCut.cut
    (dialogue.client.io.outbound ++ call.onWire.bytes)), dialogue.serving⟩
  have same : arrived.server = dialogue.server.receive (call.requestCut.cut call.onWire.bytes) := by
    rw [show arrived.server = dialogue.server.receive _ from rfl, client.sent, List.nil_append]
  rw [← same] at serves
  have taken : dialogue.serving.isSome = true ∨ call.refusal = none := .inl (by rw [serving]; rfl)
  have idle : dialogue.client.flushed.Live := ⟨client.opened.live.segments, client.opened.live.eof⟩
  have answered : ∀ conn : HttpConnection, conn.Live → conn.stream = [] → _ := fun conn live read =>
    readable.readReply (receive_cut call.responseCut after.io.outbound live read).1
      ((receive_cut call.responseCut after.io.outbound live read).2.1.trans outbound)
      (receive_cut call.responseCut after.io.outbound live read).2.2
  rw [Call.next]
  cases stops : call.stops handler state with
  | true =>
      have turn : serve handler arrived = some ⟨dialogue.client.flushed.hungUp, after, none⟩ := by
        rw [serve, show arrived.serving = some state from serving]
        simp only [show serveOne handler state arrived.server = _ from serves, stops]
        rfl
      obtain ⟨left, _, reads, read, moved⟩ := answered dialogue.client.flushed.hungUp
        ⟨idle.segments, idle.eof⟩ client.read fun _ => rfl
      obtain ⟨buffered, inbound⟩ := stream_eq_nil moved.live read
      exact ⟨_, call_of_serve taken turn reads, .ended rfl buffered inbound moved.ending rfl⟩
  | false =>
      have turn : serve handler arrived = some ⟨dialogue.client.flushed, after,
          some (call.answer handler state).state⟩ := by
        rw [serve, show arrived.serving = some state from serving]
        simp only [show serveOne handler state arrived.server = _ from serves, stops]
        rfl
      obtain ⟨left, _, reads, read, moved⟩ := answered dialogue.client.flushed idle client.read
        fun closes => by rw [stops] at closes; cases closes
      exact ⟨_, call_of_serve taken turn reads, .going rfl
        ⟨⟨moved.live, moved.ending.trans client.opened.ending⟩, read, moved.outbound⟩
        ⟨⟨⟨alive.segments, alive.eof⟩, ending.trans server.opened.ending⟩, (goesOn stops).1, rfl⟩⟩

theorem InStep.calls {state : Option σ} {calls : List Call} (inStep : dialogue.InStep state)
    (conducted : Conducted handler state calls) :
    ∃ last, dialogue.calls handler calls = some (replies handler state calls, last) ∧
      last.InStep (stateAfter handler state calls) := by
  induction calls generalizing dialogue state with
  | nil =>
      cases inStep with
      | going serving client server => exact ⟨dialogue, rfl, .going serving client server⟩
      | ended serving buffered inbound ending sent =>
          exact ⟨dialogue, rfl, .ended serving buffered inbound ending sent⟩
  | cons call later ih =>
      cases inStep with
      | going serving client server =>
          obtain ⟨servable, enough, readable, rest⟩ := conducted
          obtain ⟨next, calls, kept⟩ := call_going serving client server servable enough readable
          obtain ⟨last, ends, final⟩ := ih kept rest
          refine ⟨last, ?_, final⟩
          simp only [Dialogue.calls, calls, ends, replies, Option.bind_eq_bind, Option.bind_some]
      | ended serving buffered inbound ending sent =>
          obtain ⟨next, calls, kept⟩ := @call_ended _ handler _ call serving buffered inbound ending sent
          obtain ⟨last, ends, final⟩ := @ih next none kept (by cases later <;> trivial)
          refine ⟨last, ?_, final⟩
          simp only [Dialogue.calls, calls, ends, replies, Option.bind_eq_bind, Option.bind_some]

/-- Both ends of a connection do what calling the handler would do, however the transport cuts. -/
theorem calls_reply (handler : Handler σ) (state : σ) (calls : List Call)
    (conducted : Conducted handler (some state) calls) :
    ∃ last, (Dialogue.new state).calls handler calls =
        some (replies handler (some state) calls, last) ∧
      last.serving = stateAfter handler (some state) calls := by
  have starts : (Dialogue.new state).InStep (some state) := .going rfl new_idle new_idle
  obtain ⟨last, ends, final⟩ := starts.calls conducted
  refine ⟨last, ends, ?_⟩
  cases after : stateAfter handler (some state) calls with
  | none =>
      rw [after] at final
      cases final with
      | ended serving => exact serving
  | some left =>
      rw [after] at final
      cases final with
      | going serving => exact serving

section Example

/-- The second call asks for the connection to be closed, and the third one is refused. -/
def threeCalls : List Call :=
  [⟨⟨ascii "POST", ascii "/", [], ascii "hi"⟩, ascii "localhost", 8, .bytewise, .bytewise, none⟩,
    ⟨⟨ascii "GET", ascii "/", [(ascii "connection", ascii "close")], []⟩, ascii "localhost", 8, .bytewise,
      .bytewise, none⟩,
    ⟨⟨ascii "GET", ascii "/late", [], []⟩, ascii "localhost", 8, .bytewise, .bytewise,
      some ⟨.brokenPipe, "fake io: peer has shut down"⟩⟩]

theorem calls_reply_three : ∃ last, (Dialogue.new 0).calls countingHandler threeCalls =
    some ([.ready ⟨200, ascii "OK", [(ascii "content-length", ascii "2")], ascii "ok"⟩,
      .ready ⟨200, ascii "OK", [(ascii "content-length", ascii "2")], ascii "ok"⟩,
      .failed (.io ⟨.brokenPipe, "fake io: peer has shut down"⟩)], last) := by
  have conducted : Conducted countingHandler (some 0) threeCalls := by
    have connection : PlainHeader (ascii "connection", ascii "close") := ⟨by decide, by decide⟩
    have line : LineBytes (ascii "/") := by unfold LineBytes; decide
    refine ⟨⟨⟨by decide, ⟨by decide, by decide, line⟩, nofun, by decide, by decide⟩, by decide, by decide,
      nofun, by decide⟩, .bodyBytes (by decide) (.respond _ _ _),
      ⟨by decide, nofun, by decide, by decide, by decide⟩, ?_⟩
    refine ⟨⟨⟨by decide, ⟨by decide, by decide, line⟩, ?_, by decide, by decide⟩, by decide, by decide, ?_,
      by decide⟩, .bodyBytes (by decide) (.respond _ _ _),
      ⟨by decide, nofun, by decide, by decide, by decide⟩, trivial⟩
    · exact List.forall_mem_singleton.mpr connection
    · exact List.forall_mem_singleton.mpr ⟨connection, by decide, by decide⟩
  obtain ⟨last, ends, _⟩ := calls_reply countingHandler 0 threeCalls conducted
  exact ⟨last, ends⟩

end Example

end Dialogue

end TptAsync.Http
