import TptAsync.Http.Client
import TptAsync.Http.Consumption
import TptAsync.Http.HeadLoop
import TptAsync.Http.WholeBodies

set_option autoImplicit false

/-!
# Which response a send returns

A server answers every request with one response. A send returns the head of the answer as
long as nothing of an earlier response is left: bytes that have not been read are not dropped
with the response.
-/

namespace TptAsync.Http

open Lib HttpConnection

/-- A connection that the peer keeps open. -/
structure HttpConnection.Open (conn : HttpConnection) : Prop where
  live : conn.Live
  ending : conn.io.ending = .pending

namespace HttpConnection

variable {conn after : HttpConnection}

def StaysOpen (before after : HttpConnection) : Prop := before.Open → after.Open

instance : Std.Refl StaysOpen := ⟨fun _ => id⟩

instance : Trans StaysOpen StaysOpen StaysOpen := ⟨fun first second => second ∘ first⟩

theorem pollRead_staysOpen (opened : conn.Open) (capacity : Nat) :
    HttpConnection.Open { conn with io := (Transport.pollRead capacity conn.io).2 } := by
  obtain ⟨data, inbound, after, _, segments, _⟩ := pollRead_takes conn.io capacity
  rw [after]
  exact ⟨⟨segments opened.live.segments, opened.live.eof⟩, opened.ending⟩

theorem staysOpen_respected : Respected StaysOpen StaysOpen where
  fill := by
    intro conn
    by_cases opened : conn.Open
    · by_cases delivered : conn.undelivered = []
      · rw [fill_pending opened.live delivered opened.ending]
        exact fun _ => ⟨⟨opened.live.segments, opened.live.eof⟩, opened.ending⟩
      · obtain ⟨count, after, fills, _, advances, _⟩ := fill_runs opened.live delivered
        rw [fills]
        exact fun _ => ⟨advances.live, advances.ending.trans opened.ending⟩
    · cases fill conn with
      | mk outcome after => cases outcome <;> exact fun absent => absurd absent opened
  readRaw capacity := by
    intro conn
    rw [readRaw, (Async.Runs.get conn).bind_eq]
    by_cases buffered : conn.buf ≠ []
    · rw [if_pos buffered]
      exact fun opened => ⟨⟨opened.live.segments, opened.live.eof⟩, opened.ending⟩
    · rw [if_neg buffered, onIo, Async.zoom]
      have kept := fun opened => @pollRead_staysOpen conn opened capacity
      cases ends : Transport.pollRead capacity conn.io with
      | mk outcome io =>
          rw [ends] at kept
          cases outcome <;> exact kept
  drop _ _ opened := ⟨⟨opened.live.segments, opened.live.eof⟩, opened.ending⟩

section Head

variable {α : Type} {parse : Bytes → Except HttpError (Option HeadRanges)}
  {finish : Bytes → HeadRanges → α} {ended : Async HttpError HttpConnection α}

theorem headLoop_moves {related stuck : HttpConnection → HttpConnection → Prop} [Std.Refl related]
    [Std.Refl stuck] [Trans related related related] [Trans related stuck stuck]
    (reads : Respected related stuck) (ends : Async.Moves related stuck ended) (fuel : Nat) :
    Async.Moves related stuck (headLoop parse finish ended fuel) := by
  induction fuel with
  | zero => exact .wait
  | succ fuel ih =>
      intro conn
      cases parsed : parse conn.buf with
      | error error =>
          have emptied := reads.drop conn conn.buf.length
          rw [List.drop_length] at emptied
          rw [headLoop_error parsed]
          exact emptied
      | ok found =>
          cases found with
          | some ranges =>
              rw [headLoop_some parsed]
              exact reads.drop conn _
          | none =>
              rw [headLoop_none parsed]
              refine Async.Moves.bind reads.fill (fun count => ?_) conn
              split
              · exact ends
              · exact ih

theorem readResponseHead_moves {related stuck : HttpConnection → HttpConnection → Prop}
    [Std.Refl related] [Std.Refl stuck] [Trans related related related] [Trans related stuck stuck]
    (reads : Respected related stuck) : Async.Moves related stuck readResponseHead := by
  refine .bind .get fun conn => ?_
  rw [readResponseHeadLoop_eq]
  exact headLoop_moves reads (.fail _) _

theorem readRequestHead_moves {related stuck : HttpConnection → HttpConnection → Prop}
    [Std.Refl related] [Std.Refl stuck] [Trans related related related] [Trans related stuck stuck]
    (reads : Respected related stuck) : Async.Moves related stuck readRequestHead := by
  refine .bind .get fun conn => ?_
  rw [readRequestHeadLoop_eq]
  refine headLoop_moves reads (.bind .get fun conn => ?_) _
  split
  · exact .pure _
  · exact .fail _

end Head

end HttpConnection

/-- A response that a client can read: the bytes of its head, the bytes behind it, and the body
that these stand for. The head delimits them. -/
structure WireResponse (isHeadRequest : Bool) where
  head : Bytes
  wire : Bytes
  body : Bytes
  ranges : HeadRanges
  kind : BodyKind
  parsed : parseResponseRanges head = .ok (some ranges)
  consumed : ranges.consumed = head.length
  size : head.length ≤ maxHead - readChunk
  framing : responseBodyKind ⟨head, ranges.headers⟩ (ranges.status.getD 200) isHeadRequest = .ok kind
  delimited : kind = .empty ∧ wire = [] ∧ body = [] ∨ BodyReader.Delimited kind wire body

namespace WireResponse

variable {isHeadRequest : Bool}

def parsedHead (response : WireResponse isHeadRequest) : ResponseHead :=
  .fromRanges response.head response.ranges

def bytes (response : WireResponse isHeadRequest) : Bytes := response.head ++ response.wire

end WireResponse

/-- One use of a connection: a request, the server's answer as it is delivered, and what is done
with the response before it is dropped. -/
structure Sending where
  request : Request
  host : Bytes
  answer : WireResponse request.isHead
  segments : List Bytes
  nonempty : ∀ segment ∈ segments, segment ≠ []
  cut : segments.flatten = answer.bytes
  calls : List BodyCall

namespace ClientConnection

/-- The server answers when it gets the request. -/
def answered (sending : Sending) (conn : HttpConnection) : HttpConnection :=
  { conn with io := { conn.io with inbound := conn.io.inbound ++ sending.segments } }

def exchange (conn : HttpConnection) (sending : Sending) : HttpConnection :=
  match send sending.request sending.host (answered sending conn) with
  | (.ready response, _) => response.use sending.calls
  | (_, after) => after

/-- A new connection after some exchanges. -/
def connection (sendings : List Sending) : HttpConnection :=
  sendings.foldl exchange (.new ⟨[], .pending, []⟩)

/-- Whatever the server answers to the next request, the send returns the head of the answer. -/
def Pairs (conn : HttpConnection) : Prop :=
  ∀ sending : Sending, ∃ response after,
    (send sending.request sending.host).Runs (answered sending conn) response after ∧
      response.head = sending.answer.parsedHead

variable {conn after : HttpConnection} {sending : Sending} {request : Request} {host : Bytes}
  {response : Response}

section Open

theorem answered_open (opened : conn.Open) (sending : Sending) : (answered sending conn).Open := by
  refine ⟨⟨?_, opened.live.eof⟩, opened.ending⟩
  intro segment member
  exact (List.mem_append.mp member).elim (opened.live.segments segment) (sending.nonempty segment)

theorem answered_stream (sending : Sending) (conn : HttpConnection) :
    (answered sending conn).stream = conn.stream ++ sending.answer.bytes := by
  simp [stream, undelivered, answered, sending.cut]

theorem writeMessage_staysOpen (head body : Bytes) :
    Async.Moves StaysOpen StaysOpen (writeMessage head body) := by
  refine Async.Moves.same_iff.mpr fun conn opened => ?_
  rw [writeMessage_runs]
  exact ⟨⟨opened.live.segments, opened.live.eof⟩, opened.ending⟩

theorem send_staysOpen (request : Request) (host : Bytes) :
    Async.Moves StaysOpen StaysOpen (send request host) := by
  refine .bind (writeMessage_staysOpen _ _) fun _ => ?_
  refine .bind (readResponseHead_moves staysOpen_respected) fun head => ?_
  exact .bind (.bind (.ofExcept _) fun _ => .bind .get fun _ => .pure _) fun _ => .pure _

/-- The connection once the request is on its way. -/
def requested (request : Request) (host : Bytes) (conn : HttpConnection) : HttpConnection :=
  { conn with io := { conn.io with outbound := conn.io.outbound ++ (request.head host ++ request.body) } }

/-- A response holds the connection that its head has been read from. -/
theorem send_of_runs (runs : (send request host).Runs conn response after) :
    readResponseHead.Runs (requested request host conn) response.head after ∧
      ∃ kind, responseBodyKind response.head.headers response.head.status request.isHead = .ok kind ∧
        response.body = .new after kind := by
  obtain ⟨_, sent, writes, runs⟩ := runs.of_bind
  obtain ⟨head, middle, reads, runs⟩ := runs.of_bind
  obtain ⟨body, last, frames, runs⟩ := runs.of_bind
  obtain ⟨kind, _, framed, borrows⟩ := Async.Runs.of_bind frames
  obtain ⟨framing, rfl⟩ := framed.of_ofExcept
  cases borrows
  cases runs
  obtain ⟨_, rfl⟩ := writes.unique (writeMessage_runs conn _ _)
  exact ⟨reads, kind, framing, rfl⟩

theorem send_conn (runs : (send request host).Runs conn response after) :
    response.body.conn = after := by
  obtain ⟨_, kind, _, body⟩ := send_of_runs runs
  rw [body]
  rfl

theorem call_open (opened : response.body.conn.Open) (call : BodyCall) :
    (response.call call).body.conn.Open := by
  have moves : ∀ (max : Nat) (response : Response), response.body.conn.Open →
      (Response.bodyBytes max response).2.body.conn.Open := fun max response =>
    Async.Moves.same_iff.mp (BodyReader.readToVec_moves staysOpen_respected max) response.body
  cases call with
  | awaited max => exact moves max response opened
  | dropped max arrived =>
      have left := moves max (response.withIo (response.body.conn.io.early arrived))
        ⟨⟨fun segment member => opened.live.segments segment (List.mem_of_mem_take member),
          opened.live.eof⟩, rfl⟩
      refine ⟨⟨?_, left.live.eof⟩, opened.ending⟩
      intro segment member
      exact (List.mem_append.mp member).elim (left.live.segments segment) fun later =>
        opened.live.segments segment (List.mem_of_mem_drop later)

theorem use_open (opened : response.body.conn.Open) (calls : List BodyCall) :
    (response.use calls).Open := by
  rw [Response.use]
  induction calls generalizing response with
  | nil => exact opened
  | cons call calls ih => exact ih (call_open opened call)

theorem exchange_open (opened : conn.Open) (sending : Sending) : (exchange conn sending).Open := by
  have moved := Async.Moves.same_iff.mp (send_staysOpen sending.request sending.host) _
    (answered_open opened sending)
  rw [exchange]
  cases ends : send sending.request sending.host (answered sending conn) with
  | mk outcome after =>
      rw [ends] at moved
      cases outcome with
      | ready response => exact use_open ((send_conn ends) ▸ moved) sending.calls
      | failed error => exact moved
      | pending => exact moved

theorem connection_open (sendings : List Sending) : (connection sendings).Open := by
  have new : HttpConnection.Open (.new ⟨[], .pending, []⟩) := ⟨⟨by simp [HttpConnection.new], rfl⟩, rfl⟩
  rw [connection]
  generalize HttpConnection.new ⟨[], .pending, []⟩ = conn at new
  induction sendings generalizing conn with
  | nil => exact new
  | cons sending sendings ih => exact ih _ (exchange_open new sending)

end Open

theorem send_of_head {head : ResponseHead} {kind : BodyKind}
    (reads : readResponseHead.Runs (requested request host conn) head after)
    (framing : responseBodyKind head.headers head.status request.isHead = .ok kind) :
    (send request host).Runs conn ⟨head, .new after kind⟩ after := by
  refine (writeMessage_runs conn _ _).bind (reads.bind ?_)
  have framed : (responseBody head request.isHead).Runs after (.new after kind) after := by
    rw [responseBody, framing]
    exact Async.Runs.bind (.ofExcept after kind) ((Async.Runs.get after).bind (.pure after _))
  exact framed.bind (.pure after _)

/-- A head that stands at the front of the stream is the one that the send returns. -/
theorem send_found {head more : Bytes} {ranges : HeadRanges} {kind : BodyKind} (live : conn.Live)
    (shape : conn.stream = head ++ more) (buffered : conn.buf.length ≤ maxHead)
    (parsed : parseResponseRanges head = .ok (some ranges)) (consumed : ranges.consumed = head.length)
    (size : head.length ≤ maxHead - readChunk)
    (framing : responseBodyKind ⟨head, ranges.headers⟩ (ranges.status.getD 200) request.isHead =
      .ok kind) :
    ∃ after, (send request host).Runs conn ⟨.fromRanges head ranges, .new after kind⟩ after ∧
      (requested request host conn).Advances head after := by
  let sent := requested request host conn
  have sentLive : sent.Live := ⟨live.segments, live.eof⟩
  have initial : head <+: sent.stream := ⟨more, shape.symm⟩
  have room : readChunk ≤ maxHead := by decide
  obtain ⟨after, reads, advances, _⟩ := headLoop_found ResponseHead.fromRanges
    (Async.fail .connectionClosed) parseResponseRanges_incremental sentLive initial
    parsed (Nat.lt_succ_self sent.undelivered.length) fun buf _ short =>
      short.trans (max_le buffered (by omega))
  rw [consumed, List.take_length] at reads advances
  rw [← readResponseHeadLoop_eq] at reads
  exact ⟨after, send_of_head ((Async.Runs.get sent).bind reads) framing, advances⟩

/-- A response that stands at the front of the stream is the one that the send returns. -/
theorem send_runs {answer : WireResponse request.isHead} {more : Bytes} (live : conn.Live)
    (shape : conn.stream = answer.head ++ more) (buffered : conn.buf.length ≤ maxHead) :
    ∃ after, (send request host).Runs conn ⟨answer.parsedHead, .new after answer.kind⟩ after ∧
      after.Live ∧ after.stream = more := by
  obtain ⟨after, sends, advances⟩ := @send_found _ _ host _ _ _ _ live shape buffered answer.parsed
    answer.consumed answer.size answer.framing
  have stream := shape.symm.trans advances.stream
  exact ⟨after, sends, advances.live, (List.append_cancel_left stream).symm⟩

theorem exchange_eq (runs : (send sending.request sending.host).Runs (answered sending conn)
    response after) : exchange conn sending = response.use sending.calls := by
  rw [exchange, runs]

theorem pairs_of_nothing_left (opened : conn.Open) (read : conn.stream = []) : Pairs conn := by
  intro sending
  have empty := (stream_eq_nil opened.live read).1
  obtain ⟨after, sends, _⟩ := @send_runs (answered sending conn) _ sending.host sending.answer
    sending.answer.wire (answered_open opened sending).live
    (by rw [answered_stream, read, List.nil_append, WireResponse.bytes])
    (by change conn.buf.length ≤ maxHead; simp [empty])
  exact ⟨_, after, sends, rfl⟩

section Drained

theorem answer_holds {isHeadRequest : Bool} (answer : WireResponse isHeadRequest)
    (unread : conn.stream = answer.wire) :
    BodyReader.Holds (.new conn answer.kind) [] answer.body := by
  rcases answer.delimited with ⟨kind, wire, body⟩ | delimited
  · rw [kind, body]
    exact .done rfl (unread.trans wire)
  · exact delimited.holds (unread.trans (List.append_nil _).symm)

/-- The response is read to its end before it is dropped. -/
def Drains (sending : Sending) : Prop :=
  ∃ max, sending.calls = [.awaited max] ∧ sending.answer.body.length ≤ max

theorem exchange_drained (opened : conn.Open) (read : conn.stream = []) (drains : Drains sending) :
    (exchange conn sending).stream = [] := by
  obtain ⟨max, calls, fits⟩ := drains
  have empty := (stream_eq_nil opened.live read).1
  obtain ⟨after, sends, live, unread⟩ := @send_runs (answered sending conn) _ sending.host
    sending.answer sending.answer.wire (answered_open opened sending).live
    (by rw [answered_stream, read, List.nil_append, WireResponse.bytes])
    (by change conn.buf.length ≤ maxHead; simp [empty])
  obtain ⟨reader, reads, _, left, _⟩ :=
    @BodyReader.readToVec_runs (.new after sending.answer.kind) _ _ max live
      (answer_holds sending.answer unread) fits
  rw [exchange_eq sends, calls]
  have called : (Response.bodyBytes max).Runs ⟨sending.answer.parsedHead, .new after sending.answer.kind⟩
      sending.answer.body ⟨sending.answer.parsedHead, reader⟩ := .zoom reads
  change (Response.bodyBytes max _).2.body.conn.stream = []
  rw [called]
  exact left

/-- A client that reads every response to its end gets each answer's own head. -/
theorem send_pairs_drained {sendings : List Sending} (drains : ∀ sending ∈ sendings, Drains sending) :
    Pairs (connection sendings) := by
  refine pairs_of_nothing_left (connection_open sendings) ?_
  have opened := connection_open []
  have read : (connection []).stream = [] := rfl
  change (sendings.foldl exchange (connection [])).stream = []
  generalize connection [] = conn at opened read
  induction sendings generalizing conn with
  | nil => exact read
  | cons sending sendings ih =>
      exact ih (fun later member => drains later (.tail _ member)) _ (exchange_open opened sending)
        (exchange_drained opened read (drains sending (.head _)))

end Drained

section Converse

/-- Two heads that are different early on cannot both go on behind the same unread bytes as
they start. -/
theorem front_eq_nil {left first second : Bytes} {early : Nat}
    (solid : ∀ position < early, 0 < position → first[position]? ≠ first[0]?)
    (different : first.take early ≠ second.take early)
    (long : 0 < early ∧ early ≤ first.length ∧ early ≤ second.length)
    (repeatsFirst : first <+: left ++ first) (repeatsSecond : second <+: left ++ second) :
    left = [] := by
  by_contra unread
  have positive := List.length_pos_of_ne_nil unread
  rcases Nat.lt_or_ge left.length early with short | whole
  · obtain ⟨more, same⟩ := repeatsFirst
    have again := congrArg (·[left.length]?) same
    rw [List.getElem?_append_left (by omega), List.getElem?_append_right le_rfl, Nat.sub_self] at again
    exact solid left.length short positive again
  · have front : ∀ head : Bytes, early ≤ head.length → head <+: left ++ head →
        head.take early = left.take early := by
      intro head enough repeats
      have initial := (List.take_prefix early head).trans repeats
      have inside := List.prefix_of_prefix_length_le initial (List.prefix_append left head)
        ((List.length_take_le _ _).trans whole)
      rw [List.prefix_iff_eq_take.mp inside, List.length_take_of_le enough]
    exact different ((front first long.2.1 repeatsFirst).trans
      (front second long.2.2 repeatsSecond).symm)

/-- An answer without a body, in either version of the protocol. -/
def noContent (version : UInt8) : Bytes :=
  ascii "HTTP/1." ++ version :: ascii " 204 No Content" ++ headerDelim

def noContentAnswer (version : UInt8) (parsed : parseResponseRanges (noContent version) =
    .ok (some ⟨(⟨13, 23⟩, ⟨13, 23⟩), .http11, some 204, [], 27⟩)) : WireResponse false where
  head := noContent version
  wire := []
  body := []
  ranges := ⟨(⟨13, 23⟩, ⟨13, 23⟩), .http11, some 204, [], 27⟩
  kind := .empty
  parsed := parsed
  consumed := rfl
  size := show 27 ≤ maxHead - readChunk by decide
  framing := rfl
  delimited := .inl ⟨rfl, rfl, rfl⟩

def probe (answer : WireResponse false) (nonempty : answer.head ≠ []) (bare : answer.wire = []) :
    Sending where
  request := ⟨ascii "GET", ascii "/", [], []⟩
  host := []
  answer := answer
  segments := [answer.head]
  nonempty := by simpa using nonempty
  cut := by simp [WireResponse.bytes, bare]
  calls := []

/-- The head that a send returns comes from the front of the stream. -/
theorem send_initial (live : conn.Live)
    (runs : (send request host).Runs conn response after) : response.head.buf <+: conn.stream := by
  obtain ⟨part, ranges, initial, _, head, _⟩ :=
    @readResponseHead_of_runs (requested request host conn) _ _ ⟨live.segments, live.eof⟩
      (send_of_runs runs).1
  rw [head]
  exact (List.take_prefix _ part).trans initial

theorem nothing_left_of_pairs (opened : conn.Open) (pairs : Pairs conn) : conn.stream = [] := by
  have repeats : ∀ (answer : WireResponse false), answer.head ≠ [] → answer.wire = [] →
      answer.head <+: conn.stream ++ answer.head := by
    intro answer nonempty bare
    obtain ⟨response, after, sends, same⟩ := pairs (probe answer nonempty bare)
    have initial := send_initial (answered_open opened _).live sends
    rw [same, answered_stream, WireResponse.bytes] at initial
    rw [show (probe answer nonempty bare).answer.wire = [] from bare, List.append_nil] at initial
    exact initial
  have first := repeats (noContentAnswer 49 rfl) (by decide) rfl
  have second := repeats (noContentAnswer 48 rfl) (by decide) rfl
  exact @front_eq_nil _ (noContent 49) (noContent 48) 8 (by decide) (by decide) (by decide) first second

end Converse

/-- In every run, whatever the server answers, the next send returns the head of the answer
exactly if nothing of the earlier answers is left unread. -/
theorem send_pairs_iff (sendings : List Sending) :
    (∀ done, done <+: sendings → Pairs (connection done)) ↔
      ∀ done, done <+: sendings → (connection done).stream = [] := by
  constructor
  · intro pairs done part
    exact nothing_left_of_pairs (connection_open done) (pairs done part)
  · intro read done part
    exact pairs_of_nothing_left (connection_open done) (read done part)

def disguisedHead : Bytes := ascii "HTTP/1.1 200 OK\r\nContent-Length: 27\r\n\r\n"

theorem disguised_framing :
    responseBodyKind ⟨disguisedHead, [(⟨17, 31⟩, ⟨33, 35⟩)]⟩ 200 false = .ok (.contentLength 27) := by
  have coding : HeaderBlock.get ⟨disguisedHead, [(⟨17, 31⟩, ⟨33, 35⟩)]⟩ (ascii "transfer-encoding") =
      none := by decide
  have length : HeaderBlock.get ⟨disguisedHead, [(⟨17, 31⟩, ⟨33, 35⟩)]⟩ (ascii "content-length") =
      some (decimal 27) := by decide
  simp [responseBodyKind, coding, contentLengthKind, length, bind, Except.bind,
    @parseContentLength_decimal 27 (by decide)]

/-- A response with a body of 27 bytes, which look like a response themselves. -/
def disguised : WireResponse false where
  head := disguisedHead
  wire := noContent 49
  body := noContent 49
  ranges := ⟨(⟨13, 15⟩, ⟨13, 15⟩), .http11, some 200, [(⟨17, 31⟩, ⟨33, 35⟩)], 39⟩
  kind := .contentLength 27
  parsed := rfl
  consumed := rfl
  size := by decide
  framing := disguised_framing
  delimited := .inr (@BodyReader.Delimited.contentLength (noContent 49) (by decide))

def fetch (calls : List BodyCall) : Sending where
  request := ⟨ascii "GET", ascii "/", [], []⟩
  host := ascii "a"
  answer := disguised
  segments := [disguisedHead, noContent 49]
  nonempty := by
    intro segment member
    rcases List.mem_cons.mp member with rfl | member
    · decide
    · obtain rfl := List.mem_singleton.mp member
      decide
  cut := rfl
  calls := calls

/-- A response is dropped before its body is read: the next send returns what the body says,
and not the answer. -/
theorem send_pairs_dropped : ∃ response after,
    (send (fetch []).request (fetch []).host).Runs (answered (fetch []) (connection [fetch []]))
      response after ∧ response.head.status = 204 ∧ (fetch []).answer.parsedHead.status = 200 := by
  have opened := connection_open []
  have fresh : (connection []).stream = [] := rfl
  obtain ⟨after, sends, _, unread⟩ := @send_runs (answered (fetch []) (connection []))
    (fetch []).request (fetch []).host disguised (noContent 49) (answered_open opened _).live
    (by rw [answered_stream, fresh]; rfl) (Nat.zero_le _)
  have left : connection [fetch []] = after := exchange_eq sends
  have still : after.Open := left ▸ connection_open [fetch []]
  have short : after.buf.length ≤ maxHead := by
    have lengths := congrArg List.length unread
    rw [stream, List.length_append] at lengths
    have size : (noContent 49).length ≤ maxHead := by decide
    omega
  obtain ⟨last, again, _⟩ := @send_runs (answered (fetch []) after) (fetch []).request
    (fetch []).host (noContentAnswer 49 rfl) disguised.bytes (answered_open still _).live
    (by rw [answered_stream, unread]; rfl) short
  exact ⟨_, last, left ▸ again, rfl, rfl⟩

end ClientConnection

end TptAsync.Http
