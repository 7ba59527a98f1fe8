import TptAsync.Http.Requests

set_option autoImplicit false

/-!
# Serving a stream of requests

The keep-alive loop against the requests that the stream is made of: it dispatches them in
order, up to the first one after which the connection cannot be kept alive.
-/

namespace TptAsync.Http

open Lib

/-- What a handler's work on a body comes to. -/
structure Answer (σ : Type) where
  response : ResponseData
  state : σ
  read : Bool

namespace HandlerProgram

variable {σ : Type}

/-- The work on a request whose body is `body`. A body that has been read is empty from then on. -/
def answer : HandlerProgram σ → Bytes → Answer σ
  | .respond response state, _ => ⟨response, state, false⟩
  | .bodyBytes _ next, body => { (next (.ok body)).answer [] with read := true }

/-- Every limit is large enough for the body. -/
inductive Suffices : HandlerProgram σ → Bytes → Prop
  | respond (response : ResponseData) (state : σ) (body : Bytes) :
      Suffices (.respond response state) body
  | bodyBytes {max : Nat} {next : Except HttpError Bytes → HandlerProgram σ} {body : Bytes}
      (limit : body.length ≤ max) (rest : Suffices (next (.ok body)) []) :
      Suffices (.bodyBytes max next) body

open BodyReader

theorem run_runs {program : HandlerProgram σ} {reader : BodyReader} {body rest : Bytes}
    (enough : program.Suffices body) (live : reader.conn.Live) (holds : Holds reader rest body) :
    ∃ after, program.run.Runs reader ((program.answer body).response, (program.answer body).state)
        after ∧ Follows reader after ∧
      if (program.answer body).read then after.finished = true ∧ after.conn.stream = rest
      else after = reader := by
  induction enough generalizing reader with
  | respond response state body => exact ⟨reader, .pure _ _, .refl live, rfl⟩
  | @bodyBytes max next body limit _ ih =>
      obtain ⟨middle, reads, finished, streamLeft, follows⟩ := readToVec_runs live holds limit
      obtain ⟨after, runs, further, outcome⟩ := ih follows.live (.done finished streamLeft)
      refine ⟨after, reads.attempt.bind runs, follows.trans further, ?_⟩
      simp only [answer, if_true]
      split at outcome
      · exact outcome
      · exact outcome ▸ ⟨finished, streamLeft⟩

end HandlerProgram

/-- A request with the work that the handler does on it. -/
structure Exchange (σ : Type) where
  request : WireRequest
  program : HandlerProgram σ

namespace Exchange

variable {σ : Type}

def answer (exchange : Exchange σ) : Answer σ := exchange.program.answer exchange.request.body

def response (exchange : Exchange σ) : ResponseData := exchange.answer.response

/-- The request asks for the connection to be closed, or its body is left unread: one that
is chunked or not empty. -/
def stops (exchange : Exchange σ) : Bool :=
  exchange.request.closes ||
    (!exchange.answer.read && (exchange.request.chunked || exchange.request.body ≠ []))

/-- The bytes written in answer to a request. -/
def output (exchange : Exchange σ) : Bytes := exchange.response.head ++ exchange.response.body

end Exchange

variable {σ : Type}

/-- The exchanges of a handler that is given each request in turn. -/
def exchanges (handler : Handler σ) : σ → List WireRequest → List (Exchange σ)
  | _, [] => []
  | state, request :: requests =>
      let exchange : Exchange σ := ⟨request, handler state request.view⟩
      exchange :: exchanges handler exchange.answer.state requests

theorem exchanges_request (handler : Handler σ) (state : σ) (requests : List WireRequest) :
    (exchanges handler state requests).map Exchange.request = requests := by
  induction requests generalizing state with
  | nil => rfl
  | cons request requests ih => rw [exchanges, List.map_cons, ih]

/-- The number of exchanges up to the first one that stops, or all of them. -/
def served (all : List (Exchange σ)) : Nat :=
  match all.findIdx? Exchange.stops with
  | some position => position + 1
  | none => all.length

theorem served_cons (exchange : Exchange σ) (later : List (Exchange σ)) :
    served (exchange :: later) = if exchange.stops then 1 else served later + 1 := by
  rw [served, List.findIdx?_cons]
  cases exchange.stops with
  | true => rfl
  | false =>
      rw [served]
      cases later.findIdx? Exchange.stops <;> rfl

/-- The state that a handler is left with. -/
def finalState (state : σ) (done : List (Exchange σ)) : σ :=
  done.foldl (fun _ exchange => exchange.answer.state) state

/-- What the server returns when it has read all there is. -/
def Ending.outcome {α : Type} (value : α) : Ending → Outcome HttpError α
  | .eof => .ready value
  | .pending => .pending
  | .error cause => .failed (.io cause)

/-- The exchanges that take place. -/
def dispatched (all : List (Exchange σ)) : List (Exchange σ) := all.take (served all)

/-- What serving returns: it goes on to the end of the stream unless an exchange stops it. -/
def serveOutcome (ending : Ending) (state : σ) (all : List (Exchange σ)) : Outcome HttpError σ :=
  let last := finalState state (dispatched all)
  if all.any Exchange.stops then .ready last else ending.outcome last

theorem dispatched_cons (exchange : Exchange σ) (later : List (Exchange σ)) :
    dispatched (exchange :: later) = if exchange.stops then [exchange] else exchange :: dispatched later := by
  rw [dispatched, served_cons]
  split <;> rfl

open HttpConnection

theorem borrow_runs {α : Type} {kind : BodyKind} {action : Async HttpError BodyReader α}
    {conn : HttpConnection} {value : α} {reader : BodyReader}
    (runs : action.Runs (BodyReader.new conn kind) value reader) :
    (BodyReader.borrow kind action).Runs conn value reader.conn := by
  rw [Async.Runs, BodyReader.borrow, runs]

/-- The handler's work leaves the next request at the front of the stream, unless it stops. -/
theorem Exchange.run_runs {exchange : Exchange σ} {conn : HttpConnection} {rest : Bytes}
    (framed : exchange.request.Framed) (enough : exchange.program.Suffices exchange.request.body)
    (live : conn.Live) (shape : conn.stream = exchange.request.wire ++ rest) :
    ∃ kind reader, requestBodyKind exchange.request.requestHead.headers = .ok kind ∧
      exchange.program.run.Runs (BodyReader.new conn kind)
        (exchange.response, exchange.answer.state) reader ∧
      BodyReader.Follows (BodyReader.new conn kind) reader ∧ rest <:+ reader.conn.stream ∧
      (!exchange.request.closes && reader.isFinished) = !exchange.stops ∧
      (reader.isFinished = true → reader.conn.stream = rest) := by
  obtain ⟨kind, framing, holds, untouched⟩ := WireRequest.requestBodyKind_runs framed shape
  obtain ⟨reader, runs, follows, outcome⟩ :=
    HandlerProgram.run_runs enough live holds
  refine ⟨kind, reader, framing, runs, follows, ?_⟩
  rw [show (exchange.program.answer exchange.request.body) = exchange.answer from rfl] at outcome
  cases read : exchange.answer.read with
  | true =>
      rw [read, if_pos rfl] at outcome
      obtain ⟨finished, streamLeft⟩ := outcome
      refine ⟨streamLeft ▸ List.suffix_rfl, ?_, fun _ => streamLeft⟩
      simp [stops, read, BodyReader.isFinished, finished]
  | false =>
      rw [read, if_neg Bool.false_ne_true] at outcome
      subst outcome
      refine ⟨?_, ?_, fun finished => (holds.of_finished finished).2⟩
      · exact ⟨exchange.request.wire, shape.symm⟩
      · rw [untouched]
        simp [stops, read]

/-- One request is answered, and unless the connection is closed the next one stands at the
front of the stream. -/
theorem serveOne_runs {handler : Handler σ} {state : σ} {exchange : Exchange σ}
    {conn : HttpConnection} {rest : Bytes} (wellFormed : exchange.request.WellFormed)
    (program : handler state exchange.request.view = exchange.program)
    (enough : exchange.program.Suffices exchange.request.body) (live : conn.Live)
    (shape : conn.stream = exchange.request.bytes ++ rest) (buffered : conn.buf.length ≤ maxHead) :
    ∃ after, (serveOne handler state).Runs conn (some (exchange.answer.state, !exchange.stops))
        after ∧
      after.Live ∧ after.io.ending = conn.io.ending ∧
      after.io.outbound = conn.io.outbound ++ exchange.output ∧ rest <:+ after.stream ∧
      (exchange.stops = false → after.stream = rest ∧ after.buf.length ≤ maxHead) := by
  rw [WireRequest.bytes, List.append_assoc] at shape
  obtain ⟨middle, readsHead, advances, bounded⟩ :=
    WireRequest.readRequestHead_runs wellFormed live shape buffered
  have streamLeft : middle.stream = exchange.request.wire ++ rest := by
    rw [advances.stream] at shape
    exact List.append_cancel_left shape
  obtain ⟨kind, reader, framing, runs, follows, later, goesOn, finished⟩ :=
    exchange.run_runs wellFormed.framed enough advances.live streamLeft
  obtain ⟨taken, moved⟩ := follows.advances
  have buffered : reader.conn.buf.length ≤ maxHead := by
    have bound := follows.buffered
    have room : readChunk ≤ maxHead := by decide
    rw [show (BodyReader.new middle kind).conn = middle from rfl] at bound
    omega
  have keepAlive := WireRequest.keepAliveRequested_requestHead wellFormed
  have view := WireRequest.requestHead_view wellFormed
  rw [keepAlive] at view
  have works : Async.Runs (do
        let answer ← exchange.program.run
        pure (answer, (← Async.get).isFinished))
      (BodyReader.new middle kind) ((exchange.response, exchange.answer.state), reader.isFinished)
      reader := runs.bind ((Async.Runs.get reader).bind (.pure _ _))
  have written := writeMessage_runs reader.conn exchange.response.head exchange.response.body
  refine ⟨{ reader.conn with io := { reader.conn.io with
      outbound := reader.conn.io.outbound ++ exchange.output } }, readsHead.bind ?_,
    ⟨moved.live.segments, moved.live.eof⟩, moved.ending.trans advances.ending, ?_, later, ?_⟩
  · simp only [framing, keepAlive, view, program]
    refine (Async.Runs.pure middle kind).bind ?_
    refine (borrow_runs works).bind (written.bind ?_)
    rw [goesOn]
    exact .pure _ _
  · have kept : reader.conn.io.outbound = conn.io.outbound := moved.outbound.trans advances.outbound
    rw [← kept]
  · intro goes
    rw [goes, Bool.not_false, Bool.and_eq_true] at goesOn
    exact ⟨finished goesOn.2, buffered⟩

/-- How the loop goes on after a request. -/
theorem serveLoop_succ {handler : Handler σ} {fuel : Nat} {state next : σ} {keepAlive : Bool}
    {conn middle : HttpConnection}
    (serves : (serveOne handler state).Runs conn (some (next, keepAlive)) middle) :
    serveLoop handler (fuel + 1) state conn =
      if keepAlive then serveLoop handler fuel next middle else (.ready next, middle) := by
  rw [serveLoop]
  change Async.bind _ _ _ = _
  rw [Async.bind, serves]
  cases keepAlive <;> rfl

section End

variable {conn : HttpConnection}

theorem Ending.outcome_bind {τ α β : Type} {ending : Ending} {action : Async HttpError τ α}
    {next : α → Async HttpError τ β} {before after : τ} {value : α} {result : β}
    (first : action before = (ending.outcome value, after))
    (second : (next value).Runs after result after) :
    (action >>= next) before = (ending.outcome result, after) := by
  cases ending with
  | eof => exact Async.Runs.bind first second
  | pending => exact Async.bind_pending first
  | error cause => exact Async.bind_failed first

/-- At the end of the stream, the server sees what the transport does there. -/
theorem readRequestHead_end (live : conn.Live) (ended : conn.stream = []) :
    ∃ after, readRequestHead conn = (conn.io.ending.outcome none, after) ∧ after.io = conn.io := by
  obtain ⟨io, buf, eof⟩ := conn
  obtain ⟨inbound, ending, outbound⟩ := io
  obtain ⟨rfl, delivered⟩ : buf = [] ∧ inbound.flatten = [] := List.append_eq_nil_iff.mp ended
  obtain rfl : inbound = [] := by
    cases inbound with
    | nil => rfl
    | cons segment rest =>
        rw [List.flatten_cons, List.append_eq_nil_iff] at delivered
        exact absurd delivered.1 (live.segments segment (.head _))
  cases ending <;> exact ⟨_, rfl, rfl⟩

theorem serveLoop_end {handler : Handler σ} {fuel : Nat} {state : σ} (live : conn.Live)
    (ended : conn.stream = []) :
    ∃ after, serveLoop handler (fuel + 1) state conn = (conn.io.ending.outcome state, after) ∧
      after.io = conn.io := by
  obtain ⟨after, reads, same⟩ := readRequestHead_end live ended
  have serves : serveOne handler state conn = (conn.io.ending.outcome none, after) :=
    Ending.outcome_bind reads (.pure _ _)
  exact ⟨after, Ending.outcome_bind serves (.pure _ _), same⟩

end End

theorem serveLoop_runs {handler : Handler σ} {fuel : Nat} {state : σ} {requests : List WireRequest}
    {conn : HttpConnection} (wellFormed : ∀ request ∈ requests, request.WellFormed)
    (enough : ∀ exchange ∈ dispatched (exchanges handler state requests),
      exchange.program.Suffices exchange.request.body)
    (live : conn.Live) (shape : conn.stream = requests.flatMap WireRequest.bytes)
    (buffered : conn.buf.length ≤ maxHead) (fueled : conn.stream.length < fuel) :
    ∃ after, serveLoop handler fuel state conn =
        (serveOutcome conn.io.ending state (exchanges handler state requests), after) ∧
      after.io.outbound = conn.io.outbound ++
        (dispatched (exchanges handler state requests)).flatMap Exchange.output ∧
      (requests.drop (served (exchanges handler state requests))).flatMap WireRequest.bytes <:+
        after.stream := by
  induction requests generalizing conn state fuel with
  | nil =>
      obtain ⟨fuel, rfl⟩ := Nat.exists_eq_succ_of_ne_zero (Nat.zero_lt_of_lt fueled).ne'
      obtain ⟨after, loops, same⟩ := serveLoop_end
        live shape
      exact ⟨after, loops, by rw [same]; simp [exchanges, dispatched], List.nil_suffix⟩
  | cons request requests ih =>
      obtain ⟨fuel, rfl⟩ := Nat.exists_eq_succ_of_ne_zero (Nat.zero_lt_of_lt fueled).ne'
      obtain ⟨exchange, sameRequest, program, all⟩ : ∃ exchange : Exchange σ,
          exchange.request = request ∧ handler state exchange.request.view = exchange.program ∧
          exchanges handler state (request :: requests) =
            exchange :: exchanges handler exchange.answer.state requests :=
        ⟨⟨request, handler state request.view⟩, rfl, rfl, rfl⟩
      rw [all, dispatched_cons] at enough
      rw [List.flatMap_cons, ← sameRequest] at shape
      have first : exchange.program.Suffices exchange.request.body :=
        enough exchange (by split <;> exact .head _)
      obtain ⟨middle, serves, live, ending, outbound, later, goesOn⟩ := serveOne_runs
        (sameRequest ▸ wellFormed request (.head _)) program first live shape buffered
      rw [all, dispatched_cons, served_cons, serveLoop_succ serves]
      cases stops : exchange.stops with
      | true =>
          refine ⟨middle, ?_, by simpa using outbound, by simpa using later⟩
          simp [serveOutcome, dispatched_cons, stops, finalState]
      | false =>
          obtain ⟨streamLeft, bounded⟩ := goesOn stops
          have shorter : middle.stream.length < fuel := by
            have lengths := congrArg List.length shape
            rw [List.length_append, ← streamLeft, WireRequest.bytes, WireRequest.head,
              List.length_append, List.length_append, show headerDelim.length = 4 from rfl] at lengths
            omega
          rw [stops, if_neg Bool.false_ne_true] at enough
          obtain ⟨after, loops, written, untouched⟩ := ih
            (fun other member => wellFormed other (.tail _ member))
            (fun other member => enough other (.tail _ member)) live streamLeft bounded shorter
          refine ⟨after, ?_, ?_, by simpa using untouched⟩
          · rw [Bool.not_false, if_pos rfl, loops, ending]
            simp [serveOutcome, dispatched_cons, stops, finalState]
          · rw [written, outbound, List.append_assoc]
            simp

/-- A stream of requests is answered in order, up to the first request after which the
connection closes, and the bytes of the requests behind that one are not consumed. -/
theorem serveConnection_dispatches (handler : Handler σ) (state : σ) (requests : List WireRequest)
    (io : Transport) (wellFormed : ∀ request ∈ requests, request.WellFormed)
    (segments : ∀ segment ∈ io.inbound, segment ≠ [])
    (delivers : io.inbound.flatten = requests.flatMap WireRequest.bytes)
    (enough : ∀ exchange ∈ dispatched (exchanges handler state requests),
      exchange.program.Suffices exchange.request.body) :
    let all := exchanges handler state requests
    ∃ conn, serveConnection io handler state = (serveOutcome io.ending state all, conn) ∧
      (dispatched all).map Exchange.request = requests.take (served all) ∧
      conn.io.outbound = io.outbound ++ (dispatched all).flatMap Exchange.output ∧
      (requests.drop (served all)).flatMap WireRequest.bytes <:+ conn.stream := by
  intro all
  obtain ⟨conn, serves, written, untouched⟩ := @serveLoop_runs _ _ _ _ _ (HttpConnection.new io)
    wellFormed enough ⟨segments, rfl⟩ delivers (Nat.zero_le _) (Nat.lt_succ_self _)
  refine ⟨conn, serves, ?_, written, untouched⟩
  rw [dispatched, List.map_take, exchanges_request]

section Example

def echoRequests : List WireRequest :=
  [⟨ascii "POST", ascii "/echo", [(ascii "Content-Length", ascii " 2")], ascii "hi", ascii "hi"⟩,
    ⟨ascii "GET", ascii "/", [(ascii "Connection", ascii "close")], [], []⟩,
    ⟨ascii "GET", ascii "/late", [], [], []⟩]

/-- Reads every body, and counts. -/
def countingHandler : Handler Nat := fun count _ =>
  .bodyBytes 16 fun _ => .respond ⟨200, [], ascii "ok", by decide⟩ (count + 1)

theorem echoRequests_wellFormed : ∀ request ∈ echoRequests, request.WellFormed := by
  have field : ∀ request ∈ echoRequests, ∀ field ∈ request.fields, field.WellFormed := by
    intro request member field inFields
    simp only [echoRequests, List.mem_cons, List.not_mem_nil, or_false] at member
    rcases member with rfl | rfl | rfl <;>
      simp only [List.mem_singleton, List.not_mem_nil] at inFields <;> subst inFields <;>
      exact ⟨⟨by unfold LineBytes; decide, _, _, rfl, by decide, by decide⟩, by decide⟩
  have framed : ∀ request ∈ echoRequests, request.Framed := by
    intro request member
    simp only [echoRequests, List.mem_cons, List.not_mem_nil, or_false] at member
    rcases member with rfl | rfl | rfl
    · have digits : ∀ char ∈ ['2'], char.isDigit = true := fun char member => List.mem_singleton.mp member ▸ rfl
      exact .contentLength (by decide) ['2'] (by decide) (by decide) digits rfl (by decide) rfl
    · exact .absent (by decide) (by decide) rfl rfl
    · exact .absent (by decide) (by decide) rfl rfl
  have lines : ∀ request ∈ echoRequests, request.method ≠ [] ∧
      request.method.all isTcharStrict = true ∧ request.target ≠ [] ∧
      (13 ∉ request.target ∧ 10 ∉ request.target) ∧ 32 ∉ request.target ∧
      request.head.length ≤ maxHead - HttpConnection.readChunk ∧
      (request.values (ascii "connection")).length ≤ 1 := by decide
  intro request member
  obtain ⟨method, token, target, bytes, space, size, connection⟩ := lines request member
  exact ⟨⟨method, token⟩, ⟨target, bytes, space⟩, field request member, size, connection,
    framed request member⟩

/-- Byte by byte, two requests are served, and the one behind `Connection: close` is not. -/
theorem serveConnection_dispatches_two :
    ∃ conn, serveConnection ⟨(echoRequests.flatMap WireRequest.bytes).map ([·]), .eof, []⟩
      countingHandler 0 = (.ready 2, conn) := by
  have enough : ∀ exchange ∈ dispatched (exchanges countingHandler 0 echoRequests),
      exchange.program.Suffices exchange.request.body := by
    intro exchange member
    have two : exchange ∈ [⟨echoRequests[0], countingHandler 0 echoRequests[0].view⟩,
        ⟨echoRequests[1], countingHandler 1 echoRequests[1].view⟩] := member
    simp only [List.mem_cons, List.not_mem_nil, or_false] at two
    rcases two with rfl | rfl <;> exact .bodyBytes (by decide) (.respond _ _ _)
  have split : ∀ bytes : Bytes, (bytes.map ([·])).flatten = bytes := by
    intro bytes
    rw [← List.flatMap_def, List.flatMap_singleton']
  obtain ⟨conn, serves, _⟩ := serveConnection_dispatches countingHandler 0 echoRequests
    ⟨(echoRequests.flatMap WireRequest.bytes).map ([·]), .eof, []⟩ echoRequests_wellFormed
    (by
      intro segment member
      obtain ⟨byte, _, rfl⟩ := List.mem_map.mp member
      exact List.cons_ne_nil _ _)
    (split _) enough
  exact ⟨conn, serves⟩

end Example

end TptAsync.Http
