import TptAsync.Http.Extension
import TptAsync.Http.HeadLimit
import TptAsync.Http.Leftovers
import TptAsync.Http.Pool
import TptAsync.Lib.Transition

set_option autoImplicit false

/-!
# What is put back

A transport goes back to the pool if the first `Connection` field of the response is not `close`.
The request, the framing and the bytes that have come behind the response are not looked at.
-/

namespace TptAsync.Http

open Lib HttpConnection

/-- The options that a `Connection` value lists. -/
def connectionOptions (value : Bytes) : List Bytes :=
  (value.splitOn 44).map fun option => (trimOws option).slice option

def saysClose (headers : List (Bytes × Bytes)) : Bool :=
  headers.any fun (name, value) => Bytes.eqIgnoreCase name (ascii "connection") &&
    (connectionOptions value).any (Bytes.eqIgnoreCase · (ascii "close"))

namespace HttpClient

/-- An exchange behind which the transport may be used again. -/
structure Clean (request : Request) (before : Transport) (answer : Response) (conn : HttpConnection) :
    Prop where
  request : saysClose request.headers = false
  response : saysClose answer.head.headers.iter = false
  framing : answer.body.kind ≠ .untilEof
  undiscarded : conn.buf = []
  opened : conn.eof = false
  boundary : ∃ wire, BodyReader.Frames answer.body.kind wire ∧
    before.inbound.flatten = answer.head.buf ++ (wire ++ conn.io.inbound.flatten)

/-- The transport is put back behind a clean exchange, if it is. -/
def PutsClean (client : HttpClient) : Event → Prop
  | .proceed index => ∀ call request authority hops io response conn,
      client.calls[index]? = some call → call.state = .exchanging request authority hops io →
      exchange request authority hops call.maxRedirects (.new io) =
        (.ready (.respond response true), conn) →
      ∃ answer sent, (ClientConnection.send request (hostOf authority)).Runs (.new io) answer sent ∧
        Clean request io answer conn
  | .request .. | .connected .. | .drop _ => True

/-- A clean exchange has left the transport. -/
def Hygienic (io : Transport) : Prop :=
  ∃ request host before answer sent conn, (ClientConnection.send request host).Runs (.new before) answer
    sent ∧ Clean request before answer conn ∧ conn.intoInner = io

/-- Where the client would keep the transport, there is no reason not to: neither side asks to close
it, the response says where it ends, and no segment holds its end and something else behind it. -/
def Tidy (request : Request) (io : Transport) : Prop :=
  ∀ head ranges tail kind, io.inbound.flatten = head ++ tail → WholeHead parseResponseRanges head ranges →
    responseBodyKind ⟨head, ranges.headers⟩ (ranges.status.getD 200) request.isHead = .ok kind →
    isRedirect (ranges.status.getD 200) = false → keepAliveFrom ⟨head, ranges.headers⟩ = true →
    saysClose request.headers = false ∧ saysClose (HeaderBlock.mk head ranges.headers).iter = false ∧
      kind ≠ .untilEof ∧ ∀ wire, BodyReader.Frames kind wire → wire <+: tail →
        ∃ segments rest, io.inbound = segments ++ rest ∧ segments.flatten = head ++ wire

def Segmented (io : Transport) : Prop := ∀ segment ∈ io.inbound, segment ≠ []

/-- A read of nothing is the end of a stream, so a new transport delivers no empty segment; and every
exchange is tidy. -/
def Allowed (client : HttpClient) : Event → Prop
  | .proceed index => ∀ call request authority hops io, client.calls[index]? = some call →
      call.state = .exchanging request authority hops io → Tidy request io
  | .connected _ (.ok io) => Segmented io
  | .connected _ (.error _) | .request .. | .drop _ => True

section Exchange

variable {request : Request} {authority host : Bytes} {hops maxRedirects max : Nat}
  {conn after sent : HttpConnection} {answer left : Response} {body : Bytes}

theorem borrow_of_runs {α : Type} {value : α} {action : Async HttpError Response α}
    (runs : (borrow answer action).Runs conn value after) :
    ∃ left, action.Runs answer value left ∧ left.body.conn = after := by
  unfold Async.Runs borrow at runs
  cases ends : action answer with
  | mk outcome left =>
      rw [ends] at runs
      cases runs
      exact ⟨left, ends, rfl⟩

/-- An exchange that ends the call has read the whole body. -/
theorem exchange_of_respond {response : OwnedResponse} {keepAlive : Bool}
    (runs : (exchange request authority hops maxRedirects).Runs conn (.respond response keepAlive) after) :
    ∃ answer sent body left, (ClientConnection.send request (hostOf authority)).Runs conn answer sent ∧
      isRedirect answer.head.status = false ∧ (Response.bodyBytes maxPooledBody).Runs answer body left ∧
      left.body.conn = after ∧ keepAlive = keepAliveFrom answer.head.headers := by
  obtain ⟨answer, sent, sends, runs⟩ := runs.of_bind
  dsimp only at runs
  split at runs
  · split at runs
    · cases runs
    · split at runs
      · cases runs
      · obtain ⟨_, _, _, runs⟩ := runs.of_bind
        cases runs
  · next status =>
      obtain ⟨body, middle, reads, runs⟩ := runs.of_bind
      cases runs
      obtain ⟨left, reads, same⟩ := borrow_of_runs reads
      exact ⟨answer, sent, body, left, sends, Bool.eq_false_iff.mpr status, reads, same, rfl⟩

theorem bodyBytes_of_runs (reads : (Response.bodyBytes max).Runs answer body left) :
    (BodyReader.readToVec max).Runs answer.body body left.body := by
  obtain ⟨reader, taken, rfl⟩ := Async.Runs.of_zoom reads
  exact taken

/-- Reading only takes off, so that a transport stays without empty segments. -/
theorem exchange_segmented (sends : (ClientConnection.send request host).Runs conn answer sent)
    (reads : (Response.bodyBytes max).Runs answer body left) (segmented : Segmented conn.io) :
    Segmented left.body.conn.io := by
  obtain ⟨heads, kind, _, same⟩ := ClientConnection.send_of_runs sends
  have first := (readResponseHead_moves consumes_respected).of_runs heads
  have second := (BodyReader.readToVec_moves consumes_respected max).of_runs (bodyBytes_of_runs reads)
  rw [same] at second
  exact second.segments (first.segments segmented)

end Exchange

section Boundary

variable {conn sent : HttpConnection} {segments rest : List Bytes} {head wire body : Bytes}
  {ranges : HeadRanges} {kind : BodyKind} {max : Nat} {answer : ResponseHead} {left : BodyReader}

/-- When the segments of a response hold nothing else, reading it takes these and no others. -/
theorem reads_segments (shape : conn.io.inbound = segments ++ rest) (empty : conn.buf = [])
    (live : conn.Live) (cut : segments.flatten = head ++ wire)
    (whole : WholeHead parseResponseRanges head ranges) (frames : BodyReader.Frames kind wire)
    (heads : readResponseHead.Runs conn answer sent)
    (reads : (BodyReader.readToVec max).Runs (.new sent kind) body left) :
    left.conn.buf = [] ∧ left.conn.eof = false := by
  let short : HttpConnection := { conn with io := { conn.io with inbound := segments, ending := .pending } }
  have extended : short.Extended rest conn.io.ending conn := by
    refine ⟨⟨rfl, ?_⟩, rfl, rfl⟩
    simp only [short, ← shape]
  have shortLive : short.Live := by
    refine ⟨fun segment member => live.segments segment ?_, live.eof⟩
    rw [shape]
    exact List.mem_append_left rest member
  have stream : short.stream = head ++ wire := by
    rw [stream, show short.buf = [] from empty]
    exact cut
  have word := WholeHead.firstVerdict parseResponseRanges_incremental whole wire
  rw [← stream] at word
  have settles := headLoop_settles parseResponseRanges_incremental ResponseHead.fromRanges
    (Async.fail .connectionClosed) shortLive.segments word (Nat.lt_succ_self _)
  rw [← readResponseHeadLoop_eq] at settles
  have follows := readResponseHead_follows extended
  have start : readResponseHead short = readResponseHeadLoop (short.undelivered.length + 1) short := by
    rw [readResponseHead, (Async.Runs.get short).bind_eq]
  rw [Async.Follows, Async.Agrees, start, heads] at follows
  cases ends : readResponseHeadLoop (short.undelivered.length + 1) short with
  | mk outcome middle =>
      rw [ends] at settles follows
      cases settles with
      | refused word => cases word
      | oversize =>
          obtain ⟨same, _⟩ := follows (by simp)
          cases same
      | found same segments eof stream' ending outbound buffered =>
          cases same
          obtain ⟨_, after⟩ := follows (by simp)
          have middleLive : middle.Live := ⟨segments, eof.trans shortLive.eof⟩
          have left' : middle.stream = wire ++ [] := by
            rw [whole.whole, List.take_length, stream] at stream'
            rw [List.append_nil]
            exact (List.append_cancel_left stream').symm
          obtain ⟨whole, holds⟩ := frames.holds left'
          have extended' : BodyReader.Extended rest conn.io.ending (.new middle kind) (.new sent kind) :=
            ⟨after, rfl⟩
          have further := BodyReader.readToVec_follows extended' max
          rw [Async.Follows, Async.Agrees, reads] at further
          rcases @BodyReader.readToVec_ends _ _ _ max middleLive holds with
            ⟨last, runs, nothing, moved⟩ | ⟨error, last, fails⟩
          · rw [runs] at further
            obtain ⟨_, after⟩ := further (by simp)
            have ended := stream_eq_nil moved.live nothing
            exact ⟨after.conn.buf.trans ended.1, after.conn.eof.trans moved.live.eof⟩
          · rw [fails] at further
            obtain ⟨same, _⟩ := further (by simp)
            cases same

end Boundary

section Clean

variable {request : Request} {host : Bytes} {io : Transport} {sent : HttpConnection}
  {answer left : Response} {body : Bytes} {max : Nat}

theorem Tidy.clean (tidy : Tidy request io) (segmented : Segmented io)
    (sends : (ClientConnection.send request host).Runs (.new io) answer sent)
    (status : isRedirect answer.head.status = false)
    (keeps : keepAliveFrom answer.head.headers = true)
    (reads : (Response.bodyBytes max).Runs answer body left) :
    Clean request io answer left.body.conn := by
  obtain ⟨heads, kind, framing, same⟩ := ClientConnection.send_of_runs sends
  have live : (ClientConnection.requested request host (.new io)).Live := ⟨segmented, rfl⟩
  obtain ⟨part, ranges, initial, parsed, headed, advances⟩ := readResponseHead_of_runs live heads
  have reads := bodyBytes_of_runs reads
  have consumed := (parseResponseRanges_incremental.consumed _ _ parsed).2
  have whole : WholeHead parseResponseRanges (part.take ranges.consumed) ranges :=
    ⟨parseResponseRanges_take parsed, (List.length_take_of_le consumed).symm⟩
  have stream : io.inbound.flatten = part.take ranges.consumed ++ sent.stream := advances.stream
  rw [headed] at framing status keeps
  obtain ⟨asks, answers, delimited, aligned⟩ :=
    tidy _ ranges _ kind stream whole framing status keeps
  rw [same] at reads
  obtain ⟨wire, frames, split⟩ :=
    BodyReader.Frames.of_drains delimited (BodyReader.readToVec_drains reads)
  obtain ⟨segments, rest, shape, cut⟩ := aligned wire frames (split ▸ List.prefix_append _ _)
  obtain ⟨nothing, opened⟩ := @reads_segments (ClientConnection.requested request host (.new io))
    _ _ _ _ _ _ _ _ _ _ _ shape rfl live cut whole frames heads reads
  refine ⟨asks, ?_, same ▸ delimited, nothing, opened, wire, same ▸ frames, ?_⟩
  · rw [headed]
    exact answers
  · rw [stream, split, headed, HttpConnection.stream, nothing]
    rfl

end Clean

section Steps

variable {client next : HttpClient} {index : Nat} {call : Call} {request : Request} {authority : Bytes}
  {hops : Nat}

/-- What an exchange that has ended leaves of its call. -/
inductive Finishes (request : Request) (authority : Bytes) (hops : Nat) :
    Outcome HttpError Round × HttpConnection → CallState → Prop where
  | failed {error conn} :
      Finishes request authority hops (.failed error, conn) (.returned (.error error))
  | redirected {authority' target conn} :
      Finishes request authority hops (.ready (.redirect authority' target), conn)
        (.looping { request with target, body := [] } authority' (hops + 1))
  | kept {response conn} :
      Finishes request authority hops (.ready (.respond response true), conn)
        (.putting authority conn.intoInner response)
  | closed {response conn} :
      Finishes request authority hops (.ready (.respond response false), conn)
        (.returned (.ok response))

theorem finish_cases {ended : Outcome HttpError Round × HttpConnection} {state : CallState}
    (finishes : finish request authority hops ended = some state) :
    Finishes request authority hops ended state := by
  obtain ⟨outcome, conn⟩ := ended
  cases outcome with
  | pending => cases finishes
  | failed error =>
      cases finishes
      exact .failed
  | ready round =>
      cases round with
      | redirect authority' target =>
          cases finishes
          exact .redirected
      | respond response keepAlive =>
          cases keepAlive with
          | true =>
              cases finishes
              exact .kept
          | false =>
              cases finishes
              exact .closed

/-- How a call goes on by itself. -/
inductive Proceeds (client : HttpClient) (index : Nat) (call : Call) : HttpClient → Prop where
  | take {request authority authority' hops io pool} (state : call.state = .looping request authority hops)
      (takes : client.pool.take authority' = some (io, pool)) :
      Proceeds client index call
        ({ client with pool }.setCall index call (.exchanging request authority' hops io))
  | connect {request authority authority' hops} (state : call.state = .looping request authority hops) :
      Proceeds client index call (client.setCall index call (.connecting request authority' hops))
  | finish {request authority hops io ended after} (state : call.state = .exchanging request authority hops io)
      (ends : exchange request authority hops call.maxRedirects (.new io) = ended)
      (finishes : Finishes request authority hops ended after) :
      Proceeds client index call (client.setCall index call after)
  | put {authority io response} (state : call.state = .putting authority io response) :
      Proceeds client index call
        ({ client with pool := client.pool.put authority io }.setCall index call (.returned (.ok response)))

theorem proceed_cases (goes : client.proceed index call = some next) : Proceeds client index call next := by
  unfold HttpClient.proceed at goes
  split at goes
  · next request authority hops state =>
      dsimp only at goes
      split at goes
      · next takes =>
          cases goes
          exact .take state takes
      · cases goes
        exact .connect state
  · next request authority hops io state =>
      obtain ⟨after, finishes, rfl⟩ := Option.map_eq_some_iff.mp goes
      exact .finish state rfl (finish_cases finishes)
  · next state =>
      cases goes
      exact .put state
  · cases goes
  · cases goes
  · cases goes

/-- How a call takes the answer of the connector. -/
inductive Connects (client : HttpClient) (index : Nat) (call : Call) :
    Except HttpError Transport → HttpClient → Prop where
  | ok {request authority hops io} (state : call.state = .connecting request authority hops) :
      Connects client index call (.ok io)
        (client.setCall index call (.exchanging request authority hops io))
  | error {request authority hops error} (state : call.state = .connecting request authority hops) :
      Connects client index call (.error error)
        (client.setCall index call (.returned (.error error)))

theorem connected_cases {result : Except HttpError Transport}
    (goes : client.connected index call result = some next) : Connects client index call result next := by
  unfold HttpClient.connected at goes
  split at goes
  · next state =>
      cases result with
      | ok io =>
          cases goes
          exact .ok state
      | error error =>
          cases goes
          exact .error state
  · cases goes
  · cases goes
  · cases goes
  · cases goes
  · cases goes

end Steps

section Run

variable {client next : HttpClient} {event : Event} {index : Nat} {call : Call}

def Fit (io : Transport) : Prop := Segmented io ∧ Hygienic io

/-- What holds of the transport that a call has. -/
def CallState.Sound : CallState → Prop
  | .exchanging _ _ _ io => Segmented io
  | .putting _ io _ => Fit io
  | .looping .. | .connecting .. | .returned _ | .dropped => True

structure Sound (client : HttpClient) : Prop where
  idle : ∀ authority, ∀ io ∈ client.pool.idle authority, Fit io
  calls : ∀ call ∈ client.calls, call.state.Sound

theorem Sound.setCall (sound : client.Sound) (index : Nat) (call : Call) (state : CallState)
    (new : state.Sound) : (client.setCall index call state).Sound := by
  refine ⟨sound.idle, fun other member => ?_⟩
  cases List.mem_or_eq_of_mem_set member with
  | inl old => exact sound.calls other old
  | inr same =>
      rw [same]
      exact new

theorem Sound.setIdle (sound : client.Sound) {authority : Bytes} {transports : List Transport}
    (fit : ∀ io ∈ transports, Fit io) :
    Sound { client with pool := client.pool.setIdle authority transports } := by
  refine ⟨fun other io member => ?_, sound.calls⟩
  simp only [Pool.setIdle] at member
  split at member
  · exact fit io member
  · exact sound.idle other io member

theorem Sound.put (sound : client.Sound) {authority : Bytes} {io : Transport} (fit : Fit io) :
    Sound { client with pool := client.pool.put authority io } := by
  rw [Pool.put]
  split
  · refine sound.setIdle fun other member => ?_
    cases List.mem_append.mp member with
    | inl old => exact sound.idle authority other old
    | inr new => exact List.mem_singleton.mp new ▸ fit
  · exact sound

theorem Sound.take (sound : client.Sound) {authority : Bytes} {io : Transport} {pool : Pool}
    (takes : client.pool.take authority = some (io, pool)) : Fit io ∧ Sound { client with pool } := by
  rw [Pool.take] at takes
  cases last : (client.pool.idle authority).getLast? with
  | none =>
      rw [last] at takes
      cases takes
  | some found =>
      rw [last] at takes
      cases takes
      refine ⟨sound.idle authority io (List.mem_of_getLast? last), sound.setIdle fun other member => ?_⟩
      exact sound.idle authority other (List.mem_of_mem_dropLast member)

theorem Tidy.finish {request : Request} {authority : Bytes} {hops maxRedirects : Nat} {io : Transport}
    {response : OwnedResponse} {keepAlive : Bool} {conn : HttpConnection} (tidy : Tidy request io)
    (segmented : Segmented io)
    (runs : (exchange request authority hops maxRedirects).Runs (.new io) (.respond response keepAlive)
      conn) :
    Segmented conn.intoInner ∧ (keepAlive = true → ∃ answer sent,
      (ClientConnection.send request (hostOf authority)).Runs (.new io) answer sent ∧
        Clean request io answer conn) := by
  obtain ⟨answer, sent, body, left, sends, status, reads, rfl, keeps⟩ := exchange_of_respond runs
  refine ⟨exchange_segmented sends reads segmented, fun kept => ?_⟩
  exact ⟨answer, sent, sends, tidy.clean segmented sends status (keeps.symm.trans kept) reads⟩

theorem Sound.proceed (sound : client.Sound) (member : call ∈ client.calls)
    (tidy : ∀ request authority hops io, call.state = .exchanging request authority hops io →
      Tidy request io) (goes : client.proceed index call = some next) : next.Sound := by
  have had := sound.calls call member
  cases proceed_cases goes with
  | take state takes =>
      obtain ⟨fit, sound⟩ := sound.take takes
      exact sound.setCall _ _ _ fit.1
  | connect state => exact sound.setCall _ _ _ trivial
  | finish state ends finishes =>
      rw [state] at had
      refine sound.setCall _ _ _ ?_
      cases finishes with
      | failed | redirected | closed => trivial
      | kept =>
          obtain ⟨segmented, clean⟩ := (tidy _ _ _ _ state).finish had ends
          obtain ⟨answer, sent, sends, clean⟩ := clean rfl
          exact ⟨segmented, _, _, _, answer, sent, _, sends, clean, rfl⟩
  | put state =>
      rw [state] at had
      exact (sound.put had).setCall _ _ _ trivial

theorem Sound.connected {result : Except HttpError Transport} (sound : client.Sound)
    (allowed : client.Allowed (.connected index result))
    (goes : client.connected index call result = some next) : next.Sound := by
  cases connected_cases goes with
  | ok state => exact sound.setCall _ _ _ allowed
  | error state => exact sound.setCall _ _ _ trivial

/-- A step that is allowed keeps the pool fit, and what it puts back is clean. -/
theorem Sound.step (sound : client.Sound) (goes : client.step event = some next)
    (allowed : client.Allowed event) : next.Sound ∧ client.PutsClean event := by
  cases event with
  | request request maxRedirects =>
      cases goes
      refine ⟨⟨sound.idle, fun call member => ?_⟩, trivial⟩
      cases List.mem_append.mp member with
      | inl old => exact sound.calls call old
      | inr new =>
          rw [List.mem_singleton.mp new]
          trivial
  | proceed index =>
      obtain ⟨call, found, goes⟩ := Option.bind_eq_some_iff.mp goes
      have member := List.mem_of_getElem? found
      have tidy := fun request authority hops io => allowed call request authority hops io found
      refine ⟨sound.proceed member tidy goes, ?_⟩
      intro call' request authority hops io response conn found' state runs
      rw [found, Option.some.injEq] at found'
      subst found'
      have segmented := sound.calls call member
      rw [state] at segmented
      exact ((tidy request authority hops io state).finish segmented runs).2 rfl
  | connected index result =>
      obtain ⟨call, found, goes⟩ := Option.bind_eq_some_iff.mp goes
      exact ⟨sound.connected allowed goes, trivial⟩
  | drop index =>
      obtain ⟨call, found, rfl⟩ := Option.map_eq_some_iff.mp goes
      exact ⟨sound.setCall _ _ _ trivial, trivial⟩

theorem new_sound (maxIdlePerHost : Nat) : (new maxIdlePerHost).Sound := by
  refine ⟨fun authority io member => ?_, fun call member => ?_⟩
  · cases member
  · cases member

end Run

section Runs

def noContent : Transport := ⟨[ascii "HTTP/1.1 204 No Content\r\n\r\n"], .pending, []⟩

/-- How the body of a response that was sent for is framed. -/
def framing : Outcome HttpError Response × HttpConnection → Option BodyKind
  | (.ready answer, _) => some answer.body.kind
  | _ => none

end Runs

end HttpClient

end TptAsync.Http
