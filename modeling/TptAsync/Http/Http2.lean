import TptAsync.Http.Server
import TptAsync.Lib.Transition

set_option autoImplicit false

/-!
# Serving HTTP/2

`serve_h2` of `http2.rs`: every stream that the h2 crate gives has a task of its own, and the
tasks share the handler. A step of a task leads to its next `await`.
-/

namespace TptAsync.Http

open Lib

/-- What a handler is given. -/
structure H2Request where
  method : Bytes
  target : Bytes
  headers : List (Bytes × Bytes)
  body : Bytes
  deriving DecidableEq

/-- How the DATA of a stream ends. -/
inductive BodyEnd where
  | clean
  | failed
  deriving DecidableEq

/-- A request as the h2 crate gives it; a header value that is not visible ASCII has no text. -/
structure H2Stream where
  method : Bytes
  path : Bytes
  query : Option Bytes
  headers : List (Bytes × Option Bytes)
  chunks : List Bytes
  ending : BodyEnd

namespace H2Stream

/-- The header pairs of the owned request. -/
def ownedHeaders (stream : H2Stream) : List (Bytes × Bytes) :=
  stream.headers.map fun (name, value) => (name, value.getD [])

/-- The path together with the query. -/
def pathAndQuery (stream : H2Stream) : Bytes :=
  match stream.query with
  | none => stream.path
  | some query => stream.path ++ ascii "?" ++ query

/-- The calls that a stream should lead to: one with the whole request, and none with a part of
it. -/
def expected (stream : H2Stream) : List H2Request :=
  match stream.ending with
  | .clean => [⟨stream.method, stream.pathAndQuery, stream.ownedHeaders, stream.chunks.flatten⟩]
  | .failed => []

end H2Stream

/-- What `body.data().await` gives next. -/
def nextData (rest : List Bytes) (ending : BodyEnd) : Option (Except Unit Bytes) :=
  match rest, ending with
  | chunk :: _, _ => some (.ok chunk)
  | [], .clean => none
  | [], .failed => some (.error ())

inductive H2Phase where
  | reading (rest : List Bytes) (bodyBytes : Bytes)
  | locking (request : H2Request)
  | handling (request : H2Request)
  | responding (response : ResponseData)
  | done

/-- The task of a stream; the capacity it has released goes back to the client. -/
structure H2Task where
  stream : H2Stream
  target : Bytes
  headers : List (Bytes × Bytes)
  phase : H2Phase
  released : Nat

def H2Task.spawn (stream : H2Stream) : H2Task where
  stream := stream
  target := stream.path
  headers := stream.ownedHeaders
  phase := .reading stream.chunks []
  released := 0

/-- The request that a task makes of the body it has. -/
def H2Task.request (task : H2Task) (bodyBytes : Bytes) : H2Request where
  method := task.stream.method
  target := task.target
  headers := task.headers
  body := bodyBytes

/-- The connection with its tasks, the handler, and the task that has locked it. Which `calls`
were made and which responses `sent` is what the outside sees. -/
structure ServeH2 (σ : Type) where
  accepting : Bool
  tasks : List H2Task
  handler : σ
  locked : Option Nat
  calls : List (Nat × H2Request)
  sent : List (Nat × ResponseData)

inductive H2Event where
  | accept (stream : H2Stream)
  /-- The client disconnects, or the connection fails. -/
  | close
  | turn (task : Nat)
  /-- A response is sent, if it can be built and the stream takes it. -/
  | respond (task : Nat) (takes : Bool)

namespace ServeH2

variable {σ : Type}

def initial (handler : σ) : ServeH2 σ where
  accepting := true
  tasks := []
  handler := handler
  locked := none
  calls := []
  sent := []

def setTask (state : ServeH2 σ) (index : Nat) (task : H2Task) : ServeH2 σ :=
  { state with tasks := state.tasks.set index task }

/-- A task reads its body, waits for the handler, has it handle the request, and lets it go. -/
def turn (handle : H2Request → σ → ResponseData × σ) (state : ServeH2 σ) (index : Nat) (task : H2Task) :
    Option (ServeH2 σ) :=
  match task.phase with
  | .reading rest bodyBytes =>
      match nextData rest task.stream.ending with
      | some (.ok bytes) => some (state.setTask index { task with
          phase := .reading rest.tail (bodyBytes ++ bytes)
          released := task.released + bytes.length })
      | some (.error _) => some (state.setTask index { task with phase := .locking (task.request bodyBytes) })
      | none => some (state.setTask index { task with phase := .locking (task.request bodyBytes) })
  | .locking request =>
      if state.locked = none then
        some { state.setTask index { task with phase := .handling request } with
          locked := some index
          calls := state.calls ++ [(index, request)] }
      else none
  | .handling request =>
      let (response, handler) := handle request state.handler
      some { state.setTask index { task with phase := .responding response } with handler, locked := none }
  | .responding _ => none
  | .done => none

def step (handle : H2Request → σ → ResponseData × σ) (state : ServeH2 σ) : H2Event → Option (ServeH2 σ)
  | .accept stream =>
      if state.accepting then some { state with tasks := state.tasks ++ [.spawn stream] } else none
  | .close => if state.accepting then some { state with accepting := false } else none
  | .turn index => do
      let task ← state.tasks[index]?
      state.turn handle index task
  | .respond index takes => do
      let task ← state.tasks[index]?
      match task.phase with
      | .responding response =>
          some { state.setTask index { task with phase := .done } with
            sent := if takes then state.sent ++ [(index, response)] else state.sent }
      | _ => none

/-- The calls made by a task. -/
def callsOf (state : ServeH2 σ) (index : Nat) : List H2Request :=
  (state.calls.filter (·.1 = index)).map (·.2)

end ServeH2

end TptAsync.Http
