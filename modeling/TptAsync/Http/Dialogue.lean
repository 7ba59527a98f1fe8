import TptAsync.Http.Client
import TptAsync.Http.Server

set_option autoImplicit false

/-!
# Dialogues

The two ends of one connection. What one end writes comes to the other one cut into segments
anywhere, a request as a whole before the server goes on. The client reads each response to its end
before it sends the next request. A peer that has hung up takes no more writes, or does not tell.
-/

namespace TptAsync.Http

open Lib

/-- A way to cut what is written. -/
structure Cutter where
  cut : Bytes → List Bytes
  flatten (bytes : Bytes) : (cut bytes).flatten = bytes
  nonempty (bytes : Bytes) : ∀ segment ∈ cut bytes, segment ≠ []

/-- One use of the client: a request, the limit for the body of its response, how the two messages
are cut on their way, and how the transport refuses the request if the server has hung up. -/
structure Call where
  request : Request
  host : Bytes
  max : Nat
  requestCut : Cutter
  responseCut : Cutter
  refusal : Option Io.IoError

structure Reply where
  status : Nat
  reason : Bytes
  headers : List (Bytes × Bytes)
  body : Bytes
  deriving DecidableEq

namespace ClientConnection

/-- The first part of `send`, whose write may be refused. -/
def sendRequest (refusal : Option Io.IoError) (request : Request) (host : Bytes) :
    Async HttpError HttpConnection Unit :=
  match refusal with
  | some error => Async.fail (.io error)
  | none => HttpConnection.writeMessage (request.head host) request.body

/-- The rest of `send`. -/
def awaitResponse (request : Request) : Async HttpError HttpConnection Response := do
  let head ← HttpConnection.readResponseHead
  let body ← HttpConnection.responseBody head request.isHead
  pure ⟨head, body⟩

theorem send_eq (request : Request) (host : Bytes) : send request host = (do
    sendRequest none request host
    awaitResponse request) := rfl

/-- Read the response with its body, and drop it. -/
def readReply (request : Request) (max : Nat) : Async HttpError HttpConnection Reply := do
  let response ← awaitResponse request
  let (result, used) := Response.bodyBytes max response
  Async.set used.body.conn
  match result with
  | .ready body =>
      pure ⟨response.head.status, response.head.reason, response.head.headers.iter, body⟩
  | .failed error => Async.fail error
  | .pending => Async.wait

end ClientConnection

structure Dialogue (σ : Type) where
  client : HttpConnection
  server : HttpConnection
  /-- The state that the handler keeps, until `serve_connection` returns. -/
  serving : Option σ

namespace HttpConnection

/-- What has been written is on its way. -/
def flushed (conn : HttpConnection) : HttpConnection :=
  { conn with io := { conn.io with outbound := [] } }

def receive (conn : HttpConnection) (segments : List Bytes) : HttpConnection :=
  { conn with io := { conn.io with inbound := conn.io.inbound ++ segments } }

/-- The peer drops the connection. -/
def hungUp (conn : HttpConnection) : HttpConnection := { conn with io := { conn.io with ending := .eof } }

end HttpConnection

namespace Dialogue

variable {σ : Type}

def new (state : σ) : Dialogue σ := ⟨.new ⟨[], .pending, []⟩, .new ⟨[], .pending, []⟩, some state⟩

/-- The server's turn: one round of its loop. When the loop returns, the connection is dropped.
`none` where the server waits in the middle of a request, which is not taken up again here. -/
def serve (handler : Handler σ) (dialogue : Dialogue σ) : Option (Dialogue σ) :=
  match dialogue.serving with
  | none => some dialogue
  | some state =>
      match serveOne handler state dialogue.server with
      | (.ready (some (next, true)), server) => some { dialogue with server, serving := some next }
      | (.ready _, server) | (.failed _, server) =>
          some { client := dialogue.client.hungUp, server, serving := none }
      | (.pending, _) => none

/-- One request and its response. -/
def call (handler : Handler σ) (dialogue : Dialogue σ) (call : Call) :
    Option (Outcome HttpError Reply × Dialogue σ) :=
  let refusal := if dialogue.serving.isSome then none else call.refusal
  match ClientConnection.sendRequest refusal call.request call.host dialogue.client with
  | (.ready _, client) => do
      let server := dialogue.server.receive (call.requestCut.cut client.io.outbound)
      let served ← serve handler { dialogue with client := client.flushed, server }
      let client := served.client.receive (call.responseCut.cut served.server.io.outbound)
      let (outcome, client) := ClientConnection.readReply call.request call.max client
      some (outcome, { served with client, server := served.server.flushed })
  | (.failed error, client) => some (.failed error, { dialogue with client })
  | (.pending, _) => none

def calls (handler : Handler σ) (dialogue : Dialogue σ) :
    List Call → Option (List (Outcome HttpError Reply) × Dialogue σ)
  | [] => some ([], dialogue)
  | first :: later => do
      let (outcome, next) ← dialogue.call handler first
      let (outcomes, last) ← next.calls handler later
      some (outcome :: outcomes, last)

end Dialogue

end TptAsync.Http
