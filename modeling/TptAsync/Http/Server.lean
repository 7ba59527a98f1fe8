import TptAsync.Http.BodyReader

set_option autoImplicit false

/-!
# Serving a connection

The keep-alive loop of `server.rs`. A handler is a program that reads the body any number
of times before it responds; it sees the request through its accessors only.
-/

namespace TptAsync.Http

open Lib

structure ResponseData where
  status : Nat
  headers : List (Bytes × Bytes)
  body : Bytes
  /-- No vector is longer than this. -/
  bodyFits : body.length < 2 ^ 63

namespace ResponseData

def reason (response : ResponseData) : Bytes :=
  match response.status with
  | 200 => ascii "OK"
  | 201 => ascii "Created"
  | 204 => ascii "No Content"
  | 400 => ascii "Bad Request"
  | 404 => ascii "Not Found"
  | 405 => ascii "Method Not Allowed"
  | 500 => ascii "Internal Server Error"
  | 501 => ascii "Not Implemented"
  | _ => []

/-- The head that the server sends: a content length unless the body is empty. -/
def head (response : ResponseData) : Bytes :=
  renderHead response.status response.reason response.headers (response.body ≠ [])
    response.body.length []

end ResponseData

/-- What the accessors of a request show. -/
structure RequestView where
  method : Bytes
  target : Bytes
  version : Version
  headers : List (Bytes × Bytes)
  keepAlive : Bool
  deriving DecidableEq

def RequestHead.view (head : RequestHead) (keepAlive : Bool) : RequestView where
  method := head.method
  target := head.target
  version := head.version
  headers := head.headers.iter
  keepAlive := keepAlive

/-- The rest of a handler's work on one request. -/
inductive HandlerProgram (σ : Type) where
  | respond (response : ResponseData) (state : σ)
  | bodyBytes (max : Nat) (next : Except HttpError Bytes → HandlerProgram σ)

/-- A handler with the state that it keeps between requests. -/
abbrev Handler (σ : Type) := σ → RequestView → HandlerProgram σ

namespace HandlerProgram

variable {σ : Type}

def run : HandlerProgram σ → Async HttpError BodyReader (ResponseData × σ)
  | .respond response state => pure (response, state)
  | .bodyBytes max next => do
      let result ← (BodyReader.readToVec max).attempt
      (next result).run

end HandlerProgram

/-- HTTP/1.1 keeps a connection alive unless asked to close it, HTTP/1.0 the other way round. -/
def keepAliveRequested (head : RequestHead) : Bool :=
  let connection := head.headers.get (ascii "connection")
  match head.version with
  | .http11 => !(connection.map (Bytes.eqIgnoreCase · (ascii "close"))).getD false
  | .http10 => (connection.map (Bytes.eqIgnoreCase · (ascii "keep-alive"))).getD false

variable {σ : Type}

/-- One round of the keep-alive loop: the handler's new state, and whether to go on. `none`
when the peer has closed. -/
def serveOne (handler : Handler σ) (state : σ) :
    Async HttpError HttpConnection (Option (σ × Bool)) := do
  match ← HttpConnection.readRequestHead with
  | none => pure none
  | some head =>
      let keepAlive := keepAliveRequested head
      let kind ← Async.ofExcept (requestBodyKind head.headers)
      let ((response, state), finished) ← BodyReader.borrow kind do
        let answer ← (handler state (head.view keepAlive)).run
        pure (answer, (← Async.get).isFinished)
      HttpConnection.writeMessage response.head response.body
      pure (some (state, keepAlive && finished))

/-- Serve requests until the peer closes or asks to; every request takes at least one byte. -/
def serveLoop (handler : Handler σ) : Nat → σ → Async HttpError HttpConnection σ
  | 0, _ => Async.wait
  | fuel + 1, state => do
      match ← serveOne handler state with
      | none => pure state
      | some (state, keepAlive) =>
          if keepAlive then serveLoop handler fuel state else pure state

def serveConnection (io : Transport) (handler : Handler σ) (state : σ) :
    Outcome HttpError σ × HttpConnection :=
  serveLoop handler (io.inbound.flatten.length + 1) state (HttpConnection.new io)

end TptAsync.Http
