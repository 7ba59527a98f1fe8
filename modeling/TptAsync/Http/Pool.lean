import TptAsync.Http.Client
import TptAsync.Lib.Search

set_option autoImplicit false

/-!
# Pooled requests

`HttpClient::request` over a pool of idle transports (`client.rs`). Calls run side by side and share
the pool: a step of a call ends at its next access to the pool or to the connector. A connector may
come to anything, and a call may be dropped wherever it waits.
-/

namespace TptAsync.Http

open Lib

def HttpConnection.intoInner (conn : HttpConnection) : Transport := conn.io

structure OwnedResponse where
  status : Nat
  headers : List (Bytes × Bytes)
  body : Bytes

structure Pool where
  idle : Bytes → List Transport
  maxIdlePerHost : Nat

namespace Pool

def new (maxIdlePerHost : Nat) : Pool := ⟨fun _ => [], max maxIdlePerHost 1⟩

def setIdle (pool : Pool) (authority : Bytes) (transports : List Transport) : Pool :=
  { pool with idle := fun other => if other = authority then transports else pool.idle other }

/-- The transport that was put back last. -/
def take (pool : Pool) (authority : Bytes) : Option (Transport × Pool) :=
  match (pool.idle authority).getLast? with
  | none => none
  | some io => some (io, pool.setIdle authority (pool.idle authority).dropLast)

/-- A transport beyond the bound is dropped. -/
def put (pool : Pool) (authority : Bytes) (io : Transport) : Pool :=
  if (pool.idle authority).length < pool.maxIdlePerHost then
    pool.setIdle authority (pool.idle authority ++ [io])
  else pool

end Pool

namespace HttpClient

def defaultAuthorityFor (request : Request) : Bytes :=
  match request.headers.find? fun (name, _) => Bytes.eqIgnoreCase name (ascii "host") with
  | some (_, value) => value
  | none => ascii "localhost"

def hostOf (authority : Bytes) : Bytes := authority.takeWhile (· ≠ 58)

def keepAliveFrom (headers : HeaderBlock) : Bool :=
  match headers.get (ascii "connection") with
  | some value => !Bytes.eqIgnoreCase value (ascii "close")
  | none => true

def splitAuthorityPath (rest : Bytes) : Bytes × Bytes :=
  match rest.findIdx? (· = 47) with
  | some slash => (rest.take slash, rest.drop slash)
  | none => (rest, [47])

/-- The authority and the target that a `Location` stands for. -/
def resolveRedirect (currentAuthority currentTarget location : Bytes) : Bytes × Bytes :=
  let http := ascii "http://"
  let https := ascii "https://"
  if http.isPrefixOf location then splitAuthorityPath (location.drop http.length)
  else if https.isPrefixOf location then
    let (authority, path) := splitAuthorityPath (location.drop https.length)
    (authority.takeWhile (· ≠ 58) ++ ascii ":443", path)
  else if [47].isPrefixOf location then (currentAuthority, location)
  else
    -- A relative path, in the directory of the current target.
    let base := match findLast [47] currentTarget with
      | some slash => currentTarget.take slash
      | none => []
    (currentAuthority, base ++ [47] ++ location)

def maxPooledBody : Nat := 64 * 1024 * 1024

/-- A status that is followed to another place. -/
def isRedirect (status : Nat) : Bool := 300 ≤ status && status < 400 && status ≠ 304

/-- A response holds the connection for the length of an action. -/
def borrow {α : Type} (response : Response) (action : Async HttpError Response α) :
    Async HttpError HttpConnection α := fun _ =>
  let (outcome, response) := action response
  (outcome, response.body.conn)

/-- What one round of the loop comes to. -/
inductive Round where
  | redirect (authority target : Bytes)
  | respond (response : OwnedResponse) (keepAlive : Bool)

/-- The part of the loop in which the call has the transport to itself. -/
def exchange (request : Request) (authority : Bytes) (hops maxRedirects : Nat) :
    Async HttpError HttpConnection Round := do
  let response ← ClientConnection.send request (hostOf authority)
  let status := response.head.status
  let headers := response.head.headers
  if isRedirect status then
    if maxRedirects ≤ hops then Async.fail (.parse "too many redirects")
    else
      match headers.get (ascii "location") with
      | none => Async.fail (.parse "redirect without location")
      | some location => do
          let _ ← borrow response (Response.bodyBytes (1024 * 1024)).attempt
          let (authority, target) :=
            resolveRedirect authority request.target (Text.fromUtf8Lossy location)
          pure (.redirect authority target)
  else
    let body ← borrow response (Response.bodyBytes maxPooledBody)
    let keepAlive := keepAliveFrom headers
    let headers := headers.iter.map fun (name, value) =>
      (Text.fromUtf8Lossy name, Text.fromUtf8Lossy value)
    pure (.respond ⟨status, headers, body⟩ keepAlive)

/-- Where a call of `request` is. -/
inductive CallState where
  | looping (request : Request) (authority : Bytes) (hops : Nat)
  | connecting (request : Request) (authority : Bytes) (hops : Nat)
  | exchanging (request : Request) (authority : Bytes) (hops : Nat) (io : Transport)
  | putting (authority : Bytes) (io : Transport) (response : OwnedResponse)
  | returned (result : Except HttpError OwnedResponse)
  | dropped

structure Call where
  maxRedirects : Nat
  state : CallState

end HttpClient

/-- A pool and the calls over it. -/
structure HttpClient where
  pool : Pool
  calls : List HttpClient.Call

namespace HttpClient

inductive Event where
  | request (request : Request) (maxRedirects : Nat)
  /-- A call goes on to its next access. -/
  | proceed (index : Nat)
  /-- The connector answers. -/
  | connected (index : Nat) (result : Except HttpError Transport)
  | drop (index : Nat)

def new (maxIdlePerHost : Nat) : HttpClient := ⟨.new maxIdlePerHost, []⟩

def setCall (client : HttpClient) (index : Nat) (call : Call) (state : CallState) : HttpClient :=
  { client with calls := client.calls.set index { call with state } }

/-- What the exchange on a transport leaves of the call. -/
def finish (request : Request) (authority : Bytes) (hops : Nat) :
    Outcome HttpError Round × HttpConnection → Option CallState
  | (.pending, _) => none
  | (.failed error, _) => some (.returned (.error error))
  | (.ready (.redirect authority target), _) =>
      some (.looping { request with target, body := [] } authority (hops + 1))
  | (.ready (.respond response keepAlive), conn) =>
      if keepAlive then some (.putting authority conn.intoInner response)
      else some (.returned (.ok response))

def proceed (client : HttpClient) (index : Nat) (call : Call) : Option HttpClient :=
  match call.state with
  | .looping request authority hops =>
      let authority := if authority = [] then defaultAuthorityFor request else authority
      match client.pool.take authority with
      | some (io, pool) =>
          some ({ client with pool }.setCall index call (.exchanging request authority hops io))
      | none => some (client.setCall index call (.connecting request authority hops))
  | .exchanging request authority hops io =>
      (finish request authority hops
        (exchange request authority hops call.maxRedirects (.new io))).map (client.setCall index call)
  | .putting authority io response =>
      some ({ client with pool := client.pool.put authority io }.setCall index call
        (.returned (.ok response)))
  | .connecting .. | .returned _ | .dropped => none

def connected (client : HttpClient) (index : Nat) (call : Call)
    (result : Except HttpError Transport) : Option HttpClient :=
  match call.state with
  | .connecting request authority hops =>
      match result with
      | .ok io => some (client.setCall index call (.exchanging request authority hops io))
      | .error error => some (client.setCall index call (.returned (.error error)))
  | .looping .. | .exchanging .. | .putting .. | .returned _ | .dropped => none

def step (client : HttpClient) : Event → Option HttpClient
  | .request request maxRedirects =>
      some { client with calls := client.calls ++ [⟨maxRedirects, .looping request [] 0⟩] }
  | .proceed index => client.calls[index]?.bind (client.proceed index)
  | .connected index result => client.calls[index]?.bind fun call => client.connected index call result
  | .drop index => client.calls[index]?.map fun call => client.setCall index call .dropped

end HttpClient

end TptAsync.Http
