import TptAsync.Http.BodyReader

set_option autoImplicit false

/-!
# Client connections

`client.rs`: a request is sent and the head of its response read. The response borrows the
connection while its body is read, and may be dropped at any time.
-/

namespace TptAsync.Http

open Lib

structure Request where
  method : Bytes
  target : Bytes
  headers : List (Bytes × Bytes)
  body : Bytes

namespace Request

def isHead (request : Request) : Bool := Bytes.eqIgnoreCase request.method (ascii "HEAD")

/-- The head as it is sent; `host` and `content-length` are added. -/
def head (request : Request) (host : Bytes) : Bytes :=
  let hasHost := request.headers.any fun (name, _) => Bytes.eqIgnoreCase name (ascii "host")
  request.method ++ [32] ++ request.target ++ ascii " HTTP/1.1" ++ crlf ++
    request.headers.flatMap (fun (name, value) => name ++ ascii ": " ++ value ++ crlf) ++
    (if hasHost then [] else ascii "host: " ++ host ++ crlf) ++
    ascii "content-length: " ++ decimal request.body.length ++ crlf ++ crlf

end Request

structure Response where
  head : ResponseHead
  body : BodyReader

namespace Response

def bodyBytes (max : Nat) : Async HttpError Response Bytes :=
  Async.zoom Response.body (fun response body => { response with body }) (BodyReader.readToVec max)

end Response

/-- The body of a response, in the framing that its head announces. -/
def HttpConnection.responseBody (head : ResponseHead) (isHeadRequest : Bool) :
    Async HttpError HttpConnection BodyReader := do
  let kind ← Async.ofExcept (responseBodyKind head.headers head.status isHeadRequest)
  pure (BodyReader.new (← Async.get) kind)

/-- Send one request and read the response head. -/
def ClientConnection.send (request : Request) (host : Bytes) :
    Async HttpError HttpConnection Response := do
  HttpConnection.writeMessage (request.head host) request.body
  let head ← HttpConnection.readResponseHead
  let body ← HttpConnection.responseBody head request.isHead
  pure ⟨head, body⟩

/-- The transport before more than `arrived` of its segments have come. -/
def Transport.early (io : Transport) (arrived : Nat) : Transport :=
  { io with inbound := io.inbound.take arrived, ending := .pending }

/-- The other segments come. -/
def Transport.resume (left io : Transport) (arrived : Nat) : Transport :=
  { left with inbound := left.inbound ++ io.inbound.drop arrived, ending := io.ending }

/-- A call of `body_bytes` that is awaited, or one that is dropped when it has to wait for more
than `arrived` segments. -/
inductive BodyCall where
  | awaited (max : Nat)
  | dropped (max arrived : Nat)

namespace Response

def withIo (response : Response) (io : Transport) : Response :=
  { response with body := { response.body with conn := { response.body.conn with io } } }

def call (response : Response) : BodyCall → Response
  | .awaited max => (bodyBytes max response).2
  | .dropped max arrived =>
      let io := response.body.conn.io
      let left := (bodyBytes max (response.withIo (io.early arrived))).2
      left.withIo (left.body.conn.io.resume io arrived)

/-- Make some calls and drop the response, which gives the connection back. -/
def use (response : Response) (calls : List BodyCall) : HttpConnection :=
  (calls.foldl call response).body.conn

end Response

end TptAsync.Http
