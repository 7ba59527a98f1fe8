import TptAsync.Ws.Negotiation
import TptAsync.Ws.Stream

set_option autoImplicit false

/-!
# The opening handshake

`handshake.rs`, with `accept` and `connect` of `stream.rs`. The hash function is given, and so
are the random key of the client and whether the crate is built with permessage-deflate. Strings
are given by their bytes.
-/

namespace TptAsync.Ws

open Lib Http

def wsGuid : Bytes := ascii "258EAFA5-E914-47DA-95CA-C5AB0DC85B11"

def base64Table : Bytes := ascii "ABCDEFGHIJKLMNOPQRSTUVWXYZabcdefghijklmnopqrstuvwxyz0123456789+/"

def base64Digit (sextet : UInt32) : UInt8 := base64Table.getD (sextet.toNat &&& 63) 0

/-- The four characters for at most three bytes. -/
def base64Chunk (chunk : Bytes) : Bytes :=
  let b0 := chunk.getD 0 0
  let b1 := chunk.getD 1 0
  let b2 := chunk.getD 2 0
  let n := (b0.toUInt32 <<< 16) ||| (b1.toUInt32 <<< 8) ||| b2.toUInt32
  [base64Digit (n >>> 18), base64Digit (n >>> 12),
    if 1 < chunk.length then base64Digit (n >>> 6) else 61,
    if 2 < chunk.length then base64Digit n else 61]

def base64Encode : Bytes → Bytes
  | b0 :: b1 :: b2 :: rest => base64Chunk [b0, b1, b2] ++ base64Encode rest
  | [] => []
  | chunk => base64Chunk chunk

/-- The bytes of a `101 Switching Protocols` response. -/
def renderAcceptResponseWithExt (accept : Bytes) (extensions : Option Bytes) : Bytes :=
  ascii "HTTP/1.1 101 Switching Protocols\r\n" ++
    ascii "upgrade: websocket\r\n" ++
    ascii "connection: Upgrade\r\n" ++
    ascii "sec-websocket-accept: " ++ accept ++ crlf ++
    (match extensions with
    | some ext => ascii "sec-websocket-extensions: " ++ ext ++ crlf
    | none => []) ++
    crlf

def renderAcceptResponse (accept : Bytes) : Bytes := renderAcceptResponseWithExt accept none

/-- The bytes of the request of a client. -/
def renderClientRequest (path host keyB64 : Bytes) : Bytes :=
  ascii "GET " ++ path ++ ascii " HTTP/1.1\r\n" ++
    ascii "host: " ++ host ++ crlf ++
    ascii "upgrade: websocket\r\n" ++
    ascii "connection: Upgrade\r\n" ++
    ascii "sec-websocket-key: " ++ keyB64 ++ crlf ++
    ascii "sec-websocket-version: 13\r\n\r\n"

def trimOws (value : Bytes) : Bytes := Bytes.trimBlanks value

section Sha1

variable (sha1 : Bytes → Vector UInt8 20)

/-- The `Sec-WebSocket-Accept` value for a `Sec-WebSocket-Key` value. -/
def acceptKey (clientKeyB64 : Bytes) : Bytes := base64Encode (sha1 (clientKeyB64 ++ wsGuid)).toList

def validateAndAccept (keyHeader : Bytes) : Except WsError Bytes :=
  if keyHeader.length < 16 then .error (.handshake "missing Sec-WebSocket-Key")
  else .ok (acceptKey sha1 keyHeader)

/-- What `accept` checks of a request, and the `Sec-WebSocket-Accept` value for it. -/
def checkUpgrade (head : RequestHead) : Except WsError Bytes :=
  let headers := head.headers
  if !Bytes.eqIgnoreCase head.method (ascii "GET") then
    .error (.handshake "upgrade requires a GET request")
  else if !(headers.get (ascii "upgrade")).any fun v => Bytes.eqIgnoreCase v (ascii "websocket") then
    .error (.handshake "upgrade header missing")
  else if !(headers.get (ascii "connection")).any fun v =>
      (v.splitOn 44).any fun p => Bytes.eqIgnoreCase (trimOws p) (ascii "upgrade") then
    .error (.handshake "connection header missing Upgrade token")
  else
    match headers.get (ascii "sec-websocket-key") with
    | none => .error (.handshake "Sec-WebSocket-Key missing")
    | some key =>
        if headers.get (ascii "sec-websocket-version") ≠ some (ascii "13") then
          .error (.handshake "unsupported Sec-WebSocket-Version")
        else validateAndAccept sha1 key

end Sha1

/-- The request that `connect` writes. -/
def connectRequest (permessageDeflate : Bool) (path host keyB64 : Bytes) : Bytes :=
  let request := renderClientRequest path host keyB64
  if permessageDeflate then
    -- The final CRLF is dropped.
    request.take (request.length - 2) ++ ascii "sec-websocket-extensions: " ++ clientOffer ++
      ascii "\r\n\r\n"
  else request

/-- The response of a server that is asked for some extensions. -/
def acceptResponse (accept : Bytes) (acceptExt : Option Bytes) (permessageDeflate : Bool) : Bytes :=
  if permessageDeflate then renderAcceptResponseWithExt accept acceptExt else renderAcceptResponse accept

/-- The errors of reading the response. -/
def responseError : HttpError → WsError
  | .connectionClosed => .handshake "connection closed mid-handshake"
  | .io error => .io error
  | .parse reason => .handshake ("malformed HTTP message: " ++ reason)
  | .timedOut => .handshake "operation timed out"
  | .conflictingHeaders what => .handshake ("conflicting headers: " ++ what)

namespace WebSocketStream

variable {γ δ : Type} [Deflate γ] [NewInflate δ] (sha1 : Bytes → Vector UInt8 20)
  (permessageDeflate : Bool) (masks : Nat → MaskKey) (expiries : Nat → Nat → Bool)

/-- Whether permessage-deflate was negotiated. -/
def deflateNegotiated {κ : Type} (ws : WebSocketStream κ) : Bool := ws.deflate.isSome

/-- The opening handshake of a server. The connection is part of the stream from then on. -/
def accept : Async WsError HttpConnection (WebSocketStream (FullCodec γ δ)) := do
  match ← HttpConnection.readRequestHead.mapError WsError.ofHttp with
  | none => Async.fail (.handshake "connection closed before handshake")
  | some head =>
      let accept ← Async.ofExcept (checkUpgrade sha1 head)
      let acceptExt :=
        if permessageDeflate then serverAccept (head.headers.get (ascii "sec-websocket-extensions"))
        else none
      (HttpConnection.writeMessage (acceptResponse accept acceptExt permessageDeflate) []).mapError
        WsError.ofHttp
      let ws : WebSocketStream (FullCodec γ δ) := fromConn (← Async.get) .server masks expiries
      pure { ws with deflate := if acceptExt.isSome then some .serverDefault else none }

/-- The codec for the extensions of a response. -/
def responseCodec (headers : HeaderBlock) : Except WsError (Option (FullCodec γ δ)) :=
  match headers.get (ascii "sec-websocket-extensions") with
  | some ext => if permessageDeflate then clientCodec ext else .ok none
  | none => .ok none

/-- What `connect` does once it has written its request. -/
def readAcceptance (expected : Bytes) : Async WsError HttpConnection (WebSocketStream (FullCodec γ δ)) := do
  let head ← HttpConnection.readResponseHead.mapError responseError
  if head.status ≠ 101 then Async.fail (.handshake "server did not switch protocols")
  else if head.headers.get (ascii "sec-websocket-accept") ≠ some expected then
    Async.fail (.handshake "Sec-WebSocket-Accept mismatch")
  else
    let deflate ← Async.ofExcept (responseCodec permessageDeflate head.headers)
    let ws : WebSocketStream (FullCodec γ δ) := fromConn (← Async.get) .client masks expiries
    pure { ws with deflate }

/-- The opening handshake of a client. -/
def connect (key : Vector UInt8 16) (path host : Bytes) :
    Async WsError HttpConnection (WebSocketStream (FullCodec γ δ)) := do
  let keyB64 := base64Encode key.toList
  let expected := acceptKey sha1 keyB64
  (HttpConnection.writeMessage (connectRequest permessageDeflate path host keyB64) []).mapError
    WsError.ofHttp
  readAcceptance permessageDeflate masks expiries expected

end WebSocketStream

end TptAsync.Ws
