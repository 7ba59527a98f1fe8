import TptAsync.Http.Connection
import TptAsync.Lib.Text
import TptAsync.Ws.Frame

set_option autoImplicit false

/-!
# WebSocket connections

`stream.rs` after the opening handshake, over the transport of an HTTP connection. The
random masking keys, and which of the timed waits run out, are given with the stream.
-/

namespace TptAsync.Ws

open Lib Http

/-- The compression of messages, with the state that a connection keeps for it. An action
that does not come to an end is one that stays pending. -/
class DeflateCodec (κ : Type) where
  compress : Bytes → Async WsError κ Bytes
  decompress : Bytes → Nat → Async WsError κ Bytes

/-- No compression. -/
instance : DeflateCodec Empty where
  compress _ codec := codec.elim
  decompress _ _ codec := codec.elim

structure KeepAlive where
  interval : Nat
  timeout : Nat

inductive Message where
  | text (string : List Char)
  | binary (bytes : Bytes)
  | ping (payload : Bytes)
  | pong (payload : Bytes)
  | close (info : Option (UInt16 × List Char))
  deriving DecidableEq

structure WebSocketStream (κ : Type) where
  conn : HttpConnection
  role : Role
  deflate : Option κ
  frameBuf : Bytes
  closeSent : Bool
  closeReceived : Bool
  keepalive : Option KeepAlive
  pingOutstanding : Bool
  /-- The keys to come. -/
  masks : Nat → MaskKey
  /-- Whether a wait of some length runs out, for the waits to come. -/
  expiries : Nat → Nat → Bool

def invalidUtf8 : String := "invalid UTF-8 in message"

/-- The status codes that a peer may send. -/
def isValidCloseCode (code : UInt16) : Bool :=
  (1000 ≤ code && code ≤ 1003) || (1007 ≤ code && code ≤ 1011) || (3000 ≤ code && code ≤ 4999)

def checkControl (payload : Bytes) : Except WsError Unit :=
  if 125 < payload.length then .error (.protocol "control frame payload exceeds 125 bytes") else .ok ()

def checkSize (assembled : Bytes) : Except WsError Unit :=
  if maxPayload < assembled.length then .error (.protocol "message exceeds 16 MiB limit") else .ok ()

def closePayload : Option (UInt16 × List Char) → Bytes
  | none => []
  | some (code, reason) => Bytes.toBe 2 code.toNat ++ Text.toUtf8 reason

/-- The opcode and the payload of a message, with the cap on control payloads. -/
def Message.parts : Message → Except WsError (Opcode × Bytes)
  | .text string => .ok (.text, Text.toUtf8 string)
  | .binary bytes => .ok (.binary, bytes)
  | .ping payload => do
      checkControl payload
      .ok (.ping, payload)
  | .pong payload => do
      checkControl payload
      .ok (.pong, payload)
  | .close info => do
      checkControl (closePayload info)
      .ok (.close, closePayload info)

/-- The status code and the reason in a Close frame. -/
def parseClose : Bytes → Except WsError (Option (UInt16 × List Char))
  | [] => .ok none
  | [_] => .error (.protocol "close payload of one byte")
  | high :: low :: reason =>
      let code := (Bytes.fromBe [high, low]).toUInt16
      if !isValidCloseCode code then .error (.protocol "invalid close status code")
      else
        match Text.fromUtf8 reason with
        | none => .error (.protocol invalidUtf8)
        | some reason => .ok (some (code, reason))

/-- A message under assembly: its first opcode, its payload so far, and whether its first
frame was marked as compressed. -/
structure Assembly where
  opcode : Option Opcode
  assembled : Bytes
  compressed : Bool

inductive Progress where
  | done (message : Option Message)
  | more (assembly : Assembly)

namespace WebSocketStream

variable {κ : Type}

def fromConn (conn : HttpConnection) (role : Role) (masks : Nat → MaskKey)
    (expiries : Nat → Nat → Bool) : WebSocketStream κ where
  conn := conn
  role := role
  deflate := none
  frameBuf := []
  closeSent := false
  closeReceived := false
  keepalive := none
  pingOutstanding := false
  masks := masks
  expiries := expiries

/-- The bytes that no frame has been decoded from. -/
def stream (ws : WebSocketStream κ) : Bytes := ws.frameBuf ++ (ws.conn.buf ++ ws.conn.undelivered)

def onConn {α : Type} (action : Async HttpError HttpConnection α) :
    Async WsError (WebSocketStream κ) α :=
  Async.zoom WebSocketStream.conn (fun ws conn => { ws with conn }) (action.mapError WsError.ofHttp)

def onCodec {α : Type} (codec : κ) (action : Async WsError κ α) :
    Async WsError (WebSocketStream κ) α :=
  Async.zoom (fun _ => codec) (fun ws codec => { ws with deflate := some codec }) action

/-- The key for a frame: clients mask theirs. -/
def frameMask : Async WsError (WebSocketStream κ) (Option MaskKey) := do
  let ws ← Async.get
  if ws.role = .client then
    Async.modify fun ws => { ws with masks := fun n => ws.masks (n + 1) }
    pure (some (ws.masks 0))
  else pure none

variable [DeflateCodec κ]

/-- The payload that is sent, and whether it is compressed. -/
def compressPayload (opcode : Opcode) (payload : Bytes) :
    Async WsError (WebSocketStream κ) (Bool × Bytes) := do
  match (← Async.get).deflate with
  | some codec =>
      if opcode.isData then
        let compressed ← onCodec codec (DeflateCodec.compress payload)
        pure (true, compressed)
      else pure (false, payload)
  | none => pure (false, payload)

def send (message : Message) : Async WsError (WebSocketStream κ) Unit := do
  let (opcode, payload) ← Async.ofExcept message.parts
  Async.modify fun ws => { ws with closeSent := ws.closeSent || opcode = .close }
  let (rsv1, payload) ← compressPayload opcode payload
  let mask ← frameMask
  onConn (HttpConnection.writeRaw (encode ⟨true, rsv1, opcode, payload⟩ mask))

/-- A read under a keepalive policy: a wait that runs out is answered with a Ping, and the
next one with an error. -/
def readTimed (policy : KeepAlive) (capacity : Nat) : Nat → Async WsError (WebSocketStream κ) Bytes
  | 0 => Async.wait
  | rounds + 1 => do
      let ws ← Async.get
      let wait := if ws.pingOutstanding then policy.timeout else policy.interval
      Async.modify fun ws => { ws with expiries := fun n => ws.expiries (n + 1) }
      if ws.expiries 0 wait then
        if ws.pingOutstanding then Async.fail .timedOut
        else
          send (.ping [])
          Async.modify fun ws => { ws with pingOutstanding := true }
          readTimed policy capacity rounds
      else
        let result ← (onConn (HttpConnection.readRaw capacity)).attempt
        Async.modify fun ws => { ws with pingOutstanding := false }
        Async.ofExcept result

def readWithKeepalive (capacity : Nat) : Async WsError (WebSocketStream κ) Bytes := do
  match (← Async.get).keepalive with
  | none => onConn (HttpConnection.readRaw capacity)
  | some policy => readTimed policy capacity 2

def nextFrameLoop : Nat → Async WsError (WebSocketStream κ) (Option Frame)
  | 0 => Async.wait
  | fuel + 1 => do
      let ws ← Async.get
      match ← Async.ofExcept (decode ws.frameBuf ws.role) with
      | some (frame, consumed) =>
          Async.set { ws with frameBuf := ws.frameBuf.drop consumed }
          pure (some frame)
      | none =>
          let chunk ← readWithKeepalive 8192
          if chunk.length = 0 then
            if (← Async.get).closeReceived then pure none else Async.fail .connectionClosed
          else
            Async.modify fun ws => { ws with frameBuf := ws.frameBuf ++ chunk }
            nextFrameLoop fuel

/-- The next frame, with the transport read as far as it takes; `none` when the peer has
closed before. -/
def nextFrame : Async WsError (WebSocketStream κ) (Option Frame) := do
  nextFrameLoop ((← Async.get).stream.length + 1)

def decompressPayload (assembly : Assembly) : Async WsError (WebSocketStream κ) Bytes := do
  match (← Async.get).deflate with
  | some codec =>
      if assembly.compressed then onCodec codec (DeflateCodec.decompress assembly.assembled maxPayload)
      else pure assembly.assembled
  | none => pure assembly.assembled

/-- The message whose last frame has been added. -/
def finish (assembly : Assembly) : Async WsError (WebSocketStream κ) (Option Message) := do
  let assembled ← decompressPayload assembly
  match assembly.opcode with
  | some .text =>
      match Text.fromUtf8 assembled with
      | some text => pure (some (.text text))
      | none => Async.fail (.protocol invalidUtf8)
  | some .binary => pure (some (.binary assembled))
  | _ => Async.fail (.protocol "final frame without a message")

/-- Add the payload of a data frame. -/
def addPayload (assembly : Assembly) (frame : Frame) :
    Async WsError (WebSocketStream κ) Progress := do
  let assembly := { assembly with assembled := assembly.assembled ++ frame.payload }
  Async.ofExcept (checkSize assembly.assembled)
  if frame.fin then
    let message ← finish assembly
    pure (.done message)
  else pure (.more assembly)

/-- Echo a Close frame, unless one has been sent. -/
def handleClose (payload : Bytes) : Async WsError (WebSocketStream κ) (Option Message) := do
  let info ← Async.ofExcept (parseClose payload)
  if (← Async.get).closeSent then pure () else send (.close info)
  Async.modify fun ws => { ws with closeReceived := true }
  pure none

/-- What a frame does to the message under assembly. -/
def handleFrame (assembly : Assembly) (frame : Frame) :
    Async WsError (WebSocketStream κ) Progress := do
  let ws ← Async.get
  if frame.rsv1 ∧ ws.deflate.isNone then
    Async.fail (.protocol "RSV1 set but permessage-deflate was not negotiated")
  else if !frame.fin ∧ frame.opcode.isControl then
    Async.fail (.protocol "fragmented control frame")
  else
    let compressed := assembly.compressed || (frame.rsv1 && frame.opcode.isData)
    let assembly := { assembly with compressed }
    match frame.opcode with
    | .ping => do
        send (.pong frame.payload)
        pure (.more assembly)
    | .pong => pure (.done (some (.pong frame.payload)))
    | .close => do
        let message ← handleClose frame.payload
        pure (.done message)
    | .text | .binary =>
        if assembly.opcode.isSome then
          Async.fail (.protocol "new data frame during fragmented message")
        else addPayload { assembly with opcode := some frame.opcode } frame
    | .continuation =>
        if assembly.opcode.isNone then Async.fail (.protocol "continuation without initial frame")
        else addPayload assembly frame

def recvLoop : Nat → Assembly → Async WsError (WebSocketStream κ) (Option Message)
  | 0, _ => Async.wait
  | fuel + 1, assembly => do
      match ← nextFrame with
      | none => pure none
      | some frame =>
          match ← handleFrame assembly frame with
          | .done message => pure message
          | .more assembly => recvLoop fuel assembly

/-- The assembly starts over at every call. A frame takes at least two bytes. -/
def recvMessage : Async WsError (WebSocketStream κ) (Option Message) := do
  recvLoop ((← Async.get).stream.length + 1) ⟨none, [], false⟩

/-- Answer a protocol violation with a Close frame, and fail. -/
def failConnection (reason : String) : Async WsError (WebSocketStream κ) (Option Message) := do
  if (← Async.get).closeSent then Async.fail (.protocol reason)
  else
    let code := if reason = invalidUtf8 then 1007 else 1002
    let _ ← (send (.close (some (code, [])))).attempt
    Async.fail (.protocol reason)

/-- Receive the next message; `none` when the peer has closed. -/
def recv : Async WsError (WebSocketStream κ) (Option Message) := do
  match ← recvMessage.attempt with
  | .ok message => pure message
  | .error (.protocol reason) => failConnection reason
  | .error error => Async.fail error

/-- Enable or disable keepalive. -/
def setKeepalive (policy : Option KeepAlive) : Async WsError (WebSocketStream κ) Unit :=
  Async.modify fun ws => { ws with keepalive := policy, pingOutstanding := false }

/-- Receive until the peer has closed. -/
def drainLoop : Nat → Async WsError (WebSocketStream κ) Unit
  | 0 => Async.wait
  | fuel + 1 => do
      match ← recv with
      | some _ => drainLoop fuel
      | none => pure ()

/-- Start the closing handshake, unless a Close has been sent, and wait for the peer. A message
takes at least two bytes. -/
def close (code : UInt16) : Async WsError (WebSocketStream κ) Unit := do
  if (← Async.get).closeSent then pure ()
  else
    send (.close (some (code, [])))
    Async.modify fun ws => { ws with closeSent := true }
  drainLoop ((← Async.get).stream.length + 1)

/-- Whether the closing handshake is complete. -/
def isClosed (ws : WebSocketStream κ) : Bool := ws.closeSent && ws.closeReceived

end WebSocketStream

end TptAsync.Ws
