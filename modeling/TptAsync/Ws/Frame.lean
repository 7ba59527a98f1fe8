import TptAsync.Http.Error
import TptAsync.Lib.Bytes

set_option autoImplicit false

/-! The frame codec (`frame.rs`), with the errors of the crate. -/

namespace TptAsync.Ws

open Lib

inductive WsError where
  | io (error : Io.IoError)
  | protocol (reason : String)
  | connectionClosed
  | handshake (reason : String)
  | timedOut
  deriving DecidableEq

/-- The conversion of HTTP errors; those of a kind that this crate lacks keep their text. -/
def WsError.ofHttp : Http.HttpError → WsError
  | .io error => .io error
  | .connectionClosed => .connectionClosed
  | .timedOut => .timedOut
  | .parse reason => .handshake ("malformed HTTP message: " ++ reason)
  | .conflictingHeaders what => .handshake ("conflicting headers: " ++ what)

/-- 16 MiB. -/
def maxPayload : Nat := 16 * 1024 * 1024

inductive Opcode where
  | continuation
  | text
  | binary
  | close
  | ping
  | pong
  deriving DecidableEq

namespace Opcode

def fromU8 (code : UInt8) : Except WsError Opcode :=
  match code with
  | 0x0 => .ok .continuation
  | 0x1 => .ok .text
  | 0x2 => .ok .binary
  | 0x8 => .ok .close
  | 0x9 => .ok .ping
  | 0xA => .ok .pong
  | _ => .error (.protocol "reserved opcode")

def toU8 : Opcode → UInt8
  | .continuation => 0x0
  | .text => 0x1
  | .binary => 0x2
  | .close => 0x8
  | .ping => 0x9
  | .pong => 0xA

def isControl : Opcode → Bool
  | .close | .ping | .pong => true
  | _ => false

/-- The opcodes that start a message. -/
def isData : Opcode → Bool
  | .text | .binary => true
  | _ => false

end Opcode

structure Frame where
  fin : Bool
  rsv1 : Bool
  opcode : Opcode
  payload : Bytes
  deriving DecidableEq

structure MaskKey where
  first : UInt8
  second : UInt8
  third : UInt8
  fourth : UInt8
  deriving DecidableEq

namespace MaskKey

def bytes (key : MaskKey) : Bytes := [key.first, key.second, key.third, key.fourth]

/-- The byte for a position, modulo four. -/
def byte (key : MaskKey) (position : Nat) : UInt8 := key.bytes.getD (position % 4) 0

end MaskKey

def applyMask (data : Bytes) (key : MaskKey) : Bytes := data.mapIdx fun i byte => byte ^^^ key.byte i

def encode (frame : Frame) (mask : Option MaskKey) : Bytes :=
  let len := frame.payload.length
  let bits := (if frame.fin then 0x80 else 0x00) ||| (if frame.rsv1 then 0x40 else 0x00) |||
    frame.opcode.toU8
  let maskBit := if mask.isSome then 0x80 else 0x00
  let lengths :=
    if len < 126 then [maskBit ||| UInt8.ofNat len]
    else if len ≤ 65535 then (maskBit ||| 126) :: Bytes.toBe 2 len
    else (maskBit ||| 127) :: Bytes.toBe 8 len
  let body :=
    match mask with
    | some key => key.bytes ++ applyMask frame.payload key
    | none => frame.payload
  bits :: (lengths ++ body)

inductive Role where
  | client
  | server
  deriving DecidableEq

/-- The payload length and the position behind it. -/
def decodeLength (buf : Bytes) (len7 : Nat) : Except WsError (Option (Nat × Nat)) :=
  if len7 = 126 then
    if buf.length < 4 then .ok none
    else .ok (some (Bytes.fromBe (buf.window 2 2), 4))
  else if len7 = 127 then
    if buf.length < 10 then .ok none
    else
      let len := Bytes.fromBe (buf.window 2 8)
      if maxPayload < len then .error (.protocol "frame exceeds 16 MiB limit")
      else .ok (some (len, 10))
  else .ok (some (len7, 2))

/-- The masking key at a position, and the position behind it. -/
def decodeMask (buf : Bytes) (pos : Nat) (masked : Bool) : Option (Option MaskKey × Nat) :=
  if masked then
    match buf.drop pos with
    | first :: second :: third :: fourth :: _ => some (some ⟨first, second, third, fourth⟩, pos + 4)
    | _ => none
  else some (none, pos)

/-- Client frames are masked, and server frames are not. -/
def checkMasking (role : Role) (masked : Bool) : Except WsError Unit :=
  match role, masked with
  | .server, false => .error (.protocol "client frame is not masked")
  | .client, true => .error (.protocol "server frame is masked")
  | _, _ => .ok ()

/-- The rest of `decode`, from the payload length on. -/
def decodePayload (buf : Bytes) (role : Role) (fin rsv1 : Bool) (opcode : Opcode) (masked : Bool)
    (payloadLen pos : Nat) : Except WsError (Option (Frame × Nat)) :=
  if maxPayload < payloadLen then .error (.protocol "frame exceeds 16 MiB limit")
  else if opcode.isControl ∧ 125 < payloadLen then
    .error (.protocol "control frame larger than 125 bytes")
  else
    match decodeMask buf pos masked with
    | none => .ok none
    | some (mask, pos) => do
        checkMasking role masked
        if buf.length < pos + payloadLen then .ok none
        else
          let payload := buf.window pos payloadLen
          let payload := (mask.map (applyMask payload)).getD payload
          .ok (some (⟨fin, rsv1, opcode, payload⟩, pos + payloadLen))

/-- Decode a frame from the front of `buf`, and the bytes it takes; `none` when more are needed. -/
def decode (buf : Bytes) (role : Role) : Except WsError (Option (Frame × Nat)) :=
  match buf with
  | bits :: lengths :: _ =>
      let fin := bits &&& 0x80 ≠ 0
      let rsv1 := bits &&& 0x40 ≠ 0
      if bits &&& 0x30 ≠ 0 then .error (.protocol "RSV2/RSV3 bits set")
      else do
        let opcode ← Opcode.fromU8 (bits &&& 0x0F)
        let masked := lengths &&& 0x80 ≠ 0
        match ← decodeLength buf (lengths &&& 0x7F).toNat with
        | none => .ok none
        | some (payloadLen, pos) => decodePayload buf role fin rsv1 opcode masked payloadLen pos
  | _ => .ok none

end TptAsync.Ws
