import TptAsync.Http.Parse
import TptAsync.Lib.Async

set_option autoImplicit false

/-!
# HTTP connections

`connection.rs` over a transport that delivers its bytes in arbitrary segments. A loop
around `fill` takes at least one byte each time it goes round, which bounds it.
-/

namespace TptAsync.Http

open Lib

/-- What a read meets after the last segment. -/
inductive Ending where
  | eof
  | pending
  | error (error : Io.IoError)

/-- The segments still to arrive, of which a read takes from the first one only, and the
bytes written so far. Writes are accepted. -/
structure Transport where
  inbound : List Bytes
  ending : Ending
  outbound : Bytes

/-- Fill a buffer of `capacity` bytes. -/
def Transport.pollRead (capacity : Nat) : Async HttpError Transport Bytes := fun io =>
  match io.inbound with
  | segment :: rest =>
      (.ready (segment.take capacity), { io with
        inbound := if segment.length ≤ capacity then rest else segment.drop capacity :: rest })
  | [] =>
      match io.ending with
      | .eof => (.ready [], io)
      | .pending => (.pending, io)
      | .error error => (.failed (.io error), io)

def Transport.writeAll (bytes : Bytes) : Async HttpError Transport Unit :=
  Async.modify fun io => { io with outbound := io.outbound ++ bytes }

structure HttpConnection where
  io : Transport
  buf : Bytes
  eof : Bool

namespace HttpConnection

def new (io : Transport) : HttpConnection := ⟨io, [], false⟩

def readChunk : Nat := 8192

/-- The bytes that the transport has not delivered yet. -/
def undelivered (conn : HttpConnection) : Bytes := conn.io.inbound.flatten

def onIo {α : Type} (action : Async HttpError Transport α) : Async HttpError HttpConnection α :=
  Async.zoom HttpConnection.io (fun conn io => { conn with io }) action

/-- Read some bytes into the buffer; zero when the peer has closed. The buffer is grown for the
read, and cut back when the read is over. -/
def fill : Async HttpError HttpConnection Nat := do
  let oldLen := (← Async.get).buf.length
  Async.modify fun conn => { conn with buf := conn.buf ++ List.replicate readChunk 0 }
  match ← (onIo (Transport.pollRead readChunk)).attempt with
  | .ok data =>
      Async.modify fun conn => { conn with
        buf := conn.buf.take oldLen ++ data
        eof := if data.length = 0 then true else conn.eof }
      pure data.length
  | .error error =>
      Async.modify fun conn => { conn with buf := conn.buf.take oldLen }
      Async.fail error

/-- Read raw bytes, buffered ones first. -/
def readRaw (capacity : Nat) : Async HttpError HttpConnection Bytes := do
  let conn ← Async.get
  if conn.buf ≠ [] then
    Async.set { conn with buf := conn.buf.drop capacity }
    pure (conn.buf.take capacity)
  else onIo (Transport.pollRead capacity)

def readLineLoop : Nat → Async HttpError HttpConnection Bytes
  | 0 => Async.wait
  | fuel + 1 => do
      let conn ← Async.get
      match find crlf conn.buf with
      | some position =>
          Async.set { conn with buf := conn.buf.drop (position + 2) }
          pure (conn.buf.take position)
      | none =>
          if conn.buf = [] ∧ conn.eof then Async.fail .connectionClosed
          else if (← fill) = 0 then Async.fail .connectionClosed
          else readLineLoop fuel

/-- Read one line, without its CRLF. -/
def readLine : Async HttpError HttpConnection Bytes := do
  readLineLoop ((← Async.get).undelivered.length + 1)

def expectLoop : Nat → Nat → Bytes → Async HttpError HttpConnection Bytes
  | 0, _, _ => Async.wait
  | fuel + 1, missing, got =>
      if 0 < missing then do
        let data ← readRaw missing
        if data.length = 0 then Async.fail .connectionClosed
        else expectLoop fuel (missing - data.length) (got ++ data)
      else pure got

/-- The next bytes must be `expected`. -/
def expectExact (expected : Bytes) : Async HttpError HttpConnection Unit := do
  let got ← expectLoop (expected.length + 1) expected.length []
  if got ≠ expected then Async.fail (.parse "invalid framing bytes") else pure ()

def readRequestHeadLoop : Nat → Async HttpError HttpConnection (Option RequestHead)
  | 0 => Async.wait
  | fuel + 1 => do
      let conn ← Async.get
      -- The buffer is taken while it is parsed, and lost when that fails.
      Async.set { conn with buf := [] }
      match ← Async.ofExcept (parseRequestRanges conn.buf) with
      | some ranges =>
          Async.set { conn with buf := conn.buf.drop ranges.consumed }
          pure (some (RequestHead.fromRanges (conn.buf.take ranges.consumed) ranges))
      | none =>
          Async.set conn
          if (← fill) = 0 then
            if (← Async.get).buf = [] then pure none else Async.fail .connectionClosed
          else readRequestHeadLoop fuel

/-- Read a request head; `none` when the peer closes before its first byte. -/
def readRequestHead : Async HttpError HttpConnection (Option RequestHead) := do
  readRequestHeadLoop ((← Async.get).undelivered.length + 1)

def readResponseHeadLoop : Nat → Async HttpError HttpConnection ResponseHead
  | 0 => Async.wait
  | fuel + 1 => do
      let conn ← Async.get
      Async.set { conn with buf := [] }
      match ← Async.ofExcept (parseResponseRanges conn.buf) with
      | some ranges =>
          Async.set { conn with buf := conn.buf.drop ranges.consumed }
          pure (ResponseHead.fromRanges (conn.buf.take ranges.consumed) ranges)
      | none =>
          Async.set conn
          if (← fill) = 0 then Async.fail .connectionClosed
          else readResponseHeadLoop fuel

def readResponseHead : Async HttpError HttpConnection ResponseHead := do
  readResponseHeadLoop ((← Async.get).undelivered.length + 1)

def writeRaw (bytes : Bytes) : Async HttpError HttpConnection Unit := onIo (Transport.writeAll bytes)

/-- Write a rendered head and the body after it. -/
def writeMessage (head body : Bytes) : Async HttpError HttpConnection Unit := do
  onIo (Transport.writeAll head)
  if body ≠ [] then onIo (Transport.writeAll body) else pure ()

end HttpConnection

/-- The decimal digits of a number. -/
def decimal (number : Nat) : Bytes := (Nat.toDigits 10 number).map Char.toUInt8

/-- Render a status line and headers. -/
def renderHead (status : Nat) (reason : Bytes) (headers : List (Bytes × Bytes))
    (includeContentLength : Bool) (bodyLen : Nat) (extraFirstLine : Bytes) : Bytes :=
  extraFirstLine ++ ascii "HTTP/1.1 " ++ decimal status ++ [32] ++ reason ++ crlf ++
    headers.flatMap (fun (name, value) => name ++ ascii ": " ++ value ++ crlf) ++
    (if includeContentLength then ascii "content-length: " ++ decimal bodyLen ++ crlf else []) ++
    crlf

end TptAsync.Http
