import TptAsync.Io.Write

set_option autoImplicit false

/-!
# The write half of a TLS stream

`TlsStream` (`stream.rs`) over any transport and any rustls connection. Its internal errors
are those of the transport and of `write_tls`, which reach the caller as they are.
-/

namespace TptAsync.Tls

open Lib Io

/-- A rustls connection: its plaintext writer, and the records it has queued. -/
class Connection (ρ : Type) where
  write : Bytes → Async IoError ρ Nat
  /-- The records that are moved to the caller. -/
  writeTls : Async IoError ρ Bytes

structure TlsStream (ω ρ : Type) where
  io : ω
  conn : ρ
  /-- The records that are not all sent yet. -/
  writeBuf : Bytes
  /-- How many bytes at the front of `writeBuf` have been sent. -/
  writePos : Nat

namespace TlsStream

variable {ω ρ : Type} [AsyncWrite ω] [Connection ρ]

def new (io : ω) (conn : ρ) : TlsStream ω ρ := ⟨io, conn, [], 0⟩

def onIo {α : Type} (action : Async IoError ω α) : Async IoError (TlsStream ω ρ) α :=
  Async.zoom TlsStream.io (fun stream io => { stream with io }) action

def onConn {α : Type} (action : Async IoError ρ α) : Async IoError (TlsStream ω ρ) α :=
  Async.zoom TlsStream.conn (fun stream conn => { stream with conn }) action

/-- Move queued records into `writeBuf`. -/
def pullTlsRecords : Async IoError (TlsStream ω ρ) Unit := do
  let records ← onConn Connection.writeTls
  Async.modify fun stream => { stream with writeBuf := stream.writeBuf ++ records }

def flushLoop : Nat → Async IoError (TlsStream ω ρ) Unit
  | 0 => Async.wait
  | fuel + 1 => do
      let stream ← Async.get
      if stream.writePos < stream.writeBuf.length then
        let n ← onIo (AsyncWrite.pollWrite (stream.writeBuf.drop stream.writePos))
        if n = 0 then Async.fail IoError.writeZero
        else
          Async.modify fun stream => { stream with writePos := stream.writePos + n }
          flushLoop fuel
      else Async.modify fun stream => { stream with writeBuf := [], writePos := 0 }

/-- Push `writeBuf` to the transport. -/
def pollFlushWriteBuf : Async IoError (TlsStream ω ρ) Unit := do
  let stream ← Async.get
  flushLoop (stream.writeBuf.length + 1)

def pollWrite (buf : Bytes) : Async IoError (TlsStream ω ρ) Nat := do
  -- No plaintext is taken until the records of an earlier write have drained.
  pollFlushWriteBuf
  let n ← onConn (Connection.write buf)
  if n = 0 then Async.fail IoError.writeZero
  else
    pullTlsRecords
    match ← pollFlushWriteBuf.outcome with
    | .pending => pure buf.length
    | .ready _ => pure buf.length
    | .failed error => Async.fail error

instance : AsyncWrite (TlsStream ω ρ) where
  pollWrite := pollWrite

end TlsStream

end TptAsync.Tls
