import TptAsync.Io.Transport
import TptAsync.Lib.Loop
import TptAsync.Tls.Stream

set_option autoImplicit false

/-!
# Both halves of a TLS stream

`TlsStream` (`stream.rs`) as a whole: its handshake, and the calls of its readers and writers.
-/

namespace TptAsync.Tls

open Lib Io

inductive TlsError
  | rustls (error : String)
  | io (error : IoError)
  | timedOut
  | rootStoreEmpty
  | pem (error : IoError)

/-- The error that a reader or a writer is told. -/
def intoIo : TlsError → IoError
  | .io error => error
  | .rustls error => ⟨.invalidData, error⟩
  | .pem error => error
  | .timedOut => ⟨.other, "TLS operation timed out"⟩
  | .rootStoreEmpty =>
      ⟨.other, "trust store is empty: enable the webpki-roots or native-certs feature, or supply roots manually"⟩

/-- A rustls connection that takes records as well, and decrypts them. -/
class Session (ρ : Type) extends Connection ρ where
  wantsWrite : ρ → Bool
  wantsRead : ρ → Bool
  isHandshaking : ρ → Bool
  /-- How many bytes of the records it takes. -/
  readTls : Bytes → ρ → Except IoError Nat × ρ
  processNewPackets : ρ → Except String Unit × ρ
  /-- Read plaintext into a buffer of this size. -/
  read : Nat → ρ → Except IoError Bytes × ρ
  sendCloseNotify : ρ → ρ

structure Duplex (ω ρ : Type) extends TlsStream ω ρ where
  /-- The records that rustls has not taken yet. -/
  readBuf : Bytes

namespace Duplex

variable {ω ρ α : Type} [Transport ω] [Session ρ]

def new (io : ω) (conn : ρ) : Duplex ω ρ := ⟨.new io conn, []⟩

def onWrites (action : Async IoError (TlsStream ω ρ) α) : Async IoError (Duplex ω ρ) α :=
  Async.zoom Duplex.toTlsStream (fun stream writes => { stream with toTlsStream := writes }) action

def onIo (action : Async IoError ω α) : Async IoError (Duplex ω ρ) α := onWrites (TlsStream.onIo action)

omit [Transport ω] [Session ρ] in
theorem onIo_ends {action : Async IoError ω α} {outcome : Outcome IoError α} {stream after : Duplex ω ρ}
    (ends : onIo action stream = (outcome, after)) :
    ∃ io, action stream.io = (outcome, io) ∧ after = { stream with io } := by
  cases ends
  exact ⟨_, rfl, rfl⟩

/-- A call of rustls, which does not wait. -/
def onSession {ε : Type} (call : ρ → Except ε α × ρ) : Async ε (Duplex ω ρ) α := fun stream =>
  match call stream.conn with
  | (.ok value, conn) => (.ready value, { stream with conn })
  | (.error error, conn) => (.failed error, { stream with conn })

def pullTlsRecords : Async TlsError (Duplex ω ρ) Unit := (onWrites TlsStream.pullTlsRecords).mapError .io

def pollFlushWriteBuf : Async TlsError (Duplex ω ρ) Unit :=
  (onWrites TlsStream.pollFlushWriteBuf).mapError .io

def pullWanted : Async TlsError (Duplex ω ρ) Unit := do
  let stream ← Async.get
  if Session.wantsWrite stream.conn then pullTlsRecords else pure ()

/-- Push what there is to send, of which rustls may have queued some. -/
def pollDrivePendingWrites : Async TlsError (Duplex ω ρ) Unit := do
  pullWanted
  let stream ← Async.get
  if stream.writeBuf.length ≤ stream.writePos then pure () else pollFlushWriteBuf

/-- Give rustls what has been read, and have it decrypt that. -/
def feedIncomingToRustls : Async TlsError (Duplex ω ρ) Nat := do
  let stream ← Async.get
  if stream.readBuf = [] then pure 0
  else
    let consumed ← (onSession (Session.readTls stream.readBuf)).mapError .io
    Async.modify fun stream => { stream with readBuf := stream.readBuf.drop consumed }
    (onSession Session.processNewPackets).mapError .rustls
    pure consumed

/-- Await that all of `writeBuf` from `written` on is sent, in so many polls. -/
def sendAll (polls : Nat) : Nat → Nat → Async TlsError (Duplex ω ρ) Unit
  | 0, _ => Async.wait
  | fuel + 1, written => do
      let stream ← Async.get
      if written < stream.writeBuf.length then
        let n ← (onIo ((AsyncWrite.pollWrite (stream.writeBuf.drop written)).await polls)).mapError .io
        if n = 0 then Async.fail (.io IoError.writeZero)
        else sendAll polls fuel (written + n)
      else pure ()

def readSize : Nat := 4096

/-- Send what there is to send; whether that is anything. -/
def sendPending (polls : Nat) : Async TlsError (Duplex ω ρ) Bool := do
  let stream ← Async.get
  if stream.writeBuf ≠ [] then
    sendAll polls (stream.writeBuf.length + 1) stream.writePos
    Async.modify fun stream => { stream with writeBuf := [], writePos := 0 }
    (onIo (Transport.pollFlush.await polls)).mapError .io
    pure true
  else pure false

/-- One round of `handshake`, each of whose polls is repeated so many times at most. -/
def handshakeRound (polls : Nat) : Async TlsError (Duplex ω ρ) (Option Unit) := do
  let consumed ← feedIncomingToRustls
  pullWanted
  let sent ← sendPending polls
  let stream ← Async.get
  if !Session.isHandshaking stream.conn && !Session.wantsWrite stream.conn &&
      stream.writeBuf.length ≤ stream.writePos then pure (some ())
  -- A round that has made no progress reads, whether rustls wants it or not.
  else if Session.wantsRead stream.conn || !(0 < consumed || sent) then
    let filled ← (onIo ((AsyncRead.pollRead readSize).await polls)).mapError .io
    if filled = [] then
      Async.fail (.io ⟨.unexpectedEof, "peer closed connection during TLS handshake"⟩)
    else
      Async.modify fun stream => { stream with readBuf := stream.readBuf ++ filled }
      let _ ← feedIncomingToRustls
      pure none
  else pure none

def handshake (polls rounds : Nat) : Duplex ω ρ → Option (Outcome TlsError Unit × Duplex ω ρ) :=
  Async.loop (handshakeRound polls) rounds

/-- One round of `pollRead`. -/
def readRound (room : Nat) : Async IoError (Duplex ω ρ) (Option Bytes) := do
  pollDrivePendingWrites.mapError intoIo
  match ← (onSession (Session.read room)).attempt with
  | .ok plaintext => pure (some plaintext)
  | .error error =>
      if error.kind = .wouldBlock then
        let stream ← Async.get
        if stream.readBuf ≠ [] then
          let _ ← feedIncomingToRustls.mapError intoIo
          pure none
        else
          let filled ← onIo (AsyncRead.pollRead readSize)
          if filled = [] then
            Async.fail ⟨.unexpectedEof, "TLS peer closed the transport unexpectedly"⟩
          else
            Async.modify fun stream => { stream with readBuf := stream.readBuf ++ filled }
            pure none
      else Async.fail error

/-- Fill a buffer of this size with plaintext. -/
def pollRead (room rounds : Nat) : Duplex ω ρ → Option (Outcome IoError Bytes × Duplex ω ρ) :=
  Async.loop (readRound room) rounds

def pollWrite (buf : Bytes) : Async IoError (Duplex ω ρ) Nat := onWrites (TlsStream.pollWrite buf)

def pollFlush : Async IoError (Duplex ω ρ) Unit := do
  pollFlushWriteBuf.mapError intoIo
  onIo Transport.pollFlush

def pollShutdown : Async IoError (Duplex ω ρ) Unit := do
  Async.modify fun stream => { stream with conn := Session.sendCloseNotify stream.conn }
  pullTlsRecords.mapError intoIo
  pollFlushWriteBuf.mapError intoIo
  onIo Transport.pollShutdown

/-- A call of a reader or a writer. -/
inductive Call
  | read (room rounds : Nat)
  | write (buf : Bytes)
  | flush
  | shutdown

/-- The stream behind a call, if the call returns. -/
def step (stream : Duplex ω ρ) : Call → Option (Duplex ω ρ)
  | .read room rounds => (pollRead room rounds stream).map Prod.snd
  | .write buf => some (pollWrite buf stream).2
  | .flush => some (pollFlush stream).2
  | .shutdown => some (pollShutdown stream).2

end Duplex

end TptAsync.Tls
