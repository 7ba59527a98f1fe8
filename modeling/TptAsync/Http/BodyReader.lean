import TptAsync.Http.Body
import TptAsync.Http.Connection

set_option autoImplicit false

/-! A streaming reader over a message body (`body.rs`). It holds the connection while the
body streams, and leaves the bytes of the next message in it. -/

namespace TptAsync.Http

open Lib

structure BodyReader where
  conn : HttpConnection
  kind : BodyKind
  remaining : Nat
  chunkRemaining : Nat
  finished : Bool

namespace BodyReader

def new (conn : HttpConnection) (kind : BodyKind) : BodyReader where
  conn := conn
  kind := kind
  remaining := match kind with
    | .contentLength length => length
    | _ => 0
  chunkRemaining := 0
  -- A zero-length body is already complete.
  finished := kind = .empty || kind = .contentLength 0

def isFinished (reader : BodyReader) : Bool := reader.finished

def onConn {α : Type} (action : Async HttpError HttpConnection α) : Async HttpError BodyReader α :=
  Async.zoom BodyReader.conn (fun reader conn => { reader with conn }) action

/-- A new body reader borrows the connection for the length of an action. -/
def borrow {α : Type} (kind : BodyKind) (action : Async HttpError BodyReader α) :
    Async HttpError HttpConnection α := fun conn =>
  let (outcome, reader) := action (new conn kind)
  (outcome, reader.conn)

def readContentLength (capacity : Nat) : Async HttpError BodyReader Bytes := do
  let reader ← Async.get
  if reader.remaining = 0 then pure []
  else
    let data ← onConn (HttpConnection.readRaw (min capacity reader.remaining))
    if data.length = 0 then Async.fail .connectionClosed
    else
      Async.modify fun reader => { reader with remaining := reader.remaining - data.length }
      pure data

/-- The part of `read_chunked` inside a chunk. -/
def readChunkData (capacity : Nat) : Async HttpError BodyReader Bytes := do
  let reader ← Async.get
  let data ← onConn (HttpConnection.readRaw (min capacity reader.chunkRemaining))
  if data.length = 0 then Async.fail .connectionClosed
  else
    Async.modify fun reader => { reader with chunkRemaining := reader.chunkRemaining - data.length }
    if (← Async.get).chunkRemaining = 0 then
      -- The CRLF that ends every chunk.
      onConn (HttpConnection.expectExact crlf)
      pure data
    else pure data

/-- The size in a chunk's first line, up to a chunk extension. -/
def parseChunkSize (line : Bytes) : Except HttpError Nat :=
  let invalid := HttpError.parse "invalid chunk size"
  match Text.fromUtf8 (line.takeWhile (· ≠ 59)) with
  | none => .error invalid
  | some text =>
      match Text.fromStrRadix 16 (Text.trim text) with
      | none => .error invalid
      | some size => .ok size

/-- The trailer section: lines until a blank one. -/
def skipTrailers : Nat → Async HttpError BodyReader Unit
  | 0 => Async.wait
  | fuel + 1 => do
      let trailer ← onConn HttpConnection.readLine
      if trailer = [] then pure () else skipTrailers fuel

/-- The loop of `read_chunked` goes round at most twice: past a size line, then in the chunk. -/
def readChunked (capacity : Nat) : Async HttpError BodyReader Bytes := do
  if 0 < (← Async.get).chunkRemaining then readChunkData capacity
  else
    let line ← onConn HttpConnection.readLine
    let size ← Async.ofExcept (parseChunkSize line)
    if size = 0 then
      let conn := (← Async.get).conn
      skipTrailers (conn.buf.length + conn.undelivered.length + 1)
      Async.modify fun reader => { reader with finished := true }
      pure []
    else
      Async.modify fun reader => { reader with chunkRemaining := size }
      readChunkData capacity

/-- The read that the framing calls for. -/
def readFramed (kind : BodyKind) (capacity : Nat) : Async HttpError BodyReader Bytes :=
  match kind with
  | .empty => pure []
  | .contentLength _ => readContentLength capacity
  | .chunked => readChunked capacity
  | .untilEof => onConn (HttpConnection.readRaw capacity)

/-- Read the next bytes of the body; none when it is complete. -/
def read (capacity : Nat) : Async HttpError BodyReader Bytes := do
  let reader ← Async.get
  if reader.finished ∨ capacity = 0 then pure []
  else
    let data ← readFramed reader.kind capacity
    if data.length = 0 then
      Async.modify fun reader => { reader with finished := true }
      pure data
    else pure data

def readToVecLoop (max : Nat) : Nat → Bytes → Async HttpError BodyReader Bytes
  | 0, _ => Async.wait
  | fuel + 1, out => do
      let data ← read 8192
      if data.length = 0 then pure out
      else if max < out.length + data.length then Async.fail (.parse "body exceeds limit")
      else readToVecLoop max fuel (out ++ data)

/-- Read the whole body, of at most `max` bytes. -/
def readToVec (max : Nat) : Async HttpError BodyReader Bytes := do
  let conn := (← Async.get).conn
  readToVecLoop max (conn.buf.length + conn.undelivered.length + 1) []

end BodyReader

end TptAsync.Http
