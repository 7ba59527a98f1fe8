import TptAsync.Io.Transport

set_option autoImplicit false

/-! Bounded pipes in memory, one for each direction, as the tests join two streams by. -/

namespace TptAsync.Io

open Lib

structure Pipe where
  capacity : Nat
  bytes : Bytes
  closed : Bool

structure PipeEnd where
  inbound : Pipe
  outbound : Pipe

namespace Pipe

def empty (capacity : Nat) : Pipe := ⟨capacity, [], false⟩

def room (pipe : Pipe) : Nat := pipe.capacity - pipe.bytes.length

def pollRead (room : Nat) : Async IoError Pipe Bytes := fun pipe =>
  if pipe.bytes ≠ [] then (.ready (pipe.bytes.take room), { pipe with bytes := pipe.bytes.drop room })
  else if pipe.closed then (.ready [], pipe)
  else (.pending, pipe)

def pollWrite (buf : Bytes) : Async IoError Pipe Nat := fun pipe =>
  if pipe.closed then (.failed ⟨.brokenPipe, ""⟩, pipe)
  else if pipe.room = 0 then (.pending, pipe)
  else (.ready (min buf.length pipe.room), { pipe with bytes := pipe.bytes ++ buf.take pipe.room })

end Pipe

instance : Transport PipeEnd where
  pollRead room := Async.zoom PipeEnd.inbound (fun io inbound => { io with inbound }) (Pipe.pollRead room)
  pollWrite buf := Async.zoom PipeEnd.outbound (fun io outbound => { io with outbound }) (Pipe.pollWrite buf)
  pollFlush := pure ()
  pollShutdown := Async.modify fun io => { io with outbound := { io.outbound with closed := true } }

end TptAsync.Io
