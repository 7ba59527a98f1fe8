import TptAsync.Io.Error
import TptAsync.Lib.Bytes
import TptAsync.Lib.Transition
import Mathlib.Logic.Function.Basic

set_option autoImplicit false

/-!
# Connected pairs in memory

`FakeIo` and `io_pair` of the test crate. A step is one access to what the two ends share: a
closing flag, or a queue under its lock. What an end writes, its flag and its log go by that end.
-/

namespace TptAsync.Io

open Lib

inductive End where
  | a
  | b
  deriving DecidableEq

namespace End

def peer : End → End
  | a => b
  | b => a

@[simp] theorem peer_peer (side : End) : side.peer.peer = side := by
  cases side <;> rfl

@[simp] theorem peer_ne (side : End) : side.peer ≠ side := by
  cases side <;> decide

theorem eq_or_eq_peer (side other : End) : side = other ∨ side = other.peer := by
  cases side <;> cases other <;> decide

end End

namespace FakeIo

variable {κ : Type}

structure Queue (κ : Type) where
  bytes : Bytes
  readerWaker : Option κ

/-- The calls that close an end. -/
inductive Close where
  | shutdown
  | pollShutdown
  | drop
  deriving DecidableEq

/-- Where an end is in a call. -/
inductive Call (κ : Type) where
  | idle
  | reading (capacity : Nat) (room : capacity ≠ 0) (waker : κ)
  /-- The queue is empty and stays locked. -/
  | checking (capacity : Nat) (waker : κ)
  /-- The peer was not closed, and the queue stays locked. -/
  | registering (waker : κ)
  | writing (buf : Bytes)
  | closing (how : Close)
  | dropped

/-- What is seen of a direction: what its calls return, when it is closed and who is woken. -/
inductive Entry (κ : Type) where
  | read (capacity : Nat) (filled : Bytes)
  | pending (waker : κ)
  | wrote (buf : Bytes) (result : Except IoError Nat)
  | closes (how : Close)
  | closed (how : Close)
  | wakes (waker : κ)

structure Pair (κ : Type) where
  queue : End → Queue κ
  writeClosed : End → Bool
  call : End → Call κ
  log : End → List (Entry κ)

inductive Event (κ : Type) where
  | pollRead (side : End) (capacity : Nat) (waker : κ)
  | pollWrite (side : End) (buf : Bytes)
  | close (side : End) (how : Close)
  | proceed (side : End)

/-- The queue without its waker, and whom that wakes. -/
def Queue.wakeReader (queue : Queue κ) : Queue κ × List (Entry κ) :=
  ({ queue with readerWaker := none }, queue.readerWaker.toList.map .wakes)

/-- What a closed end does next. -/
def Close.leaves : Close → Call κ
  | .shutdown | .pollShutdown => .idle
  | .drop => .dropped

def Call.locks : Call κ → Bool
  | .checking _ _ | .registering _ => true
  | .idle | .reading _ _ _ | .writing _ | .closing _ | .dropped => false

namespace Pair

def peerGone (pair : Pair κ) (side : End) : Bool := pair.writeClosed side.peer

/-- Whether the reader of what `side` writes holds the lock of the queue. -/
def locked (pair : Pair κ) (side : End) : Bool := (pair.call side.peer).locks

def calls (pair : Pair κ) (side : End) (call : Call κ) : Pair κ :=
  { pair with call := Function.update pair.call side call }

/-- Something is seen of what `writer` writes. -/
def logs (pair : Pair κ) (writer : End) (entries : List (Entry κ)) : Pair κ :=
  { pair with log := Function.update pair.log writer (pair.log writer ++ entries) }

def setQueue (pair : Pair κ) (writer : End) (queue : Queue κ) : Pair κ :=
  { pair with queue := Function.update pair.queue writer queue }

/-- `write_closed.store(true)`. -/
def setClosed (pair : Pair κ) (writer : End) : Pair κ :=
  { pair with writeClosed := Function.update pair.writeClosed writer true }

/-- `poll_read` up to the lock. -/
def pollRead (pair : Pair κ) (side : End) (capacity : Nat) (waker : κ) : Pair κ :=
  if room : capacity = 0 then pair.logs side.peer [.read 0 []]
  else pair.calls side (.reading capacity room waker)

/-- `poll_write` up to the lock. -/
def pollWrite (pair : Pair κ) (side : End) (buf : Bytes) : Pair κ :=
  if pair.peerGone side then
    pair.logs side [.wrote buf (.error ⟨.brokenPipe, "fake io: peer has shut down"⟩)]
  else if buf = [] then pair.logs side [.wrote [] (.ok 0)]
  else pair.calls side (.writing buf)

/-- `shutdown`, `poll_shutdown` or `drop` up to the lock. -/
def close (pair : Pair κ) (side : End) (how : Close) : Pair κ :=
  ((pair.setClosed side).logs side [.closes how]).calls side (.closing how)

/-- The reader takes the lock, and reads unless the queue is empty. -/
def lockAndRead (pair : Pair κ) (side : End) (capacity : Nat) (waker : κ) : Pair κ :=
  let queue := pair.queue side.peer
  let n := min queue.bytes.length capacity
  if n = 0 then pair.calls side (.checking capacity waker)
  else ((pair.setQueue side.peer { queue with bytes := queue.bytes.drop n }).logs side.peer
    [.read capacity (queue.bytes.take n)]).calls side .idle

/-- The reader of an empty queue looks whether the peer is closed. -/
def check (pair : Pair κ) (side : End) (capacity : Nat) (waker : κ) : Pair κ :=
  if pair.peerGone side then (pair.logs side.peer [.read capacity []]).calls side .idle
  else pair.calls side (.registering waker)

def register (pair : Pair κ) (side : End) (waker : κ) : Pair κ :=
  ((pair.setQueue side.peer { pair.queue side.peer with readerWaker := some waker }).logs side.peer
    [.pending waker]).calls side .idle

/-- The writer has the lock. -/
def extend (pair : Pair κ) (side : End) (buf : Bytes) : Pair κ :=
  let (queue, woken) := { pair.queue side with bytes := (pair.queue side).bytes ++ buf }.wakeReader
  ((pair.setQueue side queue).logs side (woken ++ [.wrote buf (.ok buf.length)])).calls side .idle

/-- The end that closes has the lock. -/
def wakeAndLeave (pair : Pair κ) (side : End) (how : Close) : Pair κ :=
  let (queue, woken) := (pair.queue side).wakeReader
  ((pair.setQueue side queue).logs side (woken ++ [.closed how])).calls side how.leaves

/-- The next access of the call that an end is in; there is none while the queue is locked. -/
def proceed (pair : Pair κ) (side : End) : Option (Pair κ) :=
  match pair.call side with
  | .reading capacity _ waker => some (pair.lockAndRead side capacity waker)
  | .checking capacity waker => some (pair.check side capacity waker)
  | .registering waker => some (pair.register side waker)
  | .writing buf => if pair.locked side then none else some (pair.extend side buf)
  | .closing how => if pair.locked side then none else some (pair.wakeAndLeave side how)
  | .idle | .dropped => none

/-- Both ends take `&mut self`, so an end starts a call only between its calls. -/
def whenIdle (pair next : Pair κ) (side : End) : Option (Pair κ) :=
  match pair.call side with
  | .idle => some next
  | .reading _ _ _ | .checking _ _ | .registering _ | .writing _ | .closing _ | .dropped => none

def step (pair : Pair κ) : Event κ → Option (Pair κ)
  | .pollRead side capacity waker => pair.whenIdle (pair.pollRead side capacity waker) side
  | .pollWrite side buf => pair.whenIdle (pair.pollWrite side buf) side
  | .close side how => pair.whenIdle (pair.close side how) side
  | .proceed side => pair.proceed side

end Pair

def ioPair : Pair κ where
  queue _ := ⟨[], none⟩
  writeClosed _ := false
  call _ := .idle
  log _ := []

end FakeIo

end TptAsync.Io
