import TptAsync.Timer.Wheel

set_option autoImplicit false

/-!
# Timer futures

`Sleep` and `Timeout` of `sleep.rs` and `timeout.rs`. Their entries live in the wheel's
memory, so a future is the address of its entry and its own `registered` flag.
-/

namespace TptAsync.Timer

variable {Waker : Type}

inductive Poll (Output : Type) where
  | ready (output : Output)
  | pending

inductive TimedOut where
  | timedOut

structure Sleep where
  entry : Addr
  registered : Bool

structure Timeout where
  entry : Addr
  registered : Bool

/-- Write a fresh entry, as `Sleep::new`, `Sleep::reset` and `Timeout::new` do. -/
def TimerWheel.own (wheel : TimerWheel Waker) (entry : Addr) (deadline : Nat)
    (waker : Option Waker) : TimerWheel Waker :=
  { wheel with
    entries := Function.update wheel.entries entry
      { (TimerEntry.new deadline : TimerEntry Waker) with waker } }

@[simp] theorem TimerWheel.own_deadline (wheel : TimerWheel Waker) (entry : Addr) (deadline : Nat)
    (waker : Option Waker) : ((wheel.own entry deadline waker).entries entry).deadline = deadline := by
  simp [own, TimerEntry.new]

/-- Wakers that `will_wake` each other are identified, so the waker is always stored. -/
def TimerWheel.setWaker (wheel : TimerWheel Waker) (entry : Addr) (waker : Waker) :
    TimerWheel Waker :=
  { wheel with
    entries := Function.update wheel.entries entry
      { wheel.entries entry with waker := some waker } }

/-- What both polls do under the wheel's lock; the flag tells whether the deadline is
reached. -/
def TimerWheel.pollDeadline (shape : Shape) (wheel : TimerWheel Waker) (entry : Addr)
    (registered : Bool) (waker : Waker) : Option (Bool × TimerWheel Waker) :=
  if (wheel.entries entry).deadline ≤ wheel.now then do
    some (true, ← Inner.remove wheel entry)
  else
    let stored := wheel.setWaker entry waker
    if registered then some (false, stored) else some (false, Inner.insert shape stored entry)

def Sleep.poll (shape : Shape) (wheel : TimerWheel Waker) (sleep : Sleep) (waker : Waker) :
    Option (Poll Unit × Sleep × TimerWheel Waker) := do
  let (reached, polled) ← wheel.pollDeadline shape sleep.entry sleep.registered waker
  if reached then some (.ready (), { sleep with registered := false }, polled)
  else some (.pending, { sleep with registered := true }, polled)

/-- The wrapped future is polled first; `inner` is what its poll returned. -/
def Timeout.poll {Output : Type} (shape : Shape) (wheel : TimerWheel Waker) (timeout : Timeout)
    (inner : Poll Output) (waker : Waker) :
    Option (Poll (Except TimedOut Output) × Timeout × TimerWheel Waker) :=
  match inner with
  | .ready output => do
      let removed ← Inner.remove wheel timeout.entry
      some (.ready (.ok output), { timeout with registered := false }, removed)
  | .pending => do
      let (reached, polled) ← wheel.pollDeadline shape timeout.entry timeout.registered waker
      if reached then
        some (.ready (.error .timedOut), { timeout with registered := false }, polled)
      else some (.pending, { timeout with registered := true }, polled)

/-- Re-arm a sleep: its stale registration goes, and it starts anew. -/
def Sleep.reset (wheel : TimerWheel Waker) (sleep : Sleep) (deadline : Nat) :
    Option (Sleep × TimerWheel Waker) := do
  let removed ← Inner.remove wheel sleep.entry
  some ({ sleep with registered := false }, TimerWheel.own removed sleep.entry deadline none)

def Sleep.resetPinned (wheel : TimerWheel Waker) (sleep : Sleep) (deadline : Nat) :
    Option (Sleep × TimerWheel Waker) :=
  sleep.reset wheel deadline

def Sleep.drop (wheel : TimerWheel Waker) (sleep : Sleep) : Option (TimerWheel Waker) :=
  Inner.remove wheel sleep.entry

def Timeout.drop (wheel : TimerWheel Waker) (timeout : Timeout) : Option (TimerWheel Waker) :=
  Inner.remove wheel timeout.entry

end TptAsync.Timer
