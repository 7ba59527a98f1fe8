import TptAsync.Lib.Transition
import TptAsync.Timer.Futures

set_option autoImplicit false

/-!
# A shared wheel

One wheel, the timer futures registered in it, and whoever else inserts entries by hand.
Each event is one critical section of the wheel's lock, so their order is arbitrary.
-/

namespace TptAsync.Timer

open Lib

variable {Waker Output : Type} {shape : Shape}

inductive FutureKind where
  | sleep
  | timeout
  deriving DecidableEq

/-- What a timer future holds besides its entry and the future it wraps. -/
structure TimerFuture where
  kind : FutureKind
  registered : Bool

/-- The futures by the addresses of their entries. An entry is `awaiting` a waker when the
last poll of its future was given that waker and returned `Pending`, and the future has
been neither reset nor dropped since. -/
structure Shared (Waker : Type) where
  wheel : TimerWheel Waker
  futures : Addr → Option TimerFuture
  awaiting : Addr → Option Waker

/-- What may happen to the wheel; the wrapped future of a timeout has been polled before,
with the outcome `inner`. -/
inductive Event (Waker Output : Type) where
  | create (entry : Addr) (kind : FutureKind) (deadline : UInt64)
  | pollSleep (entry : Addr) (waker : Waker)
  | pollTimeout (entry : Addr) (inner : Poll Output) (waker : Waker)
  | reset (entry : Addr) (deadline : UInt64)
  | resetPinned (entry : Addr) (deadline : UInt64)
  | drop (entry : Addr)
  | insert (entry : Addr) (deadline : UInt64) (waker : Option Waker)
  | remove (entry : Addr)
  | tick
  | tickN (count : Nat)
  | advanceTo (target : UInt64)

def Poll.awaits {Result : Type} (poll : Poll Result) (waker : Waker) : Option Waker :=
  match poll with
  | .ready _ => none
  | .pending => some waker

namespace Shared

def initial : Shared Waker where
  wheel := .new
  futures _ := none
  awaiting _ := none

/-- The future behind an entry after a call that left it with `registered` set so. -/
def update (state : Shared Waker) (entry : Addr) (wheel : TimerWheel Waker)
    (future : Option TimerFuture) (awaiting : Option Waker) : Shared Waker where
  wheel := wheel
  futures := Function.update state.futures entry future
  awaiting := Function.update state.awaiting entry awaiting

/-- Memory that neither a future nor the wheel uses. -/
def free (state : Shared Waker) (entry : Addr) : Bool :=
  (state.futures entry).isNone && !(state.wheel.entries entry).isRegistered

/-- One event, `none` where it cannot happen: a call on something that is not there, an
`insert` against its contract, or one that lets the tick counter overflow, which panics. -/
def step (shape : Shape) (state : Shared Waker) : Event Waker Output → Option (Shared Waker)
  | .create entry kind deadline =>
      if state.free entry then
        some (state.update entry (state.wheel.own entry deadline.toNat none) (some ⟨kind, false⟩) none)
      else none
  | .pollSleep entry waker =>
      match state.futures entry with
      | some ⟨.sleep, registered⟩ => do
          let (poll, sleep, wheel) ← Sleep.poll shape state.wheel ⟨entry, registered⟩ waker
          some (state.update entry wheel (some ⟨.sleep, sleep.registered⟩) (poll.awaits waker))
      | _ => none
  | .pollTimeout entry inner waker =>
      match state.futures entry with
      | some ⟨.timeout, registered⟩ => do
          let (poll, timeout, wheel) ← Timeout.poll shape state.wheel ⟨entry, registered⟩ inner waker
          some (state.update entry wheel (some ⟨.timeout, timeout.registered⟩) (poll.awaits waker))
      | _ => none
  | .reset entry deadline =>
      match state.futures entry with
      | some ⟨.sleep, registered⟩ => do
          let (sleep, wheel) ← Sleep.reset state.wheel ⟨entry, registered⟩ deadline.toNat
          some (state.update entry wheel (some ⟨.sleep, sleep.registered⟩) none)
      | _ => none
  | .resetPinned entry deadline =>
      match state.futures entry with
      | some ⟨.sleep, registered⟩ => do
          let (sleep, wheel) ← Sleep.resetPinned state.wheel ⟨entry, registered⟩ deadline.toNat
          some (state.update entry wheel (some ⟨.sleep, sleep.registered⟩) none)
      | _ => none
  | .drop entry =>
      match state.futures entry with
      | some ⟨.sleep, registered⟩ => do
          some (state.update entry (← Sleep.drop state.wheel ⟨entry, registered⟩) none none)
      | some ⟨.timeout, registered⟩ => do
          some (state.update entry (← Timeout.drop state.wheel ⟨entry, registered⟩) none none)
      | none => none
  | .insert entry deadline waker =>
      if state.free entry ∧ state.wheel.now < U64.max then
        some { state with
          wheel := Inner.insert shape (state.wheel.own entry deadline.toNat waker) entry }
      else none
  | .remove entry =>
      match state.futures entry with
      | some _ => none
      | none => do some { state with wheel := ← Inner.remove state.wheel entry }
  | .tick =>
      if state.wheel.now < U64.max then do
        some { state with wheel := ← state.wheel.tick shape }
      else none
  | .tickN count =>
      if state.wheel.now + count ≤ U64.max then do
        some { state with wheel := ← state.wheel.tickN shape count }
      else none
  | .advanceTo target => do
      some { state with wheel := ← state.wheel.advanceTo shape target.toNat }

end Shared

end TptAsync.Timer
