import TptAsync.Timer.Futures

set_option autoImplicit false

/-!
# Flat timers

What a timer wheel is for: a plain list of timers, each with the tick at which it fires.
A timer fires at its deadline, or at the next tick when it was already due.
-/

namespace TptAsync.Timer

variable {Waker : Type}

/-- The operations on a wheel, each under the wheel's lock. `insert` registers a fresh
entry that its owner built with a deadline and perhaps a waker. -/
inductive Op (Waker : Type) where
  | insert (entry : Addr) (deadline : Nat) (waker : Option Waker)
  | remove (entry : Addr)
  | tick
  | tickN (count : Nat)
  | advanceTo (target : Nat)

structure FlatTimer where
  entry : Addr
  deadline : Nat
  due : Nat

/-- The timers in order of insertion, and the waker each entry holds. -/
structure FlatTimers (Waker : Type) where
  now : Nat
  timers : List FlatTimer
  wakers : Addr → Option Waker
  fired : List (Firing Waker)

namespace FlatTimers

def new : FlatTimers Waker where
  now := 0
  timers := []
  wakers _ := none
  fired := []

def registered (flat : FlatTimers Waker) (entry : Addr) : Bool :=
  flat.timers.any (·.entry == entry)

def insert (flat : FlatTimers Waker) (entry : Addr) (deadline : Nat) (waker : Option Waker) :
    FlatTimers Waker :=
  { flat with
    timers := flat.timers ++ [⟨entry, deadline, max deadline (flat.now + 1)⟩]
    wakers := Function.update flat.wakers entry waker }

def remove (flat : FlatTimers Waker) (entry : Addr) : FlatTimers Waker :=
  { flat with timers := flat.timers.filter (·.entry != entry) }

def dueNext (flat : FlatTimers Waker) : List FlatTimer :=
  flat.timers.filter (·.due == flat.now + 1)

def advanceOne (flat : FlatTimers Waker) : FlatTimers Waker where
  now := flat.now + 1
  timers := flat.timers.filter (·.due != flat.now + 1)
  wakers entry := if entry ∈ flat.dueNext.map (·.entry) then none else flat.wakers entry
  fired := flat.fired ++
    flat.dueNext.map fun timer => ⟨timer.due, timer.entry, flat.wakers timer.entry⟩

def advance : Nat → FlatTimers Waker → FlatTimers Waker
  | 0, flat => flat
  | count + 1, flat => advance count flat.advanceOne

/-- One operation; `none` when it breaks the contract of `insert`, which asks for an
unregistered entry. -/
def apply (flat : FlatTimers Waker) : Op Waker → Option (FlatTimers Waker)
  | .insert entry deadline waker =>
      if flat.registered entry then none else some (flat.insert entry deadline waker)
  | .remove entry => some (flat.remove entry)
  | .tick => some flat.advanceOne
  | .tickN count => some (advance count flat)
  | .advanceTo target => some (advance (target - flat.now) flat)

def run (flat : FlatTimers Waker) : List (Op Waker) → Option (FlatTimers Waker)
  | [] => some flat
  | op :: rest => do run (← flat.apply op) rest

end FlatTimers

namespace TimerWheel

/-- One operation on the wheel, under the same contract. -/
def apply (shape : Shape) (wheel : TimerWheel Waker) : Op Waker → Option (TimerWheel Waker)
  | .insert entry deadline waker =>
      if (wheel.entries entry).isRegistered then none
      else some (Inner.insert shape (wheel.own entry deadline waker) entry)
  | .remove entry => Inner.remove wheel entry
  | .tick => wheel.tick shape
  | .tickN count => tickN shape count wheel
  | .advanceTo target => advanceTo shape target wheel

def run (shape : Shape) (wheel : TimerWheel Waker) : List (Op Waker) → Option (TimerWheel Waker)
  | [] => some wheel
  | op :: rest => do run shape (← wheel.apply shape op) rest

end TimerWheel

end TptAsync.Timer
