import TptAsync.Timer.SharedEffects

set_option autoImplicit false

/-!
# Intervals

`Interval` of `interval.rs`, over a wheel that other timer futures use as well.
-/

namespace TptAsync.Timer

open Lib

variable {Waker Output : Type} {shape : Shape}

inductive MissedTickBehavior where
  | burst
  | delay
  | skip
  deriving DecidableEq

/-- The next deadline after `old` was missed at wheel time `now`. -/
def MissedTickBehavior.nextDeadline (behavior : MissedTickBehavior) (old period now : Nat) : Nat :=
  match behavior with
  | .burst => U64.saturatingAdd old period
  | .delay => U64.saturatingAdd now period
  | .skip =>
      let aligned := U64.wrappingAdd (now / period * period) period
      max aligned (U64.saturatingAdd old period)

/-- The re-armed sleep with its period, which `Interval::new` asserts to be positive. -/
structure Interval where
  sleep : Sleep
  period : Nat
  behavior : MissedTickBehavior
  positive : 0 < period

namespace Interval

/-- The first tick is `period` ticks from now. A sum that does not fit panics. -/
def new (wheel : TimerWheel Waker) (entry : Addr) (period : Nat) :
    Option (Interval × TimerWheel Waker) :=
  if positive : 0 < period then
    let now := wheel.now
    if now + period ≤ U64.max then
      some (⟨⟨entry, false⟩, period, .skip, positive⟩, wheel.own entry (now + period) none)
    else none
  else none

def missedTickBehavior (interval : Interval) (behavior : MissedTickBehavior) : Interval :=
  { interval with behavior }

def nextDeadline (interval : Interval) (wheel : TimerWheel Waker) : Nat :=
  (wheel.entries interval.sleep.entry).deadline

def pollTick (shape : Shape) (interval : Interval) (wheel : TimerWheel Waker) (waker : Waker) :
    Option (Poll Unit × Interval × TimerWheel Waker) := do
  let (poll, sleep, polled) ← interval.sleep.poll shape wheel waker
  match poll with
  | .pending => some (.pending, { interval with sleep }, polled)
  | .ready () =>
      let old := (polled.entries sleep.entry).deadline
      let now := polled.now
      let next := interval.behavior.nextDeadline old interval.period now
      let (rearmed, reset) ← sleep.reset polled next
      some (.ready (), { interval with sleep := rearmed }, reset)

/-- Nothing but the sleep is to be dropped. -/
def drop (interval : Interval) (wheel : TimerWheel Waker) : Option (TimerWheel Waker) :=
  interval.sleep.drop wheel

end Interval

/-- An interval, next to whatever else uses its wheel. -/
structure Ticking (Waker : Type) where
  shared : Shared Waker
  interval : Interval

inductive TickingEvent (Waker Output : Type) where
  | pollTick (waker : Waker)
  /-- An advance of the wheel, or a call of another future. -/
  | wheel (event : Event Waker Output)

namespace Ticking

def nextDeadline (state : Ticking Waker) : Nat :=
  state.interval.nextDeadline state.shared.wheel

/-- What a call leaves behind that returned `poll`. -/
def after (state : Ticking Waker) (poll : Poll Unit) (interval : Interval)
    (wheel : TimerWheel Waker) (waker : Waker) : Ticking Waker where
  shared := state.shared.update interval.sleep.entry wheel (some ⟨.sleep, interval.sleep.registered⟩)
    (poll.awaits waker)
  interval := interval

/-- A new interval at an entry that nothing uses yet. -/
def create (shared : Shared Waker) (entry : Addr) (period : Nat) : Option (Ticking Waker) :=
  if shared.free entry then do
    let (interval, wheel) ← Interval.new shared.wheel entry period
    some ⟨shared.update entry wheel (some ⟨.sleep, false⟩) none, interval⟩
  else none

/-- One call, or one event elsewhere: nobody else reaches the entry of the interval. -/
def step (shape : Shape) (state : Ticking Waker) : TickingEvent Waker Output → Option (Ticking Waker)
  | .pollTick waker => do
      let (poll, interval, wheel) ← state.interval.pollTick shape state.shared.wheel waker
      some (state.after poll interval wheel waker)
  | .wheel event =>
      if event.subject = some state.interval.sleep.entry then none
      else do some { state with shared := ← state.shared.step shape event }

end Ticking

end TptAsync.Timer
