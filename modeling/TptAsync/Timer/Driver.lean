import Mathlib.Logic.Relation
import TptAsync.Timer.Futures

set_option autoImplicit false

/-!
# The timer driver

The background thread of `driver.rs`, which advances the global wheel to the clock, and
the futures that read the wheel. Each step is one critical section of the wheel's lock,
one reading of the clock, or the passing of time.
-/

namespace TptAsync.Timer

open Lib

variable {Waker : Type}

/-- The shape of `GlobalWheel`. -/
def globalShape : Shape where
  slots := 256
  levels := 4
  twoLeSlots := by decide
  oneLeLevels := by decide

structure Duration where
  secs : Nat
  nanos : Nat
  nanosLt : nanos < 10 ^ 9

def Duration.asMillis (dur : Duration) : Nat := dur.secs * 1000 + dur.nanos / 10 ^ 6

/-- Milliseconds per wheel tick. -/
def tickMs : Nat := 1

/-- Whole ticks of a duration; the cast to `u64` drops the high bits. -/
def ticksFor (dur : Duration) : Nat := dur.asMillis % 2 ^ 64 / tickMs

/-- The entry of the future that `sleep` returns. -/
def sleep (wheel : TimerWheel Waker) (dur : Duration) : TimerEntry Waker :=
  .new (U64.wrappingAdd wheel.now (ticksFor dur))

/-- The entry of the future that `timeout` returns. -/
def timeout (wheel : TimerWheel Waker) (dur : Duration) : TimerEntry Waker :=
  .new (U64.wrappingAdd wheel.now (ticksFor dur))

/-- How long the driver parks at most, given the deadline it found and the tick it reads. -/
def capMs (deadline : Option Nat) (now : Nat) : Nat := min ((deadline.map (· - now)).getD 100) 100

/-- Where the driver thread stands in its loop. -/
inductive Phase where
  | reading
  | advancing (target : Nat)
  | inspecting
  | capping (deadline : Option Nat)
  | parked (capMs : Nat)

/-- The driver's clock in milliseconds, the global wheel, the driver thread, and the
`registered` flags of the timer futures by the addresses of their entries. -/
structure World (Waker : Type) where
  clock : Nat
  wheel : TimerWheel Waker
  phase : Phase
  registered : Addr → Bool

namespace World

def initial : World Waker where
  clock := 0
  wheel := .new
  phase := .reading
  registered _ := false

/-- One step of `driver_loop`. A parked driver may go on at any time: its wait ends by
timeout, by a registration, or spuriously. -/
def driverStep (world : World Waker) : Option (World Waker) :=
  match world.phase with
  | .reading => some { world with phase := .advancing world.clock }
  | .advancing target => do
      let wheel ← world.wheel.advanceTo globalShape target
      some { world with wheel, phase := .inspecting }
  | .inspecting => some { world with phase := .capping (world.wheel.nextDeadline globalShape) }
  | .capping deadline => some { world with phase := .parked (capMs deadline world.wheel.now) }
  | .parked _ => some { world with phase := .reading }

inductive Step : World Waker → World Waker → Prop
  | elapse {world : World Waker} (later : Nat) (monotone : world.clock ≤ later)
      (fits : later ≤ U64.max) : Step world { world with clock := later }
  | driver {world next : World Waker} (stepped : world.driverStep = some next) : Step world next
  /-- A future that is not registered gets a deadline. -/
  | own {world : World Waker} (entry : Addr) (deadline : Nat)
      (idle : world.registered entry = false) (fits : deadline ≤ U64.max) :
      Step world { world with wheel := world.wheel.own entry deadline none }
  | sleepPoll {world : World Waker} {entry : Addr} {waker : Waker} {poll : Poll Unit}
      {sleep : Sleep} {wheel : TimerWheel Waker}
      (polled : Sleep.poll globalShape world.wheel ⟨entry, world.registered entry⟩ waker =
        some (poll, sleep, wheel)) :
      Step world { world with
        wheel, registered := Function.update world.registered entry sleep.registered }
  | timeoutPoll {Output : Type} {world : World Waker} {entry : Addr} {inner : Poll Output}
      {waker : Waker} {poll : Poll (Except TimedOut Output)} {timeout : Timeout}
      {wheel : TimerWheel Waker}
      (polled : Timeout.poll globalShape world.wheel ⟨entry, world.registered entry⟩ inner waker =
        some (poll, timeout, wheel)) :
      Step world { world with
        wheel, registered := Function.update world.registered entry timeout.registered }
  | drop {world : World Waker} {entry : Addr} {wheel : TimerWheel Waker}
      (dropped : Sleep.drop world.wheel ⟨entry, world.registered entry⟩ = some wheel) :
      Step world { world with wheel, registered := Function.update world.registered entry false }

abbrev Run : World Waker → World Waker → Prop := Relation.ReflTransGen Step

def Reachable (world : World Waker) : Prop := Run initial world

/-- From now on, the wheel reaches `deadline` only once `millis` have passed. -/
def NeverEarly (world : World Waker) (deadline millis : Nat) : Prop :=
  ∀ later, Run world later → deadline ≤ later.wheel.now → world.clock + millis ≤ later.clock

end World

end TptAsync.Timer
