import TptAsync.Timer.Driver
import TptAsync.Timer.IntervalProperties

set_option autoImplicit false

/-!
# Deadline arithmetic

The sums behind the deadlines of `sleep`, `timeout`, `interval` and `next_deadline`, in a build
that panics when one does not fit and in one that drops the carry.
-/

namespace TptAsync.Timer

open Lib Lib.U64

variable {Waker : Type} {overflow : Overflow} {period old now : Nat}

/-- Durations are compared by seconds, then by nanoseconds. -/
instance : LE Duration where
  le shorter longer :=
    shorter.secs < longer.secs ∨ shorter.secs = longer.secs ∧ shorter.nanos ≤ longer.nanos

theorem Duration.asMillis_mono {shorter longer : Duration} (le : shorter ≤ longer) :
    shorter.asMillis ≤ longer.asMillis := by
  unfold asMillis
  rcases le with earlier | ⟨same, nanos⟩
  · have := shorter.nanosLt
    omega
  · rw [same]
    exact Nat.add_le_add_left (Nat.div_le_div_right nanos) _

/-- The cast keeps a count of milliseconds that fits. -/
theorem ticksFor_eq {dur : Duration} (fits : dur.asMillis ≤ U64.max) : ticksFor dur = dur.asMillis := by
  rw [ticksFor, tickMs, Nat.div_one, Nat.mod_eq_of_lt (Nat.lt_of_le_pred (by decide) fits)]

section Build

variable (overflow : Overflow) (wheel : TimerWheel Waker) (dur : Duration)

/-- `sleep`, as a build computes its sum. -/
def sleepIn : Option (TimerEntry Waker) := do
  let deadline ← overflow.add wheel.now (ticksFor dur)
  some (.new deadline)

/-- `timeout`, as a build computes its sum. -/
def timeoutIn : Option (TimerEntry Waker) := do
  let deadline ← overflow.add wheel.now (ticksFor dur)
  some (.new deadline)

/-- `Interval::new`, as a build computes its sum. -/
def Interval.newIn (entry : Addr) (period : Nat) : Option (Interval × TimerWheel Waker) :=
  if positive : 0 < period then do
    let now := wheel.now
    let deadline ← overflow.add now period
    some (⟨⟨entry, false⟩, period, .skip, positive⟩, wheel.own entry deadline none)
  else none

/-- `interval`, over an entry of the wheel's memory. -/
def intervalIn (entry : Addr) : Option (Interval × TimerWheel Waker) :=
  Interval.newIn overflow wheel entry (max (ticksFor dur) 1)

/-- `next_deadline`, as a build computes its sum. A period of zero cannot be divided by. -/
def MissedTickBehavior.nextDeadlineIn (behavior : MissedTickBehavior) (old period now : Nat) :
    Option Nat :=
  match behavior with
  | .burst => some (saturatingAdd old period)
  | .delay => some (saturatingAdd now period)
  | .skip => do
      let periods ← if period = 0 then none else some (now / period)
      let aligned ← overflow.add (periods * period) period
      some (max aligned (saturatingAdd old period))

end Build

section Builds

variable {wheel : TimerWheel Waker} {dur : Duration}

theorem sleepIn_wraps : sleepIn .wraps wheel dur = some (sleep wheel dur) := rfl

theorem timeoutIn_wraps : timeoutIn .wraps wheel dur = some (timeout wheel dur) := rfl

theorem Interval.newIn_panics {entry : Addr} :
    Interval.newIn .panics wheel entry period = Interval.new wheel entry period := by
  unfold newIn new
  split
  · simp only [Overflow.add]
    split <;> rfl
  · rfl

theorem MissedTickBehavior.nextDeadlineIn_wraps {behavior : MissedTickBehavior} (positive : 0 < period) :
    behavior.nextDeadlineIn .wraps old period now = some (behavior.nextDeadline old period now) := by
  cases behavior with
  | burst => rfl
  | delay => rfl
  | skip =>
      rw [nextDeadlineIn, if_neg positive.ne']
      rfl

end Builds

/-- A way to compute a deadline is exact as long as the sum fits, and longer durations end no
earlier. -/
def Exact (deadline : Duration → Option Nat) (now : Nat) (ticks : Duration → Nat) : Prop :=
  ∀ dur, now + ticks dur ≤ U64.max → ∃ value, deadline dur = some value ∧ value = now + ticks dur ∧
    now ≤ value ∧ ∀ shorter ≤ dur, ∃ earlier, deadline shorter = some earlier ∧ earlier ≤ value

theorem Exact.of_sum {deadline : Duration → Option Nat} {ticks : Duration → Nat}
    (sum : ∀ dur, now + ticks dur ≤ U64.max → deadline dur = some (now + ticks dur))
    (mono : ∀ {shorter longer : Duration}, shorter ≤ longer → ticks shorter ≤ ticks longer) :
    Exact deadline now ticks := by
  intro dur fits
  refine ⟨_, sum dur fits, rfl, Nat.le_add_right _ _, fun shorter le => ?_⟩
  have earlier : now + ticks shorter ≤ now + ticks dur := Nat.add_le_add_left (mono le) now
  exact ⟨_, sum shorter (earlier.trans fits), earlier⟩

section Sums

variable {wheel : TimerWheel Waker}

theorem sleepIn_exact : Exact (fun dur => (sleepIn overflow wheel dur).map TimerEntry.deadline)
    wheel.now Duration.asMillis := by
  refine .of_sum (fun dur fits => ?_) Duration.asMillis_mono
  simp only [sleepIn, ticksFor_eq ((Nat.le_add_left _ _).trans fits), Overflow.add_eq fits]
  rfl

theorem timeoutIn_exact : Exact (fun dur => (timeoutIn overflow wheel dur).map TimerEntry.deadline)
    wheel.now Duration.asMillis :=
  sleepIn_exact

theorem intervalIn_exact {entry : Addr} :
    Exact (fun dur => (intervalIn overflow wheel dur entry).map fun made => made.1.nextDeadline made.2)
      wheel.now (fun dur => max dur.asMillis 1) := by
  refine .of_sum (fun dur fits => ?_) fun le => max_le_max_right 1 (Duration.asMillis_mono le)
  have millis : dur.asMillis ≤ U64.max := (le_max_left _ 1).trans ((Nat.le_add_left _ _).trans fits)
  have positive : 0 < max dur.asMillis 1 := Nat.lt_of_lt_of_le Nat.zero_lt_one (le_max_right _ _)
  simp only [intervalIn, Interval.newIn, ticksFor_eq millis, dif_pos positive, Overflow.add_eq fits]
  exact congrArg some (TimerWheel.own_deadline _ _ _ _)

/-- A sum that does not fit stops the build, or makes a deadline that has passed. The milliseconds
are counted as far as they fit by themselves. -/
theorem sleepIn_overflows {dur : Duration} {entry : TimerEntry Waker} (clock : wheel.now ≤ U64.max)
    (tooMuch : U64.max < wheel.now + ticksFor dur) (slept : sleepIn overflow wheel dur = some entry) :
    entry.deadline < wheel.now := by
  obtain ⟨deadline, sum, rest⟩ := Option.bind_eq_some_iff.mp slept
  cases rest
  have fits : ticksFor dur ≤ U64.max :=
    (Nat.div_le_self _ _).trans (Nat.le_pred_of_lt (Nat.mod_lt _ (by decide)))
  exact (Overflow.add_overflows tooMuch clock fits sum).1

end Sums

namespace MissedTickBehavior

theorem nextDeadlineIn_skip (positive : 0 < period) (aligned : now / period * period + period ≤ U64.max) :
    nextDeadlineIn overflow .skip old period now =
      some (max (now / period * period + period) (min (old + period) U64.max)) := by
  simp only [nextDeadlineIn, if_neg positive.ne', Option.bind_eq_bind, Option.bind_some,
    Overflow.add_eq aligned]
  rfl

end MissedTickBehavior

/-- Where the sums fit, `sleep` and `timeout` end exactly the whole milliseconds from now and
`interval` at least one tick from now. The next deadline is counted from the old one under `Burst`,
from now under `Delay`, and is ahead of now under `Skip`. -/
theorem deadlines_exact (overflow : Overflow) (wheel : TimerWheel Waker) (entry : Addr) :
    Exact (fun dur => (sleepIn overflow wheel dur).map TimerEntry.deadline) wheel.now
      Duration.asMillis ∧
    Exact (fun dur => (timeoutIn overflow wheel dur).map TimerEntry.deadline) wheel.now
      Duration.asMillis ∧
    Exact (fun dur => (intervalIn overflow wheel dur entry).map fun made => made.1.nextDeadline made.2)
      wheel.now (fun dur => max dur.asMillis 1) ∧
    ∀ old period now, old ≤ U64.max → now ≤ U64.max →
      (∃ value, MissedTickBehavior.nextDeadlineIn overflow .burst old period now = some value ∧
        value = min (old + period) U64.max ∧ old ≤ value) ∧
      (∃ value, MissedTickBehavior.nextDeadlineIn overflow .delay old period now = some value ∧
        value = min (now + period) U64.max ∧ now ≤ value) ∧
      (0 < period → now / period * period + period ≤ U64.max →
        ∃ value, MissedTickBehavior.nextDeadlineIn overflow .skip old period now = some value ∧
          value = max (now / period * period + period) (min (old + period) U64.max) ∧ now < value) := by
  refine ⟨sleepIn_exact, timeoutIn_exact, intervalIn_exact, fun old period now oldFits nowFits => ?_⟩
  refine ⟨⟨_, rfl, rfl, le_min (Nat.le_add_right _ _) oldFits⟩,
    ⟨_, rfl, rfl, le_min (Nat.le_add_right _ _) nowFits⟩, fun positive aligned => ?_⟩
  exact ⟨_, MissedTickBehavior.nextDeadlineIn_skip positive aligned, rfl,
    (Nat.lt_div_mul_add positive).trans_le (le_max_left _ _)⟩

/-- A sleep of a second and a half, and the next deadline of an interval of three ticks. -/
theorem deadlines_exact_short :
    (sleepIn .wraps (TimerWheel.new : TimerWheel Unit) ⟨1, 500000000, by decide⟩).map TimerEntry.deadline =
      some 1500 ∧
    ∃ value, MissedTickBehavior.nextDeadlineIn .wraps .skip 6 3 8 = some value ∧ 8 < value := by
  obtain ⟨sleeps, _, _, next⟩ := deadlines_exact .wraps (TimerWheel.new : TimerWheel Unit) 7
  obtain ⟨_, found, rfl, _⟩ := sleeps ⟨1, 500000000, by decide⟩ (by decide)
  obtain ⟨_, _, skips⟩ := next 6 3 8 (by decide) (by decide)
  obtain ⟨value, skipped, _, ahead⟩ := skips (by decide) (by decide)
  exact ⟨found, value, skipped, ahead⟩

/-- The longest sleep, taken at tick 1, stops a build or is in the past. An interval of no length
ticks every millisecond, and a bursting one goes on in the past. -/
theorem deadlines_not_saturating : ∃ wheel : TimerWheel Unit,
    (TimerWheel.new : TimerWheel Unit).tick globalShape = some wheel ∧ wheel.now = 1 ∧
    sleepIn .panics wheel ⟨2 ^ 64 - 1, 999999999, by decide⟩ = none ∧
    (sleepIn .wraps wheel ⟨2 ^ 64 - 1, 999999999, by decide⟩).map TimerEntry.deadline = some 0 ∧
    (∀ overflow, (intervalIn overflow wheel ⟨0, 0, by decide⟩ 7).map
      (fun made => made.1.nextDeadline made.2) = some 2) ∧
    ∀ overflow, MissedTickBehavior.nextDeadlineIn overflow .burst 3 3 8 = some 6 := by
  refine ⟨_, rfl, rfl, by decide, by decide, ?_, ?_⟩
  · rintro (_ | _) <;> rfl
  · rintro (_ | _) <;> rfl

end TptAsync.Timer
