import TptAsync.Timer.Deadlines

set_option autoImplicit false

/-!
# Retrying

The future of `retry` (`retry.rs`), over a wheel that other timer futures use as well. The sleep
between two attempts is a part of the future, so its entry is at the same place every time.
-/

namespace TptAsync.Timer

open Lib Lib.U64

variable {Waker Output α ε : Type} {shape : Shape}

structure RetryPolicy where
  /-- A `u32`. -/
  maxAttempts : Nat
  fits : maxAttempts < 2 ^ 32
  /-- The delay behind an attempt, which is computed with floating-point numbers. No duration
  stands for a panic. -/
  delayFor : Nat → Option Duration

namespace RetryPolicy

/-- The delays are those of the default policy. -/
def new (maxAttempts : Nat) (fits : maxAttempts < 2 ^ 32) (delayFor : Nat → Option Duration) :
    RetryPolicy :=
  ⟨max maxAttempts 1, max_lt fits (by decide), delayFor⟩

/-- The entry of the sleep behind an attempt. -/
def sleepBehind (policy : RetryPolicy) (overflow : Overflow) (wheel : TimerWheel Waker) (attempt : Nat) :
    Option (TimerEntry Waker) := do
  let dur ← policy.delayFor attempt
  sleepIn overflow wheel dur

end RetryPolicy

/-- Where the future of `retry` stands. -/
inductive RetryPhase (α ε : Type) where
  | created
  /-- The future that `op` has returned is awaited. -/
  | calling (attempt : Nat)
  | sleeping (attempt : Nat) (sleep : Sleep)
  /-- The sleep has been polled to its end. -/
  | slept (attempt : Nat) (sleep : Sleep)
  | returned (result : Except ε α)
  | panicked
  | dropped

def RetryPhase.isOver : RetryPhase α ε → Bool
  | .returned _ | .panicked | .dropped => true
  | .created | .calling _ | .sleeping _ _ | .slept _ _ => false

/-- A future of `retry`, next to whatever else uses its wheel. -/
structure Retrying (Waker α ε : Type) where
  shared : Shared Waker
  /-- The entry of the sleep between two attempts. -/
  entry : Addr
  phase : RetryPhase α ε
  /-- The ticks at which `op` has been called. -/
  calls : List Nat
  /-- The ticks at which an attempt has failed, with the error. -/
  failures : List (Nat × ε)

inductive RetryEvent (Waker Output α ε : Type) where
  /-- The future is polled for the first time. -/
  | start
  /-- The future of `op` is polled. -/
  | pollOp (outcome : Poll (Except ε α))
  | pollSleep (waker : Waker)
  /-- The sleep that has ended is dropped, and the next attempt starts. -/
  | goOn
  | drop
  /-- An advance of the wheel, or a call of another future. -/
  | wheel (event : Event Waker Output)

namespace Retrying

def create (shared : Shared Waker) (entry : Addr) : Retrying Waker α ε := ⟨shared, entry, .created, [], []⟩

def callOp (state : Retrying Waker α ε) (attempt : Nat) : Retrying Waker α ε :=
  { state with phase := .calling attempt, calls := state.calls ++ [state.shared.wheel.now] }

/-- An attempt has failed: the error is returned, or a sleep begins. -/
def fail (policy : RetryPolicy) (overflow : Overflow) (state : Retrying Waker α ε) (attempt : Nat)
    (error : ε) : Retrying Waker α ε :=
  let failed := { state with failures := state.failures ++ [(state.shared.wheel.now, error)] }
  if policy.maxAttempts ≤ attempt then { failed with phase := .returned (.error error) }
  else
    match policy.sleepBehind overflow state.shared.wheel attempt with
    | some timer =>
        { failed with
          shared := state.shared.update state.entry
            (state.shared.wheel.own state.entry timer.deadline none) (some ⟨.sleep, false⟩) none
          phase := .sleeping attempt ⟨state.entry, false⟩ }
    | none => { failed with phase := .panicked }

/-- The sleep is dropped. -/
def dropSleep (state : Retrying Waker α ε) (sleep : Sleep) : Option (Retrying Waker α ε) := do
  let wheel ← sleep.drop state.shared.wheel
  some { state with shared := state.shared.update state.entry wheel none none }

variable (Output) in
/-- One poll, one critical section of the wheel's lock, or one event elsewhere: nobody else reaches
the entry of the future. -/
def step (policy : RetryPolicy) (overflow : Overflow) (shape : Shape) (state : Retrying Waker α ε) :
    RetryEvent Waker Output α ε → Option (Retrying Waker α ε)
  | .start =>
      match state.phase with
      | .created => some (state.callOp 1)
      | _ => none
  | .pollOp outcome =>
      match state.phase with
      | .calling attempt =>
          match outcome with
          | .pending => some state
          | .ready (.ok value) => some { state with phase := .returned (.ok value) }
          | .ready (.error error) => some (state.fail policy overflow attempt error)
      | _ => none
  | .pollSleep waker =>
      match state.phase with
      | .sleeping attempt sleep => do
          let (poll, sleep, wheel) ← sleep.poll shape state.shared.wheel waker
          some { state with
            shared := state.shared.update state.entry wheel (some ⟨.sleep, sleep.registered⟩)
              (poll.awaits waker)
            phase := match poll with
              | .pending => .sleeping attempt sleep
              | .ready () => .slept attempt sleep }
      | _ => none
  | .goOn =>
      match state.phase with
      | .slept attempt sleep => do
          let woken ← state.dropSleep sleep
          some (woken.callOp (attempt + 1))
      | _ => none
  | .drop =>
      match state.phase with
      | .sleeping _ sleep | .slept _ sleep => do
          let left ← state.dropSleep sleep
          some { left with phase := .dropped }
      | .created | .calling _ => some { state with phase := .dropped }
      | .returned _ | .panicked | .dropped => none
  | .wheel event =>
      if event.subject = some state.entry then none
      else do some { state with shared := ← state.shared.step shape event }

end Retrying

end TptAsync.Timer
