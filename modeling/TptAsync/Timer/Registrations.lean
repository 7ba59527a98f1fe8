import TptAsync.Timer.Driver
import TptAsync.Timer.Shared

set_option autoImplicit false

/-!
# Registrations with the timer driver

The driver thread of `driver.rs` beside the threads that poll timer futures. Each step is one
critical section, of the wheel's lock or of the lock of `REGISTRATIONS`.
-/

namespace TptAsync.Timer

variable {Waker Output : Type}

/-- Where the driver thread stands in its loop. Its waits end at a tick that is reckoned from the one
it has advanced the wheel to. -/
inductive DriverStage where
  | reading
  | inspecting
  | capping (deadline : Option Nat)
  | locking (capMs : Nat)
  | parked (wakeAt : Nat)
  deriving DecidableEq

namespace DriverStage

/-- The end of a wait that is settled and has not begun. -/
def settled (now : Nat) : DriverStage → Option Nat
  | .reading | .inspecting | .parked _ => none
  | .capping deadline => some (now + capMs deadline now)
  | .locking capMs => some (now + capMs)

/-- The end of a wait that goes on. -/
def waiting : DriverStage → Option Nat
  | .reading | .inspecting | .capping _ | .locking _ => none
  | .parked wakeAt => some wakeAt

/-- `notify_all` ends a wait. -/
def notified : DriverStage → DriverStage
  | .parked _ => .reading
  | stage => stage

end DriverStage

/-- The global wheel with its futures, the driver, and the counter of registrations, which nobody
reads. -/
structure Registry (Waker : Type) where
  shared : Shared Waker
  stage : DriverStage
  registrations : Nat
  /-- The entries that a poll has inserted that has not called `on_registration` yet. -/
  unannounced : List Addr

inductive RegistryEvent (Waker Output : Type) where
  /-- A call of a timer future. -/
  | future (event : Event Waker Output)
  /-- The rest of a poll that has inserted its entry. -/
  | onRegistration (entry : Addr)
  | advance (now : UInt64)
  | inspect
  | cap
  | park
  /-- The wait ends, by timeout or spuriously. -/
  | unpark

/-- Timer futures alone reach the global wheel. -/
def Event.future : Event Waker Output → Option Addr
  | .create entry _ _ | .pollSleep entry _ | .pollTimeout entry _ _ | .reset entry _
  | .resetPinned entry _ | .drop entry => some entry
  | .insert _ _ _ | .remove _ | .tick | .tickN _ | .advanceTo _ => none

def Shared.flag (state : Shared Waker) (entry : Addr) : Bool :=
  (state.futures entry).any TimerFuture.registered

namespace Registry

def initial : Registry Waker := ⟨.initial, .reading, 0, []⟩

/-- A poll that inserts its entry is not over before it has called `on_registration`. -/
def stepFuture (registry : Registry Waker) (event : Event Waker Output) : Option (Registry Waker) :=
  match event.future with
  | none => none
  | some entry =>
      if entry ∈ registry.unannounced then none
      else do
        let shared ← registry.shared.step globalShape event
        some { registry with
          shared
          unannounced :=
            if !registry.shared.flag entry && shared.flag entry then entry :: registry.unannounced
            else registry.unannounced }

def step (registry : Registry Waker) : RegistryEvent Waker Output → Option (Registry Waker)
  | .future event => registry.stepFuture event
  | .onRegistration entry =>
      if entry ∈ registry.unannounced then
        some { registry with
          stage := registry.stage.notified
          registrations := registry.registrations + 1
          unannounced := registry.unannounced.filter (· ≠ entry) }
      else none
  | .advance now =>
      match registry.stage with
      | .reading => do
          let shared ← registry.shared.step globalShape (.advanceTo now : Event Waker Output)
          some { registry with shared, stage := .inspecting }
      | _ => none
  | .inspect =>
      match registry.stage with
      | .inspecting =>
          some { registry with stage := .capping (registry.shared.wheel.nextDeadline globalShape) }
      | _ => none
  | .cap =>
      match registry.stage with
      | .capping deadline =>
          some { registry with stage := .locking (capMs deadline registry.shared.wheel.now) }
      | _ => none
  | .park =>
      match registry.stage with
      | .locking capMs => some { registry with stage := .parked (registry.shared.wheel.now + capMs) }
      | _ => none
  | .unpark =>
      match registry.stage with
      | .parked _ => some { registry with stage := .reading }
      | _ => none

/-- The entry of a timer future is in the wheel. -/
def Registered (registry : Registry Waker) (entry : Addr) : Prop :=
  (registry.shared.futures entry).isSome = true ∧
    (registry.shared.wheel.entries entry).isRegistered = true

/-- No wait of the driver ends later than the deadline of an entry that was inserted and whose
`on_registration` is over. -/
def NeverOversleeps (registry : Registry Waker) : Prop :=
  ∀ wakeAt, registry.stage.waiting = some wakeAt → ∀ entry, registry.Registered entry →
    entry ∉ registry.unannounced → wakeAt ≤ (registry.shared.wheel.entries entry).deadline

end Registry

end TptAsync.Timer
