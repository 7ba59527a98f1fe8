import TptAsync.Executor.Scheduler

set_option autoImplicit false

/-!
# Parking

`block_on` with the lock of the queue and the condition variable, one access at a time. The futures
that it polls do not drive the executor themselves. A call of a waker may be made by any thread.
-/

namespace TptAsync.Executor

inductive Target
  | main (main : Nat)
  | task (id : Nat)
  deriving DecidableEq

/-- What a call of a waker does next. From `push` to `unlock` it holds the lock. -/
inductive WakerStep
  | storeNotified
  | loadDone
  | swapQueued
  | lock
  | push
  | notify
  | unlock
  | finished
  deriving DecidableEq

structure WakerCall where
  target : Target
  step : WakerStep
  deriving DecidableEq

/-- Code of the user that the owner runs. -/
inductive UserCode
  | outside
  | main
  | body (id : Nat)
  /-- The body is being dropped. -/
  | drop (id : Nat)
  deriving DecidableEq

/-- What the owner does next. -/
inductive OwnerStep
  | user (code : UserCode)
  | enqueueLock (id : Nat) (code : UserCode)
  | enqueuePush (id : Nat) (code : UserCode)
  | enqueueNotify (id : Nat) (code : UserCode)
  | swapNotified
  | popLock
  | popFront
  | remove (id : Nat)
  | clearQueued (id : Nat)
  | storeDone (id : Nat)
  | parkLock
  | loadNotified
  | isEmpty
  /-- Let go of the lock and wait. -/
  | wait
  | waiting
  /-- The wait is over and takes the lock back. -/
  | relock
  | unlock
  deriving DecidableEq

/-- What is recorded of a run. -/
inductive Moment
  /-- A call of a main waker has set its flag. -/
  | stored (call : Nat)
  | completed (call : Nat)
  | polled (main : Nat)
  | waits (main : Nat)
  deriving DecidableEq

structure Parking where
  queue : List Nat
  locked : Bool
  notified : Nat → Bool
  nextId : Nat
  tasks : Nat → Option TaskState
  registry : Finset Nat
  wakers : List Nat
  /-- The last call of `block_on`. -/
  main : Nat
  /-- That call has not returned. -/
  blocking : Bool
  owner : OwnerStep
  calls : List WakerCall
  trace : List Moment

namespace Parking

inductive Event
  | spawn
  | blockOn
  | runUntilStalled
  /-- The owner makes its next access. -/
  | run
  /-- The code of the user returns. -/
  | returns (ready : Bool)
  /-- The wait ends without a notification. -/
  | timeout
  | wake (target : Target)
  /-- A call of a waker makes its next access. -/
  | advance (index : Nat)
  deriving DecidableEq

def new : Parking where
  queue := []
  locked := false
  notified _ := false
  nextId := 1
  tasks _ := none
  registry := ∅
  wakers := []
  main := 0
  blocking := false
  owner := .user .outside
  calls := []
  trace := []

def setTask (parking : Parking) (id : Nat) (task : TaskState) : Parking :=
  { parking with tasks := Function.update parking.tasks id (some task) }

def goTo (parking : Parking) (owner : OwnerStep) : Parking := { parking with owner }

def setCall (parking : Parking) (index : Nat) (call : WakerCall) (step : WakerStep) : Parking :=
  { parking with calls := parking.calls.set index { call with step } }

def record (parking : Parking) (moment : Moment) : Parking :=
  { parking with trace := parking.trace ++ [moment] }

/-- Take the lock, if it is free. -/
def acquire (parking : Parking) : Option Parking :=
  if parking.locked then none else some { parking with locked := true }

def release (parking : Parking) : Parking := { parking with locked := false }

/-- Whoever waits is woken. -/
def notifyAll (parking : Parking) : Parking :=
  if parking.owner = .waiting then parking.goTo .relock else parking

def spawn (parking : Parking) (code : UserCode) : Parking :=
  let id := parking.nextId
  { parking.setTask id ⟨false, true⟩ with
    nextId := id + 1
    registry := insert id parking.registry
    owner := .enqueueLock id code }

def blockOn (parking : Parking) : Parking :=
  let main := parking.main + 1
  { parking with
    main
    blocking := true
    notified := Function.update parking.notified main true
    owner := .swapNotified }

/-- The next access of the owner, unless it waits or is in the code of its user. -/
def runOwner (parking : Parking) : OwnerStep → Option Parking
  | .user _ | .waiting => none
  | .enqueueLock id code => parking.acquire.map (·.goTo (.enqueuePush id code))
  | .enqueuePush id code =>
      some ({ parking with queue := parking.queue ++ [id] }.release.goTo (.enqueueNotify id code))
  | .enqueueNotify _ code => some (parking.notifyAll.goTo (.user code))
  | .swapNotified =>
      if parking.notified parking.main then
        some (({ parking with notified := Function.update parking.notified parking.main false }.goTo
          (.user .main)).record (.polled parking.main))
      else some (parking.goTo .popLock)
  | .popLock => parking.acquire.map (·.goTo .popFront)
  | .popFront =>
      match parking.queue with
      | [] => some (parking.release.goTo (if parking.blocking then .parkLock else .user .outside))
      | id :: queue => some ({ parking with queue }.release.goTo (.remove id))
  | .remove id =>
      if id ∈ parking.registry then
        some ({ parking with registry := parking.registry.erase id }.goTo (.clearQueued id))
      else some (parking.goTo .popLock)
  | .clearQueued id => do
      let task ← parking.tasks id
      some ({ parking.setTask id { task with queued := false } with
        wakers := id :: parking.wakers }.goTo (.user (.body id)))
  | .storeDone id => do
      let task ← parking.tasks id
      some ((parking.setTask id { task with done := true }).goTo (.user (.drop id)))
  | .parkLock => parking.acquire.map (·.goTo .loadNotified)
  | .loadNotified => some (parking.goTo (if parking.notified parking.main then .unlock else .isEmpty))
  | .isEmpty => some (parking.goTo (if parking.queue.isEmpty then .wait else .unlock))
  | .wait => some ((parking.release.goTo .waiting).record (.waits parking.main))
  | .relock => parking.acquire.map (·.goTo .unlock)
  | .unlock => some (parking.release.goTo .swapNotified)

/-- The code of the user returns. -/
def returns (parking : Parking) (ready : Bool) : UserCode → Option Parking
  | .outside => none
  | .main =>
      if ready then some ({ parking with blocking := false }.goTo (.user .outside))
      else some (parking.goTo .popLock)
  | .body id =>
      if ready then some (parking.goTo (.storeDone id))
      else some ({ parking with registry := insert id parking.registry }.goTo .popLock)
  | .drop _ => some (parking.goTo .popLock)

/-- The next access of a call of a waker. -/
def advance (parking : Parking) (index : Nat) (call : WakerCall) : Option Parking :=
  match call.step, call.target with
  | .storeNotified, .main main =>
      some (({ parking with notified := Function.update parking.notified main true }.setCall index call
        .lock).record (.stored index))
  | .loadDone, .task id => do
      let task ← parking.tasks id
      some (parking.setCall index call (if task.done then .finished else .swapQueued))
  | .swapQueued, .task id => do
      let task ← parking.tasks id
      some ((parking.setTask id { task with queued := true }).setCall index call
        (if task.queued then .finished else .lock))
  | .lock, .main _ => parking.acquire.map (·.setCall index call .notify)
  | .lock, .task _ => parking.acquire.map (·.setCall index call .push)
  | .push, .task id =>
      some ({ parking with queue := parking.queue ++ [id] }.setCall index call .notify)
  | .notify, _ => some (parking.notifyAll.setCall index call .unlock)
  | .unlock, _ => some ((parking.release.setCall index call .finished).record (.completed index))
  | _, _ => none

/-- A waker that there is. -/
def known (parking : Parking) : Target → Bool
  | .main main => main ≤ parking.main
  | .task id => id ∈ parking.wakers

def firstStep : Target → WakerStep
  | .main _ => .storeNotified
  | .task _ => .loadDone

def step (parking : Parking) : Event → Option Parking
  | .spawn =>
      match parking.owner with
      | .user code => some (parking.spawn code)
      | _ => none
  | .blockOn => if parking.owner = .user .outside then some parking.blockOn else none
  | .runUntilStalled => if parking.owner = .user .outside then some (parking.goTo .popLock) else none
  | .run => parking.runOwner parking.owner
  | .returns ready =>
      match parking.owner with
      | .user code => parking.returns ready code
      | _ => none
  | .timeout => if parking.owner = .waiting then some (parking.goTo .relock) else none
  | .wake target =>
      if parking.known target then
        some { parking with calls := parking.calls ++ [⟨target, firstStep target⟩] }
      else none
  | .advance index => parking.calls[index]?.bind (parking.advance index)

end Parking

end TptAsync.Executor
