import Mathlib.Data.Finset.Erase
import Mathlib.Data.Finset.Insert
import Mathlib.Logic.Function.Basic
import TptAsync.Lib.Transition

set_option autoImplicit false

/-!
# The local executor

`LocalExecutor` with the thread that owns it and all the threads that wake its tasks. The
owner's control is its stack of calls, and a step is one access of the owner or of one call
of a waker. What the futures do is left open: user code may spawn, drive the executor again
and return as it likes, and anyone may call any waker there is.
-/

namespace TptAsync.Executor

structure TaskState where
  done : Bool
  queued : Bool
  deriving DecidableEq, Repr

/-- What a call of a waker does next. -/
inductive WakeCall
  | loadDone (id : Nat)
  | swapQueued (id : Nat)
  /-- Push the id and notify, under the lock. -/
  | pushBack (id : Nat)
  | storeNotified (main : Nat)
  | notifyAll
  deriving DecidableEq, Repr

inductive BlockOnStep
  | swapNotified
  /-- The main future is being polled. -/
  | pollMain
  | lockQueue
  | park
  deriving DecidableEq, Repr

inductive PollTaskStep
  | remove
  | clearQueued
  /-- The body is being polled. -/
  | pollBody
  | storeDone
  /-- The body is being dropped. -/
  | dropEntry
  deriving DecidableEq, Repr

/-- A call on the stack of the owner, with what it does next. -/
inductive Frame
  | blockOn (main : Nat) (step : BlockOnStep)
  | pollScheduledTasks
  | pollTask (id : Nat) (step : PollTaskStep)
  | enqueue (id : Nat)
  deriving DecidableEq, Repr

/-- What is recorded of a run. -/
inductive Occurrence
  | woken (id : Nat)
  | pushed (id : Nat)
  | polled (id : Nat)
  /-- The id came out of the queue, and there was no such task any more. -/
  | skipped (id : Nat)
  deriving DecidableEq, Repr

structure LocalExecutor where
  queue : List Nat
  /-- The owner waits on `signal`. -/
  waiting : Bool
  /-- A `u64`, which no run lives to see wrap. -/
  nextId : Nat
  /-- The states that a task shares with its wakers. -/
  tasks : Nat → Option TaskState
  registry : Finset Nat
  /-- The flag of each call of `block_on`. -/
  notified : Nat → Bool
  nextMain : Nat
  /-- The tasks whose waker has been made. -/
  wakers : List Nat
  calls : List WakeCall
  frames : List Frame
  trace : List Occurrence

inductive Event
  | spawn
  | blockOn
  | runUntilStalled
  /-- The owner makes its next access. -/
  | run
  /-- The future that the owner polls returns. -/
  | returns (ready : Bool)
  | wake (id : Nat)
  | wakeMain (main : Nat)
  /-- A call of a waker makes its next access. -/
  | advance (call : WakeCall)
  deriving DecidableEq, Repr

namespace LocalExecutor

def new : LocalExecutor where
  queue := []
  waiting := false
  nextId := 1
  tasks _ := none
  registry := ∅
  notified _ := false
  nextMain := 0
  wakers := []
  calls := []
  frames := []
  trace := []

def setTask (executor : LocalExecutor) (id : Nat) (task : TaskState) : LocalExecutor :=
  { executor with tasks := Function.update executor.tasks id (some task) }

def record (executor : LocalExecutor) (occurrence : Occurrence) : LocalExecutor :=
  { executor with trace := executor.trace ++ [occurrence] }

def begin (executor : LocalExecutor) (call : WakeCall) : LocalExecutor :=
  { executor with calls := call :: executor.calls }

/-- Put an id at the end of the queue and notify. -/
def pushBack (executor : LocalExecutor) (id : Nat) : LocalExecutor :=
  { executor with queue := executor.queue ++ [id], waiting := false }.record (.pushed id)

/-- The rest of a call of a waker, which `executor` no longer lists. -/
def wakeTarget (executor : LocalExecutor) : WakeCall → Option LocalExecutor
  | .loadDone id => do
      let task ← executor.tasks id
      some (if task.done then executor else executor.begin (.swapQueued id))
  | .swapQueued id => do
      let task ← executor.tasks id
      let swapped := (executor.setTask id { task with queued := true }).record (.woken id)
      some (if task.queued then swapped else swapped.begin (.pushBack id))
  | .pushBack id => some (executor.pushBack id)
  | .storeNotified main =>
      some ({ executor with notified := Function.update executor.notified main true }.begin .notifyAll)
  | .notifyAll => some { executor with waiting := false }

def advance (executor : LocalExecutor) (call : WakeCall) : Option LocalExecutor :=
  if call ∈ executor.calls then { executor with calls := executor.calls.erase call }.wakeTarget call
  else none

/-- The owner runs code of its user. -/
def userCode : List Frame → Bool
  | [] | .blockOn _ .pollMain :: _ | .pollTask _ .pollBody :: _ | .pollTask _ .dropEntry :: _ => true
  | _ => false

/-- A new task is registered before the access that queues it. -/
def spawn (executor : LocalExecutor) : LocalExecutor :=
  let id := executor.nextId
  { executor.setTask id ⟨false, true⟩ with
    nextId := id + 1
    registry := insert id executor.registry
    frames := .enqueue id :: executor.frames }

def blockOn (executor : LocalExecutor) : LocalExecutor :=
  let main := executor.nextMain
  { executor with
    nextMain := main + 1
    notified := Function.update executor.notified main true
    frames := .blockOn main .swapNotified :: executor.frames }

def runUntilStalled (executor : LocalExecutor) : LocalExecutor :=
  { executor with frames := .pollScheduledTasks :: executor.frames }

/-- The next access of `block_on`. -/
def runBlockOn (executor : LocalExecutor) (main : Nat) (below : List Frame) :
    BlockOnStep → Option LocalExecutor
  | .swapNotified =>
      if executor.notified main then
        some { executor with
          notified := Function.update executor.notified main false
          frames := .blockOn main .pollMain :: below }
      else some { executor with frames := .pollScheduledTasks :: .blockOn main .lockQueue :: below }
  | .pollMain => none
  | .lockQueue =>
      if executor.notified main || !executor.queue.isEmpty then
        some { executor with frames := .blockOn main .swapNotified :: below }
      else some { executor with waiting := true, frames := .blockOn main .park :: below }
  -- The wait may end at any time, notified or not.
  | .park => some { executor with waiting := false, frames := .blockOn main .swapNotified :: below }

def runPollScheduledTasks (executor : LocalExecutor) (below : List Frame) : LocalExecutor :=
  match executor.queue with
  | [] => { executor with frames := below }
  | id :: queue => { executor with queue, frames := .pollTask id .remove :: .pollScheduledTasks :: below }

/-- The next access of `poll_task`. -/
def runPollTask (executor : LocalExecutor) (id : Nat) (below : List Frame) :
    PollTaskStep → Option LocalExecutor
  | .remove =>
      if id ∈ executor.registry then
        some { executor with
          registry := executor.registry.erase id
          frames := .pollTask id .clearQueued :: below }
      else some ({ executor with frames := below }.record (.skipped id))
  | .clearQueued => do
      let task ← executor.tasks id
      some ({ executor.setTask id { task with queued := false } with
        wakers := id :: executor.wakers
        frames := .pollTask id .pollBody :: below }.record (.polled id))
  | .pollBody => none
  | .storeDone => do
      let task ← executor.tasks id
      some { executor.setTask id { task with done := true } with
        frames := .pollTask id .dropEntry :: below }
  | .dropEntry => some { executor with frames := below }

def run (executor : LocalExecutor) : Option LocalExecutor :=
  match executor.frames with
  | [] => none
  | .blockOn main step :: below => executor.runBlockOn main below step
  | .pollScheduledTasks :: below => some (executor.runPollScheduledTasks below)
  | .pollTask id step :: below => executor.runPollTask id below step
  | .enqueue id :: below => some ({ executor with frames := below }.pushBack id)

def returns (executor : LocalExecutor) (ready : Bool) : Option LocalExecutor :=
  match executor.frames with
  | .blockOn main .pollMain :: below =>
      if ready then some { executor with frames := below }
      else some { executor with frames := .pollScheduledTasks :: .blockOn main .lockQueue :: below }
  | .pollTask id .pollBody :: below =>
      if ready then some { executor with frames := .pollTask id .storeDone :: below }
      else some { executor with registry := insert id executor.registry, frames := below }
  | _ => none

def step (executor : LocalExecutor) : Event → Option LocalExecutor
  | .spawn => if userCode executor.frames then some executor.spawn else none
  | .blockOn => if userCode executor.frames then some executor.blockOn else none
  | .runUntilStalled => if userCode executor.frames then some executor.runUntilStalled else none
  | .run => executor.run
  | .returns ready => executor.returns ready
  | .wake id => if id ∈ executor.wakers then some (executor.begin (.loadDone id)) else none
  | .wakeMain main => if main < executor.nextMain then some (executor.begin (.storeNotified main)) else none
  | .advance call => executor.advance call

/-- The steps of an executor that is not driven by code that it drives itself. -/
def stepUnnested (executor : LocalExecutor) (event : Event) : Option LocalExecutor :=
  match event with
  | .blockOn | .runUntilStalled => if executor.frames = [] then executor.step event else none
  | _ => executor.step event

end LocalExecutor

end TptAsync.Executor
