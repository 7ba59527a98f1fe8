import TptAsync.Core.Task
import TptAsync.Executor.Scheduler
import TptAsync.Lib.Routine

set_option autoImplicit false

/-!
# Routines on an executor

`block_on` with a main future that spawns tasks and awaits their handles, as these do. All of it runs
on the thread of the executor: a wake runs to its end where it is called.
-/

namespace TptAsync.Executor

open Lib

/-- What a waker should wake. -/
inductive Sleeper
  | main
  | task (id : Nat)
  deriving DecidableEq, Repr

/-- Two wakers of one target are as good as each other. -/
instance : Core.Waker Sleeper := ⟨fun slot waker => slot = waker⟩

namespace LocalExecutor

/-- Finish the calls of wakers. -/
def settle : Nat → LocalExecutor → Option LocalExecutor
  | 0, executor => some executor
  | rounds + 1, executor =>
      match executor.calls with
      | [] => some executor
      | call :: _ => do settle rounds (← executor.advance call)

/-- A call of a waker makes three accesses at most. -/
def wakeNow (executor : LocalExecutor) (target : Sleeper) : Option LocalExecutor := do
  let called ← executor.step (match target with
    | .main => .wakeMain 0
    | .task id => .wake id)
  settle 3 called

end LocalExecutor

/-- A future with what is left of its routine, and the tasks whose handles it holds. -/
structure Body (α : Type) where
  held : Nat
  routine : Routine Core.Cancelled α held
  handles : Fin held → Nat

structure Machine (α : Type) where
  executor : LocalExecutor
  main : Body α
  /-- The bodies of the tasks that have not finished. -/
  tasks : Nat → Option (Body α)
  /-- What each task shares with its handle. -/
  shared : Nat → Core.SharedState α Sleeper
  /-- What `block_on` has returned. -/
  returned : Option α

namespace Machine

variable {α : Type}

/-- A call of `block_on`, which polls its main future first. -/
def start (routine : Routine Core.Cancelled α 0) : Machine α where
  executor := LocalExecutor.new.blockOn
  main := ⟨0, routine, Fin.elim0⟩
  tasks _ := none
  shared _ := .new
  returned := none

def keep (machine : Machine α) (self : Sleeper) (body : Body α) : Machine α :=
  match self with
  | .main => { machine with main := body }
  | .task id => { machine with tasks := Function.update machine.tasks id (some body) }

def share (machine : Machine α) (id : Nat) (shared : Core.SharedState α Sleeper) : Machine α :=
  { machine with shared := Function.update machine.shared id shared }

/-- The body that `spawn_erased` makes of a future hands its output to the completer. -/
def finish (machine : Machine α) (self : Sleeper) (value : α) : Option (Machine α) :=
  match self with
  | .main => do some { machine with executor := ← machine.executor.returns true, returned := some value }
  | .task id => do
      let shared := ((Core.Completer.complete value).alone Core.Access.effect (machine.shared id)).2
      let executor ← shared.woken.foldlM LocalExecutor.wakeNow machine.executor
      some { machine.share id shared with
        executor := ← executor.returns true
        tasks := Function.update machine.tasks id none }

/-- What a future does next while it is polled. -/
def runBody (machine : Machine α) (self : Sleeper) : Body α → Option (Machine α)
  | ⟨_, .done value, _⟩ => machine.finish self value
  | ⟨_, .giveWay next, handles⟩ => do
      let executor ← machine.executor.wakeNow self
      some ({ machine with executor := ← executor.returns false }.keep self ⟨_, next, handles⟩)
  | ⟨_, .start split other next, handles⟩ => do
      let id := machine.executor.nextId
      let executor ← machine.executor.step .spawn
      some (({ machine with executor }.keep self
        ⟨_, next, Fin.cons id fun place => handles (split.symm (.inr place))⟩).keep (.task id)
          ⟨_, other, fun place => handles (split.symm (.inl place))⟩)
  | ⟨_, .join which next, handles⟩ =>
      let (answer, shared) :=
        (Core.JoinHandle.poll self).alone Core.Access.effect (machine.shared (handles which))
      let polled := machine.share (handles which) shared
      match answer with
      | .pending => do some { polled with executor := ← machine.executor.returns false }
      | .ready result =>
          some (polled.keep self ⟨_, next result, fun place => handles (which.succAbove place)⟩)
      | .panicked => none

/-- The owner of the executor goes on, in its own code or in a future that it polls. -/
def step (machine : Machine α) : Option (Machine α) :=
  match machine.executor.frames with
  | .blockOn _ .pollMain :: _ => machine.runBody .main machine.main
  | .pollTask id .pollBody :: _ => do machine.runBody (.task id) (← machine.tasks id)
  -- Nobody is left to wake it: only the cap of the wait would end it.
  | .blockOn _ .park :: _ => none
  | _ => do some { machine with executor := ← machine.executor.run }

def drive : Nat → Machine α → Option (Machine α)
  | 0, machine => some machine
  | fuel + 1, machine =>
      if machine.executor.frames.isEmpty then some machine else do drive fuel (← machine.step)

end Machine

/-- What `block_on` returns, if it returns with so much fuel. -/
def blockOn {α : Type} (fuel : Nat) (routine : Routine Core.Cancelled α 0) : Option α := do
  (← (Machine.start routine).drive fuel).returned

end TptAsync.Executor
