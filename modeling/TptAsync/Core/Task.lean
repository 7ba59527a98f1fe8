import TptAsync.Lib.Program
import TptAsync.Lib.Transition

set_option autoImplicit false

/-!
# Join handles

The state that a task shares with its `JoinHandle` (`task.rs`), and everything that may
happen to it. Each operation is a program of atomic accesses: the loads and stores of the
flag, and the sections under one of the two locks.
-/

namespace TptAsync.Core

open Lib

inductive Flags
  | pending
  | ready
  | cancelled
  deriving DecidableEq, Repr

structure Cancelled where
  deriving DecidableEq, Repr

/-- What a poll of a handle ends with. A poll whose value is gone panics. -/
inductive Answer (α : Type)
  | pending
  | ready (result : Except Cancelled α)
  | panicked

class Waker (ω : Type) where
  willWake : ω → ω → Bool

structure SharedState (α ω : Type) where
  flags : Flags
  result : Option α
  waker : Option ω
  /-- The wakers that have been woken. -/
  woken : List ω

def SharedState.new {α ω : Type} : SharedState α ω := ⟨.pending, none, none, []⟩

inductive Access (α ω : Type)
  | load
  | store (flags : Flags)
  /-- Fill the result, under its lock. -/
  | put (value : α)
  | take
  /-- Fill the slot of the waker, under its lock, unless its waker will do. -/
  | register (waker : ω)
  /-- Empty the slot and wake its waker: the lock is held over both. -/
  | wake

def Access.Response {α ω : Type} : Access α ω → Type
  | .load => Flags
  | .take => Option α
  | .store _ | .put _ | .register _ | .wake => Unit

variable {α ω : Type}

def Access.effect [Waker ω] : (access : Access α ω) → SharedState α ω → access.Response × SharedState α ω
  | .load, shared => (shared.flags, shared)
  | .store flags, shared => ((), { shared with flags })
  | .put value, shared => ((), { shared with result := some value })
  | .take, shared => (shared.result, { shared with result := none })
  | .register waker, shared =>
      if shared.waker.any fun slot => Waker.willWake slot waker then ((), shared)
      else ((), { shared with waker := some waker })
  | .wake, shared =>
      match shared.waker with
      | some waker => ((), { shared with waker := none, woken := shared.woken ++ [waker] })
      | none => ((), shared)

abbrev Code (α ω β : Type) := Program (Access α ω) Access.Response β

def load : Code α ω Flags := .access .load .done

def store (flags : Flags) : Code α ω Unit := .access (.store flags) .done

def put (value : α) : Code α ω Unit := .access (.put value) .done

def take : Code α ω (Option α) := .access .take .done

def register (waker : ω) : Code α ω Unit := .access (.register waker) .done

def wake : Code α ω Unit := .access .wake .done

def SharedState.complete (value : α) : Code α ω Unit := do
  put value
  store .ready
  wake

def SharedState.cancel : Code α ω Unit := do
  store .cancelled
  wake

namespace JoinHandle

def isFinished : Code α ω Bool := do
  return (← load) ≠ .pending

def cancel : Code α ω Unit := SharedState.cancel

def takeResult : Code α ω (Answer α) := do
  match ← take with
  | some value => return .ready (.ok value)
  | none => return .panicked

def poll (waker : ω) : Code α ω (Answer α) := do
  match ← load with
  | .ready => takeResult
  | .cancelled => return .ready (.error ⟨⟩)
  | .pending =>
      register waker
      match ← load with
      | .ready => takeResult
      | .cancelled => return .ready (.error ⟨⟩)
      | .pending => return .pending

end JoinHandle

namespace Completer

def drop : Code α ω Unit := do
  if (← load) = .pending then SharedState.cancel

/-- The completer is dropped when `complete` ends, which takes it by value. -/
def complete (value : α) : Code α ω Unit := do
  SharedState.complete value
  drop

end Completer

namespace Task

def cancel : Code α ω Unit := JoinHandle.cancel

def drop : Code α ω Unit := do
  if !(← JoinHandle.isFinished) then JoinHandle.cancel

end Task

/-- What goes on with the handle, which is a `JoinHandle` or a `Task` around it: any number
of threads may call `cancel` through shared references, while a poll or the drop of a `Task`
has the handle for itself. -/
inductive HandleUse (α ω : Type)
  | borrowed (cancels : List (Code α ω Unit))
  | polling (poll : Code α ω (Answer α))
  | dropping (drop : Code α ω Unit)

/-- The completer is used up by one call, of `complete` or `drop`. -/
inductive CompleterUse (α ω : Type)
  | owned
  | used (call : Code α ω Unit)

structure System (α ω : Type) where
  shared : SharedState α ω
  handle : HandleUse α ω
  completer : CompleterUse α ω
  /-- How the polls so far have ended. -/
  answers : List (Answer α)

inductive Event (α ω : Type)
  | cancel
  | poll (waker : ω)
  | dropTask
  | complete (value : α)
  | dropCompleter
  /-- The call at this place among those of `cancel` makes its next access. -/
  | runCancel (index : Nat)
  /-- The poll, or the drop of the `Task`, makes its next access. -/
  | runHandle
  | runCompleter

namespace System

def new : System α ω := ⟨.new, .borrowed [], .owned, []⟩

variable [Waker ω]

def startExclusive (system : System α ω) (use : HandleUse α ω) : Option (System α ω) :=
  match system.handle with
  | .borrowed cancels =>
      if cancels.all Program.isDone then some { system with handle := use } else none
  | .polling _ | .dropping _ => none

def useCompleter (system : System α ω) (call : Code α ω Unit) : Option (System α ω) :=
  match system.completer with
  | .owned => some { system with completer := .used call }
  | .used _ => none

def runCancel (system : System α ω) (index : Nat) : Option (System α ω) :=
  match system.handle with
  | .borrowed cancels => do
      let call ← cancels[index]?
      let (rest, shared) ← call.advance Access.effect system.shared
      some { system with shared, handle := .borrowed (cancels.set index rest) }
  | .polling _ | .dropping _ => none

def runHandle (system : System α ω) : Option (System α ω) :=
  match system.handle with
  | .borrowed _ => none
  | .polling poll => do
      match ← poll.advance Access.effect system.shared with
      | (.done answer, shared) =>
          some { system with shared, handle := .borrowed [], answers := system.answers ++ [answer] }
      | (rest, shared) => some { system with shared, handle := .polling rest }
  | .dropping drop => do
      let (rest, shared) ← drop.advance Access.effect system.shared
      some { system with shared, handle := .dropping rest }

def runCompleter (system : System α ω) : Option (System α ω) :=
  match system.completer with
  | .owned => none
  | .used call => do
      let (rest, shared) ← call.advance Access.effect system.shared
      some { system with shared, completer := .used rest }

def step (system : System α ω) : Event α ω → Option (System α ω)
  | .cancel =>
      match system.handle with
      | .borrowed cancels => some { system with handle := .borrowed (cancels ++ [JoinHandle.cancel]) }
      | .polling _ | .dropping _ => none
  | .poll waker => system.startExclusive (.polling (JoinHandle.poll waker))
  | .dropTask => system.startExclusive (.dropping Task.drop)
  | .complete value => system.useCompleter (Completer.complete value)
  | .dropCompleter => system.useCompleter Completer.drop
  | .runCancel index => system.runCancel index
  | .runHandle => system.runHandle
  | .runCompleter => system.runCompleter

/-- The access that an event makes, if it makes one. -/
def access (system : System α ω) : Event α ω → Option (Access α ω)
  | .runCancel index =>
      match system.handle with
      | .borrowed cancels => cancels[index]?.bind Program.next
      | .polling _ | .dropping _ => none
  | .runHandle =>
      match system.handle with
      | .borrowed _ => none
      | .polling poll => poll.next
      | .dropping drop => drop.next
  | .runCompleter =>
      match system.completer with
      | .owned => none
      | .used call => call.next
  | _ => none

end System

end TptAsync.Core
