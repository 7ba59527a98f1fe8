import TptAsync.Lib.Program
import TptAsync.Lib.Totals
import TptAsync.Lib.Transition

set_option autoImplicit false

/-!
# Wakers around a closure

The wakers that `waker_with` builds (`waker.rs`), which share one body on the heap. Each function
of their vtable is a program of accesses to that body, and any number of threads may run them.
-/

namespace TptAsync.Core

open Lib

/-- How a call of the closure ends. -/
inductive WakeEnd where
  | returned
  | panicked
  deriving DecidableEq

/-- The `Arc` around the closure and the vtable. -/
structure Body where
  strong : Nat
  /-- How often the closure has been called. -/
  calls : Nat
  /-- How often the memory has been freed. -/
  freed : Nat
  /-- The memory has been accessed behind that. -/
  corrupt : Bool

inductive BodyAccess where
  /-- Read a function from the vtable. -/
  | vtable
  /-- Call the closure. -/
  | onWake
  /-- The closure comes to its end. -/
  | wakeEnd
  | increment
  | decrement
  deriving DecidableEq

namespace BodyAccess

def Response : BodyAccess → Type
  | .wakeEnd => WakeEnd
  | .vtable | .onWake | .increment | .decrement => Unit

def answer (ending : WakeEnd) : (access : BodyAccess) → access.Response
  | .wakeEnd => ending
  | .vtable | .onWake | .increment | .decrement => ()

/-- What becomes of a body that is alive. The last reference frees it. -/
def apply : BodyAccess → Body → Body
  | .vtable, body | .wakeEnd, body => body
  | .onWake, body => { body with calls := body.calls + 1 }
  | .increment, body => { body with strong := body.strong + 1 }
  | .decrement, body =>
      { body with
        strong := body.strong - 1
        freed := if body.strong = 1 then body.freed + 1 else body.freed }

def effect (ending : WakeEnd) (access : BodyAccess) (body : Body) : access.Response × Body :=
  (access.answer ending, if body.strong = 0 then { body with corrupt := true } else access.apply body)

end BodyAccess

abbrev VtableFn := Program BodyAccess BodyAccess.Response Unit

namespace VtableFn

def decrement : VtableFn := .access .decrement .done

/-- A waker has its functions called through the vtable, which lies in the body. -/
def called (function : VtableFn) : VtableFn := .access .vtable fun _ => function

/-- The closure runs, and the reference goes, also when the closure panics. -/
def wakeOwned : VtableFn :=
  .access .onWake fun _ => .access .wakeEnd fun _ => decrement

/-- Behind the call of the closure, the reference is forgotten; a panic does not get that far. -/
def wakeByRefEnd : VtableFn :=
  .access .wakeEnd fun ending =>
    match ending with
    | .returned => .done ()
    | .panicked => decrement

def wakeByRef : VtableFn := .access .onWake fun _ => wakeByRefEnd

def cloneWaker : VtableFn := .access .increment .done

def dropWaker : VtableFn := decrement

end VtableFn

/-- A waker: any number of threads may call it by reference, and a call by value, the drop or
`mem::forget` uses it up. -/
inductive WakerUse where
  | borrowed (wakes clones : List VtableFn)
  | woken (call : VtableFn)
  | dropped (call : VtableFn)
  | forgotten

structure Waking where
  body : Body
  wakers : List WakerUse
  /-- How often a waker has been called to wake. -/
  wakes : Nat
  /-- How many of the calls by reference have panicked. -/
  panics : Nat

inductive WakingEvent where
  | wake (waker : Nat)
  | wakeByRef (waker : Nat)
  | clone (waker : Nat)
  | drop (waker : Nat)
  | forget (waker : Nat)
  /-- The call that uses up the waker makes its next access. -/
  | runOwner (waker : Nat) (ending : WakeEnd)
  /-- The call at this place among those by reference makes its next access. -/
  | runWake (waker call : Nat) (ending : WakeEnd)
  | runClone (waker call : Nat)

namespace Waking

def new : Waking := ⟨⟨1, 0, 0, false⟩, [.borrowed [] []], 0, 0⟩

/-- Only a waker that nobody has borrowed can be used up. -/
def useUp (waking : Waking) (waker : Nat) (use : WakerUse) : Option Waking :=
  match waking.wakers[waker]? with
  | some (.borrowed wakes clones) =>
      if wakes.all Program.isDone && clones.all Program.isDone then
        some { waking with wakers := waking.wakers.set waker use }
      else none
  | _ => none

def runOwner (waking : Waking) (waker : Nat) (ending : WakeEnd) : Option Waking :=
  match waking.wakers[waker]? with
  | some (.woken call) => do
      let (rest, body) ← call.advance (BodyAccess.effect ending) waking.body
      some { waking with body, wakers := waking.wakers.set waker (.woken rest) }
  | some (.dropped call) => do
      let (rest, body) ← call.advance (BodyAccess.effect ending) waking.body
      some { waking with body, wakers := waking.wakers.set waker (.dropped rest) }
  | _ => none

/-- A call by reference ends in a panic if the closure does. -/
def runWake (waking : Waking) (waker call : Nat) (ending : WakeEnd) : Option Waking :=
  match waking.wakers[waker]? with
  | some (.borrowed wakes clones) => do
      let code ← wakes[call]?
      let (rest, body) ← code.advance (BodyAccess.effect ending) waking.body
      some { waking with
        body
        wakers := waking.wakers.set waker (.borrowed (wakes.set call rest) clones)
        panics := if code.next = some .wakeEnd ∧ ending = .panicked then waking.panics + 1
          else waking.panics }
  | _ => none

/-- A clone that comes to its end is a new waker. -/
def runClone (waking : Waking) (waker call : Nat) : Option Waking :=
  match waking.wakers[waker]? with
  | some (.borrowed wakes clones) => do
      let code ← clones[call]?
      let (rest, body) ← code.advance (BodyAccess.effect .returned) waking.body
      let wakers := waking.wakers.set waker (.borrowed wakes (clones.set call rest))
      some { waking with body, wakers := if rest.isDone then wakers ++ [.borrowed [] []] else wakers }
  | _ => none

/-- Once freed memory has been accessed, anything may happen, and no step is defined. -/
def step (waking : Waking) (event : WakingEvent) : Option Waking :=
  if waking.body.corrupt then none else
    match event with
    | .wake waker => do
        let next ← waking.useUp waker (.woken VtableFn.wakeOwned.called)
        some { next with wakes := next.wakes + 1 }
    | .wakeByRef waker =>
        match waking.wakers[waker]? with
        | some (.borrowed wakes clones) =>
            some { waking with
              wakers := waking.wakers.set waker
                (.borrowed (wakes ++ [VtableFn.wakeByRef.called]) clones)
              wakes := waking.wakes + 1 }
        | _ => none
    | .clone waker =>
        match waking.wakers[waker]? with
        | some (.borrowed wakes clones) =>
            some { waking with
              wakers := waking.wakers.set waker
                (.borrowed wakes (clones ++ [VtableFn.cloneWaker.called])) }
        | _ => none
    | .drop waker => waking.useUp waker (.dropped VtableFn.dropWaker.called)
    | .forget waker => waking.useUp waker .forgotten
    | .runOwner waker ending => waking.runOwner waker ending
    | .runWake waker call ending => waking.runWake waker call ending
    | .runClone waker call => waking.runClone waker call

end Waking

end TptAsync.Core
