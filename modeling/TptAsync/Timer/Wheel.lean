import TptAsync.Lib.IntrusiveList
import TptAsync.Lib.U64

set_option autoImplicit false

/-!
# Hierarchical timer wheel

The wheel of `wheel.rs`, with the entries its pointers lead to. A wheel method that
fails to return (a counter passing below zero, a traversal of a corrupt list) is `none`.
-/

namespace TptAsync.Timer

open Lib Lib.IntrusiveList

/-- The address of a `TimerEntry`. -/
abbrev Addr := Nat

/-- A slot head: level, then slot within the level. -/
abbrev SlotHead := Nat × Nat

structure TimerEntry (Waker : Type) where
  deadline : Nat
  waker : Option Waker
  next : Option Addr
  prevNext : Option (Cell SlotHead Addr)

variable {Waker : Type}

def TimerEntry.new (deadline : Nat) : TimerEntry Waker where
  deadline := deadline
  waker := none
  next := none
  prevNext := none

def TimerEntry.isRegistered (entry : TimerEntry Waker) : Bool :=
  entry.prevNext.isSome

/-- The const parameters of a wheel, with what `TimerWheel::new` asserts of them. -/
structure Shape where
  slots : Nat
  levels : Nat
  twoLeSlots : 2 ≤ slots
  oneLeLevels : 1 ≤ levels

/-- One entry leaving the wheel in `drain_slot`: the tick being processed, the entry, and
the waker taken from it and woken. -/
structure Firing (Waker : Type) where
  tick : Nat
  entry : Addr
  waker : Option Waker
  deriving DecidableEq

/-- The wheel internals, the memory its pointers lead to, and the firings so far. -/
structure Inner (Waker : Type) where
  heads : SlotHead → Option Addr
  currentTick : Nat
  pending : Nat
  entries : Addr → TimerEntry Waker
  fired : List (Firing Waker)

namespace Inner

def now (inner : Inner Waker) : Nat := inner.currentTick

/-- The loop of `choose_slot` over `level` and `width`; it runs at most `LEVELS` times. -/
def chooseLevel (shape : Shape) (delta : Nat) : Nat → Nat → Nat → Nat
  | 0, level, _ => level
  | fuel + 1, level, width =>
      if level + 1 < shape.levels ∧ width ≤ delta then
        chooseLevel shape delta fuel (level + 1) (U64.saturatingMul width shape.slots)
      else level

def chooseSlot (shape : Shape) (inner : Inner Waker) (deadline : Nat) : SlotHead :=
  let delta := deadline - inner.currentTick
  if delta = 0 then
    -- Already due: the level-0 slot that drains on the next tick.
    (0, U64.wrappingAdd inner.currentTick 1 % shape.slots)
  else
    let level := chooseLevel shape delta shape.levels 0 shape.slots
    let resolution := U64.saturatingPow shape.slots level
    (level, deadline / resolution % shape.slots)

def setPrevNext (inner : Inner Waker) (entry : Addr) (cell : Option (Cell SlotHead Addr)) :
    Inner Waker :=
  { inner with
    entries := Function.update inner.entries entry
      { inner.entries entry with prevNext := cell } }

/-- Store through a `prev_next` pointer. -/
def writeCell (inner : Inner Waker) (cell : Cell SlotHead Addr) (value : Option Addr) :
    Inner Waker :=
  match cell with
  | .head head => { inner with heads := Function.update inner.heads head value }
  | .next entry =>
      { inner with
        entries := Function.update inner.entries entry
          { inner.entries entry with next := value } }

/-- Let the entry at `target`, if there is one, record `cell` as its `prev_next`. -/
def repoint (inner : Inner Waker) (target : Option Addr) (cell : Cell SlotHead Addr) :
    Inner Waker :=
  match target with
  | none => inner
  | some entry => inner.setPrevNext entry (some cell)

/-- Link an unregistered entry at the front of `heads[level][slot]`. -/
def link (inner : Inner Waker) (head : SlotHead) (entry : Addr) : Inner Waker :=
  let old := inner.heads head
  let entered := { inner with
    entries := Function.update inner.entries entry
      { inner.entries entry with next := old, prevNext := some (.head head) } }
  let repointed := entered.repoint old (.next entry)
  { repointed with
    heads := Function.update repointed.heads head (some entry)
    pending := repointed.pending + 1 }

def insert (shape : Shape) (inner : Inner Waker) (entry : Addr) : Inner Waker :=
  inner.link (inner.chooseSlot shape (inner.entries entry).deadline) entry

/-- Remove an entry; a no-op if it is not registered. -/
def remove (inner : Inner Waker) (entry : Addr) : Option (Inner Waker) :=
  match (inner.entries entry).prevNext with
  | none => some inner
  | some prevNextPtr => do
      let taken := inner.setPrevNext entry none
      let bypassed := taken.writeCell prevNextPtr (taken.entries entry).next
      let next := (bypassed.entries entry).next
      let cleared := bypassed.writeCell (.next entry) none
      let repointed := cleared.repoint next prevNextPtr
      let pending ← U64.checkedPred repointed.pending
      some { repointed with pending }

/-- The loop of `drain_slot` over the detached list; no list is longer than `pending`. -/
def drainLoop : Nat → Option Addr → Inner Waker → Option (Inner Waker)
  | _, none, inner => some inner
  | 0, some _, _ => none
  | fuel + 1, some node, inner => do
      let entry := inner.entries node
      let pending ← U64.checkedPred inner.pending
      drainLoop fuel entry.next
        { inner with
          entries := Function.update inner.entries node
            { entry with next := none, prevNext := none, waker := none }
          pending
          fired := inner.fired ++ [⟨inner.currentTick, node, entry.waker⟩] }

/-- Wake every entry of a slot. -/
def drainSlot (inner : Inner Waker) (head : SlotHead) : Option (Inner Waker) :=
  drainLoop inner.pending (inner.heads head)
    { inner with heads := Function.update inner.heads head none }

/-- Where `cascade` links an entry again. -/
def cascadeTarget (shape : Shape) (inner : Inner Waker) (deadline : Nat) : SlotHead :=
  -- A deadline that is reached must fire in this tick, so the entry goes into the
  -- level-0 slot that drains right after the cascade.
  if deadline ≤ inner.currentTick then (0, inner.currentTick % shape.slots)
  else inner.chooseSlot shape deadline

/-- The loop of `cascade` over the detached list. -/
def cascadeLoop (shape : Shape) : Nat → Option Addr → Inner Waker → Option (Inner Waker)
  | _, none, inner => some inner
  | 0, some _, _ => none
  | fuel + 1, some node, inner => do
      let entry := inner.entries node
      let pending ← U64.checkedPred inner.pending
      let released : Inner Waker := { inner with
        entries := Function.update inner.entries node { entry with next := none, prevNext := none }
        pending }
      cascadeLoop shape fuel entry.next
        (released.link (released.cascadeTarget shape entry.deadline) node)

def cascade (shape : Shape) (inner : Inner Waker) (head : SlotHead) : Option (Inner Waker) :=
  cascadeLoop shape inner.pending (inner.heads head)
    { inner with heads := Function.update inner.heads head none }

/-- The loop of `advance_one` over the coarse levels, which stops at the first level whose
resolution does not divide the tick. -/
def cascadeLevels (shape : Shape) : List Nat → Nat → Inner Waker → Option (Inner Waker)
  | [], _, inner => some inner
  | level :: rest, width, inner =>
      if inner.currentTick % width = 0 then do
        let cascaded ← inner.cascade shape (level, inner.currentTick / width % shape.slots)
        cascadeLevels shape rest (U64.saturatingMul width shape.slots) cascaded
      else some inner

/-- Advance by one tick: increment, cascade coarse levels, drain the level-0 slot. -/
def advanceOne (shape : Shape) (inner : Inner Waker) : Option (Inner Waker) := do
  let ticked := { inner with currentTick := U64.wrappingAdd inner.currentTick 1 }
  let cascaded ← ticked.cascadeLevels shape (List.range' 1 (shape.levels - 1)) shape.slots
  cascaded.drainSlot (0, cascaded.currentTick % shape.slots)

end Inner

/-- A `TimerWheel` is its locked `Inner`; every method holds the lock throughout. -/
abbrev TimerWheel (Waker : Type) := Inner Waker

namespace TimerWheel

/-- A new wheel over memory whose entries are all unregistered. -/
def new : TimerWheel Waker where
  heads _ := none
  currentTick := 0
  pending := 0
  entries _ := .new 0
  fired := []

def now (wheel : TimerWheel Waker) : Nat := Inner.now wheel

def len (wheel : TimerWheel Waker) : Nat := wheel.pending

def isEmpty (wheel : TimerWheel Waker) : Bool := wheel.len == 0

def tick (shape : Shape) (wheel : TimerWheel Waker) : Option (TimerWheel Waker) :=
  Inner.advanceOne shape wheel

def tickN (shape : Shape) : Nat → TimerWheel Waker → Option (TimerWheel Waker)
  | 0, wheel => some wheel
  | count + 1, wheel => do tickN shape count (← Inner.advanceOne shape wheel)

/-- The loop of `advance_to`, which runs at most once for each tick still missing. -/
def advanceLoop (shape : Shape) (target : Nat) :
    Nat → TimerWheel Waker → Option (TimerWheel Waker)
  | 0, wheel => some wheel
  | fuel + 1, wheel =>
      if wheel.currentTick < target then do
        advanceLoop shape target fuel (← Inner.advanceOne shape wheel)
      else some wheel

def advanceTo (shape : Shape) (target : Nat) (wheel : TimerWheel Waker) :
    Option (TimerWheel Waker) :=
  advanceLoop shape target (target - wheel.currentTick) wheel

/-- The earliest deadline among the slot heads. -/
def nextDeadline (shape : Shape) (wheel : TimerWheel Waker) : Option Nat :=
  (List.range shape.levels).foldl (fun best level =>
    (List.range shape.slots).foldl (fun best slot =>
      match wheel.heads (level, slot) with
      | none => best
      | some entry =>
          let deadline := (wheel.entries entry).deadline
          match best with
          | some found => if found ≤ deadline then some found else some deadline
          | none => some deadline) best) none

end TimerWheel

end TptAsync.Timer
