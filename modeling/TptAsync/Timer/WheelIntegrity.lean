import TptAsync.Lib.Transition
import TptAsync.Timer.SharedEffects

set_option autoImplicit false

/-!
# Integrity of the slot lists

The wheel's memory under any sequence of its list operations: which chain every entry is on, what
points at it, and what taking one out touches.
-/

namespace TptAsync.Timer

open Lib Lib.IntrusiveList

variable {Waker : Type} {shape : Shape}

/-- An operation on the slot lists, or what happens between them: an owner writes an entry that
is not registered, and time passes. -/
inductive ListOperation (Waker : Type) where
  | own (entry : Addr) (deadline : Nat) (waker : Option Waker)
  | tick
  | insert (entry : Addr)
  | remove (entry : Addr)
  | drainSlot (head : SlotHead)
  | cascade (head : SlotHead)

namespace Inner

variable {inner after : Inner Waker} {entry : Addr}

/-- One operation, `none` where it is against its contract or `pending` would underflow. -/
def operate (shape : Shape) (inner : Inner Waker) : ListOperation Waker → Option (Inner Waker)
  | .own entry deadline waker =>
      if (inner.entries entry).isRegistered then none else some (TimerWheel.own inner entry deadline waker)
  | .tick => some { inner with currentTick := U64.wrappingAdd inner.currentTick 1 }
  | .insert entry =>
      if (inner.entries entry).isRegistered then none else some (inner.insert shape entry)
  | .remove entry => inner.remove entry
  | .drainSlot head => inner.drainSlot head
  | .cascade head => inner.cascade shape head

/-- An operation is only kept from an entry that is registered. -/
def Permits (inner : Inner Waker) : ListOperation Waker → Prop
  | .own entry _ _ | .insert entry => (inner.entries entry).isRegistered = false
  | .tick | .remove _ | .drainSlot _ | .cascade _ => True

/-- The entries of a slot, from its head on. -/
def chain (inner : Inner Waker) (head : SlotHead) : List Addr :=
  inner.links.follow inner.pending (inner.heads head)

/-- Every chain ends without meeting an entry twice, and each of its entries records the cell that
points at it. A registered entry is on one chain; any other is on none and records nothing. -/
structure Integrity (inner : Inner Waker) : Prop where
  chained : ∀ head, Chain inner.links (.head head) (inner.chain head)
  acyclic : ∀ head, (inner.chain head).Nodup
  once : ∀ entry, (inner.entries entry).isRegistered = true → ∃! head, entry ∈ inner.chain head
  pointed : ∀ entry cell, (inner.entries entry).prevNext = some cell → inner.links.read cell = some entry
  apart : ∀ entry, (inner.entries entry).isRegistered = false →
    (inner.entries entry).prevNext = none ∧ ¬ inner.Linked entry
  counts : ∃ registered : List Addr, registered.Nodup ∧ inner.pending = registered.length ∧
    ∀ entry, entry ∈ registered ↔ (inner.entries entry).isRegistered = true

/-- What `remove` does: it writes the links of its entry, the cell that points at it and what its
successor records, and no other. -/
structure Removes (inner : Inner Waker) (entry : Addr) (after : Inner Waker) : Prop where
  chains : ∀ head, after.chain head = (inner.chain head).erase entry
  heads : ∀ head, (inner.entries entry).prevNext ≠ some (.head head) →
    after.heads head = inner.heads head
  next : ∀ other, other ≠ entry → (inner.entries entry).prevNext ≠ some (.next other) →
    (after.entries other).next = (inner.entries other).next
  prevNext : ∀ other, other ≠ entry → (inner.entries entry).next ≠ some other →
    (after.entries other).prevNext = (inner.entries other).prevNext
  frame : Frame inner after
  unregistered : (after.entries entry).isRegistered = false
  pending : after.pending + (if (inner.entries entry).isRegistered then 1 else 0) = inner.pending

/-- The slot lists are whole. -/
abbrev Whole (inner : Inner Waker) : Prop :=
  Held (fun _ _ => True) inner

theorem new_whole : Whole (TimerWheel.new : TimerWheel Waker) :=
  ⟨fun _ => [], [], Represents.empty, rfl, .nil, by simp, by simp, by simp⟩

section Tracked

variable {place : SlotHead → Nat → Prop} {lists : SlotHead → List Addr} {timers : List FlatTimer}

theorem length_le_pending (tracks : Tracks place inner lists none [] timers) (head : SlotHead) :
    (lists head).length ≤ inner.pending := by
  have subset : lists head ⊆ timers.map (·.entry) :=
    fun entry member => (tracks.covers entry).mpr (.inl ⟨head, member⟩)
  rw [tracks.count, ← List.length_map FlatTimer.entry]
  exact (List.subperm_of_subset (tracks.represents.nodup head) subset).length_le

theorem chain_eq (tracks : Tracks place inner lists none [] timers) (head : SlotHead) :
    inner.chain head = lists head :=
  (tracks.represents.chain head).follow_read (length_le_pending tracks head)

end Tracked

theorem Whole.integrity (whole : Whole inner) : Integrity inner := by
  obtain ⟨lists, timers, tracks⟩ := whole
  have represents := tracks.represents
  constructor
  case chained =>
    intro head
    rw [chain_eq tracks]
    exact represents.chain head
  case acyclic =>
    intro head
    rw [chain_eq tracks]
    exact represents.nodup head
  case once =>
    intro entry registered
    obtain ⟨head, listed⟩ := (tracks.listed_iff entry).mpr ((tracks.isRegistered_iff entry).mp registered)
    simp only [chain_eq tracks]
    exact ⟨head, listed, fun other again => represents.apart again listed⟩
  case pointed =>
    intro entry cell records
    obtain ⟨head, listed⟩ : ∃ head, entry ∈ lists head := by
      by_contra absent
      have clear := represents.unlinked entry (not_exists.mp absent) List.not_mem_nil
      cases records.symm.trans clear
    exact ((represents.chain head).read_prevNext listed records).1
  case apart =>
    intro entry unregistered
    have missing : entry ∉ timers.map (·.entry) := by
      rw [← tracks.isRegistered_iff, unregistered]
      exact Bool.false_ne_true
    rw [tracks.linked_iff]
    exact ⟨represents.unlinked entry (tracks.absent missing) List.not_mem_nil, missing⟩
  case counts =>
    exact ⟨timers.map (·.entry), tracks.nodup, tracks.count.trans (List.length_map _).symm,
      fun entry => (tracks.isRegistered_iff entry).symm⟩

/-- What taking a listed entry out does to the cells of the heap. -/
theorem removes_listed {lists : SlotHead → List Addr} {timers : List FlatTimer} {head : SlotHead}
    (tracks : Tracks (fun _ _ => True) inner lists none [] timers) (listed : entry ∈ lists head) :
    ∃ after, inner.remove entry = some after ∧ Whole after ∧ Removes inner entry after := by
  have represents := tracks.represents
  have registered := (tracks.isRegistered_iff entry).mpr ((tracks.listed_iff entry).mp ⟨head, listed⟩)
  obtain ⟨cell, records⟩ := (represents.chain head).prevNext_isSome listed
  obtain ⟨leads, _⟩ := (represents.chain head).read_prevNext listed records
  have outside := represents.cell_outside listed leads
  have positive : 0 < inner.pending :=
    (List.length_pos_of_mem listed).trans_le (length_le_pending tracks head)
  obtain ⟨after, removes, links, count, frame⟩ := remove_registered inner entry
    ((isRegistered_iff inner entry).mp registered) positive
  have kept := tracks.unlink listed links count frame
  have recorded : (inner.entries entry).prevNext = some cell := records
  have reads : ∀ found, found ≠ .next entry → found ≠ cell → after.links.read found = inner.links.read found := by
    intro found other notCell
    rw [links, Heap.unlink_read records found other, if_neg notCell]
  refine ⟨after, removes, ⟨_, _, kept⟩, ?_, ?_, ?_, ?_, frame, ?_, ?_⟩
  · intro other
    rw [chain_eq kept, chain_eq tracks]
    by_cases same : other = head
    · rw [same, Function.update_self]
    · rw [Function.update_of_ne same, List.erase_of_not_mem]
      exact fun again => same (represents.apart again listed)
  · intro other notCell
    exact reads (.head other) (by simp) fun same => notCell (recorded.trans (congrArg some same.symm))
  · intro other distinct notCell
    exact reads (.next other) (fun same => distinct (Cell.next.inj same))
      fun same => notCell (recorded.trans (congrArg some same.symm))
  · intro other distinct notNext
    have written := Heap.unlink_prevNext records outside other
    rwa [if_neg (show inner.links.next entry ≠ some other from notNext), if_neg distinct,
      ← links] at written
  · rw [← Bool.not_eq_true, kept.isRegistered_iff]
    simp
  · rw [registered]
    exact count

theorem Whole.remove (whole : Whole inner) (entry : Addr) :
    ∃ after, inner.remove entry = some after ∧ Whole after ∧ Removes inner entry after := by
  obtain ⟨lists, timers, tracks⟩ := whole
  by_cases listed : ∃ head, entry ∈ lists head
  · obtain ⟨head, listed⟩ := listed
    exact removes_listed tracks listed
  · have clear := tracks.represents.unlinked entry (not_exists.mp listed) List.not_mem_nil
    have unregistered : (inner.entries entry).isRegistered = false := by
      rw [← Bool.not_eq_true, tracks.isRegistered_iff, ← tracks.listed_iff]
      exact listed
    refine ⟨inner, remove_unregistered inner entry clear, ⟨lists, timers, tracks⟩, ?_,
      fun _ _ => rfl, fun _ _ _ => rfl, fun _ _ _ => rfl, .refl inner, unregistered, ?_⟩
    · intro head
      rw [chain_eq tracks, List.erase_of_not_mem (not_exists.mp listed head)]
    · simp [unregistered]

/-- An operation that is permitted goes through, and leaves the lists whole. -/
theorem Whole.operate (whole : Whole inner) (operation : ListOperation Waker)
    (permits : inner.Permits operation) :
    ∃ after, inner.operate shape operation = some after ∧ Whole after := by
  have unlinked : ∀ {entry}, (inner.entries entry).isRegistered = false → ¬ inner.Linked entry := by
    intro entry unregistered
    rw [← whole.isRegistered_iff, unregistered]
    exact Bool.false_ne_true
  cases operation with
  | own entry deadline waker =>
      have unregistered : (inner.entries entry).isRegistered = false := permits
      refine ⟨_, ?_, (whole.own (unlinked unregistered) deadline waker).1⟩
      rw [Inner.operate, unregistered]
      rfl
  | tick =>
      obtain ⟨lists, timers, tracks⟩ := whole
      exact ⟨_, rfl, lists, timers, tracks.retime _⟩
  | insert entry =>
      have unregistered : (inner.entries entry).isRegistered = false := permits
      refine ⟨inner.insert shape entry, ?_, (whole.insert (unlinked unregistered) trivial).1⟩
      rw [Inner.operate, unregistered]
      rfl
  | remove entry =>
      obtain ⟨after, removes, kept, _⟩ := whole.remove entry
      exact ⟨after, removes, kept⟩
  | drainSlot head =>
      obtain ⟨lists, timers, tracks⟩ := whole
      obtain ⟨after, drains, kept, _⟩ := drainSlot_drains tracks head
      exact ⟨after, drains, _, _, kept⟩
  | cascade head =>
      obtain ⟨lists, timers, tracks⟩ := whole
      obtain ⟨after, lists', cascades, kept, _⟩ :=
        @cascade_moves _ shape _ _ _ _ _ head (fun _ _ _ _ => trivial) (fun _ _ _ => trivial) tracks
      exact ⟨after, cascades, lists', timers, kept⟩

theorem permits_of_operate {operation : ListOperation Waker}
    (operates : inner.operate shape operation = some after) : inner.Permits operation := by
  cases operation with
  | own entry deadline waker =>
      rw [operate] at operates
      split at operates
      · cases operates
      · next unregistered => exact Bool.eq_false_of_not_eq_true unregistered
  | insert entry =>
      rw [operate] at operates
      split at operates
      · cases operates
      · next unregistered => exact Bool.eq_false_of_not_eq_true unregistered
  | tick => trivial
  | remove entry => trivial
  | drainSlot head => trivial
  | cascade head => trivial

/-- In every state that a sequence of operations leads to, the lists are whole, no permitted
operation makes `pending` underflow, and `remove` touches no more cells than it has to. -/
theorem lists_intact (shape : Shape) (inner : Inner Waker)
    (reachable : Reachable (operate shape) TimerWheel.new inner) :
    Integrity inner ∧
    (∀ entry, ∃ after, inner.remove entry = some after ∧ Removes inner entry after) ∧
    ∀ operation, inner.Permits operation → (inner.operate shape operation).isSome := by
  have whole : Whole inner := by
    refine reachable.invariant ?_ new_whole
    intro state operation next whole operates
    obtain ⟨after, goes, kept⟩ := whole.operate operation (permits_of_operate operates)
    cases operates.symm.trans goes
    exact kept
  refine ⟨whole.integrity, fun entry => ?_, fun operation permits => ?_⟩
  · obtain ⟨after, removes, _, effect⟩ := whole.remove entry
    exact ⟨after, removes, effect⟩
  · obtain ⟨after, operates, _⟩ := whole.operate operation permits
    exact Option.isSome_of_eq_some operates

/-- Of two entries in a slot, the one behind is taken out. -/
theorem lists_intact_pair : ∃ inner after : Inner Unit,
    run (operate ⟨8, 4, by decide, by decide⟩) [.own 1 5 none, .own 2 5 none, .insert 1, .insert 2]
      TimerWheel.new = some inner ∧
    inner.chain (0, 5) = [2, 1] ∧ inner.remove 1 = some after ∧ after.chain (0, 5) = [2] := by
  obtain ⟨inner, ran, chain⟩ : ∃ inner : Inner Unit,
      run (operate ⟨8, 4, by decide, by decide⟩) [.own 1 5 none, .own 2 5 none, .insert 1, .insert 2]
        TimerWheel.new = some inner ∧ inner.chain (0, 5) = [2, 1] := ⟨_, rfl, by decide⟩
  obtain ⟨after, removes, effect⟩ := (lists_intact _ inner ⟨_, ran⟩).2.1 1
  refine ⟨inner, after, ran, chain, removes, ?_⟩
  rw [effect.chains, chain]
  rfl

end Inner

end TptAsync.Timer
