import TptAsync.Timer.WheelOperations

set_option autoImplicit false

/-!
# One tick of the wheel

The cascades of a tick move every entry to where its deadline is seen in time; the
level-0 slot that then drains holds exactly the entries that are due.
-/

namespace TptAsync.Timer

open Lib Lib.IntrusiveList

variable {Waker : Type} {shape : Shape} {inner : Inner Waker}
  {lists : SlotHead → List Addr} {timers : List FlatTimer}

theorem Inner.cascade_tracks {cascaded : Nat} (levels : 2 ≤ shape.levels)
    (fits : shape.slots ^ shape.levels ≤ U64.max) (counted : 0 < inner.currentTick)
    (aligned : inner.currentTick % shape.slots ^ (cascaded + 1) = 0)
    (tracks : Tracks (Reaching shape inner.currentTick cascaded) inner lists none [] timers) :
    ∃ after lists', inner.cascade shape
        (cascaded + 1, inner.currentTick / shape.slots ^ (cascaded + 1) % shape.slots) =
          some after ∧
      Tracks (Reaching shape inner.currentTick (cascaded + 1)) after lists' none [] timers ∧
      Inner.Frame inner after := by
  refine Inner.cascade_moves _ ?_ ?_ tracks
  · exact fun found deadline distinct reaching => reaching.cascaded counted aligned distinct
  · intro state deadline sameTick
    rw [← sameTick]
    exact cascadeTarget_reaching levels fits

theorem Inner.cascadeLevels_tracks {count cascaded : Nat} (levels : 2 ≤ shape.levels)
    (fits : shape.slots ^ shape.levels ≤ U64.max) (counted : 0 < inner.currentTick)
    (remaining : cascaded + 1 + count = shape.levels)
    (tracks : Tracks (Reaching shape inner.currentTick cascaded) inner lists none [] timers) :
    ∃ after lists', inner.cascadeLevels shape (List.range' (cascaded + 1) count)
        (shape.slots ^ (cascaded + 1)) = some after ∧
      Tracks (Reaching shape inner.currentTick (shape.levels - 1)) after lists' none [] timers ∧
      Inner.Frame inner after := by
  induction count generalizing cascaded inner lists with
  | zero =>
      obtain rfl : cascaded = shape.levels - 1 := by omega
      exact ⟨inner, lists, rfl, tracks, .refl inner⟩
  | succ count ih =>
      simp only [List.range'_succ, cascadeLevels]
      split
      · next aligned =>
          obtain ⟨middle, lists', cascades, kept, frame⟩ :=
            cascade_tracks levels fits counted aligned tracks
          have widthFits : shape.slots ^ (cascaded + 1) * shape.slots ≤ U64.max := by
            rw [← Nat.pow_succ]
            exact (Nat.pow_le_pow_right shape.slots_pos (by omega)).trans fits
          rw [← frame.tick] at counted kept
          obtain ⟨after, lists'', finishes, reached, rest⟩ :=
            ih counted (by omega) kept
          rw [frame.tick] at reached
          refine ⟨after, lists'', ?_, reached, frame.trans rest⟩
          rw [cascades, Option.bind_eq_bind, Option.bind_some, U64.saturatingMul_eq widthFits,
            ← Nat.pow_succ]
          exact finishes
      · next unaligned =>
          refine ⟨inner, lists, rfl, ?_, .refl inner⟩
          exact tracks.mono fun _ _ _ reaching => reaching.unaligned counted unaligned

/-- Once every coarse level is cascaded, the slot about to drain holds exactly what is due. -/
theorem Tracks.mem_drained_iff {tick : Nat}
    (tracks : Tracks (Reaching shape tick (shape.levels - 1)) inner lists none [] timers)
    {timer : FlatTimer} (member : timer ∈ timers) :
    timer.entry ∈ lists (0, tick % shape.slots) ↔ timer.deadline ≤ tick := by
  rw [← tracks.deadline timer member]
  constructor
  · intro listed
    exact (tracks.placed _ _ listed).due_iff.mpr rfl
  · intro due
    obtain ⟨head, listed⟩ :=
      ((tracks.covers timer.entry).mp (List.mem_map_of_mem member)).resolve_right (by simp)
    rwa [(tracks.placed _ _ listed).due_iff.mp due] at listed

theorem Tracks.drained_perm {tick : Nat}
    (tracks : Tracks (Reaching shape tick (shape.levels - 1)) inner lists none [] timers) :
    (lists (0, tick % shape.slots)).Perm ((timers.filter (·.deadline ≤ tick)).map (·.entry)) := by
  refine (List.perm_ext_iff_of_nodup (tracks.represents.nodup _)
    (tracks.nodup.sublist (List.filter_sublist.map _))).mpr fun entry => ?_
  constructor
  · intro listed
    obtain ⟨timer, member, rfl⟩ := List.mem_map.mp ((tracks.covers entry).mpr (.inl ⟨_, listed⟩))
    exact List.mem_map_of_mem (by simpa using ⟨member, (tracks.mem_drained_iff member).mp listed⟩)
  · intro mapped
    obtain ⟨timer, filtered, rfl⟩ := List.mem_map.mp mapped
    obtain ⟨member, due⟩ := List.mem_filter.mp filtered
    exact (tracks.mem_drained_iff member).mpr (by simpa using due)

/-- What one tick does to the firings and the entries, given the timers it found due. -/
structure Fires (before after : Inner Waker) (due : List FlatTimer) (tick : Nat) : Prop where
  currentTick : after.currentTick = tick
  fired : ∃ firings, after.fired = before.fired ++ firings ∧ firings.Perm
    (due.map fun timer => ⟨tick, timer.entry, (before.entries timer.entry).waker⟩)
  deadline : ∀ entry, (after.entries entry).deadline = (before.entries entry).deadline
  waker : ∀ entry, (after.entries entry).waker =
    if entry ∈ due.map (·.entry) then none else (before.entries entry).waker

/-- A tick drains exactly the entries whose deadline it reaches. -/
theorem Inner.advanceOne_exact (levels : 2 ≤ shape.levels)
    (fits : shape.slots ^ shape.levels ≤ U64.max) (ticks : inner.currentTick < U64.max)
    (tracks : Tracks (Placed shape inner.currentTick) inner lists none [] timers) :
    ∃ after lists' drained, inner.advanceOne shape = some after ∧
      Tracks (Placed shape (inner.currentTick + 1)) after lists' none []
        (timers.filter (·.entry ∉ drained)) ∧
      Drains inner after drained (inner.currentTick + 1) ∧
      drained.Perm ((timers.filter (·.deadline ≤ inner.currentTick + 1)).map (·.entry)) ∧
      ∀ timer ∈ timers, timer.entry ∈ drained ↔ timer.deadline ≤ inner.currentTick + 1 := by
  have counts : U64.wrappingAdd inner.currentTick 1 = inner.currentTick + 1 :=
    U64.wrappingAdd_eq ticks
  let ticked : Inner Waker := { inner with currentTick := inner.currentTick + 1 }
  have started : Tracks (Reaching shape ticked.currentTick 0) ticked lists none [] timers :=
    (tracks.mono fun _ _ _ placed => placed.tick).retime _
  have remaining : 0 + 1 + (shape.levels - 1) = shape.levels := by omega
  obtain ⟨middle, lists', cascades, reached, frame⟩ :=
    cascadeLevels_tracks levels fits (Nat.succ_pos _) remaining started
  have sameTick : middle.currentTick = inner.currentTick + 1 := frame.tick
  obtain ⟨after, drainsSlot, kept, drains⟩ :=
    drainSlot_drains reached (0, middle.currentTick % shape.slots)
  rw [sameTick] at drains kept
  refine ⟨after, Function.update lists' (0, (inner.currentTick + 1) % shape.slots) [], _, ?_, ?_,
    drains.after_frame frame.fired frame.deadline frame.waker, reached.drained_perm,
    fun timer member => reached.mem_drained_iff member⟩
  · rw [Nat.zero_add, Nat.pow_one] at cascades
    simp only [advanceOne, counts, Option.bind_eq_bind]
    change Option.bind (ticked.cascadeLevels _ _ _) _ = _
    rw [cascades]
    exact drainsSlot
  · refine kept.mono fun head entry listed reaching => reaching.placed ?_
    refine Nat.lt_of_not_le fun due => ?_
    rw [reaching.due_iff.mp due, Function.update_self] at listed
    simp at listed

theorem Inner.advanceOne_tracks (levels : 2 ≤ shape.levels)
    (fits : shape.slots ^ shape.levels ≤ U64.max) (ticks : inner.currentTick < U64.max)
    (tracks : Tracks (Placed shape inner.currentTick) inner lists none [] timers) :
    ∃ after lists', inner.advanceOne shape = some after ∧
      Tracks (Placed shape (inner.currentTick + 1)) after lists' none []
        (timers.filter (inner.currentTick + 1 < ·.deadline)) ∧
      Fires inner after (timers.filter (·.deadline ≤ inner.currentTick + 1))
        (inner.currentTick + 1) := by
  obtain ⟨after, lists', drained, advances, kept, drains, drainedDue, dueIff⟩ :=
    advanceOne_exact levels fits ticks tracks
  have remaining : timers.filter (·.entry ∉ drained) =
      timers.filter (inner.currentTick + 1 < ·.deadline) := by
    refine List.filter_congr fun timer member => ?_
    simp only [dueIff timer member, Nat.not_le]
  rw [remaining] at kept
  refine ⟨after, lists', advances, kept, drains.currentTick, ⟨_, drains.fired, ?_⟩,
    drains.deadline, ?_⟩
  · simpa only [List.map_map, Function.comp_def] using drainedDue.map fun entry =>
      (⟨inner.currentTick + 1, entry, (inner.entries entry).waker⟩ : Firing Waker)
  · intro entry
    simp only [drains.waker, drainedDue.mem_iff]

end TptAsync.Timer
