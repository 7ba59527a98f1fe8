import TptAsync.Timer.WheelAdvance

set_option autoImplicit false

/-! Every operation on a wheel does what it does on flat timers, and so does every run. -/

namespace TptAsync.Timer

open Lib Lib.IntrusiveList

variable {Waker : Type} {shape : Shape} {wheel : TimerWheel Waker} {flat : FlatTimers Waker}

/-- The wheel between two operations does the work of `flat`. -/
structure Refines (shape : Shape) (wheel : TimerWheel Waker) (flat : FlatTimers Waker) : Prop where
  now : wheel.currentTick = flat.now
  due : ∀ timer ∈ flat.timers, timer.due = max timer.deadline (flat.now + 1)
  waker : ∀ entry, (wheel.entries entry).waker = flat.wakers entry
  fired : wheel.fired.Perm flat.fired
  tracks : ∃ lists, Tracks (Placed shape flat.now) wheel lists none [] flat.timers

theorem Refines.new : Refines shape (TimerWheel.new : TimerWheel Waker) FlatTimers.new where
  now := rfl
  due timer member := by simp [FlatTimers.new] at member
  waker _ := rfl
  fired := .nil
  tracks := by
    refine ⟨fun _ => [], ⟨?_, rfl, .nil, ?_, ?_, ?_⟩⟩
    · exact Represents.empty
    · simp [FlatTimers.new]
    · simp [FlatTimers.new]
    · simp

theorem FlatTimers.registered_iff (entry : Addr) :
    flat.registered entry = true ↔ entry ∈ flat.timers.map (·.entry) := by
  simp [registered]

theorem FlatTimers.missing_of_unregistered {entry : Addr}
    (unregistered : flat.registered entry = false) : entry ∉ flat.timers.map (·.entry) := by
  rw [← FlatTimers.registered_iff, unregistered]
  exact Bool.false_ne_true

theorem Refines.len (refines : Refines shape wheel flat) : wheel.len = flat.timers.length := by
  obtain ⟨_, tracks⟩ := refines.tracks
  exact tracks.count

theorem Refines.isRegistered (refines : Refines shape wheel flat) (entry : Addr) :
    (wheel.entries entry).isRegistered = flat.registered entry := by
  obtain ⟨lists, tracks⟩ := refines.tracks
  rw [Bool.eq_iff_iff, tracks.isRegistered_iff, FlatTimers.registered_iff]

section Advance

variable (levels : 2 ≤ shape.levels) (fits : shape.slots ^ shape.levels ≤ U64.max)
include levels fits

theorem Refines.advanceOne (refines : Refines shape wheel flat) (ticks : flat.now < U64.max) :
    ∃ after, Inner.advanceOne shape wheel = some after ∧ Refines shape after flat.advanceOne ∧
      ∀ entry, (after.entries entry).deadline = (wheel.entries entry).deadline := by
  obtain ⟨lists, tracks⟩ := refines.tracks
  rw [← refines.now] at ticks tracks
  obtain ⟨after, lists', advances, kept, fires⟩ := Inner.advanceOne_tracks levels fits ticks tracks
  rw [refines.now] at kept fires
  have dueNext : flat.timers.filter (·.deadline ≤ flat.now + 1) = flat.dueNext := by
    refine List.filter_congr fun timer member => ?_
    rw [refines.due timer member, Bool.eq_iff_iff, decide_eq_true_iff, beq_iff_eq]
    omega
  have remaining : flat.timers.filter (flat.now + 1 < ·.deadline) = flat.advanceOne.timers := by
    refine List.filter_congr fun timer member => ?_
    rw [refines.due timer member, Bool.eq_iff_iff, decide_eq_true_iff, bne_iff_ne]
    omega
  rw [dueNext] at fires
  rw [remaining] at kept
  refine ⟨after, advances, ⟨fires.currentTick, ?_, ?_, ?_, lists', kept⟩, fires.deadline⟩
  · intro timer member
    obtain ⟨member, notDue⟩ := List.mem_filter.mp member
    have due := refines.due timer member
    simp only [bne_iff_ne, ne_eq] at notDue
    change timer.due = max timer.deadline (flat.now + 1 + 1)
    omega
  · intro entry
    simp only [fires.waker, refines.waker]
    rfl
  · obtain ⟨firings, fired, same⟩ := fires.fired
    rw [fired]
    refine refines.fired.append (same.trans (.of_eq (List.map_congr_left fun timer member => ?_)))
    rw [refines.waker, beq_iff_eq.mp (List.mem_filter.mp member).2]

theorem Refines.tickN (count : Nat) (refines : Refines shape wheel flat)
    (ticks : flat.now + count ≤ U64.max) :
    ∃ after, wheel.tickN shape count = some after ∧
      Refines shape after (FlatTimers.advance count flat) ∧
      ∀ entry, (after.entries entry).deadline = (wheel.entries entry).deadline := by
  induction count generalizing wheel flat with
  | zero => exact ⟨wheel, rfl, refines, fun _ => rfl⟩
  | succ count ih =>
      obtain ⟨middle, advances, stepped, same⟩ := refines.advanceOne levels fits (by omega)
      obtain ⟨after, finishes, kept, rest⟩ := ih stepped (by simp only [FlatTimers.advanceOne]; omega)
      refine ⟨after, ?_, kept, fun entry => (rest entry).trans (same entry)⟩
      simp only [TimerWheel.tickN, advances, Option.bind_eq_bind, Option.bind_some, finishes]

theorem Refines.advanceLoop {target fuel : Nat} (refines : Refines shape wheel flat)
    (enough : target - flat.now ≤ fuel) (ticks : target ≤ U64.max) :
    ∃ after, wheel.advanceLoop shape target fuel = some after ∧
      Refines shape after (FlatTimers.advance (target - flat.now) flat) ∧
      ∀ entry, (after.entries entry).deadline = (wheel.entries entry).deadline := by
  induction fuel generalizing wheel flat with
  | zero =>
      rw [Nat.le_zero.mp enough]
      exact ⟨wheel, rfl, refines, fun _ => rfl⟩
  | succ fuel ih =>
      simp only [TimerWheel.advanceLoop, refines.now]
      split
      · next behind =>
          obtain ⟨middle, advances, stepped, same⟩ := refines.advanceOne levels fits (by omega)
          obtain ⟨after, finishes, kept, rest⟩ :=
            ih stepped (by simp only [FlatTimers.advanceOne]; omega)
          refine ⟨after, ?_, ?_, fun entry => (rest entry).trans (same entry)⟩
          · simp only [advances, Option.bind_eq_bind, Option.bind_some, finishes]
          · have missing : target - flat.now = target - flat.advanceOne.now + 1 := by
              simp only [FlatTimers.advanceOne]
              omega
            rw [missing]
            exact kept
      · next reached =>
          rw [Nat.sub_eq_zero_of_le (Nat.le_of_not_lt reached)]
          exact ⟨wheel, rfl, refines, fun _ => rfl⟩

theorem Refines.advanceTo {target : Nat} (refines : Refines shape wheel flat)
    (ticks : flat.now + (target - flat.now) ≤ U64.max) :
    ∃ after, wheel.advanceTo shape target = some after ∧
      Refines shape after (FlatTimers.advance (target - flat.now) flat) ∧
      ∀ entry, (after.entries entry).deadline = (wheel.entries entry).deadline := by
  rw [TimerWheel.advanceTo, refines.now]
  by_cases behind : flat.now < target
  · exact refines.advanceLoop levels fits le_rfl (by omega)
  · rw [Nat.sub_eq_zero_of_le (Nat.le_of_not_lt behind)]
    exact ⟨wheel, rfl, refines, fun _ => rfl⟩

/-- Linking an unregistered entry, whose owner has written it before. -/
theorem Refines.insertOwned {entry : Addr} (refines : Refines shape wheel flat)
    (ticks : flat.now < U64.max) (unregistered : flat.registered entry = false) :
    Refines shape (Inner.insert shape wheel entry)
      (flat.insert entry (wheel.entries entry).deadline (flat.wakers entry)) := by
  obtain ⟨lists, tracks⟩ := refines.tracks
  have missing := FlatTimers.missing_of_unregistered unregistered
  let deadline := (wheel.entries entry).deadline
  have placed : Placed shape flat.now (wheel.chooseSlot shape deadline) deadline := by
    rw [← refines.now] at ticks ⊢
    exact Inner.chooseSlot_placed levels fits ticks
  have frame := Inner.link_frame wheel (wheel.chooseSlot shape deadline) entry
  refine ⟨frame.tick.trans refines.now, ?_, ?_, (List.Perm.of_eq frame.fired).trans refines.fired,
    @Tracks.insert _ shape _ _ _ _ ⟨entry, deadline, max deadline (flat.now + 1)⟩ tracks missing rfl
      placed⟩
  · intro timer member
    rcases List.mem_append.mp member with old | new
    · exact refines.due timer old
    · rw [List.mem_singleton.mp new]
      rfl
  · intro found
    rw [FlatTimers.insert, Function.update_eq_self]
    exact (frame.waker found).trans (refines.waker found)

end Advance

theorem Refines.own {entry : Addr} (refines : Refines shape wheel flat)
    (unregistered : flat.registered entry = false) (deadline : Nat) (waker : Option Waker) :
    Refines shape (wheel.own entry deadline waker)
      { flat with wakers := Function.update flat.wakers entry waker } := by
  obtain ⟨lists, tracks⟩ := refines.tracks
  refine ⟨refines.now, refines.due, ?_, refines.fired, lists,
    tracks.own (FlatTimers.missing_of_unregistered unregistered) deadline waker⟩
  intro found
  by_cases same : found = entry
  · simp [TimerWheel.own, same]
  · rw [TimerWheel.own_other same, refines.waker]
    simp [same]

theorem Refines.insert {entry : Addr} (levels : 2 ≤ shape.levels)
    (fits : shape.slots ^ shape.levels ≤ U64.max) (refines : Refines shape wheel flat)
    (ticks : flat.now < U64.max) (unregistered : flat.registered entry = false) (deadline : Nat)
    (waker : Option Waker) :
    ∃ after, wheel.apply shape (.insert entry deadline waker) = some after ∧
      Refines shape after (flat.insert entry deadline waker) := by
  have linked := (refines.own unregistered deadline waker).insertOwned levels fits ticks unregistered
  simp only [TimerWheel.own_deadline, FlatTimers.insert, Function.update_self,
    Function.update_idem] at linked
  refine ⟨_, ?_, linked⟩
  rw [TimerWheel.apply, if_neg (by simp [refines.isRegistered, unregistered])]

theorem Refines.remove (refines : Refines shape wheel flat) (entry : Addr) :
    ∃ after, Inner.remove wheel entry = some after ∧ Refines shape after (flat.remove entry) ∧
      ∀ found, (after.entries found).deadline = (wheel.entries found).deadline := by
  obtain ⟨lists, tracks⟩ := refines.tracks
  obtain ⟨after, lists', removes, kept, frame⟩ := tracks.remove entry
  have sameTimers : flat.timers.filter (·.entry ≠ entry) = (flat.remove entry).timers := by
    refine List.filter_congr fun timer _ => ?_
    rw [Bool.eq_iff_iff, decide_eq_true_iff, bne_iff_ne]
  rw [sameTimers] at kept
  refine ⟨after, removes, ⟨frame.tick.trans refines.now, ?_, ?_, ?_, lists', kept⟩, frame.deadline⟩
  · exact fun timer member => refines.due timer (List.mem_of_mem_filter member)
  · exact fun found => (frame.waker found).trans (refines.waker found)
  · rw [frame.fired]
    exact refines.fired

theorem FlatTimers.advance_now (count : Nat) (flat : FlatTimers Waker) :
    (advance count flat).now = flat.now + count := by
  induction count generalizing flat with
  | zero => rfl
  | succ count ih =>
      rw [advance, ih]
      simp only [advanceOne]
      omega

theorem FlatTimers.apply_now_le {op : Op Waker} {next : FlatTimers Waker}
    (applied : flat.apply op = some next) : flat.now ≤ next.now := by
  cases op with
  | insert entry deadline waker =>
      simp only [apply] at applied
      split at applied
      · cases applied
      · exact (congrArg now (Option.some.inj applied)).le
  | remove entry => exact (congrArg now (Option.some.inj applied)).le
  | tick =>
      rw [← Option.some.inj applied]
      exact Nat.le_succ _
  | tickN count =>
      rw [← Option.some.inj applied, advance_now]
      exact Nat.le_add_right _ _
  | advanceTo target =>
      rw [← Option.some.inj applied, advance_now]
      exact Nat.le_add_right _ _

theorem FlatTimers.run_now_le {ops : List (Op Waker)} {last : FlatTimers Waker}
    (ran : flat.run ops = some last) : flat.now ≤ last.now := by
  induction ops generalizing flat with
  | nil => exact (congrArg now (Option.some.inj ran)).le
  | cons op rest ih =>
      obtain ⟨next, applied, continued⟩ := Option.bind_eq_some_iff.mp ran
      exact (apply_now_le applied).trans (ih continued)

section Runs

variable (levels : 2 ≤ shape.levels) (fits : shape.slots ^ shape.levels ≤ U64.max)
include levels fits

theorem Refines.apply {op : Op Waker} {next : FlatTimers Waker}
    (refines : Refines shape wheel flat) (applied : flat.apply op = some next)
    (ticks : next.now < U64.max) :
    ∃ after, wheel.apply shape op = some after ∧ Refines shape after next := by
  have before := (FlatTimers.apply_now_le applied).trans_lt ticks
  cases op with
  | insert entry deadline waker =>
      simp only [FlatTimers.apply] at applied
      split at applied
      · cases applied
      · next unregistered =>
          rw [← Option.some.inj applied]
          exact Refines.insert levels fits refines before (by simpa using unregistered) deadline waker
  | remove entry =>
      rw [← Option.some.inj applied]
      obtain ⟨after, removes, kept, _⟩ := refines.remove entry
      exact ⟨after, removes, kept⟩
  | tick =>
      obtain rfl := Option.some.inj applied
      obtain ⟨after, advances, kept, _⟩ :=
        refines.advanceOne levels fits (Nat.lt_of_succ_lt ticks)
      exact ⟨after, advances, kept⟩
  | tickN count =>
      obtain rfl := Option.some.inj applied
      rw [FlatTimers.advance_now] at ticks
      obtain ⟨after, advances, kept, _⟩ := refines.tickN levels fits count ticks.le
      exact ⟨after, advances, kept⟩
  | advanceTo target =>
      obtain rfl := Option.some.inj applied
      rw [FlatTimers.advance_now] at ticks
      obtain ⟨after, advances, kept, _⟩ := refines.advanceTo levels fits ticks.le
      exact ⟨after, advances, kept⟩

theorem Refines.run {ops : List (Op Waker)} {last : FlatTimers Waker}
    (refines : Refines shape wheel flat) (ran : flat.run ops = some last)
    (ticks : last.now < U64.max) :
    ∃ after, wheel.run shape ops = some after ∧ Refines shape after last := by
  induction ops generalizing wheel flat with
  | nil =>
      obtain rfl := Option.some.inj ran
      exact ⟨wheel, rfl, refines⟩
  | cons op rest ih =>
      obtain ⟨next, applied, continued⟩ := Option.bind_eq_some_iff.mp ran
      obtain ⟨middle, stepped, kept⟩ := refines.apply levels fits applied
        ((FlatTimers.run_now_le continued).trans_lt ticks)
      obtain ⟨after, finishes, kept⟩ := ih kept continued
      refine ⟨after, ?_, kept⟩
      rw [TimerWheel.run, stepped]
      exact finishes

end Runs

end TptAsync.Timer
