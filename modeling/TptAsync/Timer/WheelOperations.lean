import TptAsync.Timer.WheelRefinement

set_option autoImplicit false

/-!
# Wheel operations on tracked timers

What one operation does to the lists of a wheel, whatever rule its entries are placed
by. The rules themselves only have to say where `choose_slot` and the cascades put an entry.
-/

namespace TptAsync.Timer

open Lib Lib.IntrusiveList

variable {Waker : Type} {shape : Shape} {place mid : SlotHead → Nat → Prop}
  {inner : Inner Waker} {lists : SlotHead → List Addr} {timers : List FlatTimer} {entry : Addr}

section Registered

variable (tracks : Tracks place inner lists none [] timers)
include tracks

theorem Tracks.listed_iff (entry : Addr) :
    (∃ head, entry ∈ lists head) ↔ entry ∈ timers.map (·.entry) := by
  simpa using (tracks.covers entry).symm

theorem Tracks.absent (missing : entry ∉ timers.map (·.entry)) (head : SlotHead) :
    entry ∉ lists head :=
  fun listed => missing ((tracks.listed_iff entry).mp ⟨head, listed⟩)

theorem Tracks.linked_iff (entry : Addr) : inner.Linked entry ↔ entry ∈ timers.map (·.entry) := by
  rw [← tracks.listed_iff]
  exact exists_congr fun head => (tracks.represents.mem_iff_walk head entry).symm

theorem Tracks.isRegistered_iff (entry : Addr) :
    (inner.entries entry).isRegistered = true ↔ entry ∈ timers.map (·.entry) := by
  rw [Inner.isRegistered_iff, ne_eq, tracks.represents.linked_iff, ← tracks.listed_iff]
  push Not
  rfl

end Registered

theorem TimerWheel.own_other {wheel : TimerWheel Waker} {entry other : Addr} (distinct : other ≠ entry)
    (deadline : Nat) (waker : Option Waker) :
    (wheel.own entry deadline waker).entries other = wheel.entries other :=
  Function.update_of_ne distinct _ _

theorem TimerWheel.setWaker_deadline (wheel : TimerWheel Waker) (entry : Addr) (waker : Waker)
    (found : Addr) :
    ((wheel.setWaker entry waker).entries found).deadline = (wheel.entries found).deadline := by
  by_cases same : found = entry <;> simp [setWaker, same]

theorem TimerWheel.links_setWaker (wheel : TimerWheel Waker) (entry : Addr) (waker : Waker) :
    Inner.links (wheel.setWaker entry waker) = Inner.links wheel := by
  refine (Inner.links_relink wheel entry _).trans ?_
  simp only [Inner.links, Function.update_eq_self_iff.mpr]

theorem Tracks.own (tracks : Tracks place inner lists none [] timers)
    (missing : entry ∉ timers.map (·.entry)) (deadline : Nat) (waker : Option Waker) :
    Tracks place (TimerWheel.own inner entry deadline waker) lists none [] timers := by
  have others : ∀ {found}, found ≠ entry →
      (TimerWheel.own inner entry deadline waker).entries found = inner.entries found :=
    fun distinct => TimerWheel.own_other distinct deadline waker
  refine ⟨?_, tracks.count, tracks.nodup, tracks.covers, ?_, ?_⟩
  · rw [show Inner.links (TimerWheel.own inner entry deadline waker) = inner.links.release entry from
      Inner.links_relink inner entry _]
    exact tracks.represents.release_unlinked (tracks.absent missing)
  · intro timer member
    rw [others fun same => missing (same ▸ List.mem_map_of_mem member), tracks.deadline timer member]
  · intro head found listed
    rw [others fun same => tracks.absent missing head (same ▸ listed)]
    exact tracks.placed head found listed

theorem Tracks.setWaker (tracks : Tracks place inner lists none [] timers) (entry : Addr)
    (waker : Waker) :
    Tracks place (TimerWheel.setWaker inner entry waker) lists none [] timers := by
  refine ⟨?_, tracks.count, tracks.nodup, tracks.covers, ?_, ?_⟩
  · rw [TimerWheel.links_setWaker]
    exact tracks.represents
  · intro timer member
    rw [TimerWheel.setWaker_deadline, tracks.deadline timer member]
  · intro head found listed
    rw [TimerWheel.setWaker_deadline]
    exact tracks.placed head found listed

theorem Tracks.insert {timer : FlatTimer} (tracks : Tracks place inner lists none [] timers)
    (missing : timer.entry ∉ timers.map (·.entry))
    (deadline : (inner.entries timer.entry).deadline = timer.deadline)
    (placed : place (inner.chooseSlot shape timer.deadline) timer.deadline) :
    ∃ lists', Tracks place (inner.insert shape timer.entry) lists' none [] (timers ++ [timer]) := by
  refine ⟨_, Tracks.link tracks.represents (tracks.absent missing) List.not_mem_nil ?_ ?_ ?_ ?_
    tracks.placed ?_⟩
  · simpa using tracks.count
  · rw [List.map_append, List.map_singleton]
    exact List.nodup_append_comm.mp (List.nodup_cons.mpr ⟨missing, tracks.nodup⟩)
  · intro found
    rw [tracks.listed_iff]
    simp
  · intro other member
    rcases List.mem_append.mp member with old | new
    · exact tracks.deadline other old
    · rw [List.mem_singleton.mp new, deadline]
  · rw [deadline]
    exact placed

theorem Tracks.unlink {after : Inner Waker} {head : SlotHead}
    (tracks : Tracks place inner lists none [] timers) (listed : entry ∈ lists head)
    (links : after.links = inner.links.unlink entry) (count : after.pending + 1 = inner.pending)
    (frame : Inner.Frame inner after) :
    Tracks place after (Function.update lists head ((lists head).erase entry)) none []
      (timers.filter (·.entry ≠ entry)) := by
  have kept : ∀ {timer}, timer ∈ timers.filter (·.entry ≠ entry) →
      timer ∈ timers ∧ timer.entry ≠ entry := by
    intro timer member
    simpa using member
  have erased : ∀ other found, found ∈ Function.update lists head ((lists head).erase entry) other ↔
      found ∈ lists other ∧ found ≠ entry :=
    fun _ _ => tracks.represents.mem_update_erase listed
  constructor
  · rw [links]
    exact tracks.represents.unlink listed
  · have shorter :=
      length_filter_entry tracks.nodup ((tracks.covers entry).mpr (.inl ⟨head, listed⟩))
    have before := tracks.count
    omega
  · exact tracks.nodup.sublist (List.filter_sublist.map _)
  · intro found
    have covered := tracks.covers found
    simp only [List.not_mem_nil, or_false] at covered
    simp only [erased, List.not_mem_nil, or_false]
    constructor
    · intro member
      obtain ⟨timer, filtered, rfl⟩ := List.mem_map.mp member
      obtain ⟨inTimers, distinct⟩ := kept filtered
      obtain ⟨other, inOther⟩ := covered.mp (List.mem_map_of_mem inTimers)
      exact ⟨other, inOther, distinct⟩
    · rintro ⟨other, inOther, distinct⟩
      obtain ⟨timer, inTimers, rfl⟩ := List.mem_map.mp (covered.mpr ⟨other, inOther⟩)
      exact List.mem_map_of_mem (by simpa using ⟨inTimers, distinct⟩)
  · intro timer member
    rw [frame.deadline]
    exact tracks.deadline timer (kept member).1
  · intro other found member
    rw [frame.deadline]
    exact tracks.placed other found ((erased other found).mp member).1

theorem Tracks.remove (tracks : Tracks place inner lists none [] timers) (entry : Addr) :
    ∃ after lists', inner.remove entry = some after ∧
      Tracks place after lists' none [] (timers.filter (·.entry ≠ entry)) ∧
      Inner.Frame inner after := by
  by_cases registered : entry ∈ timers.map (·.entry)
  · obtain ⟨head, listed⟩ := (tracks.listed_iff entry).mpr registered
    have linked : inner.links.prevNext entry ≠ none := by
      rw [ne_eq, tracks.represents.linked_iff]
      exact fun absent => absent head listed
    have positive : 0 < inner.pending := by
      rw [tracks.count]
      exact List.length_pos_of_mem (List.mem_map.mp registered).choose_spec.1
    obtain ⟨after, removes, links, count, frame⟩ :=
      Inner.remove_registered inner entry linked positive
    exact ⟨after, _, removes, tracks.unlink listed links count frame, frame⟩
  · have clear : inner.links.prevNext entry = none := by
      rw [tracks.represents.linked_iff]
      exact tracks.absent registered
    have unchanged : timers.filter (·.entry ≠ entry) = timers := by
      refine List.filter_eq_self.mpr fun timer member => ?_
      simpa using fun same : timer.entry = entry => registered (same ▸ List.mem_map_of_mem member)
    rw [unchanged]
    exact ⟨inner, lists, Inner.remove_unregistered inner entry clear, tracks, .refl inner⟩

section Advance

theorem Inner.cascade_moves (head : SlotHead)
    (outside : ∀ found deadline, found ≠ head → place found deadline → mid found deadline)
    (targets : ∀ (state : Inner Waker) (deadline : Nat), state.currentTick = inner.currentTick →
      mid (state.cascadeTarget shape deadline) deadline)
    (tracks : Tracks place inner lists none [] timers) :
    ∃ after lists', inner.cascade shape head = some after ∧ Tracks mid after lists' none [] timers ∧
      Inner.Frame inner after := by
  have taken := tracks.takeHead head
  have moved := taken.mono (by
    intro found entry listed placed
    refine outside found _ ?_ placed
    rintro rfl
    simp at listed)
  have frame : Inner.Frame inner { inner with heads := Function.update inner.heads head none } :=
    ⟨rfl, rfl, fun _ => rfl, fun _ => rfl⟩
  obtain ⟨after, lists', finishes, kept, rest⟩ :=
    Inner.cascadeLoop_tracks moved taken.loose_le rfl targets
  exact ⟨after, lists', finishes, kept, frame.trans rest⟩

theorem Inner.cascadeLevels_keeps
    (targets : ∀ (state : Inner Waker) (deadline : Nat), state.currentTick = inner.currentTick →
      mid (state.cascadeTarget shape deadline) deadline)
    (tracks : Tracks mid inner lists none [] timers) (levels : List Nat) (width : Nat) :
    ∃ after lists', inner.cascadeLevels shape levels width = some after ∧
      Tracks mid after lists' none [] timers ∧ Inner.Frame inner after := by
  induction levels generalizing inner lists width with
  | nil => exact ⟨inner, lists, rfl, tracks, .refl inner⟩
  | cons level rest ih =>
      simp only [cascadeLevels]
      split
      · obtain ⟨middle, lists', cascades, kept, frame⟩ :=
          cascade_moves (level, inner.currentTick / width % shape.slots) (fun _ _ _ placed => placed) targets tracks
        obtain ⟨after, lists'', finishes, kept, later⟩ :=
          ih (fun state deadline same => targets state deadline (same.trans frame.tick)) kept
            (U64.saturatingMul width shape.slots)
        refine ⟨after, lists'', ?_, kept, frame.trans later⟩
        rw [cascades]
        exact finishes
      · exact ⟨inner, lists, rfl, tracks, .refl inner⟩

/-- What one tick does when it drains the entries `drained`. -/
structure Drains (before after : Inner Waker) (drained : List Addr) (tick : Nat) : Prop where
  currentTick : after.currentTick = tick
  fired : after.fired = before.fired ++
    drained.map fun entry => ⟨tick, entry, (before.entries entry).waker⟩
  deadline : ∀ entry, (after.entries entry).deadline = (before.entries entry).deadline
  waker : ∀ entry, (after.entries entry).waker =
    if entry ∈ drained then none else (before.entries entry).waker
  nodup : drained.Nodup

/-- Cascades before the drain move entries only. -/
theorem Drains.after_frame {before middle after : Inner Waker} {drained : List Addr} {tick : Nat}
    (drains : Drains middle after drained tick) (fired : middle.fired = before.fired)
    (deadline : ∀ entry, (middle.entries entry).deadline = (before.entries entry).deadline)
    (waker : ∀ entry, (middle.entries entry).waker = (before.entries entry).waker) :
    Drains before after drained tick where
  currentTick := drains.currentTick
  fired := by simp only [drains.fired, fired, waker]
  deadline entry := (drains.deadline entry).trans (deadline entry)
  waker entry := by rw [drains.waker, waker]
  nodup := drains.nodup

theorem Inner.drainSlot_drains (tracks : Tracks place inner lists none [] timers) (head : SlotHead) :
    ∃ after, inner.drainSlot head = some after ∧
      Tracks place after (Function.update lists head []) none []
        (timers.filter (·.entry ∉ lists head)) ∧
      Drains inner after (lists head) inner.currentTick := by
  have taken := tracks.takeHead head
  obtain ⟨after, finishes, kept, sameTick, fired, deadlines, wakers⟩ :=
    Inner.drainLoop_tracks taken taken.loose_le
  exact ⟨after, finishes, kept, sameTick, fired, deadlines, wakers, tracks.represents.nodup head⟩

/-- A tick drains entries of the level-0 slot it reaches, and only these; it leaves that slot
empty. -/
theorem Inner.advanceOne_drains (ticks : inner.currentTick < U64.max)
    (targets : 2 ≤ shape.levels → ∀ (state : Inner Waker) (deadline : Nat),
      state.currentTick = inner.currentTick + 1 → place (state.cascadeTarget shape deadline) deadline)
    (tracks : Tracks place inner lists none [] timers) :
    ∃ after lists' drained, inner.advanceOne shape = some after ∧
      Tracks place after lists' none [] (timers.filter (·.entry ∉ drained)) ∧
      lists' (0, (inner.currentTick + 1) % shape.slots) = [] ∧
      Drains inner after drained (inner.currentTick + 1) ∧
      ∀ entry ∈ drained, entry ∈ timers.map (·.entry) ∧
        place (0, (inner.currentTick + 1) % shape.slots) (inner.entries entry).deadline := by
  have counts : U64.wrappingAdd inner.currentTick 1 = inner.currentTick + 1 :=
    U64.wrappingAdd_eq ticks
  let ticked : Inner Waker := { inner with currentTick := inner.currentTick + 1 }
  have started : Tracks place ticked lists none [] timers := tracks.retime _
  have cascaded : ∃ middle lists', ticked.cascadeLevels shape
      (List.range' 1 (shape.levels - 1)) shape.slots = some middle ∧
      Tracks place middle lists' none [] timers ∧ Inner.Frame ticked middle := by
    by_cases coarse : 2 ≤ shape.levels
    · exact cascadeLevels_keeps (targets coarse) started _ _
    · rw [show shape.levels - 1 = 0 by omega]
      exact ⟨ticked, lists, rfl, started, .refl ticked⟩
  obtain ⟨middle, lists', cascades, kept, frame⟩ := cascaded
  have sameTick : middle.currentTick = inner.currentTick + 1 := frame.tick
  obtain ⟨after, finishes, left, drains⟩ :=
    drainSlot_drains kept (0, middle.currentTick % shape.slots)
  rw [sameTick] at drains left
  refine ⟨after, _, _, ?_, left, Function.update_self _ _ _,
    drains.after_frame frame.fired frame.deadline frame.waker, ?_⟩
  · simp only [advanceOne, counts, Option.bind_eq_bind]
    change Option.bind (ticked.cascadeLevels _ _ _) _ = _
    rw [cascades]
    exact finishes
  · intro entry listed
    have placed := kept.placed _ entry listed
    rw [frame.deadline] at placed
    exact ⟨(kept.listed_iff entry).mp ⟨_, listed⟩, placed⟩

end Advance

end TptAsync.Timer
