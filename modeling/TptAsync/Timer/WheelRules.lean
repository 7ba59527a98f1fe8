import TptAsync.Timer.WheelAdvance

set_option autoImplicit false

/-!
# Placement rules

A rule says where entries may be linked at each tick. What a rule is worth depends on the
shape: every shape keeps its entries in range, entries inserted within one lap are never
drained early, and the full hierarchy drains them on time.
-/

namespace TptAsync.Timer

open Lib Lib.IntrusiveList

variable {Waker : Type} {shape : Shape}

/-- A rule that `insert` keeps for the deadlines that it `may` take, and that every tick
keeps. A `safe` rule drains no entry early, and an `exact` one none late. -/
structure Rule (Waker : Type) (shape : Shape) (place : Nat → SlotHead → Nat → Prop)
    (may : Nat → Nat → Prop) (safe exact : Prop) : Prop where
  inserts : ∀ {inner : Inner Waker} {deadline : Nat}, inner.currentTick < U64.max →
    may inner.currentTick deadline →
    place inner.currentTick (inner.chooseSlot shape deadline) deadline
  advances : ∀ {inner : Inner Waker} {lists : SlotHead → List Addr} {timers : List FlatTimer},
    inner.currentTick < U64.max → Tracks (place inner.currentTick) inner lists none [] timers →
    ∃ after lists' drained, inner.advanceOne shape = some after ∧
      Tracks (place (inner.currentTick + 1)) after lists' none [] (timers.filter (·.entry ∉ drained)) ∧
      Drains inner after drained (inner.currentTick + 1) ∧
      (∀ entry ∈ drained, entry ∈ timers.map (·.entry)) ∧
      (safe → ∀ entry ∈ drained, (inner.entries entry).deadline ≤ inner.currentTick + 1) ∧
      (exact → ∀ timer ∈ timers, timer.deadline ≤ inner.currentTick + 1 → timer.entry ∈ drained)

section Levels

variable {delta : Nat}

theorem Inner.le_chooseLevel (fuel level width : Nat) :
    level ≤ chooseLevel shape delta fuel level width := by
  induction fuel generalizing level width with
  | zero => exact le_rfl
  | succ fuel ih =>
      rw [chooseLevel]
      split
      · exact (Nat.le_succ level).trans (ih _ _)
      · exact le_rfl

theorem Inner.chooseLevel_lt {fuel level : Nat} (width : Nat) (within : level < shape.levels) :
    chooseLevel shape delta fuel level width < shape.levels := by
  induction fuel generalizing level width with
  | zero => exact within
  | succ fuel ih =>
      rw [chooseLevel]
      split
      · next continues => exact ih _ continues.1
      · exact within

/-- The finest level is chosen within its own lap, or where there is no other. -/
theorem Inner.chooseLevel_eq_zero
    (finest : chooseLevel shape delta shape.levels 0 shape.slots = 0) :
    shape.levels = 1 ∨ delta < shape.slots := by
  obtain ⟨fuel, levels⟩ := Nat.exists_eq_succ_of_ne_zero (Nat.ne_of_gt shape.oneLeLevels)
  rw [levels, chooseLevel] at finest
  split at finest
  · have coarse := @le_chooseLevel shape delta fuel (0 + 1) (U64.saturatingMul shape.slots shape.slots)
    omega
  · next stops => omega

end Levels

/-- Slots that exist. -/
def InRange (shape : Shape) (_tick : Nat) (head : SlotHead) (_deadline : Nat) : Prop :=
  head.1 < shape.levels ∧ head.2 < shape.slots

theorem Inner.chooseSlot_inRange (inner : Inner Waker) (deadline tick : Nat) :
    InRange shape tick (inner.chooseSlot shape deadline) deadline := by
  unfold chooseSlot
  simp only
  split
  · exact ⟨shape.oneLeLevels, Nat.mod_lt _ shape.slots_pos⟩
  · exact ⟨chooseLevel_lt _ shape.oneLeLevels, Nat.mod_lt _ shape.slots_pos⟩

theorem inRange_rule (shape : Shape) :
    Rule Waker shape (InRange shape) (fun _ _ => True) False False where
  inserts {inner deadline} _ _ := inner.chooseSlot_inRange deadline _
  advances {inner lists timers} ticks tracks := by
    obtain ⟨after, lists', drained, advances, kept, _, drains, linked⟩ :=
      Inner.advanceOne_drains ticks (fun _ state deadline _ => by
        unfold Inner.cascadeTarget
        split
        · exact ⟨shape.oneLeLevels, Nat.mod_lt _ shape.slots_pos⟩
        · exact state.chooseSlot_inRange deadline _) tracks
    exact ⟨after, lists', drained, advances, kept, drains, fun entry listed => (linked entry listed).1,
      False.elim, False.elim⟩

/-- A level-0 entry is in the slot of its deadline, less than one lap from the `next` tick,
or its deadline is before that tick. -/
def Near (shape : Shape) (next : Nat) (head : SlotHead) (deadline : Nat) : Prop :=
  head.1 = 0 → deadline < next ∨ (deadline < next + shape.slots ∧ head.2 = deadline % shape.slots)

/-- Entries that the level-0 slots can hold apart, if there is no coarser level. -/
def WithinLap (shape : Shape) (tick deadline : Nat) : Prop :=
  2 ≤ shape.levels ∨ deadline ≤ tick + shape.slots

theorem Near.later {next deadline : Nat} {head : SlotHead} (near : Near shape next head deadline) :
    Near shape (next + 1) head deadline := by
  intro finest
  rcases near finest with due | ⟨lap, own⟩
  · exact .inl (Nat.lt_succ_of_lt due)
  · exact .inr ⟨by omega, own⟩

theorem Near.drained {tick deadline : Nat}
    (near : Near shape tick (0, tick % shape.slots) deadline) : deadline ≤ tick := by
  rcases near rfl with due | ⟨lap, own⟩
  · exact due.le
  · refine Nat.le_of_not_lt fun future => ?_
    have difference : (deadline - tick) % shape.slots = 0 :=
      Nat.sub_mod_eq_zero_of_mod_eq own.symm
    rw [Nat.mod_eq_of_lt (by omega)] at difference
    omega

theorem Inner.chooseSlot_near {inner : Inner Waker} {deadline : Nat}
    (within : WithinLap shape inner.currentTick deadline) :
    Near shape (inner.currentTick + 1) (inner.chooseSlot shape deadline) deadline := by
  unfold chooseSlot
  simp only
  split
  · next due => exact fun _ => .inl (by omega)
  · next future =>
      intro finest
      have finest : chooseLevel shape (deadline - inner.currentTick) shape.levels 0 shape.slots = 0 :=
        finest
      refine .inr ⟨?_, ?_⟩
      · rcases chooseLevel_eq_zero finest with single | near
        · rcases within with coarse | lap <;> omega
        · omega
      · have resolution : U64.saturatingPow shape.slots 0 = 1 :=
          U64.saturatingPow_eq (by rw [Nat.pow_zero]; decide)
        simp only [finest, resolution, Nat.div_one]

theorem Inner.cascadeTarget_near {inner : Inner Waker} {deadline : Nat} (coarse : 2 ≤ shape.levels) :
    Near shape inner.currentTick (inner.cascadeTarget shape deadline) deadline := by
  have slots := shape.slots_pos
  unfold cascadeTarget
  split
  · next reached =>
      rcases Nat.lt_or_eq_of_le reached with late | equal
      · exact fun _ => .inl late
      · exact fun _ => .inr ⟨by omega, by rw [equal]⟩
  · next future =>
      intro finest
      rcases chooseSlot_near (.inl coarse) finest with due | ⟨_, own⟩
      · omega
      · refine .inr ⟨?_, own⟩
        have someDelta : deadline - inner.currentTick ≠ 0 := by omega
        simp only [chooseSlot, if_neg someDelta] at finest
        rcases chooseLevel_eq_zero finest with single | near <;> omega

theorem near_rule (shape : Shape) :
    Rule Waker shape (fun tick => Near shape (tick + 1)) (WithinLap shape) True False where
  inserts _ within := Inner.chooseSlot_near within
  advances {inner lists timers} ticks tracks := by
    obtain ⟨after, lists', drained, advances, kept, _, drains, linked⟩ :=
      Inner.advanceOne_drains ticks (fun coarse state deadline sameTick => by
        rw [← sameTick]
        exact Inner.cascadeTarget_near coarse) tracks
    refine ⟨after, lists', drained, advances, kept.mono fun _ _ _ near => near.later, drains,
      fun entry listed => (linked entry listed).1, fun _ entry listed => ?_, False.elim⟩
    exact (linked entry listed).2.drained

/-- A slot of the only level that no tick since `start` has reached. -/
def Unswept (shape : Shape) (start tick : Nat) (head : SlotHead) (_deadline : Nat) : Prop :=
  head.1 < shape.levels ∧ head.2 < shape.slots ∧
    ∀ reached, start < reached → reached ≤ tick → head.2 ≠ reached % shape.slots

/-- The ticks of a lap reach every slot. -/
theorem Unswept.within {start tick deadline : Nat} {head : SlotHead}
    (unswept : Unswept shape start tick head deadline) : tick < start + shape.slots := by
  obtain ⟨_, slot, missed⟩ := unswept
  refine Nat.lt_of_not_le fun lap => ?_
  let ahead := (start + shape.slots - head.2) % shape.slots
  have less : ahead < shape.slots := Nat.mod_lt _ shape.slots_pos
  have reaches : (start + shape.slots - ahead) % shape.slots = head.2 := by
    have whole : start + shape.slots - ahead =
        head.2 + shape.slots * ((start + shape.slots - head.2) / shape.slots) := by
      have := Nat.mod_add_div (start + shape.slots - head.2) shape.slots
      omega
    rw [whole, Nat.add_mul_mod_self_left, Nat.mod_eq_of_lt slot]
  exact missed (start + shape.slots - ahead) (by omega) (by omega) reaches.symm

/-- Without a coarser level, nothing comes back to a slot that has been drained. -/
theorem unswept_rule (single : shape.levels = 1) (start : Nat) :
    Rule Waker shape (Unswept shape start) (fun _ _ => False) False False where
  inserts _ never := never.elim
  advances {inner lists timers} ticks tracks := by
    obtain ⟨after, lists', drained, advances, kept, emptied, drains, linked⟩ :=
      Inner.advanceOne_drains ticks (fun coarse => absurd single (Nat.ne_of_gt coarse)) tracks
    refine ⟨after, lists', drained, advances, kept.mono fun head entry listed unswept => ?_, drains,
      fun entry listed => (linked entry listed).1, False.elim, False.elim⟩
    obtain ⟨level, slot, missed⟩ := unswept
    refine ⟨level, slot, fun reached later le same => ?_⟩
    rcases Nat.lt_or_eq_of_le le with before | rfl
    · exact missed reached later (Nat.le_of_lt_succ before) same
    · have drainedHead : head = (0, (inner.currentTick + 1) % shape.slots) :=
        Prod.ext (by omega) same
      rw [drainedHead, emptied] at listed
      cases listed

theorem placed_rule (levels : 2 ≤ shape.levels) (fits : shape.slots ^ shape.levels ≤ U64.max) :
    Rule Waker shape (Placed shape) (fun _ _ => True) True True where
  inserts ticks _ := Inner.chooseSlot_placed levels fits ticks
  advances {inner lists timers} ticks tracks := by
    obtain ⟨after, lists', drained, advances, kept, drains, drainedDue, dueIff⟩ :=
      Inner.advanceOne_exact levels fits ticks tracks
    have found : ∀ entry ∈ drained, ∃ timer ∈ timers, timer.entry = entry ∧
        timer.deadline ≤ inner.currentTick + 1 := by
      intro entry listed
      obtain ⟨timer, filtered, rfl⟩ := List.mem_map.mp (drainedDue.mem_iff.mp listed)
      exact ⟨timer, List.mem_of_mem_filter filtered, rfl, by simpa using (List.mem_filter.mp filtered).2⟩
    refine ⟨after, lists', drained, advances, kept, drains, ?_, ?_, ?_⟩
    · intro entry listed
      obtain ⟨timer, member, rfl, _⟩ := found entry listed
      exact List.mem_map_of_mem member
    · intro _ entry listed
      obtain ⟨timer, member, rfl, due⟩ := found entry listed
      rwa [tracks.deadline timer member]
    · exact fun _ timer member => (dueIff timer member).mpr

end TptAsync.Timer
