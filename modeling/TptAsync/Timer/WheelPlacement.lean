import Mathlib.Algebra.Order.Ring.Nat
import TptAsync.Timer.WheelLinks

set_option autoImplicit false

/-! Where an entry may be linked, as a relation between its slot, its deadline and the
current tick. Only the slot's own arithmetic is used, not how the entry got there. -/

namespace TptAsync.Timer

open Lib

/-- The placements between two operations. In level 0 an entry is less than one lap
away, or was due when inserted. In a coarser level, its slot comes up again no later
than the tick at which the block holding its deadline starts. -/
def Placed (shape : Shape) (tick : Nat) : SlotHead → Nat → Prop
  | (0, slot), deadline =>
      (tick < deadline ∧ deadline < tick + shape.slots ∧ slot = deadline % shape.slots) ∨
        (deadline ≤ tick ∧ slot = (tick + 1) % shape.slots)
  | (level + 1, slot), deadline =>
      level + 1 < shape.levels ∧ slot = deadline / shape.slots ^ (level + 1) % shape.slots ∧
        tick / shape.slots ^ (level + 1) < deadline / shape.slots ^ (level + 1)

/-- The placements inside `advance_one`, once `tick` is counted and the levels
`1..=cascaded` are cascaded: the other levels are still as they were one tick earlier. -/
def Reaching (shape : Shape) (tick cascaded : Nat) : SlotHead → Nat → Prop
  | (0, slot), deadline =>
      (tick ≤ deadline ∧ deadline < tick + shape.slots ∧ slot = deadline % shape.slots) ∨
        (deadline < tick ∧ slot = tick % shape.slots)
  | (level + 1, slot), deadline =>
      level + 1 < shape.levels ∧ slot = deadline / shape.slots ^ (level + 1) % shape.slots ∧
        (if level < cascaded then tick else tick - 1) / shape.slots ^ (level + 1) <
          deadline / shape.slots ^ (level + 1)

variable {shape : Shape}

theorem Shape.slots_pos (shape : Shape) : 0 < shape.slots :=
  Nat.lt_of_lt_of_le (by decide) shape.twoLeSlots

theorem Shape.pow_pos (shape : Shape) (level : Nat) : 0 < shape.slots ^ level :=
  Nat.pow_pos shape.slots_pos

/-- The loop of `choose_slot` finds the coarsest level whose resolution `delta` reaches. -/
theorem Inner.chooseLevel_spec (fits : shape.slots ^ shape.levels ≤ U64.max) (delta fuel level : Nat)
    (within : level < shape.levels) (enough : shape.levels ≤ level + 1 + fuel)
    (reached : level = 0 ∨ shape.slots ^ level ≤ delta) :
    let chosen := chooseLevel shape delta fuel level (shape.slots ^ (level + 1))
    chosen < shape.levels ∧ (chosen = 0 ∨ shape.slots ^ chosen ≤ delta) ∧
      (delta < shape.slots ^ (chosen + 1) ∨ chosen + 1 = shape.levels) := by
  induction fuel generalizing level with
  | zero =>
      simp only [chooseLevel]
      exact ⟨within, reached, .inr (by omega)⟩
  | succ fuel ih =>
      simp only [chooseLevel]
      split
      · next continues =>
          have widthFits : shape.slots ^ (level + 1) * shape.slots ≤ U64.max := by
            rw [← Nat.pow_succ]
            exact (Nat.pow_le_pow_right shape.slots_pos continues.1).trans fits
          rw [U64.saturatingMul_eq widthFits, ← Nat.pow_succ]
          exact ih (level + 1) continues.1 (by omega) (.inr continues.2)
      · next stops =>
          refine ⟨within, reached, ?_⟩
          by_cases last : level + 1 < shape.levels
          · exact .inl (by simpa [last] using stops)
          · exact .inr (by omega)

section ChooseSlot

variable {Waker : Type} {inner : Inner Waker} {deadline : Nat}

theorem Inner.chooseSlot_due (ticks : inner.currentTick < U64.max)
    (due : deadline ≤ inner.currentTick) :
    inner.chooseSlot shape deadline = (0, (inner.currentTick + 1) % shape.slots) := by
  have noDelta : deadline - inner.currentTick = 0 := by omega
  simp [chooseSlot, noDelta, U64.wrappingAdd_eq (show inner.currentTick + 1 ≤ U64.max from ticks)]

/-- A future deadline goes to a level that resolves it, in the slot of its own block. -/
theorem Inner.chooseSlot_future (levels : 2 ≤ shape.levels)
    (fits : shape.slots ^ shape.levels ≤ U64.max) (future : inner.currentTick < deadline) :
    ∃ level < shape.levels, inner.chooseSlot shape deadline =
        (level, deadline / shape.slots ^ level % shape.slots) ∧
      (level = 0 → deadline < inner.currentTick + shape.slots) ∧
      (level ≠ 0 → inner.currentTick + shape.slots ^ level ≤ deadline) := by
  have spec := chooseLevel_spec fits (deadline - inner.currentTick) shape.levels 0
    (by omega) (by omega) (.inl rfl)
  rw [Nat.zero_add, Nat.pow_one] at spec
  obtain ⟨within, lower, upper⟩ := spec
  generalize chosen : chooseLevel shape (deadline - inner.currentTick) shape.levels 0 shape.slots =
    level at within lower upper
  have resolution : U64.saturatingPow shape.slots level = shape.slots ^ level :=
    U64.saturatingPow_eq ((Nat.pow_le_pow_right shape.slots_pos within.le).trans fits)
  have someDelta : deadline - inner.currentTick ≠ 0 := by omega
  refine ⟨level, within, ?_, ?_, ?_⟩
  · simp only [chooseSlot, if_neg someDelta, chosen, resolution]
  · rintro rfl
    rcases upper with near | single
    · rw [Nat.zero_add, Nat.pow_one] at near
      omega
    · omega
  · intro coarse
    rcases lower with fine | far
    · exact absurd fine coarse
    · omega

theorem Inner.chooseSlot_future_placed (levels : 2 ≤ shape.levels)
    (fits : shape.slots ^ shape.levels ≤ U64.max) (future : inner.currentTick < deadline) :
    Placed shape inner.currentTick (inner.chooseSlot shape deadline) deadline := by
  obtain ⟨level, within, chosen, near, far⟩ := chooseSlot_future levels fits future
  rw [chosen]
  cases level with
  | zero => exact .inl ⟨future, near rfl, by simp⟩
  | succ level =>
      refine ⟨within, rfl, ?_⟩
      have reached := Nat.div_le_div_right (c := shape.slots ^ (level + 1)) (far (by simp))
      rw [Nat.add_div_right _ (shape.pow_pos _)] at reached
      exact reached

theorem Inner.chooseSlot_placed (levels : 2 ≤ shape.levels)
    (fits : shape.slots ^ shape.levels ≤ U64.max) (ticks : inner.currentTick < U64.max) :
    Placed shape inner.currentTick (inner.chooseSlot shape deadline) deadline := by
  rcases Nat.lt_or_ge inner.currentTick deadline with future | due
  · exact chooseSlot_future_placed levels fits future
  · rw [chooseSlot_due ticks due]
    exact .inr ⟨due, rfl⟩

end ChooseSlot

/-- A future entry placed at `tick` is also well placed amid the cascades of that tick. -/
theorem Placed.reaching {tick cascaded deadline : Nat} {head : SlotHead}
    (placed : Placed shape tick head deadline) (future : tick < deadline) :
    Reaching shape tick cascaded head deadline := by
  obtain ⟨level, slot⟩ := head
  cases level with
  | zero =>
      rcases placed with ⟨_, near, own⟩ | ⟨due, _⟩
      · exact .inl ⟨future.le, near, own⟩
      · exact absurd future (Nat.not_lt.mpr due)
  | succ level =>
      refine ⟨placed.1, placed.2.1, ?_⟩
      split
      · exact placed.2.2
      · exact (Nat.div_le_div_right (Nat.sub_le tick 1)).trans_lt placed.2.2

/-- Where `cascade` links an entry is well placed whatever level is being cascaded. -/
theorem Inner.cascadeTarget_reaching {Waker : Type} {inner : Inner Waker} {cascaded deadline : Nat}
    (levels : 2 ≤ shape.levels) (fits : shape.slots ^ shape.levels ≤ U64.max) :
    Reaching shape inner.currentTick cascaded (inner.cascadeTarget shape deadline) deadline := by
  unfold cascadeTarget
  split
  · next reached =>
      rcases Nat.lt_or_eq_of_le reached with late | equal
      · exact .inr ⟨late, rfl⟩
      · have slots := shape.slots_pos
        exact .inl ⟨equal.ge, by omega, by rw [equal]⟩
  · next future =>
      exact (chooseSlot_future_placed levels fits (Nat.lt_of_not_le future)).reaching
        (Nat.lt_of_not_le future)

/-- Counting a tick turns resting placements into those before any cascade. -/
theorem Placed.tick {tick deadline : Nat} {head : SlotHead}
    (placed : Placed shape tick head deadline) : Reaching shape (tick + 1) 0 head deadline := by
  obtain ⟨level, slot⟩ := head
  cases level with
  | zero =>
      rcases placed with ⟨future, near, own⟩ | ⟨due, next⟩
      · exact .inl ⟨future, by omega, own⟩
      · exact .inr ⟨by omega, next⟩
  | succ level => exact ⟨placed.1, placed.2.1, by simpa using placed.2.2⟩

/-- Cascading one more level: every entry outside the cascaded slot already is beyond
the block that starts now. -/
theorem Reaching.cascaded {tick cascaded deadline : Nat} {head : SlotHead}
    (reaching : Reaching shape tick cascaded head deadline) (counted : 0 < tick)
    (aligned : tick % shape.slots ^ (cascaded + 1) = 0)
    (outside : head ≠ (cascaded + 1, tick / shape.slots ^ (cascaded + 1) % shape.slots)) :
    Reaching shape tick (cascaded + 1) head deadline := by
  obtain ⟨level, slot⟩ := head
  cases level with
  | zero => exact reaching
  | succ level =>
      obtain ⟨within, own, beyond⟩ := reaching
      refine ⟨within, own, ?_⟩
      by_cases current : level = cascaded
      · subst current
        rw [if_neg (Nat.lt_irrefl level)] at beyond
        rw [if_pos (Nat.lt_succ_self level)]
        have starts : tick / shape.slots ^ (level + 1) =
            (tick - 1) / shape.slots ^ (level + 1) + 1 := by
          have stepped := Nat.succ_div (a := tick - 1) (b := shape.slots ^ (level + 1))
          rw [Nat.sub_add_cancel counted, if_pos (Nat.dvd_of_mod_eq_zero aligned)] at stepped
          exact stepped
        refine lt_of_le_of_ne (by omega) fun same => outside ?_
        rw [own, ← same]
      · have unchanged : level < cascaded + 1 ↔ level < cascaded := by omega
        simpa only [unchanged] using beyond

/-- The cascades stop at the first resolution that does not divide the tick: no block of
that level or of a coarser one starts now. -/
theorem Reaching.unaligned {tick cascaded last deadline : Nat} {head : SlotHead}
    (reaching : Reaching shape tick cascaded head deadline) (counted : 0 < tick)
    (unaligned : tick % shape.slots ^ (cascaded + 1) ≠ 0) :
    Reaching shape tick last head deadline := by
  obtain ⟨level, slot⟩ := head
  cases level with
  | zero => exact reaching
  | succ level =>
      obtain ⟨within, own, beyond⟩ := reaching
      refine ⟨within, own, ?_⟩
      have strict : tick / shape.slots ^ (level + 1) < deadline / shape.slots ^ (level + 1) := by
        by_cases before : level < cascaded
        · simpa only [if_pos before] using beyond
        · rw [if_neg before] at beyond
          have undivided : ¬ shape.slots ^ (level + 1) ∣ tick := by
            intro divides
            exact unaligned (Nat.mod_eq_zero_of_dvd
              ((Nat.pow_dvd_pow shape.slots (by omega)).trans divides))
          have stepped := Nat.succ_div (a := tick - 1) (b := shape.slots ^ (level + 1))
          rw [Nat.sub_add_cancel counted, if_neg undivided, Nat.add_zero] at stepped
          exact stepped.trans_lt beyond
      split
      · exact strict
      · exact (Nat.div_le_div_right (Nat.sub_le tick 1)).trans_lt strict

/-- Once all coarse levels are cascaded, the level-0 slot of the tick holds exactly the
entries whose deadline is reached. -/
theorem Reaching.due_iff {tick deadline : Nat} {head : SlotHead}
    (reaching : Reaching shape tick (shape.levels - 1) head deadline) :
    deadline ≤ tick ↔ head = (0, tick % shape.slots) := by
  obtain ⟨level, slot⟩ := head
  cases level with
  | zero =>
      rcases reaching with ⟨reached, near, own⟩ | ⟨late, own⟩
      · subst own
        simp only [Prod.mk.injEq, true_and]
        constructor
        · intro due
          rw [Nat.le_antisymm due reached]
        · intro same
          have difference : (deadline - tick) % shape.slots = 0 := Nat.sub_mod_eq_zero_of_mod_eq same
          rw [Nat.mod_eq_of_lt (by omega)] at difference
          omega
      · simp [own, late.le]
  | succ level =>
      obtain ⟨within, _, beyond⟩ := reaching
      rw [if_pos (by omega)] at beyond
      have future : ¬ deadline ≤ tick := fun due =>
        absurd beyond (Nat.not_lt.mpr (Nat.div_le_div_right due))
      simp [future]

theorem Reaching.placed {tick deadline : Nat} {head : SlotHead}
    (reaching : Reaching shape tick (shape.levels - 1) head deadline) (future : tick < deadline) :
    Placed shape tick head deadline := by
  obtain ⟨level, slot⟩ := head
  cases level with
  | zero =>
      rcases reaching with ⟨_, near, own⟩ | ⟨late, _⟩
      · exact .inl ⟨future, near, own⟩
      · exact absurd late (Nat.not_lt.mpr future.le)
  | succ level =>
      obtain ⟨within, own, beyond⟩ := reaching
      rw [if_pos (by omega)] at beyond
      exact ⟨within, own, beyond⟩

end TptAsync.Timer
