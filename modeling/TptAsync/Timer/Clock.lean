import Mathlib.Tactic.NormNum
import TptAsync.Timer.SharedProperties

set_option autoImplicit false

/-!
# A wheel on a hardware clock

`FugitTimer` of `clock.rs`, and the main loop that advances a wheel to what it reads. The hardware
counter has 32 bits, the wheel's tick has 64.
-/

namespace TptAsync.Timer

open Lib

variable {Waker Output : Type} {shape : Shape}

/-- A timer by its counter, the ticks since its start. -/
structure FugitTimer where
  counter : UInt32

def FugitTimer.elapse (timer : FugitTimer) (ticks : Nat) : FugitTimer where
  counter := timer.counter + .ofNat ticks

def FugitTimer.nowTicks (timer : FugitTimer) : UInt64 :=
  timer.counter.toUInt64

/-- The main loop's clock and its wheel. What is `elapsed` since the start, what was last read and
how long `since` is not part of the program. -/
structure Clocked (Waker : Type) where
  clock : FugitTimer
  shared : Shared Waker
  elapsed : Nat
  reading : Nat
  since : Nat

inductive ClockedEvent (Waker Output : Type) where
  | elapse (ticks : Nat)
  /-- `wheel.advance_to(clock.now_ticks())`. -/
  | advance
  /-- A call of a timer future, or of whoever else inserts entries. -/
  | wheel (event : Event Waker Output)

namespace Clocked

open Shared (Sound)

variable {state next : Clocked Waker} {event : ClockedEvent Waker Output}

def initial : Clocked Waker where
  clock := ⟨0⟩
  shared := .initial
  elapsed := 0
  reading := 0
  since := 0

/-- One step; only the main loop makes the wheel tick. -/
def step (shape : Shape) (state : Clocked Waker) : ClockedEvent Waker Output → Option (Clocked Waker)
  | .elapse ticks => some { state with
      clock := state.clock.elapse ticks
      elapsed := state.elapsed + ticks
      since := state.since + ticks }
  | .advance => do
      let now := state.clock.nowTicks
      let shared ← state.shared.step shape (.advanceTo now : Event Waker Output)
      some { state with shared, reading := now.toNat, since := 0 }
  | .wheel event =>
      if event.subject.isSome then do
        some { state with shared := ← state.shared.step shape event }
      else none

/-- The main loop advances the wheel at least once in 2³¹ ticks. -/
def Paced (state : Clocked Waker) : ClockedEvent Waker Output → Prop
  | .elapse ticks => state.since + ticks ≤ 2 ^ 31
  | _ => True

/-- A call reads no less than the one before, and leaves the wheel at the ticks elapsed. -/
def KeepsTime (shape : Shape) (state : Clocked Waker) : ClockedEvent Waker Output → Prop
  | .advance => state.reading ≤ state.clock.nowTicks.toNat ∧
      ∃ shared, state.shared.step shape (.advanceTo state.clock.nowTicks : Event Waker Output) =
        some shared ∧ shared.wheel.now = state.elapsed
  | _ => True

/-- A call is made before the counter wraps. -/
def BeforeWrap (state : Clocked Waker) : ClockedEvent Waker Output → Prop
  | .advance => state.elapsed < 2 ^ 32
  | _ => True

/-- The wheel never reaches the tick at which the counter wraps. -/
structure Behind (shape : Shape) (state : Clocked Waker) : Prop where
  sound : Sound (InRange shape) state.shared
  counter : state.clock.nowTicks.toNat = state.elapsed % 2 ^ 32
  behind : state.shared.wheel.now ≤ state.elapsed
  stalls : state.shared.wheel.now < 2 ^ 32
  reading : state.reading ≤ state.elapsed

theorem Behind.initial (shape : Shape) : Behind shape (Clocked.initial : Clocked Waker) :=
  ⟨.initial, rfl, le_rfl, Nat.two_pow_pos 32, le_rfl⟩

/-- A call takes the wheel to what the counter shows, unless it is there already. -/
theorem Behind.advance (behind : Behind shape state) :
    ∃ shared, state.shared.step shape (.advanceTo state.clock.nowTicks : Event Waker Output) =
        some shared ∧
      shared.wheel.now = max state.shared.wheel.now (state.elapsed % 2 ^ 32) := by
  have rules := @inRange_rule Waker shape
  have below : state.elapsed % 2 ^ 32 < 2 ^ 32 := Nat.mod_lt _ (by decide)
  have bound : state.elapsed % 2 ^ 32 ≤ U64.max := below.le.trans (by decide)
  have sum : state.shared.wheel.currentTick + (state.elapsed % 2 ^ 32 - state.shared.wheel.currentTick) =
      max state.shared.wheel.currentTick (state.elapsed % 2 ^ 32) := by
    omega
  have ticks := sum.trans_le (max_le behind.sound.clock bound)
  obtain ⟨wheel, ticked, _, now, _⟩ :=
    rules.tickN_keeps (fun _ => True) (fun _ _ => trivial) behind.sound.held ticks trivial
  refine ⟨{ state.shared with wheel }, ?_, now.trans sum⟩
  simp only [Shared.step, behind.counter, rules.advanceTo_eq behind.sound.held bound, ticked]
  rfl

theorem Behind.step (behind : Behind shape state) (stepped : state.step shape event = some next) :
    Behind shape next := by
  have rules := @inRange_rule Waker shape
  cases event with
  | elapse ticks =>
      cases stepped
      obtain ⟨sound, counter, slower, stalls, reading⟩ := behind
      refine ⟨sound, ?_, slower.trans (Nat.le_add_right _ _), stalls,
        reading.trans (Nat.le_add_right _ _)⟩
      simp only [FugitTimer.nowTicks, FugitTimer.elapse, UInt32.toNat_toUInt64, UInt32.toNat_add,
        UInt32.toNat_ofNat'] at counter ⊢
      rw [counter, Nat.mod_add_mod, Nat.add_mod_mod]
  | advance =>
      obtain ⟨shared, advances, rest⟩ := Option.bind_eq_some_iff.mp stepped
      cases rest
      obtain ⟨again, advanced, now⟩ := @Behind.advance Waker Output _ _ behind
      cases advances.symm.trans advanced
      have shown : state.elapsed % 2 ^ 32 ≤ state.elapsed := Nat.mod_le _ _
      refine ⟨behind.sound.step rules (.of_any _ _) advances, behind.counter, ?_, ?_, ?_⟩
      · exact now.trans_le (max_le behind.behind shown)
      · exact now.trans_lt (max_lt behind.stalls (Nat.mod_lt _ (by decide)))
      · exact behind.counter.trans_le shown
  | wheel event =>
      rw [Clocked.step] at stepped
      split at stepped
      · next concerns =>
          obtain ⟨shared, moves, rest⟩ := Option.bind_eq_some_iff.mp stepped
          cases rest
          obtain ⟨effect, _⟩ := behind.sound.settled rules (.of_any _ _) moves
          obtain ⟨entry, subject⟩ := Option.isSome_iff_exists.mp concerns
          rw [subject] at effect
          have same : shared.wheel.now = state.shared.wheel.now := effect.beside.aside.now
          exact ⟨behind.sound.step rules (.of_any _ _) moves, behind.counter,
            same.trans_le behind.behind, same.trans_lt behind.stalls, behind.reading⟩
      · cases stepped

theorem Behind.call_iff (behind : Behind shape state) :
    KeepsTime shape state event ↔ BeforeWrap state event := by
  cases event with
  | elapse ticks => exact Iff.rfl
  | wheel event => exact Iff.rfl
  | advance =>
      obtain ⟨shared, advances, now⟩ := @Behind.advance Waker Output _ _ behind
      constructor
      · rintro ⟨_, again, advanced, exact⟩
        cases advances.symm.trans advanced
        rw [BeforeWrap, ← exact, now]
        exact max_lt behind.stalls (Nat.mod_lt _ (by decide))
      · intro before
        have shown : state.elapsed % 2 ^ 32 = state.elapsed := Nat.mod_eq_of_lt before
        refine ⟨?_, shared, advances, ?_⟩
        · rw [behind.counter, shown]
          exact behind.reading
        · rw [now, shown]
          exact max_eq_right behind.behind

/-- In every run of the main loop, every call keeps time exactly when every call is made before
the counter wraps. -/
theorem keepsTime_iff (shape : Shape) (events : List (ClockedEvent Waker Output)) :
    AllAllowed (step shape) (KeepsTime shape) events initial ↔
      AllAllowed (step shape) BeforeWrap events initial :=
  allAllowed_congr (Behind shape) (fun behind stepped => behind.step stepped)
    (fun behind _ => behind.call_iff) (.initial shape)

/-- Time passes, and then the main loop makes its call. -/
theorem Behind.turn (behind : Behind shape state) (ticks : Nat) :
    ∃ next, run (@Clocked.step Waker Output shape) [.elapse ticks, .advance] state = some next ∧
      Behind shape next ∧ next.elapsed = state.elapsed + ticks ∧
      next.reading = (state.elapsed + ticks) % 2 ^ 32 ∧ next.since = 0 ∧
      next.shared.wheel.now = max state.shared.wheel.now ((state.elapsed + ticks) % 2 ^ 32) ∧
      (state.since + ticks ≤ 2 ^ 31 →
        AllAllowed (@Clocked.step Waker Output shape) Paced [.elapse ticks, .advance] state) := by
  let passed : Clocked Waker := { state with
    clock := state.clock.elapse ticks
    elapsed := state.elapsed + ticks
    since := state.since + ticks }
  have elapses : state.step shape (.elapse ticks : ClockedEvent Waker Output) = some passed := rfl
  have later := behind.step elapses
  obtain ⟨shared, advances, now⟩ := @Behind.advance Waker Output _ _ later
  have calls : passed.step shape (.advance : ClockedEvent Waker Output) =
      some { passed with shared, reading := passed.clock.nowTicks.toNat, since := 0 } := by
    rw [Clocked.step, advances]
    rfl
  refine ⟨_, ?_, later.step calls, rfl, later.counter, rfl, now, fun pace => ?_⟩
  · rw [run, elapses, Option.bind_some, run, calls]
    rfl
  · exact .cons elapses pace (.cons calls trivial trivial)

/-- Two calls, 2³¹ ticks apart: the second reads zero, and the wheel stands still. -/
theorem stalls_after_wrap : ∃ shape : Shape, ∃ middle state : Clocked Unit,
    run (@step Unit Unit shape) [.elapse (2 ^ 31), .advance] initial = some middle ∧
    run (@step Unit Unit shape) [.elapse (2 ^ 31), .advance] middle = some state ∧
    AllAllowed (@step Unit Unit shape) Paced [.elapse (2 ^ 31), .advance] initial ∧
    AllAllowed (@step Unit Unit shape) Paced [.elapse (2 ^ 31), .advance] middle ∧
    middle.reading = 2 ^ 31 ∧ state.reading = 0 ∧
    state.elapsed = 2 ^ 32 ∧ state.shared.wheel.now = 2 ^ 31 := by
  let shape : Shape := ⟨8, 4, by decide, by decide⟩
  obtain ⟨middle, first, behind, elapsed, reading, since, now, paced⟩ :=
    @Behind.turn Unit Unit _ _ (Behind.initial shape) (2 ^ 31)
  obtain ⟨state, second, _, elapsed', reading', _, now', paced'⟩ :=
    @Behind.turn Unit Unit _ _ behind (2 ^ 31)
  have start : (initial : Clocked Unit).elapsed + 2 ^ 31 = 2 ^ 31 := Nat.zero_add _
  have wrap : (2 ^ 31 + 2 ^ 31) % 2 ^ 32 = 0 := by norm_num
  rw [start] at elapsed reading now
  rw [elapsed] at elapsed' reading' now'
  rw [wrap] at reading' now'
  have first' : middle.shared.wheel.now = 2 ^ 31 := by
    refine now.trans ((max_eq_right (Nat.zero_le _)).trans ?_)
    norm_num
  refine ⟨shape, middle, state, first, second, paced (Nat.zero_add _).le, paced' ?_, ?_, reading', ?_, ?_⟩
  · rw [since, Nat.zero_add]
  · rw [reading]
    norm_num
  · rw [elapsed']
    norm_num
  · rw [now', first']
    exact max_eq_left (Nat.zero_le _)

end Clocked

end TptAsync.Timer
