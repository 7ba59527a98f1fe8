import Mathlib.Data.Nat.ModEq
import Mathlib.Order.Bounds.Basic
import TptAsync.Timer.IntervalProperties

set_option autoImplicit false

/-!
# The grid of a skipping interval

`Skip` takes the later of two deadlines: the next multiple of the period, counted from the
start of the wheel, and the next point of the interval's own grid. They agree as long as no
multiple of the period is passed unnoticed, or when the grid starts at one.
-/

namespace TptAsync.Timer

open Lib

variable {Waker Output : Type} {shape : Shape} {origin period old now : Nat}

/-- The points of the grid of `period` through `origin` that are ahead of a tick observed at
`now` and of the deadline `old` that it met. -/
def gridAhead (origin period old now : Nat) : Set Nat :=
  {value | value ≡ origin [MOD period] ∧ now < value ∧ old < value}

/-- No multiple of the period is behind `old` and not ahead of `now`. -/
def NoMultiplePassed (period old now : Nat) : Prop :=
  ∀ multiple, period ∣ multiple → old < multiple → now < multiple

section Arithmetic

/-- On a grid through zero, the next multiple is the next point. -/
theorem aligned_isLeast (positive : 0 < period) (phase : old ≡ origin [MOD period])
    (due : old ≤ now) (zero : period ∣ origin) :
    IsLeast (gridAhead origin period old now) (max (now / period * period + period) (old + period)) := by
  have multiple : period ∣ old := (phase.dvd_iff dvd_rfl).mpr zero
  have below : now / period * period ≤ now := Nat.div_mul_le_self now period
  have above : now < now / period * period + period := Nat.lt_div_mul_add positive
  have reached : old ≤ now / period * period := by
    obtain ⟨count, rfl⟩ := multiple
    rw [Nat.mul_comm period count] at due ⊢
    exact Nat.mul_le_mul_right _ ((Nat.le_div_iff_mul_le positive).mpr due)
  rw [max_eq_left (Nat.add_le_add_right reached period)]
  refine ⟨⟨?_, above, by omega⟩, ?_⟩
  · have point : period ∣ now / period * period + period :=
      Nat.dvd_add (dvd_mul_left _ _) dvd_rfl
    exact ((Nat.modEq_zero_iff_dvd.mpr point).trans (Nat.modEq_zero_iff_dvd.mpr zero).symm)
  · rintro value ⟨same, ahead, _⟩
    obtain ⟨count, rfl⟩ := (same.dvd_iff dvd_rfl).mpr zero
    have more : now / period < count := by
      by_contra few
      have := Nat.mul_le_mul_left period (Nat.not_lt.mp few)
      rw [Nat.mul_comm period (now / period)] at this
      omega
    have next : now / period * period + period = period * (now / period + 1) := by
      rw [Nat.mul_add, Nat.mul_one, Nat.mul_comm]
    rw [next]
    exact Nat.mul_le_mul_left period more

/-- While no multiple is passed, the next point of the grid is one period ahead. -/
theorem regular_isLeast (positive : 0 < period) (phase : old ≡ origin [MOD period])
    (passed : NoMultiplePassed period old now) :
    IsLeast (gridAhead origin period old now) (max (now / period * period + period) (old + period)) := by
  have below : now / period * period ≤ now := Nat.div_mul_le_self now period
  have above : now < now / period * period + period := Nat.lt_div_mul_add positive
  have behind : now / period * period ≤ old := by
    by_contra late
    have := passed _ (dvd_mul_left period _) (Nat.not_le.mp late)
    omega
  rw [max_eq_right (Nat.add_le_add_right behind period)]
  refine ⟨⟨?_, by omega, by omega⟩, ?_⟩
  · exact (Nat.add_modEq_right).trans phase
  · rintro value ⟨same, _, later⟩
    have apart : period ∣ value - old :=
      (Nat.modEq_iff_dvd' later.le).mp (phase.trans same.symm)
    have := Nat.le_of_dvd (Nat.sub_pos_of_lt later) apart
    omega

/-- A multiple that was passed is where the new phase comes from. -/
theorem shifted_not_mem (positive : 0 < period) (zero : ¬ period ∣ origin)
    (passed : ¬ NoMultiplePassed period old now) :
    max (now / period * period + period) (old + period) ∉ gridAhead origin period old now := by
  simp only [NoMultiplePassed, not_forall, Nat.not_lt] at passed
  obtain ⟨_, ⟨count, rfl⟩, behind, reached⟩ := passed
  have fewer : count ≤ now / period :=
    (Nat.le_div_iff_mul_le positive).mpr (by rwa [Nat.mul_comm])
  have least : period * count ≤ now / period * period := by
    rw [Nat.mul_comm period count]
    exact Nat.mul_le_mul_right _ fewer
  rw [max_eq_left (by omega)]
  rintro ⟨same, _⟩
  exact zero ((same.dvd_iff dvd_rfl).mp (Nat.dvd_add (dvd_mul_left _ _) dvd_rfl))

theorem skip_isLeast_iff (positive : 0 < period) (phase : old ≡ origin [MOD period])
    (due : old ≤ now) :
    IsLeast (gridAhead origin period old now)
        (max (now / period * period + period) (old + period)) ↔
      period ∣ origin ∨ NoMultiplePassed period old now := by
  constructor
  · intro least
    by_contra neither
    obtain ⟨zero, passed⟩ := not_or.mp neither
    exact shifted_not_mem positive zero passed least.1
  · rintro (zero | passed)
    · exact aligned_isLeast positive phase due zero
    · exact regular_isLeast positive phase passed

/-- Nothing is skipped before the deadline. -/
theorem NoMultiplePassed.of_early (early : now < old) : NoMultiplePassed period old now :=
  fun _ _ later => early.trans later

end Arithmetic

theorem MissedTickBehavior.nextDeadline_skip (regular : old + period ≤ U64.max)
    (aligned : now / period * period + period ≤ U64.max) :
    nextDeadline .skip old period now = max (now / period * period + period) (old + period) := by
  rw [nextDeadline, U64.wrappingAdd_eq aligned, U64.saturatingAdd_eq regular]

namespace Ticking

open Shared (Sound initial)

variable {state next : Ticking Waker} {event : TickingEvent Waker Output}

/-- The wheel is whole, and the interval owns its sleep. -/
structure Whole (shape : Shape) (period : Nat) (state : Ticking Waker) : Prop where
  sound : Sound (InRange shape) state.shared
  owned : state.shared.futures state.interval.sleep.entry =
    some ⟨.sleep, state.interval.sleep.registered⟩
  skips : state.interval.behavior = .skip
  period : state.interval.period = period

/-- The sums of `next_deadline` fit, where they are made. -/
def NoOverflow (state : Ticking Waker) : TickingEvent Waker Output → Prop
  | .pollTick _ => state.nextDeadline ≤ state.shared.wheel.now →
      state.nextDeadline + state.interval.period ≤ U64.max ∧
        state.shared.wheel.now / state.interval.period * state.interval.period +
          state.interval.period ≤ U64.max
  | .wheel _ => True

/-- A poll that is ready leaves the least point of the grid that is ahead. -/
def Lands (shape : Shape) (origin : Nat) (state : Ticking Waker) : TickingEvent Waker Output → Prop
  | .pollTick waker => ∀ interval wheel,
      state.interval.pollTick shape state.shared.wheel waker = some (.ready (), interval, wheel) →
      IsLeast (gridAhead origin state.interval.period state.nextDeadline state.shared.wheel.now)
        (interval.nextDeadline wheel)
  | .wheel _ => True

/-- The grid starts at a multiple of the period, or the poll comes before the first multiple
behind the deadline. -/
def Punctual (origin : Nat) (state : Ticking Waker) : TickingEvent Waker Output → Prop
  | .pollTick _ => state.interval.period ∣ origin ∨
      NoMultiplePassed state.interval.period state.nextDeadline state.shared.wheel.now
  | .wheel _ => True

theorem Whole.owns (whole : Whole shape period state) : Owns shape state :=
  ⟨whole.sound, whole.owned⟩

/-- The interval is whole and its deadline a point of the grid through `origin`. -/
structure OnGrid (shape : Shape) (period origin : Nat) (state : Ticking Waker) : Prop where
  whole : Whole shape period state
  phase : state.nextDeadline ≡ origin [MOD period]

/-- A step without overflow lands exactly when it is punctual, and then the grid is kept. -/
theorem OnGrid.step_iff (onGrid : OnGrid shape period origin state)
    (fits : state.NoOverflow event) (stepped : state.step shape event = some next) :
    (state.Lands shape origin event ↔ state.Punctual origin event) ∧
      (state.Punctual origin event → OnGrid shape period origin next) := by
  obtain ⟨whole, phase⟩ := onGrid
  cases event with
  | wheel event =>
      rw [step] at stepped
      split at stepped
      · cases stepped
      · next elsewhere =>
          obtain ⟨shared, elsewhere', rest⟩ := Option.bind_eq_some_iff.mp stepped
          cases rest
          obtain ⟨⟨sound, owned⟩, same, _⟩ := whole.owns.wheel elsewhere elsewhere'
          exact ⟨Iff.rfl, fun _ => ⟨⟨sound, owned, whole.skips, whole.period⟩,
            (congrArg (· ≡ origin [MOD period]) same).mpr phase⟩⟩
  | pollTick waker =>
      obtain ⟨poll, registered, wheel, polls, ⟨sound, owned⟩, _, outcome⟩ :=
        whole.owns.pollTick waker
      have kept : Whole shape period (state.after poll
          { state.interval with sleep := ⟨state.interval.sleep.entry, registered⟩ } wheel waker) :=
        ⟨sound, owned, whole.skips, whole.period⟩
      simp only [step, polls, Option.bind_eq_bind, Option.bind_some, Option.some.injEq] at stepped
      subst stepped
      have length := whole.period
      subst length
      rcases outcome with ⟨rfl, early, deadline⟩ | ⟨rfl, due, deadline⟩
      · refine ⟨iff_of_true ?_ (.inr (.of_early early)), fun _ => ⟨kept, ?_⟩⟩
        · intro interval wheel' again
          rw [polls] at again
          cases again
        · exact (congrArg (· ≡ origin [MOD _]) deadline).mpr phase
      · obtain ⟨regular, aligned⟩ := fits due
        rw [whole.skips, MissedTickBehavior.nextDeadline_skip regular aligned] at deadline
        have least := @skip_isLeast_iff origin _ _ _ state.interval.positive phase due
        refine ⟨?_, fun punctual => ⟨kept, ?_⟩⟩
        · rw [Punctual, ← least, ← deadline]
          constructor
          · intro lands
            have landed := lands _ _ polls
            exact landed
          · intro lands interval wheel' again
            rw [polls] at again
            cases again
            exact lands
        · have landed := (least.mpr punctual).1.1
          rw [← deadline] at landed
          exact landed

theorem create_whole {shared : Shared Waker} {entry : Addr} (sound : Sound (InRange shape) shared)
    (created : create shared entry period = some state) :
    Whole shape period state ∧ state.nextDeadline = shared.wheel.now + period := by
  obtain ⟨⟨sound, owned⟩, first, _, length, skips⟩ := create_owns sound created
  exact ⟨⟨sound, owned, skips, length⟩, first⟩

/-- Along every run in which no sum overflows, all deadlines are on the grid of the creation
time, and every ready poll leaves the least point ahead, exactly when no poll comes too late. -/
theorem onGrid_iff (shape : Shape) {shared : Shared Waker} {entry : Addr} {start : Ticking Waker}
    (reachable : Reachable (@Shared.step Waker Output shape) initial shared)
    (created : create shared entry period = some start) (events : List (TickingEvent Waker Output))
    (fits : AllAllowed (step shape) NoOverflow events start) :
    ((∀ earlier state, earlier <+: events → run (step shape) earlier start = some state →
        state.nextDeadline ≡ shared.wheel.now [MOD period]) ∧
      AllAllowed (step shape) (Lands shape shared.wheel.now) events start) ↔
    AllAllowed (step shape) (Punctual shared.wheel.now) events start := by
  have sound := Shared.reachable_inRange reachable
  obtain ⟨whole, first⟩ := create_whole sound created
  have phase : start.nextDeadline ≡ shared.wheel.now [MOD period] := by
    rw [first]
    exact Nat.add_modEq_right
  constructor
  · rintro ⟨_, lands⟩
    refine (lands.and fits).imp (OnGrid shape period shared.wheel.now) ?_ ⟨whole, phase⟩
    intro state event next onGrid stepped allowed
    obtain ⟨exact, keeps⟩ := onGrid.step_iff allowed.2 stepped
    have punctual := exact.mp allowed.1
    exact ⟨keeps punctual, punctual⟩
  · intro punctual
    have allowed := punctual.and fits
    refine ⟨fun earlier state within ends => ?_, ?_⟩
    · have kept : OnGrid shape period shared.wheel.now state :=
        (allowed.earlier within).keeps _
          (fun onGrid stepped may => (onGrid.step_iff may.2 stepped).2 may.1) ⟨whole, phase⟩ ends
      exact kept.phase
    · refine allowed.imp (OnGrid shape period shared.wheel.now) ?_ ⟨whole, phase⟩
      intro state event next onGrid stepped may
      obtain ⟨exact, keeps⟩ := onGrid.step_iff may.2 stepped
      exact ⟨keeps may.1, exact.mpr may.1⟩

/-- From tick zero, two periods are missed and the third deadline is the next. -/
theorem onGrid_iff_zero : ∃ start : Ticking Unit, create initial 7 3 = some start ∧
    AllAllowed (step ⟨8, 4, by decide, by decide⟩) (Lands ⟨8, 4, by decide, by decide⟩ 0)
      [.wheel (.tickN 8 : Event Unit Unit), .pollTick ()] start := by
  have fresh : Reachable (@Shared.step Unit Unit ⟨8, 4, by decide, by decide⟩) initial initial := ⟨[], rfl⟩
  obtain ⟨start, created⟩ : ∃ start, create (initial : Shared Unit) 7 3 = some start := ⟨_, rfl⟩
  refine ⟨start, created, ((onGrid_iff ⟨8, 4, by decide, by decide⟩ fresh created _ ?_).mpr ?_).2⟩
  all_goals cases created
  · rintro _ ⟨⟩
    refine ⟨trivial, ?_⟩
    rintro _ ⟨⟩
    exact ⟨fun _ => ⟨by decide, by decide⟩, trivial⟩
  · rintro _ ⟨⟩
    refine ⟨trivial, ?_⟩
    rintro _ ⟨⟩
    exact ⟨.inl (dvd_zero _), trivial⟩

/-- Created at tick 1 with period 3 and polled at tick 6, an interval moves from its grid to the
multiples of 3. -/
theorem skip_shifts : ∃ shared : Shared Unit, ∃ start state : Ticking Unit,
    run (@Shared.step Unit Unit ⟨8, 4, by decide, by decide⟩) [.tick] initial = some shared ∧
    shared.wheel.now = 1 ∧ create shared 7 3 = some start ∧ start.nextDeadline = 4 ∧
    run (@step Unit Unit ⟨8, 4, by decide, by decide⟩) [.wheel (.tickN 5), .pollTick ()] start =
      some state ∧
    state.nextDeadline = 9 ∧ ¬ state.nextDeadline ≡ shared.wheel.now [MOD 3] :=
  ⟨_, _, _, rfl, rfl, rfl, rfl, rfl, rfl, by decide⟩

end Ticking

end TptAsync.Timer
