import Mathlib.Data.List.Chain
import Mathlib.Tactic.Ring
import TptAsync.Timer.IntervalProperties

set_option autoImplicit false

/-!
# Counting ticks

An interval with a record of the ticks it has given: for which deadline each was, and at which
wheel time a poll returned it.
-/

namespace TptAsync.Timer

open Lib

variable {Waker Output : Type} {shape : Shape} {origin period : Nat} {behavior : MissedTickBehavior}

/-- A tick that `poll_tick` returned. -/
structure Tick where
  deadline : Nat
  returned : Nat

/-- The interval, and its ticks from the latest on. -/
structure Counted (Waker : Type) where
  ticking : Ticking Waker
  ticks : List Tick

namespace Counted

open Shared (Sound initial)

variable {state next : Counted Waker} {event : TickingEvent Waker Output}

def now (state : Counted Waker) : Nat :=
  state.ticking.shared.wheel.now

def pollTick (shape : Shape) (state : Counted Waker) (waker : Waker) :
    Option (Poll Unit × Interval × TimerWheel Waker) :=
  state.ticking.interval.pollTick shape state.ticking.shared.wheel waker

/-- The ticks behind a call that returned `poll`. -/
def record (state : Counted Waker) : Poll Unit → List Tick
  | .ready () => ⟨state.ticking.nextDeadline, state.now⟩ :: state.ticks
  | .pending => state.ticks

def step (shape : Shape) (state : Counted Waker) : TickingEvent Waker Output → Option (Counted Waker)
  | .pollTick waker => do
      let (poll, interval, wheel) ← state.pollTick shape waker
      some ⟨state.ticking.after poll interval wheel waker, state.record poll⟩
  | .wheel event => do
      some { state with ticking := ← state.ticking.step shape (.wheel event) }

/-- A new interval that is told how to treat missed ticks. -/
def create (shared : Shared Waker) (entry : Addr) (period : Nat) (behavior : MissedTickBehavior) :
    Option (Counted Waker) := do
  let ticking ← Ticking.create shared entry period
  some ⟨{ ticking with interval := ticking.interval.missedTickBehavior behavior }, []⟩

/-- The sums by which `next_deadline` moves an interval on fit. -/
def NoOverflow (state : Counted Waker) : TickingEvent Waker Output → Prop
  | .pollTick _ => state.ticking.nextDeadline ≤ state.now →
      match state.ticking.interval.behavior with
      | .burst => state.ticking.nextDeadline + state.ticking.interval.period ≤ U64.max
      | .delay => state.now + state.ticking.interval.period ≤ U64.max
      | .skip => state.ticking.nextDeadline + state.ticking.interval.period ≤ U64.max ∧
          state.now / state.ticking.interval.period * state.ticking.interval.period +
            state.ticking.interval.period ≤ U64.max
  | .wheel _ => True

/-- Every deadline of a bursting interval has had its tick, and the next one is the next. -/
structure Bursting (origin period : Nat) (state : Counted Waker) : Prop where
  next : state.ticking.nextDeadline = origin + (state.ticks.length + 1) * period
  reached : origin + state.ticks.length * period ≤ state.now
  deadlines : state.ticks.reverse.map Tick.deadline =
    (List.range state.ticks.length).map fun earlier => origin + (earlier + 1) * period

/-- The ticks of a delaying interval are apart, and the next one is apart from the latest. -/
structure Delaying (period : Nat) (state : Counted Waker) : Prop where
  apart : state.ticks.IsChain fun later earlier => earlier.returned + period ≤ later.returned
  next : ∀ latest ∈ state.ticks.head?, latest.returned + period ≤ state.ticking.nextDeadline

/-- What holds of an interval throughout. -/
structure Keeps (shape : Shape) (origin period : Nat) (behavior : MissedTickBehavior)
    (state : Counted Waker) : Prop where
  owns : Ticking.Owns shape state.ticking
  length : state.ticking.interval.period = period
  treats : state.ticking.interval.behavior = behavior
  due : ∀ tick ∈ state.ticks, tick.deadline ≤ tick.returned
  bursting : behavior = .burst → Bursting origin period state
  delaying : behavior = .delay → Delaying period state

theorem create_keeps {shared : Shared Waker} {entry : Addr} (sound : Sound (InRange shape) shared)
    (created : create shared entry period behavior = some state) :
    Keeps shape shared.wheel.now period behavior state := by
  obtain ⟨ticking, creates, rest⟩ := Option.bind_eq_some_iff.mp created
  cases rest
  obtain ⟨owns, first, now, length, _⟩ := Ticking.create_owns sound creates
  refine ⟨⟨owns.sound, owns.owned⟩, length, rfl, by simp, fun _ => ⟨?_, ?_, rfl⟩,
    fun _ => ⟨.nil, by simp⟩⟩
  · exact first.trans (by simp)
  · simpa [Counted.now] using now.ge

theorem Bursting.tick (bursting : Bursting origin period state) {ticking : Ticking Waker}
    (due : state.ticking.nextDeadline ≤ state.now)
    (now : ticking.shared.wheel.now = state.now)
    (later : ticking.nextDeadline = state.ticking.nextDeadline + period) :
    Bursting origin period ⟨ticking, state.record (.ready ())⟩ := by
  obtain ⟨next, _, deadlines⟩ := bursting
  rw [next] at due later
  refine ⟨?_, ?_, ?_⟩
  · simp only [record, List.length_cons, later]
    ring
  · simpa only [record, List.length_cons, Counted.now, now] using due
  · simp only [record, List.reverse_cons, List.map_append, deadlines, List.length_cons, List.range_succ,
      List.map_cons, List.map_nil, next]

theorem Delaying.tick (delaying : Delaying period state) {ticking : Ticking Waker}
    (due : state.ticking.nextDeadline ≤ state.now)
    (later : ticking.nextDeadline = state.now + period) :
    Delaying period ⟨ticking, state.record (.ready ())⟩ := by
  obtain ⟨apart, next⟩ := delaying
  constructor
  · refine List.isChain_cons.mpr ⟨fun latest first => ?_, apart⟩
    exact (next latest first).trans due
  · rintro latest first
    cases first
    exact later.ge

/-- Nothing changes for an interval that makes no tick. -/
theorem Keeps.later (keeps : Keeps shape origin period behavior state) {ticking : Ticking Waker}
    (owns : Ticking.Owns shape ticking) (length : ticking.interval.period = state.ticking.interval.period)
    (treats : ticking.interval.behavior = state.ticking.interval.behavior)
    (same : ticking.nextDeadline = state.ticking.nextDeadline)
    (grows : state.now ≤ ticking.shared.wheel.now) :
    Keeps shape origin period behavior { state with ticking } where
  owns := owns
  length := length.trans keeps.length
  treats := treats.trans keeps.treats
  due := keeps.due
  bursting bursts := by
    obtain ⟨next, reached, deadlines⟩ := keeps.bursting bursts
    exact ⟨same.trans next, reached.trans grows, deadlines⟩
  delaying delays := by
    obtain ⟨apart, next⟩ := keeps.delaying delays
    exact ⟨apart, fun latest first => (next latest first).trans same.ge⟩

theorem Keeps.step (keeps : Keeps shape origin period behavior state)
    (stepped : state.step shape event = some next) (fits : state.NoOverflow event) :
    Keeps shape origin period behavior next := by
  have owns := keeps.owns
  cases event with
  | wheel event =>
      obtain ⟨ticking, moves, rest⟩ := Option.bind_eq_some_iff.mp stepped
      cases rest
      rw [Ticking.step] at moves
      split at moves
      · cases moves
      · next elsewhere =>
          obtain ⟨shared, elsewhere', rest⟩ := Option.bind_eq_some_iff.mp moves
          cases rest
          obtain ⟨kept, same, grows⟩ := owns.wheel elsewhere elsewhere'
          exact keeps.later kept rfl rfl same grows
  | pollTick waker =>
      obtain ⟨poll, registered, wheel, polls, kept, now, outcome⟩ := owns.pollTick waker
      simp only [Counted.step, Counted.pollTick, polls, Option.bind_eq_bind, Option.bind_some,
        Option.some.injEq] at stepped
      subst stepped
      rcases outcome with ⟨rfl, _, deadline⟩ | ⟨rfl, due, deadline⟩
      · exact keeps.later kept rfl rfl deadline now.ge
      · obtain ⟨_, length, treats, punctual, bursting, delaying⟩ := keeps
        have fits := fits due
        refine ⟨kept, length, treats, ?_, fun bursts => ?_, fun delays => ?_⟩
        · exact List.forall_mem_cons.mpr ⟨due, punctual⟩
        · subst length
          rw [treats, bursts] at fits deadline
          exact (bursting bursts).tick due now (deadline.trans (U64.saturatingAdd_eq fits))
        · subst length
          rw [treats, delays] at fits deadline
          exact (delaying delays).tick due (deadline.trans (U64.saturatingAdd_eq fits))

/-- A pending poll finds the next deadline ahead. -/
theorem Keeps.pending (keeps : Keeps shape origin period behavior state) {waker : Waker}
    {interval : Interval} {wheel : TimerWheel Waker}
    (pends : state.pollTick shape waker = some (.pending, interval, wheel)) :
    state.now < state.ticking.nextDeadline := by
  obtain ⟨poll, registered, wheel, polls, _, _, outcome⟩ := keeps.owns.pollTick waker
  obtain ⟨rfl, early, _⟩ | ⟨rfl, _⟩ := outcome
  · exact early
  · cases polls.symm.trans pends

theorem Bursting.le_div (bursting : Bursting origin period state) (positive : 0 < period) :
    state.ticks.length ≤ (state.now - origin) / period :=
  (Nat.le_div_iff_mul_le positive).mpr (Nat.le_sub_of_add_le (by
    rw [Nat.add_comm]
    exact bursting.reached))

theorem Bursting.eq_div (bursting : Bursting origin period state) (positive : 0 < period)
    (ahead : state.now < state.ticking.nextDeadline) :
    state.ticks.length = (state.now - origin) / period := by
  refine le_antisymm (bursting.le_div positive) (Nat.le_of_lt_succ ?_)
  rw [bursting.next] at ahead
  exact (Nat.div_lt_iff_lt_mul positive).mpr (Nat.sub_lt_left_of_lt_add
    ((Nat.le_add_right _ _).trans bursting.reached) ahead)

/-- A dropped interval leaves the wheel without its entry, and with every other one. -/
theorem Keeps.drop (keeps : Keeps shape origin period behavior state) :
    ∃ wheel, state.ticking.interval.drop state.ticking.shared.wheel = some wheel ∧
      ¬ wheel.Linked state.ticking.interval.sleep.entry ∧
      (wheel.entries state.ticking.interval.sleep.entry).isRegistered = false ∧
      ∀ other, other ≠ state.ticking.interval.sleep.entry →
        (wheel.Linked other ↔ state.ticking.shared.wheel.Linked other) := by
  obtain ⟨wheel, removes, held, aside, unlinked, _⟩ :=
    keeps.owns.sound.held.remove state.ticking.interval.sleep.entry
  refine ⟨wheel, removes, unlinked, ?_, fun other distinct => (aside.others other distinct).linked⟩
  rw [← Bool.not_eq_true, held.isRegistered_iff]
  exact unlinked

/-- However polls and the wheel's time interleave, no tick comes before its deadline. Under `Burst`
there is one for each deadline that a poll has met, and a pending poll has met them all; under
`Delay` two of them are a period apart. A dropped interval is out of the wheel. -/
theorem tick_counts (shape : Shape) {shared : Shared Waker} {entry : Addr} {start : Counted Waker}
    (reachable : Reachable (@Shared.step Waker Output shape) initial shared)
    (created : create shared entry period behavior = some start)
    (events : List (TickingEvent Waker Output))
    (fits : AllAllowed (step shape) NoOverflow events start)
    (ran : run (step shape) events start = some state) :
    (∀ waker, (state.pollTick shape waker).isSome) ∧
    (∀ tick ∈ state.ticks, tick.deadline ≤ tick.returned) ∧
    (behavior = .burst →
      state.ticks.reverse.map Tick.deadline =
        (List.range state.ticks.length).map (fun earlier => shared.wheel.now + (earlier + 1) * period) ∧
      state.ticks.length ≤ (state.now - shared.wheel.now) / period ∧
      ∀ waker interval wheel, state.pollTick shape waker = some (.pending, interval, wheel) →
        state.ticks.length = (state.now - shared.wheel.now) / period) ∧
    (behavior = .delay →
      state.ticks.IsChain fun later earlier => earlier.returned + period ≤ later.returned) ∧
    ∃ wheel, state.ticking.interval.drop state.ticking.shared.wheel = some wheel ∧
      ¬ wheel.Linked state.ticking.interval.sleep.entry ∧
      (wheel.entries state.ticking.interval.sleep.entry).isRegistered = false ∧
      ∀ other, other ≠ state.ticking.interval.sleep.entry →
        (wheel.Linked other ↔ state.ticking.shared.wheel.Linked other) := by
  have keeps : Keeps shape shared.wheel.now period behavior state :=
    fits.keeps _ (fun kept stepped may => kept.step stepped may)
      (create_keeps (Shared.reachable_inRange reachable) created) ran
  have positive : 0 < period := keeps.length ▸ state.ticking.interval.positive
  refine ⟨fun waker => ?_, keeps.due, fun bursts => ?_, fun delays => (keeps.delaying delays).apart,
    keeps.drop⟩
  · obtain ⟨_, _, _, polled⟩ := keeps.owns.pollTick waker
    exact Option.isSome_of_eq_some polled.polls
  · have bursting := keeps.bursting bursts
    exact ⟨bursting.deadlines, bursting.le_div positive, fun _ _ _ pends =>
      bursting.eq_div positive (keeps.pending pends)⟩

/-- Polled at tick 8 for the first time, a bursting interval of period 3 gives two ticks. -/
theorem tick_counts_burst : ∃ start state : Counted Unit,
    create initial 7 3 .burst = some start ∧
    run (step ⟨8, 4, by decide, by decide⟩)
      [.wheel (.tickN 8 : Event Unit Unit), .pollTick (), .pollTick ()] start = some state ∧
    state.ticks.length = 8 / 3 := by
  have fresh : Reachable (@Shared.step Unit Unit ⟨8, 4, by decide, by decide⟩) initial initial := ⟨[], rfl⟩
  obtain ⟨start, created⟩ : ∃ start, create (initial : Shared Unit) 7 3 .burst = some start := ⟨_, rfl⟩
  obtain ⟨state, ran, now, interval, wheel, pends⟩ : ∃ state,
      run (step ⟨8, 4, by decide, by decide⟩)
        [.wheel (.tickN 8 : Event Unit Unit), .pollTick (), .pollTick ()] start = some state ∧
      state.now = 8 ∧ ∃ interval wheel,
        state.pollTick ⟨8, 4, by decide, by decide⟩ () = some (.pending, interval, wheel) := by
    cases created
    exact ⟨_, rfl, rfl, _, _, rfl⟩
  refine ⟨start, state, created, ran, ?_⟩
  have counts := tick_counts _ fresh created _ ?_ ran
  · have count := (counts.2.2.1 rfl).2.2 () interval wheel pends
    rwa [now] at count
  · cases created
    rintro _ ⟨⟩
    refine ⟨trivial, ?_⟩
    rintro _ ⟨⟩
    refine ⟨fun _ => show 3 + 3 ≤ U64.max by decide, ?_⟩
    rintro _ ⟨⟩
    exact ⟨fun _ => show 6 + 3 ≤ U64.max by decide, trivial⟩

end Counted

end TptAsync.Timer
