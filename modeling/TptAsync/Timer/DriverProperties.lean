import TptAsync.Timer.Driver
import TptAsync.Timer.WheelSimulation

set_option autoImplicit false

/-!
# When the driver reaches a deadline

A deadline is counted from the wheel's tick, which lags behind the clock while the
driver is parked. The driver then makes up for the lag in one step.
-/

namespace TptAsync.Timer

open Lib

variable {Waker : Type} {shape : Shape} {wheel : TimerWheel Waker} {flat : FlatTimers Waker}

theorem FlatTimers.registered_advance (count : Nat) {entry : Addr}
    (unregistered : flat.registered entry = false) :
    (advance count flat).registered entry = false := by
  induction count generalizing flat with
  | zero => exact unregistered
  | succ count ih =>
      refine ih ?_
      simp only [registered, List.any_eq_false] at unregistered ⊢
      exact fun timer member => unregistered timer (List.mem_of_mem_filter member)

theorem Refines.setWaker (refines : Refines shape wheel flat) (entry : Addr) (waker : Waker) :
    Refines shape (wheel.setWaker entry waker)
      { flat with wakers := Function.update flat.wakers entry (some waker) } := by
  obtain ⟨lists, tracks⟩ := refines.tracks
  refine ⟨refines.now, refines.due, ?_, refines.fired, lists, tracks.setWaker entry waker⟩
  intro found
  by_cases same : found = entry
  · simp [TimerWheel.setWaker, same]
  · simpa [TimerWheel.setWaker, same] using refines.waker found

/-- What a timer future may do to the wheel: time stands still, and no other entry
becomes registered. -/
structure Touches (shape : Shape) (entry : Addr) (before after : TimerWheel Waker) : Prop where
  now : after.now = before.now
  deadline : ∀ found, (after.entries found).deadline = (before.entries found).deadline
  others : ∀ other, other ≠ entry → (before.entries other).isRegistered = false →
    (after.entries other).isRegistered = false
  refines : ∃ flat, Refines shape after flat

theorem Refines.remove_touches (refines : Refines shape wheel flat) (entry : Addr) :
    ∃ after, Inner.remove wheel entry = some after ∧ Touches shape entry wheel after ∧
      (after.entries entry).isRegistered = false := by
  obtain ⟨after, removes, kept, deadline⟩ := refines.remove entry
  refine ⟨after, removes, ⟨kept.now.trans refines.now.symm, deadline, ?_, _, kept⟩, ?_⟩
  · intro other _ unregistered
    rw [refines.isRegistered] at unregistered
    rw [kept.isRegistered]
    simp only [FlatTimers.registered, List.any_eq_false] at unregistered ⊢
    exact fun timer member => unregistered timer (List.mem_of_mem_filter member)
  · rw [kept.isRegistered]
    simp [FlatTimers.registered, FlatTimers.remove]

theorem Refines.pollDeadline (levels : 2 ≤ shape.levels)
    (fits : shape.slots ^ shape.levels ≤ U64.max) (refines : Refines shape wheel flat)
    (entry : Addr) (registered : Bool) (waker : Waker)
    (deadlineFits : (wheel.entries entry).deadline ≤ U64.max)
    (idle : registered = false → (wheel.entries entry).isRegistered = false) :
    ∃ reached after, wheel.pollDeadline shape entry registered waker = some (reached, after) ∧
      reached = decide ((wheel.entries entry).deadline ≤ wheel.now) ∧
      Touches shape entry wheel after ∧
      (reached = true → (after.entries entry).isRegistered = false) := by
  unfold TimerWheel.pollDeadline
  split
  · next reached =>
      obtain ⟨after, removes, touches, removed⟩ := refines.remove_touches entry
      exact ⟨true, after, by rw [removes]; rfl, by simp [reached], touches, fun _ => removed⟩
  · next future =>
      have stored := refines.setWaker entry waker
      have storedDeadline := wheel.setWaker_deadline entry waker
      have storedOthers : ∀ found, ((wheel.setWaker entry waker).entries found).isRegistered =
          (wheel.entries found).isRegistered := by
        intro found
        rw [stored.isRegistered, refines.isRegistered]
        rfl
      cases registered with
      | true =>
          refine ⟨false, _, rfl, by simp [future], ⟨rfl, storedDeadline, ?_, _, stored⟩, by simp⟩
          exact fun other _ unregistered => (storedOthers other).trans unregistered
      | false =>
          have unregistered := (refines.isRegistered entry).symm.trans (idle rfl)
          have ticks : flat.now < U64.max := by
            rw [← refines.now]
            exact (Nat.lt_of_not_le future).trans_le deadlineFits
          have linked := stored.insertOwned levels fits ticks unregistered
          have frame := Inner.link_frame (wheel.setWaker entry waker)
            (Inner.chooseSlot shape (wheel.setWaker entry waker)
              ((wheel.setWaker entry waker).entries entry).deadline) entry
          refine ⟨false, _, rfl, by simp [future], ⟨frame.tick, ?_, ?_, _, linked⟩, by simp⟩
          · exact fun found => (frame.deadline found).trans (storedDeadline found)
          · intro other distinct absent
            rw [refines.isRegistered] at absent
            rw [linked.isRegistered]
            simp only [FlatTimers.registered, FlatTimers.insert, List.any_append, List.any_cons,
              List.any_nil, Bool.or_false, Bool.or_eq_false_iff] at absent ⊢
            exact ⟨absent, by simpa using distinct.symm⟩

theorem globalShape_fits : globalShape.slots ^ globalShape.levels ≤ U64.max := by decide

theorem globalShape_levels : 2 ≤ globalShape.levels := by decide

namespace World

/-- What holds in every reachable world. -/
structure Valid (world : World Waker) : Prop where
  clock : world.clock ≤ U64.max
  behind : world.wheel.now ≤ world.clock
  target : ∀ target, world.phase = .advancing target → target ≤ world.clock
  deadline : ∀ entry, (world.wheel.entries entry).deadline ≤ U64.max
  idle : ∀ entry, world.registered entry = false → (world.wheel.entries entry).isRegistered = false
  refines : ∃ flat, Refines globalShape world.wheel flat

theorem Valid.initial : Valid (World.initial : World Waker) where
  clock := Nat.zero_le _
  behind := le_rfl
  target target phase := by cases phase
  deadline _ := Nat.zero_le _
  idle _ _ := rfl
  refines := ⟨_, .new⟩

variable {world next : World Waker}

theorem Valid.touch {entry : Addr} {after : TimerWheel Waker} {flag : Bool} (valid : Valid world)
    (touches : Touches globalShape entry world.wheel after)
    (flagged : flag = false → (after.entries entry).isRegistered = false) :
    Valid { world with
      wheel := after, registered := Function.update world.registered entry flag } where
  clock := valid.clock
  behind := touches.now.trans_le valid.behind
  target := valid.target
  deadline found := (touches.deadline found).trans_le (valid.deadline found)
  idle found unflagged := by
    by_cases same : found = entry
    · subst same
      exact flagged (by simpa using unflagged)
    · exact touches.others found same (valid.idle found (by simpa [same] using unflagged))
  refines := touches.refines

/-- A deadline that is polled is registered unless it has been reached. -/
theorem Valid.pollDeadline (valid : Valid world) (entry : Addr) (waker : Waker) :
    ∃ reached after, world.wheel.pollDeadline globalShape entry (world.registered entry) waker =
        some (reached, after) ∧
      Valid { world with
        wheel := after, registered := Function.update world.registered entry (!reached) } := by
  obtain ⟨flat, refines⟩ := valid.refines
  obtain ⟨reached, after, polled, _, touches, removed⟩ :=
    refines.pollDeadline globalShape_levels globalShape_fits entry (world.registered entry) waker
      (valid.deadline entry) (valid.idle entry)
  refine ⟨reached, after, polled, valid.touch touches fun unflagged => removed ?_⟩
  simpa using unflagged

/-- The driver never gets stuck, and moves the wheel to the tick it has read. -/
theorem Valid.advance (valid : Valid world) {target : Nat} (bound : target ≤ world.clock) :
    ∃ after, world.wheel.advanceTo globalShape target = some after ∧
      after.now = max world.wheel.now target ∧
      Valid { world with wheel := after, phase := .inspecting } := by
  obtain ⟨flat, refines⟩ := valid.refines
  have now : world.wheel.now = flat.now := refines.now
  have clock := valid.clock
  have behind := valid.behind
  have ticks : flat.now + (target - flat.now) ≤ U64.max := by omega
  obtain ⟨after, advances, kept, deadline⟩ :=
    refines.advanceTo globalShape_levels globalShape_fits ticks
  have nowAfter : after.now = max world.wheel.now target := by
    rw [show after.now = _ from kept.now, FlatTimers.advance_now]
    omega
  refine ⟨after, advances, nowAfter, clock, ?_, ?_, ?_, ?_, _, kept⟩
  · change after.now ≤ world.clock
    omega
  · rintro _ ⟨⟩
  · exact fun entry => (deadline entry).trans_le (valid.deadline entry)
  · intro entry unflagged
    have before := valid.idle entry unflagged
    rw [refines.isRegistered] at before
    exact (kept.isRegistered entry).trans (FlatTimers.registered_advance _ before)

theorem Valid.driverStep (valid : Valid world) :
    ∃ next, world.driverStep = some next ∧ Valid next := by
  unfold World.driverStep
  cases phase : world.phase with
  | reading =>
      refine ⟨_, rfl, { valid with target := ?_ }⟩
      rintro target ⟨⟩
      exact le_rfl
  | advancing target =>
      obtain ⟨after, advances, _, kept⟩ := valid.advance (valid.target target phase)
      exact ⟨_, by simp only [advances]; rfl, kept⟩
  | inspecting => exact ⟨_, rfl, { valid with target := fun _ phase => by cases phase }⟩
  | capping deadline => exact ⟨_, rfl, { valid with target := fun _ phase => by cases phase }⟩
  | parked cap => exact ⟨_, rfl, { valid with target := fun _ phase => by cases phase }⟩

theorem Valid.step (valid : Valid world) (step : Step world next) : Valid next := by
  obtain ⟨flat, refines⟩ := valid.refines
  cases step with
  | elapse later monotone fits =>
      exact { valid with
        clock := fits
        behind := valid.behind.trans monotone
        target := fun target phase => (valid.target target phase).trans monotone }
  | driver stepped =>
      obtain ⟨found, same, kept⟩ := valid.driverStep
      rw [stepped, Option.some.injEq] at same
      exact same ▸ kept
  | own entry deadline idle fits =>
      have unregistered := (refines.isRegistered entry).symm.trans (valid.idle entry idle)
      have owned := refines.own unregistered deadline none
      have registered : ∀ found,
          ((world.wheel.own entry deadline none).entries found).isRegistered =
            (world.wheel.entries found).isRegistered := by
        intro found
        rw [owned.isRegistered, refines.isRegistered]
        rfl
      refine { valid with deadline := ?_, idle := ?_, refines := ⟨_, owned⟩ }
      · intro found
        by_cases same : found = entry
        · rw [same, TimerWheel.own_deadline]
          exact fits
        · simpa [TimerWheel.own, same] using valid.deadline found
      · exact fun found unflagged => (registered found).trans (valid.idle found unflagged)
  | @sleepPoll _ entry waker _ _ _ polled =>
      obtain ⟨reached, after, found, kept⟩ := valid.pollDeadline entry waker
      simp only [Sleep.poll, found, Option.bind_eq_bind, Option.bind_some] at polled
      cases reached with
      | true =>
          simp only [if_true, Option.some.injEq, Prod.mk.injEq] at polled
          obtain ⟨_, rfl, rfl⟩ := polled
          exact kept
      | false =>
          simp only [Bool.false_eq_true, if_false, Option.some.injEq, Prod.mk.injEq] at polled
          obtain ⟨_, rfl, rfl⟩ := polled
          exact kept
  | @timeoutPoll _ _ entry inner waker _ _ _ polled =>
      cases inner with
      | ready output =>
          obtain ⟨after, removes, touches, removed⟩ := refines.remove_touches entry
          simp only [Timeout.poll, removes, Option.bind_eq_bind, Option.bind_some,
            Option.some.injEq, Prod.mk.injEq] at polled
          obtain ⟨_, rfl, rfl⟩ := polled
          exact valid.touch touches fun _ => removed
      | pending =>
          obtain ⟨reached, after, found, kept⟩ := valid.pollDeadline entry waker
          simp only [Timeout.poll, found, Option.bind_eq_bind, Option.bind_some] at polled
          cases reached with
          | true =>
              simp only [if_true, Option.some.injEq, Prod.mk.injEq] at polled
              obtain ⟨_, rfl, rfl⟩ := polled
              exact kept
          | false =>
              simp only [Bool.false_eq_true, if_false, Option.some.injEq, Prod.mk.injEq] at polled
              obtain ⟨_, rfl, rfl⟩ := polled
              exact kept
  | @drop _ entry _ dropped =>
      obtain ⟨after, removes, touches, removed⟩ := refines.remove_touches entry
      rw [Sleep.drop, removes, Option.some.injEq] at dropped
      exact dropped ▸ valid.touch touches fun _ => removed

theorem Valid.run (valid : Valid world) (run : Run world next) : Valid next := by
  induction run with
  | refl => exact valid
  | tail _ step kept => exact kept.step step

theorem Reachable.valid (reachable : Reachable world) : Valid world :=
  Valid.initial.run reachable

/-- The steps until the driver reads the clock again. -/
def phaseRemaining : Phase → Nat
  | .reading => 0
  | .parked _ => 1
  | .capping _ => 2
  | .inspecting => 3
  | .advancing _ => 4

theorem Valid.untilReading (valid : Valid world) :
    ∃ next, Run world next ∧ next.phase = .reading ∧ next.clock = world.clock ∧ Valid next := by
  generalize steps : phaseRemaining world.phase = remaining
  induction remaining generalizing world with
  | zero =>
      refine ⟨world, .refl, ?_, rfl, valid⟩
      cases phase : world.phase with
      | reading => rfl
      | _ => simp [phase, phaseRemaining] at steps
  | succ remaining ih =>
      obtain ⟨next, stepped, kept⟩ := valid.driverStep
      have progress : phaseRemaining next.phase = remaining ∧ next.clock = world.clock := by
        unfold World.driverStep at stepped
        cases phase : world.phase with
        | reading => simp [phase, phaseRemaining] at steps
        | advancing target =>
            obtain ⟨after, advances, _, _⟩ := valid.advance (valid.target target phase)
            simp only [phase, advances, Option.bind_eq_bind, Option.bind_some,
              Option.some.injEq] at stepped
            rw [phase] at steps
            subst stepped
            exact ⟨Nat.succ.inj steps, rfl⟩
        | _ =>
            simp only [phase, Option.some.injEq] at stepped
            rw [phase] at steps
            subst stepped
            exact ⟨Nat.succ.inj steps, rfl⟩
      obtain ⟨last, run, phase, clock, lastValid⟩ := ih kept progress.1
      exact ⟨last, .head (.driver stepped) run, phase, clock.trans progress.2, lastValid⟩

/-- Whatever it was doing, the driver can have moved the wheel to any later clock value. -/
theorem Valid.catchUp (valid : Valid world) {later : Nat} (monotone : world.clock ≤ later)
    (fits : later ≤ U64.max) :
    ∃ next, Run world next ∧ next.clock = later ∧ next.wheel.now = later := by
  obtain ⟨ready, run, phase, clock, readyValid⟩ := valid.untilReading
  have elapsed : Step ready { ready with clock := later } := .elapse later (clock ▸ monotone) fits
  have elapsedValid := readyValid.step elapsed
  let started : World Waker := { ready with clock := later, phase := .advancing later }
  have reads : Step { ready with clock := later } started := by
    refine .driver ?_
    simp only [World.driverStep, phase, started]
  obtain ⟨after, advances, now, _⟩ := elapsedValid.advance le_rfl
  refine ⟨{ started with wheel := after, phase := .inspecting }, ?_, rfl, ?_⟩
  · refine ((run.tail elapsed).tail reads).tail (.driver ?_)
    have advancing : started.wheel.advanceTo globalShape later = some after := advances
    simp only [World.driverStep, started, advancing]
    rfl
  · exact now.trans (max_eq_right elapsedValid.behind)

theorem Step.clock_le (step : Step world next) (valid : Valid world) :
    world.clock ≤ next.clock := by
  cases step with
  | elapse later monotone fits => exact monotone
  | driver stepped =>
      unfold World.driverStep at stepped
      cases phase : world.phase with
      | advancing target =>
          obtain ⟨after, advances, _, _⟩ := valid.advance (valid.target target phase)
          simp only [phase, advances, Option.bind_eq_bind, Option.bind_some,
            Option.some.injEq] at stepped
          subst stepped
          exact le_rfl
      | _ =>
          simp only [phase, Option.some.injEq] at stepped
          subst stepped
          exact le_rfl
  | own => exact le_rfl
  | sleepPoll => exact le_rfl
  | timeoutPoll => exact le_rfl
  | drop => exact le_rfl

theorem Run.clock_le (run : Run world next) (valid : Valid world) : world.clock ≤ next.clock := by
  induction run with
  | refl => exact le_rfl
  | tail run step grows => exact grows.trans (step.clock_le (valid.run run))

/-- A deadline is never early exactly when nothing has to pass, or it is far enough from
the clock, wherever the wheel stands. -/
theorem Valid.neverEarly_iff (valid : Valid world) {deadline millis : Nat}
    (fits : deadline ≤ U64.max) :
    NeverEarly world deadline millis ↔ millis = 0 ∨ world.clock + millis ≤ deadline := by
  constructor
  · intro never
    by_cases instant : millis = 0
    · exact .inl instant
    · refine .inr (Nat.le_of_not_lt fun early => ?_)
      obtain ⟨next, run, clock, now⟩ := valid.catchUp
        (le_max_left _ _) (max_le valid.clock fits)
      have reached := never next run (now ▸ le_max_right _ _)
      omega
  · intro condition later run reached
    have grows := run.clock_le valid
    have behind := (valid.run run).behind
    omega

theorem Valid.wrappingAdd_ge_iff (valid : Valid world) (millis : Nat) :
    world.clock + millis ≤ U64.wrappingAdd world.wheel.now (millis % 2 ^ 64 / tickMs) ↔
      world.wheel.now = world.clock ∧ world.clock + millis < 2 ^ 64 := by
  have behind := valid.behind
  have clock := valid.clock
  simp only [U64.wrappingAdd, U64.max, tickMs, Nat.div_one] at clock ⊢
  omega

end World

/-- Calls of `sleep` and `timeout` that wait long enough are exactly those made while the
wheel agrees with the clock and the deadline is representable, and those that need not wait. -/
theorem driver_neverEarly_iff (world : World Waker) (reachable : world.Reachable) (dur : Duration) :
    (world.NeverEarly (sleep world.wheel dur).deadline dur.asMillis ∧
        world.NeverEarly (timeout world.wheel dur).deadline dur.asMillis) ↔
      (dur.asMillis = 0 ∨
        (world.wheel.now = world.clock ∧ world.clock + dur.asMillis < 2 ^ 64)) := by
  have valid := reachable.valid
  have fits : (sleep world.wheel dur).deadline ≤ U64.max :=
    Nat.le_pred_of_lt (Nat.mod_lt _ (by decide))
  change (world.NeverEarly (sleep world.wheel dur).deadline dur.asMillis ∧
    world.NeverEarly (sleep world.wheel dur).deadline dur.asMillis) ↔ _
  rw [and_self, valid.neverEarly_iff fits]
  exact or_congr_right (valid.wrappingAdd_ge_iff dur.asMillis)

theorem driver_neverEarly_initial :
    (World.initial : World Unit).NeverEarly (sleep (World.initial : World Unit).wheel
        ⟨0, 10 ^ 7, by decide⟩).deadline 10 :=
  ((driver_neverEarly_iff (World.initial : World Unit) .refl ⟨0, 10 ^ 7, by decide⟩).mpr
    (.inr (by decide))).1

/-- The driver parks over an empty wheel, and 100 ms later `sleep(50 ms)` is called. -/
def parkedWorld : World Unit :=
  { World.initial with clock := 100, phase := .parked 100 }

theorem parkedWorld_reachable : parkedWorld.Reachable := by
  have noDeadline : (TimerWheel.new : TimerWheel Unit).nextDeadline globalShape = none := by
    simp [TimerWheel.nextDeadline, TimerWheel.new]
  let parked : World Unit := { World.initial with phase := .parked 100 }
  have reads : World.Step (World.initial : World Unit)
      { World.initial with phase := .advancing 0 } := .driver rfl
  have advances : World.Step { (World.initial : World Unit) with phase := .advancing 0 }
      { World.initial with phase := .inspecting } := .driver rfl
  have inspects : World.Step { (World.initial : World Unit) with phase := .inspecting }
      { World.initial with phase := .capping none } :=
    .driver (by simp only [World.driverStep, World.initial, noDeadline])
  have parks : World.Step { (World.initial : World Unit) with phase := .capping none } parked :=
    .driver rfl
  have elapses : World.Step parked parkedWorld := .elapse 100 (by decide) (by decide)
  exact ((((Relation.ReflTransGen.single reads).tail advances).tail inspects).tail parks).tail elapses

/-- The wheel reaches the deadline at once. -/
theorem driver_early :
    parkedWorld.Reachable ∧
      ¬ parkedWorld.NeverEarly (sleep parkedWorld.wheel ⟨0, 50 * 10 ^ 6, by decide⟩).deadline 50 := by
  refine ⟨parkedWorld_reachable, fun never => ?_⟩
  obtain ⟨later, run, clock, now⟩ :=
    parkedWorld_reachable.valid.catchUp le_rfl (by decide)
  have reached := never later run (now ▸ (by decide : 50 ≤ 100))
  rw [clock] at reached
  exact absurd reached (by decide)

end TptAsync.Timer
