import TptAsync.Timer.Interval
import TptAsync.Timer.NextDeadline

set_option autoImplicit false

/-!
# What an interval does

A poll waits for the deadline, or re-arms the sleep at the next one. Nothing else touches the
entry of the interval.
-/

namespace TptAsync.Timer

open Lib

variable {Waker Output : Type} {shape : Shape} {period old now : Nat}

theorem MissedTickBehavior.nextDeadline_le (behavior : MissedTickBehavior) :
    behavior.nextDeadline old period now ≤ U64.max := by
  cases behavior with
  | burst => exact min_le_right _ _
  | delay => exact min_le_right _ _
  | skip => exact max_le (Nat.le_pred_of_lt (Nat.mod_lt _ (by decide))) (min_le_right _ _)

theorem Shared.update_update (shared : Shared Waker) (entry : Addr) (earlier wheel : TimerWheel Waker)
    (left future : Option TimerFuture) (waiting awaiting : Option Waker) :
    (shared.update entry earlier left waiting).update entry wheel future awaiting =
      shared.update entry wheel future awaiting := by
  simp [Shared.update]

namespace Ticking

open Shared (Sound)

variable {state : Ticking Waker}

section Poll

variable {shared : Shared Waker} {sleep : Sleep} {waker : Waker}

/-- A poll of an owned sleep: whether its deadline is reached, and that the deadline stays. -/
theorem sleep_poll (sound : Sound (InRange shape) shared)
    (owned : shared.futures sleep.entry = some ⟨.sleep, sleep.registered⟩) (waker : Waker) :
    ∃ reached polled, sleep.poll shape shared.wheel waker =
        some (if reached then .ready () else .pending, ⟨sleep.entry, !reached⟩, polled) ∧
      (reached = true ↔ (shared.wheel.entries sleep.entry).deadline ≤ shared.wheel.now) ∧
      (polled.entries sleep.entry).deadline = (shared.wheel.entries sleep.entry).deadline ∧
      polled.now = shared.wheel.now ∧
      Sound (InRange shape) (shared.update sleep.entry polled (some ⟨.sleep, !reached⟩)
        (if reached then none else some waker)) := by
  have kept : ∀ next, shared.step shape (.pollSleep sleep.entry waker : Event Waker Unit) = some next →
      Sound (InRange shape) next := fun next => sound.step (inRange_rule shape) (.of_any _ _)
  simp only [Shared.step, owned] at kept
  by_cases due : (shared.wheel.entries sleep.entry).deadline ≤ shared.wheel.now
  · obtain ⟨polled, polls, _, aside, _, deadline⟩ :=
      @Held.pollDeadline_reached _ shape _ _ sleep.entry sound.held sleep.registered waker due
    have ready : sleep.poll shape shared.wheel waker = some (.ready (), ⟨sleep.entry, false⟩, polled) :=
      Sleep.poll_reached polls
    rw [show (⟨sleep.entry, sleep.registered⟩ : Sleep) = sleep from rfl, ready] at kept
    exact ⟨true, polled, ready, by simp [due], deadline, aside.now, kept _ rfl⟩
  · obtain ⟨polled, polls, _, aside, _, _, deadline⟩ :=
      @Held.pollDeadline_waits _ shape _ _ sleep.entry _ sound.held waker (Nat.lt_of_not_le due)
        (fun unflagged => sound.idle sleep.entry _ owned unflagged)
        (fun _ => Inner.chooseSlot_inRange _ _ _)
    have waits : sleep.poll shape shared.wheel waker = some (.pending, ⟨sleep.entry, true⟩, polled) :=
      Sleep.poll_waits polls
    rw [show (⟨sleep.entry, sleep.registered⟩ : Sleep) = sleep from rfl, waits] at kept
    exact ⟨false, polled, waits, by simp [due], deadline, aside.now, kept _ rfl⟩

/-- A reset of an owned sleep. -/
theorem sleep_reset {deadline : Nat} (sound : Sound (InRange shape) shared)
    (owned : shared.futures sleep.entry = some ⟨.sleep, sleep.registered⟩) (fits : deadline ≤ U64.max) :
    ∃ reset, sleep.reset shared.wheel deadline = some (⟨sleep.entry, false⟩, reset) ∧
      (reset.entries sleep.entry).deadline = deadline ∧ reset.now = shared.wheel.now ∧
      Sound (InRange shape) (shared.update sleep.entry reset (some ⟨.sleep, false⟩) none) := by
  have same : (UInt64.ofNat deadline).toNat = deadline :=
    UInt64.toNat_ofNat_of_lt' (Nat.lt_of_le_pred (by decide) fits)
  have kept : ∀ next, shared.step shape
      (.reset sleep.entry (UInt64.ofNat deadline) : Event Waker Unit) = some next →
      Sound (InRange shape) next := fun next => sound.step (inRange_rule shape) trivial
  obtain ⟨removed, removes, _, aside, _, _⟩ := sound.held.remove sleep.entry
  have resets : sleep.reset shared.wheel deadline =
      some (⟨sleep.entry, false⟩, TimerWheel.own removed sleep.entry deadline none) := by
    rw [Sleep.reset, removes]
    rfl
  simp only [Shared.step, owned, same] at kept
  rw [show (⟨sleep.entry, sleep.registered⟩ : Sleep) = sleep from rfl, resets] at kept
  exact ⟨_, resets, TimerWheel.own_deadline _ _ _ _, aside.now, kept _ rfl⟩

end Poll

/-- The wheel is whole, and the interval owns its sleep. -/
structure Owns (shape : Shape) (state : Ticking Waker) : Prop where
  sound : Sound (InRange shape) state.shared
  owned : state.shared.futures state.interval.sleep.entry =
    some ⟨.sleep, state.interval.sleep.registered⟩

/-- What a poll leaves behind: it waits, or it starts anew at the next deadline. -/
structure Polled (shape : Shape) (state : Ticking Waker) (waker : Waker) (poll : Poll Unit)
    (registered : Bool) (wheel : TimerWheel Waker) : Prop where
  polls : state.interval.pollTick shape state.shared.wheel waker =
    some (poll, { state.interval with sleep := ⟨state.interval.sleep.entry, registered⟩ }, wheel)
  owns : Owns shape (state.after poll
    { state.interval with sleep := ⟨state.interval.sleep.entry, registered⟩ } wheel waker)
  now : wheel.now = state.shared.wheel.now
  outcome : poll = .pending ∧ state.shared.wheel.now < state.nextDeadline ∧
      state.interval.nextDeadline wheel = state.nextDeadline ∨
    poll = .ready () ∧ state.nextDeadline ≤ state.shared.wheel.now ∧
      state.interval.nextDeadline wheel = state.interval.behavior.nextDeadline state.nextDeadline
        state.interval.period state.shared.wheel.now

theorem Owns.pollTick (owns : Owns shape state) (waker : Waker) :
    ∃ poll registered wheel, Polled shape state waker poll registered wheel := by
  obtain ⟨sound, owned⟩ := owns
  obtain ⟨reached, polled, polls, due, deadline, now, kept⟩ := sleep_poll sound owned waker
  cases reached with
  | false =>
      refine ⟨.pending, true, polled, ?_, ⟨kept, ?_⟩, now, .inl ⟨rfl, ?_, deadline⟩⟩
      · rw [Interval.pollTick, polls]
        rfl
      · simp [after, Shared.update]
      · exact Nat.lt_of_not_le fun early => by simpa using due.mpr early
  | true =>
      have fresh : (state.shared.update state.interval.sleep.entry polled (some ⟨.sleep, false⟩)
          none).futures state.interval.sleep.entry = some ⟨.sleep, false⟩ := by
        simp [Shared.update]
      obtain ⟨reset, resets, rearmed, later, kept⟩ := @sleep_reset _ _ _
        ⟨state.interval.sleep.entry, false⟩ _ kept fresh
        (@MissedTickBehavior.nextDeadline_le state.interval.period state.nextDeadline
          state.shared.wheel.now state.interval.behavior)
      have rearms : Sleep.reset polled ⟨state.interval.sleep.entry, false⟩
          (state.interval.behavior.nextDeadline
            (state.shared.wheel.entries state.interval.sleep.entry).deadline state.interval.period
            state.shared.wheel.now) = some (⟨state.interval.sleep.entry, false⟩, reset) := resets
      rw [Shared.update_update] at kept
      refine ⟨.ready (), false, reset, ?_, ⟨kept, ?_⟩, later.trans now,
        .inr ⟨rfl, due.mp rfl, rearmed⟩⟩
      · rw [Interval.pollTick, polls]
        simp only [Option.bind_eq_bind, Option.bind_some, if_true, Bool.not_true, deadline, now]
        rw [rearms]
        rfl
      · simp [after, Shared.update]

/-- An event elsewhere may move the clock on, and leaves the interval alone. -/
theorem Owns.wheel {event : Event Waker Output} {shared : Shared Waker}
    (owns : Owns shape state) (elsewhere : event.subject ≠ some state.interval.sleep.entry)
    (stepped : state.shared.step shape event = some shared) :
    Owns shape { state with shared } ∧ state.interval.nextDeadline shared.wheel = state.nextDeadline ∧
      state.shared.wheel.now ≤ shared.wheel.now := by
  have rules := @inRange_rule Waker shape
  have kept := owns.sound.step rules (.of_any _ _) stepped
  obtain ⟨effect, _⟩ := owns.sound.settled rules (.of_any _ _) stepped
  generalize event.subject = subject at effect elsewhere
  cases subject with
  | some subject =>
      have beside := effect.beside
      have distinct : state.interval.sleep.entry ≠ subject := fun same => elsewhere (same ▸ rfl)
      exact ⟨⟨kept, (beside.futures _ distinct).trans owns.owned⟩,
        (beside.aside.others _ distinct).deadline, beside.aside.now.ge⟩
  | none =>
      cases effect with
      | advances count ticks advanced futures _ =>
          have keeps : state.interval.nextDeadline shared.wheel = state.nextDeadline ∧
              state.shared.wheel.now ≤ shared.wheel.now := by
            refine owns.sound.advances rules (fun wheel => state.interval.nextDeadline wheel =
              state.nextDeadline ∧ state.shared.wheel.now ≤ wheel.now) ?_ ticks advanced ⟨rfl, le_rfl⟩
            rintro before after drained ⟨same, grows⟩ ticked
            refine ⟨(ticked.drains.deadline _).trans same, grows.trans ?_⟩
            exact (Nat.le_succ _).trans ticked.drains.currentTick.ge
          exact ⟨⟨kept, (congrFun futures _).trans owns.owned⟩, keeps⟩

/-- A new interval waits for a whole period. -/
theorem create_owns {shared : Shared Waker} {entry : Addr} (sound : Sound (InRange shape) shared)
    (created : create shared entry period = some state) :
    Owns shape state ∧ state.nextDeadline = shared.wheel.now + period ∧
      state.shared.wheel.now = shared.wheel.now ∧ state.interval.period = period ∧
      state.interval.behavior = .skip := by
  rw [create] at created
  split at created
  · next free =>
      rw [Interval.new] at created
      split at created
      · next positive =>
          simp only at created
          split at created
          · next fits =>
              cases created
              have kept : ∀ next, shared.step shape
                  (.create entry .sleep (UInt64.ofNat (shared.wheel.now + period)) : Event Waker Unit) =
                    some next → Sound (InRange shape) next :=
                fun next => sound.step (inRange_rule shape) trivial
              have same : (UInt64.ofNat (shared.wheel.now + period)).toNat = shared.wheel.now + period :=
                UInt64.toNat_ofNat_of_lt' (Nat.lt_of_le_pred (by decide) fits)
              simp only [Shared.step, if_pos free, same] at kept
              refine ⟨⟨kept _ rfl, ?_⟩, TimerWheel.own_deadline _ _ _ _, rfl, rfl, rfl⟩
              simp [Shared.update]
          · cases created
      · cases created
  · cases created

end Ticking

end TptAsync.Timer
