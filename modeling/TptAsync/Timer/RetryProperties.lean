import TptAsync.Timer.Retry

set_option autoImplicit false

/-!
# What a retry does

The attempts follow each other, each behind the sleep that its predecessor has left. Outside of
such a sleep, nothing of the future is in the wheel.
-/

namespace TptAsync.Timer

open Lib Lib.U64

variable {Waker Output α ε : Type} {shape : Shape}

namespace Shared

variable {shared next : Shared Waker} {entry : Addr} {event : Event Waker Output}

/-- An event elsewhere may move the clock on, and leaves an entry alone. -/
theorem Sound.elsewhere (sound : Sound (InRange shape) shared) (distinct : event.subject ≠ some entry)
    (stepped : shared.step shape event = some next) :
    Sound (InRange shape) next ∧ next.futures entry = shared.futures entry ∧
      (next.wheel.entries entry).deadline = (shared.wheel.entries entry).deadline ∧
      shared.wheel.now ≤ next.wheel.now ∧ (next.wheel.Linked entry → shared.wheel.Linked entry) := by
  have rules := @inRange_rule Waker shape
  have kept := sound.step rules (.of_any _ _) stepped
  obtain ⟨effect, _⟩ := sound.settled rules (.of_any _ _) stepped
  generalize event.subject = subject at effect distinct
  cases subject with
  | some subject =>
      have beside := effect.beside
      have other : entry ≠ subject := fun same => distinct (same ▸ rfl)
      have same := beside.aside.others _ other
      exact ⟨kept, beside.futures _ other, same.deadline, beside.aside.now.ge, same.linked.mp⟩
  | none =>
      cases effect with
      | advances count ticks advanced futures _ =>
          refine ⟨kept, congrFun futures _, sound.advances rules (fun wheel =>
            (wheel.entries entry).deadline = (shared.wheel.entries entry).deadline ∧
              shared.wheel.now ≤ wheel.now ∧ (wheel.Linked entry → shared.wheel.Linked entry)) ?_ ticks
            advanced ⟨rfl, le_rfl, id⟩⟩
          rintro before after drained ⟨same, grows, links⟩ ticked
          refine ⟨(ticked.drains.deadline _).trans same, grows.trans ?_, fun linked => ?_⟩
          · exact (Nat.le_succ _).trans ticked.drains.currentTick.ge
          · exact links ((ticked.linked entry).mp linked).1

/-- A sleep begins at an entry that nothing uses. -/
theorem Sound.begin {deadline : Nat} (sound : Sound (InRange shape) shared) (free : shared.free entry = true)
    (fits : deadline ≤ U64.max) :
    Sound (InRange shape)
      (shared.update entry (shared.wheel.own entry deadline none) (some ⟨.sleep, false⟩) none) := by
  have kept : ∀ next, shared.step shape
      (.create entry .sleep (UInt64.ofNat deadline) : Event Waker Unit) = some next →
      Sound (InRange shape) next := fun next => sound.step (inRange_rule shape) trivial
  have same : (UInt64.ofNat deadline).toNat = deadline :=
    UInt64.toNat_ofNat_of_lt' (Nat.lt_of_le_pred (by decide) fits)
  simp only [Shared.step, if_pos free, same] at kept
  exact kept _ rfl

/-- A sleep is dropped, and its entry is free again. -/
theorem Sound.dropSleep {registered : Bool} (sound : Sound (InRange shape) shared)
    (owned : shared.futures entry = some ⟨.sleep, registered⟩) :
    ∃ wheel, Sleep.drop shared.wheel ⟨entry, registered⟩ = some wheel ∧
      Sound (InRange shape) (shared.update entry wheel none none) ∧ ¬ wheel.Linked entry ∧
      wheel.now = shared.wheel.now := by
  have kept : ∀ next, shared.step shape (.drop entry : Event Waker Unit) = some next →
      Sound (InRange shape) next := fun next => sound.step (inRange_rule shape) trivial
  obtain ⟨wheel, removes, _, aside, unlinked, _⟩ := sound.held.remove entry
  have drops : Sleep.drop shared.wheel ⟨entry, registered⟩ = some wheel := removes
  simp only [Shared.step, owned, drops] at kept
  exact ⟨wheel, drops, kept _ rfl, unlinked, aside.now⟩

theorem Sound.free_of (sound : Sound (InRange shape) shared) (unowned : shared.futures entry = none)
    (unlinked : ¬ shared.wheel.Linked entry) : shared.free entry = true := by
  have idle := (sound.held.isRegistered_iff entry).not.mpr unlinked
  rw [Bool.not_eq_true] at idle
  simp only [Shared.free, unowned, idle]
  rfl

end Shared

namespace Retrying

open Shared (Sound)

variable {policy : RetryPolicy} {overflow : Overflow} {state next : Retrying Waker α ε}
  {event : RetryEvent Waker Output α ε}

/-- Each attempt but the first waits for the deadline that the failure before it has set. -/
def Spaced (policy : RetryPolicy) (overflow : Overflow) (state : Retrying Waker α ε) : Prop :=
  ∀ place failed (error : ε) called, state.failures[place]? = some (failed, error) →
    state.calls[place + 1]? = some called →
    ∃ dur deadline, policy.delayFor (place + 1) = some dur ∧
      overflow.add failed (ticksFor dur) = some deadline ∧ deadline ≤ called

/-- The sleep behind an attempt, as the wheel has it. -/
structure Sleeps (policy : RetryPolicy) (overflow : Overflow) (state : Retrying Waker α ε) (attempt : Nat)
    (sleep : Sleep) : Prop where
  entry : sleep.entry = state.entry
  owned : state.shared.futures state.entry = some ⟨.sleep, sleep.registered⟩
  called : state.calls.length = attempt
  failed : state.failures.length = attempt
  more : attempt < policy.maxAttempts
  deadline : ∀ failed (error : ε), state.failures.getLast? = some (failed, error) →
    ∃ dur, policy.delayFor attempt = some dur ∧
      overflow.add failed (ticksFor dur) = some (state.shared.wheel.entries state.entry).deadline

/-- Nothing of the future is in the wheel. -/
structure Idle (state : Retrying Waker α ε) : Prop where
  unowned : state.shared.futures state.entry = none
  unlinked : ¬ state.shared.wheel.Linked state.entry

/-- How far the attempts have come, by the phase. -/
inductive Progress (policy : RetryPolicy) (overflow : Overflow) (state : Retrying Waker α ε) :
    RetryPhase α ε → Prop
  | created (idle : state.Idle) (uncalled : state.calls = []) (unfailed : state.failures = []) :
      Progress policy overflow state .created
  | calling {attempt : Nat} (idle : state.Idle) (called : state.calls.length = attempt)
      (failed : state.failures.length + 1 = attempt) : Progress policy overflow state (.calling attempt)
  | sleeping {attempt : Nat} {sleep : Sleep} (sleeps : Sleeps policy overflow state attempt sleep) :
      Progress policy overflow state (.sleeping attempt sleep)
  | slept {attempt : Nat} {sleep : Sleep} (sleeps : Sleeps policy overflow state attempt sleep)
      (expired : (state.shared.wheel.entries state.entry).deadline ≤ state.shared.wheel.now) :
      Progress policy overflow state (.slept attempt sleep)
  | succeeded {value : α} (idle : state.Idle) (failed : state.failures.length + 1 = state.calls.length) :
      Progress policy overflow state (.returned (.ok value))
  | failed {error : ε} (idle : state.Idle) (called : state.calls.length = max policy.maxAttempts 1)
      (failed : state.failures.length = state.calls.length)
      (last : state.failures.getLast?.map Prod.snd = some error) :
      Progress policy overflow state (.returned (.error error))
  | panicked (idle : state.Idle) (failed : state.failures.length ≤ state.calls.length) :
      Progress policy overflow state .panicked
  | dropped (idle : state.Idle) (failed : state.failures.length ≤ state.calls.length) :
      Progress policy overflow state .dropped

structure Ordered (policy : RetryPolicy) (overflow : Overflow) (shape : Shape)
    (state : Retrying Waker α ε) : Prop where
  sound : Sound (InRange shape) state.shared
  bounded : state.calls.length ≤ max policy.maxAttempts 1
  spaced : state.Spaced policy overflow
  progress : Progress policy overflow state state.phase

theorem Idle.free (idle : state.Idle) (sound : Sound (InRange shape) state.shared) :
    state.shared.free state.entry = true :=
  sound.free_of idle.unowned idle.unlinked

section Spaced

variable {attempt : Nat} {sleep : Sleep}

/-- The attempt that has just failed has no successor yet. -/
theorem Spaced.failed (spaced : state.Spaced policy overflow) (now : Nat) (error : ε)
    (last : state.calls.length ≤ state.failures.length + 1) :
    Spaced policy overflow { state with failures := state.failures ++ [(now, error)] } := by
  intro place failed error' called fails calls
  have inside : place + 1 < state.calls.length := (List.getElem?_eq_some_iff.mp calls).1
  rw [List.getElem?_append_left (by omega)] at fails
  exact spaced place failed error' called fails calls

/-- The next attempt starts when the deadline of the sleep has come. -/
theorem Sleeps.spaced (sleeps : Sleeps policy overflow state attempt sleep)
    (spaced : state.Spaced policy overflow)
    (expired : (state.shared.wheel.entries state.entry).deadline ≤ state.shared.wheel.now) :
    Spaced policy overflow { state with calls := state.calls ++ [state.shared.wheel.now] } := by
  intro place failed error called fails calls
  have before : place < state.failures.length := (List.getElem?_eq_some_iff.mp fails).1
  have number := sleeps.called
  have failures := sleeps.failed
  by_cases earlier : place + 1 < state.calls.length
  · change (state.calls ++ _)[place + 1]? = _ at calls
    rw [List.getElem?_append_left earlier] at calls
    exact spaced place failed error called fails calls
  · obtain rfl : attempt = place + 1 := by omega
    rw [← number, List.getElem?_concat_length] at calls
    cases calls
    have last : state.failures.getLast? = some (failed, error) := by
      rw [List.getLast?_eq_getElem?, failures, Nat.add_sub_cancel, fails]
    obtain ⟨dur, delay, deadline⟩ := sleeps.deadline failed error last
    exact ⟨dur, _, delay, deadline, expired⟩

/-- A sleep goes on as long as its deadline stays. -/
theorem Sleeps.goesOn {shared : Shared Waker} {registered : Bool}
    (sleeps : Sleeps policy overflow state attempt sleep)
    (owned : shared.futures state.entry = some ⟨.sleep, registered⟩)
    (kept : (shared.wheel.entries state.entry).deadline = (state.shared.wheel.entries state.entry).deadline)
    (phase : RetryPhase α ε) :
    Sleeps policy overflow { state with shared, phase } attempt ⟨sleep.entry, registered⟩ := by
  refine ⟨sleeps.entry, owned, sleeps.called, sleeps.failed, sleeps.more, fun failed error last => ?_⟩
  obtain ⟨dur, delay, sum⟩ := sleeps.deadline failed error last
  exact ⟨dur, delay, sum.trans (congrArg some kept.symm)⟩

end Spaced

theorem sleepBehind_eq {wheel : TimerWheel Waker} {attempt : Nat} {timer : TimerEntry Waker}
    (sleeps : policy.sleepBehind overflow wheel attempt = some timer) :
    ∃ dur, policy.delayFor attempt = some dur ∧
      overflow.add wheel.now (ticksFor dur) = some timer.deadline := by
  obtain ⟨dur, delay, sleeps⟩ := Option.bind_eq_some_iff.mp sleeps
  obtain ⟨deadline, sum, rest⟩ := Option.bind_eq_some_iff.mp sleeps
  cases rest
  exact ⟨dur, delay, sum⟩

theorem Ordered.fail {attempt : Nat} (ordered : Ordered policy overflow shape state)
    (calling : state.phase = .calling attempt) (error : ε) :
    Ordered policy overflow shape (state.fail policy overflow attempt error) := by
  obtain ⟨sound, bounded, spaced, progress⟩ := ordered
  rw [calling] at progress
  cases progress with
  | calling idle called failed =>
      have later := spaced.failed state.shared.wheel.now error (by omega)
      rw [Retrying.fail]
      split
      · next exhausted =>
          refine ⟨sound, bounded, later, .failed ⟨idle.unowned, idle.unlinked⟩ ?_ ?_ (by simp)⟩
          · dsimp only
            omega
          · rw [List.length_append, List.length_singleton]
            dsimp only
            omega
      · next more =>
          split
          · next timer sleeps =>
              obtain ⟨dur, delay, sum⟩ := sleepBehind_eq sleeps
              refine ⟨sound.begin (idle.free sound) (Overflow.add_le sum), bounded, later,
                .sleeping ⟨rfl, by simp [Shared.update], called, ?_, Nat.lt_of_not_le more, ?_⟩⟩
              · rw [List.length_append, List.length_singleton]
                exact failed
              · intro failed' error' last
                rw [List.getLast?_concat] at last
                cases last
                refine ⟨dur, delay, ?_⟩
                rw [sum]
                exact congrArg some (TimerWheel.own_deadline _ _ _ _).symm
          · refine ⟨sound, bounded, later, .panicked ⟨idle.unowned, idle.unlinked⟩ ?_⟩
            rw [List.length_append, List.length_singleton]
            dsimp only
            omega

theorem Ordered.pollSleep {attempt : Nat} {sleep : Sleep} (ordered : Ordered policy overflow shape state)
    (sleeping : state.phase = .sleeping attempt sleep) (waker : Waker)
    (polled : state.step Output policy overflow shape (.pollSleep waker) = some next) :
    Ordered policy overflow shape next := by
  obtain ⟨sound, bounded, spaced, progress⟩ := ordered
  rw [sleeping] at progress
  cases progress with
  | sleeping sleeps =>
      have owned := sleeps.owned
      rw [← sleeps.entry] at owned
      obtain ⟨reached, wheel, polls, due, kept, now, after⟩ := Ticking.sleep_poll sound owned waker
      simp only [Retrying.step, sleeping, polls, Option.bind_eq_bind, Option.bind_some] at polled
      cases polled
      have flagged : ∀ awaits, (state.shared.update state.entry wheel (some ⟨.sleep, !reached⟩)
          awaits).futures state.entry = some ⟨.sleep, !reached⟩ := by simp [Shared.update]
      rw [sleeps.entry] at after kept due
      cases reached with
      | false => exact ⟨after, bounded, spaced, .sleeping (sleeps.goesOn (flagged _) kept _)⟩
      | true =>
          refine ⟨after, bounded, spaced, .slept (sleeps.goesOn (flagged _) kept _) ?_⟩
          change (wheel.entries state.entry).deadline ≤ wheel.now
          rw [kept, now]
          exact due.mp rfl

/-- A sleep is dropped where it is awaited, or where it has been. -/
theorem Sleeps.drop {attempt : Nat} {sleep : Sleep} (sound : Sound (InRange shape) state.shared)
    (sleeps : Sleeps policy overflow state attempt sleep) :
    ∃ wheel, state.dropSleep sleep =
        some { state with shared := state.shared.update state.entry wheel none none } ∧
      Sound (InRange shape) (state.shared.update state.entry wheel none none) ∧
      Idle { state with shared := state.shared.update state.entry wheel none none } ∧
      wheel.now = state.shared.wheel.now := by
  obtain ⟨wheel, drops, kept, unlinked, now⟩ := sound.dropSleep sleeps.owned
  rw [← sleeps.entry] at drops
  refine ⟨wheel, ?_, kept, ⟨by simp [Shared.update], unlinked⟩, now⟩
  rw [dropSleep, drops]
  rfl

variable (Output) in
theorem Ordered.goOn {attempt : Nat} {sleep : Sleep} (ordered : Ordered policy overflow shape state)
    (slept : state.phase = .slept attempt sleep) :
    ∃ next, state.step Output policy overflow shape .goOn = some next ∧
      next.phase = .calling (attempt + 1) ∧ Ordered policy overflow shape next := by
  obtain ⟨sound, bounded, spaced, progress⟩ := ordered
  rw [slept] at progress
  cases progress with
  | slept sleeps expired =>
      obtain ⟨wheel, drops, kept, idle, now⟩ := sleeps.drop sound
      have later := sleeps.spaced spaced expired
      rw [← now] at later
      have calls : (state.calls ++ [wheel.now]).length = attempt + 1 := by
        rw [List.length_append, List.length_singleton, sleeps.called]
      refine ⟨Retrying.callOp { state with shared := state.shared.update state.entry wheel none none }
        (attempt + 1), ?_, rfl, kept, ?_, later, .calling ⟨idle.unowned, idle.unlinked⟩ calls ?_⟩
      · simp only [Retrying.step, slept, drops]
        rfl
      · exact calls.trans_le (sleeps.more.trans_le (le_max_left _ _))
      · exact congrArg (· + 1) sleeps.failed

theorem Progress.le {phase : RetryPhase α ε} (progress : Progress policy overflow state phase) :
    state.failures.length ≤ state.calls.length := by
  cases progress with
  | created _ uncalled unfailed => rw [unfailed]; exact Nat.zero_le _
  | calling _ called failed => omega
  | sleeping sleeps | slept sleeps => rw [sleeps.failed, sleeps.called]
  | succeeded _ failed => omega
  | failed _ _ failed => exact failed.le
  | panicked _ failed | dropped _ failed => exact failed

def Awake (phase : RetryPhase α ε) : Prop :=
  ∀ attempt sleep, phase ≠ .sleeping attempt sleep ∧ phase ≠ .slept attempt sleep

theorem Progress.idle {phase : RetryPhase α ε} (progress : Progress policy overflow state phase)
    (awake : Awake phase) : state.Idle := by
  cases progress with
  | created idle => exact idle
  | calling idle => exact idle
  | sleeping => exact absurd rfl (awake _ _).1
  | slept => exact absurd rfl (awake _ _).2
  | succeeded idle => exact idle
  | failed idle => exact idle
  | panicked idle => exact idle
  | dropped idle => exact idle

theorem Progress.sleeps {attempt : Nat} {sleep : Sleep} {phase : RetryPhase α ε}
    (progress : Progress policy overflow state phase)
    (asleep : phase = .sleeping attempt sleep ∨ phase = .slept attempt sleep) :
    Sleeps policy overflow state attempt sleep := by
  rcases asleep with rfl | rfl
  · cases progress with
    | sleeping sleeps => exact sleeps
  · cases progress with
    | slept sleeps => exact sleeps

variable (Output) in
/-- A future that has not come to its end can be dropped. -/
theorem Ordered.drop (ordered : Ordered policy overflow shape state) (going : state.phase.isOver = false) :
    ∃ next, state.step Output policy overflow shape .drop = some next ∧
      next.phase = .dropped ∧ Ordered policy overflow shape next := by
  obtain ⟨sound, bounded, spaced, progress⟩ := ordered
  have fewer := progress.le
  cases phase : state.phase with
  | created | calling =>
      rw [phase] at progress
      have idle : state.Idle := progress.idle fun _ _ => ⟨nofun, nofun⟩
      exact ⟨{ state with phase := .dropped }, by simp only [Retrying.step, phase], rfl, sound, bounded,
        spaced, .dropped ⟨idle.unowned, idle.unlinked⟩ fewer⟩
  | sleeping attempt sleep | slept attempt sleep =>
      rw [phase] at progress
      have sleeps : Sleeps policy overflow state attempt sleep := progress.sleeps (by simp)
      obtain ⟨wheel, drops, kept, idle, _⟩ := sleeps.drop sound
      refine ⟨{ state with shared := state.shared.update state.entry wheel none none, phase := .dropped },
        ?_, rfl, kept, bounded, spaced, .dropped ⟨idle.unowned, idle.unlinked⟩ fewer⟩
      simp only [Retrying.step, phase, drops]
      rfl
  | returned | panicked | dropped =>
      rw [phase] at going
      cases going

theorem Ordered.pollOp {attempt : Nat} {outcome : Poll (Except ε α)}
    (ordered : Ordered policy overflow shape state) (calling : state.phase = .calling attempt)
    (polled : state.step Output policy overflow shape (.pollOp outcome) = some next) :
    Ordered policy overflow shape next := by
  simp only [Retrying.step, calling] at polled
  split at polled
  · cases polled
    exact ordered
  · cases polled
    obtain ⟨sound, bounded, spaced, progress⟩ := ordered
    rw [calling] at progress
    cases progress with
    | calling idle called failed =>
        exact ⟨sound, bounded, spaced, .succeeded ⟨idle.unowned, idle.unlinked⟩ (failed.trans called.symm)⟩
  · cases polled
    exact ordered.fail calling _

theorem Ordered.wheel {shared : Shared Waker} {event : Event Waker Output}
    (ordered : Ordered policy overflow shape state) (elsewhere : event.subject ≠ some state.entry)
    (stepped : state.shared.step shape event = some shared) :
    Ordered policy overflow shape { state with shared } := by
  obtain ⟨sound, bounded, spaced, progress⟩ := ordered
  obtain ⟨kept, futures, deadline, later, links⟩ := sound.elsewhere elsewhere stepped
  have idles : state.Idle → Idle { state with shared } :=
    fun idle => ⟨futures.trans idle.unowned, fun linked => idle.unlinked (links linked)⟩
  have sleeps : ∀ {attempt sleep}, Sleeps policy overflow state attempt sleep →
      Sleeps policy overflow { state with shared } attempt sleep :=
    fun sleeps => sleeps.goesOn (futures.trans sleeps.owned) deadline state.phase
  have stays : ∀ {phase}, Progress policy overflow state phase →
      Progress policy overflow { state with shared } phase := by
    intro phase progress
    cases progress with
    | created idle uncalled unfailed => exact .created (idles idle) uncalled unfailed
    | calling idle called failed => exact .calling (idles idle) called failed
    | sleeping waits => exact .sleeping (sleeps waits)
    | slept waits expired => exact .slept (sleeps waits) (deadline.trans_le (expired.trans later))
    | succeeded idle failed => exact .succeeded (idles idle) failed
    | failed idle called failed last => exact .failed (idles idle) called failed last
    | panicked idle failed => exact .panicked (idles idle) failed
    | dropped idle failed => exact .dropped (idles idle) failed
  exact ⟨kept, bounded, spaced, stays progress⟩

theorem Ordered.step (ordered : Ordered policy overflow shape state)
    (stepped : state.step Output policy overflow shape event = some next) :
    Ordered policy overflow shape next := by
  cases event with
  | start =>
      simp only [Retrying.step] at stepped
      split at stepped
      · next phase =>
          cases stepped
          obtain ⟨sound, bounded, spaced, progress⟩ := ordered
          rw [phase] at progress
          cases progress with
          | created idle uncalled unfailed =>
              refine ⟨sound, ?_, ?_, .calling ⟨idle.unowned, idle.unlinked⟩ ?_ ?_⟩
              · simp [Retrying.callOp, uncalled]
              · intro place failed error called fails
                simp [Retrying.callOp, unfailed] at fails
              · simp [Retrying.callOp, uncalled]
              · simp [Retrying.callOp, unfailed]
      · cases stepped
  | pollOp outcome =>
      cases phase : state.phase with
      | calling attempt => exact ordered.pollOp phase stepped
      | created | sleeping | slept | returned | panicked | dropped =>
          simp only [Retrying.step, phase] at stepped
          cases stepped
  | pollSleep waker =>
      cases phase : state.phase with
      | sleeping attempt sleep => exact ordered.pollSleep phase waker stepped
      | created | calling | slept | returned | panicked | dropped =>
          simp only [Retrying.step, phase] at stepped
          cases stepped
  | goOn =>
      cases phase : state.phase with
      | slept attempt sleep =>
          obtain ⟨after, goes, _, kept⟩ := ordered.goOn Output phase
          cases goes.symm.trans stepped
          exact kept
      | created | calling | sleeping | returned | panicked | dropped =>
          simp only [Retrying.step, phase] at stepped
          cases stepped
  | drop =>
      cases going : state.phase.isOver with
      | false =>
          obtain ⟨after, drops, _, kept⟩ := ordered.drop Output going
          cases drops.symm.trans stepped
          exact kept
      | true =>
          cases phase : state.phase with
          | returned | panicked | dropped =>
              simp only [Retrying.step, phase] at stepped
              cases stepped
          | created | calling | sleeping | slept =>
              rw [phase] at going
              cases going
  | wheel event =>
      simp only [Retrying.step] at stepped
      split at stepped
      · cases stepped
      · next elsewhere =>
          obtain ⟨shared, steps, rest⟩ := Option.bind_eq_some_iff.mp stepped
          cases rest
          exact ordered.wheel elsewhere steps

theorem create_ordered {shared : Shared Waker} {entry : Addr} (sound : Sound (InRange shape) shared)
    (free : shared.free entry = true) :
    Ordered policy overflow shape (create shared entry : Retrying Waker α ε) :=
  have unfailed : Spaced policy overflow (create shared entry : Retrying Waker α ε) := by
    rintro place failed error called ⟨⟩
  ⟨sound, Nat.zero_le _, unfailed, .created ⟨(sound.free free).1, (sound.free free).2⟩ rfl rfl⟩

/-- The memory of the future, of a wheel on which anything may have happened before. -/
structure Fresh (shape : Shape) (shared : Shared Waker) (entry : Addr) : Prop where
  reachable : ∃ Output : Type, Reachable (@Shared.step Waker Output shape) .initial shared
  free : shared.free entry = true

theorem reachable_ordered {shared : Shared Waker} {entry : Addr} (fresh : Fresh shape shared entry)
    (reachable : Reachable (step Output policy overflow shape) (create shared entry) state) :
    Ordered policy overflow shape state := by
  obtain ⟨_, before⟩ := fresh.reachable
  exact reachable.invariant Ordered.step (create_ordered (Shared.reachable_inRange before) fresh.free)

/-- However the polls and the wheel interleave, `op` is called at most as often as the policy says,
once at least, and their count never overflows. Each call but the first waits for the sleep behind
the failure before it. The first success is returned, or else the last error, behind as many
failures as there are attempts. -/
theorem retry_ordered {shared : Shared Waker} {entry : Addr} (fresh : Fresh shape shared entry)
    (reachable : Reachable (step Output policy overflow shape) (create shared entry) state) :
    state.calls.length ≤ max policy.maxAttempts 1 ∧ state.Spaced policy overflow ∧
      (∀ attempt, state.phase = .calling attempt → attempt = state.calls.length ∧ attempt < 2 ^ 32) ∧
      (∀ value, state.phase = .returned (.ok value) → state.failures.length + 1 = state.calls.length) ∧
      ∀ error, state.phase = .returned (.error error) →
        state.calls.length = max policy.maxAttempts 1 ∧ state.failures.length = state.calls.length ∧
          state.failures.getLast?.map Prod.snd = some error := by
  obtain ⟨_, bounded, spaced, progress⟩ := reachable_ordered fresh reachable
  refine ⟨bounded, spaced, fun attempt calling => ?_, fun value returned => ?_, fun error returned => ?_⟩
  · rw [calling] at progress
    cases progress with
    | calling _ called =>
        exact ⟨called.symm, (called.symm.trans_le bounded).trans_lt (max_lt policy.fits (by decide))⟩
  · rw [returned] at progress
    cases progress with
    | succeeded _ failed => exact failed
  · rw [returned] at progress
    cases progress with
    | failed _ called failed last => exact ⟨called, failed, last⟩

section Example

/-- Two attempts, a millisecond apart. -/
def twoAttempts : RetryPolicy := .new 2 (by decide) fun _ => some ⟨0, 10 ^ 6, by decide⟩

theorem initial_fresh : Fresh globalShape (.initial : Shared Unit) 0 := ⟨⟨Unit, [], rfl⟩, rfl⟩

/-- The first attempt fails at once, and the second one follows a tick later. -/
theorem retry_ordered_twice : ∃ state : Retrying Unit Nat Unit,
    state.calls = [0, 1] ∧ state.failures = [(0, ())] ∧ state.Spaced twoAttempts .panics := by
  have ends : (run (step Unit twoAttempts .panics globalShape)
      [.start, .pollOp (.ready (.error ())), .pollSleep (), .wheel .tick, .pollSleep (), .goOn,
        .pollOp (.ready (.ok 7))] (create .initial 0 : Retrying Unit Nat Unit)).map
      (fun state => (state.calls, state.failures)) = some ([0, 1], [(0, ())]) := by decide +kernel
  obtain ⟨state, reaches, shape⟩ := Option.map_eq_some_iff.mp ends
  obtain ⟨calls, failures⟩ := Prod.mk.inj shape
  exact ⟨state, calls, failures, (retry_ordered initial_fresh ⟨_, reaches⟩).2.1⟩

end Example

/-- Outside of a sleep, and when it has come to its end in any way, the future has nothing in the
wheel; it can be dropped at any time before, and no sleep that is due holds up the next attempt. -/
theorem retry_leaves_nothing {shared : Shared Waker} {entry : Addr} (fresh : Fresh shape shared entry)
    (reachable : Reachable (step Output policy overflow shape) (create shared entry) state) :
    (Awake state.phase → state.shared.free state.entry = true) ∧
      (state.phase.isOver = false → ∃ next, state.step Output policy overflow shape .drop = some next ∧
        next.shared.free next.entry = true) ∧
      ∀ attempt sleep waker, state.phase = .sleeping attempt sleep →
        (state.shared.wheel.entries state.entry).deadline ≤ state.shared.wheel.now →
        ∃ next, run (step Output policy overflow shape) [.pollSleep waker, .goOn] state =
          some next ∧ next.phase = .calling (attempt + 1) := by
  have ordered := reachable_ordered fresh reachable
  refine ⟨fun awake => (ordered.progress.idle awake).free ordered.sound, fun going => ?_, ?_⟩
  · obtain ⟨next, drops, dropped, after⟩ := ordered.drop Output going
    refine ⟨next, drops, (after.progress.idle ?_).free after.sound⟩
    rw [dropped]
    exact fun _ _ => ⟨nofun, nofun⟩
  · intro attempt sleep waker sleeping due
    have progress := ordered.progress
    rw [sleeping] at progress
    have sleeps : Sleeps policy overflow state attempt sleep := progress.sleeps (.inl rfl)
    have owned := sleeps.owned
    rw [← sleeps.entry] at owned due
    obtain ⟨reached, wheel, polls, ends, _⟩ := Ticking.sleep_poll ordered.sound owned waker
    obtain rfl : reached = true := ends.mpr due
    have polled : state.step Output policy overflow shape (.pollSleep waker) = some { state with
        shared := state.shared.update state.entry wheel (some ⟨.sleep, false⟩) none
        phase := .slept attempt ⟨sleep.entry, false⟩ } := by
      simp only [Retrying.step, sleeping, polls, Option.bind_eq_bind, Option.bind_some]
      rfl
    obtain ⟨next, goes, calling, _⟩ := (ordered.pollSleep sleeping waker polled).goOn Output rfl
    exact ⟨next, by rw [run, polled, Option.bind_some, run, goes]; rfl, calling⟩

/-- Two attempts over a wheel of their own. -/
abbrev attemptTwice (state : Retrying Unit Nat Unit) (event : RetryEvent Unit Unit Nat Unit) :
    Option (Retrying Unit Nat Unit) :=
  step Unit twoAttempts .panics globalShape state event

/-- In the middle of the sleep, the entry is in the wheel. A drop gives it back there; and a tick
later the sleep is over, and gives it back before the second attempt. -/
theorem retry_leaves_nothing_dropped : ∃ asleep dropped due woken : Retrying Unit Nat Unit,
    run attemptTwice [.start, .pollOp (.ready (.error ())), .pollSleep ()] (create .initial 0) =
      some asleep ∧
    asleep.phase = .sleeping 1 ⟨0, true⟩ ∧ asleep.shared.free asleep.entry = false ∧
    attemptTwice asleep .drop = some dropped ∧ dropped.shared.free dropped.entry = true ∧
    attemptTwice asleep (.wheel .tick) = some due ∧
    run attemptTwice [.pollSleep (), .goOn] due = some woken ∧
    woken.phase = .calling 2 ∧ woken.shared.free woken.entry = true := by
  have sleeps : (run attemptTwice [.start, .pollOp (.ready (.error ())), .pollSleep ()]
      (create .initial 0)).map (fun state => (state.phase, state.shared.free state.entry)) =
      some (.sleeping 1 ⟨0, true⟩, false) := rfl
  obtain ⟨asleep, falls, shape⟩ := Option.map_eq_some_iff.mp sleeps
  obtain ⟨sleeping, held⟩ := Prod.mk.inj shape
  obtain ⟨dropped, drops, freed⟩ := (retry_leaves_nothing initial_fresh ⟨_, falls⟩).2.1
    (by rw [sleeping]; rfl)
  have ticks : (run attemptTwice ([.start, .pollOp (.ready (.error ())), .pollSleep ()] ++ [.wheel .tick])
      (create .initial 0)).map (fun state =>
        (state.phase, (state.shared.wheel.entries state.entry).deadline, state.shared.wheel.now)) =
      some (.sleeping 1 ⟨0, true⟩, 1, 1) := rfl
  obtain ⟨due, waits, shape⟩ := Option.map_eq_some_iff.mp ticks
  obtain ⟨stillSleeping, times⟩ := Prod.mk.inj shape
  obtain ⟨deadline, now⟩ := Prod.mk.inj times
  obtain ⟨woken, wakes, calling⟩ := (retry_leaves_nothing initial_fresh ⟨_, waits⟩).2.2 _ _ () stillSleeping
    (deadline.trans now.symm).le
  have reached : run attemptTwice _ (create .initial 0) = some woken := (run_append waits).trans wakes
  have awake : Awake woken.phase := by simp [Awake, calling]
  rw [run_append falls] at waits
  obtain ⟨next, ticked, rest⟩ := run_cons waits
  cases rest
  exact ⟨asleep, dropped, due, woken, falls, sleeping, held, drops, freed, ticked, wakes, calling,
    (retry_leaves_nothing initial_fresh ⟨_, reached⟩).1 awake⟩

end Retrying

end TptAsync.Timer
