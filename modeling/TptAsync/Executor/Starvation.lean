import TptAsync.Executor.Cleanup

set_option autoImplicit false

/-!
# How long a notified main future waits

`block_on` polls its main future again once the run queue is empty. Each id in the queue stands for
at most one poll, but the ids that are put there in the meantime are served first.
-/

namespace TptAsync.Executor

open Lib

/-- How many accesses a call still makes of its own, up to the next look at the flag of the main
future. -/
def Frame.cost : Frame → Nat
  | .pollScheduledTasks | .enqueue _ | .blockOn _ .swapNotified | .pollTask _ .dropEntry => 1
  | .blockOn _ .lockQueue | .blockOn _ .park | .pollTask _ .storeDone => 2
  | .blockOn _ .pollMain | .pollTask _ .pollBody => 3
  | .pollTask _ .clearQueued => 4
  | .pollTask _ .remove => 5

def stackCost : List Frame → Nat
  | [] => 0
  | frame :: below => frame.cost + stackCost below

namespace LocalExecutor

variable {executor next : LocalExecutor} {event : Event} {id main : Nat}

def pushes (executor : LocalExecutor) (wanted : Nat → Bool) : Nat :=
  executor.trace.countP (Occurrence.pushes wanted)

def polls (executor : LocalExecutor) (wanted : Nat → Bool) : Nat :=
  executor.trace.countP (Occurrence.polls wanted)

def skips (executor : LocalExecutor) (wanted : Nat → Bool) : Nat :=
  executor.trace.countP (Occurrence.skips wanted)

/-- Such tasks are polled no more often than their ids are in hand or put into the queue. -/
def PolledFromQueue (wanted : Nat → Bool) (earlier later : LocalExecutor) : Prop :=
  later.polls wanted + earlier.pushes wanted ≤
    earlier.polls wanted + later.pushes wanted + earlier.inHand wanted

/-- A task is polled no more than once for each time that its id is put into the queue, and once
for the id that is there. -/
def PolledAsQueued (id : Nat) (earlier later : LocalExecutor) : Prop :=
  later.trace.count (.polled id) + earlier.trace.count (.pushed id) ≤
    earlier.trace.count (.polled id) + later.trace.count (.pushed id) + 1

/-- The waker of the main future has been invoked, and it has not been polled since. -/
def Notified (main : Nat) (executor : LocalExecutor) : Prop :=
  executor.notified main = true ∧ ∃ step, .blockOn main step ∈ executor.frames

def PollsMain (main : Nat) (executor : LocalExecutor) (event : Event) : Prop :=
  event = .run ∧ executor.notified main = true ∧
    executor.frames.head? = some (.blockOn main .swapNotified)

/-- The main future goes on waiting for its poll. -/
def KeepsWaiting (main : Nat) (executor : LocalExecutor) (event : Event) : Prop :=
  ¬ PollsMain main executor event ∧ ¬ executor.BlockOnReturns event

/-- How many accesses the owner makes for the calls on its stack and the ids in the queue. -/
def cost (executor : LocalExecutor) : Nat :=
  6 * executor.queue.length + stackCost executor.frames

/-- The owner makes its next access, if it does not run code of its user. -/
def GoesOn (executor : LocalExecutor) : Prop :=
  userCode executor.frames = true ∨ ∃ next, executor.stepUnnested .run = some next

/-- The owner makes at most six accesses for each id, and one more for each spawn, before it polls the
main future. -/
def PolledPromptly (main : Nat) (executor : LocalExecutor) : Prop :=
  ∀ events later, Lib.run stepUnnested events executor = some later →
    AllAllowed stepUnnested (KeepsWaiting main) events executor →
      later.GoesOn ∧ events.count .run + 6 * executor.pushes (fun _ => true) ≤
        executor.cost + 6 * later.pushes (fun _ => true) + events.count .spawn

instance : Decidable (PollsMain main executor event) := inferInstanceAs (Decidable (_ ∧ _))

section Balance

theorem count_pushed (trace : List Occurrence) (id : Nat) :
    trace.count (.pushed id) = trace.countP (Occurrence.pushes (· == id)) := by
  refine congrArg (List.countP · trace) (funext fun occurrence => ?_)
  rw [Bool.eq_iff_iff]
  cases occurrence <;> simp [Occurrence.pushes]

theorem count_polled (trace : List Occurrence) (id : Nat) :
    trace.count (.polled id) = trace.countP (Occurrence.polls (· == id)) := by
  refine congrArg (List.countP · trace) (funext fun occurrence => ?_)
  rw [Bool.eq_iff_iff]
  cases occurrence <;> simp [Occurrence.polls]

/-- What has been put into the queue has been served or is in hand. -/
def Balanced (executor : LocalExecutor) : Prop :=
  ∀ wanted, executor.pushes wanted =
    executor.polls wanted + executor.skips wanted + executor.inHand wanted

theorem step_balanced (goes : executor.step event = some next) (balanced : executor.Balanced) :
    next.Balanced := by
  intro wanted
  obtain ⟨recorded, records⟩ := step_records goes
  have balance := records.balance wanted
  have before := balanced wanted
  simp only [pushes, polls, skips, records.trace, List.countP_append] at before ⊢
  omega

theorem reachable_balanced {start : LocalExecutor} (reached : Reachable step start executor)
    (balanced : start.Balanced) : executor.Balanced := by
  have keeps : ∀ {before event after}, Balanced before → step before event = some after →
      Balanced after := fun balanced goes => step_balanced goes balanced
  exact reached.invariant keeps balanced

theorem run_trace {events : List Event} {later : LocalExecutor}
    (reaches : Lib.run step events executor = some later) : executor.trace <+: later.trace := by
  induction events generalizing executor with
  | nil =>
      cases reaches
      exact List.prefix_refl _
  | cons event events ih =>
      obtain ⟨next, goes, reaches⟩ := run_cons reaches
      obtain ⟨recorded, records⟩ := step_records goes
      apply List.IsPrefix.trans _ (ih reaches)
      rw [records.trace]
      exact List.prefix_append _ _

theorem polledFromQueue (wanted : Nat → Bool) (events : List Event) :
    Throughout step (PolledFromQueue wanted) events new := by
  intro earlier later first second _ reaches ends
  have start : new.Balanced := fun _ => rfl
  have balanced := reachable_balanced ⟨earlier, reaches⟩ start
  have before := balanced wanted
  have after := reachable_balanced ⟨later, ends⟩ balanced wanted
  have skipped : first.skips wanted ≤ second.skips wanted := (run_trace ends).sublist.countP_le
  rw [PolledFromQueue]
  omega

/-- What is in hand is on its way. -/
theorem inHand_le_ids (executor : LocalExecutor) (id : Nat) :
    executor.inHand (· == id) ≤ (executor.standing id).ids := by
  have taken : executor.frames.countP (Frame.takes (· == id)) ≤
      executor.frames.countP (Frame.moves id) := by
    apply List.countP_mono_left
    intro frame _ takes
    cases frame with
    | pollTask other step => cases step <;> exact takes
    | blockOn | pollScheduledTasks | enqueue => cases takes
  have queued : executor.queue.countP (· == id) = executor.queue.count id := rfl
  simp only [inHand, standing]
  omega

theorem inHand_le_one (sound : (executor.standing id).Sound)
    (unfinished : executor.finished id = false) : executor.inHand (· == id) ≤ 1 := by
  have open_ : (executor.standing id).task = none ∨ (executor.standing id).unfinished = true := by
    cases known : executor.tasks id with
    | none => exact .inl known
    | some task =>
        right
        rw [unfinished_eq (by simp [known]), unfinished]
        rfl
  have places := sound.places open_
  have flag := Bool.toNat_le (executor.standing id).queued
  have hand := executor.inHand_le_ids id
  omega

theorem polledAsQueued (id : Nat) (events : List Event) :
    Throughout step (PolledAsQueued id) events new := by
  intro earlier later first second within reaches ends
  have sound := standing_sound ⟨earlier, reaches⟩ id
  rw [PolledAsQueued]
  cases finished : first.finished id with
  | false =>
      have hand := inHand_le_one sound finished
      have polled := polledFromQueue (· == id) events earlier later first second within reaches ends
      rw [PolledFromQueue] at polled
      simp only [count_polled, count_pushed]
      simp only [polls, pushes] at polled
      omega
  | true =>
      have pushed := (run_trace ends).sublist.count_le (.pushed id)
      rw [run_unpolled sound finished ends]
      omega

end Balance

section Waiting

/-- The owner has made the accesses that it had to make, or that it has to make for what has been
put into the queue. -/
def Charged (accesses spawns : Nat) (executor next : LocalExecutor) : Prop :=
  accesses + next.cost + 6 * executor.pushes (fun _ => true) ≤
    executor.cost + 6 * next.pushes (fun _ => true) + spawns

theorem pushes_record (executor : LocalExecutor) (occurrence : Occurrence) (wanted : Nat → Bool) :
    (executor.record occurrence).pushes wanted =
      executor.pushes wanted + (occurrence.pushes wanted).toNat := by
  cases pushes : occurrence.pushes wanted <;> simp [LocalExecutor.pushes, record, pushes]

theorem cost_pushBack (executor : LocalExecutor) (id : Nat) :
    (executor.pushBack id).cost = executor.cost + 6 := by
  simp only [cost, pushBack, record, List.length_append, List.length_singleton]
  omega

theorem pushes_pushBack (executor : LocalExecutor) (id : Nat) :
    (executor.pushBack id).pushes (fun _ => true) = executor.pushes (fun _ => true) + 1 :=
  pushes_record _ _ _

theorem wakeTarget_waits {call : WakeCall} (notified : executor.Notified main)
    (goes : { executor with calls := executor.calls.erase call }.wakeTarget call = some next) :
    next.Notified main ∧ Charged 0 0 executor next := by
  cases call with
  | loadDone =>
      obtain ⟨task, _, goes⟩ := Option.bind_eq_some_iff.mp goes
      cases goes
      split <;> exact ⟨notified, by simp [Charged, cost, pushes, begin]⟩
  | swapQueued =>
      obtain ⟨task, _, goes⟩ := Option.bind_eq_some_iff.mp goes
      cases goes
      split <;>
        exact ⟨notified, by simp [Charged, cost, pushes, begin, record, setTask, Occurrence.pushes]⟩
  | pushBack =>
      cases goes
      refine ⟨notified, ?_⟩
      rw [Charged, cost_pushBack, pushes_pushBack]
      simp only [cost, pushes]
      omega
  | storeNotified other =>
      cases goes
      refine ⟨⟨?_, notified.2⟩, by simp [Charged, cost, pushes, begin]⟩
      simp only [begin, Function.update_apply]
      split
      · rfl
      · exact notified.1
  | notifyAll =>
      cases goes
      exact ⟨notified, by simp [Charged, cost, pushes]⟩

theorem runPollTask_waits {step : PollTaskStep} {below : List Frame}
    (top : executor.frames = .pollTask id step :: below)
    (goes : executor.runPollTask id below step = some next) :
    next.notified = executor.notified ∧ (∃ above, next.frames = above ++ below) ∧
      Charged 1 0 executor next := by
  cases step with
  | remove =>
      simp only [runPollTask] at goes
      split at goes
      · cases goes
        refine ⟨rfl, ⟨[_], rfl⟩, ?_⟩
        simp only [Charged, cost, pushes, top, stackCost, Frame.cost]
        omega
      · cases goes
        refine ⟨rfl, ⟨[], rfl⟩, ?_⟩
        rw [Charged, pushes_record]
        simp only [cost, record, pushes, top, stackCost, Frame.cost]
        omega
  | clearQueued =>
      obtain ⟨task, _, goes⟩ := Option.bind_eq_some_iff.mp goes
      cases goes
      refine ⟨rfl, ⟨[_], rfl⟩, ?_⟩
      rw [Charged, pushes_record]
      simp only [cost, record, setTask, pushes, top, stackCost, Frame.cost]
      omega
  | pollBody => cases goes
  | storeDone =>
      obtain ⟨task, _, goes⟩ := Option.bind_eq_some_iff.mp goes
      cases goes
      refine ⟨rfl, ⟨[_], rfl⟩, ?_⟩
      simp only [Charged, cost, setTask, pushes, top, stackCost, Frame.cost]
      omega
  | dropEntry =>
      cases goes
      refine ⟨rfl, ⟨[], rfl⟩, ?_⟩
      simp only [Charged, cost, pushes, top, stackCost, Frame.cost]
      omega

/-- The call of `block_on` that waits is the only one. -/
theorem Notified.only {other : Nat} {step : BlockOnStep} {below : List Frame}
    (notified : executor.Notified main) (flat : Flat executor.frames)
    (top : executor.frames = .blockOn other step :: below) : other = main := by
  obtain ⟨_, step', member⟩ := notified
  rw [top] at flat member
  rcases List.mem_cons.mp member with same | deeper
  · cases same
    rfl
  · exact absurd ((List.pairwise_cons.mp flat).1 _ deeper) (Nat.lt_irrefl 0)

theorem Notified.below {top : Frame} {below : List Frame} (notified : executor.Notified main)
    (frames : executor.frames = top :: below) (other : ∀ step, top ≠ .blockOn main step) :
    ∃ step, .blockOn main step ∈ below := by
  obtain ⟨_, step, member⟩ := notified
  rw [frames] at member
  exact ⟨step, (List.mem_cons.mp member).resolve_left fun same => other step same.symm⟩

theorem run_waits (flat : Flat executor.frames) (notified : executor.Notified main)
    (unpolled : ¬ PollsMain main executor .run) (goes : executor.run = some next) :
    next.Notified main ∧ Charged 1 0 executor next := by
  simp only [run] at goes
  split at goes
  · cases goes
  · next other step below top =>
      obtain rfl := notified.only flat top
      cases step with
      | swapNotified => exact absurd ⟨rfl, notified.1, by rw [top]; rfl⟩ unpolled
      | pollMain => cases goes
      | lockQueue =>
          simp only [runBlockOn, notified.1, Bool.true_or, if_true] at goes
          cases goes
          refine ⟨⟨notified.1, _, List.mem_cons_self⟩, ?_⟩
          simp only [Charged, cost, pushes, top, stackCost, Frame.cost]
          omega
      | park =>
          cases goes
          refine ⟨⟨notified.1, _, List.mem_cons_self⟩, ?_⟩
          simp only [Charged, cost, pushes, top, stackCost, Frame.cost]
          omega
  · next below top =>
      obtain ⟨step, member⟩ := notified.below top (by simp)
      cases goes
      cases queue : executor.queue with
      | nil =>
          rw [runPollScheduledTasks, queue]
          refine ⟨⟨notified.1, step, member⟩, ?_⟩
          simp only [Charged, cost, pushes, queue, top, stackCost, Frame.cost]
          omega
      | cons other rest =>
          rw [runPollScheduledTasks, queue]
          refine ⟨⟨notified.1, step, by simp [member]⟩, ?_⟩
          simp only [Charged, cost, pushes, queue, top, stackCost, List.length_cons, Frame.cost]
          omega
  · next other step below top =>
      obtain ⟨step', member⟩ := notified.below top (by simp)
      obtain ⟨same, ⟨above, frames⟩, charged⟩ := runPollTask_waits top goes
      exact ⟨⟨same ▸ notified.1, step', frames ▸ List.mem_append_right above member⟩, charged⟩
  · next other below top =>
      obtain ⟨step, member⟩ := notified.below top (by simp)
      cases goes
      refine ⟨⟨notified.1, step, member⟩, ?_⟩
      rw [Charged, cost_pushBack, pushes_pushBack]
      simp only [cost, pushes, top, stackCost, Frame.cost]
      omega

theorem returns_waits {ready : Bool} (notified : executor.Notified main)
    (stays : ¬ executor.BlockOnReturns (.returns ready)) (goes : executor.returns ready = some next) :
    next.Notified main ∧ Charged 0 0 executor next := by
  simp only [returns] at goes
  split at goes
  · next other below top =>
      cases ready with
      | true => exact absurd ⟨rfl, other, below, top⟩ stays
      | false =>
          obtain ⟨set, step, member⟩ := notified
          cases goes
          constructor
          · rw [top] at member
            rcases List.mem_cons.mp member with same | deeper
            · cases same
              exact ⟨set, .lockQueue, by simp⟩
            · exact ⟨set, step, by simp [deeper]⟩
          · simp only [Charged, cost, pushes, top, stackCost, Frame.cost]
            omega
  · next other below top =>
      obtain ⟨step, member⟩ := notified.below top (by simp)
      split at goes
      · cases goes
        refine ⟨⟨notified.1, step, List.mem_cons_of_mem _ member⟩, ?_⟩
        simp only [Charged, cost, pushes, top, stackCost, Frame.cost]
        omega
      · cases goes
        refine ⟨⟨notified.1, step, member⟩, ?_⟩
        simp only [Charged, cost, pushes, top, stackCost, Frame.cost]
        omega
  · cases goes

theorem step_waits (flat : Flat executor.frames) (notified : executor.Notified main)
    (waits : KeepsWaiting main executor event) (goes : executor.stepUnnested event = some next) :
    next.Notified main ∧ Charged ([event].count .run) ([event].count .spawn) executor next := by
  have inside : executor.frames ≠ [] := by
    obtain ⟨_, step, member⟩ := notified
    exact List.ne_nil_of_mem member
  cases event with
  | spawn =>
      simp only [stepUnnested, step, Option.ite_none_right_eq_some] at goes
      obtain ⟨_, goes⟩ := goes
      obtain ⟨set, step, member⟩ := notified
      cases goes
      refine ⟨⟨set, step, List.mem_cons_of_mem _ member⟩, ?_⟩
      simp only [Charged, spawn, setTask, cost, pushes, stackCost, Frame.cost,
        List.count_singleton, beq_iff_eq, reduceCtorEq, if_true, if_false]
      omega
  | blockOn | runUntilStalled =>
      simp only [stepUnnested, if_neg inside] at goes
      cases goes
  | run => exact run_waits flat notified waits.1 goes
  | returns ready => exact returns_waits notified waits.2 goes
  | wake | wakeMain =>
      simp only [stepUnnested, step, Option.ite_none_right_eq_some] at goes
      obtain ⟨_, goes⟩ := goes
      cases goes
      exact ⟨notified, by simp [Charged, cost, pushes, begin]⟩
  | advance call =>
      simp only [stepUnnested, step, advance, Option.ite_none_right_eq_some] at goes
      obtain ⟨_, goes⟩ := goes
      exact wakeTarget_waits notified goes

theorem Charged.trans {accesses spawns accesses' spawns' : Nat} {last : LocalExecutor}
    (first : Charged accesses spawns executor next) (rest : Charged accesses' spawns' next last) :
    Charged (accesses + accesses') (spawns + spawns') executor last := by
  simp only [Charged] at first rest ⊢
  omega

theorem stepUnnested_step (goes : executor.stepUnnested event = some next) :
    executor.step event = some next := by
  cases event with
  | blockOn | runUntilStalled => exact (Option.ite_none_right_eq_some.mp goes).2
  | spawn | run | returns | wake | wakeMain | advance => exact goes

/-- Nothing is driven from within, and the places of each task are as they have to be. -/
def Placed (executor : LocalExecutor) : Prop :=
  Flat executor.frames ∧ ∀ id, (executor.standing id).Sound

theorem step_placed (placed : executor.Placed) (goes : executor.stepUnnested event = some next) :
    next.Placed := by
  constructor
  · exact (stepUnnested_refines placed.1 goes).1
  · exact fun id => step_sound (stepUnnested_step goes) (placed.2 id)

theorem goesOn (sound : ∀ id, (executor.standing id).Sound) (notified : executor.Notified main) :
    executor.GoesOn := by
  have known : ∀ id step below, executor.frames = .pollTask id step :: below →
      Frame.holds id (.pollTask id step) = true → ∃ task, executor.tasks id = some task := by
    intro id step below top holds
    have entries : 0 < (executor.standing id).entries := by
      simp [standing, top, holds]
    obtain ⟨task, found, _⟩ := (Option.any_eq_true _ _).mp ((sound id).holder entries)
    exact ⟨task, found⟩
  have goes : ∀ next, executor.run = some next → executor.GoesOn := fun next goes => .inr ⟨next, goes⟩
  cases top : executor.frames with
  | nil =>
      obtain ⟨_, step, member⟩ := notified
      rw [top] at member
      cases member
  | cons frame below =>
      cases frame with
      | blockOn other step =>
          cases step with
          | pollMain => exact .inl (by rw [top]; rfl)
          | swapNotified | lockQueue =>
              cases run : executor.run with
              | some next => exact goes next run
              | none =>
                  simp only [LocalExecutor.run, top, runBlockOn] at run
                  split at run <;> cases run
          | park => exact goes _ (by rw [LocalExecutor.run, top]; rfl)
      | pollScheduledTasks | enqueue => exact goes _ (by rw [LocalExecutor.run, top])
      | pollTask id step =>
          cases step with
          | remove =>
              cases run : executor.run with
              | some next => exact goes next run
              | none =>
                  simp only [LocalExecutor.run, top, runPollTask] at run
                  split at run <;> cases run
          | clearQueued | storeDone =>
              obtain ⟨task, found⟩ := known id _ below top (beq_self_eq_true id)
              exact goes _ (by rw [LocalExecutor.run, top]; simp only [runPollTask, found]; rfl)
          | pollBody | dropEntry => exact .inl (by rw [top]; rfl)

theorem run_waits_charged {events : List Event} {later : LocalExecutor} (placed : executor.Placed)
    (notified : executor.Notified main)
    (waits : AllAllowed stepUnnested (KeepsWaiting main) events executor)
    (reaches : Lib.run stepUnnested events executor = some later) :
    later.GoesOn ∧ Charged (events.count .run) (events.count .spawn) executor later := by
  induction events generalizing executor with
  | nil =>
      cases reaches
      exact ⟨goesOn placed.2 notified, by simp [Charged]⟩
  | cons event events ih =>
      obtain ⟨next, goes, reaches⟩ := run_cons reaches
      obtain ⟨wait, waits⟩ := waits next goes
      obtain ⟨notified, first⟩ := step_waits placed.1 notified wait goes
      obtain ⟨goesOn, rest⟩ := ih (step_placed placed goes) notified waits reaches
      have charged := first.trans rest
      rw [← List.count_append, ← List.count_append] at charged
      exact ⟨goesOn, charged⟩

end Waiting

/-- A main future whose waker has been invoked waits for the ids that are in the queue and for those
that are put there until it is polled. -/
theorem notified_waits (executor : LocalExecutor) (reached : Reachable stepUnnested new executor)
    (main : Nat) (notified : executor.Notified main) :
    (∀ wanted events, Throughout step (PolledFromQueue wanted) events new) ∧
      (∀ id events, Throughout step (PolledAsQueued id) events new) ∧ executor.PolledPromptly main := by
  refine ⟨polledFromQueue, polledAsQueued, fun events later reaches waits => ?_⟩
  have placed : executor.Placed := reached.invariant step_placed ⟨.nil, new_standing⟩
  obtain ⟨goesOn, charged⟩ := run_waits_charged placed notified waits reaches
  rw [Charged] at charged
  exact ⟨goesOn, by omega⟩

/-- The main future is notified during its own poll, with a task in the queue. -/
def notifiedMain : List Event :=
  [.spawn, .run, .blockOn, .run, .wakeMain 0, .advance (.storeNotified 0), .returns false]

/-- The task wakes itself in its poll and is polled again. -/
def wakesItself : List Event :=
  [.run, .run, .run, .wake 1, .advance (.loadDone 1), .advance (.swapQueued 1), .advance (.pushBack 1),
    .returns false, .run, .run, .run]

theorem notified_waits_main : ∃ executor, Lib.run stepUnnested notifiedMain new = some executor ∧
    (∀ wanted events, Throughout step (PolledFromQueue wanted) events new) ∧
      (∀ id events, Throughout step (PolledAsQueued id) events new) ∧ executor.PolledPromptly 0 :=
  ⟨_, rfl, notified_waits _ ⟨notifiedMain, rfl⟩ 0 ⟨rfl, .lockQueue, .tail _ (.head _)⟩⟩

theorem not_polled_once :
    ¬ ∀ executor, Reachable stepUnnested new executor → ∀ main, executor.Notified main →
      ∀ events later, Lib.run stepUnnested events executor = some later →
        AllAllowed stepUnnested (KeepsWaiting main) events executor →
          ∀ id, later.trace.count (.polled id) ≤ executor.trace.count (.polled id) + 1 := by
  intro once
  have bounded := once _ ⟨notifiedMain, rfl⟩ 0 ⟨rfl, .lockQueue, .tail _ (.head _)⟩ wakesItself _ rfl
  have waits : ∀ {executor : LocalExecutor} {event : Event}, ¬ PollsMain 0 executor event →
      event ≠ .returns true → KeepsWaiting 0 executor event :=
    fun unpolled stays => ⟨unpolled, fun returned => stays returned.1⟩
  refine absurd (bounded ?_ 1) (by decide)
  iterate 11 refine .cons rfl (waits (by decide) (by decide)) ?_
  trivial

end LocalExecutor

end TptAsync.Executor
