import TptAsync.Core.TaskProperties
import TptAsync.Executor.Nested

set_option autoImplicit false

/-!
# What is left when `block_on` returns

The body of a task owns the completer of its handle. `block_on` returns as soon as its main future
does, and the tasks stay where they are.
-/

namespace TptAsync.Executor

open Lib

theorem Standing.Step.finished {pends : Prop} {before after : Standing} (step : before.Step pends after)
    (sound : before.Sound) (done : before.task.any TaskState.done = true) :
    after.task.any TaskState.done = true := by
  cases step with
  | spawn fresh =>
      rw [sound.fresh fresh] at done
      cases done
  | swap found free | clear found moves => simpa [found] using done
  | storeDone found holds => rfl
  | remove | skip | pending => exact done

/-- The frame has taken such an id out of the queue and not yet cleared its flag. -/
def Frame.takes (wanted : Nat → Bool) : Frame → Bool
  | .pollTask id .remove | .pollTask id .clearQueued => wanted id
  | .blockOn _ _ | .pollScheduledTasks | .pollTask _ _ | .enqueue _ => false

def Occurrence.pushes (wanted : Nat → Bool) : Occurrence → Bool
  | .pushed id => wanted id
  | .woken _ | .polled _ | .skipped _ => false

def Occurrence.polls (wanted : Nat → Bool) : Occurrence → Bool
  | .polled id => wanted id
  | .woken _ | .pushed _ | .skipped _ => false

def Occurrence.skips (wanted : Nat → Bool) : Occurrence → Bool
  | .skipped id => wanted id
  | .woken _ | .pushed _ | .polled _ => false

namespace LocalExecutor

section Handles

variable {α ω : Type} [Core.Waker ω]

/-- The body of the task has finished. -/
def finished (executor : LocalExecutor) (id : Nat) : Bool := (executor.tasks id).any TaskState.done

/-- The body of the task is in the registry or on the stack. -/
def keepsBody (executor : LocalExecutor) (id : Nat) : Bool :=
  id ∈ executor.registry || executor.frames.any (Frame.holds id)

/-- What a task shares with its handle: a body that finishes has handed its output to the completer,
and a body that is dropped has dropped it. -/
def sharedState (executor : LocalExecutor) (id : Nat) (output : α) : Core.SharedState α ω :=
  if executor.finished id then ((Core.Completer.complete output).alone Core.Access.effect .new).2
  else if executor.keepsBody id then .new
  else (Core.Completer.drop.alone Core.Access.effect .new).2

/-- What a poll of the handle comes to. -/
def pollHandle (executor : LocalExecutor) (id : Nat) (output : α) (waker : ω) : Core.Answer α :=
  ((Core.JoinHandle.poll waker).alone Core.Access.effect (executor.sharedState id output)).1

end Handles

variable {executor next : LocalExecutor} {event : Event} {id : Nat}

/-- How many such ids are in the queue, or out of it and not served. -/
def inHand (executor : LocalExecutor) (wanted : Nat → Bool) : Nat :=
  executor.queue.countP wanted + executor.frames.countP (Frame.takes wanted)

/-- The task is there, and is not being polled. -/
def Resting (executor : LocalExecutor) (id : Nat) : Prop :=
  executor.tasks id ≠ none ∧ ∀ frame ∈ executor.frames, frame.holds id = false

/-- A call of `block_on` returns by the event. -/
def BlockOnReturns (executor : LocalExecutor) (event : Event) : Prop :=
  event = .returns true ∧ ∃ main below, executor.frames = .blockOn main .pollMain :: below

/-- What is to be so of a task, once `block_on` has returned. -/
structure CleanedUp {α ω : Type} [Core.Waker ω] (output : α) (waker : ω) (executor : LocalExecutor)
    (id : Nat) : Prop where
  queue : id ∉ executor.queue
  registry : id ∉ executor.registry
  unpolled : ∀ events later, Lib.run step events executor = some later →
    later.trace.count (.polled id) = executor.trace.count (.polled id)
  cancelled : executor.finished id = false → executor.pollHandle id output waker = .ready (.error ⟨⟩)

/-- Every task that is not being polled is cleaned up when `block_on` returns. -/
def Clears {α ω : Type} [Core.Waker ω] (outputs : Nat → α) (waker : ω) (executor : LocalExecutor)
    (event : Event) : Prop :=
  executor.BlockOnReturns event → ∀ next id, executor.step event = some next → executor.Resting id →
    next.CleanedUp (outputs id) waker id

/-- Every task that is not being polled has finished by then, and its last wake has been served. -/
def AllFinished (executor : LocalExecutor) (event : Event) : Prop :=
  executor.BlockOnReturns event → ∀ id, executor.Resting id →
    executor.finished id = true ∧ id ∉ executor.queue

section Records

/-- What an access records. -/
structure Records (executor next : LocalExecutor) (recorded : List Occurrence) : Prop where
  trace : next.trace = executor.trace ++ recorded
  /-- A task is polled only by who has its entry. -/
  holder : ∀ id, .polled id ∈ recorded → 0 < (executor.standing id).entries
  /-- An id that is put into the queue stays in hand until it is served. -/
  balance : ∀ wanted, recorded.countP (Occurrence.pushes wanted) + executor.inHand wanted =
    recorded.countP (Occurrence.polls wanted) + recorded.countP (Occurrence.skips wanted) +
      next.inHand wanted

theorem Records.silent (trace : next.trace = executor.trace)
    (inHand : ∀ wanted, next.inHand wanted = executor.inHand wanted) : Records executor next [] where
  trace := trace.trans (List.append_nil _).symm
  holder id polled := by cases polled
  balance wanted := by rw [inHand]; rfl

theorem Records.pushed {other : Nat} (trace : next.trace = executor.trace ++ [.pushed other])
    (queue : next.queue = executor.queue ++ [other])
    (frames : ∀ wanted, next.frames.countP (Frame.takes wanted) =
      executor.frames.countP (Frame.takes wanted)) : Records executor next [.pushed other] where
  trace := trace
  holder id polled := by cases List.mem_singleton.mp polled
  balance wanted := by
    simp only [inHand, queue, frames, List.countP_append, List.countP_singleton]
    cases chosen : wanted other with
    | true =>
        simp [Occurrence.pushes, Occurrence.polls, Occurrence.skips, chosen]
        omega
    | false => simp [Occurrence.pushes, Occurrence.polls, Occurrence.skips, chosen]

theorem wakeTarget_records {call : WakeCall}
    (goes : { executor with calls := executor.calls.erase call }.wakeTarget call = some next) :
    ∃ recorded, Records executor next recorded := by
  cases call with
  | loadDone =>
      obtain ⟨task, _, goes⟩ := Option.bind_eq_some_iff.mp goes
      cases goes
      split <;> exact ⟨[], .silent rfl fun _ => rfl⟩
  | swapQueued other =>
      obtain ⟨task, _, goes⟩ := Option.bind_eq_some_iff.mp goes
      cases goes
      have woken : ∀ last : LocalExecutor, last.trace = executor.trace ++ [.woken other] →
          last.queue = executor.queue → last.frames = executor.frames →
          Records executor last [.woken other] := by
        intro last trace queue frames
        refine ⟨trace, fun id polled => ?_, fun wanted => ?_⟩
        · cases List.mem_singleton.mp polled
        · simp [inHand, queue, frames, Occurrence.pushes, Occurrence.polls, Occurrence.skips]
      split <;> exact ⟨_, woken _ rfl rfl rfl⟩
  | pushBack =>
      cases goes
      exact ⟨_, .pushed rfl rfl fun _ => rfl⟩
  | storeNotified | notifyAll =>
      cases goes
      exact ⟨[], .silent rfl fun _ => rfl⟩

theorem runPollTask_records {other : Nat} {step : PollTaskStep} {below : List Frame}
    (top : executor.frames = .pollTask other step :: below)
    (goes : executor.runPollTask other below step = some next) :
    ∃ recorded, Records executor next recorded := by
  cases step with
  | remove =>
      simp only [runPollTask] at goes
      split at goes
      · cases goes
        refine ⟨[], .silent rfl fun wanted => ?_⟩
        cases chosen : wanted other <;> simp [inHand, top, Frame.takes, chosen]
      · cases goes
        refine ⟨[.skipped other], rfl, fun id polled => ?_, fun wanted => ?_⟩
        · cases List.mem_singleton.mp polled
        · simp only [inHand, record, top, List.countP_cons]
          cases chosen : wanted other with
          | true =>
              simp [Frame.takes, Occurrence.pushes, Occurrence.polls, Occurrence.skips, chosen]
              omega
          | false => simp [Frame.takes, Occurrence.pushes, Occurrence.polls, Occurrence.skips, chosen]
  | clearQueued =>
      obtain ⟨task, _, goes⟩ := Option.bind_eq_some_iff.mp goes
      cases goes
      refine ⟨[.polled other], rfl, fun id polled => ?_, fun wanted => ?_⟩
      · cases List.mem_singleton.mp polled
        simp [standing, top, Frame.holds]
      · simp only [inHand, record, setTask, top, List.countP_cons]
        cases chosen : wanted other with
        | true =>
            simp [Frame.takes, Occurrence.pushes, Occurrence.polls, Occurrence.skips, chosen]
            omega
        | false => simp [Frame.takes, Occurrence.pushes, Occurrence.polls, Occurrence.skips, chosen]
  | pollBody => cases goes
  | storeDone =>
      obtain ⟨task, _, goes⟩ := Option.bind_eq_some_iff.mp goes
      cases goes
      exact ⟨[], .silent rfl fun id => by simp [inHand, setTask, top, Frame.takes]⟩
  | dropEntry =>
      cases goes
      exact ⟨[], .silent rfl fun id => by simp [inHand, top, Frame.takes]⟩

theorem run_records (goes : executor.run = some next) : ∃ recorded, Records executor next recorded := by
  simp only [run] at goes
  split at goes
  · cases goes
  · next main step below top =>
      cases step with
      | swapNotified | lockQueue =>
          simp only [runBlockOn] at goes
          split at goes <;> cases goes <;>
            exact ⟨[], .silent rfl fun id => by simp [inHand, top, Frame.takes]⟩
      | pollMain => cases goes
      | park =>
          cases goes
          exact ⟨[], .silent rfl fun id => by simp [inHand, top, Frame.takes]⟩
  · next below top =>
      cases goes
      cases queue : executor.queue with
      | nil =>
          refine ⟨[], .silent (by simp [runPollScheduledTasks, queue]) fun id => ?_⟩
          simp [inHand, runPollScheduledTasks, queue, top, Frame.takes]
      | cons other rest =>
          refine ⟨[], .silent (by simp [runPollScheduledTasks, queue]) fun wanted => ?_⟩
          simp only [inHand, runPollScheduledTasks, queue, top, List.countP_cons]
          cases chosen : wanted other with
          | true =>
              simp [Frame.takes, chosen]
              omega
          | false => simp [Frame.takes, chosen]
  · next other step below top => exact runPollTask_records top goes
  · next other below top =>
      cases goes
      exact ⟨_, .pushed rfl rfl fun id => by simp [pushBack, record, top, Frame.takes]⟩

theorem returns_records {ready : Bool} (goes : executor.returns ready = some next) :
    ∃ recorded, Records executor next recorded := by
  simp only [returns] at goes
  split at goes
  · next main below top =>
      split at goes <;> cases goes <;>
        exact ⟨[], .silent rfl fun id => by simp [inHand, top, Frame.takes]⟩
  · next other below top =>
      split at goes <;> cases goes <;>
        exact ⟨[], .silent rfl fun id => by simp [inHand, top, Frame.takes]⟩
  · cases goes

theorem step_records (goes : executor.step event = some next) :
    ∃ recorded, Records executor next recorded := by
  cases event with
  | spawn | blockOn | runUntilStalled =>
      obtain ⟨_, goes⟩ := Option.ite_none_right_eq_some.mp goes
      cases goes
      exact ⟨[], .silent rfl fun id => congrArg (_ + ·) (List.countP_cons_of_neg Bool.false_ne_true)⟩
  | wake | wakeMain =>
      obtain ⟨_, goes⟩ := Option.ite_none_right_eq_some.mp goes
      cases goes
      exact ⟨[], .silent rfl fun _ => rfl⟩
  | run => exact run_records goes
  | returns => exact returns_records goes
  | advance =>
      obtain ⟨_, goes⟩ := Option.ite_none_right_eq_some.mp goes
      exact wakeTarget_records goes

end Records

section Finished

theorem unfinished_eq (known : executor.tasks id ≠ none) :
    (executor.standing id).unfinished = !executor.finished id := by
  obtain ⟨task, found⟩ := Option.ne_none_iff_exists'.mp known
  simp [Standing.unfinished, standing, finished, found]

theorem Resting.entries (resting : executor.Resting id) : (executor.standing id).entries = 0 :=
  List.countP_eq_zero.mpr fun frame member => by simp [resting.2 frame member]

/-- A task that is not being polled is registered until it has finished. -/
theorem Resting.registered_iff (resting : executor.Resting id) (sound : (executor.standing id).Sound) :
    id ∈ executor.registry ↔ executor.finished id = false := by
  have entry := sound.entry
  rw [resting.entries, unfinished_eq resting.1] at entry
  have registered : (executor.standing id).registered = decide (id ∈ executor.registry) := rfl
  rw [registered] at entry
  cases finished : executor.finished id with
  | true => simpa [finished] using entry
  | false => simpa [finished] using entry

theorem step_finished (goes : executor.step event = some next) (sound : (executor.standing id).Sound)
    (done : executor.finished id = true) : next.finished id = true := by
  rcases step_changes goes id with same | step
  · have tasks : next.tasks id = executor.tasks id := congrArg Standing.task same
    rw [finished, tasks]
    exact done
  · exact Standing.Step.finished step sound done

/-- A task is polled only by who has its entry. -/
theorem step_polled (goes : executor.step event = some next) (id : Nat) :
    next.trace.count (.polled id) = executor.trace.count (.polled id) ∨
      0 < (executor.standing id).entries := by
  obtain ⟨recorded, records⟩ := step_records goes
  by_cases member : .polled id ∈ recorded
  · exact .inr (records.holder id member)
  · left
    rw [records.trace, List.count_append, List.count_eq_zero_of_not_mem member, Nat.add_zero]

theorem run_unpolled {events : List Event} {later : LocalExecutor}
    (sound : (executor.standing id).Sound) (done : executor.finished id = true)
    (reaches : Lib.run step events executor = some later) :
    later.trace.count (.polled id) = executor.trace.count (.polled id) := by
  induction events generalizing executor with
  | nil =>
      cases reaches
      rfl
  | cons event events ih =>
      obtain ⟨next, goes, reaches⟩ := run_cons reaches
      rw [ih (step_sound goes sound) (step_finished goes sound done) reaches]
      refine (step_polled goes id).resolve_right fun holds => ?_
      obtain ⟨task, found, unfinished⟩ := (Option.any_eq_true _ _).mp (sound.holder holds)
      obtain ⟨same, found', finished⟩ := (Option.any_eq_true _ _).mp done
      cases found.symm.trans found'
      simp [finished] at unfinished

end Finished

/-- `block_on` cleans up as far as there is nothing to clean up. -/
theorem clears_iff {α ω : Type} [Core.Waker ω] (outputs : Nat → α) (waker : ω)
    (sound : ∀ id, (executor.standing id).Sound) (goes : executor.step event = some next) :
    executor.Clears outputs waker event ↔ executor.AllFinished event := by
  have returned : executor.BlockOnReturns event → next.queue = executor.queue ∧
      next.registry = executor.registry ∧ next.tasks = executor.tasks ∧ next.trace = executor.trace := by
    rintro ⟨rfl, main, below, top⟩
    simp only [step, returns, top, if_true] at goes
    cases goes
    exact ⟨rfl, rfl, rfl, rfl⟩
  constructor
  · intro clears returns id resting
    obtain ⟨queue, registry, _, _⟩ := returned returns
    have cleaned := clears returns next id goes resting
    have unregistered := mt (resting.registered_iff (sound id)).mpr (registry ▸ cleaned.registry)
    exact ⟨Bool.eq_true_of_not_eq_false unregistered, queue ▸ cleaned.queue⟩
  · intro finished returns next' id goes' resting
    obtain rfl := Option.some.inj (goes.symm.trans goes')
    obtain ⟨queue, registry, tasks, _⟩ := returned returns
    obtain ⟨done, served⟩ := finished returns id resting
    have still : next.finished id = true := step_finished goes (sound id) done
    constructor
    case queue => exact queue ▸ served
    case registry =>
      rw [registry, resting.registered_iff (sound id), done]
      exact Bool.noConfusion
    case unpolled => exact fun events later => run_unpolled (step_sound goes (sound id)) still
    case cancelled =>
      rw [still]
      exact fun unfinished => Bool.noConfusion unfinished

/-- Every `block_on` of a run cleans up exactly if each of them finds all tasks finished. -/
theorem cleanup_iff {α ω : Type} [Core.Waker ω] (outputs : Nat → α) (waker : ω) (events : List Event) :
    AllAllowed step (Clears outputs waker) events new ↔ AllAllowed step AllFinished events new :=
  allAllowed_congr (fun executor => ∀ id, (executor.standing id).Sound)
    (fun sound goes id => step_sound goes (sound id)) (clears_iff outputs waker) new_standing

/-- `block_on` of a future that is ready at once, behind a spawn. -/
def returnsAtOnce : List Event := [.spawn, .run, .blockOn, .run, .returns true]

/-- The task is still queued and registered, its handle is pending, and the next call polls it. -/
theorem not_cleaned_up :
    (∃ left, Lib.run step returnsAtOnce new = some left ∧ left.queue = [1] ∧ left.registry = {1} ∧
        left.pollHandle 1 () () = .pending ∧
        ∃ later, Lib.run step [.runUntilStalled, .run, .run, .run] left = some later ∧
          later.trace.count (.polled 1) = left.trace.count (.polled 1) + 1) ∧
      ¬ AllAllowed step (Clears (fun _ => ()) ()) returnsAtOnce new := by
  refine ⟨⟨_, rfl, rfl, rfl, rfl, _, rfl, rfl⟩, fun clears => ?_⟩
  obtain ⟨_, clears⟩ := clears _ rfl
  obtain ⟨_, clears⟩ := clears _ rfl
  obtain ⟨_, clears⟩ := clears _ rfl
  obtain ⟨_, clears⟩ := clears _ rfl
  obtain ⟨clears, _⟩ := clears _ rfl
  have cleaned := clears ⟨rfl, 0, [], rfl⟩ _ 1 rfl (And.intro (by decide) (by decide))
  exact absurd cleaned.queue (by decide)

end LocalExecutor

end TptAsync.Executor
