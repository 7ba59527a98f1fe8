import TptAsync.Executor.Routines
import TptAsync.Executor.SchedulerProperties

set_option autoImplicit false

/-!
# Positions of `block_on`

Where the owner of the executor is while it runs routines, and what each of its accesses does to
what is going to be polled.
-/

namespace TptAsync.Executor

open Lib

/-- Where the owner is. -/
inductive Position
  | swap
  | main
  | mainSpawns (child : Nat)
  | drain
  | lock
  | task (id : Nat) (step : PollTaskStep)
  | taskSpawns (child id : Nat)

namespace Position

def frames : Position → List Frame
  | swap => [.blockOn 0 .swapNotified]
  | main => [.blockOn 0 .pollMain]
  | mainSpawns child => [.enqueue child, .blockOn 0 .pollMain]
  | drain => [.pollScheduledTasks, .blockOn 0 .lockQueue]
  | lock => [.blockOn 0 .lockQueue]
  | task id step => [.pollTask id step, .pollScheduledTasks, .blockOn 0 .lockQueue]
  | taskSpawns child id =>
      [.enqueue child, .pollTask id .pollBody, .pollScheduledTasks, .blockOn 0 .lockQueue]

/-- How far it is to the next poll. -/
def rank : Position → Nat
  | swap => 0
  | lock => 1
  | drain => 2
  | task _ .dropEntry => 3
  | task _ .storeDone => 4
  | main | task _ .pollBody => 5
  | mainSpawns _ | taskSpawns _ _ | task _ .clearQueued => 6
  | task _ .remove => 7

/-- What is being polled. -/
def current : Position → Option Sleeper
  | main | mainSpawns _ => some .main
  | task id .pollBody | taskSpawns _ id => some (.task id)
  | swap | drain | lock | task _ _ => none

/-- A task that is not in the queue yet. -/
def spawning : Position → Nat
  | mainSpawns _ | taskSpawns _ _ => 1
  | swap | main | drain | lock | task _ _ => 0

end Position

namespace LocalExecutor

variable {executor : LocalExecutor} {target : Sleeper}

/-- The target is going to be polled. -/
def Queues (executor : LocalExecutor) : Sleeper → Prop
  | .main => executor.notified 0 = true
  | .task id => ∃ task, executor.tasks id = some task ∧ task.queued = true

/-- There are wakers of the target. -/
def Polled (executor : LocalExecutor) : Sleeper → Prop
  | .main => 0 < executor.nextMain
  | .task id => id ∈ executor.wakers

/-- The target has not finished. -/
def Unfinished (executor : LocalExecutor) : Sleeper → Prop
  | .main => True
  | .task id => ∃ queued, executor.tasks id = some ⟨false, queued⟩

def scheduled (executor : LocalExecutor) : Nat := executor.queue.length + (executor.notified 0).toNat

/-- What a wake does. -/
structure Woken (target : Sleeper) (before after : LocalExecutor) : Prop where
  sound : after.Sound
  calls : after.calls = []
  nextMain : after.nextMain = before.nextMain
  nextId : after.nextId = before.nextId
  registry : after.registry = before.registry
  wakers : after.wakers = before.wakers
  frames : after.frames = before.frames
  unfinished : ∀ other, before.Unfinished other → after.Unfinished other
  others : ∀ other, before.Queues other → after.Queues other
  queues : after.Queues target
  scheduled : after.scheduled ≤ before.scheduled + 1

theorem Woken.polled {after : LocalExecutor} (woken : Woken target executor after) (other : Sleeper)
    (polled : executor.Polled other) : after.Polled other := by
  cases other with
  | main => exact (woken.nextMain ▸ polled : 0 < after.nextMain)
  | task id => exact (woken.wakers ▸ polled : id ∈ after.wakers)

theorem settle_sound {rounds : Nat} {after : LocalExecutor} (sound : executor.Sound)
    (settles : settle rounds executor = some after) : after.Sound := by
  induction rounds generalizing executor with
  | zero => exact Option.some.inj settles ▸ sound
  | succ rounds ih =>
      rw [settle] at settles
      split at settles
      · exact Option.some.inj settles ▸ sound
      · next call _ _ =>
          obtain ⟨next, advances, settles⟩ := Option.bind_eq_some_iff.mp settles
          exact ih (@stepUnnested_sound _ _ (.advance call) sound advances) settles

theorem wakeNow_sound {after : LocalExecutor} (sound : executor.Sound)
    (wakes : executor.wakeNow target = some after) : after.Sound := by
  obtain ⟨called, calls, settles⟩ := Option.bind_eq_some_iff.mp wakes
  refine settle_sound ?_ settles
  cases target with
  | main => exact @stepUnnested_sound _ _ (.wakeMain 0) sound calls
  | task id => exact @stepUnnested_sound _ _ (.wake id) sound calls

theorem wakeNow_main (quiet : executor.calls = []) (polled : 0 < executor.nextMain) :
    executor.wakeNow .main =
      some { executor with notified := Function.update executor.notified 0 true, waiting := false } := by
  simp [wakeNow, step, polled, settle, advance, begin, wakeTarget, quiet]

theorem wakeNow_task {id : Nat} {queued : Bool} (quiet : executor.calls = []) (polled : id ∈ executor.wakers)
    (found : executor.tasks id = some ⟨false, queued⟩) :
    executor.wakeNow (.task id) =
      some (let woken := (executor.setTask id ⟨false, true⟩).record (.woken id)
        if queued then woken else woken.pushBack id) := by
  cases queued <;>
    simp [wakeNow, step, polled, settle, advance, begin, wakeTarget, quiet, found, setTask, record, pushBack]

theorem wakeNow_runs (sound : executor.Sound) (quiet : executor.calls = [])
    (polled : executor.Polled target) (unfinished : executor.Unfinished target) :
    ∃ after, executor.wakeNow target = some after ∧ Woken target executor after := by
  cases target with
  | main =>
      have wakes := wakeNow_main quiet polled
      refine ⟨_, wakes, wakeNow_sound sound wakes, quiet, rfl, rfl, rfl, rfl, rfl, fun other still => ?_,
        fun other queues => ?_, by simp [Queues], by simp [scheduled]⟩
      · cases other <;> exact still
      · cases other with
        | main => simp [Queues]
        | task id => exact queues
  | task id =>
      obtain ⟨queued, found⟩ := unfinished
      have wakes := wakeNow_task quiet polled found
      have known : ∀ other, executor.Unfinished other →
          (executor.setTask id ⟨false, true⟩).Unfinished other := by
        intro other still
        cases other with
        | main => trivial
        | task other =>
            by_cases same : other = id
            · exact ⟨true, by simp [setTask, same]⟩
            · simpa [Unfinished, setTask, Function.update_of_ne same] using still
      have kept : ∀ other, executor.Queues other → (executor.setTask id ⟨false, true⟩).Queues other := by
        intro other queues
        cases other with
        | main => exact queues
        | task other =>
            by_cases same : other = id
            · exact ⟨⟨false, true⟩, by simp [setTask, same]⟩
            · simpa [Queues, setTask, Function.update_of_ne same] using queues
      have here : (executor.setTask id ⟨false, true⟩).Queues (.task id) :=
        ⟨⟨false, true⟩, by simp [setTask]⟩
      have woken := wakeNow_sound sound wakes
      cases queued with
      | true =>
          exact ⟨_, wakes, woken, quiet, rfl, rfl, rfl, rfl, rfl, known, kept, here, Nat.le_succ _⟩
      | false =>
          refine ⟨_, wakes, woken, quiet, rfl, rfl, rfl, rfl, rfl, known, kept, here, ?_⟩
          simp [scheduled, pushBack, record, setTask]
          omega

end LocalExecutor

/-- Where the owner is when it polls a target. -/
def Sleeper.position : Sleeper → Position
  | .main => .main
  | .task id => .task id .pollBody

/-- Where the owner is when a target that it polls has spawned a task. -/
def Sleeper.spawns (child : Nat) : Sleeper → Position
  | .main => .mainSpawns child
  | .task id => .taskSpawns child id

/-- The target is being polled, or is going to be. -/
def Runnable (position : Position) (executor : LocalExecutor) (target : Sleeper) : Prop :=
  executor.Queues target ∨ position.current = some target

/-- What is so where the owner is, if `live` are the tasks whose bodies are still there. -/
def Here (live : Nat → Prop) (executor : LocalExecutor) : Position → Prop
  | .swap => executor.notified 0 = true
  | .lock => executor.queue = []
  | .task id .clearQueued => live id ∧ id ∉ executor.registry
  | .task id .pollBody | .taskSpawns _ id => live id ∧ id ∉ executor.registry ∧ id ∈ executor.wakers
  | .task id .storeDone => ¬ live id ∧ ∃ task, executor.tasks id = some task
  | .main | .mainSpawns _ | .drain | .task _ .remove | .task _ .dropEntry => True

structure Stands (live : Nat → Prop) (position : Position) (executor : LocalExecutor) : Prop where
  sound : executor.Sound
  calls : executor.calls = []
  mains : 0 < executor.nextMain
  frames : executor.frames = position.frames
  unfinished : ∀ id, live id → executor.Unfinished (.task id)
  entries : ∀ id ∈ executor.registry, live id
  here : Here live executor position

/-- What an access of the owner comes to that is not one of its user's code. -/
structure GoesOn (live : Nat → Prop) (position next : Position) (executor after : LocalExecutor) :
    Prop where
  stands : Stands live next after
  runnable : ∀ target, Runnable position executor target → Runnable next after target
  polled : ∀ target, executor.Polled target → after.Polled target
  nextId : after.nextId = executor.nextId
  rank : 8 * (after.scheduled + next.spawning) + next.rank <
    8 * (executor.scheduled + position.spawning) + position.rank

/-- The owner runs no code of its user. -/
def Position.inside : Position → Bool
  | main | task _ .pollBody => false
  | swap | mainSpawns _ | drain | lock | taskSpawns _ _ | task _ _ => true

section Run

variable {live : Nat → Prop} {position : Position} {executor : LocalExecutor}

theorem unfinished_setTask {id : Nat} {task : TaskState} {other : Nat}
    (still : executor.Unfinished (.task other)) (here : other = id → task.done = false) :
    (executor.setTask id task).Unfinished (.task other) := by
  by_cases same : other = id
  · exact ⟨task.queued, by simp [LocalExecutor.setTask, same, ← here same]⟩
  · simpa [LocalExecutor.Unfinished, LocalExecutor.setTask, Function.update_of_ne same] using still

theorem queues_setTask {id : Nat} {task : TaskState} {target : Sleeper} (queues : executor.Queues target)
    (here : target = .task id → task.queued = true) : (executor.setTask id task).Queues target := by
  cases target with
  | main => exact queues
  | task other =>
      by_cases same : other = id
      · exact ⟨task, by simp [LocalExecutor.setTask, same], here (same ▸ rfl)⟩
      · simpa [LocalExecutor.Queues, LocalExecutor.setTask, Function.update_of_ne same] using queues

theorem Runnable.idle {target : Sleeper} (runnable : Runnable position executor target)
    (idle : position.current = none) : executor.Queues target :=
  runnable.resolve_right (by rw [idle]; nofun)

theorem Stands.run (stands : Stands live position executor) (inside : position.inside = true)
    (busy : position = .lock → executor.notified 0 = true) :
    ∃ next after, executor.run = some after ∧ GoesOn live position next executor after := by
  obtain ⟨sound, calls, mains, frames, unfinished, entries, here⟩ := stands
  have runs : ∀ {after}, executor.run = some after → after.Sound := fun ran =>
    @LocalExecutor.stepUnnested_sound _ _ .run sound ran
  cases position with
  | main => cases inside
  | swap =>
      have notified : executor.notified 0 = true := here
      have ran : executor.run = some { executor with
          notified := Function.update executor.notified 0 false, frames := Position.main.frames } := by
        simp only [LocalExecutor.run, frames, Position.frames, LocalExecutor.runBlockOn, notified, if_true]
      refine ⟨.main, _, ran, ⟨runs ran, calls, mains, rfl, unfinished, entries, trivial⟩, ?_,
        fun target polled => by cases target <;> exact polled, rfl, ?_⟩
      · intro target runnable
        cases target with
        | main => exact .inr rfl
        | task id => exact .inl (runnable.idle rfl)
      · simp [LocalExecutor.scheduled, notified, Position.spawning, Position.rank]
        omega
  | mainSpawns child =>
      have ran : executor.run = some ({ executor with frames := Position.main.frames }.pushBack child) := by
        simp only [LocalExecutor.run, frames, Position.frames]
      refine ⟨.main, _, ran, ⟨runs ran, calls, mains, rfl, unfinished, entries, trivial⟩, ?_,
        fun target polled => by cases target <;> exact polled, rfl, ?_⟩
      · intro target runnable
        exact runnable.imp (fun queues => by cases target <;> exact queues) id
      · simp [LocalExecutor.scheduled, LocalExecutor.pushBack, LocalExecutor.record, Position.spawning,
          Position.rank]
        omega
  | drain =>
      cases queue : executor.queue with
      | nil =>
          have ran : executor.run = some { executor with frames := Position.lock.frames } := by
            simp only [LocalExecutor.run, frames, Position.frames, LocalExecutor.runPollScheduledTasks, queue]
          refine ⟨.lock, _, ran, ⟨runs ran, calls, mains, rfl, unfinished, entries, queue⟩, ?_,
            fun target polled => by cases target <;> exact polled, rfl, ?_⟩
          · intro target runnable
            exact .inl (by cases target <;> exact runnable.idle rfl)
          · simp [LocalExecutor.scheduled, Position.spawning, Position.rank]
      | cons id queue' =>
          have ran : executor.run = some { executor with
              queue := queue', frames := (Position.task id .remove).frames } := by
            simp only [LocalExecutor.run, frames, Position.frames, LocalExecutor.runPollScheduledTasks, queue]
          refine ⟨.task id .remove, _, ran, ⟨runs ran, calls, mains, rfl, unfinished, entries, trivial⟩, ?_,
            fun target polled => by cases target <;> exact polled, rfl, ?_⟩
          · intro target runnable
            exact .inl (by cases target <;> exact runnable.idle rfl)
          · simp [LocalExecutor.scheduled, queue, Position.spawning, Position.rank]
            omega
  | lock =>
      have ran : executor.run = some { executor with frames := Position.swap.frames } := by
        simp only [LocalExecutor.run, frames, Position.frames, LocalExecutor.runBlockOn, busy rfl,
          Bool.true_or, if_true]
      refine ⟨.swap, _, ran, ⟨runs ran, calls, mains, rfl, unfinished, entries, busy rfl⟩, ?_,
        fun target polled => by cases target <;> exact polled, rfl, ?_⟩
      · intro target runnable
        exact .inl (by cases target <;> exact runnable.idle rfl)
      · simp [LocalExecutor.scheduled, Position.spawning, Position.rank]
  | task id step =>
      cases step with
      | pollBody => cases inside
      | remove =>
          by_cases member : id ∈ executor.registry
          · have ran : executor.run = some { executor with
                registry := executor.registry.erase id, frames := (Position.task id .clearQueued).frames } := by
              simp only [LocalExecutor.run, frames, Position.frames, LocalExecutor.runPollTask, if_pos member]
            refine ⟨.task id .clearQueued, _, ran, ⟨runs ran, calls, mains, rfl, unfinished, ?_,
              entries id member, Finset.notMem_erase _ _⟩, ?_,
              fun target polled => by cases target <;> exact polled, rfl, ?_⟩
            · exact fun other inside => entries other (Finset.mem_of_mem_erase inside)
            · intro target runnable
              exact .inl (by cases target <;> exact runnable.idle rfl)
            · simp [LocalExecutor.scheduled, Position.spawning, Position.rank]
          · have ran : executor.run =
                some ({ executor with frames := Position.drain.frames }.record (.skipped id)) := by
              simp only [LocalExecutor.run, frames, Position.frames, LocalExecutor.runPollTask, if_neg member]
            refine ⟨.drain, _, ran, ⟨runs ran, calls, mains, rfl, unfinished, entries, trivial⟩, ?_,
              fun target polled => by cases target <;> exact polled, rfl, ?_⟩
            · intro target runnable
              exact .inl (by cases target <;> exact runnable.idle rfl)
            · simp [LocalExecutor.scheduled, LocalExecutor.record, Position.spawning, Position.rank]
      | clearQueued =>
          obtain ⟨lives, absent⟩ := here
          obtain ⟨queued, found⟩ := unfinished id lives
          have ran : executor.run = some ({ executor.setTask id ⟨false, false⟩ with
              wakers := id :: executor.wakers
              frames := (Position.task id .pollBody).frames }.record (.polled id)) := by
            simp only [LocalExecutor.run, frames, Position.frames, LocalExecutor.runPollTask, found,
              Option.bind_eq_bind, Option.bind_some]
          refine ⟨.task id .pollBody, _, ran, ⟨runs ran, calls, mains, rfl, fun other live => ?_, entries,
            lives, absent, List.mem_cons_self⟩, ?_, ?_, rfl, ?_⟩
          · exact @unfinished_setTask executor id ⟨false, false⟩ other (unfinished other live) fun _ => rfl
          · intro target runnable
            by_cases same : target = .task id
            · exact .inr (same ▸ rfl)
            · have queues := @queues_setTask executor id ⟨false, false⟩ target (runnable.idle rfl)
                fun here => absurd here same
              exact .inl (by cases target <;> exact queues)
          · intro target polled
            cases target with
            | main => exact polled
            | task other => exact List.mem_cons_of_mem _ polled
          · simp [LocalExecutor.scheduled, LocalExecutor.record, LocalExecutor.setTask, Position.spawning,
              Position.rank]
      | storeDone =>
          obtain ⟨gone, task, found⟩ := here
          have ran : executor.run = some { executor.setTask id { task with done := true } with
              frames := (Position.task id .dropEntry).frames } := by
            simp only [LocalExecutor.run, frames, Position.frames, LocalExecutor.runPollTask, found,
              Option.bind_eq_bind, Option.bind_some]
          refine ⟨.task id .dropEntry, _, ran, ⟨runs ran, calls, mains, rfl, fun other live => ?_, entries,
            trivial⟩, ?_, fun target polled => by cases target <;> exact polled, rfl, ?_⟩
          · exact @unfinished_setTask executor id { task with done := true } other (unfinished other live)
              fun same => absurd (same ▸ live) gone
          · intro target runnable
            have queues := runnable.idle rfl
            have kept := @queues_setTask executor id { task with done := true } target queues fun same => by
              subst same
              obtain ⟨other, again, flag⟩ := queues
              cases found.symm.trans again
              exact flag
            exact .inl (by cases target <;> exact kept)
          · simp [LocalExecutor.scheduled, LocalExecutor.setTask, Position.spawning, Position.rank]
      | dropEntry =>
          have ran : executor.run = some { executor with frames := Position.drain.frames } := by
            simp only [LocalExecutor.run, frames, Position.frames, LocalExecutor.runPollTask]
          refine ⟨.drain, _, ran, ⟨runs ran, calls, mains, rfl, unfinished, entries, trivial⟩, ?_,
            fun target polled => by cases target <;> exact polled, rfl, ?_⟩
          · intro target runnable
            exact .inl (by cases target <;> exact runnable.idle rfl)
          · simp [LocalExecutor.scheduled, Position.spawning, Position.rank]
  | taskSpawns child id =>
      have ran : executor.run =
          some ({ executor with frames := (Position.task id .pollBody).frames }.pushBack child) := by
        simp only [LocalExecutor.run, frames, Position.frames]
      refine ⟨.task id .pollBody, _, ran, ⟨runs ran, calls, mains, rfl, unfinished, entries, here⟩, ?_,
        fun target polled => by cases target <;> exact polled, rfl, ?_⟩
      · intro target runnable
        exact runnable.imp (fun queues => by cases target <;> exact queues) fun same => same
      · simp [LocalExecutor.scheduled, LocalExecutor.pushBack, LocalExecutor.record, Position.spawning,
          Position.rank]
        omega

variable {target : Sleeper}

theorem Stands.polled (stands : Stands live target.position executor) : executor.Polled target := by
  cases target with
  | main => exact stands.mains
  | task id => exact stands.here.2.2

theorem Stands.alive (stands : Stands live target.position executor) : executor.Unfinished target := by
  cases target with
  | main => trivial
  | task id => exact stands.unfinished id stands.here.1

theorem Stands.congr {other : Nat → Prop} (stands : Stands live position executor)
    (same : ∀ id, live id ↔ other id) : Stands other position executor :=
  (funext fun id => propext (same id) : live = other) ▸ stands

/-- What is polled wakes a target. -/
theorem Stands.wake (stands : Stands live target.position executor) {other : Sleeper} {after : LocalExecutor}
    (woken : LocalExecutor.Woken other executor after) : Stands live target.position after := by
  obtain ⟨sound, calls, mains, frames, unfinished, entries, here⟩ := stands
  refine ⟨woken.sound, woken.calls, woken.nextMain ▸ mains, woken.frames.trans frames,
    fun id live => woken.unfinished _ (unfinished id live), woken.registry ▸ entries, ?_⟩
  cases target with
  | main => trivial
  | task id => exact ⟨here.1, woken.registry ▸ here.2.1, woken.wakers ▸ here.2.2⟩

theorem Stands.pend (stands : Stands live target.position executor) :
    ∃ after, executor.returns false = some after ∧ Stands live .drain after ∧
      (∀ other, executor.Queues other → after.Queues other) ∧
      (∀ other, executor.Polled other → after.Polled other) ∧ after.nextId = executor.nextId ∧
      after.scheduled = executor.scheduled := by
  obtain ⟨sound, calls, mains, frames, unfinished, entries, here⟩ := stands
  cases target with
  | main =>
      have pends : executor.returns false = some { executor with frames := Position.drain.frames } := by
        simp only [LocalExecutor.returns, frames, Sleeper.position, Position.frames, Bool.false_eq_true, if_false]
      exact ⟨_, pends, ⟨@LocalExecutor.stepUnnested_sound _ _ (.returns false) sound pends, calls, mains, rfl,
        unfinished, entries, trivial⟩, fun other queues => by cases other <;> exact queues,
        fun other polled => by cases other <;> exact polled, rfl, rfl⟩
  | task id =>
      have pends : executor.returns false = some { executor with
          registry := insert id executor.registry, frames := Position.drain.frames } := by
        simp only [LocalExecutor.returns, frames, Sleeper.position, Position.frames, Bool.false_eq_true, if_false]
      refine ⟨_, pends, ⟨@LocalExecutor.stepUnnested_sound _ _ (.returns false) sound pends, calls, mains, rfl,
        unfinished, fun other member => ?_, trivial⟩, fun other queues => by cases other <;> exact queues,
        fun other polled => by cases other <;> exact polled, rfl, rfl⟩
      rcases Finset.mem_insert.mp member with rfl | before
      · exact here.1
      · exact entries other before

theorem Stands.spawn (stands : Stands live target.position executor) :
    ∃ after, executor.step .spawn = some after ∧
      Stands (fun id => live id ∨ id = executor.nextId) (target.spawns executor.nextId) after ∧
      (∀ other, executor.Queues other → after.Queues other) ∧ after.Queues (.task executor.nextId) ∧
      (∀ other, executor.Polled other → after.Polled other) ∧ after.nextId = executor.nextId + 1 ∧
      after.scheduled = executor.scheduled := by
  obtain ⟨sound, calls, mains, frames, unfinished, entries, here⟩ := stands
  have user : LocalExecutor.userCode executor.frames = true := by rw [frames]; cases target <;> rfl
  have spawns : executor.step .spawn = some executor.spawn := by rw [LocalExecutor.step, if_pos user]
  refine ⟨_, spawns, ⟨@LocalExecutor.stepUnnested_sound _ _ .spawn sound spawns, calls, mains, ?_,
    fun id lives => ?_, fun id member => ?_, ?_⟩, fun other queues => ?_, ?_,
    fun other polled => by cases other <;> exact polled, rfl, rfl⟩
  · cases target <;> simp only [LocalExecutor.spawn, frames] <;> rfl
  · by_cases fresh : id = executor.nextId
    · exact ⟨true, by simp [LocalExecutor.spawn, LocalExecutor.setTask, fresh]⟩
    · exact @unfinished_setTask executor _ ⟨false, true⟩ id (unfinished id (lives.resolve_right fresh))
        fun _ => rfl
  · rcases Finset.mem_insert.mp member with fresh | before
    · exact .inr fresh
    · exact .inl (entries id before)
  · cases target with
    | main => trivial
    | task id =>
        obtain ⟨lives, absent, polled⟩ := here
        refine ⟨.inl lives, ?_, polled⟩
        rw [LocalExecutor.spawn, Finset.mem_insert, not_or]
        refine ⟨?_, absent⟩
        rintro rfl
        obtain ⟨_, found⟩ := unfinished _ lives
        cases (sound.board.fresh _ le_rfl).symm.trans found
  · have kept := @queues_setTask executor executor.nextId ⟨false, true⟩ other queues fun _ => rfl
    cases other <;> exact kept
  · exact ⟨⟨false, true⟩, by simp [LocalExecutor.spawn, LocalExecutor.setTask], rfl⟩

theorem Stands.wakeAll (stands : Stands live target.position executor) (waker : Option Sleeper)
    (polled : ∀ other ∈ waker, executor.Polled other)
    (unfinished : ∀ other ∈ waker, executor.Unfinished other) :
    ∃ after, waker.toList.foldlM LocalExecutor.wakeNow executor = some after ∧
      Stands live target.position after ∧ (∀ other, executor.Queues other → after.Queues other) ∧
      (∀ other ∈ waker, after.Queues other) ∧ (∀ other, executor.Polled other → after.Polled other) ∧
      after.nextId = executor.nextId ∧ after.scheduled ≤ executor.scheduled + 1 := by
  cases waker with
  | none => exact ⟨executor, rfl, stands, fun _ => id, nofun, fun _ => id, rfl, Nat.le_succ _⟩
  | some other =>
      obtain ⟨after, wakes, woken⟩ :=
        LocalExecutor.wakeNow_runs stands.sound stands.calls (polled other rfl) (unfinished other rfl)
      refine ⟨after, ?_, stands.wake woken, woken.others, ?_, woken.polled, woken.nextId, woken.scheduled⟩
      · simp only [Option.toList_some, List.foldlM_cons, List.foldlM_nil, wakes]
        rfl
      · rintro _ ⟨⟩
        exact woken.queues

/-- A task whose body has come to its end. -/
theorem Stands.finish {id : Nat} (stands : Stands live (.task id .pollBody) executor) :
    ∃ after, executor.returns true = some after ∧
      Stands (fun other => live other ∧ other ≠ id) (.task id .storeDone) after ∧
      (∀ other, executor.Queues other → after.Queues other) ∧
      (∀ other, executor.Polled other → after.Polled other) ∧ after.nextId = executor.nextId ∧
      after.scheduled = executor.scheduled := by
  obtain ⟨sound, calls, mains, frames, unfinished, entries, here⟩ := stands
  have ends : executor.returns true = some { executor with frames := (Position.task id .storeDone).frames } := by
    simp only [LocalExecutor.returns, frames, Position.frames, if_true]
  obtain ⟨lives, absent, _⟩ := here
  obtain ⟨_, found⟩ := unfinished id lives
  refine ⟨_, ends, ⟨@LocalExecutor.stepUnnested_sound _ _ (.returns true) sound ends, calls, mains, rfl,
    fun other live => unfinished other live.1, fun other member => ⟨entries other member, ?_⟩,
    fun live => live.2 rfl, _, found⟩, fun other queues => by cases other <;> exact queues,
    fun other polled => by cases other <;> exact polled, rfl, rfl⟩
  rintro rfl
  exact absent member

end Run

end TptAsync.Executor
