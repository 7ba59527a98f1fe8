import TptAsync.Executor.Board

set_option autoImplicit false

/-!
# Scheduling

An executor that nothing drives from within is refined step by step by the board of its run
queue, and what holds of the boards holds in every state it reaches.
-/

namespace TptAsync.Executor

open Lib

def Frame.task : Frame → Option (Nat × PollTaskStep)
  | .pollTask id step => some (id, step)
  | .blockOn _ _ | .pollScheduledTasks | .enqueue _ => none

def Frame.rank : Frame → Nat
  | .blockOn _ _ => 0
  | .pollScheduledTasks => 1
  | .pollTask _ _ => 2
  | .enqueue _ => 3

/-- The task whose `enqueue` is at the top. -/
def enqueuing : List Frame → Option Nat
  | .enqueue id :: _ => some id
  | _ => none

/-- The innermost call of `poll_task`. -/
def pollingTask (frames : List Frame) : Option (Nat × PollTaskStep) := frames.findSome? Frame.task

/-- Every call is one that the call below it makes when nothing is nested. -/
def Flat (frames : List Frame) : Prop := frames.Pairwise fun above below => below.rank < above.rank

theorem Flat.enqueue {frames : List Frame} (flat : Flat frames) (user : LocalExecutor.userCode frames = true) (id : Nat) :
    Flat (.enqueue id :: frames) := by
  refine List.pairwise_cons.mpr ⟨fun below member => ?_, flat⟩
  cases frames with
  | nil => cases member
  | cons top rest =>
      have low : top.rank < 3 := by
        cases top with
        | enqueue => cases user
        | blockOn | pollScheduledTasks | pollTask => simp [Frame.rank]
      rcases List.mem_cons.mp member with rfl | deeper
      · exact low
      · exact Nat.lt_trans ((List.pairwise_cons.mp flat).1 below deeper) low

theorem enqueuing_userCode {frames : List Frame} (user : LocalExecutor.userCode frames = true) :
    enqueuing frames = none := by
  cases frames with
  | nil => rfl
  | cons top below =>
      cases top with
      | enqueue id => cases user
      | blockOn | pollScheduledTasks | pollTask => rfl

/-- No task is being polled below a frame of `poll_scheduled_tasks` or `block_on`. -/
theorem Flat.unpolled {top : Frame} {below : List Frame} (flat : Flat (top :: below)) (low : top.rank ≤ 2) :
    pollingTask below = none := by
  rw [pollingTask, List.findSome?_eq_none_iff]
  intro frame member
  have lower := (List.pairwise_cons.mp flat).1 frame member
  cases frame with
  | pollTask id step => exact absurd (Nat.lt_of_lt_of_le lower low) (Nat.lt_irrefl 2)
  | blockOn | pollScheduledTasks | enqueue => rfl

theorem Flat.idle {top : Frame} {below : List Frame} (flat : Flat (top :: below)) : enqueuing below = none := by
  cases below with
  | nil => rfl
  | cons frame rest =>
      have lower := (List.pairwise_cons.mp flat).1 frame List.mem_cons_self
      cases frame with
      | enqueue id => cases top <;> simp [Frame.rank] at lower
      | blockOn | pollScheduledTasks | pollTask => rfl

theorem Flat.replace {top : Frame} {below : List Frame} (flat : Flat (top :: below)) (other : Frame)
    (same : other.rank = top.rank) : Flat (other :: below) := by
  rw [Flat, List.pairwise_cons] at flat ⊢
  exact same ▸ flat

theorem Flat.call {top callee : Frame} {below : List Frame} (flat : Flat (top :: below))
    (higher : top.rank < callee.rank) : Flat (callee :: top :: below) := by
  refine List.pairwise_cons.mpr ⟨fun frame member => ?_, flat⟩
  rcases List.mem_cons.mp member with rfl | deeper
  · exact higher
  · exact Nat.lt_trans ((List.pairwise_cons.mp flat).1 frame deeper) higher

namespace LocalExecutor

def spawning (executor : LocalExecutor) : Option Nat := enqueuing executor.frames

def polling (executor : LocalExecutor) : Option (Nat × PollTaskStep) := pollingTask executor.frames

def board (executor : LocalExecutor) : Board where
  tasks := executor.tasks
  nextId := executor.nextId
  registry := executor.registry
  queue := executor.queue
  pushBacks id := executor.calls.count (.pushBack id)
  spawning := executor.spawning
  polling := executor.polling
  trace := executor.trace

theorem begin_board (executor : LocalExecutor) {call : WakeCall} (other : ∀ id, call ≠ .pushBack id) :
    (executor.begin call).board = executor.board := by
  have same : ∀ id, (call :: executor.calls).count (.pushBack id) = executor.calls.count (.pushBack id) :=
    fun id => List.count_cons_of_ne (other id)
  simp only [board, begin, same]
  rfl

theorem erase_board (executor : LocalExecutor) (call : WakeCall) (other : ∀ id, call ≠ .pushBack id) :
    { executor with calls := executor.calls.erase call }.board = executor.board := by
  have same : ∀ id, (executor.calls.erase call).count (.pushBack id) = executor.calls.count (.pushBack id) :=
    fun id => List.count_erase_of_ne (Ne.symm (other id))
  simp only [board, same]
  rfl

theorem begin_pushBacks (executor : LocalExecutor) (id : Nat) :
    (executor.begin (.pushBack id)).board =
      { executor.board with
        pushBacks := Function.update executor.board.pushBacks id (executor.board.pushBacks id + 1) } := by
  have counts : (fun other => (WakeCall.pushBack id :: executor.calls).count (.pushBack other)) =
      Function.update executor.board.pushBacks id (executor.board.pushBacks id + 1) := by
    funext other
    by_cases same : other = id
    · subst same
      simp [board]
    · simp [board, Function.update_of_ne same, Ne.symm same]
  rw [← counts]
  rfl

theorem wakeTarget_board {executor next : LocalExecutor} {call : WakeCall} (member : call ∈ executor.calls)
    (steps : { executor with calls := executor.calls.erase call }.wakeTarget call = some next) :
    next.frames = executor.frames ∧
      (next.board = executor.board ∨ Board.Step executor.board next.board) := by
  cases call with
  | loadDone id =>
      obtain ⟨task, found, steps⟩ := Option.bind_eq_some_iff.mp steps
      cases steps
      split
      · exact ⟨rfl, .inl (executor.erase_board (.loadDone id) (by simp))⟩
      · exact ⟨rfl, .inl ((begin_board _ (by simp)).trans (executor.erase_board (.loadDone id) (by simp)))⟩
  | swapQueued id =>
      obtain ⟨task, found, steps⟩ := Option.bind_eq_some_iff.mp steps
      have erased := executor.erase_board (.swapQueued id) (by simp)
      have swapped : (({ executor with calls := executor.calls.erase (.swapQueued id) }.setTask id
          { task with queued := true }).record (.woken id)).board =
            { executor.board.setTask id { task with queued := true } with
              trace := executor.board.trace ++ [.woken id] } := by
        rw [← erased]
        rfl
      cases steps
      cases queued : task.queued with
      | true =>
          refine ⟨rfl, .inr ?_⟩
          have still : executor.board.setTask id { task with queued := true } = executor.board := by
            rw [Board.setTask, ← queued, Function.update_eq_self_iff.mpr found.symm]
          rw [if_pos rfl, swapped, still]
          exact .coalesce found queued
      | false =>
          refine ⟨rfl, .inr ?_⟩
          rw [if_neg Bool.false_ne_true, begin_pushBacks, swapped]
          exact .swap found queued
  | pushBack id =>
      cases steps
      have counts : (fun other => (executor.calls.erase (.pushBack id)).count (.pushBack other)) =
          Function.update executor.board.pushBacks id (executor.board.pushBacks id - 1) := by
        funext other
        by_cases same : other = id
        · subst same
          simp [board]
        · simp [board, Function.update_of_ne same, List.count_erase, Ne.symm same]
      have some : executor.board.pushBacks id = executor.board.pushBacks id - 1 + 1 :=
        (Nat.sub_add_cancel (List.count_pos_iff.mpr member)).symm
      have step := Board.Step.pushBack some
      rw [← counts] at step
      exact ⟨rfl, .inr step⟩
  | storeNotified main =>
      cases steps
      exact ⟨rfl, .inl ((begin_board _ (by simp)).trans (executor.erase_board (.storeNotified main) (by simp)))⟩
  | notifyAll =>
      cases steps
      exact ⟨rfl, .inl (executor.erase_board (.notifyAll) (by simp))⟩

/-- A step that is not nested keeps the stack flat, and is a step of the board or none. -/
def Refines (executor next : LocalExecutor) : Prop :=
  Flat next.frames ∧ (next.board = executor.board ∨ Board.Step executor.board next.board)

theorem run_refines {executor next : LocalExecutor} (flat : Flat executor.frames)
    (steps : executor.run = some next) : Refines executor next := by
  obtain ⟨queue, waiting, nextId, tasks, registry, notified, nextMain, wakers, calls, frames, trace⟩ := executor
  cases frames with
  | nil => cases steps
  | cons top below =>
      have flat : Flat (top :: below) := flat
      have unnested : Flat below := (List.pairwise_cons.mp flat).2
      have idle := flat.idle
      cases top with
      | blockOn main step =>
          cases step with
          | swapNotified =>
              simp only [run, runBlockOn] at steps
              split at steps
              · cases steps
                exact ⟨flat.replace _ rfl, .inl rfl⟩
              · cases steps
                exact ⟨(flat.replace (.blockOn main .lockQueue) rfl).call Nat.one_pos, .inl rfl⟩
          | pollMain => cases steps
          | lockQueue =>
              simp only [run, runBlockOn] at steps
              split at steps <;> cases steps <;> exact ⟨flat.replace _ rfl, .inl rfl⟩
          | park =>
              cases steps
              exact ⟨flat.replace _ rfl, .inl rfl⟩
      | pollScheduledTasks =>
          have unpolled := flat.unpolled (by decide)
          cases steps
          cases queue with
          | nil =>
              refine ⟨unnested, .inl ?_⟩
              simp only [runPollScheduledTasks, board, spawning, idle]
              rfl
          | cons id queue =>
              exact ⟨flat.call (Nat.lt_succ_self 1), .inr (.pop unpolled rfl)⟩
      | pollTask id step =>
          cases step with
          | remove =>
              simp only [run, runPollTask] at steps
              by_cases member : id ∈ registry
              · rw [if_pos member] at steps
                cases steps
                exact ⟨flat.replace _ rfl, .inr (.remove rfl member)⟩
              · rw [if_neg member] at steps
                cases steps
                refine ⟨unnested, .inr ?_⟩
                simp only [record, board, spawning, polling, idle, flat.unpolled (Nat.le_refl 2)]
                exact .skip rfl member
          | clearQueued =>
              obtain ⟨task, found, steps⟩ := Option.bind_eq_some_iff.mp steps
              cases steps
              exact ⟨flat.replace _ rfl, .inr (.clear rfl found)⟩
          | pollBody => cases steps
          | storeDone =>
              obtain ⟨task, found, steps⟩ := Option.bind_eq_some_iff.mp steps
              cases steps
              exact ⟨flat.replace _ rfl, .inr (.storeDone rfl found)⟩
          | dropEntry =>
              cases steps
              refine ⟨unnested, .inr ?_⟩
              simp only [board, spawning, polling, idle, flat.unpolled (Nat.le_refl 2)]
              exact .drop rfl
      | enqueue id =>
          cases steps
          refine ⟨unnested, .inr ?_⟩
          simp only [pushBack, record, board, spawning, polling, idle]
          exact .enqueue rfl

theorem returns_refines {executor next : LocalExecutor} {ready : Bool} (flat : Flat executor.frames)
    (steps : executor.returns ready = some next) : Refines executor next := by
  obtain ⟨queue, waiting, nextId, tasks, registry, notified, nextMain, wakers, calls, frames, trace⟩ := executor
  cases frames with
  | nil => cases steps
  | cons top below =>
      have flat : Flat (top :: below) := flat
      have unnested : Flat below := (List.pairwise_cons.mp flat).2
      have idle := flat.idle
      cases top with
      | pollScheduledTasks => cases steps
      | enqueue id => cases steps
      | blockOn main step =>
          cases step with
          | swapNotified | lockQueue | park => cases steps
          | pollMain =>
              cases ready with
              | true =>
                  cases steps
                  refine ⟨unnested, .inl ?_⟩
                  simp only [board, spawning, idle]
                  rfl
              | false =>
                  cases steps
                  exact ⟨(flat.replace (.blockOn main .lockQueue) rfl).call Nat.one_pos, .inl rfl⟩
      | pollTask id step =>
          cases step with
          | remove | clearQueued | storeDone | dropEntry => cases steps
          | pollBody =>
              cases ready with
              | true =>
                  cases steps
                  exact ⟨flat.replace _ rfl, .inr (.ready rfl)⟩
              | false =>
                  cases steps
                  refine ⟨unnested, .inr ?_⟩
                  simp only [board, spawning, polling, idle, flat.unpolled (Nat.le_refl 2)]
                  exact .pending rfl

theorem stepUnnested_refines {executor next : LocalExecutor} {event : Event} (flat : Flat executor.frames)
    (steps : executor.stepUnnested event = some next) : Refines executor next := by
  cases event with
  | spawn =>
      simp only [stepUnnested, step, Option.ite_none_right_eq_some] at steps
      obtain ⟨user, steps⟩ := steps
      cases steps
      exact ⟨flat.enqueue user _, .inr (.spawn (enqueuing_userCode user))⟩
  | blockOn =>
      simp only [stepUnnested, step, Option.ite_none_right_eq_some] at steps
      obtain ⟨outside, _, steps⟩ := steps
      cases steps
      refine ⟨by simp [Flat, blockOn, outside], .inl ?_⟩
      simp only [blockOn, board, spawning, polling, outside]
      rfl
  | runUntilStalled =>
      simp only [stepUnnested, step, Option.ite_none_right_eq_some] at steps
      obtain ⟨outside, _, steps⟩ := steps
      cases steps
      refine ⟨by simp [Flat, runUntilStalled, outside], .inl ?_⟩
      simp only [runUntilStalled, board, spawning, polling, outside]
      rfl
  | run => exact run_refines flat steps
  | returns ready => exact returns_refines flat steps
  | wake id =>
      simp only [stepUnnested, step, Option.ite_none_right_eq_some] at steps
      obtain ⟨_, steps⟩ := steps
      cases steps
      exact ⟨flat, .inl (begin_board _ (by nofun))⟩
  | wakeMain main =>
      simp only [stepUnnested, step, Option.ite_none_right_eq_some] at steps
      obtain ⟨_, steps⟩ := steps
      cases steps
      exact ⟨flat, .inl (begin_board _ (by nofun))⟩
  | advance call =>
      simp only [stepUnnested, step, advance, Option.ite_none_right_eq_some] at steps
      obtain ⟨member, steps⟩ := steps
      obtain ⟨same, refines⟩ := wakeTarget_board member steps
      exact ⟨same ▸ flat, refines⟩

theorem new_sound : new.board.Sound where
  fresh _ _ := rfl
  bounded _ := Nat.le_refl 0
  exact _ _ := rfl
  registered _ := nofun

theorem new_recorded : new.board.Recorded where
  answered _ _ _ before after splits := by simp [new, board] at splits
  pushes _ _ := rfl
  alternates _ _ early within := by
    rw [List.prefix_nil.mp within]
    exact ⟨Nat.le_refl 0, Nat.zero_le 1⟩
  order := rfl
  skipped _ := nofun

structure Sound (executor : LocalExecutor) : Prop where
  flat : Flat executor.frames
  board : executor.board.Sound
  recorded : executor.board.Recorded

theorem stepUnnested_sound {executor next : LocalExecutor} {event : Event} (sound : executor.Sound)
    (steps : executor.stepUnnested event = some next) : next.Sound := by
  obtain ⟨flat, same | step⟩ := stepUnnested_refines sound.flat steps
  · exact ⟨flat, same ▸ sound.board, same ▸ sound.recorded⟩
  · exact ⟨flat, step.sound sound.board, step.recorded sound.board sound.recorded⟩

/-- How many calls, of wakers or of `enqueue`, are about to push an id. -/
def pushing (executor : LocalExecutor) (id : Nat) : Nat :=
  executor.calls.count (.pushBack id) + executor.spawning.toList.count id

def Popped (executor : LocalExecutor) (id : Nat) : Prop :=
  executor.polling = some (id, .remove) ∨ executor.polling = some (id, .clearQueued)

structure Scheduled (executor : LocalExecutor) : Prop where
  queuedOnce : ∀ id task, executor.tasks id = some task → task.done = false →
    executor.queue.count id ≤ 1
  queuedIff : ∀ id task, executor.tasks id = some task → task.done = false →
    (task.queued = true ↔ id ∈ executor.queue ∨ executor.pushing id = 1 ∨ executor.Popped id)
  /-- At most one of the three, and at most one call that pushes. -/
  alone : ∀ id task, executor.tasks id = some task → task.done = false →
    executor.pushing id ≤ 1 ∧ (id ∈ executor.queue → executor.pushing id = 0) ∧
      (executor.Popped id → id ∉ executor.queue ∧ executor.pushing id = 0)
  noLostWake : executor.queue = [] → (∀ id, executor.pushing id = 0) → (∀ id, ¬ executor.Popped id) →
    ∀ id task, executor.tasks id = some task → task.done = false → Board.Answered executor.trace id
  coalesces : ∀ id task, executor.tasks id = some task → task.done = false →
    Board.Alternates executor.trace id
  /-- What has been pushed has come out in that order, or is still on its way, and only ids of
  finished tasks come to nothing. -/
  inOrder : executor.trace.filterMap Board.pushedId =
    executor.trace.filterMap Board.servedId ++ executor.board.popped ++ executor.queue
  skipsFinished : ∀ id, .skipped id ∈ executor.trace →
    ∃ task, executor.tasks id = some task ∧ task.done = true

theorem popped_count (executor : LocalExecutor) (id : Nat) :
    executor.board.popped.count id ≤ 1 ∧ (executor.Popped id ↔ executor.board.popped.count id = 1) := by
  simp only [Popped, Board.popped, LocalExecutor.board]
  split
  · next other polls => by_cases same : other = id <;> simp [polls, same]
  · next other polls => by_cases same : other = id <;> simp [polls, same]
  · next removes clears =>
      exact ⟨Nat.zero_le 1, fun has => (has.elim (removes id) (clears id)).elim,
        fun counted => absurd counted (by simp)⟩

/-- Where the id of an unfinished task is. -/
theorem Sound.places {executor : LocalExecutor} (sound : executor.Sound) {id : Nat} {task : TaskState}
    (found : executor.tasks id = some task) (unfinished : task.done = false) :
    executor.queue.count id + executor.pushing id + executor.board.popped.count id = task.queued.toNat := by
  have still : executor.board.finished id ≠ some true := by
    simp [Board.finished, LocalExecutor.board, found, unfinished]
  have exact := sound.board.exact id still
  simp only [Board.held, Board.flagged, LocalExecutor.board, found] at exact
  simp only [pushing, LocalExecutor.board]
  omega

theorem Sound.scheduled {executor : LocalExecutor} (sound : executor.Sound) : executor.Scheduled := by
  have still : ∀ {id task}, executor.tasks id = some task → task.done = false →
      executor.board.finished id ≠ some true := by
    intro id task found unfinished
    simp [Board.finished, LocalExecutor.board, found, unfinished]
  refine ⟨fun id task found unfinished => ?_, fun id task found unfinished => ?_,
    fun id task found unfinished => ?_, fun empty unpushed unpopped id task found unfinished => ?_,
    fun id task found unfinished => sound.recorded.alternates id (still found unfinished),
    sound.recorded.order, fun id skipped => ?_⟩
  · have places := sound.places found unfinished
    have binary := Bool.toNat_le task.queued
    omega
  · have places := sound.places found unfinished
    have popped := executor.popped_count id
    rw [← List.count_pos_iff, popped.2]
    cases queued : task.queued with
    | true =>
        rw [queued, Bool.toNat_true] at places
        exact ⟨fun _ => by omega, fun _ => rfl⟩
    | false =>
        rw [queued, Bool.toNat_false] at places
        exact ⟨fun set => absurd set Bool.false_ne_true, fun somewhere => absurd somewhere (by omega)⟩
  · have places := sound.places found unfinished
    have binary := Bool.toNat_le task.queued
    have popped := executor.popped_count id
    rw [← List.count_pos_iff, popped.2]
    omega
  · have places := sound.places found unfinished
    have popped := executor.popped_count id
    have none : executor.board.popped.count id = 0 := by
      have other := unpopped id
      rw [popped.2] at other
      omega
    rw [empty, unpushed id, none] at places
    refine sound.recorded.answered id (still found unfinished) ?_
    simp only [Board.flagged, LocalExecutor.board, found]
    exact places.symm
  · have ended := sound.recorded.skipped id skipped
    simp only [Board.finished, LocalExecutor.board, Option.map_eq_some_iff] at ended
    exact ended

/-- Every state that an executor reaches without nested driving. -/
theorem reachable_scheduled {executor : LocalExecutor} (reached : Reachable stepUnnested new executor) :
    executor.Scheduled :=
  (reached.invariant stepUnnested_sound ⟨.nil, new_sound, new_recorded⟩).scheduled

def wokenWhilePolled : List Event :=
  [.spawn, .run, .blockOn, .run, .returns false, .run, .run, .run, .wake 1, .wake 1, .advance (.loadDone 1),
    .advance (.loadDone 1), .advance (.swapQueued 1), .advance (.swapQueued 1), .advance (.pushBack 1),
    .returns false, .run, .run, .run]

theorem scheduled_wokenWhilePolled :
    ∃ executor, Lib.run stepUnnested wokenWhilePolled new = some executor ∧
      executor.trace = [.pushed 1, .polled 1, .woken 1, .woken 1, .pushed 1, .polled 1] ∧ executor.Scheduled :=
  ⟨_, rfl, rfl, reachable_scheduled ⟨wokenWhilePolled, rfl⟩⟩

end LocalExecutor

end TptAsync.Executor
