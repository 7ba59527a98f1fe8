import TptAsync.Executor.SchedulerProperties

set_option autoImplicit false

/-!
# Nested driving

User code that the executor polls may drive the executor again, to any depth. A task then
loses its place when a nested drain takes its id out of the queue while its body is being
polled further down the stack, and that poll returns `Pending` afterwards.
-/

namespace TptAsync.Executor

open Lib

/-- The frame is about to push the id, or has taken it out of the queue and not yet cleared
its flag. -/
def Frame.moves (id : Nat) : Frame → Bool
  | .enqueue other | .pollTask other .remove | .pollTask other .clearQueued => other == id
  | .blockOn _ _ | .pollScheduledTasks | .pollTask _ _ => false

/-- The frame has the entry of the task, which is not marked as done. -/
def Frame.holds (id : Nat) : Frame → Bool
  | .pollTask other .clearQueued | .pollTask other .pollBody | .pollTask other .storeDone => other == id
  | .blockOn _ _ | .pollScheduledTasks | .enqueue _ | .pollTask _ _ => false

def Occurrence.strays (id : Nat) (strayed : Bool) : Occurrence → Bool
  | .polled other => if other = id then false else strayed
  | .skipped other => if other = id then true else strayed
  | .woken _ | .pushed _ => strayed

/-- Since the last poll of the task began, its id has come out of the queue to nothing. -/
def strayed (trace : List Occurrence) (id : Nat) : Bool := trace.foldl (Occurrence.strays id) false

@[simp] theorem strayed_append (trace : List Occurrence) (occurrence : Occurrence) (id : Nat) :
    strayed (trace ++ [occurrence]) id = occurrence.strays id (strayed trace id) := by
  simp [strayed]

/-- How one task stands: where its id and its entry are. -/
@[ext] structure Standing where
  spawned : Bool
  task : Option TaskState
  /-- How often its id is on its way to the next poll. -/
  ids : Nat
  registered : Bool
  /-- How many calls of `poll_task` have its entry. -/
  entries : Nat
  strayed : Bool

namespace Standing

/-- `pends` says that a poll of the task returns `Pending`. -/
inductive Step (pends : Prop) (before : Standing) : Standing → Prop
  | spawn (fresh : before.spawned = false) :
      Step pends before { before with
        spawned := true, task := some ⟨false, true⟩, ids := before.ids + 1, registered := true }
  | swap {task : TaskState} (found : before.task = some task) (free : task.queued = false) :
      Step pends before { before with task := some { task with queued := true }, ids := before.ids + 1 }
  | remove (moves : 0 < before.ids) (member : before.registered = true) :
      Step pends before { before with registered := false, entries := before.entries + 1 }
  | skip {ids : Nat} (moves : before.ids = ids + 1) (absent : before.registered = false) :
      Step pends before { before with ids, strayed := true }
  | clear {task : TaskState} {ids : Nat} (found : before.task = some task) (moves : before.ids = ids + 1) :
      Step pends before { before with task := some { task with queued := false }, ids, strayed := false }
  | pending {entries : Nat} (returned : pends) (holds : before.entries = entries + 1) :
      Step pends before { before with registered := true, entries }
  | storeDone {task : TaskState} {entries : Nat} (found : before.task = some task)
      (holds : before.entries = entries + 1) :
      Step pends before { before with task := some { task with done := true }, entries }

def unfinished (standing : Standing) : Bool := standing.task.any fun task => !task.done

def queued (standing : Standing) : Bool := standing.task.any TaskState.queued

structure Sound (standing : Standing) : Prop where
  fresh : standing.spawned = false → standing.task = none
  /-- A flag that is set stands for one id on its way, or for one that has strayed. -/
  places : standing.task = none ∨ standing.unfinished = true →
    standing.ids + standing.strayed.toNat = standing.queued.toNat
  /-- The entry of an unfinished task is in one place. -/
  entry : standing.registered.toNat + standing.entries = standing.unfinished.toNat

/-- Unfinished and at rest, with the flag set and the id nowhere. -/
structure Lost (standing : Standing) : Prop where
  unfinished : standing.unfinished = true
  registered : standing.registered = true
  strayed : standing.strayed = true

variable {before after : Standing} {pends : Prop}

theorem Step.to {last : Standing} (step : Step pends before after) (same : last = after) :
    Step pends before last :=
  same ▸ step

theorem Step.sound (step : Step pends before after) (sound : before.Sound) : after.Sound := by
  obtain ⟨fresh, places, entry⟩ := sound
  have known : ∀ {task}, before.task = some task → before.spawned = false → False := by
    intro task found new
    rw [fresh new] at found
    cases found
  have flag := Bool.toNat_le before.queued
  have open_ := Bool.toNat_le before.unfinished
  cases step with
  | spawn new =>
      have placed := places (.inl (fresh new))
      simp only [unfinished, queued, fresh new, Option.any_none, Bool.toNat_false] at placed entry
      refine ⟨fun same => (Bool.noConfusion same), fun _ => ?_, ?_⟩
      · simp only [queued, Option.any_some, Bool.toNat_true]
        omega
      · simp only [unfinished, Option.any_some, Bool.not_false, Bool.toNat_true]
        omega
  | @swap task found free =>
      refine ⟨fun new => (known found new).elim, fun still => ?_, ?_⟩
      · have placed := places (.inr (by simpa [unfinished, found] using still))
        simp only [queued, found, Option.any_some, free, Bool.toNat_false] at placed
        simp only [queued, Option.any_some, Bool.toNat_true]
        omega
      · simpa [unfinished, found] using entry
  | remove moves member =>
      refine ⟨fresh, places, ?_⟩
      rw [member, Bool.toNat_true] at entry
      simp only [unfinished, Bool.toNat_false] at entry ⊢
      omega
  | skip moves absent =>
      refine ⟨fresh, fun still => ?_, entry⟩
      have placed := places still
      simp only [queued, Bool.toNat_true] at placed flag ⊢
      omega
  | @clear task ids found moves =>
      refine ⟨fun new => (known found new).elim, fun still => ?_, ?_⟩
      · have placed := places (.inr (by simpa [unfinished, found] using still))
        simp only [queued, Option.any_some, Bool.toNat_false]
        omega
      · simpa [unfinished, found] using entry
  | pending returned holds =>
      refine ⟨fresh, places, ?_⟩
      simp only [unfinished, Bool.toNat_true] at entry open_ ⊢
      omega
  | @storeDone task entries found holds =>
      refine ⟨fun new => (known found new).elim, fun still => ?_, ?_⟩
      · simp [unfinished] at still
      · simp only [unfinished, Option.any_some, Bool.not_true, Bool.toNat_false]
        omega

theorem Sound.holder (sound : before.Sound) (holds : 0 < before.entries) : before.unfinished = true := by
  have entry := sound.entry
  cases still : before.unfinished with
  | true => rfl
  | false =>
      rw [still, Bool.toNat_false] at entry
      omega

/-- What has lost its place never finds it again. -/
theorem Step.lost (step : Step pends before after) (sound : before.Sound) (lost : before.Lost) : after.Lost := by
  obtain ⟨still, registered, strays⟩ := lost
  have placed := sound.places (.inr still)
  have entry := sound.entry
  have flag := Bool.toNat_le before.queued
  rw [strays, Bool.toNat_true] at placed
  rw [still, registered, Bool.toNat_true] at entry
  cases step with
  | spawn fresh =>
      rw [unfinished, sound.fresh fresh] at still
      cases still
  | swap found free => exact ⟨by simpa [unfinished, found] using still, registered, strays⟩
  | remove moves member => omega
  | skip moves absent => omega
  | clear found moves => omega
  | pending returned holds => omega
  | storeDone found holds => omega

/-- The entry of a task whose id has strayed is still taken out. -/
def Kept (standing : Standing) : Prop :=
  standing.strayed = true → standing.unfinished = true → standing.registered = false

theorem Step.kept (step : Step pends before after) (sound : before.Sound) (kept : before.Kept)
    (settles : pends → before.strayed = false) : after.Kept := by
  intro strays still
  cases step with
  | spawn fresh =>
      have placed := sound.places (.inl (sound.fresh fresh))
      rw [queued, sound.fresh fresh, strays] at placed
      simp at placed
  | swap found free => exact kept strays (by simpa [unfinished, found] using still)
  | remove moves member => rfl
  | skip moves absent => exact absent
  | clear found moves => cases strays
  | pending returned holds => exact absurd strays (by simp [settles returned])
  | storeDone found holds => simp [unfinished] at still

end Standing

namespace LocalExecutor

def standing (executor : LocalExecutor) (id : Nat) : Standing where
  spawned := decide (id < executor.nextId)
  task := executor.tasks id
  ids := executor.queue.count id + executor.calls.count (.pushBack id) + executor.frames.countP (Frame.moves id)
  registered := decide (id ∈ executor.registry)
  entries := executor.frames.countP (Frame.holds id)
  strayed := strayed executor.trace id

/-- The task whose poll returns `Pending` by the event. -/
def pendingTask (executor : LocalExecutor) : Event → Option Nat
  | .returns false =>
      match executor.frames with
      | .pollTask id .pollBody :: _ => some id
      | _ => none
  | _ => none

/-- A poll that returns `Pending` is not one during which the id of its task has come out of the
queue to nothing. -/
def Settles (executor : LocalExecutor) (event : Event) : Prop :=
  ∀ id, executor.pendingTask event = some id → strayed executor.trace id = false

/-- What an access does to one task. -/
def Changes (pends : Prop) (id : Nat) (executor next : LocalExecutor) : Prop :=
  next.standing id = executor.standing id ∨ (executor.standing id).Step pends (next.standing id)

theorem standing_calls (executor : LocalExecutor) {id : Nat} {calls : List WakeCall}
    (same : calls.count (.pushBack id) = executor.calls.count (.pushBack id)) :
    { executor with calls }.standing id = executor.standing id := by
  simp only [standing, same]

theorem wakeTarget_changes {pends : Prop} {executor next : LocalExecutor} {call : WakeCall}
    (member : call ∈ executor.calls)
    (steps : { executor with calls := executor.calls.erase call }.wakeTarget call = some next) (id : Nat) :
    Changes pends id executor next := by
  have erased : ∀ other : WakeCall, other ≠ .pushBack id →
      (executor.calls.erase other).count (.pushBack id) = executor.calls.count (.pushBack id) :=
    fun other different => List.count_erase_of_ne (Ne.symm different)
  cases call with
  | loadDone other =>
      obtain ⟨task, found, steps⟩ := Option.bind_eq_some_iff.mp steps
      have kept := erased (.loadDone other) (by simp)
      cases steps
      split
      · exact .inl (executor.standing_calls kept)
      · exact .inl (executor.standing_calls ((List.count_cons_of_ne (by simp)).trans kept))
  | swapQueued other =>
      obtain ⟨task, found, steps⟩ := Option.bind_eq_some_iff.mp steps
      have kept := erased (.swapQueued other) (by simp)
      have woken : Occurrence.strays id (strayed executor.trace id) (.woken other) = strayed executor.trace id := rfl
      cases steps
      cases queued : task.queued with
      | true =>
          have still : Function.update executor.tasks other (some { task with queued := true }) = executor.tasks := by
            rw [← queued]
            exact Function.update_eq_self_iff.mpr found.symm
          exact .inl (Standing.ext rfl (congrFun still id) (by simp [standing, setTask, record, kept]) rfl rfl
            (strayed_append _ _ _))
      | false =>
          by_cases same : id = other
          · subst same
            have swapped : ((({ executor with calls := executor.calls.erase (.swapQueued id) }.setTask id
                { task with queued := true }).record (.woken id)).begin (.pushBack id)).standing id =
                  { executor.standing id with
                    task := some { task with queued := true }
                    ids := (executor.standing id).ids + 1 } :=
              Standing.ext rfl (Function.update_self ..)
                (by simp only [standing, setTask, record, begin, List.count_cons_self, kept]; omega) rfl rfl
                (strayed_append _ _ _)
            exact .inr (swapped ▸ .swap found queued)
          · exact .inl (Standing.ext rfl (Function.update_of_ne same _ _)
              (by simp [standing, setTask, record, begin, kept, Ne.symm same]) rfl rfl (strayed_append _ _ _))
  | pushBack other =>
      cases steps
      refine .inl (Standing.ext rfl rfl ?_ rfl rfl (strayed_append _ _ _))
      by_cases same : id = other
      · subst same
        have counted := List.count_pos_iff.mpr member
        simp only [standing, pushBack, record, List.count_append, List.count_singleton_self, List.count_erase_self]
        omega
      · simp [standing, pushBack, record, List.count_append, Ne.symm same,
          erased (.pushBack other) (by simp [Ne.symm same])]
  | storeNotified main =>
      cases steps
      exact .inl (Standing.ext rfl rfl
        (by simp [standing, begin, erased (.storeNotified main) (by simp)]) rfl rfl rfl)
  | notifyAll =>
      cases steps
      exact .inl (executor.standing_calls (erased .notifyAll (by simp)))

theorem poll_changes {pends : Prop} {executor next : LocalExecutor} {other : Nat} {below : List Frame}
    {step : PollTaskStep} (top : executor.frames = .pollTask other step :: below)
    (steps : executor.runPollTask other below step = some next) (id : Nat) : Changes pends id executor next := by
  obtain ⟨queue, waiting, nextId, tasks, registry, notified, nextMain, wakers, calls, frames, trace⟩ := executor
  cases top
  cases step with
  | remove =>
      simp only [runPollTask] at steps
      by_cases member : other ∈ registry
      · rw [if_pos member] at steps
        cases steps
        by_cases same : id = other
        · subst same
          refine .inr (Standing.Step.to (.remove ?_ ?_) (Standing.ext rfl rfl rfl ?_ ?_ rfl))
          · simp only [standing, Frame.moves, List.countP_cons, beq_self_eq_true]
            exact Nat.lt_add_left _ (Nat.succ_pos _)
          · simpa [standing] using member
          · simp [standing]
          · simp [standing, Frame.holds]
        · refine .inl (Standing.ext rfl rfl rfl ?_ ?_ rfl)
          · simp [standing, same]
          · simp [standing, Frame.holds, Ne.symm same]
      · rw [if_neg member] at steps
        cases steps
        by_cases same : id = other
        · subst same
          refine .inr (Standing.Step.to (.skip ?_ ?_) (Standing.ext rfl rfl rfl rfl rfl ?_))
          · simp [standing, record, Frame.moves, Nat.add_assoc]
          · simpa [standing] using member
          · exact (strayed_append _ _ _).trans (if_pos rfl)
        · refine .inl (Standing.ext rfl rfl ?_ rfl rfl ?_)
          · simp [standing, record, Frame.moves, Ne.symm same]
          · exact (strayed_append _ _ _).trans (if_neg (Ne.symm same))
  | clearQueued =>
      obtain ⟨task, found, steps⟩ := Option.bind_eq_some_iff.mp steps
      cases steps
      by_cases same : id = other
      · subst same
        refine .inr (Standing.Step.to (.clear found ?_)
          (Standing.ext rfl (Function.update_self ..) rfl rfl rfl ?_))
        · simp [standing, record, setTask, Frame.moves, Nat.add_assoc]
        · exact (strayed_append _ _ _).trans (if_pos rfl)
      · refine .inl (Standing.ext rfl (Function.update_of_ne same _ _) ?_ rfl rfl ?_)
        · simp [standing, record, setTask, Frame.moves, Ne.symm same]
        · exact (strayed_append _ _ _).trans (if_neg (Ne.symm same))
  | pollBody => cases steps
  | storeDone =>
      obtain ⟨task, found, steps⟩ := Option.bind_eq_some_iff.mp steps
      cases steps
      by_cases same : id = other
      · subst same
        refine .inr (Standing.Step.to (.storeDone found ?_)
          (Standing.ext rfl (Function.update_self ..) rfl rfl rfl rfl))
        simp [standing, setTask, Frame.holds]
      · refine .inl (Standing.ext rfl (Function.update_of_ne same _ _) rfl rfl ?_ rfl)
        simp [standing, setTask, Frame.holds, Ne.symm same]
  | dropEntry =>
      cases steps
      exact .inl rfl

theorem run_changes {pends : Prop} {executor next : LocalExecutor} (steps : executor.run = some next) (id : Nat) :
    Changes pends id executor next := by
  obtain ⟨queue, waiting, nextId, tasks, registry, notified, nextMain, wakers, calls, frames, trace⟩ := executor
  cases frames with
  | nil => cases steps
  | cons top below =>
      cases top with
      | blockOn main step =>
          cases step with
          | swapNotified | lockQueue =>
              simp only [run, runBlockOn] at steps
              split at steps <;> cases steps <;> exact .inl rfl
          | pollMain => cases steps
          | park =>
              cases steps
              exact .inl rfl
      | pollScheduledTasks =>
          cases steps
          cases queue with
          | nil => exact .inl rfl
          | cons other queue =>
              refine .inl (Standing.ext rfl rfl ?_ rfl rfl rfl)
              simp only [standing, runPollScheduledTasks, List.countP_cons, List.count_cons, Frame.moves, beq_iff_eq,
                Bool.false_eq_true, if_false]
              omega
      | pollTask other step => exact poll_changes rfl steps id
      | enqueue other =>
          cases steps
          refine .inl (Standing.ext rfl rfl ?_ rfl rfl (strayed_append _ _ _))
          simp only [standing, pushBack, record, List.countP_cons, List.count_append, List.count_singleton, Frame.moves,
            beq_iff_eq]
          omega

theorem returns_changes {executor next : LocalExecutor} {ready : Bool}
    (steps : executor.returns ready = some next) (id : Nat) :
    Changes (executor.pendingTask (.returns ready) = some id) id executor next := by
  obtain ⟨queue, waiting, nextId, tasks, registry, notified, nextMain, wakers, calls, frames, trace⟩ := executor
  cases frames with
  | nil => cases steps
  | cons top below =>
      cases top with
      | pollScheduledTasks | enqueue => cases steps
      | blockOn main step =>
          cases step with
          | swapNotified | lockQueue | park => cases steps
          | pollMain => cases ready <;> cases steps <;> exact .inl rfl
      | pollTask other step =>
          cases step with
          | remove | clearQueued | storeDone | dropEntry => cases steps
          | pollBody =>
              cases ready with
              | true =>
                  cases steps
                  exact .inl rfl
              | false =>
                  cases steps
                  by_cases same : id = other
                  · subst same
                    refine .inr (Standing.Step.to (.pending rfl ?_) (Standing.ext rfl rfl rfl ?_ rfl rfl))
                    · simp [standing, Frame.holds]
                    · simp [standing]
                  · refine .inl (Standing.ext rfl rfl rfl ?_ ?_ rfl)
                    · simp [standing, same]
                    · simp [standing, Frame.holds, Ne.symm same]

theorem step_changes {executor next : LocalExecutor} {event : Event}
    (steps : executor.step event = some next) (id : Nat) :
    Changes (executor.pendingTask event = some id) id executor next := by
  cases event with
  | spawn =>
      obtain ⟨user, steps⟩ := Option.ite_none_right_eq_some.mp steps
      cases steps
      by_cases same : id = executor.nextId
      · subst same
        refine .inr (Standing.Step.to (.spawn ?_) (Standing.ext ?_ (Function.update_self ..) ?_ ?_ rfl rfl))
        · simp [standing]
        · simp [standing, spawn]
        · simp [standing, spawn, setTask, Frame.moves, Nat.add_assoc]
        · simp [standing, spawn]
      · refine .inl (Standing.ext ?_ (Function.update_of_ne same _ _) ?_ ?_ rfl rfl)
        · exact decide_eq_decide.mpr ⟨fun below => Nat.lt_of_le_of_ne (Nat.le_of_lt_succ below) same, Nat.lt_succ_of_lt⟩
        · simp [standing, spawn, setTask, Frame.moves, Ne.symm same]
        · simp [standing, spawn, setTask, same]
  | blockOn =>
      obtain ⟨user, steps⟩ := Option.ite_none_right_eq_some.mp steps
      cases steps
      exact .inl rfl
  | runUntilStalled =>
      obtain ⟨user, steps⟩ := Option.ite_none_right_eq_some.mp steps
      cases steps
      exact .inl rfl
  | run => exact run_changes steps id
  | returns ready => exact returns_changes steps id
  | wake other =>
      obtain ⟨made, steps⟩ := Option.ite_none_right_eq_some.mp steps
      cases steps
      exact .inl (executor.standing_calls (List.count_cons_of_ne (by simp)))
  | wakeMain main =>
      obtain ⟨made, steps⟩ := Option.ite_none_right_eq_some.mp steps
      cases steps
      exact .inl (executor.standing_calls (List.count_cons_of_ne (by simp)))
  | advance call =>
      obtain ⟨member, steps⟩ := Option.ite_none_right_eq_some.mp steps
      exact wakeTarget_changes member steps id

theorem new_standing (id : Nat) : (new.standing id).Sound where
  fresh _ := rfl
  places _ := rfl
  entry := rfl

theorem step_sound {executor next : LocalExecutor} {event : Event} (steps : executor.step event = some next)
    {id : Nat} (sound : (executor.standing id).Sound) : (next.standing id).Sound := by
  rcases step_changes steps id with same | step
  · exact same ▸ sound
  · exact step.sound sound

theorem step_lost {executor next : LocalExecutor} {event : Event} (steps : executor.step event = some next)
    {id : Nat} (sound : (executor.standing id).Sound) (lost : (executor.standing id).Lost) :
    (next.standing id).Lost := by
  rcases step_changes steps id with same | step
  · exact same ▸ lost
  · exact step.lost sound lost

theorem step_kept {executor next : LocalExecutor} {event : Event} (steps : executor.step event = some next)
    {id : Nat} (sound : (executor.standing id).Sound) (kept : (executor.standing id).Kept)
    (settles : executor.Settles event) : (next.standing id).Kept := by
  rcases step_changes steps id with same | step
  · exact same ▸ kept
  · exact step.kept sound kept (settles id)

theorem pendingTask_top {executor : LocalExecutor} {event : Event} {id : Nat}
    (pends : executor.pendingTask event = some id) :
    event = .returns false ∧ ∃ below, executor.frames = .pollTask id .pollBody :: below := by
  simp only [pendingTask] at pends
  split at pends
  · split at pends
    · next other below top =>
      cases pends
      exact ⟨rfl, below, top⟩
    · cases pends
  · cases pends

/-- The poll of a task whose id has strayed puts the entry back and nothing else. -/
theorem pendingTask_lost {executor next : LocalExecutor} {event : Event} {id : Nat}
    (pends : executor.pendingTask event = some id) (steps : executor.step event = some next)
    (sound : (executor.standing id).Sound) (strays : strayed executor.trace id = true) :
    (next.standing id).Lost := by
  obtain ⟨rfl, below, top⟩ := pendingTask_top pends
  have holds : 0 < (executor.standing id).entries := by
    simp [standing, top, Frame.holds]
  simp only [step, returns, top, Bool.false_eq_true, if_false] at steps
  cases steps
  exact ⟨sound.holder holds, decide_eq_true (Finset.mem_insert_self ..), strays⟩

/-- No poll of a task is in progress. -/
def Quiet (executor : LocalExecutor) : Prop := ∀ frame ∈ executor.frames, frame.task = none

/-- An id that is queued is in the queue, if no call is about to push it. -/
def Schedulable (executor : LocalExecutor) : Prop :=
  ∀ id task, executor.tasks id = some task → task.done = false → task.queued = true →
    id ∈ executor.queue ∨ .pushBack id ∈ executor.calls ∨ .enqueue id ∈ executor.frames

instance (executor : LocalExecutor) : Decidable executor.Quiet :=
  inferInstanceAs (Decidable (∀ frame ∈ executor.frames, frame.task = none))

theorem Schedulable.unlost {executor : LocalExecutor} (schedulable : executor.Schedulable) {id : Nat}
    (sound : (executor.standing id).Sound) : ¬ (executor.standing id).Lost := by
  intro lost
  have placed := sound.places (.inr lost.unfinished)
  have flag := Bool.toNat_le (executor.standing id).queued
  rw [lost.strayed, Bool.toNat_true] at placed
  have gone : (executor.standing id).ids = 0 := by omega
  have set : (executor.standing id).queued = true := Bool.toNat_eq_one.mp (by omega)
  obtain ⟨task, found, unfinished⟩ := (Option.any_eq_true _ _).mp lost.unfinished
  obtain ⟨same, again, queued⟩ := (Option.any_eq_true _ _).mp set
  cases found.symm.trans again
  simp only [standing, Nat.add_eq_zero_iff, List.count_eq_zero, List.countP_eq_zero] at gone
  obtain ⟨⟨absent, unpushed⟩, unmoved⟩ := gone
  rcases schedulable id task found (by simpa using unfinished) queued with member | push | frame
  · exact absent member
  · exact unpushed push
  · exact unmoved (.enqueue id) frame (by simp [Frame.moves])

/-- Of an id that is on its way, where no task is being polled. -/
theorem Quiet.place {executor : LocalExecutor} (quiet : executor.Quiet) {id : Nat}
    (moves : 0 < (executor.standing id).ids) :
    id ∈ executor.queue ∨ .pushBack id ∈ executor.calls ∨ .enqueue id ∈ executor.frames := by
  by_cases member : id ∈ executor.queue
  · exact .inl member
  by_cases push : .pushBack id ∈ executor.calls
  · exact .inr (.inl push)
  refine .inr (.inr ?_)
  simp only [standing, List.count_eq_zero_of_not_mem member, List.count_eq_zero_of_not_mem push, Nat.zero_add,
    List.countP_pos_iff] at moves
  obtain ⟨frame, among, moves⟩ := moves
  have unpolled := quiet frame among
  cases frame with
  | enqueue other => exact beq_iff_eq.mp moves ▸ among
  | blockOn | pollScheduledTasks => cases moves
  | pollTask other step => cases unpolled

theorem Quiet.entries {executor : LocalExecutor} (quiet : executor.Quiet) (id : Nat) :
    (executor.standing id).entries = 0 := by
  refine List.countP_eq_zero.mpr fun frame among holds => ?_
  have unpolled := quiet frame among
  cases frame with
  | enqueue | blockOn | pollScheduledTasks => cases holds
  | pollTask other step => cases unpolled

theorem standing_sound {executor : LocalExecutor} (reached : Reachable step new executor) (id : Nat) :
    (executor.standing id).Sound := by
  have kept : ∀ {before event after}, (LocalExecutor.standing before id).Sound →
      step before event = some after → (after.standing id).Sound := fun sound steps => step_sound steps sound
  exact reached.invariant kept (new_standing id)

/-- In a state without polls every task that is queued will be polled exactly if no poll of the
run returned `Pending` for a task whose id had strayed in its course. -/
theorem quiet_schedulable_iff {events : List Event} {executor : LocalExecutor}
    (reaches : Lib.run step events new = some executor) (quiet : executor.Quiet) :
    executor.Schedulable ↔ AllAllowed step Settles events new := by
  have sound := standing_sound ⟨events, reaches⟩
  constructor
  · intro schedulable
    refine AllAllowed.of_unspoilt (fun state => ∀ id, (state.standing id).Sound)
      (fun state => ∃ id, (state.standing id).Lost) (fun sound steps id => step_sound steps (sound id))
      (fun sound steps unsettled => ?_) (fun sound steps lost => ?_) new_standing reaches (fun lost => ?_)
    · simp only [Settles, not_forall] at unsettled
      obtain ⟨id, pends, strays⟩ := unsettled
      exact ⟨id, pendingTask_lost pends steps (sound id) (by simpa using strays)⟩
    · obtain ⟨id, lost⟩ := lost
      exact ⟨id, step_lost steps (sound id) lost⟩
    · obtain ⟨id, lost⟩ := lost
      exact schedulable.unlost (sound id) lost
  · intro all id task found unfinished queued
    have kept := all.keeps (fun state => ∀ id, (state.standing id).Sound ∧ (state.standing id).Kept)
      (fun both steps settles id => ⟨step_sound steps (both id).1, step_kept steps (both id).1 (both id).2 settles⟩)
      (fun id => ⟨new_standing id, fun strays => by cases strays⟩) reaches
    obtain ⟨sound, kept⟩ := kept id
    have still : (executor.standing id).unfinished = true := by
      simp [Standing.unfinished, standing, found, unfinished]
    have flagged : (executor.standing id).queued = true := by
      simp [Standing.queued, standing, found, queued]
    have entry := sound.entry
    have placed := sound.places (.inr still)
    rw [quiet.entries id, still, Bool.toNat_true] at entry
    rw [flagged, Bool.toNat_true] at placed
    have registered : (executor.standing id).registered = true := Bool.toNat_eq_one.mp entry
    have settled : (executor.standing id).strayed = false := by
      by_contra strays
      rw [kept (by simpa using strays) still] at registered
      cases registered
    rw [settled, Bool.toNat_false] at placed
    exact quiet.place (by omega)

/-- A task wakes itself while it is being polled, and then drives the executor. -/
def drivenWhileWoken : List Event :=
  [.spawn, .run, .runUntilStalled, .run, .run, .run, .wake 1, .advance (.loadDone 1), .advance (.swapQueued 1),
    .advance (.pushBack 1), .runUntilStalled, .run, .run, .run]

theorem quiet_schedulable_driven :
    ∃ executor, Lib.run step (drivenWhileWoken ++ [.returns true, .run, .run, .run]) new = some executor ∧
      executor.Quiet ∧
        (executor.Schedulable ↔
          AllAllowed step Settles (drivenWhileWoken ++ [.returns true, .run, .run, .run]) new) :=
  ⟨_, rfl, by decide, quiet_schedulable_iff rfl (by decide)⟩

theorem not_schedulable : ¬ ∀ executor, Reachable step new executor → executor.Quiet → executor.Schedulable := by
  intro all
  have lost := all _ ⟨drivenWhileWoken ++ [.returns false, .run], rfl⟩ (by decide) 1 ⟨false, true⟩ rfl rfl rfl
  revert lost
  decide

end LocalExecutor

end TptAsync.Executor
