import TptAsync.Executor.Scheduler

set_option autoImplicit false

/-!
# The run queue, as the tasks see it

What becomes of the ids between the wakes and the polls, without the threads and the stack:
every id is in one place at most, and its flag says whether it is in one.
-/

namespace TptAsync.Executor

/-- The scheduler as its tasks see it: where the ids are on their way to the next poll. -/
structure Board where
  tasks : Nat → Option TaskState
  nextId : Nat
  registry : Finset Nat
  queue : List Nat
  /-- How many calls of wakers are about to push an id. -/
  pushBacks : Nat → Nat
  spawning : Option Nat
  polling : Option (Nat × PollTaskStep)
  trace : List Occurrence

namespace Board

/-- The id that has come out of the queue and is not marked so. -/
def popped (board : Board) : List Nat :=
  match board.polling with
  | some (id, .remove) | some (id, .clearQueued) => [id]
  | _ => []

def setTask (board : Board) (id : Nat) (task : TaskState) : Board :=
  { board with tasks := Function.update board.tasks id (some task) }

def push (board : Board) (id : Nat) : Board :=
  { board with queue := board.queue ++ [id], trace := board.trace ++ [.pushed id] }

inductive Step : Board → Board → Prop
  | spawn {board : Board} (ready : board.spawning = none) :
      Step board { board.setTask board.nextId ⟨false, true⟩ with
        nextId := board.nextId + 1
        registry := insert board.nextId board.registry
        spawning := some board.nextId }
  | enqueue {board : Board} {id : Nat} (spawns : board.spawning = some id) :
      Step board { board.push id with spawning := none }
  | coalesce {board : Board} {id : Nat} {task : TaskState} (found : board.tasks id = some task)
      (queued : task.queued = true) :
      Step board { board with trace := board.trace ++ [.woken id] }
  | swap {board : Board} {id : Nat} {task : TaskState} (found : board.tasks id = some task)
      (free : task.queued = false) :
      Step board { board.setTask id { task with queued := true } with
        pushBacks := Function.update board.pushBacks id (board.pushBacks id + 1)
        trace := board.trace ++ [.woken id] }
  | pushBack {board : Board} {id count : Nat} (calls : board.pushBacks id = count + 1) :
      Step board { board.push id with pushBacks := Function.update board.pushBacks id count }
  | pop {board : Board} {id : Nat} {queue : List Nat} (free : board.polling = none)
      (front : board.queue = id :: queue) :
      Step board { board with queue, polling := some (id, .remove) }
  | remove {board : Board} {id : Nat} (polls : board.polling = some (id, .remove))
      (member : id ∈ board.registry) :
      Step board { board with registry := board.registry.erase id, polling := some (id, .clearQueued) }
  | skip {board : Board} {id : Nat} (polls : board.polling = some (id, .remove))
      (absent : id ∉ board.registry) :
      Step board { board with polling := none, trace := board.trace ++ [.skipped id] }
  | clear {board : Board} {id : Nat} {task : TaskState} (polls : board.polling = some (id, .clearQueued))
      (found : board.tasks id = some task) :
      Step board { board.setTask id { task with queued := false } with
        polling := some (id, .pollBody)
        trace := board.trace ++ [.polled id] }
  | pending {board : Board} {id : Nat} (polls : board.polling = some (id, .pollBody)) :
      Step board { board with registry := insert id board.registry, polling := none }
  | ready {board : Board} {id : Nat} (polls : board.polling = some (id, .pollBody)) :
      Step board { board with polling := some (id, .storeDone) }
  | storeDone {board : Board} {id : Nat} {task : TaskState} (polls : board.polling = some (id, .storeDone))
      (found : board.tasks id = some task) :
      Step board { board.setTask id { task with done := true } with polling := some (id, .dropEntry) }
  | drop {board : Board} {id : Nat} (polls : board.polling = some (id, .dropEntry)) :
      Step board { board with polling := none }

/-- Whether a task is finished, if there is such a task. -/
def finished (board : Board) (id : Nat) : Option Bool := (board.tasks id).map TaskState.done

def flagged (board : Board) (id : Nat) : Nat :=
  match board.tasks id with
  | some task => task.queued.toNat
  | none => 0

/-- How often an id is on its way to the next poll. -/
def held (board : Board) (id : Nat) : Nat :=
  board.queue.count id + board.pushBacks id + board.spawning.toList.count id + board.popped.count id

/-- The owner has the entry of the task, taken out of the registry. -/
def Polls (board : Board) (id : Nat) : Prop :=
  board.polling = some (id, .clearQueued) ∨ board.polling = some (id, .pollBody) ∨
    board.polling = some (id, .storeDone)

structure Sound (board : Board) : Prop where
  fresh : ∀ id, board.nextId ≤ id → board.tasks id = none
  bounded : ∀ id, board.held id ≤ board.flagged id
  exact : ∀ id, board.finished id ≠ some true → board.held id = board.flagged id
  registered : ∀ id, board.finished id = some false → id ∈ board.registry ∨ board.Polls id

theorem Step.fresh {before after : Board} (step : Step before after)
    (fresh : ∀ id, before.nextId ≤ id → before.tasks id = none) :
    ∀ id, after.nextId ≤ id → after.tasks id = none := by
  have known : ∀ {id other : Nat} {task : TaskState}, before.tasks id = some task →
      before.nextId ≤ other → other ≠ id := by
    rintro id other task found above rfl
    rw [fresh other above] at found
    cases found
  intro id above
  cases step with
  | spawn ready =>
      have newer : id ≠ before.nextId := by simp only at above; omega
      simp only [setTask, Function.update_of_ne newer]
      exact fresh id (by simp only at above; omega)
  | swap found free | clear polls found | storeDone polls found =>
      simp only [setTask, Function.update_of_ne (known found above)]
      exact fresh id above
  | enqueue | coalesce | pushBack | pop | remove | skip | pending | ready | drop => exact fresh id above

/-- An id that comes out of the queue without being registered is that of a finished task. -/
theorem Sound.skipped {board : Board} (sound : board.Sound) {id : Nat}
    (polls : board.polling = some (id, .remove)) (absent : id ∉ board.registry) :
    board.finished id = some true := by
  cases found : board.finished id with
  | none =>
      have bounded := sound.bounded id
      simp only [finished, Option.map_eq_none_iff] at found
      simp [held, flagged, popped, polls, found] at bounded
  | some finished =>
      cases finished with
      | true => rfl
      | false =>
          rcases sound.registered id found with member | has
          · exact absurd member absent
          · simp [Polls, polls] at has

theorem setTask_finished {board : Board} {id : Nat} {task : TaskState} (found : board.tasks id = some task)
    (queued : Bool) : (board.setTask id { task with queued }).finished = board.finished := by
  funext other
  by_cases same : other = id
  · subst same
    simp [finished, setTask, found]
  · simp [finished, setTask, Function.update_of_ne same]

/-- A step finishes no task but the one whose body has ended, and unfinishes none. -/
theorem Step.finished {before after : Board} (step : Step before after) (sound : before.Sound) (id : Nat) :
    after.finished id = before.finished id ∨
      before.finished id = none ∧ after.finished id = some false ∧ id ∈ after.registry ∨
      after.finished id = some true := by
  cases step with
  | spawn ready =>
      by_cases same : id = before.nextId
      · subst same
        right; left
        simp [Board.finished, setTask, sound.fresh before.nextId (Nat.le_refl _)]
      · left
        simp [Board.finished, setTask, Function.update_of_ne same]
  | swap found free | clear polls found => exact .inl (congrFun (setTask_finished found _) id)
  | @storeDone other task polls found =>
      by_cases same : id = other
      · subst same
        right; right
        simp [Board.finished, setTask]
      · left
        simp [Board.finished, setTask, Function.update_of_ne same]
  | enqueue | coalesce | pushBack | pop | remove | skip | pending | ready | drop => exact .inl rfl

/-- A finished task stays so. -/
theorem Step.finishes {before after : Board} (step : Step before after) (sound : before.Sound) {id : Nat}
    (ended : before.finished id = some true) : after.finished id = some true := by
  rcases step.finished sound id with same | ⟨new, _⟩ | ended
  · exact same.trans ended
  · rw [new] at ended
    cases ended
  · exact ended

/-- What a step does to the places of an id. -/
theorem Step.balance {before after : Board} (step : Step before after)
    (sound : before.Sound) (id : Nat) :
    after.held id + before.flagged id = before.held id + after.flagged id ∨
      after.finished id = some true ∧ after.held id + before.flagged id ≤ before.held id + after.flagged id := by
  cases step with
  | spawn ready =>
      left
      have none := sound.fresh before.nextId (Nat.le_refl _)
      by_cases same : id = before.nextId
      · subst same
        simp [held, flagged, popped, setTask, none, ready]
        omega
      · simp [held, flagged, popped, setTask, ready, Function.update_of_ne same, Ne.symm same]
  | enqueue spawns =>
      left
      simp [held, flagged, popped, push, spawns, List.count_singleton]
      omega
  | coalesce => left; rfl
  | @swap other task found free =>
      left
      by_cases same : id = other
      · subst same
        simp [held, flagged, popped, setTask, found, free]
        omega
      · simp [held, flagged, popped, setTask, Function.update_of_ne same]
  | @pushBack other count calls =>
      left
      by_cases same : id = other
      · subst same
        simp [held, flagged, popped, push, calls]
        omega
      · simp [held, flagged, popped, push, Function.update_of_ne same, Ne.symm same]
  | pop free front =>
      left
      simp [held, flagged, popped, free, front, List.count_cons]
      omega
  | remove polls member =>
      left
      simp [held, flagged, popped, polls]
  | @skip other polls absent =>
      by_cases same : id = other
      · subst same
        right
        refine ⟨sound.skipped polls absent, ?_⟩
        simp [held, flagged, popped, polls]
      · left
        simp [held, flagged, popped, polls, Ne.symm same]
  | @clear other task polls found =>
      left
      by_cases same : id = other
      · subst same
        have bounded := sound.bounded id
        simp [held, flagged, popped, polls, found] at bounded
        cases queued : task.queued with
        | false => simp [queued] at bounded
        | true =>
            simp [held, flagged, popped, setTask, polls, found, queued]
      · simp [held, flagged, popped, setTask, polls, Function.update_of_ne same, Ne.symm same]
  | pending polls => left; simp [held, flagged, popped, polls]
  | ready polls => left; simp [held, flagged, popped, polls]
  | @storeDone other task polls found =>
      left
      by_cases same : id = other
      · subst same
        simp [held, flagged, popped, setTask, polls, found]
      · simp [held, flagged, popped, setTask, polls, Function.update_of_ne same]
  | drop polls => left; simp [held, flagged, popped, polls]

theorem Step.registered {before after : Board} (step : Step before after) (sound : before.Sound)
    (id : Nat) (unfinished : after.finished id = some false) : id ∈ after.registry ∨ after.Polls id := by
  rcases step.finished sound id with same | ⟨_, _, member⟩ | ended
  · have was := sound.registered id (same.symm.trans unfinished)
    cases step with
    | spawn ready => exact was.imp_left Finset.mem_insert_of_mem
    | enqueue | coalesce | swap | pushBack => exact was
    | pop free front => exact .inl (was.resolve_right (by simp [Polls, free]))
    | @remove other polls member =>
        by_cases here : id = other
        · exact .inr (.inl (by rw [here]))
        · have member := was.resolve_right (by simp [Polls, polls])
          exact .inl (Finset.mem_erase.mpr ⟨here, member⟩)
    | skip polls absent => exact .inl (was.resolve_right (by simp [Polls, polls]))
    | clear polls found =>
        refine was.imp_right fun has => .inr (.inl ?_)
        simp [Polls, polls] at has
        rw [has]
    | pending polls =>
        left
        rcases was with member | has
        · exact Finset.mem_insert_of_mem member
        · simp [Polls, polls] at has
          exact has ▸ Finset.mem_insert_self _ _
    | ready polls =>
        refine was.imp_right fun has => .inr (.inr ?_)
        simp [Polls, polls] at has
        rw [has]
    | storeDone polls found =>
        refine .inl (was.resolve_right fun has => ?_)
        simp [Polls, polls] at has
        simp [Board.finished, setTask, has] at unfinished
    | drop polls => exact .inl (was.resolve_right (by simp [Polls, polls]))
  · exact .inl member
  · rw [ended] at unfinished
    cases unfinished

theorem Step.sound {before after : Board} (step : Step before after) (sound : before.Sound) : after.Sound where
  fresh := step.fresh sound.fresh
  bounded id := by
    have bounded := sound.bounded id
    rcases step.balance sound id with balance | ⟨_, balance⟩ <;> omega
  exact id unfinished := by
    have exact := sound.exact id fun ended => unfinished (step.finishes sound ended)
    rcases step.balance sound id with balance | ⟨ended, _⟩
    · omega
    · exact absurd ended unfinished
  registered := step.registered sound

/-- Every wake of the task is followed by the start of a poll. -/
def Answered (trace : List Occurrence) (id : Nat) : Prop :=
  ∀ before after, trace = before ++ .woken id :: after → .polled id ∈ after

theorem answered_append {trace : List Occurrence} {id : Nat} {occurrence : Occurrence}
    (answered : occurrence ≠ .polled id → occurrence ≠ .woken id ∧ Answered trace id) :
    Answered (trace ++ [occurrence]) id := by
  intro before after splits
  by_cases polled : occurrence = .polled id
  · subst polled
    rcases List.eq_nil_or_concat after with rfl | ⟨between, last, rfl⟩
    · have ends := List.append_inj_right' splits rfl
      cases ends
    · rw [List.concat_eq_append, ← List.cons_append, ← List.append_assoc] at splits
      have ends := List.append_inj_right' splits rfl
      rw [List.concat_eq_append, ← ends]
      exact List.mem_append_right _ List.mem_cons_self
  · obtain ⟨other, answered⟩ := answered polled
    rcases List.eq_nil_or_concat after with rfl | ⟨between, last, rfl⟩
    · have ends := List.append_inj_right' splits rfl
      cases ends
      exact absurd rfl other
    · rw [List.concat_eq_append, ← List.cons_append, ← List.append_assoc] at splits
      rw [List.concat_eq_append]
      exact List.mem_append_left _ (answered before between (List.append_inj_left' splits rfl))

def pushedId : Occurrence → Option Nat
  | .pushed id => some id
  | .woken _ | .polled _ | .skipped _ => none

def servedId : Occurrence → Option Nat
  | .polled id | .skipped id => some id
  | .woken _ | .pushed _ => none

/-- Between two polls of the task its id is queued once. -/
def Alternates (trace : List Occurrence) (id : Nat) : Prop :=
  ∀ early, early <+: trace → early.count (.polled id) ≤ early.count (.pushed id) ∧
    early.count (.pushed id) ≤ early.count (.polled id) + 1

structure Recorded (board : Board) : Prop where
  answered : ∀ id, board.finished id ≠ some true → board.flagged id = 0 → Answered board.trace id
  pushes : ∀ id, board.finished id ≠ some true → board.trace.count (.pushed id) =
    board.trace.count (.polled id) + board.queue.count id + board.popped.count id
  alternates : ∀ id, board.finished id ≠ some true → Alternates board.trace id
  order : board.trace.filterMap pushedId = board.trace.filterMap servedId ++ board.popped ++ board.queue
  skipped : ∀ id, .skipped id ∈ board.trace → board.finished id = some true

theorem Step.order {before after : Board} (step : Step before after)
    (order : before.trace.filterMap pushedId = before.trace.filterMap servedId ++ before.popped ++ before.queue) :
    after.trace.filterMap pushedId = after.trace.filterMap servedId ++ after.popped ++ after.queue := by
  cases step with
  | spawn | coalesce | swap => simpa [setTask, popped, pushedId, servedId, List.filterMap_cons] using order
  | @enqueue id | @pushBack id =>
      have longer := congrArg (· ++ [id]) order
      simpa [push, popped, pushedId, servedId, List.filterMap_cons] using longer
  | pop free front => simpa [popped, free, front] using order
  | remove polls | pending polls | ready polls | drop polls => simpa [popped, polls] using order
  | skip polls absent => simpa [popped, polls, pushedId, servedId, List.filterMap_cons] using order
  | clear polls found | storeDone polls found => simpa [popped, polls, setTask, pushedId, servedId, List.filterMap_cons] using order

theorem Step.pushes {before after : Board} (step : Step before after) (sound : before.Sound) {id : Nat}
    (unfinished : after.finished id ≠ some true)
    (pushes : before.trace.count (.pushed id) =
      before.trace.count (.polled id) + before.queue.count id + before.popped.count id) :
    after.trace.count (.pushed id) =
      after.trace.count (.polled id) + after.queue.count id + after.popped.count id := by
  cases step with
  | spawn | coalesce | swap => simpa [setTask, popped] using pushes
  | @enqueue other | @pushBack other =>
      simp [push, popped, List.count_append, List.count_singleton] at pushes ⊢
      omega
  | pop free front =>
      simp [popped, free, front, List.count_cons] at pushes ⊢
      omega
  | remove polls | pending polls | ready polls | drop polls => simpa [popped, polls] using pushes
  | @skip other polls absent =>
      have elsewhere : other ≠ id := by
        rintro rfl
        exact unfinished (sound.skipped polls absent)
      simpa [popped, polls, elsewhere] using pushes
  | clear polls found =>
      simp [popped, polls, setTask, List.count_append, List.count_singleton] at pushes ⊢
      omega
  | storeDone polls found => simpa [popped, polls, setTask] using pushes

/-- A step records at most one occurrence. -/
theorem Step.trace {before after : Board} (step : Step before after) :
    after.trace = before.trace ∨ ∃ occurrence, after.trace = before.trace ++ [occurrence] := by
  cases step with
  | enqueue | coalesce | swap | pushBack | skip | clear => exact .inr ⟨_, rfl⟩
  | spawn | pop | remove | pending | ready | storeDone | drop => exact .inl rfl

theorem Step.alternates {before after : Board} (step : Step before after) {id : Nat}
    (alternates : Alternates before.trace id)
    (balanced : after.trace.count (.polled id) ≤ after.trace.count (.pushed id) ∧
      after.trace.count (.pushed id) ≤ after.trace.count (.polled id) + 1) :
    Alternates after.trace id := by
  intro early within
  rcases step.trace with same | ⟨occurrence, longer⟩
  · exact alternates early (same ▸ within)
  · rw [longer, List.prefix_concat_iff] at within
    rcases within with rfl | within
    · exact longer ▸ balanced
    · exact alternates early within

theorem flagged_setTask_of_ne {board : Board} {id other : Nat} (task : TaskState) (elsewhere : id ≠ other) :
    (board.setTask other task).flagged id = board.flagged id := by
  simp only [flagged, setTask, Function.update_of_ne elsewhere]

theorem Step.answered {before after : Board} (step : Step before after) {id : Nat}
    (free : after.flagged id = 0) (answered : before.flagged id = 0 → Answered before.trace id) :
    Answered after.trace id := by
  have flagged_update : ∀ {other : Nat} {task : TaskState}, (before.setTask other task).flagged id = 0 →
      task.queued = true → id ≠ other := by
    rintro other task unflagged queued rfl
    simp [flagged, setTask, queued] at unflagged
  cases step with
  | spawn =>
      have elsewhere := flagged_update free rfl
      exact answered ((flagged_setTask_of_ne _ elsewhere).symm.trans free)
  | enqueue | pushBack | skip => exact answered_append fun _ => ⟨nofun, answered free⟩
  | @coalesce other task found queued =>
      refine answered_append fun _ => ⟨?_, answered free⟩
      rintro ⟨rfl⟩
      simp [flagged, found, queued] at free
  | swap =>
      have elsewhere := flagged_update free rfl
      refine answered_append fun _ => ⟨fun same => elsewhere (Occurrence.woken.inj same).symm, ?_⟩
      exact answered ((flagged_setTask_of_ne _ elsewhere).symm.trans free)
  | @clear other task polls found =>
      refine answered_append fun elsewhere => ⟨nofun, ?_⟩
      have elsewhere : id ≠ other := fun same => elsewhere (same ▸ rfl)
      exact answered ((flagged_setTask_of_ne _ elsewhere).symm.trans free)
  | @storeDone other task polls found =>
      refine answered ?_
      by_cases same : id = other
      · subst same
        simpa [flagged, setTask, found] using free
      · exact (flagged_setTask_of_ne _ same).symm.trans free
  | pop | remove | pending | ready | drop => exact answered free

theorem Step.skipped {before after : Board} (step : Step before after) (sound : before.Sound) {id : Nat}
    (skipped : .skipped id ∈ before.trace → before.finished id = some true)
    (member : .skipped id ∈ after.trace) : after.finished id = some true := by
  refine step.finishes sound ?_
  cases step with
  | spawn | pop | remove | pending | ready | storeDone | drop => exact skipped member
  | enqueue | coalesce | swap | pushBack | clear => exact skipped (by simpa [push] using member)
  | skip polls absent =>
      rcases List.mem_append.mp member with old | new
      · exact skipped old
      · cases List.mem_singleton.mp new
        exact sound.skipped polls absent

theorem flagged_le_one (board : Board) (id : Nat) : board.flagged id ≤ 1 := by
  unfold flagged
  split
  · exact Bool.toNat_le _
  · exact Nat.zero_le 1

theorem Step.recorded {before after : Board} (step : Step before after) (sound : before.Sound)
    (recorded : before.Recorded) : after.Recorded := by
  have unfinished : ∀ id, after.finished id ≠ some true → before.finished id ≠ some true :=
    fun id still ended => still (step.finishes sound ended)
  have pushes : ∀ id, after.finished id ≠ some true → after.trace.count (.pushed id) =
      after.trace.count (.polled id) + after.queue.count id + after.popped.count id :=
    fun id still => step.pushes sound still (recorded.pushes id (unfinished id still))
  refine ⟨fun id still free => ?_, pushes, fun id still => ?_, step.order recorded.order, fun id => ?_⟩
  · exact step.answered free (recorded.answered id (unfinished id still))
  · have bounded := (step.sound sound).bounded id
    have binary := after.flagged_le_one id
    have balance := pushes id still
    simp only [held] at bounded
    exact step.alternates (recorded.alternates id (unfinished id still)) (by omega)
  · exact step.skipped sound (recorded.skipped id)

end Board

end TptAsync.Executor
