import TptAsync.Executor.Bodies

set_option autoImplicit false

/-!
# Spawning and awaiting is calling

Whatever a routine spawns and awaits, `block_on` returns what it would come to if every task were
called where it is spawned. Nothing is ever left waiting for what does not come.
-/

namespace TptAsync.Executor

open Lib

variable {α : Type}

namespace Machine

def bodies (machine : Machine α) : Sleeper → Option (Body α)
  | .main => some machine.main
  | .task id => machine.tasks id

def Live (machine : Machine α) (id : Nat) : Prop := ∃ body, machine.tasks id = some body

@[simp] theorem keep_executor (machine : Machine α) (self : Sleeper) (body : Body α) :
    (machine.keep self body).executor = machine.executor := by
  cases self <;> rfl

@[simp] theorem keep_shared (machine : Machine α) (self : Sleeper) (body : Body α) :
    (machine.keep self body).shared = machine.shared := by
  cases self <;> rfl

theorem keep_bodies (machine : Machine α) (self : Sleeper) (body : Body α) :
    (machine.keep self body).bodies = Function.update machine.bodies self (some body) := by
  funext target
  cases self with
  | main => cases target <;> simp [keep, bodies]
  | task id =>
      cases target with
      | main => simp [keep, bodies]
      | task other => by_cases same : other = id <;> simp [keep, bodies, same]

theorem keep_live {machine : Machine α} {self : Sleeper} {body : Body α} (next : Body α)
    (found : machine.bodies self = some body) (id : Nat) : (machine.keep self next).Live id ↔ machine.Live id := by
  cases self with
  | main => exact Iff.rfl
  | task other =>
      by_cases same : id = other
      · subst same
        exact ⟨fun _ => ⟨body, found⟩, fun _ => ⟨next, Function.update_self _ _ _⟩⟩
      · simp only [Live, keep, Function.update_of_ne same]

theorem keep_new (machine : Machine α) (id : Nat) (body : Body α) (other : Nat) :
    (machine.keep (.task id) body).Live other ↔ machine.Live other ∨ other = id := by
  by_cases same : other = id
  · simp [Live, keep, same]
  · simp [Live, keep, same]

/-- What is so of a machine that has not returned, and how far it may be from that. -/
structure GoesOn (result : α) (values : Nat → α) (position : Position) (rank : Nat) (machine : Machine α) :
    Prop where
  stands : Stands machine.Live position machine.executor
  bodies : Bodies result values machine.executor.nextId machine.bodies machine.shared
    (Runnable position machine.executor) machine.executor.Polled
  rank : 8 * (2 * total values machine.executor.nextId machine.bodies + machine.executor.scheduled +
    position.spawning) + position.rank ≤ rank

def Going (result : α) (rank : Nat) (machine : Machine α) : Prop :=
  ∃ values position, machine.GoesOn result values position rank

def Returned (result : α) (machine : Machine α) : Prop :=
  machine.executor.frames = [] ∧ machine.returned = some result

/-- It has come closer to its end. -/
def Advances (result : α) (rank : Nat) (machine : Machine α) : Prop :=
  machine.Returned result ∨ ∃ lower < rank, machine.Going result lower

theorem complete_alone (value : α) (shared : Core.SharedState α Sleeper) :
    ((Core.Completer.complete value).alone Core.Access.effect shared).2 =
      ⟨.ready, some value, none, shared.woken ++ shared.waker.toList⟩ := by
  obtain ⟨flags, kept, waker, woken⟩ := shared
  cases waker with
  | none => exact congrArg (Core.SharedState.mk Core.Flags.ready (some value) none) woken.append_nil.symm
  | some target => rfl

theorem poll_ready {shared : Core.SharedState α Sleeper} {value : α} (self : Sleeper)
    (ended : shared.flags = .ready) (kept : shared.result = some value) :
    (Core.JoinHandle.poll self).alone Core.Access.effect shared =
      (.ready (.ok value), { shared with result := none }) := by
  obtain ⟨flags, result, waker, woken⟩ := shared
  cases ended
  cases kept
  rfl

theorem poll_pending {shared : Core.SharedState α Sleeper} (self : Sleeper) (pending : shared.flags = .pending)
    (free : ∀ other, shared.waker = some other → other = self) :
    (Core.JoinHandle.poll self).alone Core.Access.effect shared =
      (.pending, { shared with waker := some self }) := by
  obtain ⟨flags, result, waker, woken⟩ := shared
  cases pending
  cases waker with
  | none => rfl
  | some other =>
      cases free other rfl
      have registers : Core.Access.effect (.register self) ⟨.pending, result, some self, woken⟩ =
          ((), (⟨.pending, result, some self, woken⟩ : Core.SharedState α Sleeper)) :=
        if_pos (decide_eq_true rfl)
      change Program.alone Core.Access.effect
        (_ : Core.Code α Sleeper (Core.Answer α)) (Core.Access.effect (.register self) _).2 = _
      rw [registers]
      rfl

section Step

variable {result : α} {values : Nat → α} {position : Position} {rank : Nat} {machine : Machine α}
  {self : Sleeper} {held : Nat} {handles : Fin held → Nat}

theorem step_inside (frames : machine.executor.frames = position.frames) (inside : position.inside = true) :
    machine.step = (do some { machine with executor := ← machine.executor.run }) := by
  cases position with
  | main => cases inside
  | task id access =>
      cases access with
      | pollBody => cases inside
      | remove | clearQueued | storeDone | dropEntry => simp only [step, frames, Position.frames]
  | swap | mainSpawns | drain | lock | taskSpawns => simp only [step, frames, Position.frames]

/-- The owner goes on in its own code. -/
theorem GoesOn.run (goesOn : machine.GoesOn result values position rank) (inside : position.inside = true)
    (busy : position = .lock → machine.executor.notified 0 = true) :
    ∃ next, machine.step = some next ∧ ∃ lower < rank, next.Going result lower := by
  obtain ⟨next, after, ran, goes⟩ := goesOn.stands.run inside busy
  refine ⟨{ machine with executor := after }, ?_, _, ?_, values, next, goes.stands, ?_, le_rfl⟩
  · rw [step_inside goesOn.stands.frames inside, ran]
    rfl
  · have bound := goesOn.rank
    have closer := goes.rank
    rw [goes.nextId]
    change 8 * (2 * total values machine.executor.nextId machine.bodies + after.scheduled + next.spawning) +
      next.rank < rank
    omega
  · rw [goes.nextId]
    exact goesOn.bodies.mono goes.runnable goes.polled

/-- When the queue is empty, no task is going to be polled. -/
theorem GoesOn.idle (goesOn : machine.GoesOn result values .lock rank) {id : Nat}
    (live : machine.Live id) : ¬ machine.executor.Queues (.task id) := by
  rintro ⟨task, found, queued⟩
  obtain ⟨flag, again⟩ := goesOn.stands.unfinished id live
  cases found.symm.trans again
  have places := goesOn.stands.sound.places found rfl
  have empty : machine.executor.queue = [] := goesOn.stands.here
  have frames := goesOn.stands.frames
  simp only at queued
  simp [empty, queued, LocalExecutor.pushing, goesOn.stands.calls, LocalExecutor.spawning, LocalExecutor.board,
    Board.popped, LocalExecutor.polling, frames, Position.frames, enqueuing, pollingTask, Frame.task] at places

/-- Of the main future and the tasks, which are one fewer, not all wait for a task. -/
theorem GoesOn.busy (goesOn : machine.GoesOn result values .lock rank) : machine.executor.notified 0 = true := by
  classical
  by_contra idle
  let live := (Finset.range machine.executor.nextId).filter machine.Live
  have waits : ∀ target body, machine.bodies target = some body →
      ∃ id, body.awaits = some id ∧ (machine.shared id).waker = some target := by
    intro target body found
    refine (goesOn.bodies.runs target body found).resolve_left fun runnable => ?_
    have queues := runnable.idle rfl
    cases target with
    | main => exact idle queues
    | task id => exact goesOn.idle ⟨body, found⟩ queues
  let sleepers := insert Sleeper.main (live.image Sleeper.task)
  have bodied : ∀ target ∈ sleepers, ∃ body, machine.bodies target = some body := by
    intro target member
    rcases Finset.mem_insert.mp member with rfl | member
    · exact ⟨_, rfl⟩
    · obtain ⟨id, inside, rfl⟩ := Finset.mem_image.mp member
      exact (Finset.mem_filter.mp inside).2
  have more : live.card < sleepers.card := by
    rw [Finset.card_insert_of_notMem (by simp), Finset.card_image_of_injective _ fun _ _ => Sleeper.task.inj]
    exact Nat.lt_succ_self _
  let awaited := fun target => ((machine.bodies target).bind Body.awaits).getD 0
  have registered : ∀ target ∈ sleepers, (machine.shared (awaited target)).waker = some target := by
    intro target member
    obtain ⟨body, found⟩ := bodied target member
    obtain ⟨id, awaits, registered⟩ := waits target body found
    simpa only [awaited, found, Option.bind_some, awaits, Option.getD_some] using registered
  have different : ∀ first ∈ sleepers, ∀ second ∈ sleepers,
      awaited first = awaited second → first = second := by
    intro first member second also same
    have there := registered first member
    rw [same, registered second also] at there
    exact (Option.some.inj there).symm
  obtain ⟨target, member, outside⟩ := exists_waits_outside more different
  obtain ⟨other, there⟩ := goesOn.bodies.unfinished (registered target member)
  exact outside (Finset.mem_filter.mpr ⟨Finset.mem_range.mpr (goesOn.bodies.limited there), other, there⟩)

theorem runs_self : Runnable self.position machine.executor self := by
  cases self <;> exact .inr rfl

/-- Only what is polled is not in the queue. -/
theorem runs_other {target : Sleeper} {executor : LocalExecutor}
    (runnable : Runnable self.position executor target) (apart : target ≠ self) : executor.Queues target := by
  refine runnable.resolve_right fun current => apart ?_
  cases self <;> exact (Option.some.inj current).symm

theorem Going.closer {machine : Machine α} (stands : Stands machine.Live position machine.executor)
    (bodies : Bodies result values machine.executor.nextId machine.bodies machine.shared
      (Runnable position machine.executor) machine.executor.Polled)
    (closer : 8 * (2 * total values machine.executor.nextId machine.bodies + machine.executor.scheduled +
      position.spawning) + position.rank < rank) : ∃ lower < rank, machine.Going result lower :=
  ⟨_, closer, values, position, stands, bodies, le_rfl⟩

theorem GoesOn.polling (goesOn : machine.GoesOn result values self.position rank) :
    8 * (2 * total values machine.executor.nextId machine.bodies + machine.executor.scheduled) + 5 ≤ rank := by
  cases self <;> exact goesOn.rank

theorem GoesOn.giveWay {next : Routine Core.Cancelled α held}
    (goesOn : machine.GoesOn result values self.position rank)
    (found : machine.bodies self = some ⟨held, .giveWay next, handles⟩) :
    ∃ after, machine.runBody self ⟨held, .giveWay next, handles⟩ = some after ∧
      ∃ lower < rank, after.Going result lower := by
  have bound := goesOn.polling
  obtain ⟨stands, sound, _⟩ := goesOn
  obtain ⟨awake, wakes, woken⟩ :=
    LocalExecutor.wakeNow_runs stands.sound stands.calls stands.polled stands.alive
  obtain ⟨after, pends, drains, queues, polls, nextId, scheduled⟩ := (stands.wake woken).pend
  have continues := @Bodies.continues _ _ _ _ _ _ _ _ _ _ ⟨held, next, handles⟩ sound found
    ⟨id, Function.injective_id, fun _ => rfl, rfl⟩ (sound.free found rfl) runs_self
  have drops := sound.total_update found (some ⟨held, next, handles⟩)
  refine ⟨{ machine with executor := after }.keep self ⟨held, next, handles⟩, ?_,
    @Going.closer _ _ values .drain _ _ ?_ ?_ ?_⟩
  · simp only [runBody, wakes, pends, Option.bind_eq_bind, Option.bind_some]
  · rw [keep_executor]
    exact drains.congr fun id => (@keep_live _ { machine with executor := after } self _ _ found id).symm
  · rw [keep_executor, keep_bodies, keep_shared, nextId, woken.nextId]
    refine continues.mono (fun target runnable => .inl ?_) fun target polled => polls _ (woken.polled _ polled)
    by_cases same : target = self
    · exact same ▸ queues _ woken.queues
    · exact queues _ (woken.others _ (runs_other runnable same))
  · rw [keep_executor, keep_bodies, nextId, woken.nextId, scheduled]
    have effort : Body.effort values ⟨held, .giveWay next, handles⟩ =
        Body.effort values ⟨held, next, handles⟩ + 1 := rfl
    have added := woken.scheduled
    rw [effort, Option.elim_some] at drops
    change 8 * (2 * total values _ (Function.update machine.bodies self _) + _ + 0) + 2 < rank
    omega

theorem GoesOn.start {given kept : Nat} {split : Fin held ≃ Fin given ⊕ Fin kept}
    {other : Routine Core.Cancelled α given} {next : Routine Core.Cancelled α (kept + 1)}
    (goesOn : machine.GoesOn result values self.position rank)
    (found : machine.bodies self = some ⟨held, .start split other next, handles⟩) :
    ∃ after, machine.runBody self ⟨held, .start split other next, handles⟩ = some after ∧
      ∃ lower < rank, after.Going result lower := by
  have bound := goesOn.polling
  obtain ⟨stands, sound, _⟩ := goesOn
  obtain ⟨after, spawns, stands, queues, queued, polls, nextId, scheduled⟩ := stands.spawn
  have drops := sound.total_start found
  set id := machine.executor.nextId
  let begun := { machine with executor := after }.keep self (Body.starter split next handles id)
  have begins : (begun.keep (.task id) (Body.started split other handles)).bodies =
      Bodies.withStarted machine.bodies self id split other next handles := by
    rw [keep_bodies, keep_bodies]
    rfl
  refine ⟨begun.keep (.task id) (Body.started split other handles), ?_,
    @Going.closer _ _ (Function.update values id ((Body.started split other handles).comesTo values))
      (self.spawns id) _ _ ?_ ?_ ?_⟩
  · simp only [runBody, spawns, Option.bind_eq_bind, Option.bind_some]
    rfl
  · rw [keep_executor, keep_executor]
    refine stands.congr fun other => ?_
    rw [keep_new]
    exact or_congr_left (@keep_live _ { machine with executor := after } self _ _ found other).symm
  · rw [keep_executor, keep_executor, begins, keep_shared, keep_shared, nextId]
    refine sound.start found (fun target runnable => ?_) ?_ (.inl queued) polls
    · by_cases same : target = self
      · subst same
        cases target <;> exact .inr rfl
      · exact .inl (queues _ (runs_other runnable same))
    · cases self <;> exact .inr rfl
  · rw [keep_executor, keep_executor, begins, nextId, scheduled]
    have rank : (self.spawns id).rank = 6 := by cases self <;> rfl
    have spawning : (self.spawns id).spawning = 1 := by cases self <;> rfl
    rw [rank, spawning]
    omega

theorem GoesOn.joinReady {which : Fin (held + 1)}
    {next : Except Core.Cancelled α → Routine Core.Cancelled α held}
    {handles : Fin (held + 1) → Nat} (goesOn : machine.GoesOn result values self.position rank)
    (found : machine.bodies self = some ⟨held + 1, .join which next, handles⟩)
    (ended : machine.bodies (.task (handles which)) = none) :
    ∃ after, machine.runBody self ⟨held + 1, .join which next, handles⟩ = some after ∧
      ∃ lower < rank, after.Going result lower := by
  have bound := goesOn.polling
  obtain ⟨stands, sound, _⟩ := goesOn
  obtain ⟨flags, quiet, kept⟩ := sound.ready self _ which found ended
  have known := sound.known self _ which found
  have unmixed := sound.injective self _ found
  let rest : Body α := ⟨held, next (.ok (values (handles which))), fun place => handles (which.succAbove place)⟩
  have free : ∀ id, (machine.shared id).waker ≠ some self := by
    intro id registered
    obtain ⟨_, body, holds, waits⟩ := sound.registered id self registered
    cases found.symm.trans holds
    cases Option.some.inj waits
    rw [quiet] at registered
    cases registered
  have apart : Sleeper.task (handles which) ≠ self := by
    intro same
    rw [same, found] at ended
    cases ended
  have unheld : ∀ target body place, Function.update machine.bodies self (some rest) target = some body →
      body.handles place ≠ handles which := by
    intro target body place holds same
    by_cases here : target = self
    · rw [here, Function.update_self] at holds
      cases holds
      exact Fin.succAbove_ne which place (unmixed same)
    · rw [Function.update_of_ne here] at holds
      exact here (sound.alone target self body _ place which holds found same)
  have continues := @Bodies.continues _ _ _ _ _ _ _ _ _ _ rest sound found
    ⟨which.succAbove, Fin.succAbove_right_injective, fun _ => rfl, rfl⟩ free runs_self
  have taken := continues.take (by rw [Function.update_of_ne apart, ended]) known quiet unheld
  have drops := sound.total_update found (some rest)
  let polled := machine.share (handles which) { machine.shared (handles which) with result := none }
  refine ⟨polled.keep self rest, ?_, @Going.closer _ _ values self.position _ _ ?_ ?_ ?_⟩
  · simp only [runBody, poll_ready self flags kept]
    rfl
  · rw [keep_executor]
    exact stands.congr fun id => (@keep_live _ polled self _ _ found id).symm
  · rw [keep_executor, keep_bodies, keep_shared]
    exact taken
  · rw [keep_executor, keep_bodies]
    have effort : Body.effort values ⟨held + 1, .join which next, handles⟩ = rest.effort values + 1 := rfl
    rw [effort, Option.elim_some] at drops
    have rank : self.position.rank = 5 := by cases self <;> rfl
    have spawning : self.position.spawning = 0 := by cases self <;> rfl
    rw [rank, spawning]
    change 8 * (2 * total values machine.executor.nextId (Function.update machine.bodies self (some rest)) +
      machine.executor.scheduled + 0) + 5 < _
    omega

/-- A poll of the handle leaves the waker there. -/
theorem GoesOn.joinPending {which : Fin (held + 1)}
    {next : Except Core.Cancelled α → Routine Core.Cancelled α held} {handles : Fin (held + 1) → Nat}
    {other : Body α} (goesOn : machine.GoesOn result values self.position rank)
    (found : machine.bodies self = some ⟨held + 1, .join which next, handles⟩)
    (there : machine.bodies (.task (handles which)) = some other) :
    ∃ after, machine.runBody self ⟨held + 1, .join which next, handles⟩ = some after ∧
      ∃ lower < rank, after.Going result lower := by
  have bound := goesOn.polling
  obtain ⟨stands, sound, _⟩ := goesOn
  have free : ∀ target, (machine.shared (handles which)).waker = some target → target = self := by
    intro target registered
    obtain ⟨_, body, holds, waits⟩ := sound.registered _ _ registered
    obtain ⟨place, same⟩ := Body.awaits_handle waits
    exact sound.alone target self body _ place which holds found same
  obtain ⟨after, pends, drains, queues, polls, nextId, scheduled⟩ := stands.pend
  refine ⟨{ machine.share (handles which) { machine.shared (handles which) with waker := some self } with
    executor := after }, ?_, @Going.closer _ _ values .drain _ _ drains ?_ ?_⟩
  · simp only [runBody, poll_pending self (sound.pending _ other there).1 free, share, pends,
      Option.bind_eq_bind, Option.bind_some]
  · rw [nextId]
    refine sound.register found rfl there (fun target apart runnable => ?_) polls (polls _ stands.polled)
    exact .inl (queues _ (runs_other runnable apart))
  · rw [nextId]
    change 8 * (2 * total values _ machine.bodies + after.scheduled + 0) + 2 < rank
    omega

theorem ended_bodies (machine : Machine α) (id : Nat) (executor : LocalExecutor)
    (shared : Nat → Core.SharedState α Sleeper) :
    ({ machine with executor, shared, tasks := Function.update machine.tasks id none } : Machine α).bodies =
      Function.update machine.bodies (.task id) none := by
  funext target
  cases target with
  | main => simp [bodies]
  | task other => by_cases same : other = id <;> simp [bodies, same]

/-- A task hands its output over and wakes the one that waits for it. -/
theorem GoesOn.finishTask {id : Nat} {value : α} {handles : Fin held → Nat}
    (goesOn : machine.GoesOn result values (.task id .pollBody) rank)
    (found : machine.bodies (.task id) = some ⟨held, .done value, handles⟩) :
    ∃ after, machine.finish (.task id) value = some after ∧ ∃ lower < rank, after.Going result lower := by
  have bound := @GoesOn.polling _ _ _ _ _ (.task id) goesOn
  obtain ⟨stands, sound, _⟩ := goesOn
  have comes : value = values id := sound.means (.task id) _ found
  subst comes
  obtain ⟨awake, wakes, awaking, queues, wakers, polls, nextId, scheduled⟩ :=
    @Stands.wakeAll _ _ (.task id) stands (machine.shared id).waker
      (fun other registered => (sound.registered id other registered).1) fun other registered => by
        obtain ⟨_, body, holds, _⟩ := sound.registered id other registered
        cases other with
        | main => trivial
        | task other => exact stands.unfinished other ⟨body, holds⟩
  obtain ⟨after, ends, stores, queuesStill, pollsStill, nextIdStill, scheduledStill⟩ := awaking.finish
  have completes := complete_alone (values id) (machine.shared id)
  rw [(sound.pending id _ found).2, List.nil_append] at completes
  have completed : Bodies result values machine.executor.nextId (Function.update machine.bodies (.task id) none)
      (Function.update machine.shared id ⟨.ready, some (values id), none, (machine.shared id).waker.toList⟩)
      (Runnable (.task id .storeDone) after) after.Polled :=
    sound.complete found rfl
      (fun target apart runnable => .inl (queuesStill _ (queues _ (@runs_other (.task id) _ _ runnable apart))))
      (fun target registered => .inl (queuesStill _ (wakers _ registered)))
      fun target polled => pollsStill _ (polls _ polled)
  have drops := sound.total_update found none
  let shared : Core.SharedState α Sleeper := ⟨.ready, some (values id), none, (machine.shared id).waker.toList⟩
  refine ⟨{ machine.share id shared with executor := after, tasks := Function.update machine.tasks id none },
    ?_, @Going.closer _ _ values (.task id .storeDone) _ _ ?_ ?_ ?_⟩
  · simp only [finish, completes, wakes, ends, Option.bind_eq_bind, Option.bind_some]
    rfl
  · refine stores.congr fun other => ?_
    by_cases same : other = id
    · subst same
      exact ⟨fun gone => absurd rfl gone.2, fun ⟨_, gone⟩ => by simp at gone⟩
    · simp [Live, same]
  · rw [nextIdStill, nextId]
    exact (ended_bodies machine id after _).symm ▸ completed
  · rw [nextIdStill, nextId, share, ended_bodies]
    have effort : Body.effort values ⟨held, .done (values id), handles⟩ = 1 := rfl
    rw [effort, Option.elim_none] at drops
    change 8 * (2 * total values _ (Function.update machine.bodies (.task id) none) + after.scheduled + 0) + 4 < _
    omega

theorem GoesOn.finishMain {value : α} (goesOn : machine.GoesOn result values .main rank)
    {handles : Fin held → Nat} (found : machine.main = ⟨held, .done value, handles⟩) :
    ∃ after, machine.finish .main value = some after ∧ after.Returned result := by
  obtain ⟨stands, sound, _⟩ := goesOn
  have comes : value = result := sound.means .main _ (congrArg some found)
  have frames : machine.executor.frames = [.blockOn 0 .pollMain] := stands.frames
  have returns : machine.executor.returns true = some { machine.executor with frames := [] } := by
    simp only [LocalExecutor.returns, frames, if_true]
  refine ⟨{ machine with executor := { machine.executor with frames := [] }, returned := some value }, ?_, rfl,
    congrArg some comes⟩
  simp only [finish, returns, Option.bind_eq_bind, Option.bind_some]

/-- What is polled goes on. -/
theorem GoesOn.runBody {body : Body α} (goesOn : machine.GoesOn result values self.position rank)
    (found : machine.bodies self = some body) :
    ∃ after, machine.runBody self body = some after ∧ after.Advances result rank := by
  obtain ⟨held, routine, handles⟩ := body
  cases routine with
  | done value =>
      cases self with
      | main =>
          obtain ⟨after, ends, returned⟩ := goesOn.finishMain (Option.some.inj found)
          exact ⟨after, ends, .inl returned⟩
      | task id =>
          obtain ⟨after, ends, closer⟩ := goesOn.finishTask found
          exact ⟨after, ends, .inr closer⟩
  | giveWay next =>
      obtain ⟨after, runs, closer⟩ := goesOn.giveWay found
      exact ⟨after, runs, .inr closer⟩
  | start split other next =>
      obtain ⟨after, runs, closer⟩ := goesOn.start found
      exact ⟨after, runs, .inr closer⟩
  | join which next =>
      cases there : machine.bodies (.task (handles which)) with
      | none =>
          obtain ⟨after, runs, closer⟩ := goesOn.joinReady found there
          exact ⟨after, runs, .inr closer⟩
      | some other =>
          obtain ⟨after, runs, closer⟩ := goesOn.joinPending found there
          exact ⟨after, runs, .inr closer⟩

end Step

variable {result : α} {rank : Nat} {machine : Machine α}

theorem Going.step (going : machine.Going result rank) :
    machine.executor.frames ≠ [] ∧ ∃ after, machine.step = some after ∧ after.Advances result rank := by
  obtain ⟨values, position, goesOn⟩ := going
  have frames := goesOn.stands.frames
  refine ⟨by rw [frames]; cases position <;> nofun, ?_⟩
  by_cases inside : position.inside = true
  · obtain ⟨after, steps, closer⟩ := goesOn.run inside fun lock => by subst lock; exact goesOn.busy
    exact ⟨after, steps, .inr closer⟩
  · cases position with
    | main =>
        obtain ⟨after, runs, advances⟩ := @GoesOn.runBody _ _ _ _ _ .main _ goesOn rfl
        exact ⟨after, by rw [← runs]; simp only [Machine.step, frames, Position.frames], advances⟩
    | task id access =>
        cases access with
        | pollBody =>
            obtain ⟨body, found⟩ := goesOn.stands.here.1
            obtain ⟨after, runs, advances⟩ := @GoesOn.runBody _ _ _ _ _ (.task id) _ goesOn found
            refine ⟨after, ?_, advances⟩
            rw [← runs]
            simp only [Machine.step, frames, Position.frames, found, Option.bind_eq_bind, Option.bind_some]
        | remove | clearQueued | storeDone | dropEntry => exact absurd rfl inside
    | swap | mainSpawns | drain | lock | taskSpawns => exact absurd rfl inside

theorem Going.drive (going : machine.Going result rank) (extra : Nat) :
    ∃ final, machine.drive (rank + 1 + extra) = some final ∧ final.returned = some result := by
  induction rank using Nat.strong_induction_on generalizing machine extra with
  | h rank ih =>
      obtain ⟨busy, after, steps, advances⟩ := going.step
      have goes : machine.drive (rank + 1 + extra) = after.drive (rank + extra) := by
        rw [Nat.add_right_comm, Machine.drive, steps]
        simp [busy]
      rw [goes]
      rcases advances with ⟨ended, returned⟩ | ⟨lower, less, goesOn⟩
      · refine ⟨after, ?_, returned⟩
        cases rank + extra with
        | zero => rfl
        | succ fuel => simp [Machine.drive, ended]
      · obtain ⟨more, equal⟩ := Nat.exists_eq_add_of_lt less
        obtain ⟨final, runs, returned⟩ := ih lower less goesOn (more + extra)
        refine ⟨final, ?_, returned⟩
        rw [← runs]
        congr 1
        omega

theorem start_going (routine : Routine Core.Cancelled α 0) :
    (start routine).Going (routine.meaning Fin.elim0) (16 * routine.effort Fin.elim0 + 8) := by
  let values : Nat → α := fun _ => routine.meaning Fin.elim0
  have only : ∀ {target body}, (start routine).bodies target = some body →
      target = .main ∧ body = ⟨0, routine, Fin.elim0⟩ := by
    intro target body found
    cases target with
    | main => exact ⟨rfl, (Option.some.inj found).symm⟩
    | task id => cases found
  have none : ∀ {body : Body α}, body = ⟨0, routine, Fin.elim0⟩ → Fin body.held → False := by
    rintro body rfl place
    exact place.elim0
  have same : (fun place => values (Fin.elim0 place)) = Fin.elim0 := funext fun place => place.elim0
  have notified : (start routine).executor.notified 0 = true := rfl
  have new : LocalExecutor.new.Sound := ⟨.nil, LocalExecutor.new_sound, LocalExecutor.new_recorded⟩
  refine ⟨values, .swap, ⟨?_, rfl, Nat.one_pos, rfl, nofun, nofun, notified⟩, ?_, ?_⟩
  · exact @LocalExecutor.stepUnnested_sound _ _ .blockOn new rfl
  · refine ⟨fun target body found => ?_, nofun, nofun, fun target body place found => ?_,
      fun id _ => ⟨rfl, rfl⟩, fun target body place found => ?_, fun target body found place => ?_,
      fun first second body other place there holds also same => ?_, fun target body found => ?_⟩
    · obtain ⟨rfl, rfl⟩ := only found
      exact .inl (.inl notified)
    · exact (none (only found).2 place).elim
    · exact (none (only found).2 place).elim
    · exact (none (only found).2 place).elim
    · exact (none (only holds).2 place).elim
    · obtain ⟨rfl, rfl⟩ := only found
      exact congrArg routine.meaning same
  · have effort : total values 1 (start routine).bodies = routine.effort Fin.elim0 := by
      simp [total, targets, bodies, Machine.start, Body.effort, same]
    have scheduled : (start routine).executor.scheduled = 1 := by
      simp [LocalExecutor.scheduled, Machine.start, LocalExecutor.blockOn, LocalExecutor.new]
    change 8 * (2 * total values 1 (start routine).bodies + (start routine).executor.scheduled + 0) + 0 ≤ _
    omega

end Machine

/-- Spawning and awaiting is calling: `block_on` returns what the routine comes to when every task is called
where it is spawned, and in a number of steps that is linear in what there is to do. -/
theorem blockOn_calls (routine : Routine Core.Cancelled α 0) (extra : Nat) :
    blockOn (16 * routine.effort Fin.elim0 + 9 + extra) routine = some (routine.meaning Fin.elim0) := by
  obtain ⟨final, runs, returned⟩ := (Machine.start_going routine).drive extra
  rw [blockOn, runs]
  exact returned

end TptAsync.Executor
