import TptAsync.Http.Http2

set_option autoImplicit false

/-!
# What an HTTP/2 handler is given

The loop that reads a body leaves it the same way at its end and at an error, so the handler is
called for every stream.
-/

namespace TptAsync.Http

open Lib

variable {σ : Type} {handle : H2Request → σ → ResponseData × σ} {state next : ServeH2 σ} {index : Nat}
  {task : H2Task}

/-- The request that is made of a stream, however it ends. -/
def H2Stream.presented (stream : H2Stream) : H2Request where
  method := stream.method
  target := stream.path
  headers := stream.ownedHeaders
  body := stream.chunks.flatten

theorem H2Stream.pathAndQuery_eq_iff (stream : H2Stream) :
    stream.path = stream.pathAndQuery ↔ stream.query = none := by
  unfold pathAndQuery
  cases stream.query with
  | none => exact iff_of_true rfl rfl
  | some query =>
      refine iff_of_false (fun same : stream.path = stream.path ++ ascii "?" ++ query => ?_) (by simp)
      have longer := congrArg List.length same
      rw [List.append_assoc, List.length_append, List.length_append, show (ascii "?").length = 1 from rfl]
        at longer
      omega

/-- What is presented of a stream is what should be exactly when the stream ends cleanly and has no
query. -/
theorem H2Stream.presented_iff (stream : H2Stream) :
    [stream.presented] = stream.expected ↔ stream.ending = .clean ∧ stream.query = none := by
  unfold expected
  cases stream.ending with
  | clean => simp [presented, stream.pathAndQuery_eq_iff]
  | failed => simp

/-- The handler has been called for the task. -/
def H2Task.Called (task : H2Task) : Prop :=
  match task.phase with
  | .reading _ _ | .locking _ => False
  | .handling _ | .responding _ | .done => True

/-- How far a task is, and what it has called. -/
def H2Task.Presents (task : H2Task) (calls : List H2Request) : Prop :=
  match task.phase with
  | .reading rest bodyBytes =>
      bodyBytes ++ rest.flatten = task.stream.chunks.flatten ∧ calls = []
  | .locking request => request = task.stream.presented ∧ calls = []
  | .handling _ | .responding _ | .done => calls = [task.stream.presented]

/-- The task makes its requests of the stream it was spawned for. -/
structure H2Task.Faithful (task : H2Task) (calls : List H2Request) : Prop where
  target : task.target = task.stream.path
  headers : task.headers = task.stream.ownedHeaders
  presents : task.Presents calls

theorem H2Task.request_eq {calls : List H2Request} (faithful : task.Faithful calls) {bodyBytes : Bytes}
    (whole : bodyBytes = task.stream.chunks.flatten) : task.request bodyBytes = task.stream.presented := by
  rw [H2Task.request, faithful.target, faithful.headers, whole]
  rfl

namespace ServeH2

/-- Every task is faithful, no other has called, and the one that handles a request holds the lock. -/
structure Orderly (state : ServeH2 σ) : Prop where
  faithful : ∀ (index : Nat) (task : H2Task), state.tasks[index]? = some task →
    task.Faithful (state.callsOf index)
  fresh : ∀ index, state.tasks.length ≤ index → state.callsOf index = []
  holds : ∀ index, state.locked = some index →
    ∃ task request, state.tasks[index]? = some task ∧ task.phase = .handling request

theorem initial_orderly (handler : σ) : Orderly (initial handler) where
  faithful index task found := by simp [initial] at found
  fresh _ _ := rfl
  holds index locked := by cases locked

theorem callsOf_append {tasks : List H2Task} {handler : σ} {locked : Option Nat} {accepting : Bool}
    {sent : List (Nat × ResponseData)} (calls : List (Nat × H2Request)) (request : H2Request) (other : Nat) :
    callsOf ⟨accepting, tasks, handler, locked, calls ++ [(index, request)], sent⟩ other =
      callsOf ⟨accepting, tasks, handler, locked, calls, sent⟩ other ++
        if other = index then [request] else [] := by
  simp only [callsOf, List.filter_append, List.map_append]
  by_cases same : other = index
  · simp [same]
  · simp [same, Ne.symm same]

/-- One task goes on, and the others stay as they are. -/
theorem Orderly.set {task' : H2Task} (orderly : Orderly state) (found : state.tasks[index]? = some task)
    (tasks : next.tasks = state.tasks.set index task')
    (others : ∀ other, other ≠ index → next.callsOf other = state.callsOf other)
    (faithful : task'.Faithful (next.callsOf index))
    (holds : ∀ holder, next.locked = some holder →
      holder = index ∧ (∃ request, task'.phase = .handling request) ∨
        holder ≠ index ∧ state.locked = some holder) : Orderly next := by
  have within : index < state.tasks.length := (List.getElem?_eq_some_iff.mp found).1
  constructor
  case faithful =>
    intro other task there
    rw [tasks, List.getElem?_set] at there
    by_cases same : index = other
    · rw [if_pos same, if_pos within] at there
      cases there
      exact same ▸ faithful
    · rw [if_neg same] at there
      rw [others other (Ne.symm same)]
      exact orderly.faithful other task there
  case fresh =>
    intro other beyond
    rw [tasks, List.length_set] at beyond
    rw [others other (by omega)]
    exact orderly.fresh other beyond
  case holds =>
    intro holder locked
    rw [tasks]
    rcases holds holder locked with ⟨rfl, request, phase⟩ | ⟨distinct, before⟩
    · exact ⟨task', request, by rw [List.getElem?_set_self within], phase⟩
    · obtain ⟨task, request, there, phase⟩ := orderly.holds holder before
      exact ⟨task, request, by rw [List.getElem?_set_ne (Ne.symm distinct)]; exact there, phase⟩

/-- A task that does not handle a request does not hold the lock. -/
theorem Orderly.locked_ne (orderly : Orderly state) (found : state.tasks[index]? = some task)
    (elsewhere : ∀ request, task.phase ≠ .handling request) {holder : Nat}
    (locked : state.locked = some holder) : holder ≠ index := by
  rintro rfl
  obtain ⟨task', request, there, phase⟩ := orderly.holds holder locked
  cases found.symm.trans there
  exact elsewhere request phase

theorem Orderly.turn (orderly : Orderly state) (found : state.tasks[index]? = some task)
    (turned : state.turn handle index task = some next) : Orderly next := by
  obtain ⟨target, headers, presents⟩ := orderly.faithful index task found
  have faithful := orderly.faithful index task found
  cases phase : task.phase with
  | reading rest bodyBytes =>
      have unlocked : ∀ holder, state.locked = some holder → holder ≠ index := fun holder =>
        orderly.locked_ne found (by simp [phase])
      simp only [H2Task.Presents, phase] at presents
      obtain ⟨whole, none⟩ := presents
      simp only [ServeH2.turn, phase] at turned
      cases rest with
      | cons chunk rest =>
          simp only [nextData, Option.some.injEq] at turned
          subst turned
          refine orderly.set found rfl (fun _ _ => rfl) ⟨target, headers, ?_, none⟩
            fun holder locked => .inr ⟨unlocked holder locked, locked⟩
          rw [← whole, List.flatten_cons, List.append_assoc]
          rfl
      | nil =>
          have made : task.request bodyBytes = task.stream.presented :=
            H2Task.request_eq faithful (by simpa using whole)
          have reads : next = state.setTask index
              { task with phase := .locking (task.request bodyBytes) } := by
            cases ending : task.stream.ending <;> simpa [nextData, ending] using turned.symm
          subst reads
          exact orderly.set found rfl (fun _ _ => rfl) ⟨target, headers, made, none⟩
            fun holder locked => .inr ⟨unlocked holder locked, locked⟩
  | locking request =>
      simp only [H2Task.Presents, phase] at presents
      obtain ⟨rfl, none⟩ := presents
      simp only [ServeH2.turn, phase] at turned
      split at turned
      · cases turned
        refine orderly.set found rfl (fun other distinct => ?_) ⟨target, headers, ?_⟩ ?_
        · exact (callsOf_append _ _ _).trans (by simp [distinct, callsOf])
        · exact (callsOf_append _ _ _).trans (by simpa [callsOf, setTask] using none)
        · rintro _ ⟨⟩
          exact .inl ⟨rfl, _, rfl⟩
      · cases turned
  | handling request =>
      simp only [H2Task.Presents, phase] at presents
      simp only [ServeH2.turn, phase, Option.some.injEq] at turned
      subst turned
      exact orderly.set found rfl (fun _ _ => rfl) ⟨target, headers, presents⟩ (by simp)
  | responding response => simp [ServeH2.turn, phase] at turned
  | done => simp [ServeH2.turn, phase] at turned

theorem Orderly.accept (orderly : Orderly state) (stream : H2Stream) :
    Orderly { state with tasks := state.tasks ++ [.spawn stream] } := by
  constructor
  case faithful =>
    intro index task found
    rcases Nat.lt_or_ge index state.tasks.length with old | new
    · rw [List.getElem?_append_left old] at found
      exact orderly.faithful index task found
    · have fresh := orderly.fresh index new
      rw [List.getElem?_append_right new] at found
      obtain ⟨_, rfl⟩ := List.getElem?_eq_some_iff.mp found
      have last : index - state.tasks.length = 0 := by simpa using (List.getElem?_eq_some_iff.mp found).1
      simp only [last, List.getElem_cons_zero]
      exact ⟨rfl, rfl, rfl, fresh⟩
  case fresh =>
    intro index beyond
    rw [List.length_append] at beyond
    exact orderly.fresh index (by omega)
  case holds =>
    intro holder locked
    obtain ⟨task, request, found, phase⟩ := orderly.holds holder locked
    refine ⟨task, request, ?_, phase⟩
    rw [List.getElem?_append_left (List.getElem?_eq_some_iff.mp found).1]
    exact found

theorem Orderly.step {event : H2Event} (orderly : Orderly state)
    (stepped : state.step handle event = some next) : Orderly next := by
  cases event with
  | accept stream =>
      rw [ServeH2.step] at stepped
      split at stepped
      · cases stepped
        exact orderly.accept stream
      · cases stepped
  | close =>
      rw [ServeH2.step] at stepped
      split at stepped
      · cases stepped
        exact ⟨orderly.faithful, orderly.fresh, orderly.holds⟩
      · cases stepped
  | turn index =>
      obtain ⟨task, found, turned⟩ := Option.bind_eq_some_iff.mp stepped
      exact orderly.turn found turned
  | respond index takes =>
      obtain ⟨task, found, responded⟩ := Option.bind_eq_some_iff.mp stepped
      split at responded
      · next response phase =>
          cases responded
          obtain ⟨target, headers, presents⟩ := orderly.faithful index task found
          simp only [H2Task.Presents, phase] at presents
          refine orderly.set found rfl (fun _ _ => rfl) ⟨target, headers, presents⟩ fun holder locked =>
            .inr ⟨orderly.locked_ne found (by simp [phase]) locked, locked⟩
      · cases responded

/-- A task that is not done can go on, or waits for another one that can. -/
theorem Orderly.goes_on (orderly : Orderly state) (found : state.tasks[index]? = some task)
    (unfinished : task.phase ≠ .done) :
    (state.step handle (.turn index)).isSome ∨ (state.step handle (.respond index true)).isSome ∨
      ∃ holder, holder ≠ index ∧ (state.step handle (.turn holder)).isSome := by
  cases phase : task.phase with
  | reading rest bodyBytes =>
      refine .inl ?_
      simp only [ServeH2.step, found, Option.bind_eq_bind, Option.bind_some, ServeH2.turn, phase]
      cases nextData rest task.stream.ending with
      | none => rfl
      | some data => cases data <;> rfl
  | locking request =>
      cases locked : state.locked with
      | none =>
          refine .inl ?_
          simp [ServeH2.step, found, ServeH2.turn, phase, locked]
      | some holder =>
          obtain ⟨other, request, there, handles⟩ := orderly.holds holder locked
          refine .inr (.inr ⟨holder, orderly.locked_ne found (by simp [phase]) locked, ?_⟩)
          simp [ServeH2.step, there, ServeH2.turn, handles]
  | handling request =>
      refine .inl ?_
      simp [ServeH2.step, found, ServeH2.turn, phase]
  | responding response =>
      refine .inr (.inl ?_)
      simp [ServeH2.step, found, phase]
  | done => exact absurd phase unfinished

/-- In every state that is reached, a task that has not come to the handler has not called it, and
one that has is as it should be exactly when its stream ended cleanly and had no query. -/
theorem callsOf_iff (handle : H2Request → σ → ResponseData × σ) (handler : σ) (state : ServeH2 σ)
    (reachable : Reachable (step handle) (initial handler) state) (index : Nat) (task : H2Task)
    (found : state.tasks[index]? = some task) :
    (¬ task.Called → state.callsOf index = []) ∧
    (task.Called → (state.callsOf index = task.stream.expected ↔
      task.stream.ending = .clean ∧ task.stream.query = none)) ∧
    (task.phase ≠ .done →
      (state.step handle (.turn index)).isSome ∨ (state.step handle (.respond index true)).isSome ∨
        ∃ holder, holder ≠ index ∧ (state.step handle (.turn holder)).isSome) := by
  have orderly : Orderly state :=
    reachable.invariant (fun orderly stepped => orderly.step stepped) (initial_orderly handler)
  have presents := (orderly.faithful index task found).presents
  refine ⟨fun before => ?_, fun called => ?_, orderly.goes_on found⟩
  · cases phase : task.phase <;> simp only [H2Task.Called, H2Task.Presents, phase] at before presents
    · exact presents.2
    · exact presents.2
    · exact absurd trivial before
    · exact absurd trivial before
    · exact absurd trivial before
  · rw [← task.stream.presented_iff]
    have calls : state.callsOf index = [task.stream.presented] := by
      cases phase : task.phase <;> simp only [H2Task.Called, H2Task.Presents, phase] at called presents
      · exact presents
      · exact presents
      · exact presents
    rw [calls]

/-- An upload that ends cleanly. -/
theorem callsOf_iff_clean : ∃ state : ServeH2 Unit,
    run (step fun _ handler => (⟨200, [], [], by decide⟩, handler))
      [.accept ⟨ascii "POST", ascii "/upload", none, [], [ascii "ab", ascii "c"], .clean⟩, .turn 0, .turn 0,
        .turn 0, .turn 0] (initial ()) = some state ∧
    state.callsOf 0 = [⟨ascii "POST", ascii "/upload", [], ascii "abc"⟩] := by
  obtain ⟨state, task, ran, found, called, stream⟩ : ∃ (state : ServeH2 Unit) (task : H2Task),
      run (step fun _ handler => (⟨200, [], [], by decide⟩, handler))
        [.accept ⟨ascii "POST", ascii "/upload", none, [], [ascii "ab", ascii "c"], .clean⟩, .turn 0, .turn 0,
          .turn 0, .turn 0] (initial ()) = some state ∧
      state.tasks[0]? = some task ∧ task.Called ∧
      task.stream = ⟨ascii "POST", ascii "/upload", none, [], [ascii "ab", ascii "c"], .clean⟩ :=
    ⟨_, _, rfl, rfl, by exact trivial, rfl⟩
  refine ⟨state, ran, ?_⟩
  have exact := (callsOf_iff _ _ state ⟨_, ran⟩ 0 task found).2.1 called
  rw [stream] at exact
  exact exact.mpr ⟨rfl, rfl⟩

/-- An upload that is reset behind its first bytes is handled as a whole one, and a query is lost. -/
theorem handles_truncated : ∃ state : ServeH2 Unit,
    run (step fun _ handler => (⟨200, [], [], by decide⟩, handler))
      [.accept ⟨ascii "POST", ascii "/upload", none, [], [ascii "ab"], .failed⟩,
        .accept ⟨ascii "GET", ascii "/search", some (ascii "q=1"), [], [], .clean⟩,
        .turn 0, .turn 0, .turn 0, .turn 0, .turn 1, .turn 1] (initial ()) = some state ∧
    state.callsOf 0 = [⟨ascii "POST", ascii "/upload", [], ascii "ab"⟩] ∧
    state.callsOf 1 = [⟨ascii "GET", ascii "/search", [], []⟩] :=
  ⟨_, rfl, by decide, by decide⟩

end ServeH2

end TptAsync.Http
