set_option autoImplicit false

/-!
# Asynchronous actions

An action over a state either finishes, fails, or waits for something that never comes.
Being polled while it waits is not visible to the code around an `await`.
-/

namespace TptAsync.Lib

inductive Outcome (ε α : Type) where
  | ready (value : α)
  | failed (error : ε)
  | pending
  deriving DecidableEq

def Async (ε σ α : Type) := σ → Outcome ε α × σ

namespace Async

variable {ε ε' σ τ α β : Type}

def bind (action : Async ε σ α) (next : α → Async ε σ β) : Async ε σ β := fun state =>
  match action state with
  | (.ready value, after) => next value after
  | (.failed error, after) => (.failed error, after)
  | (.pending, after) => (.pending, after)

instance : Monad (Async ε σ) where
  pure value state := (.ready value, state)
  bind := bind

def get : Async ε σ σ := fun state => (.ready state, state)

def set (state : σ) : Async ε σ Unit := fun _ => (.ready (), state)

def modify (update : σ → σ) : Async ε σ Unit := fun state => (.ready (), update state)

def fail (error : ε) : Async ε σ α := fun state => (.failed error, state)

def wait : Async ε σ α := fun state => (.pending, state)

/-- A result that is an error becomes a failure, as `?` does. -/
def ofExcept : Except ε α → Async ε σ α
  | .ok value => pure value
  | .error error => fail error

/-- A failure becomes a result. -/
def attempt (action : Async ε σ α) : Async ε σ (Except ε α) := fun state =>
  match action state with
  | (.ready value, after) => (.ready (.ok value), after)
  | (.failed error, after) => (.ready (.error error), after)
  | (.pending, after) => (.pending, after)

/-- What an action comes to, as a value. -/
def outcome {ε' : Type} (action : Async ε σ α) : Async ε' σ (Outcome ε α) := fun state =>
  let (result, after) := action state
  (.ready result, after)

def mapError {ε' : Type} (change : ε → ε') (action : Async ε σ α) : Async ε' σ α := fun state =>
  match action state with
  | (.ready value, after) => (.ready value, after)
  | (.failed error, after) => (.failed (change error), after)
  | (.pending, after) => (.pending, after)

/-- An action on a part of the state. -/
def zoom (part : σ → τ) (update : σ → τ → σ) (action : Async ε τ α) : Async ε σ α := fun state =>
  let (outcome, after) := action (part state)
  (outcome, update state after)

/-- The action finishes, with this value and this state. -/
def Runs (action : Async ε σ α) (before : σ) (value : α) (after : σ) : Prop :=
  action before = (.ready value, after)

variable {action : Async ε σ α} {before middle after : σ} {value : α}

theorem Runs.pure (state : σ) (value : α) : Runs (ε := ε) (Pure.pure value) state value state := rfl

theorem Runs.unique {other : α} {state : σ} (first : Runs action before value after)
    (second : Runs action before other state) : value = other ∧ after = state := by
  rw [Runs, first, Prod.mk.injEq, Outcome.ready.injEq] at second
  exact second

theorem Runs.bind_eq {next : α → Async ε σ β} (first : Runs action before value middle) :
    (action >>= next) before = next value middle := by
  change Async.bind action next before = _
  rw [Async.bind, first]

theorem Runs.bind {next : α → Async ε σ β} {result : β} (first : Runs action before value middle)
    (second : Runs (next value) middle result after) : Runs (action >>= next) before result after :=
  first.bind_eq.trans second

theorem Runs.ofExcept (state : σ) (value : α) :
    Runs (Async.ofExcept (Except.ok value : Except ε α)) state value state := rfl

theorem Runs.of_bind {next : α → Async ε σ β} {result : β}
    (runs : (action >>= next).Runs before result after) :
    ∃ value middle, action.Runs before value middle ∧ (next value).Runs middle result after := by
  change Async.bind action next before = _ at runs
  unfold Async.bind at runs
  cases ends : action before with
  | mk outcome middle =>
      rw [ends] at runs
      cases outcome with
      | ready value => exact ⟨value, middle, ends, runs⟩
      | failed error => cases runs
      | pending => cases runs

theorem Runs.of_ofExcept {result : Except ε α}
    (runs : (Async.ofExcept result).Runs before value after) :
    result = .ok value ∧ after = before := by
  cases result with
  | ok other => cases runs; exact ⟨rfl, rfl⟩
  | error error => cases runs

theorem Runs.modify (update : σ → σ) (state : σ) :
    Runs (ε := ε) (Async.modify update) state () (update state) := rfl

theorem Runs.set (before after : σ) : Runs (ε := ε) (Async.set after) before () after := rfl

theorem Runs.get (state : σ) : Runs (ε := ε) Async.get state state state := rfl

theorem Runs.attempt (runs : Runs action before value after) :
    Runs action.attempt before (.ok value) after := by
  rw [Runs, Async.attempt, runs]

theorem Runs.outcome {ε' : Type} {result : Outcome ε α} (ends : action before = (result, after)) :
    Runs (ε := ε') action.outcome before result after := by
  rw [Runs, Async.outcome, ends]

theorem Runs.attempt_failed {error : ε} (fails : action before = (.failed error, after)) :
    Runs action.attempt before (.error error) after := by
  rw [Runs, Async.attempt, fails]

theorem Runs.of_attempt_ok (runs : Runs action.attempt before (.ok value) after) :
    Runs action before value after := by
  unfold Runs Async.attempt at *
  cases ends : action before with
  | mk outcome state =>
      rw [ends] at runs
      cases outcome <;> cases runs
      rfl

theorem Runs.of_attempt_error {error : ε} (runs : Runs action.attempt before (.error error) after) :
    action before = (.failed error, after) := by
  unfold Runs Async.attempt at *
  cases ends : action before with
  | mk outcome state =>
      rw [ends] at runs
      cases outcome <;> cases runs
      rfl

theorem Runs.mapError {ε' : Type} {change : ε → ε'} (runs : Runs action before value after) :
    Runs (action.mapError change) before value after := by
  rw [Runs, Async.mapError, runs]

theorem Runs.of_mapError {ε' : Type} {change : ε → ε'}
    (runs : Runs (action.mapError change) before value after) : Runs action before value after := by
  unfold Runs Async.mapError at *
  cases ends : action before with
  | mk outcome state =>
      rw [ends] at runs
      cases outcome <;> cases runs
      rfl

theorem Runs.zoom {part : τ → σ} {update : τ → σ → τ} {state : τ}
    (runs : Runs action (part state) value after) :
    Runs (Async.zoom part update action) state value (update state after) := by
  rw [Runs, Async.zoom, runs]

theorem Runs.of_zoom {part : τ → σ} {update : τ → σ → τ} {state last : τ}
    (runs : (Async.zoom part update action).Runs state value last) :
    ∃ after, action.Runs (part state) value after ∧ last = update state after := by
  unfold Runs Async.zoom at runs
  cases ends : action (part state) with
  | mk outcome after =>
      rw [ends] at runs
      cases runs
      exact ⟨after, ends, rfl⟩

theorem bind_congr_first {other : Async ε σ α} {state : σ} {next : α → Async ε σ β}
    (same : action before = other state) : (action >>= next) before = (other >>= next) state := by
  change Async.bind action next before = Async.bind other next state
  rw [Async.bind, Async.bind, same]

theorem bind_pending {next : α → Async ε σ β} (waits : action before = (.pending, after)) :
    (action >>= next) before = (.pending, after) := by
  change Async.bind action next before = _
  rw [Async.bind, waits]

theorem bind_failed {next : α → Async ε σ β} {error : ε}
    (fails : action before = (.failed error, after)) :
    (action >>= next) before = (.failed error, after) := by
  change Async.bind action next before = _
  rw [Async.bind, fails]

/-- How two actions in a row end: as the second one does, or as the first one stops. -/
theorem bind_ends {next : α → Async ε σ β} {outcome : Outcome ε β}
    (ends : (action >>= next) before = (outcome, after)) :
    (∃ value middle, action.Runs before value middle ∧ next value middle = (outcome, after)) ∨
      action before = (.pending, after) ∧ outcome = .pending ∨
        ∃ error, action before = (.failed error, after) ∧ outcome = .failed error := by
  cases first : action before with
  | mk result middle =>
      cases result with
      | ready value => exact .inl ⟨value, middle, first, (Runs.bind_eq first).symm.trans ends⟩
      | pending =>
          cases (bind_pending first).symm.trans ends
          exact .inr (.inl ⟨rfl, rfl⟩)
      | failed error =>
          cases (bind_failed first).symm.trans ends
          exact .inr (.inr ⟨error, rfl, rfl⟩)

/-- What holds wherever the first of two actions stops, and wherever the second one does behind it. -/
theorem bind_leaves {next : α → Async ε σ β} {holds : σ → Prop} (first : holds (action before).2)
    (second : ∀ value middle, action.Runs before value middle → holds (next value middle).2) :
    holds ((action >>= next) before).2 := by
  cases ends : action before with
  | mk outcome after =>
      rw [ends] at first
      cases outcome with
      | ready value =>
          rw [Runs.bind_eq ends]
          exact second value after ends
      | pending =>
          rw [bind_pending ends]
          exact first
      | failed error =>
          rw [bind_failed ends]
          exact first

/-- What is only changed when it is there fails as before. -/
theorem bind_pure_fails_iff {change : α → β} {error : ε} :
    ((action >>= fun value => pure (change value)) before).1 = .failed error ↔
      (action before).1 = .failed error := by
  cases ends : action before with
  | mk outcome after =>
      cases outcome with
      | ready value =>
          rw [Runs.bind_eq ends]
          exact iff_of_false (by rintro ⟨⟩) (by rintro ⟨⟩)
      | pending =>
          rw [bind_pending ends]
          exact iff_of_false (by rintro ⟨⟩) (by rintro ⟨⟩)
      | failed failure =>
          rw [bind_failed ends]
          exact ⟨fun same => by cases same; rfl, fun same => by cases same; rfl⟩

/-- How an action ends whose errors are changed. -/
def endsWith {ε' : Type} (change : ε → ε') : Outcome ε α → Outcome ε' α
  | .ready value => .ready value
  | .failed error => .failed (change error)
  | .pending => .pending

theorem mapError_ends {ε' : Type} {change : ε → ε'} {outcome : Outcome ε α}
    (ends : action before = (outcome, after)) :
    action.mapError change before = (endsWith change outcome, after) := by
  rw [Async.mapError, ends]
  cases outcome <;> rfl

theorem mapError_pending {ε' : Type} {change : ε → ε'} :
    action.mapError change before = (.pending, after) ↔ action before = (.pending, after) := by
  unfold Async.mapError
  cases ends : action before with
  | mk outcome middle => cases outcome <;> simp

theorem attempt_pending : action.attempt before = (.pending, after) ↔ action before = (.pending, after) := by
  unfold Async.attempt
  cases ends : action before with
  | mk outcome middle => cases outcome <;> simp

theorem zoom_ends {part : τ → σ} {update : τ → σ → τ} {state last : τ} {outcome : Outcome ε α}
    (ends : Async.zoom part update action state = (outcome, last)) :
    ∃ after, action (part state) = (outcome, after) ∧ last = update state after := by
  cases ends
  exact ⟨_, rfl, rfl⟩

theorem bind_assoc {γ : Type} (action : Async ε σ α) (next : α → Async ε σ β) (last : β → Async ε σ γ) :
    action >>= next >>= last = action >>= fun value => next value >>= last := by
  funext state
  cases ends : action state with
  | mk outcome after =>
      cases outcome with
      | ready value =>
          rw [Runs.bind_eq ends]
          change Async.bind (Async.bind action next) last state = Async.bind (next value) last after
          unfold Async.bind
          rw [ends]
      | failed error => rw [bind_failed ends, bind_failed (bind_failed ends)]
      | pending => rw [bind_pending ends, bind_pending (bind_pending ends)]

section Keeps

variable {part : σ → β}

/-- The action leaves a part of the state as it is, however it ends. -/
def Keeps (action : Async ε σ α) (part : σ → β) : Prop := ∀ state, part (action state).2 = part state

theorem Keeps.of_runs (keeps : Keeps action part) (runs : Runs action before value after) :
    part after = part before := by
  have kept := keeps before
  rwa [runs] at kept

theorem Keeps.pure (value : α) : Keeps (ε := ε) (Pure.pure value) part := fun _ => rfl

theorem Keeps.fail (error : ε) : Keeps (α := α) (Async.fail error) part := fun _ => rfl

theorem Keeps.wait : Keeps (ε := ε) (α := α) Async.wait part := fun _ => rfl

theorem Keeps.get : Keeps (ε := ε) Async.get part := fun _ => rfl

theorem Keeps.modify {update : σ → σ} (same : ∀ state, part (update state) = part state) :
    Keeps (ε := ε) (Async.modify update) part := same

theorem Keeps.ofExcept (result : Except ε α) : Keeps (Async.ofExcept result) part := by
  cases result with
  | ok value => exact .pure value
  | error error => exact .fail error

theorem Keeps.bind {γ : Type} {next : α → Async ε σ γ} (first : Keeps action part)
    (second : ∀ value, Keeps (next value) part) : Keeps (action >>= next) part := by
  intro state
  have kept := first state
  cases ends : action state with
  | mk outcome after =>
      rw [ends] at kept
      cases outcome with
      | pending => rw [bind_pending ends, kept]
      | failed error => rw [bind_failed ends, kept]
      | ready value =>
          have runs : Runs action state value after := ends
          rw [runs.bind_eq, second value after, kept]

theorem Keeps.attempt (keeps : Keeps action part) : Keeps (ε := ε) action.attempt part := by
  intro state
  have kept := keeps state
  unfold Async.attempt
  cases ends : action state with
  | mk outcome after =>
      rw [ends] at kept
      cases outcome <;> exact kept

theorem Keeps.zoom {field : σ → τ} {update : σ → τ → σ} {inner : Async ε τ α}
    (same : ∀ state, part (update state (inner (field state)).2) = part state) :
    Keeps (Async.zoom field update inner) part := same

end Keeps

section Moves

variable {related stuck : σ → σ → Prop} {action : Async ε σ α}

/-- An action that ends leaves a state that is related to the one it was started in; one that
waits may leave it in another way. -/
def Moves (related stuck : σ → σ → Prop) (action : Async ε σ α) : Prop :=
  ∀ state, match action state with
    | (.ready _, after) => related state after
    | (.failed _, after) => related state after
    | (.pending, after) => stuck state after

/-- Nothing is said of an action that waits. -/
def Unknown (_before _after : σ) : Prop := True

instance : Std.Refl (Unknown (σ := σ)) := ⟨fun _ => trivial⟩

instance : Trans related Unknown Unknown := ⟨fun _ _ => trivial⟩

/-- What held before still holds. -/
def Under (holds : σ → Prop) (before after : σ) : Prop := holds before → holds after

instance {holds : σ → Prop} : Std.Refl (Under holds) := ⟨fun _ => id⟩

instance {holds : σ → Prop} : Trans (Under holds) (Under holds) (Under holds) :=
  ⟨fun first second held => second (first held)⟩

theorem Moves.modify {update : σ → σ} (step : ∀ state, related state (update state)) :
    Moves related stuck (Async.modify (ε := ε) update) := step

theorem Moves.of_runs (moves : Moves related stuck action) (runs : Runs action before value after) :
    related before after := by
  have moved := moves before
  rwa [runs] at moved

theorem Moves.mapError {change : ε → ε'} (moves : Moves related stuck action) :
    Moves related stuck (action.mapError change) := by
  intro state
  have moved := moves state
  unfold Async.mapError
  cases ends : action state with
  | mk outcome after =>
      rw [ends] at moved
      cases outcome <;> exact moved

theorem Moves.zoom {part : σ → τ} {update : σ → τ → σ} {inner : Async ε τ α}
    {within waiting : τ → τ → Prop} (moves : Moves within waiting inner)
    (lift : ∀ state after, within (part state) after → related state (update state after))
    (stay : ∀ state after, waiting (part state) after → stuck state (update state after)) :
    Moves related stuck (Async.zoom part update inner) := by
  intro state
  have moved := moves (part state)
  unfold Async.zoom
  cases ends : inner (part state) with
  | mk outcome after =>
      rw [ends] at moved
      cases outcome with
      | ready value => exact lift state after moved
      | failed error => exact lift state after moved
      | pending => exact stay state after moved

theorem Moves.wait [Std.Refl stuck] : Moves related stuck (Async.wait : Async ε σ α) :=
  fun state => Std.Refl.refl state

/-- What `Moves` says of an action in one state. -/
def MovesAt (related stuck : σ → σ → Prop) (action : Async ε σ α) (state : σ) : Prop :=
  match action state with
  | (.ready _, after) => related state after
  | (.failed _, after) => related state after
  | (.pending, after) => stuck state after

theorem MovesAt.bind [Trans related related related] [Trans related stuck stuck]
    {next : α → Async ε σ β} {state : σ} (first : MovesAt related stuck action state)
    (second : ∀ value middle, action.Runs state value middle →
      MovesAt related stuck (next value) middle) :
    MovesAt related stuck (action >>= next) state := by
  unfold MovesAt at first ⊢
  cases ends : action state with
  | mk outcome middle =>
      rw [ends] at first
      cases outcome with
      | failed error =>
          rw [bind_failed ends]
          exact first
      | pending =>
          rw [bind_pending ends]
          exact first
      | ready value =>
          have further := second value middle ends
          unfold MovesAt at further
          rw [Runs.bind_eq ends]
          cases goes : next value middle with
          | mk outcome after =>
              rw [goes] at further
              cases outcome with
              | ready value | failed error =>
                  exact (Trans.trans first further : related state after)
              | pending => exact (Trans.trans first further : stuck state after)

theorem Moves.imp {related' stuck' : σ → σ → Prop} (moves : Moves related stuck action)
    (ends : ∀ state after, related state after → related' state after)
    (waits : ∀ state after, stuck state after → stuck' state after) : Moves related' stuck' action := by
  intro state
  have moved := moves state
  cases goes : action state with
  | mk outcome after =>
      rw [goes] at moved
      cases outcome with
      | ready value | failed error => exact ends state after moved
      | pending => exact waits state after moved

/-- Ending and waiting need not be told apart. -/
theorem MovesAt.same_iff {state : σ} :
    MovesAt related related action state ↔ related state (action state).2 := by
  unfold MovesAt
  cases action state with
  | mk outcome after => cases outcome <;> exact Iff.rfl

theorem Moves.same_iff :
    Moves related related action ↔ ∀ state, related state (action state).2 :=
  forall_congr' fun _ => MovesAt.same_iff

theorem MovesAt.attempt {state : σ} (moves : MovesAt related stuck action state) :
    MovesAt related stuck (action.attempt (ε := ε)) state := by
  unfold MovesAt Async.attempt at *
  cases ends : action state with
  | mk outcome after =>
      rw [ends] at moves
      cases outcome <;> exact moves

theorem Moves.attempt (moves : Moves related stuck action) :
    Moves related stuck (action.attempt (ε := ε)) := fun state => MovesAt.attempt (moves state)

theorem Moves.outcome (moves : Moves related related action) :
    Moves (ε := ε') related related action.outcome := fun state => MovesAt.same_iff.mp (moves state)

theorem MovesAt.get_bind {next : σ → Async ε σ α} {state : σ}
    (step : MovesAt related stuck (next state) state) :
    MovesAt related stuck (Async.get >>= next) state := step

theorem Moves.bind [Trans related related related] [Trans related stuck stuck]
    {next : α → Async ε σ β} (first : Moves related stuck action)
    (second : ∀ value, Moves related stuck (next value)) :
    Moves related stuck (action >>= next) :=
  fun state => MovesAt.bind (first state) fun value middle _ => second value middle

variable [Std.Refl related]

theorem Moves.pure (value : α) : Moves related stuck (Pure.pure value : Async ε σ α) :=
  fun state => Std.Refl.refl state

theorem Moves.fail (error : ε) : Moves related stuck (Async.fail error : Async ε σ α) :=
  fun state => Std.Refl.refl state

theorem MovesAt.pure (value : α) (state : σ) :
    MovesAt related stuck (Pure.pure value : Async ε σ α) state := Std.Refl.refl state

theorem MovesAt.fail (error : ε) (state : σ) :
    MovesAt related stuck (Async.fail error : Async ε σ α) state := Std.Refl.refl state

theorem Moves.get : Moves related stuck (Async.get : Async ε σ σ) := fun state => Std.Refl.refl state

theorem Moves.ofExcept (result : Except ε α) : Moves related stuck (Async.ofExcept result) := by
  cases result with
  | ok value => exact .pure value
  | error error => exact .fail error

end Moves

section Agrees

variable {related : σ → τ → Prop} {left : Async ε σ α} {right : Async ε τ α} {first : σ} {second : τ}

/-- Two actions come to the same, and leave related states. -/
def Agrees (related : σ → τ → Prop) (left : Async ε σ α) (right : Async ε τ α) (first : σ)
    (second : τ) : Prop :=
  (left first).1 = (right second).1 ∧ related (left first).2 (right second).2

theorem Agrees.pure (value : α) (same : related first second) :
    Agrees (ε := ε) related (Pure.pure value) (Pure.pure value) first second := ⟨rfl, same⟩

theorem Agrees.fail (error : ε) (same : related first second) :
    Agrees (α := α) related (Async.fail error) (Async.fail error) first second := ⟨rfl, same⟩

theorem Agrees.wait (same : related first second) :
    Agrees (ε := ε) (α := α) related Async.wait Async.wait first second := ⟨rfl, same⟩

theorem Agrees.ofExcept (result : Except ε α) (same : related first second) :
    Agrees related (Async.ofExcept result) (Async.ofExcept result) first second := by
  cases result with
  | ok value => exact .pure value same
  | error error => exact .fail error same

theorem Agrees.set {after : σ} {after' : τ} (same : related after after') :
    Agrees (ε := ε) related (Async.set after) (Async.set after') first second := ⟨rfl, same⟩

theorem Agrees.modify {update : σ → σ} {update' : τ → τ}
    (same : related (update first) (update' second)) :
    Agrees (ε := ε) related (Async.modify update) (Async.modify update') first second := ⟨rfl, same⟩

theorem Agrees.bind {next : α → Async ε σ β} {next' : α → Async ε τ β}
    (starts : Agrees related left right first second)
    (goes : ∀ value first second, related first second →
      Agrees related (next value) (next' value) first second) :
    Agrees related (left >>= next) (right >>= next') first second := by
  obtain ⟨same, after⟩ := starts
  cases ends : left first with
  | mk outcome first' =>
      cases ends' : right second with
      | mk outcome' second' =>
          rw [ends, ends'] at same after
          cases same
          change Agrees related (Async.bind left next) (Async.bind right next') first second
          unfold Agrees Async.bind
          rw [ends, ends']
          cases outcome with
          | ready value => exact goes value first' second' after
          | failed error => exact ⟨rfl, after⟩
          | pending => exact ⟨rfl, after⟩

theorem Agrees.get_bind {next : σ → Async ε σ β} {next' : τ → Async ε τ β}
    (same : Agrees related (next first) (next' second) first second) :
    Agrees related (Async.get >>= next) (Async.get >>= next') first second := same

theorem Agrees.attempt (same : Agrees related left right first second) :
    Agrees (ε := ε) related left.attempt right.attempt first second := by
  obtain ⟨same, after⟩ := same
  cases ends : left first with
  | mk outcome first' =>
      cases ends' : right second with
      | mk outcome' second' =>
          rw [ends, ends'] at same after
          cases same
          unfold Agrees Async.attempt
          rw [ends, ends']
          cases outcome <;> exact ⟨rfl, after⟩

theorem Agrees.trans {alike : σ → σ → Prop} [Trans alike alike alike] {middle right : Async ε σ α}
    {between last : σ} (same : Agrees alike left middle first between)
    (further : Agrees alike middle right between last) : Agrees alike left right first last :=
  ⟨same.1.trans further.1, Trans.trans same.2 further.2⟩

theorem Agrees.of_runs {value : α} {first' : σ} (same : Agrees related left right first second)
    (runs : left.Runs first value first') :
    ∃ second', right.Runs second value second' ∧ related first' second' := by
  obtain ⟨outcome, after⟩ := same
  rw [runs] at outcome after
  exact ⟨_, Prod.ext outcome.symm rfl, after⟩

/-- Unless the first action waits, the second one comes to the same. -/
def Follows (related : σ → τ → Prop) (left : Async ε σ α) (right : Async ε τ α) (first : σ)
    (second : τ) : Prop :=
  (left first).1 ≠ .pending → Agrees related left right first second

theorem Agrees.follows (same : Agrees related left right first second) :
    Follows related left right first second := fun _ => same

theorem Follows.wait {right : Async ε τ α} :
    Follows related (Async.wait : Async ε σ α) right first second := fun ended => absurd rfl ended

theorem Follows.get_bind {next : σ → Async ε σ β} {next' : τ → Async ε τ β}
    (same : Follows related (next first) (next' second) first second) :
    Follows related (Async.get >>= next) (Async.get >>= next') first second := same

theorem Follows.zoom {σ' τ' : Type} {within : σ' → τ' → Prop} {inner : Async ε σ' α}
    {inner' : Async ε τ' α} {part : σ → σ'} {part' : τ → τ'} {update : σ → σ' → σ}
    {update' : τ → τ' → τ} (follows : Follows within inner inner' (part first) (part' second))
    (lift : ∀ after after', within after after' → related (update first after) (update' second after')) :
    Follows related (Async.zoom part update inner) (Async.zoom part' update' inner') first second := by
  intro ended
  obtain ⟨same, after⟩ := follows ended
  exact ⟨same, lift _ _ after⟩

theorem Follows.bind {next : α → Async ε σ β} {next' : α → Async ε τ β}
    (starts : Follows related left right first second)
    (goes : ∀ value first second, related first second →
      Follows related (next value) (next' value) first second) :
    Follows related (left >>= next) (right >>= next') first second := by
  intro ended
  cases ends : left first with
  | mk outcome first' =>
      cases outcome with
      | pending => exact absurd (congrArg Prod.fst (bind_pending ends)) ended
      | failed error =>
          obtain ⟨same, after⟩ := starts (by rw [ends]; intro waits; cases waits)
          rw [ends] at same after
          rw [Agrees, bind_failed ends, bind_failed (Prod.ext same.symm rfl)]
          exact ⟨rfl, after⟩
      | ready value =>
          have same := starts (by rw [ends]; intro waits; cases waits)
          obtain ⟨second', runs, after⟩ := same.of_runs ends
          rw [Runs.bind_eq ends] at ended
          rw [Agrees, Runs.bind_eq ends, runs.bind_eq]
          exact goes value first' second' after ended

theorem Follows.attempt (follows : Follows related left right first second) :
    Follows (ε := ε) related left.attempt right.attempt first second := by
  intro ended
  refine (follows fun waits => ended ?_).attempt
  unfold Async.attempt
  cases ends : left first with
  | mk outcome first' =>
      rw [ends] at waits
      cases waits
      rfl

end Agrees

end Async

end TptAsync.Lib
