import TptAsync.Lib.Async

set_option autoImplicit false

/-!
# Loops of asynchronous actions

A loop goes round until its body comes to a value. It need not end: a number of rounds that does
not suffice gives nothing.
-/

namespace TptAsync.Lib

variable {ε σ α β : Type}

def Outcome.map (change : α → β) : Outcome ε α → Outcome ε β
  | .ready value => .ready (change value)
  | .failed error => .failed error
  | .pending => .pending

namespace Async

def loop (body : Async ε σ (Option α)) : Nat → σ → Option (Outcome ε α × σ)
  | 0, _ => none
  | rounds + 1, state =>
      match body state with
      | (.ready none, after) => loop body rounds after
      | (.ready (some value), after) => some (.ready value, after)
      | (.failed error, after) => some (.failed error, after)
      | (.pending, after) => some (.pending, after)

/-- Poll again and again, until the poll is not pending. -/
def await (action : Async ε σ α) : Nat → Async ε σ α
  | 0 => wait
  | polls + 1 => fun state =>
      match action state with
      | (.pending, after) => await action polls after
      | ended => ended

/-- The states that a loop starts a round in. -/
inductive Rounds (body : Async ε σ (Option α)) (start : σ) : σ → Prop
  | start : Rounds body start start
  | again {state next : σ} (before : Rounds body start state) (goes : body.Runs state none next) :
      Rounds body start next

variable {body : Async ε σ (Option α)} {action : Async ε σ α}

theorem Rounds.invariant (holds : σ → Prop) {start state : σ}
    (kept : ∀ {state next}, holds state → body.Runs state none next → holds next)
    (rounds : Rounds body start state) (starts : holds start) : holds state := by
  induction rounds with
  | start => exact starts
  | again before goes ih => exact kept ih goes

theorem Rounds.cons {start middle state : σ} (goes : body.Runs start none middle)
    (rounds : Rounds body middle state) : Rounds body start state := by
  induction rounds with
  | start => exact .again .start goes
  | again before further ih => exact .again ih further

/-- A loop ends as one of its rounds does. -/
theorem loop_ends {count : Nat} {start after : σ} {outcome : Outcome ε α}
    (ends : loop body count start = some (outcome, after)) :
    ∃ state, Rounds body start state ∧ body state = (outcome.map some, after) := by
  induction count generalizing start with
  | zero => cases ends
  | succ count ih =>
      rw [loop] at ends
      split at ends
      · next goes =>
          obtain ⟨state, rounds, last⟩ := ih ends
          exact ⟨state, rounds.cons goes, last⟩
      · next last =>
          cases ends
          exact ⟨start, .start, last⟩
      · next last =>
          cases ends
          exact ⟨start, .start, last⟩
      · next last =>
          cases ends
          exact ⟨start, .start, last⟩

theorem Rounds.ends {start state after : σ} {outcome : Outcome ε α} (rounds : Rounds body start state)
    (last : body state = (outcome.map some, after)) :
    ∃ count, loop body count start = some (outcome, after) := by
  suffices enough : ∀ count, loop body count state = some (outcome, after) →
      ∃ more, loop body more start = some (outcome, after) by
    refine enough 1 ?_
    rw [loop, last]
    cases outcome <;> rfl
  clear last
  induction rounds with
  | start => exact fun count ends => ⟨count, ends⟩
  | again before goes ih =>
      intro count ends
      refine ih (count + 1) ?_
      rw [loop, goes]
      exact ends

theorem await_ends (holds : σ → Prop) {polls : Nat} {start after : σ} {value : α}
    (runs : (await action polls).Runs start value after)
    (waits : ∀ {state next}, holds state → action state = (.pending, next) → holds next)
    (starts : holds start) : ∃ state, holds state ∧ action.Runs state value after := by
  induction polls generalizing start with
  | zero => cases runs
  | succ polls ih =>
      cases goes : action start with
      | mk outcome next =>
          simp only [Runs, await, goes] at runs
          cases outcome with
          | pending => exact ih runs (waits starts goes)
          | ready other => exact ⟨start, starts, goes.trans runs⟩
          | failed error => cases runs

/-- What a poll of a loop comes to, if it comes to an end. -/
def Ends (body : Async ε σ (Option α)) (start : σ) (outcome : Outcome ε α) (after : σ) : Prop :=
  ∃ count, loop body count start = some (outcome, after)

/-- The states that a loop is polled in: behind polls that waited, and whatever happened meanwhile. -/
inductive Repolled (body : Async ε σ (Option α)) (meanwhile : σ → σ → Prop) (start : σ) : σ → Prop
  | start : Repolled body meanwhile start start
  | waited {state next : σ} (before : Repolled body meanwhile start state)
      (waits : Ends body state .pending next) : Repolled body meanwhile start next
  | changed {state next : σ} (before : Repolled body meanwhile start state)
      (changes : meanwhile state next) : Repolled body meanwhile start next

section Invariant

variable (holds : σ → Prop) (kept : ∀ {state}, holds state → holds (body state).2)
include kept

/-- A poll ends in a round that starts in a state in which the invariant holds. -/
theorem Ends.last {start after : σ} {outcome : Outcome ε α} (ends : Ends body start outcome after)
    (starts : holds start) : ∃ state, holds state ∧ body state = (outcome.map some, after) := by
  obtain ⟨count, ends⟩ := ends
  obtain ⟨state, rounds, last⟩ := loop_ends ends
  refine ⟨state, rounds.invariant holds (fun held goes => ?_) starts, last⟩
  have next := kept held
  rwa [goes] at next

theorem Repolled.invariant {meanwhile : σ → σ → Prop} {start state : σ}
    (changes : ∀ {state next}, holds state → meanwhile state next → holds next)
    (repolled : Repolled body meanwhile start state) (starts : holds start) : holds state := by
  induction repolled with
  | start => exact starts
  | waited before waits ih =>
      obtain ⟨last, held, round⟩ := waits.last holds kept ih
      have next := kept held
      rwa [round] at next
  | changed before change ih => exact changes ih change

end Invariant

end Async

end TptAsync.Lib
