set_option autoImplicit false

/-!
# Programs over shared memory

Code that reaches the memory it shares by accesses, each of them atomic. Between two
accesses of one program any other may make its own.
-/

namespace TptAsync.Lib

/-- A program whose accesses are of type `ι`, each answered in its own type. -/
inductive Program (ι : Type) (ρ : ι → Type) (β : Type) : Type
  | done (value : β)
  | access (what : ι) (next : ρ what → Program ι ρ β)

namespace Program

variable {ι σ β γ : Type} {ρ : ι → Type}

def bind : Program ι ρ β → (β → Program ι ρ γ) → Program ι ρ γ
  | done value, after => after value
  | access what next, after => access what fun answer => (next answer).bind after

instance : Monad (Program ι ρ) where
  pure := done
  bind := bind

def isDone : Program ι ρ β → Bool
  | done _ => true
  | access _ _ => false

/-- The access that a program makes next. -/
def next : Program ι ρ β → Option ι
  | done _ => none
  | access what _ => some what

/-- Make the next access. -/
def advance (effect : (what : ι) → σ → ρ what × σ) : Program ι ρ β → σ → Option (Program ι ρ β × σ)
  | done _, _ => none
  | access what rest, memory =>
      let (answer, memory) := effect what memory
      some (rest answer, memory)

/-- What a program comes to when no other makes an access meanwhile. -/
def alone (effect : (what : ι) → σ → ρ what × σ) : Program ι ρ β → σ → β × σ
  | done value, memory => (value, memory)
  | access what rest, memory =>
      let (answer, memory) := effect what memory
      (rest answer).alone effect memory

/-- How many accesses a program makes when each of them is answered so. -/
def remaining (answers : (what : ι) → ρ what) : Program ι ρ β → Nat
  | done _ => 0
  | access what rest => (rest (answers what)).remaining answers + 1

/-- Whatever it is answered, the program makes no other accesses than these. -/
def Only (allowed : ι → Prop) : Program ι ρ β → Prop
  | done _ => True
  | access what rest => allowed what ∧ ∀ answer, (rest answer).Only allowed

variable {allowed : ι → Prop} {effect : (what : ι) → σ → ρ what × σ}

theorem Only.advance {program rest : Program ι ρ β} {memory after : σ} (only : program.Only allowed)
    (advances : program.advance effect memory = some (rest, after)) :
    rest.Only allowed ∧ ∃ what, allowed what ∧ program.next = some what ∧ after = (effect what memory).2 := by
  cases program with
  | done value => cases advances
  | access what continues =>
      cases advances
      exact ⟨only.2 _, what, only.1, rfl, rfl⟩

theorem advance_next {program rest : Program ι ρ β} {memory after : σ}
    (advances : program.advance effect memory = some (rest, after)) :
    ∃ what, program.next = some what ∧ after = (effect what memory).2 := by
  cases program with
  | done value => cases advances
  | access what continues =>
      cases advances
      exact ⟨what, rfl, rfl⟩

theorem advance_of_not_done {program : Program ι ρ β} (going : program.isDone = false)
    (effect : (what : ι) → σ → ρ what × σ) (memory : σ) :
    ∃ rest after, program.advance effect memory = some (rest, after) := by
  cases program with
  | done value => cases going
  | access what continues => exact ⟨_, _, rfl⟩

theorem remaining_advance {answers : (what : ι) → ρ what} {program rest : Program ι ρ β} {memory after : σ}
    (answered : ∀ what, (effect what memory).1 = answers what)
    (advances : program.advance effect memory = some (rest, after)) :
    rest.remaining answers + 1 = program.remaining answers := by
  cases program with
  | done value => cases advances
  | access what continues =>
      cases advances
      rw [remaining, ← answered]

end Program

end TptAsync.Lib
