import Mathlib.Data.Fin.Tuple.Basic
import Mathlib.Data.Finset.Card
import Mathlib.Logic.Equiv.Defs

set_option autoImplicit false

/-!
# Routines

Routines that start others and wait for what these come to. A routine holds a handle for each that
it may still wait for. A handle is never copied: it is given away, or used up by waiting.
-/

namespace TptAsync.Lib

/-- A routine that holds so many handles. What it waits for may fail with an `ε`. -/
inductive Routine (ε α : Type) : Nat → Type
  | done {held : Nat} (value : α) : Routine ε α held
  /-- Let the others run. -/
  | giveWay {held : Nat} (next : Routine ε α held) : Routine ε α held
  /-- Start another routine with some of the handles, and hold one for it. -/
  | start {held given kept : Nat} (split : Fin held ≃ Fin given ⊕ Fin kept)
      (other : Routine ε α given) (next : Routine ε α (kept + 1)) : Routine ε α held
  | join {held : Nat} (which : Fin (held + 1)) (next : Except ε α → Routine ε α held) :
      Routine ε α (held + 1)

namespace Routine

variable {ε α : Type}

/-- What a routine comes to if every other one is called where it is started, given what the
routines come to whose handles it holds. -/
def meaning : {held : Nat} → Routine ε α held → (Fin held → α) → α
  | _, done value, _ => value
  | _, giveWay next, known => next.meaning known
  | _, start split other next, known =>
      next.meaning (Fin.cons (other.meaning fun place => known (split.symm (.inl place)))
        fun place => known (split.symm (.inr place)))
  | _, join which next, known =>
      (next (.ok (known which))).meaning fun place => known (which.succAbove place)

/-- How much a routine does, all that it starts included. -/
def effort : {held : Nat} → Routine ε α held → (Fin held → α) → Nat
  | _, done _, _ => 1
  | _, giveWay next, known => next.effort known + 1
  | _, start split other next, known =>
      (other.effort fun place => known (split.symm (.inl place))) +
        (next.effort (Fin.cons (other.meaning fun place => known (split.symm (.inl place)))
          fun place => known (split.symm (.inr place)))) + 1
  | _, join which next, known =>
      ((next (.ok (known which))).effort fun place => known (which.succAbove place)) + 1

end Routine

/-- Of some that wait for different ones, and that are more than these, one waits for none of them. -/
theorem exists_waits_outside {ι κ : Type} {waiters : Finset ι} {awaited : Finset κ} {waits : ι → κ}
    (more : awaited.card < waiters.card)
    (different : ∀ first ∈ waiters, ∀ second ∈ waiters, waits first = waits second → first = second) :
    ∃ waiter ∈ waiters, waits waiter ∉ awaited := by
  by_contra all
  push Not at all
  obtain ⟨first, member, second, other, apart, same⟩ :=
    Finset.exists_ne_map_eq_of_card_lt_of_maps_to more all
  exact apart (different first member second other same)

end TptAsync.Lib
