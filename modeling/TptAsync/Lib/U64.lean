import Mathlib.Algebra.Order.Group.Nat
import Mathlib.Tactic.Linarith

set_option autoImplicit false

/-! Unsigned 64-bit arithmetic on natural numbers. -/

namespace TptAsync.Lib.U64

/-- The largest 64-bit value. -/
def max : Nat := 2 ^ 64 - 1

/-- Addition as a release build performs it; a build with overflow checks stops instead. -/
def wrappingAdd (left right : Nat) : Nat := (left + right) % 2 ^ 64

def saturatingAdd (left right : Nat) : Nat := min (left + right) max

def saturatingMul (left right : Nat) : Nat := min (left * right) max

def saturatingPow (base exponent : Nat) : Nat := min (base ^ exponent) max

/-- Decrement of a counter, `none` where it would pass below zero. -/
def checkedPred : Nat → Option Nat
  | 0 => none
  | value + 1 => some value

theorem wrappingAdd_eq {left right : Nat} (fits : left + right ≤ max) :
    wrappingAdd left right = left + right := by
  unfold max at fits
  exact Nat.mod_eq_of_lt (by omega)

theorem saturatingAdd_eq {left right : Nat} (fits : left + right ≤ max) :
    saturatingAdd left right = left + right :=
  min_eq_left fits

theorem saturatingMul_eq {left right : Nat} (fits : left * right ≤ max) :
    saturatingMul left right = left * right :=
  min_eq_left fits

theorem saturatingPow_eq {base exponent : Nat} (fits : base ^ exponent ≤ max) :
    saturatingPow base exponent = base ^ exponent :=
  min_eq_left fits

@[simp] theorem checkedPred_succ (value : Nat) : checkedPred (value + 1) = some value := rfl

/-- What a build does with a sum that does not fit: it panics, or drops the carry. -/
inductive Overflow where
  | panics
  | wraps

def Overflow.add (overflow : Overflow) (left right : Nat) : Option Nat :=
  match overflow with
  | .panics => if left + right ≤ max then some (left + right) else none
  | .wraps => some (wrappingAdd left right)

theorem Overflow.add_eq {overflow : Overflow} {left right : Nat} (fits : left + right ≤ max) :
    overflow.add left right = some (left + right) := by
  cases overflow with
  | panics => exact if_pos fits
  | wraps => exact congrArg some (wrappingAdd_eq fits)

theorem Overflow.add_le {overflow : Overflow} {left right sum : Nat}
    (found : overflow.add left right = some sum) : sum ≤ max := by
  cases overflow with
  | panics =>
      obtain ⟨fits, same⟩ := Option.ite_none_right_eq_some.mp found
      exact Option.some.inj same ▸ fits
  | wraps =>
      cases found
      exact Nat.le_pred_of_lt (Nat.mod_lt _ (by decide))

/-- Where a sum does not fit, no build finds it, and one that wraps ends up below both summands. -/
theorem Overflow.add_overflows {overflow : Overflow} {left right sum : Nat} (tooMuch : max < left + right)
    (leftFits : left ≤ max) (rightFits : right ≤ max) (found : overflow.add left right = some sum) :
    sum < left ∧ sum < right := by
  unfold max at tooMuch leftFits rightFits
  cases overflow with
  | panics =>
      have stops : Overflow.panics.add left right = none := if_neg (Nat.not_le.mpr tooMuch)
      cases stops.symm.trans found
  | wraps =>
      obtain rfl : wrappingAdd left right = sum := Option.some.inj found
      rw [wrappingAdd, show left + right = left + right - 2 ^ 64 + 2 ^ 64 by omega, Nat.add_mod_right,
        Nat.mod_eq_of_lt (by omega)]
      omega

end TptAsync.Lib.U64
