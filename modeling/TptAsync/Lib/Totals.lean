import Mathlib.Algebra.GroupWithZero.Nat
import Mathlib.Algebra.Order.BigOperators.Group.List
import Mathlib.Algebra.Order.Group.Nat

set_option autoImplicit false

/-!
# Totals

What the members of a list come to together, when each of them weighs some number.
-/

namespace TptAsync.Lib

variable {α : Type} {weigh : α → Nat} {members : List α}

def total (weigh : α → Nat) (members : List α) : Nat := (members.map weigh).sum

@[simp] theorem total_nil (weigh : α → Nat) : total weigh [] = 0 := rfl

@[simp] theorem total_cons (weigh : α → Nat) (member : α) (members : List α) :
    total weigh (member :: members) = weigh member + total weigh members := rfl

@[simp] theorem total_append (weigh : α → Nat) (members others : List α) :
    total weigh (members ++ others) = total weigh members + total weigh others := by
  simp [total]

@[simp] theorem total_replicate (weigh : α → Nat) (count : Nat) (member : α) :
    total weigh (List.replicate count member) = count * weigh member := by
  simp [total]

theorem total_add (weigh weigh' : α → Nat) (members : List α) :
    total (fun member => weigh member + weigh' member) members = total weigh members + total weigh' members := by
  induction members with
  | nil => rfl
  | cons member members ih =>
      rw [total_cons, total_cons, total_cons, ih]
      omega

theorem total_eq_zero (light : ∀ member ∈ members, weigh member = 0) : total weigh members = 0 := by
  refine List.sum_eq_zero fun weight listed => ?_
  obtain ⟨member, inside, rfl⟩ := List.mem_map.mp listed
  exact light member inside

/-- A member is replaced. -/
theorem total_set {place : Nat} {old : α} (found : members[place]? = some old) (new : α) :
    total weigh (members.set place new) + weigh old = total weigh members + weigh new := by
  induction members generalizing place with
  | nil => cases found
  | cons member members ih =>
      cases place with
      | zero =>
          cases found
          simp only [List.set_cons_zero, total_cons]
          omega
      | succ place =>
          have later := ih found
          simp only [List.set_cons_succ, total_cons]
          omega

theorem le_total {member : α} (inside : member ∈ members) : weigh member ≤ total weigh members :=
  List.le_sum_of_mem (List.mem_map_of_mem inside)

theorem exists_of_total_pos (positive : 0 < total weigh members) :
    ∃ (place : Nat) (member : α), members[place]? = some member ∧ 0 < weigh member := by
  by_contra! missing
  refine positive.ne' (total_eq_zero fun member inside => ?_)
  obtain ⟨place, found⟩ := List.getElem?_of_mem inside
  exact Nat.le_zero.mp (missing place member found)

end TptAsync.Lib
