import Mathlib.Data.List.Infix

set_option autoImplicit false

/-! Searching a list for a pattern of consecutive elements. -/

namespace TptAsync.Lib

variable {α : Type}

/-- A prefix of two parts ends in the first, or goes on into the second. -/
theorem prefix_append_cases {part before after : List α} (initial : part <+: before ++ after) :
    part <+: before ∧ part.length < before.length ∨ ∃ rest, part = before ++ rest ∧ rest <+: after := by
  rcases Nat.lt_or_ge part.length before.length with short | long
  · exact .inl ⟨List.prefix_of_prefix_length_le initial (List.prefix_append _ _) short.le, short⟩
  · obtain ⟨rest, rfl⟩ := List.prefix_of_prefix_length_le (List.prefix_append _ _) initial long
    exact .inr ⟨rest, rfl, (List.prefix_append_right_inj before).mp initial⟩

variable [DecidableEq α]

/-- The first position at which `pattern` occurs. -/
def find (pattern : List α) : List α → Option Nat
  | [] => if pattern = [] then some 0 else none
  | head :: tail =>
      if pattern.isPrefixOf (head :: tail) then some 0 else (find pattern tail).map (· + 1)

/-- The last position at which `pattern` occurs. -/
def findLast (pattern : List α) : List α → Option Nat
  | [] => if pattern = [] then some 0 else none
  | head :: tail =>
      match findLast pattern tail with
      | some position => some (position + 1)
      | none => if pattern.isPrefixOf (head :: tail) then some 0 else none

variable {pattern list : List α}

theorem find_eq_zero (here : pattern <+: list) : find pattern list = some 0 := by
  cases list with
  | nil => simp [find, List.prefix_nil.mp here]
  | cons head tail => rw [find, if_pos (List.isPrefixOf_iff_prefix.mpr here)]

theorem find_cons_of_away {head : α} {tail : List α} (away : ¬ pattern <+: head :: tail) :
    find pattern (head :: tail) = (find pattern tail).map (· + 1) := by
  rw [find, if_neg (fun found => away (List.isPrefixOf_iff_prefix.mp found))]

theorem find_eq_some_iff {position : Nat} :
    find pattern list = some position ↔
      pattern <+: list.drop position ∧ position ≤ list.length ∧
        ∀ earlier < position, ¬ pattern <+: list.drop earlier := by
  induction list generalizing position with
  | nil =>
      simp only [find, List.drop_nil, List.prefix_nil, List.length_nil, Nat.le_zero]
      split
      · next empty =>
          rw [Option.some.injEq]
          constructor
          · rintro rfl
            exact ⟨empty, rfl, fun _ early => absurd early (Nat.not_lt_zero _)⟩
          · exact fun found => found.2.1.symm
      · next nonempty => simp [nonempty]
  | cons head tail ih =>
      by_cases here : pattern <+: head :: tail
      · rw [find_eq_zero here, Option.some.injEq]
        constructor
        · rintro rfl
          exact ⟨here, Nat.zero_le _, fun _ early => absurd early (Nat.not_lt_zero _)⟩
        · rintro ⟨_, _, first⟩
          by_contra later
          exact first 0 (by omega) here
      · rw [find_cons_of_away here]
        cases position with
        | zero => simp [here]
        | succ position =>
            simp only [Option.map_eq_some_iff, Nat.add_right_cancel_iff, exists_eq_right, ih,
              List.drop_succ_cons, List.length_cons, Nat.add_le_add_iff_right]
            refine and_congr_right fun _ => and_congr_right fun _ => ?_
            constructor
            · intro first earlier early
              cases earlier with
              | zero => exact here
              | succ earlier => exact first earlier (by omega)
            · exact fun first earlier early => first (earlier + 1) (by omega)

theorem find_isSome_iff : (find pattern list).isSome = true ↔ pattern <:+: list := by
  induction list with
  | nil =>
      rw [find, List.infix_nil]
      split <;> simp [*]
  | cons head tail ih =>
      rw [List.infix_cons_iff, ← ih]
      by_cases here : pattern <+: head :: tail
      · simp [find_eq_zero here, here]
      · simp [find_cons_of_away here, here]

theorem find_eq_none_iff : find pattern list = none ↔ ¬ pattern <:+: list := by
  rw [← find_isSome_iff, Option.not_isSome_iff_eq_none]

/-- What is found in a prefix is what is found in the whole. -/
theorem find_initial {whole : List α} {position : Nat} (initial : list <+: whole)
    (found : find pattern list = some position) : find pattern whole = some position := by
  obtain ⟨rest, rfl⟩ := initial
  obtain ⟨here, within, first⟩ := find_eq_some_iff.mp found
  refine find_eq_some_iff.mpr ⟨?_, ?_, ?_⟩
  · rw [List.drop_append_of_le_length within]
    exact here.trans (List.prefix_append _ _)
  · rw [List.length_append]
    omega
  · intro earlier early other
    refine first earlier early ?_
    rw [List.drop_append_of_le_length (by omega)] at other
    refine List.prefix_of_prefix_length_le other (List.prefix_append _ rest) ?_
    have fits := here.length_le
    rw [List.length_drop] at fits ⊢
    omega

theorem find_length_le {position : Nat} (found : find pattern list = some position) :
    position + pattern.length ≤ list.length := by
  obtain ⟨here, within, _⟩ := find_eq_some_iff.mp found
  have fits := here.length_le
  rw [List.length_drop] at fits
  omega

theorem find_front {position : Nat} (found : find pattern list = some position)
    (nonempty : pattern ≠ []) : ¬ pattern <:+: list.take position := by
  rintro ⟨before, after, shape⟩
  obtain ⟨_, within, first⟩ := find_eq_some_iff.mp found
  have lengths := congrArg List.length shape
  have positive := List.length_pos_of_ne_nil nonempty
  simp only [List.length_append, List.length_take_of_le within] at lengths
  refine first before.length (by omega) ?_
  rw [← List.take_append_drop position list, ← shape, List.append_assoc, List.append_assoc,
    List.drop_left]
  exact List.prefix_append _ _

/-- Elements other than the first of the pattern are skipped. -/
theorem find_append_of_not_mem {first : α} {rest before after : List α} (absent : first ∉ before) :
    find (first :: rest) (before ++ after) =
      (find (first :: rest) after).map (· + before.length) := by
  induction before with
  | nil => simp
  | cons head tail ih =>
      obtain ⟨distinct, absent⟩ := not_or.mp (List.mem_cons.not.mp absent)
      have away : ¬ first :: rest <+: head :: (tail ++ after) :=
        fun found => distinct (List.cons_prefix_cons.mp found).1
      rw [List.cons_append, find_cons_of_away away, ih absent, Option.map_map]
      rfl

theorem find_of_not_mem {first : α} {rest : List α} (absent : first ∉ list) :
    find (first :: rest) list = none := by
  have skipped := @find_append_of_not_mem _ _ _ rest _ [] absent
  rwa [List.append_nil, show find (first :: rest) [] = none from rfl] at skipped

theorem findLast_prefix {position : Nat} (found : findLast pattern list = some position) :
    pattern <+: list.drop position := by
  induction list generalizing position with
  | nil =>
      rw [findLast] at found
      split at found
      · next empty => rw [empty]; exact List.nil_prefix
      · cases found
  | cons head tail ih =>
      rw [findLast] at found
      split at found
      · next later last =>
          cases found
          exact ih last
      · split at found
        · next here =>
            cases found
            exact List.isPrefixOf_iff_prefix.mp here
        · cases found

theorem le_findLast {position : Nat} (here : pattern <+: list.drop position)
    (within : position ≤ list.length) :
    ∃ last, findLast pattern list = some last ∧ position ≤ last := by
  induction list generalizing position with
  | nil =>
      rw [List.drop_nil, List.prefix_nil] at here
      exact ⟨0, if_pos here, within⟩
  | cons head tail ih =>
      cases position with
      | succ position =>
          obtain ⟨last, found, later⟩ := ih here (Nat.le_of_succ_le_succ within)
          exact ⟨last + 1, by rw [findLast, found], Nat.succ_le_succ later⟩
      | zero =>
          rw [findLast]
          cases findLast pattern tail with
          | some last => exact ⟨last + 1, rfl, Nat.zero_le _⟩
          | none => exact ⟨0, if_pos (List.isPrefixOf_iff_prefix.mpr here), le_rfl⟩

end TptAsync.Lib
