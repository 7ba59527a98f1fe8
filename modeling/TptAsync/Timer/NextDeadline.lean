import TptAsync.Timer.SharedProperties

set_option autoImplicit false

/-!
# The next deadline

`next_deadline` looks at the first entry of every slot only. It reports the least
registered deadline exactly when some entry with that deadline is the first of its slot.
-/

namespace TptAsync.Timer

open Lib Lib.IntrusiveList

section Least

variable {Item : Type} {best : Option Nat} {seen : Nat → Prop}

/-- The least value of a set, if it has one. -/
def Least (best : Option Nat) (seen : Nat → Prop) : Prop :=
  match best with
  | none => ∀ value, ¬ seen value
  | some least => seen least ∧ ∀ value, seen value → least ≤ value

theorem Least.congr {other : Nat → Prop} (least : Least best seen)
    (same : ∀ value, seen value ↔ other value) : Least best other := by
  rwa [← show seen = other from funext fun value => propext (same value)]

/-- A loop that keeps the least of what it has seen finds the least of all. -/
theorem Least.foldl {visit : Option Nat → Item → Option Nat} {value : Item → Nat → Prop}
    (steps : ∀ {best seen} item, Least best seen →
      Least (visit best item) fun found => seen found ∨ value item found)
    (items : List Item) (least : Least best seen) :
    Least (items.foldl visit best) fun found => seen found ∨ ∃ item ∈ items, value item found := by
  induction items generalizing best seen with
  | nil => exact least.congr fun found => by simp
  | cons item rest ih =>
      refine (ih (steps item least)).congr fun found => ?_
      simp [or_assoc]

end Least

variable {Waker Output : Type} {shape : Shape} {wheel : TimerWheel Waker}

/-- The deadlines of the first entries of the slots. -/
def TimerWheel.FirstDeadline (wheel : TimerWheel Waker) (deadline : Nat) : Prop :=
  ∃ head first, wheel.heads head = some first ∧ (wheel.entries first).deadline = deadline

/-- The deadlines of all registered entries. -/
def TimerWheel.Deadline (wheel : TimerWheel Waker) (deadline : Nat) : Prop :=
  ∃ entry, wheel.Linked entry ∧ (wheel.entries entry).deadline = deadline

theorem TimerWheel.FirstDeadline.registered {deadline : Nat}
    (first : wheel.FirstDeadline deadline) : wheel.Deadline deadline := by
  obtain ⟨head, entry, heads, rfl⟩ := first
  exact ⟨entry, ⟨head, 0, heads⟩, rfl⟩

/-- One round of the inner loop of `next_deadline`. -/
def TimerWheel.visitSlot (wheel : TimerWheel Waker) (best : Option Nat) (head : SlotHead) :
    Option Nat :=
  match wheel.heads head with
  | none => best
  | some entry =>
      let deadline := (wheel.entries entry).deadline
      match best with
      | some found => if found ≤ deadline then some found else some deadline
      | none => some deadline

section Loops

variable {best : Option Nat} {seen : Nat → Prop}

theorem TimerWheel.visitSlot_least (head : SlotHead) (least : Least best seen) :
    Least (wheel.visitSlot best head) fun found => seen found ∨
      ∃ entry, wheel.heads head = some entry ∧ (wheel.entries entry).deadline = found := by
  unfold visitSlot
  cases heads : wheel.heads head with
  | none => exact least.congr fun found => by simp
  | some entry =>
      cases best with
      | none =>
          refine ⟨.inr ⟨entry, rfl, rfl⟩, ?_⟩
          rintro value (earlier | ⟨_, ⟨⟩, rfl⟩)
          · exact absurd earlier (least value)
          · exact le_rfl
      | some found =>
          obtain ⟨member, lower⟩ := least
          dsimp only
          split
          · next smaller =>
              refine ⟨.inl member, ?_⟩
              rintro value (earlier | ⟨_, ⟨⟩, rfl⟩)
              · exact lower value earlier
              · exact smaller
          · next larger =>
              refine ⟨.inr ⟨entry, rfl, rfl⟩, ?_⟩
              rintro value (earlier | ⟨_, ⟨⟩, rfl⟩)
              · exact (Nat.le_of_not_le larger).trans (lower value earlier)
              · exact le_rfl

theorem TimerWheel.visitLevel_least (slots level : Nat) (least : Least best seen) :
    Least ((List.range slots).foldl (fun best slot => wheel.visitSlot best (level, slot)) best)
      fun found => seen found ∨ ∃ slot ∈ List.range slots,
        ∃ entry, wheel.heads (level, slot) = some entry ∧ (wheel.entries entry).deadline = found :=
  Least.foldl (fun slot least => visitSlot_least (level, slot) least) _ least

end Loops

/-- Where anything is registered, some slot has a first entry. -/
theorem TimerWheel.exists_first {entry : Addr} (linked : wheel.Linked entry) :
    ∃ deadline, wheel.FirstDeadline deadline := by
  obtain ⟨head, steps, met⟩ := linked
  cases heads : wheel.heads head with
  | none =>
      rw [heads, Heap.walk_none] at met
      cases met
  | some first => exact ⟨_, head, first, heads, rfl⟩

theorem TimerWheel.nextDeadline_least (ranges : ∀ head entry, wheel.heads head = some entry →
      head.1 < shape.levels ∧ head.2 < shape.slots) :
    Least (wheel.nextDeadline shape) wheel.FirstDeadline := by
  have visited : Least (wheel.nextDeadline shape) _ :=
    Least.foldl (fun level least => @visitLevel_least _ wheel _ _ shape.slots level least)
      (List.range shape.levels) (show Least none fun _ => False from fun _ => id)
  refine visited.congr fun found => ?_
  simp only [false_or, List.mem_range]
  constructor
  · rintro ⟨level, _, slot, _, entry, heads, held⟩
    exact ⟨(level, slot), entry, heads, held⟩
  · rintro ⟨⟨level, slot⟩, entry, heads, held⟩
    obtain ⟨levelLt, slotLt⟩ := ranges _ _ heads
    exact ⟨level, levelLt, slot, slotLt, entry, heads, held⟩

namespace Shared

/-- Some entry with the least registered deadline is the first of its slot. -/
def LeastIsFirst (wheel : TimerWheel Waker) : Prop :=
  ∃ head first, wheel.heads head = some first ∧
    ∀ entry, wheel.Linked entry → (wheel.entries first).deadline ≤ (wheel.entries entry).deadline

theorem Sound.nextDeadline {state : Shared Waker} (sound : Sound (InRange shape) state) :
    Least (state.wheel.nextDeadline shape) state.wheel.FirstDeadline := by
  refine TimerWheel.nextDeadline_least fun head entry heads => ?_
  obtain ⟨lists, timers, tracks⟩ := sound.held
  have listed : entry ∈ lists head := (tracks.represents.mem_iff_walk head entry).mpr ⟨0, heads⟩
  exact tracks.placed head entry listed

/-- In every reachable state, the value reported is that of a first entry, so it is least,
or merely a lower bound, exactly when a first entry has the least deadline of all. -/
theorem nextDeadline_exact_iff (shape : Shape) (state : Shared Waker)
    (reachable : Reachable (@step Waker Output shape) initial state) :
    (state.wheel.nextDeadline shape = none ↔ ∀ entry, ¬ state.wheel.Linked entry) ∧
    (Least (state.wheel.nextDeadline shape) state.wheel.Deadline ↔
      ((∃ entry, state.wheel.Linked entry) → LeastIsFirst state.wheel)) ∧
    ((∀ found, state.wheel.nextDeadline shape = some found → ∀ entry, state.wheel.Linked entry →
        found ≤ (state.wheel.entries entry).deadline) ↔
      ((∃ entry, state.wheel.Linked entry) → LeastIsFirst state.wheel)) := by
  have least := (reachable_inRange reachable).nextDeadline
  cases found : state.wheel.nextDeadline shape with
  | none =>
      rw [found] at least
      have empty : ∀ entry, ¬ state.wheel.Linked entry := by
        intro entry linked
        obtain ⟨deadline, first⟩ := TimerWheel.exists_first linked
        exact least deadline first
      refine ⟨iff_of_true rfl empty, iff_of_true ?_ ?_, iff_of_true (by simp) ?_⟩
      · rintro deadline ⟨entry, linked, _⟩
        exact empty entry linked
      · exact fun some => absurd some.choose_spec (empty _)
      · exact fun some => absurd some.choose_spec (empty _)
  | some reported =>
      rw [found] at least
      obtain ⟨member, lower⟩ := least
      obtain ⟨head, first, heads, held⟩ := member
      have linked : state.wheel.Linked first := ⟨head, 0, heads⟩
      have firstLeast : (∀ entry, state.wheel.Linked entry →
          reported ≤ (state.wheel.entries entry).deadline) ↔
          ((∃ entry, state.wheel.Linked entry) → LeastIsFirst state.wheel) := by
        constructor
        · exact fun bound _ => ⟨head, first, heads, by rwa [held]⟩
        · intro isFirst entry registered
          obtain ⟨_, best, bestHeads, bestLeast⟩ := isFirst ⟨first, linked⟩
          exact (lower _ ⟨_, best, bestHeads, rfl⟩).trans (bestLeast entry registered)
      refine ⟨iff_of_false (by simp) fun empty => empty first linked, ?_, ?_⟩
      · rw [← firstLeast]
        constructor
        · exact fun exact entry registered => exact.2 _ ⟨entry, registered, rfl⟩
        · refine fun bound => ⟨⟨first, linked, held⟩, ?_⟩
          rintro _ ⟨entry, registered, rfl⟩
          exact bound entry registered
      · rw [← firstLeast]
        exact ⟨fun bound => bound reported rfl, by rintro bound _ ⟨⟩; exact bound⟩

/-- A single entry is the first of its slot. -/
theorem nextDeadline_exact_single : ∃ state : Shared Unit,
    run (@step Unit Unit ⟨8, 4, by decide, by decide⟩) [.insert 2 4 none] initial = some state ∧
    Least (state.wheel.nextDeadline ⟨8, 4, by decide, by decide⟩) state.wheel.Deadline := by
  obtain ⟨state, ran, heads, sole⟩ : ∃ state : Shared Unit,
      run (@step Unit Unit ⟨8, 4, by decide, by decide⟩) [.insert 2 4 none] initial = some state ∧
      state.wheel.heads (0, 4) = some 2 ∧
      ∀ entry, (state.wheel.entries entry).isRegistered = true → entry = 2 := by
    refine ⟨_, rfl, rfl, fun entry registered => ?_⟩
    by_contra other
    simp [Inner.insert, Inner.link, Inner.repoint, TimerWheel.own, other, initial, TimerWheel.new,
      TimerEntry.isRegistered, TimerEntry.new] at registered
  refine ⟨state, ran, (nextDeadline_exact_iff _ state ⟨_, ran⟩).2.1.mpr fun _ =>
    ⟨(0, 4), 2, heads, fun entry linked => ?_⟩⟩
  have registered := ((reachable_inRange ⟨_, ran⟩).held.isRegistered_iff entry).mpr linked
  rw [sole entry registered]

/-- Two entries in one slot of the coarser level, the later deadline in front. -/
theorem nextDeadline_behind : ∃ state : Shared Unit,
    run (@step Unit Unit ⟨8, 4, by decide, by decide⟩) [.insert 1 9 none, .insert 2 15 none]
      initial = some state ∧
    state.wheel.nextDeadline ⟨8, 4, by decide, by decide⟩ = some 15 ∧
    state.wheel.Linked 1 ∧ (state.wheel.entries 1).deadline = 9 :=
  ⟨_, rfl, by decide, ⟨(1, 1), 1, rfl⟩, rfl⟩

end Shared

end TptAsync.Timer
