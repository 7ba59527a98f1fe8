import Mathlib.Data.List.Perm.Basic
import Mathlib.Data.List.Perm.Subperm
import TptAsync.Timer.FlatTimers
import TptAsync.Timer.WheelPlacement

set_option autoImplicit false

/-!
# The wheel refines flat timers

`Tracks` relates a wheel, also halfway through a traversal, to the flat timers it
holds. Each loop of the wheel keeps it, so every operation does.
-/

namespace TptAsync.Timer

open Lib Lib.IntrusiveList

variable {Waker : Type} {shape : Shape}

/-- The wheel's lists, with the chain `loose` still to be traversed from `cursor`, hold
exactly `timers`, and every linked entry satisfies `place`. -/
structure Tracks (place : SlotHead → Nat → Prop) (inner : Inner Waker)
    (lists : SlotHead → List Addr) (cursor : Option Addr) (loose : List Addr)
    (timers : List FlatTimer) : Prop where
  represents : Represents inner.links lists cursor loose
  count : inner.pending = timers.length
  nodup : (timers.map (·.entry)).Nodup
  covers : ∀ entry, entry ∈ timers.map (·.entry) ↔
    (∃ head, entry ∈ lists head) ∨ entry ∈ loose
  deadline : ∀ timer ∈ timers, (inner.entries timer.entry).deadline = timer.deadline
  placed : ∀ head entry, entry ∈ lists head → place head (inner.entries entry).deadline

section Loops

variable {place other : SlotHead → Nat → Prop} {inner : Inner Waker}
  {lists : SlotHead → List Addr} {cursor : Option Addr} {loose : List Addr}
  {timers : List FlatTimer}

theorem Tracks.mono (tracks : Tracks place inner lists cursor loose timers)
    (implies : ∀ head entry, entry ∈ lists head → place head (inner.entries entry).deadline →
      other head (inner.entries entry).deadline) :
    Tracks other inner lists cursor loose timers :=
  { tracks with
    placed := fun head entry listed =>
      implies head entry listed (tracks.placed head entry listed) }

/-- The tick and the firings are not part of what is tracked. -/
theorem Tracks.retime (tracks : Tracks place inner lists cursor loose timers) (tick : Nat) :
    Tracks place { inner with currentTick := tick } lists cursor loose timers :=
  ⟨tracks.represents, tracks.count, tracks.nodup, tracks.covers, tracks.deadline, tracks.placed⟩

theorem Tracks.loose_le (tracks : Tracks place inner lists cursor loose timers) :
    loose.length ≤ inner.pending := by
  have subset : loose ⊆ timers.map (·.entry) :=
    fun entry member => (tracks.covers entry).mpr (.inr member)
  have bound := (List.subperm_of_subset tracks.represents.looseNodup subset).length_le
  rw [tracks.count]
  simpa using bound

theorem Tracks.takeHead (tracks : Tracks place inner lists none [] timers) (head : SlotHead) :
    Tracks place { inner with heads := Function.update inner.heads head none }
      (Function.update lists head []) (inner.heads head) (lists head) timers where
  represents := tracks.represents.takeHead head
  count := tracks.count
  nodup := tracks.nodup
  covers entry := by
    rw [tracks.covers entry]
    constructor
    · rintro (⟨found, listed⟩ | loose)
      · by_cases same : found = head
        · exact .inr (same ▸ listed)
        · exact .inl ⟨found, by simpa [same] using listed⟩
      · simp at loose
    · rintro (⟨found, listed⟩ | listed)
      · by_cases same : found = head
        · simp [same] at listed
        · exact .inl ⟨found, by simpa [same] using listed⟩
      · exact .inl ⟨head, listed⟩
  deadline := tracks.deadline
  placed found entry listed := by
    by_cases same : found = head
    · simp [same] at listed
    · exact tracks.placed found entry (by simpa [same] using listed)

/-- Linking an entry that no list holds, where it is well placed. -/
theorem Tracks.link {node : Addr} {rest : List Addr} {target : SlotHead}
    (released : Represents inner.links lists cursor rest)
    (fresh : ∀ head, node ∉ lists head) (freshLoose : node ∉ rest)
    (count : inner.pending + 1 = timers.length) (nodup : (timers.map (·.entry)).Nodup)
    (covers : ∀ entry, entry ∈ timers.map (·.entry) ↔
      ((∃ head, entry ∈ lists head) ∨ entry = node) ∨ entry ∈ rest)
    (deadline : ∀ timer ∈ timers, (inner.entries timer.entry).deadline = timer.deadline)
    (placed : ∀ head entry, entry ∈ lists head → place head (inner.entries entry).deadline)
    (targetPlaced : place target (inner.entries node).deadline) :
    Tracks place (inner.link target node) (Function.update lists target (node :: lists target))
      cursor rest timers := by
  have frame := inner.link_frame target node
  have listed : ∀ entry, (∃ head, entry ∈ Function.update lists target (node :: lists target) head) ↔
      (∃ head, entry ∈ lists head) ∨ entry = node := by
    intro entry
    constructor
    · rintro ⟨head, member⟩
      by_cases same : head = target
      · subst same
        rw [Function.update_self, List.mem_cons] at member
        exact member.symm.imp_left fun member => ⟨head, member⟩
      · exact .inl ⟨head, by simpa [same] using member⟩
    · rintro (⟨head, member⟩ | rfl)
      · by_cases same : head = target
        · subst same
          exact ⟨head, by simp [member]⟩
        · exact ⟨head, by simpa [same] using member⟩
      · exact ⟨target, by simp⟩
  constructor
  · rw [Inner.links_link]
    exact released.pushFront fresh freshLoose
  · rw [Inner.link_pending, count]
  · exact nodup
  · intro entry
    rw [covers, listed]
  · intro timer member
    rw [frame.deadline, deadline timer member]
  · intro head entry member
    rw [frame.deadline]
    by_cases same : head = target
    · subst same
      rw [Function.update_self, List.mem_cons] at member
      rcases member with rfl | member
      · exact targetPlaced
      · exact placed head entry member
    · exact placed head entry (by simpa [same] using member)

theorem Tracks.pending_succ {node : Addr} {rest : List Addr}
    (tracks : Tracks place inner lists cursor (node :: rest) timers) :
    ∃ count, inner.pending = count + 1 := by
  have bound := tracks.loose_le
  rw [List.length_cons] at bound
  exact ⟨inner.pending - 1, by omega⟩

theorem Inner.cascadeLoop_tracks {fuel : Nat} {tick : Nat}
    (tracks : Tracks place inner lists cursor loose timers) (enough : loose.length ≤ fuel)
    (ticked : inner.currentTick = tick)
    (targets : ∀ (state : Inner Waker) (deadline : Nat), state.currentTick = tick →
      place (state.cascadeTarget shape deadline) deadline) :
    ∃ after lists', inner.cascadeLoop shape fuel cursor = some after ∧
      Tracks place after lists' none [] timers ∧ Inner.Frame inner after := by
  induction loose generalizing fuel inner lists cursor with
  | nil =>
      obtain rfl : cursor = none := tracks.represents.detached
      refine ⟨inner, lists, ?_, tracks, .refl inner⟩
      cases fuel <;> rfl
  | cons node rest ih =>
      obtain ⟨fuel, rfl⟩ : ∃ smaller, fuel = smaller + 1 := ⟨fuel - 1, by simp at enough; omega⟩
      obtain ⟨count, counted⟩ := tracks.pending_succ
      obtain ⟨rfl, released⟩ := tracks.represents.release
      let freed : Inner Waker := { inner with
        entries := Function.update inner.entries node
          { inner.entries node with next := none, prevNext := none }
        pending := count }
      have freedLinks : freed.links = inner.links.release node :=
        Inner.links_relink inner node _
      have frame : Inner.Frame inner freed :=
        Inner.frame_update inner inner.heads count node _ rfl rfl
      have unique := List.nodup_cons.mp tracks.represents.looseNodup
      let target := freed.cascadeTarget shape (inner.entries node).deadline
      have linked : Tracks place (freed.link target node)
          (Function.update lists target (node :: lists target))
          (inner.entries node).next rest timers := by
        apply Tracks.link
        · rw [freedLinks]
          exact released
        · exact tracks.represents.looseApart (.head _)
        · exact unique.1
        · exact counted.symm.trans tracks.count
        · exact tracks.nodup
        · intro entry
          rw [tracks.covers, List.mem_cons, or_assoc]
        · intro timer member
          rw [frame.deadline, tracks.deadline timer member]
        · intro head entry member
          rw [frame.deadline]
          exact tracks.placed head entry member
        · rw [frame.deadline]
          exact targets freed _ ticked
      have linkFrame := freed.link_frame target node
      obtain ⟨after, lists', finished, kept, rest⟩ :=
        ih linked (by simpa using enough) (linkFrame.tick.trans ticked)
      refine ⟨after, lists', ?_, kept, frame.trans (linkFrame.trans rest)⟩
      simp only [cascadeLoop, counted, U64.checkedPred_succ, Option.bind_eq_bind,
        Option.bind_some]
      exact finished

theorem length_filter_entry {node : Addr} (nodup : (timers.map (·.entry)).Nodup)
    (member : node ∈ timers.map (·.entry)) :
    (timers.filter (·.entry ≠ node)).length + 1 = timers.length := by
  obtain ⟨timer, listed, rfl⟩ := List.mem_map.mp member
  obtain ⟨before, after, rfl⟩ := List.append_of_mem listed
  rw [List.map_append, List.map_cons, List.nodup_middle, List.nodup_cons, List.mem_append] at nodup
  obtain ⟨absent, _⟩ := nodup
  have others : ∀ part : List FlatTimer, timer.entry ∉ part.map (·.entry) →
      part.filter (·.entry ≠ timer.entry) = part := by
    intro part missing
    refine List.filter_eq_self.mpr fun other listed => ?_
    simpa using fun same : other.entry = timer.entry =>
      missing (same ▸ List.mem_map_of_mem listed)
  rw [List.filter_append, List.filter_cons, others before (fun early => absent (.inl early)),
    others after (fun late => absent (.inr late))]
  simp
  omega

/-- One entry leaves the detached chain and is forgotten. -/
theorem Tracks.drop {node : Addr} {rest : List Addr} {after : Inner Waker}
    (tracks : Tracks place inner lists cursor (node :: rest) timers)
    (released : after.links = inner.links.release node) (count : after.pending + 1 = inner.pending)
    (deadline : ∀ entry, (after.entries entry).deadline = (inner.entries entry).deadline) :
    Tracks place after lists (inner.entries node).next rest
      (timers.filter (·.entry ≠ node)) := by
  have unique := List.nodup_cons.mp tracks.represents.looseNodup
  have kept : ∀ {timer}, timer ∈ timers.filter (·.entry ≠ node) →
      timer ∈ timers ∧ timer.entry ≠ node := by
    intro timer member
    simpa using member
  constructor
  · rw [released]
    exact tracks.represents.release.2
  · have shorter := length_filter_entry tracks.nodup ((tracks.covers node).mpr (.inr (.head _)))
    have before := tracks.count
    omega
  · exact tracks.nodup.sublist (List.filter_sublist.map _)
  · intro entry
    have covered := tracks.covers entry
    constructor
    · intro member
      obtain ⟨timer, listed, rfl⟩ := List.mem_map.mp member
      obtain ⟨listed, distinct⟩ := kept listed
      rcases covered.mp (List.mem_map_of_mem listed) with held | loose
      · exact .inl held
      · exact .inr ((List.mem_cons.mp loose).resolve_left distinct)
    · intro held
      have distinct : entry ≠ node := by
        rintro rfl
        rcases held with ⟨head, listed⟩ | loose
        · exact tracks.represents.looseApart (.head _) head listed
        · exact unique.1 loose
      obtain ⟨timer, listed, rfl⟩ :=
        List.mem_map.mp (covered.mpr (held.imp_right fun loose => .tail _ loose))
      exact List.mem_map_of_mem (by simpa using ⟨listed, distinct⟩)
  · intro timer member
    rw [deadline, tracks.deadline timer (kept member).1]
  · intro head entry listed
    rw [deadline]
    exact tracks.placed head entry listed

theorem Inner.drainLoop_tracks {fuel : Nat}
    (tracks : Tracks place inner lists cursor loose timers) (enough : loose.length ≤ fuel) :
    ∃ after, inner.drainLoop fuel cursor = some after ∧
      Tracks place after lists none [] (timers.filter (·.entry ∉ loose)) ∧
      after.currentTick = inner.currentTick ∧
      after.fired = inner.fired ++
        (loose.map fun entry => ⟨inner.currentTick, entry, (inner.entries entry).waker⟩) ∧
      (∀ entry, (after.entries entry).deadline = (inner.entries entry).deadline) ∧
      ∀ entry, (after.entries entry).waker =
        if entry ∈ loose then none else (inner.entries entry).waker := by
  induction loose generalizing fuel inner cursor timers with
  | nil =>
      obtain rfl : cursor = none := tracks.represents.detached
      refine ⟨inner, ?_, by simpa using tracks, rfl, by simp, fun _ => rfl, by simp⟩
      cases fuel <;> rfl
  | cons node rest ih =>
      obtain ⟨fuel, rfl⟩ : ∃ smaller, fuel = smaller + 1 := ⟨fuel - 1, by simp at enough; omega⟩
      obtain ⟨count, counted⟩ := tracks.pending_succ
      obtain ⟨rfl, _⟩ := tracks.represents.release
      let freed : Inner Waker := { inner with
        entries := Function.update inner.entries node
          { inner.entries node with next := none, prevNext := none, waker := none }
        pending := count
        fired := inner.fired ++ [⟨inner.currentTick, node, (inner.entries node).waker⟩] }
      have wakerSame : ∀ entry, entry ≠ node →
          (freed.entries entry).waker = (inner.entries entry).waker := by
        intro entry distinct
        simp [freed, distinct]
      have deadlineSame : ∀ entry,
          (freed.entries entry).deadline = (inner.entries entry).deadline := by
        intro entry
        by_cases same : entry = node <;> simp [freed, same]
      have dropped : Tracks place freed lists (inner.entries node).next rest
          (timers.filter (·.entry ≠ node)) :=
        tracks.drop (Inner.links_relink inner node _) counted.symm deadlineSame
      obtain ⟨after, finished, kept, tickSame, firedSame, deadlines, taken⟩ :=
        ih dropped (by simpa using enough)
      refine ⟨after, ?_, ?_, tickSame, ?_, ?_, ?_⟩
      · simp only [drainLoop, counted, U64.checkedPred_succ, Option.bind_eq_bind,
          Option.bind_some]
        exact finished
      · rw [List.filter_filter] at kept
        simpa only [List.mem_cons, not_or, Bool.decide_and, Bool.and_comm, ne_eq] using kept
      · have unique := (List.nodup_cons.mp tracks.represents.looseNodup).1
        have wakers : ∀ entry ∈ rest,
            (⟨freed.currentTick, entry, (freed.entries entry).waker⟩ : Firing Waker) =
              ⟨inner.currentTick, entry, (inner.entries entry).waker⟩ := by
          intro entry member
          rw [wakerSame entry (fun same => unique (same ▸ member))]
        rw [firedSame, List.map_congr_left wakers]
        simp [freed]
      · exact fun entry => (deadlines entry).trans (deadlineSame entry)
      · intro entry
        rw [taken]
        by_cases same : entry = node
        · simp [same, freed]
        · rw [wakerSame entry same]
          simp [same]

end Loops

end TptAsync.Timer
