import TptAsync.Timer.NextDeadline
import TptAsync.Timer.Registrations

set_option autoImplicit false

/-!
# How long the timer driver sleeps

The end of a wait is settled when the next deadline has been read, and nothing makes the driver
look again before the wait begins: what is announced in between goes unnoticed.
-/

namespace TptAsync.Timer

open Lib

variable {Waker Output : Type}

theorem globalShape_rule : Rule Waker globalShape (Placed globalShape) (fun _ _ => True) True True :=
  placed_rule (by decide) (by decide)

theorem Event.subject_of_future {event : Event Waker Output} {entry : Addr}
    (future : event.future = some entry) : event.subject = some entry := by
  cases event with
  | create | pollSleep | pollTimeout | reset | resetPinned | drop => exact future
  | insert | remove | tick | tickN | advanceTo => cases future

/-- An entry of a future that is in the wheel behind a call was in it before, with the same deadline,
unless that call has inserted it. -/
theorem Shared.Effect.linked_before {shape : Shape} {state next : Shared Waker} {subject entry : Addr}
    (effect : Effect shape state next (some subject)) (owned : (next.futures entry).isSome = true)
    (linked : next.wheel.Linked entry)
    (old : entry = subject → next.flag entry = true → state.flag entry = true) :
    (state.futures entry).isSome = true ∧ state.wheel.Linked entry ∧
      (next.wheel.entries entry).deadline = (state.wheel.entries entry).deadline := by
  by_cases same : entry = subject
  · subst same
    cases effect with
    | idles _ unlinked => exact absurd linked unlinked
    | waits _ _ deadline before flagged insert =>
        have flag := old rfl (by rw [flag, flagged]; rfl)
        rw [Shared.flag, before] at flag
        refine ⟨by rw [before]; rfl, (insert.mp linked).resolve_right fun unflagged => ?_, deadline⟩
        rw [unflagged] at flag
        cases flag
    | inserts _ unowned =>
        rw [unowned] at owned
        cases owned
  · have beside := effect.beside
    have kept := beside.aside.others entry same
    exact ⟨by rwa [← beside.futures entry same], kept.linked.mp linked, kept.deadline⟩

namespace Registry

/-- The end of the driver's next wait, or of the one that goes on. -/
def Ends (registry : Registry Waker) (wakeAt : Nat) : Prop :=
  registry.stage.settled registry.shared.wheel.now = some wakeAt ∨ registry.stage.waiting = some wakeAt

/-- Registered and announced. -/
def Complete (registry : Registry Waker) (entry : Addr) : Prop :=
  registry.Registered entry ∧ entry ∉ registry.unannounced

structure Vigilant (registry : Registry Waker) : Prop where
  sound : Shared.Sound (Placed globalShape) registry.shared
  timely : Shared.Timely registry.shared
  ends : ∀ wakeAt, registry.Ends wakeAt → ∀ entry, registry.Complete entry →
    wakeAt ≤ (registry.shared.wheel.entries entry).deadline

/-- What is announced while the end of a wait is settled and the wait has not begun is not due
before that end. -/
def Noticed (registry : Registry Waker) (entry : Addr) : Prop :=
  ∀ wakeAt, registry.stage.settled registry.shared.wheel.now = some wakeAt → registry.Registered entry →
    wakeAt ≤ (registry.shared.wheel.entries entry).deadline

/-- `next_deadline` returns the least deadline when the driver asks for it. -/
def Exact (registry : Registry Waker) : RegistryEvent Waker Output → Prop
  | .inspect => Least (registry.shared.wheel.nextDeadline globalShape) registry.shared.wheel.Deadline
  | .future _ | .onRegistration _ | .advance _ | .cap | .park | .unpark => True

/-- Besides, every announcement is noticed. -/
def Undisturbed (registry : Registry Waker) (event : RegistryEvent Waker Output) : Prop :=
  registry.Exact event ∧ ∀ entry, event = .onRegistration entry → registry.Noticed entry

variable {registry next : Registry Waker} {event : RegistryEvent Waker Output}

theorem initial_vigilant : (initial : Registry Waker).Vigilant where
  sound := .initial
  timely entry future owned := by cases owned
  ends wakeAt ends := by cases ends with | inl settled => cases settled | inr waiting => cases waiting

theorem Vigilant.registered_iff (vigilant : registry.Vigilant) (entry : Addr) :
    registry.Registered entry ↔
      (registry.shared.futures entry).isSome = true ∧ registry.shared.wheel.Linked entry :=
  and_congr_right fun _ => vigilant.sound.held.isRegistered_iff entry

/-- An entry that is complete after a call of a future was so before, with the same deadline. -/
theorem Vigilant.stepFuture (vigilant : registry.Vigilant) {event : Event Waker Output}
    (steps : registry.stepFuture event = some next) : next.Vigilant := by
  simp only [Registry.stepFuture] at steps
  split at steps
  · cases steps
  · next subject future =>
      split at steps
      · cases steps
      · next announced =>
          obtain ⟨shared, stepped, steps⟩ := Option.bind_eq_some_iff.mp steps
          obtain rfl := Option.some.inj steps
          have sound := vigilant.sound.step globalShape_rule (.of_any _ _) stepped
          refine ⟨sound, vigilant.sound.timely globalShape_rule (.of_any _ _) stepped vigilant.timely, ?_⟩
          obtain ⟨effect, _⟩ := vigilant.sound.settled globalShape_rule (.of_any _ _) stepped
          rw [Event.subject_of_future future] at effect
          have beside := effect.beside
          have now : shared.wheel.now = registry.shared.wheel.now := beside.aside.now
          intro wakeAt ends entry complete
          obtain ⟨⟨owned, registered⟩, rest⟩ := complete
          have linked := (sound.held.isRegistered_iff entry).mp registered
          have ends : registry.Ends wakeAt := by rwa [Ends, now] at ends
          have old : entry = subject → shared.flag entry = true → registry.shared.flag entry = true := by
            intro same flagged
            cases before : registry.shared.flag entry with
            | true => rfl
            | false =>
                refine absurd ?_ rest
                dsimp only
                rw [← same, before, flagged]
                exact .head _
          obtain ⟨before, stays, deadline⟩ := effect.linked_before owned linked old
          rw [deadline]
          refine vigilant.ends wakeAt ends entry ⟨(vigilant.registered_iff entry).mpr ⟨before, stays⟩, ?_⟩
          intro unannounced
          refine rest ?_
          dsimp only
          split
          · exact .tail _ unannounced
          · exact unannounced

/-- The stage moves on, to the same end. -/
theorem Vigilant.moves {stage : DriverStage} (vigilant : registry.Vigilant)
    (same : ∀ wakeAt, Ends { registry with stage } wakeAt → registry.Ends wakeAt) :
    Vigilant { registry with stage } where
  sound := vigilant.sound
  timely := vigilant.timely
  ends wakeAt ends entry complete := vigilant.ends wakeAt (same wakeAt ends) entry complete

theorem Vigilant.onRegistration {entry : Addr} (vigilant : registry.Vigilant)
    (noticed : registry.Noticed entry) :
    Vigilant { registry with
      stage := registry.stage.notified
      registrations := registry.registrations + 1
      unannounced := registry.unannounced.filter (· ≠ entry) } where
  sound := vigilant.sound
  timely := vigilant.timely
  ends wakeAt ends other complete := by
    obtain ⟨registered, rest⟩ := complete
    obtain ⟨shared, stage, registrations, unannounced⟩ := registry
    have settled : stage.settled shared.wheel.now = some wakeAt := by
      cases stage with
      | reading | inspecting | capping | locking => exact ends.resolve_right (by rintro ⟨⟩)
      | parked _ => rcases ends with ends | ends <;> cases ends
    by_cases same : other = entry
    · subst same
      exact noticed wakeAt settled registered
    · refine vigilant.ends wakeAt (.inl settled) other ⟨registered, fun unannounced => rest ?_⟩
      exact List.mem_filter.mpr ⟨unannounced, by simpa using same⟩

/-- The wait that the driver settles on ends with the least deadline at the latest. -/
theorem Vigilant.inspect (vigilant : registry.Vigilant) {deadline : Option Nat}
    (least : Least deadline registry.shared.wheel.Deadline) :
    Vigilant { registry with stage := .capping deadline } where
  sound := vigilant.sound
  timely := vigilant.timely
  ends wakeAt ends entry complete := by
    rcases ends with ends | ends
    · obtain rfl : registry.shared.wheel.now + capMs deadline registry.shared.wheel.now = wakeAt :=
        Option.some.inj ends
      obtain ⟨owned, linked⟩ := (vigilant.registered_iff entry).mp complete.1
      obtain ⟨future, owned⟩ := Option.isSome_iff_exists.mp owned
      have ahead := (vigilant.timely entry future owned linked).1
      cases deadline with
      | none => exact absurd ⟨entry, linked, rfl⟩ (least _)
      | some deadline =>
          have first := least.2 _ ⟨entry, linked, rfl⟩
          simp only [capMs, Option.map_some, Option.getD_some]
          omega
    · cases ends

theorem Vigilant.step (vigilant : registry.Vigilant) (steps : registry.step event = some next)
    (undisturbed : registry.Undisturbed event) : next.Vigilant := by
  cases event with
  | future event => exact vigilant.stepFuture steps
  | onRegistration entry =>
      simp only [Registry.step] at steps
      split at steps
      · obtain rfl := Option.some.inj steps
        exact vigilant.onRegistration (undisturbed.2 entry rfl)
      · cases steps
  | advance now =>
      simp only [Registry.step] at steps
      split at steps
      · obtain ⟨shared, stepped, steps⟩ := Option.bind_eq_some_iff.mp steps
        obtain rfl := Option.some.inj steps
        refine ⟨vigilant.sound.step globalShape_rule (.of_any _ _) stepped,
          vigilant.sound.timely globalShape_rule (.of_any _ _) stepped vigilant.timely, ?_⟩
        rintro wakeAt (ends | ends) <;> cases ends
      · cases steps
  | inspect =>
      simp only [Registry.step] at steps
      split at steps
      · obtain rfl := Option.some.inj steps
        exact vigilant.inspect undisturbed.1
      · cases steps
  | cap =>
      simp only [Registry.step] at steps
      split at steps
      · next deadline stage =>
          obtain rfl := Option.some.inj steps
          refine vigilant.moves fun wakeAt ends => .inl ?_
          rw [stage]
          exact ends.resolve_right (by rintro ⟨⟩)
      · cases steps
  | park =>
      simp only [Registry.step] at steps
      split at steps
      · next capMs stage =>
          obtain rfl := Option.some.inj steps
          refine vigilant.moves fun wakeAt ends => .inl ?_
          rw [stage]
          exact ends.resolve_left (by rintro ⟨⟩)
      · cases steps
  | unpark =>
      simp only [Registry.step] at steps
      split at steps
      · obtain rfl := Option.some.inj steps
        refine vigilant.moves fun wakeAt ends => ?_
        rcases ends with ends | ends <;> cases ends
      · cases steps

theorem Vigilant.neverOversleeps (vigilant : registry.Vigilant) : registry.NeverOversleeps :=
  fun wakeAt waiting entry registered announced =>
    vigilant.ends wakeAt (.inr waiting) entry ⟨registered, announced⟩

/-- Behind an announcement that is not noticed, the driver begins a wait that is too long. -/
theorem unnoticed_oversleeps {entry : Addr} (unnoticed : ¬ registry.Noticed entry)
    (steps : registry.step (.onRegistration entry : RegistryEvent Waker Output) = some next) :
    ∃ (events : List (RegistryEvent Waker Output)) (last : Registry Waker),
      run step events next = some last ∧ ¬ last.NeverOversleeps := by
  simp only [Noticed, not_forall, Nat.not_le] at unnoticed
  obtain ⟨wakeAt, settled, registered, late⟩ := unnoticed
  simp only [Registry.step] at steps
  split at steps
  · obtain rfl := Option.some.inj steps
    obtain ⟨shared, stage, registrations, unannounced⟩ := registry
    have announced : entry ∉ unannounced.filter (· ≠ entry) := by simp
    cases stage with
    | reading | inspecting | parked => cases settled
    | capping deadline =>
        cases settled
        refine ⟨[.cap, .park], _, rfl, fun never => ?_⟩
        exact absurd (never _ rfl entry registered announced) (Nat.not_le.mpr late)
    | locking capMs =>
        cases settled
        refine ⟨[.park], _, rfl, fun never => ?_⟩
        exact absurd (never _ rfl entry registered announced) (Nat.not_le.mpr late)
  · cases steps

/-- In every undisturbed run the driver never oversleeps; and from any state in which an
announcement is not noticed, it does so next. -/
theorem undisturbed_neverOversleeps :
    (∀ (events : List (RegistryEvent Waker Output)) (registry : Registry Waker),
      AllAllowed step Undisturbed events initial → run step events initial = some registry →
        registry.NeverOversleeps) ∧
      ∀ (registry next : Registry Waker) (entry : Addr), ¬ registry.Noticed entry →
        registry.step (.onRegistration entry : RegistryEvent Waker Output) = some next →
        ∃ (events : List (RegistryEvent Waker Output)) (last : Registry Waker),
          run step events next = some last ∧ ¬ last.NeverOversleeps := by
  constructor
  · intro events registry undisturbed runs
    exact (undisturbed.keeps Vigilant (fun vigilant steps may => vigilant.step steps may) initial_vigilant
      runs).neverOversleeps
  · intro registry next entry unnoticed steps
    exact unnoticed_oversleeps unnoticed steps

section Example

/-- The driver finds the wheel empty, and a sleep is registered before it waits. -/
def registering (deadline : UInt64) : List (RegistryEvent Unit Unit) :=
  [.advance 0, .inspect, .future (.create 7 .sleep deadline), .future (.pollSleep 7 ()),
    .onRegistration 7, .cap, .park]

def inspecting : Registry Unit := { (initial : Registry Unit) with stage := .inspecting }

def capping : Registry Unit := { (initial : Registry Unit) with stage := .capping none }

theorem inspecting_asks : inspecting.shared.wheel.nextDeadline globalShape = none := by
  simp [TimerWheel.nextDeadline, inspecting, initial, Shared.initial, TimerWheel.new]

theorem inspecting_step : inspecting.step (.inspect : RegistryEvent Unit Unit) = some capping := by
  simp only [Registry.step, show inspecting.stage = .inspecting from rfl, inspecting_asks]
  rfl

theorem registering_run (deadline : UInt64) :
    run step (registering deadline) (initial : Registry Unit) =
      run step ((registering deadline).drop 2) capping := by
  have advances : step initial (.advance 0 : RegistryEvent Unit Unit) = some inspecting := rfl
  rw [registering, run, advances, Option.bind_some, run, inspecting_step, Option.bind_some]
  rfl

theorem exact_of_inspecting {registry : Registry Unit} (same : registry = inspecting) :
    registry.Exact (.inspect : RegistryEvent Unit Unit) := by
  subst same
  simp only [Exact, inspecting_asks]
  rintro deadline ⟨entry, ⟨head, steps, met⟩, _⟩
  rw [show inspecting.shared.wheel.heads head = none from rfl, IntrusiveList.Heap.walk_none] at met
  cases met

theorem advance_inspecting {registry : Registry Unit}
    (advances : step initial (.advance 0 : RegistryEvent Unit Unit) = some registry) : registry = inspecting :=
  (Option.some.inj advances).symm

theorem registering_exact (deadline : UInt64) :
    AllAllowed step Exact (registering deadline) (initial : Registry Unit) := by
  intro next advances
  refine ⟨trivial, fun _ _ => ⟨exact_of_inspecting (advance_inspecting advances), ?_⟩⟩
  exact fun _ _ => ⟨trivial, fun _ _ => ⟨trivial, fun _ _ => ⟨trivial, fun _ _ => ⟨trivial, fun _ _ =>
    ⟨trivial, trivial⟩⟩⟩⟩⟩

/-- A sleep of five ticks, and the driver waits for a hundred. -/
theorem not_neverOversleeps : ∃ registry : Registry Unit,
    run step (registering 5) initial = some registry ∧ AllAllowed step Exact (registering 5) initial ∧
      registry.stage = .parked 100 ∧ registry.Registered 7 ∧ 7 ∉ registry.unannounced ∧
      (registry.shared.wheel.entries 7).deadline = 5 ∧ ¬ registry.NeverOversleeps := by
  refine ⟨_, (registering_run 5).trans rfl, registering_exact 5, rfl, ⟨rfl, rfl⟩, by simp, rfl,
    fun never => ?_⟩
  exact absurd (never 100 rfl 7 ⟨rfl, rfl⟩ (by simp)) (by decide)

/-- A sleep of two hundred ticks need not be noticed. -/
theorem undisturbed_neverOversleeps_far : ∃ registry : Registry Unit,
    run step (registering 200) initial = some registry ∧ registry.stage = .parked 100 ∧
      registry.Registered 7 ∧ registry.NeverOversleeps := by
  refine ⟨_, (registering_run 200).trans rfl, rfl, ⟨rfl, rfl⟩, ?_⟩
  refine undisturbed_neverOversleeps.1 (registering 200) _ ?_ ((registering_run 200).trans rfl)
  intro next advances
  have asks := advance_inspecting advances
  refine ⟨⟨trivial, fun _ same => by cases same⟩, fun chosen inspects => ?_⟩
  refine ⟨⟨exact_of_inspecting asks, fun _ same => by cases same⟩, fun created creates => ?_⟩
  rw [asks, inspecting_step] at inspects
  obtain rfl : capping = chosen := Option.some.inj inspects
  obtain rfl : _ = created := Option.some.inj creates
  refine ⟨⟨trivial, fun _ same => by cases same⟩, fun polled polls => ?_⟩
  obtain rfl : _ = polled := Option.some.inj polls
  refine ⟨⟨trivial, fun _ same => by cases same⟩, fun announced _ => ⟨⟨trivial, fun entry same => ?_⟩, ?_⟩⟩
  · cases same
    rintro wakeAt ⟨⟩ _
    decide
  · exact fun _ _ => ⟨⟨trivial, fun _ same => by cases same⟩, fun _ _ =>
      ⟨⟨trivial, fun _ same => by cases same⟩, trivial⟩⟩

end Example

end Registry

end TptAsync.Timer
