import TptAsync.Timer.SharedEffects

set_option autoImplicit false

/-!
# Timer futures over a shared wheel

The wheel unlinks entries on its own while the futures keep their flags, so a flag only
says that the entry was linked once. Under a rule that drains no entry early, a flagged
entry is still linked until its deadline; under an exact rule, not a tick longer.
-/

namespace TptAsync.Timer.Shared

open Lib Lib.IntrusiveList

variable {Waker Output : Type} {shape : Shape} {rule : Nat → SlotHead → Nat → Prop}
  {may : Nat → Nat → Prop} {safe exact : Prop} {state next : Shared Waker}
  {event : Event Waker Output}

/-- What an event that concerns another entry, and no tick, leaves the same. -/
structure Other (state next : Shared Waker) (entry : Addr) : Prop where
  now : next.wheel.now = state.wheel.now
  fired : next.wheel.fired = state.wheel.fired
  same : SameEntry state.wheel next.wheel entry
  futures : next.futures entry = state.futures entry
  awaiting : next.awaiting entry = state.awaiting entry

theorem Effect.beside {subject : Addr} (effect : Effect shape state next (some subject)) :
    Beside subject state next := by
  cases effect with
  | idles beside => exact beside
  | waits beside => exact beside
  | inserts beside => exact beside

/-- An effect from the point of view of one entry: ticks, an event elsewhere, or its own. -/
theorem Effect.cases {subject : Option Addr} (effect : Effect shape state next subject)
    (entry : Addr) :
    (∃ count, state.wheel.now + count ≤ U64.max ∧
        state.wheel.tickN shape count = some next.wheel ∧ next.futures = state.futures ∧
        next.awaiting = state.awaiting) ∨
      Other state next entry ∨ Effect shape state next (some entry) := by
  cases subject with
  | none =>
      cases effect with
      | advances count ticks advanced futures awaiting =>
          exact .inl ⟨count, ticks, advanced, futures, awaiting⟩
  | some subject =>
      have beside := effect.beside
      by_cases same : entry = subject
      · exact .inr (.inr (same ▸ effect))
      · exact .inr (.inl ⟨beside.aside.now, beside.aside.fired, beside.aside.others entry same,
          beside.futures entry same, beside.awaiting entry same⟩)

theorem Sound.initial : Sound rule (initial : Shared Waker) where
  held := by
    refine ⟨fun _ => [], [], Represents.empty, rfl, .nil, ?_, ?_, ?_⟩
    · simp
    · simp
    · simp
  clock := Nat.zero_le _
  fits _ := Nat.zero_le _
  idle entry future owned := by cases owned
  flagged entry waker awaits := by cases awaits

section Rules

variable (rules : Rule Waker shape rule may safe exact)
include rules

/-- An effect without ticks leaves the wheel's clock and firings alone, one with ticks
keeps what every tick keeps. -/
theorem Sound.advances {count : Nat} (sound : Sound rule state)
    (keeps : TimerWheel Waker → Prop)
    (steps : ∀ {before after : TimerWheel Waker} {drained : List Addr},
      keeps before → Ticked safe exact before after drained → keeps after)
    (ticks : state.wheel.now + count ≤ U64.max)
    (advanced : state.wheel.tickN shape count = some next.wheel) (starts : keeps state.wheel) :
    keeps next.wheel := by
  obtain ⟨after, advances, _, _, ends⟩ := rules.tickN_keeps keeps steps sound.held ticks starts
  rw [advanced] at advances
  exact Option.some.inj advances ▸ ends

theorem Sound.step (sound : Sound rule state) (admitted : state.Admitted may event)
    (stepped : state.step shape event = some next) : Sound rule next := by
  obtain ⟨effect, held, clock, fits⟩ := sound.settled rules admitted stepped
  refine ⟨held, clock, fits, ?_, ?_⟩
  · intro entry future owned unflagged
    rcases effect.cases entry with ⟨count, ticks, advanced, futures, _⟩ | other | own
    · rw [futures] at owned
      refine sound.advances rules (fun wheel => ¬ wheel.Linked entry) ?_ ticks advanced
        (sound.idle entry future owned unflagged)
      exact fun absent ticked linked => absent ((ticked.linked entry).mp linked).1
    · rw [other.futures] at owned
      rw [other.same.linked]
      exact sound.idle entry future owned unflagged
    · cases own with
      | idles _ unlinked => exact unlinked
      | waits _ _ _ _ flagged =>
          rw [flagged] at owned
          cases owned
          cases unflagged
      | inserts _ unowned =>
          rw [unowned] at owned
          cases owned
  · intro entry waker awaits
    rcases effect.cases entry with ⟨_, _, _, futures, awaiting⟩ | other | own
    · rw [awaiting] at awaits
      rw [futures]
      exact sound.flagged entry waker awaits
    · rw [other.awaiting] at awaits
      rw [other.futures]
      exact sound.flagged entry waker awaits
    · cases own with
      | idles _ _ _ silent =>
          rw [silent] at awaits
          cases awaits
      | waits _ _ _ _ flagged => exact ⟨_, flagged⟩
      | inserts _ _ silent =>
          rw [silent] at awaits
          cases awaits

end Rules

/-- The flag of a future may outlive the registration only from the deadline on. -/
def Unexpired (state : Shared Waker) : Prop :=
  ∀ entry kind, state.futures entry = some ⟨kind, true⟩ →
    state.wheel.now < (state.wheel.entries entry).deadline → state.wheel.Linked entry

/-- A linked future is still ahead of its deadline and will be woken as it last asked. -/
def Timely (state : Shared Waker) : Prop :=
  ∀ entry future, state.futures entry = some future → state.wheel.Linked entry →
    state.wheel.now < (state.wheel.entries entry).deadline ∧
      ∃ waker, state.awaiting entry = some waker ∧
        (state.wheel.entries entry).waker = some waker

theorem Sound.unexpired (rules : Rule Waker shape rule may True exact) (sound : Sound rule state)
    (admitted : state.Admitted may event) (stepped : state.step shape event = some next)
    (unexpired : Unexpired state) : Unexpired next := by
  obtain ⟨effect, _⟩ := sound.settled rules admitted stepped
  intro entry kind flagged future
  rcases effect.cases entry with ⟨count, ticks, advanced, futures, _⟩ | other | own
  · rw [futures] at flagged
    refine sound.advances rules
      (fun wheel => wheel.currentTick < (wheel.entries entry).deadline → wheel.Linked entry) ?_ ticks
      advanced (unexpired entry kind flagged) future
    exact fun linked ticked => ticked.unexpired linked
  · rw [other.futures] at flagged
    rw [other.now, other.same.deadline] at future
    rw [other.same.linked]
    exact unexpired entry kind flagged future
  · cases own with
    | idles _ _ idle => cases idle _ flagged
    | @waits _ _ _ registered beside _ deadline owned _ linked =>
        rw [linked]
        rw [deadline, show next.wheel.now = state.wheel.now from beside.aside.now] at future
        cases registered with
        | false => exact .inr rfl
        | true => exact .inl (unexpired entry _ owned future)
    | inserts _ unowned =>
        rw [unowned] at flagged
        cases flagged

theorem Sound.timely (rules : Rule Waker shape rule may safe True) (sound : Sound rule state)
    (admitted : state.Admitted may event) (stepped : state.step shape event = some next)
    (timely : Timely state) : Timely next := by
  obtain ⟨effect, _⟩ := sound.settled rules admitted stepped
  intro entry found owned linked
  rcases effect.cases entry with ⟨count, ticks, advanced, futures, awaiting⟩ | other | own
  · rw [futures] at owned
    rw [awaiting]
    refine sound.advances rules
      (fun wheel => wheel.Linked entry → wheel.currentTick < (wheel.entries entry).deadline ∧
        ∃ waker, state.awaiting entry = some waker ∧ (wheel.entries entry).waker = some waker) ?_
      ticks advanced (timely entry found owned) linked
    intro before after drained held ticked left
    obtain ⟨earlier, future, stored⟩ := ticked.timely left
    obtain ⟨_, waker, awaits, kept⟩ := held earlier
    exact ⟨future, waker, awaits, stored.trans kept⟩
  · rw [other.futures] at owned
    rw [other.same.linked] at linked
    rw [other.now, other.same.deadline, other.same.waker, other.awaiting]
    exact timely entry found owned linked
  · cases own with
    | idles _ unlinked => exact absurd linked unlinked
    | waits _ future _ _ _ _ awaits stored => exact ⟨future, _, awaits, stored⟩
    | inserts _ unowned =>
        rw [unowned] at owned
        cases owned

theorem reachable_inRange (reachable : Reachable (@Shared.step Waker Output shape) initial state) :
    Sound (InRange shape) state :=
  reachable.invariant (fun sound stepped => sound.step (inRange_rule shape) (.of_any _ _) stepped)
    .initial

section NeverEarly

/-- The entries fired in between had reached their deadlines. -/
def Punctual (before after : TimerWheel Waker) : Prop :=
  ∃ fresh, after.fired = before.fired ++ fresh ∧
    ∀ firing ∈ fresh, (before.entries firing.entry).deadline ≤ firing.tick

theorem Sound.punctual (rules : Rule Waker shape rule may True exact) (sound : Sound rule state)
    (admitted : state.Admitted may event) (stepped : state.step shape event = some next) :
    Punctual state.wheel next.wheel := by
  obtain ⟨effect, _⟩ := sound.settled rules admitted stepped
  generalize event.subject = subject at effect
  cases subject with
  | some subject => exact ⟨[], by rw [effect.beside.aside.fired, List.append_nil], by simp⟩
  | none =>
      cases effect with
      | advances count ticks advanced =>
          refine (sound.advances rules
            (fun wheel => Punctual state.wheel wheel ∧ ∀ entry,
              (wheel.entries entry).deadline = (state.wheel.entries entry).deadline) ?_ ticks advanced
            ⟨⟨[], by simp, by simp⟩, fun _ => rfl⟩).1
          rintro before after drained ⟨⟨fresh, fired, punctual⟩, deadlines⟩ ticked
          have grown := ticked.drains.fired
          rw [fired, List.append_assoc] at grown
          refine ⟨⟨_, grown, fun firing member => ?_⟩,
            fun entry => (ticked.drains.deadline entry).trans (deadlines entry)⟩
          rcases List.mem_append.mp member with old | new
          · exact punctual firing old
          · obtain ⟨entry, listed, rfl⟩ := List.mem_map.mp new
            rw [← deadlines]
            exact ticked.punctual trivial entry listed

/-- Since `start` the entry has stayed in the wheel, or been fired. -/
def LinkedOrFired (start : TimerWheel Waker) (entry : Addr) (wheel : TimerWheel Waker) : Prop :=
  ∃ fresh, wheel.fired = start.fired ++ fresh ∧
    (wheel.Linked entry ∨ ∃ firing ∈ fresh, firing.entry = entry ∧ firing.tick ≤ wheel.currentTick)

theorem LinkedOrFired.tick {start before after : TimerWheel Waker} {entry : Addr} {drained : List Addr}
    (since : LinkedOrFired start entry before) (ticked : Ticked safe exact before after drained) :
    LinkedOrFired start entry after := by
  obtain ⟨fresh, fired, since⟩ := since
  have grown := ticked.drains.fired
  rw [fired, List.append_assoc] at grown
  have later : before.currentTick + 1 ≤ after.currentTick := ticked.drains.currentTick.ge
  refine ⟨_, grown, ?_⟩
  rcases since with linked | ⟨firing, member, same, tick⟩
  · by_cases listed : entry ∈ drained
    · exact .inr ⟨_, List.mem_append_right _ (List.mem_map_of_mem listed), rfl, later⟩
    · exact .inl ((ticked.linked entry).mpr ⟨linked, listed⟩)
  · exact .inr ⟨firing, List.mem_append_left _ member, same, tick.trans ((Nat.le_succ _).trans later)⟩

/-- Nothing is left in a wheel whose slots have all been reached. -/
theorem unlinked_of_swept {wheel : TimerWheel Waker} {start : Nat} {entry : Addr}
    (held : Held (Unswept shape start wheel.currentTick) wheel)
    (lap : start + shape.slots ≤ wheel.currentTick) : ¬ wheel.Linked entry := by
  intro linked
  obtain ⟨lists, timers, tracks⟩ := held
  obtain ⟨head, listed⟩ := (tracks.listed_iff entry).mpr ((tracks.linked_iff entry).mp linked)
  exact absurd (tracks.placed head entry listed).within (Nat.not_lt.mpr lap)

/-- A wheel of a single level drains within a lap whatever it holds. -/
theorem Sound.lap {entry : Addr} (single : shape.levels = 1) (sound : Sound (InRange shape) state)
    (ticks : state.wheel.now + shape.slots ≤ U64.max) (linked : state.wheel.Linked entry) :
    ∃ last, state.step shape (.tickN shape.slots : Event Waker Output) = some last ∧
      ∃ fresh, last.wheel.fired = state.wheel.fired ++ fresh ∧
        ∃ firing ∈ fresh, firing.entry = entry ∧ firing.tick ≤ state.wheel.now + shape.slots := by
  have rules := @unswept_rule Waker shape single state.wheel.currentTick
  have unswept : Held (Unswept shape state.wheel.currentTick state.wheel.currentTick) state.wheel := by
    obtain ⟨lists, timers, tracks⟩ := sound.held
    refine ⟨lists, timers, tracks.mono fun head entry _ inRange => ?_⟩
    exact ⟨inRange.1, inRange.2, fun reached later le => absurd le (Nat.not_le.mpr later)⟩
  have starts : LinkedOrFired state.wheel entry state.wheel := ⟨[], (List.append_nil _).symm, .inl linked⟩
  obtain ⟨after, advances, held, now, fresh, fired, since⟩ :=
    rules.tickN_keeps (LinkedOrFired state.wheel entry) .tick unswept ticks starts
  obtain ⟨firing, member, same, tick⟩ := since.resolve_left (unlinked_of_swept held now.ge)
  refine ⟨{ state with wheel := after }, ?_, fresh, fired, firing, member, same, tick.trans now.le⟩
  simp only [Shared.step, if_pos ticks, advances]
  rfl

/-- A poll that registers links the entry. -/
theorem Sound.registers {entry : Addr} (sound : Sound (InRange shape) state) (registers : state.Registers entry)
    (waker : Waker) : ∃ after, state.wheel.pollDeadline shape entry false waker = some (false, after) ∧
      after.Linked entry ∧ after.now = state.wheel.now ∧
      (after.entries entry).deadline = (state.wheel.entries entry).deadline := by
  obtain ⟨⟨kind, owned⟩, future⟩ := registers
  obtain ⟨after, polled, _, aside, linked, _, deadline⟩ :=
    @Held.pollDeadline_waits _ shape _ _ entry false sound.held waker future
      (fun _ => sound.idle entry _ owned rfl) (fun _ => Inner.chooseSlot_inRange _ _ _)
  exact ⟨after, polled, linked.mpr (.inr rfl), aside.now, deadline⟩

/-- What keeps an event from being admitted is the deadline of an entry that it links. -/
theorem Sound.unadmitted (sound : Sound (InRange shape) state) (unadmitted : ¬ state.Admitted may event)
    (stepped : state.step shape event = some next) :
    ∃ entry, next.wheel.Linked entry ∧ next.wheel.now = state.wheel.now ∧
      ¬ may state.wheel.now (next.wheel.entries entry).deadline := by
  cases event with
  | pollSleep entry waker =>
      obtain ⟨registers, beyond⟩ := Classical.not_imp.mp unadmitted
      obtain ⟨after, polled, linked, now, deadline⟩ := sound.registers registers waker
      obtain ⟨⟨kind, owned⟩, _⟩ := registers
      cases kind with
      | sleep =>
          have waits := @Sleep.poll_waits _ shape state.wheel ⟨entry, false⟩ waker after polled
          simp only [Shared.step, owned, waits] at stepped
          obtain rfl := Option.some.inj stepped
          exact ⟨entry, linked, now, fun within => beyond (deadline ▸ within)⟩
      | timeout =>
          simp only [Shared.step, owned] at stepped
          cases stepped
  | pollTimeout entry inner waker =>
      cases inner with
      | ready output => exact absurd trivial unadmitted
      | pending =>
          obtain ⟨registers, beyond⟩ := Classical.not_imp.mp unadmitted
          obtain ⟨after, polled, linked, now, deadline⟩ := sound.registers registers waker
          obtain ⟨⟨kind, owned⟩, _⟩ := registers
          cases kind with
          | sleep =>
              simp only [Shared.step, owned] at stepped
              cases stepped
          | timeout =>
              have waits := @Timeout.poll_waits _ Output shape state.wheel ⟨entry, false⟩ waker after polled
              simp only [Shared.step, owned, waits] at stepped
              obtain rfl := Option.some.inj stepped
              exact ⟨entry, linked, now, fun within => beyond (deadline ▸ within)⟩
  | insert entry deadline waker =>
      simp only [Shared.step] at stepped
      split at stepped
      · next allowed =>
          obtain ⟨after, inserts, _, aside, linked, same⟩ := @Held.insertOwn _ shape _ _ _ sound.held
            (sound.free allowed.1).2 deadline.toNat waker (Inner.chooseSlot_inRange _ _ _)
          rw [inserts] at stepped
          obtain rfl := Option.some.inj stepped
          have beyond : ¬ may state.wheel.now deadline.toNat := unadmitted
          exact ⟨entry, linked, aside.now, fun within => beyond (same ▸ within)⟩
      · cases stepped
  | create | reset | resetPinned | drop | remove | tick | tickN | advanceTo =>
      exact absurd trivial unadmitted

/-- A deadline further ahead than a lap is fired early in the next one. -/
theorem Sound.early (sound : Sound (InRange shape) state)
    (unadmitted : ¬ state.Admitted (WithinLap shape) event) (stepped : state.step shape event = some next) :
    ∃ last, next.step shape (.tickN shape.slots : Event Waker Output) = some last ∧
      ¬ Punctual next.wheel last.wheel := by
  obtain ⟨entry, linked, now, beyond⟩ := sound.unadmitted unadmitted stepped
  obtain ⟨coarse, far⟩ := not_or.mp beyond
  have single : shape.levels = 1 := le_antisymm (Nat.le_of_lt_succ (Nat.lt_of_not_le coarse)) shape.oneLeLevels
  have far : next.wheel.now + shape.slots < (next.wheel.entries entry).deadline :=
    now ▸ Nat.lt_of_not_le far
  have later : Sound (InRange shape) next := sound.step (inRange_rule shape) (.of_any _ _) stepped
  obtain ⟨last, laps, fresh, fired, firing, member, same, tick⟩ :=
    @Sound.lap Waker Output shape _ entry single later (far.le.trans (later.fits entry)) linked
  refine ⟨last, laps, ?_⟩
  rintro ⟨others, grown, punctual⟩
  obtain rfl : fresh = others := List.append_cancel_left (fired.symm.trans grown)
  have due := punctual firing member
  rw [same] at due
  exact absurd (due.trans tick) (Nat.not_le.mpr far)

/-- Runs that link no deadline beyond one lap ahead into a wheel of a single level fire no entry
early, and unlink no sleep or timeout that still has to wait. An event that links another one fires
early, in any run, within a lap of ticks. -/
theorem run_neverEarly (shape : Shape) (events : List (Event Waker Output)) (state : Shared Waker)
    (ran : run (step shape) events initial = some state) :
    (AllAllowed (step shape) (Admitted (WithinLap shape)) events initial →
      (∀ (event : Event Waker Output) next, state.Admitted (WithinLap shape) event →
        state.step shape event = some next → Punctual state.wheel next.wheel) ∧
      ∀ entry waker, state.awaiting entry = some waker →
        state.wheel.now < (state.wheel.entries entry).deadline → state.wheel.Linked entry) ∧
    ∀ (event : Event Waker Output) next, ¬ state.Admitted (WithinLap shape) event →
      state.step shape event = some next →
      ∃ last, next.step shape (.tickN shape.slots : Event Waker Output) = some last ∧
        ¬ Punctual next.wheel last.wheel := by
  refine ⟨fun within => ?_, fun event next unadmitted stepped => ?_⟩
  · have rules := @near_rule Waker shape
    obtain ⟨sound, unexpired⟩ := within.keeps
      (fun state => Sound (fun tick => Near shape (tick + 1)) state ∧ Unexpired state)
      (fun holds stepped admitted => ⟨holds.1.step rules admitted stepped,
        holds.1.unexpired rules admitted stepped holds.2⟩)
      ⟨.initial, fun _ _ owned => by cases owned⟩ ran
    refine ⟨fun event next admitted stepped => sound.punctual rules admitted stepped, ?_⟩
    intro entry waker awaits future
    obtain ⟨kind, flagged⟩ := sound.flagged entry waker awaits
    exact unexpired entry kind flagged future
  · exact (reachable_inRange ⟨events, ran⟩).early unadmitted stepped

/-- A sleep one lap ahead over a wheel of a single level. -/
theorem run_neverEarly_oneLap : ∃ state : Shared Unit,
    run (@step Unit Unit ⟨2, 1, le_rfl, le_rfl⟩) [.create 7 .sleep 2, .pollSleep 7 (), .tick] initial =
      some state ∧ state.wheel.Linked 7 := by
  refine ⟨_, rfl, ?_⟩
  refine ((run_neverEarly ⟨2, 1, le_rfl, le_rfl⟩
    [.create 7 .sleep 2, .pollSleep 7 (), (.tick : Event Unit Unit)] _ rfl).1 ?_).2 7 () rfl (by decide)
  rintro _ ⟨⟩
  refine ⟨trivial, ?_⟩
  rintro _ ⟨⟩
  refine ⟨fun _ => .inr (by decide), ?_⟩
  rintro _ ⟨⟩
  exact ⟨trivial, trivial⟩

/-- A single level only tells deadlines apart modulo its slots: a sleep of five ticks is
drained in the first one, and pending for good. -/
theorem early_singleLevel : ∃ state next : Shared Unit,
    run (@step Unit Unit ⟨2, 1, le_rfl, le_rfl⟩) [.create 7 .sleep 5, .pollSleep 7 ()] initial =
      some state ∧
    step ⟨2, 1, le_rfl, le_rfl⟩ state (.tick : Event Unit Unit) = some next ∧
    ¬ Punctual state.wheel next.wheel ∧
    next.awaiting 7 = some () ∧ next.wheel.now < (next.wheel.entries 7).deadline ∧
    (next.wheel.entries 7).isRegistered = false := by
  refine ⟨_, _, rfl, rfl, ?_, rfl, by decide, rfl⟩
  rintro ⟨fresh, fired, punctual⟩
  have drained : [⟨1, 7, some ()⟩] = fresh := fired
  subst drained
  exact absurd (punctual _ (List.mem_singleton_self _)) (by decide)

end NeverEarly

section Wakes

variable {earlier : List (Firing Waker)} {entry : Addr} {deadline : Nat} {waker : Waker}
  {wheel : TimerWheel Waker}

/-- What has become of the entry of a pending future: it waits in the wheel with the waker
of the last poll, or that waker was woken in the tick of the deadline. -/
inductive Wait (earlier : List (Firing Waker)) (entry : Addr) (deadline : Nat) (waker : Waker)
    (wheel : TimerWheel Waker) : Prop
  | waiting (future : wheel.currentTick < deadline) (linked : wheel.Linked entry)
      (held : (wheel.entries entry).deadline = deadline)
      (stored : (wheel.entries entry).waker = some waker)
      (fired : firingsOf entry wheel.fired = earlier)
  | woken (reached : deadline ≤ wheel.currentTick) (unlinked : ¬ wheel.Linked entry)
      (fired : firingsOf entry wheel.fired = earlier ++ [⟨deadline, entry, some waker⟩])

theorem Wait.other (wait : Wait earlier entry deadline waker state.wheel)
    (other : Other state next entry) : Wait earlier entry deadline waker next.wheel := by
  have now : next.wheel.currentTick = state.wheel.currentTick := other.now
  cases wait with
  | waiting future linked held stored fired =>
      exact .waiting (by omega) (other.same.linked.mpr linked) (other.same.deadline.trans held)
        (other.same.waker.trans stored) (by rw [other.fired, fired])
  | woken reached unlinked fired =>
      exact .woken (by omega) (other.same.linked.not.mpr unlinked) (by rw [other.fired, fired])

theorem Wait.ticked {after : TimerWheel Waker} {drained : List Addr}
    (wait : Wait earlier entry deadline waker wheel) (ticked : Ticked True True wheel after drained) :
    Wait earlier entry deadline waker after := by
  have now := ticked.drains.currentTick
  have fired := ticked.firingsOf entry
  cases wait with
  | waiting future linked held stored before =>
      by_cases due : deadline = wheel.currentTick + 1
      · have listed : entry ∈ drained := ticked.complete trivial entry linked (by omega)
        refine .woken (by omega) (fun left => ((ticked.linked entry).mp left).2 listed) ?_
        rw [fired, if_pos listed, before, stored, due]
      · have remains : entry ∉ drained := fun listed => by
          have reached := ticked.punctual trivial entry listed
          omega
        refine .waiting (by omega) ((ticked.linked entry).mpr ⟨linked, remains⟩)
          ((ticked.drains.deadline entry).trans held) ?_ ?_
        · rw [ticked.drains.waker, if_neg remains, stored]
        · rw [fired, if_neg remains, List.append_nil, before]
  | woken reached unlinked before =>
      have remains : entry ∉ drained := fun listed => unlinked (ticked.taken entry listed)
      refine .woken (by omega) (fun left => unlinked ((ticked.linked entry).mp left).1) ?_
      rw [fired, if_neg remains, List.append_nil, before]

theorem Sound.wait (rules : Rule Waker shape rule may True True) (sound : Sound rule state)
    (admitted : state.Admitted may event) (stepped : state.step shape event = some next)
    (untouched : event.subject ≠ some entry) (wait : Wait earlier entry deadline waker state.wheel) :
    Wait earlier entry deadline waker next.wheel ∧ next.awaiting entry = state.awaiting entry := by
  obtain ⟨effect, _⟩ := sound.settled rules admitted stepped
  generalize event.subject = subject at effect untouched
  cases subject with
  | none =>
      cases effect with
      | advances count ticks advanced _ awaiting =>
          exact ⟨sound.advances rules _ Wait.ticked ticks advanced wait, by rw [awaiting]⟩
  | some subject =>
      have beside := effect.beside
      have distinct : entry ≠ subject := fun same => untouched (congrArg some same.symm)
      exact ⟨wait.other ⟨beside.aside.now, beside.aside.fired, beside.aside.others entry distinct,
        beside.futures entry distinct, beside.awaiting entry distinct⟩, beside.awaiting entry distinct⟩

end Wakes

section Scheduled

/-- How a timer future and the wheel stand to each other, whatever is called next. -/
structure Scheduled (Output : Type) (shape : Shape) (state : Shared Waker) (entry : Addr)
    (future : TimerFuture) : Prop where
  linked_iff : state.wheel.Linked entry ↔ (state.awaiting entry).isSome = true ∧
    state.wheel.now < (state.wheel.entries entry).deadline
  carries : state.wheel.Linked entry → (state.wheel.entries entry).waker = state.awaiting entry
  sleepPoll : future.kind = .sleep → ∀ waker, ∃ poll sleep wheel,
    Sleep.poll shape state.wheel ⟨entry, future.registered⟩ waker = some (poll, sleep, wheel) ∧
    if (state.wheel.entries entry).deadline ≤ state.wheel.now then
      poll = .ready () ∧ ¬ wheel.Linked entry
    else poll = .pending
  timeoutPoll : future.kind = .timeout → ∀ (inner : Poll Output) waker, ∃ poll timeout wheel,
    Timeout.poll shape state.wheel ⟨entry, future.registered⟩ inner waker =
      some (poll, timeout, wheel) ∧
    match inner with
    | .ready output => poll = .ready (.ok output) ∧ ¬ wheel.Linked entry
    | .pending =>
        if (state.wheel.entries entry).deadline ≤ state.wheel.now then
          poll = .ready (.error .timedOut) ∧ ¬ wheel.Linked entry
        else poll = .pending
  reset : future.kind = .sleep → ∀ deadline : UInt64, ∃ sleep wheel,
    Sleep.reset state.wheel ⟨entry, future.registered⟩ deadline.toNat = some (sleep, wheel) ∧
    Sleep.resetPinned state.wheel ⟨entry, future.registered⟩ deadline.toNat = some (sleep, wheel) ∧
    ¬ wheel.Linked entry
  drop : ∃ wheel, Sleep.drop state.wheel ⟨entry, future.registered⟩ = some wheel ∧
    Timeout.drop state.wheel ⟨entry, future.registered⟩ = some wheel ∧ ¬ wheel.Linked entry
  wakes : ∀ waker (later : List (Event Waker Output)) last, state.awaiting entry = some waker →
    state.wheel.now < (state.wheel.entries entry).deadline →
    (∀ event ∈ later, event.subject ≠ some entry) → run (step shape) later state = some last →
    last.awaiting entry = some waker ∧
    firingsOf entry last.wheel.fired = firingsOf entry state.wheel.fired ++
      if (state.wheel.entries entry).deadline ≤ last.wheel.now then
        [⟨(state.wheel.entries entry).deadline, entry, some waker⟩] else []

theorem Sound.sleepPoll {registered : Bool} {entry : Addr}
    (rules : Rule Waker shape rule (fun _ _ => True) safe exact) (sound : Sound rule state)
    (owned : state.futures entry = some ⟨.sleep, registered⟩) (waker : Waker) :
    ∃ poll sleep wheel,
      Sleep.poll shape state.wheel ⟨entry, registered⟩ waker = some (poll, sleep, wheel) ∧
      if (state.wheel.entries entry).deadline ≤ state.wheel.now then
        poll = .ready () ∧ ¬ wheel.Linked entry
      else poll = .pending := by
  obtain ⟨reached, after, polled, due, unlinked, _⟩ :=
    sound.pollDeadline rules owned waker fun _ => trivial
  cases reached with
  | true =>
      refine ⟨_, _, after, Sleep.poll_reached polled, ?_⟩
      rw [if_pos (due.mp rfl)]
      exact ⟨rfl, unlinked rfl⟩
  | false =>
      refine ⟨_, _, after, Sleep.poll_waits polled, ?_⟩
      rw [if_neg (due.not.mp Bool.false_ne_true)]

theorem Sound.timeoutPoll {registered : Bool} {entry : Addr}
    (rules : Rule Waker shape rule (fun _ _ => True) safe exact) (sound : Sound rule state)
    (owned : state.futures entry = some ⟨.timeout, registered⟩) (inner : Poll Output)
    (waker : Waker) :
    ∃ poll timeout wheel,
      Timeout.poll shape state.wheel ⟨entry, registered⟩ inner waker = some (poll, timeout, wheel) ∧
      match inner with
      | .ready output => poll = .ready (.ok output) ∧ ¬ wheel.Linked entry
      | .pending =>
          if (state.wheel.entries entry).deadline ≤ state.wheel.now then
            poll = .ready (.error .timedOut) ∧ ¬ wheel.Linked entry
          else poll = .pending := by
  cases inner with
  | ready output =>
      obtain ⟨after, removes, unlinked, _⟩ := sound.remove shape entry none (by rintro _ ⟨⟩)
      exact ⟨_, _, after, Timeout.poll_completed removes, rfl, unlinked⟩
  | pending =>
      obtain ⟨reached, after, polled, due, unlinked, _⟩ :=
        sound.pollDeadline rules owned waker fun _ => trivial
      cases reached with
      | true =>
          refine ⟨_, _, after, Timeout.poll_reached polled, ?_⟩
          dsimp only
          rw [if_pos (due.mp rfl)]
          exact ⟨rfl, unlinked rfl⟩
      | false =>
          refine ⟨_, _, after, Timeout.poll_waits polled, ?_⟩
          dsimp only
          rw [if_neg (due.not.mp Bool.false_ne_true)]

theorem Sound.wakes {entry : Addr} {waker : Waker} {last : Shared Waker}
    {earlier : List (Firing Waker)} {deadline : Nat}
    (rules : Rule Waker shape rule (fun _ _ => True) True True) (sound : Sound rule state)
    {later : List (Event Waker Output)} (untouched : ∀ event ∈ later, event.subject ≠ some entry)
    (ran : run (Shared.step shape) later state = some last)
    (wait : Wait earlier entry deadline waker state.wheel) :
    Wait earlier entry deadline waker last.wheel ∧ last.awaiting entry = state.awaiting entry := by
  induction later generalizing state with
  | nil =>
      obtain rfl := Option.some.inj ran
      exact ⟨wait, rfl⟩
  | cons event later ih =>
      obtain ⟨next, stepped, rest⟩ := run_cons ran
      obtain ⟨waits, awaits⟩ :=
        sound.wait rules (.of_any _ _) stepped (untouched event (.head _)) wait
      obtain ⟨ends, same⟩ := ih (sound.step rules (.of_any _ _) stepped)
        (fun found member => untouched found (.tail _ member)) rest waits
      exact ⟨ends, same.trans awaits⟩

/-- However polls, ticks, resets and drops interleave, a timer future is in the wheel
exactly while it waits, and it is woken in the tick of its deadline. -/
theorem reachable_awaited (levels : 2 ≤ shape.levels) (fits : shape.slots ^ shape.levels ≤ U64.max)
    (state : Shared Waker) (reachable : Reachable (@step Waker Output shape) initial state)
    (entry : Addr) (future : TimerFuture) (owned : state.futures entry = some future) :
    Scheduled Output shape state entry future := by
  have rules := @placed_rule Waker shape levels fits
  have starts : Unexpired (initial : Shared Waker) ∧ Timely (initial : Shared Waker) :=
    ⟨fun _ _ owned => (by cases owned), fun _ _ owned => (by cases owned)⟩
  obtain ⟨sound, unexpired, timely⟩ := @Reachable.invariant _ _ _
    (fun state => Sound (Placed shape) state ∧ Unexpired state ∧ Timely state)
    (fun holds stepped => ⟨holds.1.step rules (.of_any _ _) stepped,
      holds.1.unexpired rules (.of_any _ _) stepped holds.2.1,
      holds.1.timely rules (.of_any _ _) stepped holds.2.2⟩) _ _ reachable ⟨.initial, starts⟩
  obtain ⟨kind, registered⟩ := future
  constructor
  · constructor
    · intro linked
      obtain ⟨ahead, waker, awaits, _⟩ := timely entry _ owned linked
      exact ⟨by rw [awaits]; rfl, ahead⟩
    · rintro ⟨awaits, ahead⟩
      obtain ⟨waker, awaits⟩ := Option.isSome_iff_exists.mp awaits
      obtain ⟨kind, flagged⟩ := sound.flagged entry waker awaits
      exact unexpired entry kind flagged ahead
  · intro linked
    obtain ⟨_, waker, awaits, stored⟩ := timely entry _ owned linked
    rw [stored, awaits]
  · rintro ⟨⟩
    exact sound.sleepPoll rules owned
  · rintro ⟨⟩
    exact sound.timeoutPoll rules owned
  · intro _ deadline
    obtain ⟨sleep, wheel, resets, unlinked, _⟩ := sound.reset shape entry registered deadline
    exact ⟨sleep, wheel, resets, resets, unlinked⟩
  · obtain ⟨wheel, removes, unlinked, _⟩ := sound.remove shape entry none (by rintro _ ⟨⟩)
    exact ⟨wheel, removes, removes, unlinked⟩
  · intro waker later last awaits ahead untouched ran
    obtain ⟨kind, flagged⟩ := sound.flagged entry waker awaits
    have linked := unexpired entry kind flagged ahead
    obtain ⟨_, found, awaited, stored⟩ := timely entry _ owned linked
    obtain rfl : found = waker := Option.some.inj (awaited.symm.trans awaits)
    obtain ⟨wait, same⟩ :=
      sound.wakes rules untouched ran (.waiting ahead linked rfl stored rfl)
    refine ⟨same.trans awaits, ?_⟩
    cases wait with
    | waiting future _ _ _ fired =>
        have ahead : last.wheel.now < (state.wheel.entries entry).deadline := future
        rw [fired, if_neg (Nat.not_le.mpr ahead), List.append_nil]
    | woken reached _ fired =>
        have due : (state.wheel.entries entry).deadline ≤ last.wheel.now := reached
        rw [fired, if_pos due]

/-- A sleep of three ticks over the smallest hierarchy. -/
theorem reachable_awaited_sleep : ∃ state last : Shared Unit,
    run (@step Unit Unit ⟨2, 2, le_rfl, by decide⟩) [.create 7 .sleep 3, .pollSleep 7 ()] initial =
      some state ∧
    run (@step Unit Unit ⟨2, 2, le_rfl, by decide⟩) [.tickN 3] state = some last ∧
    firingsOf 7 last.wheel.fired = [⟨3, 7, some ()⟩] := by
  refine ⟨_, _, rfl, rfl, ?_⟩
  have scheduled := @reachable_awaited Unit Unit ⟨2, 2, le_rfl, by decide⟩ le_rfl (by decide) _
    ⟨[.create 7 .sleep 3, .pollSleep 7 ()], rfl⟩ 7 ⟨.sleep, true⟩ rfl
  exact (scheduled.wakes () [.tickN 3] _ rfl (by decide) (by simp [Event.subject]) rfl).2

end Scheduled

end TptAsync.Timer.Shared
