import TptAsync.Timer.Shared
import TptAsync.Timer.WheelDelivery
import TptAsync.Timer.WheelRules

set_option autoImplicit false

/-!
# Effects of the events on a shared wheel

Every event but the ticks concerns one entry and leaves the others as they were. Of its
own entry, it either takes it out of the wheel, waits for its deadline, or inserts it by hand.
-/

namespace TptAsync.Timer

open Lib Lib.IntrusiveList

variable {Waker Output : Type} {shape : Shape} {place : SlotHead → Nat → Prop}
  {wheel : TimerWheel Waker} {entry : Addr}

/-- The lists of the wheel are whole and its entries placed by the rule. -/
def Held (place : SlotHead → Nat → Prop) (wheel : TimerWheel Waker) : Prop :=
  ∃ lists timers, Tracks place wheel lists none [] timers

/-- What is the same of one entry before and after. -/
structure SameEntry (before after : TimerWheel Waker) (entry : Addr) : Prop where
  deadline : (after.entries entry).deadline = (before.entries entry).deadline
  waker : (after.entries entry).waker = (before.entries entry).waker
  linked : after.Linked entry ↔ before.Linked entry

/-- Time stands still, and only `entry` is touched. -/
structure Aside (entry : Addr) (before after : TimerWheel Waker) : Prop where
  now : after.currentTick = before.currentTick
  fired : after.fired = before.fired
  others : ∀ other, other ≠ entry → SameEntry before after other

theorem Aside.trans {first second third : TimerWheel Waker} (left : Aside entry first second)
    (right : Aside entry second third) : Aside entry first third where
  now := right.now.trans left.now
  fired := right.fired.trans left.fired
  others other distinct :=
    have before := left.others other distinct
    have after := right.others other distinct
    ⟨after.deadline.trans before.deadline, after.waker.trans before.waker,
      after.linked.trans before.linked⟩

section Wheel

theorem Held.isRegistered_iff (held : Held place wheel) (entry : Addr) :
    (wheel.entries entry).isRegistered = true ↔ wheel.Linked entry := by
  obtain ⟨lists, timers, tracks⟩ := held
  rw [tracks.isRegistered_iff, tracks.linked_iff]

theorem Held.own (held : Held place wheel) (unlinked : ¬ wheel.Linked entry) (deadline : Nat)
    (waker : Option Waker) :
    Held place (wheel.own entry deadline waker) ∧ Aside entry wheel (wheel.own entry deadline waker) ∧
      ¬ Inner.Linked (wheel.own entry deadline waker) entry := by
  obtain ⟨lists, timers, tracks⟩ := held
  rw [tracks.linked_iff] at unlinked
  have owned := tracks.own unlinked deadline waker
  have linked : ∀ other, Inner.Linked (wheel.own entry deadline waker) other ↔ wheel.Linked other :=
    fun other => (owned.linked_iff other).trans (tracks.linked_iff other).symm
  refine ⟨⟨lists, timers, owned⟩, ⟨rfl, rfl, fun other distinct => ⟨?_, ?_, linked other⟩⟩, ?_⟩
  · rw [TimerWheel.own_other distinct]
  · rw [TimerWheel.own_other distinct]
  · rwa [linked, tracks.linked_iff]

theorem Held.setWaker (held : Held place wheel) (entry : Addr) (waker : Waker) :
    Held place (wheel.setWaker entry waker) ∧ Aside entry wheel (wheel.setWaker entry waker) ∧
      (Inner.Linked (wheel.setWaker entry waker) entry ↔ wheel.Linked entry) := by
  obtain ⟨lists, timers, tracks⟩ := held
  have stored := tracks.setWaker entry waker
  have linked : ∀ other, Inner.Linked (wheel.setWaker entry waker) other ↔ wheel.Linked other :=
    fun other => (stored.linked_iff other).trans (tracks.linked_iff other).symm
  refine ⟨⟨lists, timers, stored⟩, ⟨rfl, rfl, fun other distinct => ⟨?_, ?_, linked other⟩⟩,
    linked entry⟩
  · exact wheel.setWaker_deadline entry waker other
  · simp [TimerWheel.setWaker, distinct]

theorem Held.insert (held : Held place wheel) (unlinked : ¬ wheel.Linked entry)
    (placed : place (Inner.chooseSlot shape wheel (wheel.entries entry).deadline)
      (wheel.entries entry).deadline) :
    Held place (Inner.insert shape wheel entry) ∧ Aside entry wheel (Inner.insert shape wheel entry) ∧
      Inner.Linked (Inner.insert shape wheel entry) entry := by
  obtain ⟨lists, timers, tracks⟩ := held
  rw [tracks.linked_iff] at unlinked
  let timer : FlatTimer := ⟨entry, (wheel.entries entry).deadline, 0⟩
  obtain ⟨lists', inserted⟩ := @Tracks.insert _ shape _ _ _ _ timer tracks unlinked rfl placed
  have linked : ∀ other, Inner.Linked (Inner.insert shape wheel entry) other ↔
      wheel.Linked other ∨ other = entry := by
    intro other
    rw [inserted.linked_iff, tracks.linked_iff, List.map_append, List.mem_append]
    simp [timer]
  have frame := Inner.link_frame wheel
    (Inner.chooseSlot shape wheel (wheel.entries entry).deadline) entry
  refine ⟨⟨lists', _, inserted⟩, ⟨frame.tick, frame.fired, fun other distinct =>
    ⟨frame.deadline other, frame.waker other, ?_⟩⟩, ?_⟩
  · rw [linked]
    simp [distinct]
  · simp [linked]

theorem Held.insertOwn (held : Held place wheel) (unlinked : ¬ wheel.Linked entry) {deadline : Nat}
    {waker : Option Waker}
    (placed : place (Inner.chooseSlot shape (wheel.own entry deadline waker) deadline) deadline) :
    ∃ after, Inner.insert shape (wheel.own entry deadline waker) entry = after ∧ Held place after ∧
      Aside entry wheel after ∧ after.Linked entry ∧ (after.entries entry).deadline = deadline := by
  obtain ⟨held, aside, fresh⟩ := held.own unlinked deadline waker
  have owned := TimerWheel.own_deadline wheel entry deadline waker
  obtain ⟨held, beside, linked⟩ := @Held.insert _ shape _ _ _ held fresh (by rwa [owned])
  have frame := Inner.link_frame (wheel.own entry deadline waker)
    (Inner.chooseSlot shape (wheel.own entry deadline waker)
      ((wheel.own entry deadline waker).entries entry).deadline) entry
  exact ⟨_, rfl, held, aside.trans beside, linked, (frame.deadline entry).trans owned⟩

theorem Held.remove (held : Held place wheel) (entry : Addr) :
    ∃ after, Inner.remove wheel entry = some after ∧ Held place after ∧ Aside entry wheel after ∧
      ¬ after.Linked entry ∧
      (after.entries entry).deadline = (wheel.entries entry).deadline := by
  obtain ⟨lists, timers, tracks⟩ := held
  obtain ⟨after, lists', removes, kept, frame⟩ := tracks.remove entry
  have linked : ∀ other, after.Linked other ↔ wheel.Linked other ∧ other ≠ entry := by
    intro other
    rw [kept.linked_iff, tracks.linked_iff]
    simp only [List.mem_map, List.mem_filter, decide_eq_true_eq]
    constructor
    · rintro ⟨timer, ⟨member, distinct⟩, rfl⟩
      exact ⟨⟨timer, member, rfl⟩, distinct⟩
    · rintro ⟨⟨timer, member, rfl⟩, distinct⟩
      exact ⟨timer, ⟨member, distinct⟩, rfl⟩
  refine ⟨after, removes, ⟨lists', _, kept⟩, ⟨frame.tick, frame.fired, fun other distinct =>
    ⟨frame.deadline other, frame.waker other, ?_⟩⟩, ?_, frame.deadline entry⟩
  · rw [linked]
    exact and_iff_left distinct
  · rw [linked]
    exact fun kept => kept.2 rfl

theorem Held.pollDeadline_reached (held : Held place wheel) (registered : Bool) (waker : Waker)
    (reached : (wheel.entries entry).deadline ≤ wheel.now) :
    ∃ after, wheel.pollDeadline shape entry registered waker = some (true, after) ∧
      Held place after ∧ Aside entry wheel after ∧ ¬ after.Linked entry ∧
      (after.entries entry).deadline = (wheel.entries entry).deadline := by
  obtain ⟨after, removes, rest⟩ := held.remove entry
  refine ⟨after, ?_, rest⟩
  rw [TimerWheel.pollDeadline, if_pos reached, removes]
  rfl

theorem Held.pollDeadline_waits {registered : Bool} (held : Held place wheel) (waker : Waker)
    (future : wheel.now < (wheel.entries entry).deadline)
    (idle : registered = false → ¬ wheel.Linked entry)
    (placed : registered = false →
      place (Inner.chooseSlot shape wheel (wheel.entries entry).deadline)
        (wheel.entries entry).deadline) :
    ∃ after, wheel.pollDeadline shape entry registered waker = some (false, after) ∧
      Held place after ∧ Aside entry wheel after ∧
      (after.Linked entry ↔ wheel.Linked entry ∨ registered = false) ∧
      (after.entries entry).waker = some waker ∧
      (after.entries entry).deadline = (wheel.entries entry).deadline := by
  obtain ⟨stored, aside, linked⟩ := held.setWaker entry waker
  have storedWaker : ((wheel.setWaker entry waker).entries entry).waker = some waker := by
    simp [TimerWheel.setWaker]
  have storedDeadline := wheel.setWaker_deadline entry waker entry
  rw [TimerWheel.pollDeadline, if_neg (Nat.not_le.mpr future)]
  cases registered with
  | true =>
      refine ⟨_, rfl, stored, aside, ?_, storedWaker, storedDeadline⟩
      rw [linked]
      simp
  | false =>
      rw [← storedDeadline] at placed
      obtain ⟨inserted, beside, entered⟩ :=
        @Held.insert _ shape _ _ _ stored (linked.not.mpr (idle rfl)) (placed rfl)
      have frame := Inner.link_frame (wheel.setWaker entry waker)
        (Inner.chooseSlot shape (wheel.setWaker entry waker)
          ((wheel.setWaker entry waker).entries entry).deadline) entry
      refine ⟨_, rfl, inserted, aside.trans beside, ?_, (frame.waker entry).trans storedWaker,
        (frame.deadline entry).trans storedDeadline⟩
      exact iff_of_true entered (.inr rfl)

end Wheel

section Ticks

variable {rule : Nat → SlotHead → Nat → Prop} {may : Nat → Nat → Prop} {safe exact : Prop}

/-- One tick under a rule, which takes out of the wheel the entries it drains. -/
structure Ticked (safe exact : Prop) (before after : TimerWheel Waker) (drained : List Addr) :
    Prop where
  drains : Drains before after drained (before.currentTick + 1)
  linked : ∀ entry, after.Linked entry ↔ before.Linked entry ∧ entry ∉ drained
  taken : ∀ entry ∈ drained, before.Linked entry
  punctual : safe → ∀ entry ∈ drained, (before.entries entry).deadline ≤ before.currentTick + 1
  complete : exact → ∀ entry, before.Linked entry →
    (before.entries entry).deadline ≤ before.currentTick + 1 → entry ∈ drained

theorem Rule.advanceOne (rules : Rule Waker shape rule may safe exact)
    (held : Held (rule wheel.currentTick) wheel) (ticks : wheel.currentTick < U64.max) :
    ∃ after drained, Inner.advanceOne shape wheel = some after ∧
      Held (rule after.currentTick) after ∧ Ticked safe exact wheel after drained := by
  obtain ⟨lists, timers, tracks⟩ := held
  obtain ⟨after, lists', drained, advances, kept, drains, taken, punctual, complete⟩ :=
    rules.advances ticks tracks
  refine ⟨after, drained, advances, ?_, drains, ?_, ?_, punctual, ?_⟩
  · rw [drains.currentTick]
    exact ⟨lists', _, kept⟩
  · intro entry
    rw [kept.linked_iff, tracks.linked_iff]
    simp only [List.mem_map, List.mem_filter, decide_eq_true_eq]
    constructor
    · rintro ⟨timer, ⟨member, remains⟩, rfl⟩
      exact ⟨⟨timer, member, rfl⟩, remains⟩
    · rintro ⟨⟨timer, member, rfl⟩, remains⟩
      exact ⟨timer, ⟨member, remains⟩, rfl⟩
  · exact fun entry listed => (tracks.linked_iff entry).mpr (taken entry listed)
  · intro exact entry linked due
    obtain ⟨timer, member, rfl⟩ := List.mem_map.mp ((tracks.linked_iff entry).mp linked)
    rw [tracks.deadline timer member] at due
    exact complete exact timer member due

theorem Ticked.unexpired {before after : TimerWheel Waker} {drained : List Addr}
    (ticked : Ticked True exact before after drained) {entry : Addr}
    (linked : before.currentTick < (before.entries entry).deadline → before.Linked entry)
    (future : after.currentTick < (after.entries entry).deadline) : after.Linked entry := by
  rw [ticked.drains.currentTick, ticked.drains.deadline] at future
  refine (ticked.linked entry).mpr ⟨linked (Nat.lt_of_succ_lt future), fun listed => ?_⟩
  exact absurd (ticked.punctual trivial entry listed) (Nat.not_le.mpr future)

/-- What an exact tick leaves linked is ahead of the clock, and keeps its waker. -/
theorem Ticked.timely {before after : TimerWheel Waker} {drained : List Addr}
    (ticked : Ticked safe True before after drained) {entry : Addr} (linked : after.Linked entry) :
    before.Linked entry ∧ after.currentTick < (after.entries entry).deadline ∧
      (after.entries entry).waker = (before.entries entry).waker := by
  obtain ⟨earlier, remains⟩ := (ticked.linked entry).mp linked
  refine ⟨earlier, ?_, ?_⟩
  · rw [ticked.drains.currentTick, ticked.drains.deadline]
    exact Nat.lt_of_not_le fun due => remains (ticked.complete trivial entry earlier due)
  · rw [ticked.drains.waker, if_neg remains]

theorem Ticked.firingsOf {before after : TimerWheel Waker} {drained : List Addr}
    (ticked : Ticked safe exact before after drained) (entry : Addr) :
    firingsOf entry after.fired = firingsOf entry before.fired ++
      if entry ∈ drained then
        [⟨before.currentTick + 1, entry, (before.entries entry).waker⟩] else [] := by
  simp only [Timer.firingsOf, ticked.drains.fired, List.filter_append, List.filter_map,
    Function.comp_def, List.filter_beq]
  split
  · next listed =>
      rw [List.count_eq_one_of_mem ticked.drains.nodup listed]
      rfl
  · next missing =>
      rw [List.count_eq_zero_of_not_mem missing]
      rfl

/-- What every tick keeps, a number of ticks keeps. -/
theorem Rule.tickN_keeps (rules : Rule Waker shape rule may safe exact)
    (keeps : TimerWheel Waker → Prop)
    (steps : ∀ {before after : TimerWheel Waker} {drained : List Addr},
      keeps before → Ticked safe exact before after drained → keeps after)
    {count : Nat} (held : Held (rule wheel.currentTick) wheel)
    (ticks : wheel.currentTick + count ≤ U64.max) (starts : keeps wheel) :
    ∃ after, wheel.tickN shape count = some after ∧ Held (rule after.currentTick) after ∧
      after.currentTick = wheel.currentTick + count ∧ keeps after := by
  induction count generalizing wheel with
  | zero => exact ⟨wheel, rfl, held, rfl, starts⟩
  | succ count ih =>
      obtain ⟨middle, drained, advances, kept, ticked⟩ := rules.advanceOne held (by omega)
      have now := ticked.drains.currentTick
      obtain ⟨after, finishes, left, later, ends⟩ := ih kept (by omega) (steps starts ticked)
      refine ⟨after, ?_, left, by omega, ends⟩
      simp only [TimerWheel.tickN, advances, Option.bind_eq_bind, Option.bind_some, finishes]

theorem Rule.advanceLoop_eq (rules : Rule Waker shape rule may safe exact) {target fuel : Nat}
    (held : Held (rule wheel.currentTick) wheel) (bound : target ≤ U64.max)
    (enough : target - wheel.currentTick ≤ fuel) :
    wheel.advanceLoop shape target fuel = wheel.tickN shape (target - wheel.currentTick) := by
  induction fuel generalizing wheel with
  | zero =>
      rw [Nat.le_zero.mp enough]
      rfl
  | succ fuel ih =>
      rw [TimerWheel.advanceLoop]
      split
      · next behind =>
          obtain ⟨middle, drained, advances, kept, ticked⟩ := rules.advanceOne held (by omega)
          have now := ticked.drains.currentTick
          have missing : target - wheel.currentTick = target - middle.currentTick + 1 := by omega
          rw [missing, TimerWheel.tickN, advances]
          exact ih kept (by omega)
      · next reached =>
          rw [Nat.sub_eq_zero_of_le (Nat.le_of_not_lt reached)]
          rfl

/-- `advance_to` is as many ticks as are missing. -/
theorem Rule.advanceTo_eq (rules : Rule Waker shape rule may safe exact) {target : Nat}
    (held : Held (rule wheel.currentTick) wheel) (bound : target ≤ U64.max) :
    wheel.advanceTo shape target = wheel.tickN shape (target - wheel.currentTick) :=
  rules.advanceLoop_eq held bound le_rfl

end Ticks

theorem Sleep.poll_reached {sleep : Sleep} {waker : Waker} {after : TimerWheel Waker}
    (polled : wheel.pollDeadline shape sleep.entry sleep.registered waker = some (true, after)) :
    sleep.poll shape wheel waker = some (.ready (), { sleep with registered := false }, after) := by
  simp [Sleep.poll, polled]

theorem Sleep.poll_waits {sleep : Sleep} {waker : Waker} {after : TimerWheel Waker}
    (polled : wheel.pollDeadline shape sleep.entry sleep.registered waker = some (false, after)) :
    sleep.poll shape wheel waker = some (.pending, { sleep with registered := true }, after) := by
  simp [Sleep.poll, polled]

theorem Timeout.poll_completed {timeout : Timeout} {output : Output} {waker : Waker}
    {after : TimerWheel Waker} (removes : Inner.remove wheel timeout.entry = some after) :
    timeout.poll shape wheel (.ready output) waker =
      some (.ready (.ok output), { timeout with registered := false }, after) := by
  simp [Timeout.poll, removes]

theorem Timeout.poll_reached {timeout : Timeout} {waker : Waker} {after : TimerWheel Waker}
    (polled : wheel.pollDeadline shape timeout.entry timeout.registered waker = some (true, after)) :
    timeout.poll shape wheel (.pending : Poll Output) waker =
      some (.ready (.error .timedOut), { timeout with registered := false }, after) := by
  simp [Timeout.poll, polled]

theorem Timeout.poll_waits {timeout : Timeout} {waker : Waker} {after : TimerWheel Waker}
    (polled : wheel.pollDeadline shape timeout.entry timeout.registered waker = some (false, after)) :
    timeout.poll shape wheel (.pending : Poll Output) waker =
      some (.pending, { timeout with registered := true }, after) := by
  simp [Timeout.poll, polled]

/-- The entry that an event concerns. -/
def Event.subject : Event Waker Output → Option Addr
  | .create entry _ _ | .pollSleep entry _ | .pollTimeout entry _ _ | .reset entry _
  | .resetPinned entry _ | .drop entry | .insert entry _ _ | .remove entry => some entry
  | .tick | .tickN _ | .advanceTo _ => none

namespace Shared

variable {state next : Shared Waker} {may : Nat → Nat → Prop}
  {rule : Nat → SlotHead → Nat → Prop}

/-- The wheel is whole, and what the futures remember of it is true of it. -/
structure Sound (rule : Nat → SlotHead → Nat → Prop) (state : Shared Waker) : Prop where
  held : Held (rule state.wheel.currentTick) state.wheel
  clock : state.wheel.currentTick ≤ U64.max
  fits : ∀ entry, (state.wheel.entries entry).deadline ≤ U64.max
  idle : ∀ entry future, state.futures entry = some future → future.registered = false →
    ¬ state.wheel.Linked entry
  flagged : ∀ entry waker, state.awaiting entry = some waker →
    ∃ kind, state.futures entry = some ⟨kind, true⟩

/-- Only `entry` and its future are touched. -/
structure Beside (entry : Addr) (state next : Shared Waker) : Prop where
  aside : Aside entry state.wheel next.wheel
  futures : ∀ other, other ≠ entry → next.futures other = state.futures other
  awaiting : ∀ other, other ≠ entry → next.awaiting other = state.awaiting other

/-- All that an event can do, by the entry it concerns. -/
inductive Effect (shape : Shape) (state next : Shared Waker) : Option Addr → Prop
  | idles {entry : Addr} (beside : Beside entry state next) (unlinked : ¬ next.wheel.Linked entry)
      (idle : ∀ future, next.futures entry = some future → future.registered = false)
      (silent : next.awaiting entry = none) : Effect shape state next (some entry)
  | waits {entry : Addr} {waker : Waker} {kind : FutureKind} {registered : Bool}
      (beside : Beside entry state next)
      (future : next.wheel.now < (next.wheel.entries entry).deadline)
      (deadline : (next.wheel.entries entry).deadline = (state.wheel.entries entry).deadline)
      (owned : state.futures entry = some ⟨kind, registered⟩)
      (flagged : next.futures entry = some ⟨kind, true⟩)
      (linked : next.wheel.Linked entry ↔ state.wheel.Linked entry ∨ registered = false)
      (awaits : next.awaiting entry = some waker)
      (stored : (next.wheel.entries entry).waker = some waker) : Effect shape state next (some entry)
  | inserts {entry : Addr} (beside : Beside entry state next) (unowned : next.futures entry = none)
      (silent : next.awaiting entry = none) : Effect shape state next (some entry)
  | advances (count : Nat) (ticks : state.wheel.now + count ≤ U64.max)
      (advanced : state.wheel.tickN shape count = some next.wheel)
      (futures : next.futures = state.futures) (awaiting : next.awaiting = state.awaiting) :
      Effect shape state next none

theorem Beside.of_update {wheel : TimerWheel Waker} {future : Option TimerFuture}
    {awaiting : Option Waker} (aside : Aside entry state.wheel wheel) :
    Beside entry state (state.update entry wheel future awaiting) where
  aside := aside
  futures _ distinct := Function.update_of_ne distinct _ _
  awaiting _ distinct := Function.update_of_ne distinct _ _

/-- The future of `entry` is given up or starts anew, and its entry is out of the wheel. -/
theorem Effect.of_idle {wheel : TimerWheel Waker} {future : Option TimerFuture}
    (aside : Aside entry state.wheel wheel) (unlinked : ¬ wheel.Linked entry)
    (idle : ∀ found, future = some found → found.registered = false) :
    Effect shape state (state.update entry wheel future none) (some entry) := by
  refine .idles (.of_update aside) unlinked ?_ ?_
  · simpa [update] using idle
  · simp [update]

theorem Sound.unowned (sound : Sound rule state) (missing : state.futures entry = none) :
    state.awaiting entry = none := by
  cases awaits : state.awaiting entry with
  | none => rfl
  | some waker =>
      obtain ⟨kind, owned⟩ := sound.flagged entry waker awaits
      rw [missing] at owned
      cases owned

theorem Sound.free (sound : Sound rule state) (free : state.free entry = true) :
    state.futures entry = none ∧ ¬ state.wheel.Linked entry := by
  simp only [Shared.free, Bool.and_eq_true, Option.isNone_iff_eq_none, Bool.not_eq_true',
    ← Bool.not_eq_true] at free
  rw [sound.held.isRegistered_iff] at free
  exact free

/-- A poll that has to wait links the entry. -/
structure Registers (state : Shared Waker) (entry : Addr) : Prop where
  unregistered : ∃ kind, state.futures entry = some ⟨kind, false⟩
  future : state.wheel.now < (state.wheel.entries entry).deadline

/-- The deadline that an event may link an entry with. -/
def Admitted (may : Nat → Nat → Prop) (state : Shared Waker) : Event Waker Output → Prop
  | .pollSleep entry _ | .pollTimeout entry .pending _ =>
      state.Registers entry → may state.wheel.now (state.wheel.entries entry).deadline
  | .insert _ deadline _ => may state.wheel.now deadline.toNat
  | _ => True

theorem Admitted.of_any (state : Shared Waker) (event : Event Waker Output) :
    state.Admitted (fun _ _ => True) event := by
  cases event with
  | pollSleep => exact fun _ => trivial
  | pollTimeout _ inner => cases inner <;> simp [Admitted]
  | create | reset | resetPinned | drop | insert | remove | tick | tickN | advanceTo => trivial

/-- What is left to show of a step for the next state to be sound again. -/
structure Settled (shape : Shape) (rule : Nat → SlotHead → Nat → Prop) (state next : Shared Waker)
    (subject : Option Addr) : Prop where
  effect : Effect shape state next subject
  held : Held (rule next.wheel.currentTick) next.wheel
  clock : next.wheel.currentTick ≤ U64.max
  fits : ∀ entry, (next.wheel.entries entry).deadline ≤ U64.max

/-- A step that leaves the clock alone, as far as its own entry is concerned. -/
theorem Sound.settles (sound : Sound rule state) (effect : Effect shape state next (some entry))
    (aside : Aside entry state.wheel next.wheel)
    (held : Held (rule state.wheel.currentTick) next.wheel)
    (fits : (next.wheel.entries entry).deadline ≤ U64.max) :
    Settled shape rule state next (some entry) where
  effect := effect
  held := by rwa [aside.now]
  clock := aside.now.trans_le sound.clock
  fits found := by
    by_cases same : found = entry
    · rwa [same]
    · rw [(aside.others found same).deadline]
      exact sound.fits found

section Step

variable {safe exact : Prop} (rules : Rule Waker shape rule may safe exact)

theorem Sound.remove (shape : Shape) (sound : Sound rule state) (entry : Addr)
    (future : Option TimerFuture)
    (idle : ∀ found, future = some found → found.registered = false) :
    ∃ after, Inner.remove state.wheel entry = some after ∧ ¬ after.Linked entry ∧
      Settled shape rule state (state.update entry after future none) (some entry) := by
  obtain ⟨after, removes, held, aside, unlinked, deadline⟩ := sound.held.remove entry
  refine ⟨after, removes, unlinked, sound.settles (.of_idle aside unlinked idle) aside held ?_⟩
  exact deadline.trans_le (sound.fits entry)

theorem Sound.reset (shape : Shape) (sound : Sound rule state) (entry : Addr) (registered : Bool)
    (deadline : UInt64) :
    ∃ sleep after, Sleep.reset state.wheel ⟨entry, registered⟩ deadline.toNat = some (sleep, after) ∧
      ¬ after.Linked entry ∧
      Settled shape rule state
        (state.update entry after (some ⟨.sleep, sleep.registered⟩) none) (some entry) := by
  obtain ⟨removed, removes, held, aside, unlinked, _⟩ := sound.held.remove entry
  obtain ⟨held, beside, fresh⟩ := held.own unlinked deadline.toNat none
  refine ⟨⟨entry, false⟩, _, by rw [Sleep.reset, removes]; rfl, fresh,
    sound.settles (.of_idle (aside.trans beside) fresh ?_) (aside.trans beside) held ?_⟩
  · rintro _ ⟨⟩
    rfl
  · exact (TimerWheel.own_deadline _ _ _ _).trans_le (Nat.le_pred_of_lt deadline.toNat_lt)

theorem Sound.create (shape : Shape) (sound : Sound rule state) (free : state.free entry = true)
    (kind : FutureKind) (deadline : UInt64) :
    Settled shape rule state
      (state.update entry (state.wheel.own entry deadline.toNat none) (some ⟨kind, false⟩) none)
      (some entry) := by
  obtain ⟨held, aside, fresh⟩ := sound.held.own (sound.free free).2 deadline.toNat none
  refine sound.settles (.of_idle aside fresh ?_) aside held ?_
  · rintro _ ⟨⟩
    rfl
  · exact (TimerWheel.own_deadline _ _ _ _).trans_le (Nat.le_pred_of_lt deadline.toNat_lt)

/-- An entry that no future owns is removed. -/
theorem Sound.removeUnowned (shape : Shape) (sound : Sound rule state) (unowned : state.futures entry = none) :
    ∃ after, Inner.remove state.wheel entry = some after ∧
      Settled shape rule state { state with wheel := after } (some entry) := by
  obtain ⟨after, removes, _, settled⟩ := sound.remove shape entry none (by rintro _ ⟨⟩)
  refine ⟨after, removes, ?_⟩
  have futures : Function.update state.futures entry none = state.futures :=
    Function.update_eq_self_iff.mpr unowned.symm
  have awaiting : Function.update state.awaiting entry none = state.awaiting :=
    Function.update_eq_self_iff.mpr (sound.unowned unowned).symm
  have unchanged : state.update entry after none none = { state with wheel := after } := by
    simp only [update, futures, awaiting]
  rwa [unchanged] at settled

include rules

/-- What a poll does that does not complete the future otherwise. -/
theorem Sound.pollDeadline {registered : Bool} {kind : FutureKind} (sound : Sound rule state)
    (owned : state.futures entry = some ⟨kind, registered⟩) (waker : Waker)
    (admitted : state.Registers entry → may state.wheel.now (state.wheel.entries entry).deadline) :
    ∃ reached after,
      state.wheel.pollDeadline shape entry registered waker = some (reached, after) ∧
      (reached = true ↔ (state.wheel.entries entry).deadline ≤ state.wheel.now) ∧
      (reached = true → ¬ after.Linked entry) ∧
      Settled shape rule state
        (state.update entry after (some ⟨kind, !reached⟩) (if reached then none else some waker))
        (some entry) := by
  by_cases due : (state.wheel.entries entry).deadline ≤ state.wheel.now
  · obtain ⟨after, polled, held, aside, unlinked, deadline⟩ :=
      @Held.pollDeadline_reached _ shape _ _ entry sound.held registered waker due
    refine ⟨true, after, polled, by simp [due], fun _ => unlinked,
      sound.settles (.of_idle aside unlinked ?_) aside held (deadline.trans_le (sound.fits entry))⟩
    rintro _ ⟨⟩
    rfl
  · have ticks : state.wheel.currentTick < U64.max :=
      (Nat.lt_of_not_le due).trans_le (sound.fits entry)
    obtain ⟨after, polled, held, aside, linked, stored, deadline⟩ :=
      sound.held.pollDeadline_waits waker (Nat.lt_of_not_le due)
        (fun unflagged => sound.idle entry _ owned unflagged)
        (fun unflagged => rules.inserts ticks
          (admitted ⟨⟨kind, unflagged ▸ owned⟩, Nat.lt_of_not_le due⟩))
    refine ⟨false, after, polled, by simp [due], by simp,
      sound.settles (.waits (.of_update aside) ?_ deadline owned ?_ linked ?_ stored) aside held
        (deadline.trans_le (sound.fits entry))⟩
    · change after.currentTick < (after.entries entry).deadline
      rw [deadline, aside.now]
      exact Nat.lt_of_not_le due
    · simp [update]
    · simp [update]

theorem Sound.pollSleep {waker : Waker} {registered : Bool} (sound : Sound rule state)
    (owned : state.futures entry = some ⟨.sleep, registered⟩)
    (admitted : state.Registers entry → may state.wheel.now (state.wheel.entries entry).deadline) :
    ∃ poll sleep after, Sleep.poll shape state.wheel ⟨entry, registered⟩ waker = some (poll, sleep, after) ∧
      Settled shape rule state
        (state.update entry after (some ⟨.sleep, sleep.registered⟩) (poll.awaits waker)) (some entry) := by
  obtain ⟨reached, after, polled, _, _, settled⟩ := sound.pollDeadline rules owned waker admitted
  cases reached with
  | true => exact ⟨_, _, after, Sleep.poll_reached polled, settled⟩
  | false => exact ⟨_, _, after, Sleep.poll_waits polled, settled⟩

theorem Sound.pollTimeout {waker : Waker} {registered : Bool} (sound : Sound rule state)
    (owned : state.futures entry = some ⟨.timeout, registered⟩) (inner : Poll Output)
    (admitted : state.Admitted may (.pollTimeout entry inner waker)) :
    ∃ poll timeout after,
      Timeout.poll shape state.wheel ⟨entry, registered⟩ inner waker = some (poll, timeout, after) ∧
      Settled shape rule state
        (state.update entry after (some ⟨.timeout, timeout.registered⟩) (poll.awaits waker)) (some entry) := by
  cases inner with
  | ready output =>
      obtain ⟨after, removes, _, settled⟩ :=
        sound.remove shape entry (some ⟨.timeout, false⟩) (by rintro _ ⟨⟩; rfl)
      exact ⟨_, _, after, Timeout.poll_completed removes, settled⟩
  | pending =>
      obtain ⟨reached, after, polled, _, _, settled⟩ := sound.pollDeadline rules owned waker admitted
      cases reached with
      | true => exact ⟨_, _, after, Timeout.poll_reached polled, settled⟩
      | false => exact ⟨_, _, after, Timeout.poll_waits polled, settled⟩

/-- An entry without a future is linked. -/
theorem Sound.insert (sound : Sound rule state) (free : state.free entry = true) (deadline : UInt64)
    (waker : Option Waker) (ticks : state.wheel.now < U64.max)
    (admitted : may state.wheel.now deadline.toNat) :
    Settled shape rule state
      { state with wheel := Inner.insert shape (state.wheel.own entry deadline.toNat waker) entry }
      (some entry) := by
  obtain ⟨unowned, unlinked⟩ := sound.free free
  have placed : rule (Inner.currentTick (state.wheel.own entry deadline.toNat waker))
      (Inner.chooseSlot shape (state.wheel.own entry deadline.toNat waker) deadline.toNat)
      deadline.toNat := rules.inserts ticks admitted
  obtain ⟨after, inserts, held, aside, _, same⟩ := sound.held.insertOwn unlinked placed
  rw [inserts]
  exact sound.settles (.inserts ⟨aside, fun _ _ => rfl, fun _ _ => rfl⟩ unowned (sound.unowned unowned)) aside
    held (same.trans_le (Nat.le_pred_of_lt deadline.toNat_lt))

theorem Sound.ticks (sound : Sound rule state) (count : Nat)
    (ticks : state.wheel.now + count ≤ U64.max) :
    ∃ after, state.wheel.tickN shape count = some after ∧
      Settled shape rule state { state with wheel := after } none := by
  obtain ⟨after, advances, held, now, fits⟩ := rules.tickN_keeps
    (fun wheel => ∀ entry, (wheel.entries entry).deadline ≤ U64.max)
    (fun bounded ticked entry => (ticked.drains.deadline entry).trans_le (bounded entry))
    sound.held ticks sound.fits
  exact ⟨after, advances, .advances count ticks advances rfl rfl, held, now.trans_le ticks, fits⟩

theorem Sound.settled {event : Event Waker Output} (sound : Sound rule state)
    (admitted : state.Admitted may event) (stepped : state.step shape event = some next) :
    Settled shape rule state next event.subject := by
  cases event with
  | create entry kind deadline =>
      simp only [step] at stepped
      split at stepped
      · next free =>
          obtain rfl := Option.some.inj stepped
          exact sound.create shape free kind deadline
      · cases stepped
  | pollSleep entry waker =>
      simp only [step] at stepped
      split at stepped
      · next registered owned =>
          obtain ⟨poll, sleep, after, polled, settled⟩ := sound.pollSleep rules owned admitted
          rw [polled] at stepped
          obtain rfl := Option.some.inj stepped
          exact settled
      · cases stepped
  | pollTimeout entry inner waker =>
      simp only [step] at stepped
      split at stepped
      · next registered owned =>
          obtain ⟨poll, timeout, after, polled, settled⟩ := sound.pollTimeout rules owned inner admitted
          rw [polled] at stepped
          obtain rfl := Option.some.inj stepped
          exact settled
      · cases stepped
  | reset entry deadline | resetPinned entry deadline =>
      simp only [step, Sleep.resetPinned] at stepped
      split at stepped
      · next registered owned =>
          obtain ⟨sleep, after, resets, _, settled⟩ := sound.reset shape entry registered deadline
          rw [resets] at stepped
          obtain rfl := Option.some.inj stepped
          exact settled
      · cases stepped
  | drop entry =>
      obtain ⟨after, removes, _, settled⟩ := sound.remove shape entry none (by rintro _ ⟨⟩)
      simp only [step, Sleep.drop, Timeout.drop, removes] at stepped
      split at stepped
      · obtain rfl := Option.some.inj stepped
        exact settled
      · obtain rfl := Option.some.inj stepped
        exact settled
      · cases stepped
  | insert entry deadline waker =>
      simp only [step] at stepped
      split at stepped
      · next allowed =>
          obtain rfl := Option.some.inj stepped
          exact sound.insert rules allowed.1 deadline waker allowed.2 admitted
      · cases stepped
  | remove entry =>
      simp only [step] at stepped
      split at stepped
      · cases stepped
      · next unowned =>
          obtain ⟨after, removes, settled⟩ := sound.removeUnowned shape unowned
          rw [removes] at stepped
          obtain rfl := Option.some.inj stepped
          exact settled
  | tick =>
      simp only [step] at stepped
      split at stepped
      · next ticks =>
          obtain ⟨after, advances, settled⟩ := sound.ticks rules 1 ticks
          have once : state.wheel.tick shape = some after := by
            rw [← advances]
            simp only [TimerWheel.tickN, TimerWheel.tick, Option.bind_eq_bind]
            cases Inner.advanceOne shape state.wheel <;> rfl
          rw [once] at stepped
          obtain rfl := Option.some.inj stepped
          exact settled
      · cases stepped
  | tickN count =>
      simp only [step] at stepped
      split at stepped
      · next ticks =>
          obtain ⟨after, advances, settled⟩ := sound.ticks rules count ticks
          rw [advances] at stepped
          obtain rfl := Option.some.inj stepped
          exact settled
      · cases stepped
  | advanceTo target =>
      have bound : target.toNat ≤ U64.max := Nat.le_pred_of_lt target.toNat_lt
      have clock := sound.clock
      have missing : state.wheel.now + (target.toNat - state.wheel.currentTick) ≤ U64.max := by
        change state.wheel.currentTick + _ ≤ _
        omega
      obtain ⟨after, advances, settled⟩ := sound.ticks rules _ missing
      simp only [step, rules.advanceTo_eq sound.held bound, advances] at stepped
      obtain rfl := Option.some.inj stepped
      exact settled

end Step

end Shared

end TptAsync.Timer
