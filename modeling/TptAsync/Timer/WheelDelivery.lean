import TptAsync.Timer.WheelSimulation

set_option autoImplicit false

/-!
# When an entry fires

An entry that nothing but the ticks touches waits until its due tick, fires there, and
is gone. The wheel agrees with the flat timers, so this holds of the wheel.
-/

namespace TptAsync.Timer

open Lib

variable {Waker : Type} {shape : Shape} {flat next : FlatTimers Waker}

/-- Whether an operation names `entry`. -/
def Op.touches (entry : Addr) : Op Waker → Bool
  | .insert other _ _ => other == entry
  | .remove other => other == entry
  | .tick | .tickN _ | .advanceTo _ => false

/-- The firings of one entry, in the order in which they happened. -/
def firingsOf (entry : Addr) (fired : List (Firing Waker)) : List (Firing Waker) :=
  fired.filter (·.entry == entry)

/-- What has become of a timer since it was inserted, when its entry had fired `earlier`. -/
inductive Fate (earlier : List (Firing Waker)) (timer : FlatTimer) (waker : Option Waker)
    (flat : FlatTimers Waker) : Prop
  | waiting (future : flat.now < timer.due)
      (listed : flat.timers.filter (·.entry == timer.entry) = [timer])
      (held : flat.wakers timer.entry = waker)
      (fired : firingsOf timer.entry flat.fired = earlier)
  | fired (reached : timer.due ≤ flat.now)
      (listed : flat.timers.filter (·.entry == timer.entry) = [])
      (held : flat.wakers timer.entry = none)
      (fired : firingsOf timer.entry flat.fired = earlier ++ [⟨timer.due, timer.entry, waker⟩])

section Fate

variable {earlier : List (Firing Waker)} {timer : FlatTimer} {waker : Option Waker}

theorem FlatTimers.firingsOf_advanceOne (entry : Addr) :
    firingsOf entry flat.advanceOne.fired = firingsOf entry flat.fired ++
      ((flat.timers.filter (·.entry == entry)).filter (·.due == flat.now + 1)).map
        fun timer => ⟨timer.due, timer.entry, flat.wakers timer.entry⟩ := by
  simp only [firingsOf, advanceOne, dueNext, List.filter_append, List.filter_map, List.filter_filter,
    Function.comp_def, Bool.and_comm]

theorem FlatTimers.advanceOne_listed (entry : Addr) :
    flat.advanceOne.timers.filter (·.entry == entry) =
      (flat.timers.filter (·.entry == entry)).filter (·.due != flat.now + 1) := by
  simp only [advanceOne, List.filter_filter, Bool.and_comm]

theorem Fate.advanceOne (fate : Fate earlier timer waker flat) :
    Fate earlier timer waker flat.advanceOne := by
  have wakerOf : flat.advanceOne.wakers timer.entry =
      if timer.entry ∈ flat.dueNext.map (·.entry) then none else flat.wakers timer.entry := rfl
  have now : flat.advanceOne.now = flat.now + 1 := rfl
  cases fate with
  | waiting future listed held fired =>
      have sole : ∀ other ∈ flat.timers, other.entry = timer.entry → other = timer := by
        intro other member same
        have : other ∈ flat.timers.filter (·.entry == timer.entry) := by simp [member, same]
        simpa [listed] using this
      have present : timer ∈ flat.timers := by
        have : timer ∈ flat.timers.filter (·.entry == timer.entry) := by simp [listed]
        exact List.mem_of_mem_filter this
      by_cases due : timer.due = flat.now + 1
      · have drains : timer.entry ∈ flat.dueNext.map (·.entry) :=
          List.mem_map_of_mem (by simpa [FlatTimers.dueNext, due] using present)
        refine .fired (by omega) ?_ ?_ ?_
        · rw [FlatTimers.advanceOne_listed, listed]
          simp [due]
        · rw [wakerOf, if_pos drains]
        · rw [FlatTimers.firingsOf_advanceOne, listed, fired]
          simp [due, held]
      · have stays : timer.entry ∉ flat.dueNext.map (·.entry) := by
          intro mapped
          obtain ⟨other, filtered, same⟩ := List.mem_map.mp mapped
          obtain ⟨member, reached⟩ := List.mem_filter.mp filtered
          rw [sole other member same] at reached
          exact due (by simpa using reached)
        refine .waiting (by omega) ?_ ?_ ?_
        · rw [FlatTimers.advanceOne_listed, listed]
          simp [due]
        · rw [wakerOf, if_neg stays, held]
        · rw [FlatTimers.firingsOf_advanceOne, listed, fired]
          simp [due]
  | fired reached listed held fired =>
      refine .fired (by omega) ?_ ?_ ?_
      · rw [FlatTimers.advanceOne_listed, listed]
        rfl
      · rw [wakerOf, held, ite_self]
      · rw [FlatTimers.firingsOf_advanceOne, listed, fired]
        simp

theorem Fate.advance (count : Nat) (fate : Fate earlier timer waker flat) :
    Fate earlier timer waker (FlatTimers.advance count flat) := by
  induction count generalizing flat with
  | zero => exact fate
  | succ count ih => exact ih fate.advanceOne

/-- An operation that leaves the clock and this entry's bookkeeping alone. -/
theorem Fate.congr (fate : Fate earlier timer waker flat) (now : next.now = flat.now)
    (listed : next.timers.filter (·.entry == timer.entry) =
      flat.timers.filter (·.entry == timer.entry))
    (wakers : next.wakers timer.entry = flat.wakers timer.entry) (fired : next.fired = flat.fired) :
    Fate earlier timer waker next := by
  cases fate with
  | waiting future list held firings =>
      exact .waiting (by omega) (listed.trans list) (wakers.trans held) (by rw [fired, firings])
  | fired reached list held firings =>
      exact .fired (by omega) (listed.trans list) (wakers.trans held) (by rw [fired, firings])

theorem Fate.apply {op : Op Waker} (fate : Fate earlier timer waker flat)
    (untouched : op.touches timer.entry = false) (applied : flat.apply op = some next) :
    Fate earlier timer waker next := by
  cases op with
  | insert entry deadline newWaker =>
      have other : entry ≠ timer.entry := by simpa [Op.touches] using untouched
      simp only [FlatTimers.apply] at applied
      split at applied
      · cases applied
      · rw [← Option.some.inj applied]
        refine fate.congr rfl ?_ ?_ rfl
        · simp [FlatTimers.insert, other]
        · simp [FlatTimers.insert, other.symm]
  | remove entry =>
      have other : entry ≠ timer.entry := by simpa [Op.touches] using untouched
      rw [← Option.some.inj applied]
      refine fate.congr rfl ?_ rfl rfl
      simp only [FlatTimers.remove, List.filter_filter]
      refine List.filter_congr fun found _ => ?_
      by_cases same : found.entry = timer.entry
      · simp [same, other.symm]
      · simp [same]
  | tick =>
      rw [← Option.some.inj applied]
      exact fate.advanceOne
  | tickN count =>
      rw [← Option.some.inj applied]
      exact fate.advance count
  | advanceTo target =>
      rw [← Option.some.inj applied]
      exact fate.advance _

theorem Fate.run {ops : List (Op Waker)} (fate : Fate earlier timer waker flat)
    (untouched : ∀ op ∈ ops, op.touches timer.entry = false) (ran : flat.run ops = some next) :
    Fate earlier timer waker next := by
  induction ops generalizing flat with
  | nil =>
      rw [← Option.some.inj ran]
      exact fate
  | cons op rest ih =>
      obtain ⟨middle, applied, continued⟩ := Option.bind_eq_some_iff.mp ran
      exact ih (fate.apply (untouched op (.head _)) applied)
        (fun later member => untouched later (.tail _ member)) continued

theorem Fate.insert {entry : Addr} (unregistered : flat.registered entry = false) (deadline : Nat)
    (waker : Option Waker) :
    Fate (firingsOf entry flat.fired) ⟨entry, deadline, max deadline (flat.now + 1)⟩ waker
      (flat.insert entry deadline waker) := by
  refine .waiting (lt_max_of_lt_right (Nat.lt_succ_self _)) ?_ ?_ rfl
  · have absent : flat.timers.filter (·.entry == entry) = [] := by
      simpa [FlatTimers.registered, List.filter_eq_nil_iff] using unregistered
    simp [FlatTimers.insert, absent]
  · simp [FlatTimers.insert]

end Fate

theorem FlatTimers.run_append (before after : List (Op Waker)) :
    flat.run (before ++ after) = (flat.run before).bind (·.run after) := by
  induction before generalizing flat with
  | nil => rfl
  | cons op rest ih =>
      simp only [List.cons_append, run, Option.bind_eq_bind]
      cases flat.apply op with
      | none => rfl
      | some next => exact ih

theorem FlatTimers.run_fate {before after : List (Op Waker)} {entry : Addr} {deadline : Nat}
    {waker : Option Waker}
    (ran : flat.run (before ++ .insert entry deadline waker :: after) = some next)
    (untouched : ∀ op ∈ after, op.touches entry = false) :
    ∃ earlier, flat.run before = some earlier ∧ earlier.now ≤ next.now ∧
      Fate (firingsOf entry earlier.fired) ⟨entry, deadline, max deadline (earlier.now + 1)⟩ waker
        next := by
  rw [run_append] at ran
  obtain ⟨earlier, first, continued⟩ := Option.bind_eq_some_iff.mp ran
  obtain ⟨inserted, applied, finished⟩ := Option.bind_eq_some_iff.mp continued
  refine ⟨earlier, first, (apply_now_le applied).trans (run_now_le finished), ?_⟩
  simp only [apply] at applied
  split at applied
  · cases applied
  · next unregistered =>
      rw [← Option.some.inj applied] at finished
      exact (Fate.insert (by simpa using unregistered) deadline waker).run untouched finished

/-- Every run of a wheel is a run of flat timers, and an entry that is left alone after
its insertion fires once, in the tick that reaches its deadline. -/
theorem TimerWheel.run_equivalent (levels : 2 ≤ shape.levels)
    (fits : shape.slots ^ shape.levels ≤ U64.max) (ops : List (Op Waker)) (last : FlatTimers Waker)
    (contract : FlatTimers.new.run ops = some last) (ticks : last.now < U64.max) :
    ∃ wheel, TimerWheel.new.run shape ops = some wheel ∧
      (wheel.now = last.now ∧ wheel.len = last.timers.length ∧
        (∀ entry, (wheel.entries entry).isRegistered = last.registered entry) ∧
        wheel.fired.Perm last.fired) ∧
      ∀ before entry deadline waker after,
        ops = before ++ .insert entry deadline waker :: after →
        (∀ op ∈ after, op.touches entry = false) →
        ∃ earlier, TimerWheel.new.run shape before = some earlier ∧
          let due := max deadline (earlier.now + 1)
          (firingsOf entry wheel.fired).Perm
            (firingsOf entry earlier.fired ++ if due ≤ wheel.now then [⟨due, entry, waker⟩] else []) ∧
          (wheel.entries entry).isRegistered = decide (wheel.now < due) ∧
          (wheel.entries entry).waker = if due ≤ wheel.now then none else waker := by
  obtain ⟨wheel, ran, refines⟩ := Refines.new.run levels fits contract ticks
  refine ⟨wheel, ran, ⟨refines.now, refines.len, refines.isRegistered, refines.fired⟩, ?_⟩
  rintro before entry deadline waker after rfl untouched
  obtain ⟨flatEarlier, first, grows, fate⟩ := FlatTimers.run_fate contract untouched
  obtain ⟨earlier, ranFirst, refinesFirst⟩ :=
    Refines.new.run levels fits first (grows.trans_lt ticks)
  refine ⟨earlier, ranFirst, ?_⟩
  have sameNow : earlier.now = flatEarlier.now := refinesFirst.now
  have sameFirings : (firingsOf entry wheel.fired).Perm (firingsOf entry last.fired) :=
    refines.fired.filter _
  have sameEarlier : (firingsOf entry earlier.fired).Perm (firingsOf entry flatEarlier.fired) :=
    refinesFirst.fired.filter _
  simp only [sameNow, show wheel.now = last.now from refines.now, refines.isRegistered,
    refines.waker]
  cases fate with
  | waiting future listed held fired =>
      rw [fired] at sameFirings
      have registered : last.registered entry = true := by
        rw [FlatTimers.registered_iff]
        have member := List.mem_of_mem_filter (listed ▸ List.mem_singleton_self _)
        exact List.mem_map.mpr ⟨_, member, rfl⟩
      rw [if_neg (Nat.not_le.mpr future), if_neg (Nat.not_le.mpr future), List.append_nil,
        registered, decide_eq_true future]
      exact ⟨sameFirings.trans sameEarlier.symm, rfl, held⟩
  | fired reached listed held fired =>
      rw [fired] at sameFirings
      have unregistered : last.registered entry = false := by
        simpa [FlatTimers.registered, List.filter_eq_nil_iff] using listed
      rw [if_pos reached, if_pos reached, unregistered, decide_eq_false (Nat.not_lt.mpr reached)]
      exact ⟨sameFirings.trans (sameEarlier.symm.append_right _), rfl, held⟩

/-- A deadline beyond the horizon of the smallest wheel. -/
theorem TimerWheel.run_equivalent_far :
    ∃ wheel : TimerWheel Unit,
      TimerWheel.new.run ⟨2, 2, le_rfl, by decide⟩ [.tick, .insert 7 9 (some ()), .tickN 8] =
        some wheel ∧
      wheel.len = 0 ∧ firingsOf 7 wheel.fired = [⟨9, 7, some ()⟩] := by
  obtain ⟨wheel, ran, ⟨now, len, _, _⟩, fires⟩ :=
    @TimerWheel.run_equivalent _ ⟨2, 2, le_rfl, by decide⟩ le_rfl (by decide)
      [.tick, .insert 7 9 (some ()), .tickN 8] _ rfl (by decide)
  obtain ⟨earlier, ranFirst, firings, _⟩ := fires [.tick] 7 9 (some ()) [.tickN 8] rfl (by simp [Op.touches])
  obtain rfl := Option.some.inj ranFirst
  refine ⟨wheel, ran, len, ?_⟩
  rw [now] at firings
  exact List.perm_singleton.mp firings

end TptAsync.Timer
