import TptAsync.Core.TaskProperties

set_option autoImplicit false

/-!
# No wake-up of a join handle is lost

One handle that is polled again and again, against one completion or one cancellation. Every access
of the one may fall between any two of the other.
-/

namespace TptAsync.Core

open Lib

inductive Settlement (α : Type)
  | complete (value : α)
  | cancel

namespace Settlement

variable {α ω : Type}

def code : Settlement α → Code α ω Unit
  | .complete value => SharedState.complete value
  | .cancel => SharedState.cancel

/-- What a poll answers behind it. -/
def answer : Settlement α → Answer α
  | .complete value => .ready (.ok value)
  | .cancel => .ready (.error ⟨⟩)

end Settlement

structure Race (α ω : Type) where
  shared : SharedState α ω
  settling : Code α ω Unit
  /-- The poll that goes on, with the waker that it was passed. -/
  polling : Option (ω × Code α ω (Answer α))
  /-- The polls that have returned. -/
  polls : List (ω × Answer α)

namespace Race

inductive Event (ω : Type)
  | poll (waker : ω)
  /-- The poll makes its next access. -/
  | runPoll
  /-- The completion or cancellation makes its next access. -/
  | settle

variable {α ω : Type}

def new (settlement : Settlement α) : Race α ω := ⟨.new, settlement.code, none, []⟩

variable [Waker ω]

/-- A poll whose code has come to its end returns. -/
def goOn (race : Race α ω) (waker : ω) (shared : SharedState α ω) : Code α ω (Answer α) → Race α ω
  | .done answer => { race with shared, polling := none, polls := race.polls ++ [(waker, answer)] }
  | .access what next => { race with shared, polling := some (waker, .access what next) }

def step (race : Race α ω) : Event ω → Option (Race α ω)
  | .poll waker =>
      match race.polling with
      | none => some { race with polling := some (waker, JoinHandle.poll waker) }
      | some _ => none
  | .runPoll => do
      let (waker, code) ← race.polling
      let (rest, shared) ← code.advance Access.effect race.shared
      some (race.goOn waker shared rest)
  | .settle => do
      let (settling, shared) ← race.settling.advance Access.effect race.shared
      some { race with settling, shared }

/-- The waker is as good as the other one. -/
def Equivalent (slot waker : ω) : Prop := slot = waker ∨ Waker.willWake slot waker = true

/-- A waker as good as this one has been woken, or will be. -/
def Heard (race : Race α ω) (waker : ω) : Prop :=
  ∃ slot, (slot ∈ race.shared.woken ∨ race.shared.waker = some slot ∧ race.settling.isDone = false) ∧
    Equivalent slot waker

def LastHeard (race : Race α ω) : Prop :=
  ∀ waker, race.polls.getLast? = some (waker, .pending) → race.Heard waker

/-- Where the poll may stand. -/
inductive Stage (race : Race α ω) (waker : ω) : Code α ω (Answer α) → Prop
  | start (last : race.LastHeard) : Stage race waker (JoinHandle.poll waker)
  | register (last : race.LastHeard) : Stage race waker (do register waker; JoinHandle.recheck)
  | recheck (heard : race.shared.flags = .pending → race.Heard waker) :
      Stage race waker JoinHandle.recheck
  | take (ready : race.shared.flags = .ready) : Stage race waker JoinHandle.takeResult

/-- Where the completion or cancellation may stand, with the flag and the result. -/
inductive Settling : Settlement α → Flags → Option α → Code α ω Unit → Prop
  | complete (value : α) (result : Option α) :
      Settling (.complete value) .pending result (SharedState.complete value)
  | publish (value : α) : Settling (.complete value) .pending (some value) (do store .ready; wake)
  | wakeReady (value : α) (result : Option α) : Settling (.complete value) .ready result wake
  | ready (value : α) (result : Option α) : Settling (.complete value) .ready result (.done ())
  | cancel (result : Option α) : Settling .cancel .pending result SharedState.cancel
  | wakeCancelled (result : Option α) : Settling .cancel .cancelled result wake
  | cancelled (result : Option α) : Settling .cancel .cancelled result (.done ())

/-- The value is there as long as no poll has ended since. -/
def Published (race : Race α ω) (value : α) : Prop :=
  race.shared.result = some value ∨
    ∃ waker answer, race.polls.getLast? = some (waker, answer) ∧ answer ≠ .pending

structure Sound (settlement : Settlement α) (race : Race α ω) : Prop where
  settling : Settling settlement race.shared.flags race.shared.result race.settling
  published : ∀ value, settlement = .complete value → race.shared.flags = .ready → race.Published value
  polling : ∀ waker code, race.polling = some (waker, code) → race.Stage waker code
  idle : race.polling = none → race.LastHeard

variable {settlement : Settlement α} {race next : Race α ω} {event : Event ω}

theorem Access.register_fills (waker : ω) (shared : SharedState α ω) :
    ∃ slot, ((Access.register waker).effect shared).2 = { shared with waker := some slot } ∧
      Equivalent slot waker := by
  obtain ⟨flags, result, kept, woken⟩ := shared
  simp only [Access.effect]
  cases kept with
  | none => exact ⟨waker, rfl, .inl rfl⟩
  | some slot =>
      by_cases will : Waker.willWake slot waker = true
      · exact ⟨slot, by simp [will], .inr will⟩
      · exact ⟨waker, by simp [will], .inl rfl⟩

theorem new_sound (settlement : Settlement α) : (new settlement : Race α ω).Sound settlement where
  settling := by
    cases settlement with
    | complete value => exact .complete value none
    | cancel => exact .cancel none
  published _ _ ready := by cases ready
  polling _ _ polling := by cases polling
  idle _ waker last := by cases last

/-- The access of the completion or cancellation takes away no hearing. -/
theorem Heard.settle {waker : ω} {settling : Code α ω Unit} {shared : SharedState α ω}
    (heard : race.Heard waker)
    (stands : Settling settlement race.shared.flags race.shared.result race.settling)
    (advances : race.settling.advance Access.effect race.shared = some (settling, shared)) :
    Heard { race with settling, shared } waker := by
  obtain ⟨slot, will, same⟩ := heard
  obtain ⟨⟨flags, result, kept, woken⟩, code, polling, polls⟩ := race
  refine ⟨slot, ?_, same⟩
  cases stands with
  | complete | publish | cancel =>
      cases advances
      exact will.imp id fun waits => ⟨waits.1, rfl⟩
  | wakeReady | wakeCancelled =>
      cases kept with
      | none =>
          cases advances
          exact .inl (will.resolve_right fun waits => by cases waits.1)
      | some kept =>
          cases advances
          refine .inl (List.mem_append.mpr (will.imp id fun waits => ?_))
          cases waits.1
          exact .head _
  | ready | cancelled => cases advances

theorem Settling.advance {settling rest : Code α ω Unit} {shared after : SharedState α ω}
    (stands : Settling settlement shared.flags shared.result settling)
    (advances : settling.advance Access.effect shared = some (rest, after)) :
    Settling settlement after.flags after.result rest ∧
      (shared.flags ≠ .pending → after.flags = shared.flags ∧ after.result = shared.result) ∧
      (shared.flags = .pending → after.flags = .ready →
        ∃ value, settlement = .complete value ∧ after.result = some value) := by
  obtain ⟨flags, result, kept, woken⟩ := shared
  cases stands with
  | complete value =>
      cases advances
      exact ⟨.publish value, fun settled => absurd rfl settled, fun _ ready => by cases ready⟩
  | publish value =>
      cases advances
      exact ⟨.wakeReady value _, fun settled => absurd rfl settled, fun _ _ => ⟨value, rfl, rfl⟩⟩
  | cancel =>
      cases advances
      exact ⟨.wakeCancelled _, fun settled => absurd rfl settled, fun _ ready => by cases ready⟩
  | wakeReady value =>
      cases kept <;> cases advances <;>
        exact ⟨.ready value _, fun _ => ⟨rfl, rfl⟩, fun pending => by cases pending⟩
  | wakeCancelled =>
      cases kept <;> cases advances <;>
        exact ⟨.cancelled _, fun _ => ⟨rfl, rfl⟩, fun pending => by cases pending⟩
  | ready | cancelled => cases advances

theorem Sound.settle {settling : Code α ω Unit} {shared : SharedState α ω} (sound : race.Sound settlement)
    (advances : race.settling.advance Access.effect race.shared = some (settling, shared)) :
    Sound settlement { race with settling, shared } := by
  obtain ⟨stands, keeps, publishes⟩ := sound.settling.advance advances
  have last : race.LastHeard → LastHeard { race with settling, shared } :=
    fun heard waker pending => (heard waker pending).settle sound.settling advances
  refine ⟨stands, ?_, ?_, fun idle => last (sound.idle idle)⟩
  · intro value same ready
    by_cases pending : race.shared.flags = .pending
    · obtain ⟨value', same', filled⟩ := publishes pending ready
      rw [same] at same'
      cases same'
      exact .inl filled
    · obtain ⟨flags, result⟩ := keeps pending
      exact (sound.published value same (flags ▸ ready)).imp result.trans id
  · intro waker code polling
    cases sound.polling waker code polling with
    | start heard => exact .start (last heard)
    | register heard => exact .register (last heard)
    | recheck heard =>
        refine .recheck fun pending => ?_
        have before : race.shared.flags = .pending := by
          by_contra settled
          exact settled ((keeps settled).1 ▸ pending)
        exact (heard before).settle sound.settling advances
    | take ready => exact .take ((keeps (by rw [ready]; simp)).1.trans ready)

/-- A poll returns `Pending` only if its waker will hear. -/
theorem Sound.returns {waker : ω} {shared : SharedState α ω} {answer : Answer α}
    (stands : Settling settlement shared.flags shared.result race.settling)
    (pending : answer = .pending → shared.flags = .pending ∧ Heard { race with shared } waker) :
    Sound settlement (race.goOn waker shared (.done answer)) := by
  have last : (race.polls ++ [(waker, answer)]).getLast? = some (waker, answer) := by simp
  refine ⟨stands, ?_, ?_, ?_⟩
  · intro value same ready
    refine .inr ⟨waker, answer, last, fun waits => ?_⟩
    rw [show shared.flags = .ready from ready] at pending
    cases (pending waits).1
  · exact fun _ _ polling => by cases polling
  · intro _ other waits
    cases last.symm.trans waits
    exact (pending rfl).2

omit [Waker ω] in
theorem Settling.pending {flags : Flags} {result : Option α} {settling : Code α ω Unit}
    (stands : Settling settlement flags result settling) (pending : flags = .pending) :
    settling.isDone = false := by
  cases stands with
  | complete | publish | cancel | wakeReady | wakeCancelled => rfl
  | ready | cancelled => cases pending

/-- A poll that goes on leaves the flag and the result alone. -/
theorem Sound.goesOn {waker : ω} {shared : SharedState α ω} {code : Code α ω (Answer α)}
    (sound : race.Sound settlement) (going : code.isDone = false)
    (same : shared.flags = race.shared.flags ∧ shared.result = race.shared.result)
    (stage : Stage { race with shared } waker code) : Sound settlement (race.goOn waker shared code) := by
  cases code with
  | done answer => cases going
  | access what next =>
      refine ⟨?_, ?_, ?_, fun idle => by cases idle⟩
      · change Settling settlement shared.flags shared.result race.settling
        rw [same.1, same.2]
        exact sound.settling
      · intro value which ready
        exact (sound.published value which (same.1 ▸ ready)).imp same.2.trans id
      · intro other code polling
        cases polling
        cases stage with
        | start heard => exact .start heard
        | register heard => exact .register heard
        | recheck heard => exact .recheck heard
        | take ready => exact .take ready

theorem Sound.runPoll {waker : ω} {code rest : Code α ω (Answer α)} {shared : SharedState α ω}
    (sound : race.Sound settlement) (polling : race.polling = some (waker, code))
    (advances : code.advance Access.effect race.shared = some (rest, shared)) :
    Sound settlement (race.goOn waker shared rest) := by
  have stands := sound.settling
  obtain ⟨⟨flags, result, kept, woken⟩, settling, _, polls⟩ := race
  cases sound.polling waker code polling with
  | start heard =>
      cases advances
      cases flags with
      | pending => exact sound.goesOn rfl ⟨rfl, rfl⟩ (.register heard)
      | ready => exact sound.goesOn rfl ⟨rfl, rfl⟩ (.take rfl)
      | cancelled => exact .returns stands fun waits => by cases waits
  | register heard =>
      obtain ⟨continues, memory⟩ := Prod.mk.inj (Option.some.inj advances)
      obtain rfl : JoinHandle.recheck = rest := continues
      obtain ⟨slot, fills, same⟩ := Access.register_fills waker ⟨flags, result, kept, woken⟩
      obtain rfl : _ = shared := fills.symm.trans memory
      refine sound.goesOn rfl ⟨rfl, rfl⟩ (.recheck fun pending => ?_)
      exact ⟨slot, .inr ⟨rfl, stands.pending pending⟩, same⟩
  | recheck heard =>
      cases advances
      cases flags with
      | pending => exact .returns stands fun _ => ⟨rfl, heard rfl⟩
      | ready => exact sound.goesOn rfl ⟨rfl, rfl⟩ (.take rfl)
      | cancelled => exact .returns stands fun waits => by cases waits
  | take ready =>
      obtain rfl : flags = .ready := ready
      have emptied : Settling settlement .ready none settling := by
        cases stands with
        | wakeReady value => exact .wakeReady value none
        | ready value => exact .ready value none
      cases result with
      | some value =>
          cases advances
          exact .returns emptied fun waits => by cases waits
      | none =>
          cases advances
          exact .returns emptied fun waits => by cases waits

theorem Sound.step (sound : race.Sound settlement) (goes : race.step event = some next) :
    next.Sound settlement := by
  cases event with
  | poll waker =>
      simp only [Race.step] at goes
      split at goes
      · next idle =>
          cases goes
          refine ⟨sound.settling, sound.published, ?_, fun idle => by cases idle⟩
          intro other code polling
          cases polling
          exact .start (sound.idle idle)
      · cases goes
  | runPoll =>
      obtain ⟨⟨waker, code⟩, polling, goes⟩ := Option.bind_eq_some_iff.mp goes
      obtain ⟨⟨rest, shared⟩, advances, goes⟩ := Option.bind_eq_some_iff.mp goes
      cases goes
      exact sound.runPoll polling advances
  | settle =>
      obtain ⟨⟨settling, shared⟩, advances, goes⟩ := Option.bind_eq_some_iff.mp goes
      cases goes
      exact sound.settle advances

theorem step_polls (goes : race.step event = some next) : ∃ others, next.polls = race.polls ++ others := by
  cases event with
  | poll waker =>
      simp only [Race.step] at goes
      split at goes
      · cases goes
        exact ⟨[], (List.append_nil _).symm⟩
      · cases goes
  | runPoll =>
      obtain ⟨⟨waker, code⟩, _, goes⟩ := Option.bind_eq_some_iff.mp goes
      obtain ⟨⟨rest, shared⟩, _, goes⟩ := Option.bind_eq_some_iff.mp goes
      cases goes
      cases rest with
      | done answer => exact ⟨_, rfl⟩
      | access what next => exact ⟨[], (List.append_nil _).symm⟩
  | settle =>
      obtain ⟨_, _, goes⟩ := Option.bind_eq_some_iff.mp goes
      cases goes
      exact ⟨[], (List.append_nil _).symm⟩

theorem run_polls {events : List (Event ω)} {polls : List (ω × Answer α)} {answered : ω × Answer α}
    (runs : run step events race = some next) (polled : ∃ others, race.polls = polls ++ answered :: others) :
    ∃ others, next.polls = polls ++ answered :: others := by
  induction events generalizing race with
  | nil =>
      cases runs
      exact polled
  | cons event events ih =>
      obtain ⟨between, first, rest⟩ := run_cons runs
      obtain ⟨late, became⟩ := step_polls first
      obtain ⟨others, polled⟩ := polled
      exact ih rest ⟨others ++ late, by rw [became, polled, List.append_assoc, List.cons_append]⟩

/-- Where nothing is left to settle, a poll that has begun goes on alone. -/
theorem run_alone {events : List (Event ω)} {poll : ω × Code α ω (Answer α)}
    (settled : race.settling = .done ()) (polling : race.polling = some poll)
    (runs : run step events race = some next) :
    next = race ∨ ∃ between rest, race.step .runPoll = some between ∧ run step rest between = some next := by
  cases events with
  | nil => exact .inl (Option.some.inj runs).symm
  | cons event events =>
      obtain ⟨between, first, rest⟩ := run_cons runs
      cases event with
      | poll waker =>
          simp only [Race.step, polling] at first
          cases first
      | runPoll => exact .inr ⟨between, events, first, rest⟩
      | settle =>
          simp only [Race.step, settled] at first
          cases first

/-- The next poll, once it has returned, has answered the settlement. -/
def NextAnswers (race : Race α ω) (waker : ω) (answer : Answer α) : Prop :=
  (∃ (accesses : Nat) (after : Race α ω),
    run step (.poll waker :: List.replicate accesses .runPoll) race = some after ∧
      after.polling = none ∧ after.polls = race.polls ++ [(waker, answer)]) ∧
  ∀ events after, run step (.poll waker :: events) race = some after →
    after.polling.isSome ∧ after.polls = race.polls ∨
      ∃ others, after.polls = race.polls ++ (waker, answer) :: others

theorem nextAnswers_ready {value : α} (settled : race.settling = .done ()) (idle : race.polling = none)
    (ready : race.shared.flags = .ready) (kept : race.shared.result = some value) (waker : ω) :
    race.NextAnswers waker (.ready (.ok value)) := by
  obtain ⟨⟨flags, result, slot, woken⟩, settling, polling, polls⟩ := race
  obtain ⟨rfl, rfl, rfl, rfl⟩ : flags = .ready ∧ result = some value ∧ settling = .done () ∧ polling = none :=
    ⟨ready, kept, settled, idle⟩
  refine ⟨⟨2, _, rfl, rfl, rfl⟩, fun events after runs => ?_⟩
  obtain ⟨started, first, runs⟩ := run_cons runs
  cases first
  rcases run_alone rfl rfl runs with rfl | ⟨loaded, rest, first, runs⟩
  · exact .inl ⟨rfl, rfl⟩
  cases first
  rcases run_alone rfl rfl runs with rfl | ⟨taken, rest, first, runs⟩
  · exact .inl ⟨rfl, rfl⟩
  cases first
  exact .inr (run_polls runs ⟨[], rfl⟩)

theorem nextAnswers_cancelled (settled : race.settling = .done ()) (idle : race.polling = none)
    (cancelled : race.shared.flags = .cancelled) (waker : ω) :
    race.NextAnswers waker (.ready (.error ⟨⟩)) := by
  obtain ⟨⟨flags, result, slot, woken⟩, settling, polling, polls⟩ := race
  obtain ⟨rfl, rfl, rfl⟩ : flags = .cancelled ∧ settling = .done () ∧ polling = none :=
    ⟨cancelled, settled, idle⟩
  refine ⟨⟨1, _, rfl, rfl, rfl⟩, fun events after runs => ?_⟩
  obtain ⟨started, first, runs⟩ := run_cons runs
  cases first
  rcases run_alone rfl rfl runs with rfl | ⟨loaded, rest, first, runs⟩
  · exact .inl ⟨rfl, rfl⟩
  cases first
  exact .inr (run_polls runs ⟨[], rfl⟩)

/-- The handle whose last poll has returned `Pending` hears of what settles it, and then answers. -/
theorem no_lost_wakeup {waker : ω} (reachable : Reachable step (new settlement) race)
    (settled : race.settling = .done ()) (idle : race.polling = none)
    (pending : race.polls.getLast? = some (waker, .pending)) (next : ω) :
    (∃ woken ∈ race.shared.woken, Equivalent woken waker) ∧ race.NextAnswers next settlement.answer := by
  have sound : race.Sound settlement :=
    reachable.invariant (fun sound goes => Sound.step sound goes) (new_sound settlement)
  constructor
  · obtain ⟨slot, will, same⟩ := sound.idle idle waker pending
    refine ⟨slot, will.resolve_right fun waits => ?_, same⟩
    rw [settled] at waits
    cases waits.2
  · have stands := sound.settling
    rw [settled] at stands
    generalize flag : race.shared.flags = flags at stands
    generalize race.shared.result = result at stands
    cases stands with
    | ready value =>
        refine nextAnswers_ready settled idle flag ?_ next
        refine (sound.published value rfl flag).resolve_right fun answered => ?_
        obtain ⟨other, answer, last, unanswered⟩ := answered
        cases last.symm.trans pending
        exact unanswered rfl
    | cancelled => exact nextAnswers_cancelled settled idle flag next

/-- The value is stored before the poll registers, and the flag behind its second look. -/
def registering : List (Event Unit) :=
  [.poll (), .runPoll, .settle, .runPoll, .runPoll, .settle, .settle]

theorem no_lost_wakeup_registering :
    let race : Race Nat Unit := ⟨⟨.ready, some 7, none, [()]⟩, .done (), none, [((), .pending)]⟩
    run step registering (new (.complete 7)) = some race ∧
      (∃ woken ∈ race.shared.woken, Equivalent woken ()) ∧ race.NextAnswers () (.ready (.ok 7)) := by
  refine ⟨rfl, ?_⟩
  exact @no_lost_wakeup Nat Unit _ (.complete 7) _ () ⟨registering, rfl⟩ rfl rfl rfl ()

end Race

end TptAsync.Core
