import TptAsync.Core.Task

set_option autoImplicit false

/-!
# What becomes of a join handle

The flag of the shared state is written with plain stores. The system keeps to the flag it
has once reached exactly in the runs in which no such store finds another flag.
-/

namespace TptAsync.Core

open Lib

variable {α ω : Type} [Waker ω]

/-- The accesses that neither fill nor empty the result, nor publish it. -/
def Access.Quiet : Access α ω → Prop
  | .load | .store .cancelled | .wake => True
  | .store .pending | .store .ready | .put _ | .take | .register _ => False

@[simp] theorem Access.effect_store (flags : Flags) (shared : SharedState α ω) :
    ((Access.store flags).effect shared).2 = { shared with flags } := rfl

theorem Access.effect_register (waker : ω) (shared : SharedState α ω) :
    ∃ slot, ((Access.register waker).effect shared).2 = { shared with waker := slot } := by
  simp only [Access.effect]
  split
  · exact ⟨_, rfl⟩
  · exact ⟨_, rfl⟩

theorem Access.effect_flags {access : Access α ω} (noStore : ∀ flags, access ≠ .store flags)
    (shared : SharedState α ω) : (access.effect shared).2.flags = shared.flags := by
  cases access with
  | store flags => exact absurd rfl (noStore flags)
  | register waker =>
      obtain ⟨slot, same⟩ := effect_register waker shared
      rw [same]
  | wake => simp only [Access.effect]; split <;> rfl
  | load | put value | take => rfl

theorem Access.Quiet.result {access : Access α ω} (quiet : access.Quiet) (shared : SharedState α ω) :
    (access.effect shared).2.result = shared.result := by
  cases access with
  | wake => simp only [Access.effect]; split <;> rfl
  | load | store flags => rfl
  | put value | take | register waker => exact quiet.elim

omit [Waker ω] in
theorem SharedState.cancel_quiet : (SharedState.cancel : Code α ω Unit).Only Access.Quiet :=
  ⟨trivial, fun _ => ⟨trivial, fun _ => trivial⟩⟩

omit [Waker ω] in
theorem Completer.drop_quiet : (Completer.drop : Code α ω Unit).Only Access.Quiet := by
  refine ⟨trivial, fun flags : Flags => ?_⟩
  cases flags with
  | pending => exact SharedState.cancel_quiet
  | ready | cancelled => trivial

omit [Waker ω] in
theorem Task.drop_quiet : (Task.drop : Code α ω Unit).Only Access.Quiet := by
  refine ⟨trivial, fun flags : Flags => ?_⟩
  cases flags with
  | pending => exact SharedState.cancel_quiet
  | ready | cancelled => trivial

namespace JoinHandle

/-- A poll that has registered its waker. -/
def recheck : Code α ω (Answer α) := do
  match ← load with
  | .ready => takeResult
  | .cancelled => return .ready (.error ⟨⟩)
  | .pending => return .pending

/-- Where a poll may stand. It is about to take the result only if that is there. -/
inductive Polling : Flags → Code α ω (Answer α) → Prop
  | start (flags : Flags) (waker : ω) : Polling flags (poll waker)
  | register (flags : Flags) (waker : ω) : Polling flags (do register waker; recheck)
  | recheck (flags : Flags) : Polling flags recheck
  | take : Polling .ready takeResult

end JoinHandle

/-- Where the call that uses up the completer may stand. The result is filled before the
flag is `ready`. -/
inductive Completing : Flags → Code α ω Unit → Prop
  | start {flags : Flags} (unready : flags ≠ .ready) (value : α) :
      Completing flags (Completer.complete value)
  | publish {flags : Flags} (unready : flags ≠ .ready) :
      Completing flags (do store .ready; wake; Completer.drop)
  | rest {flags : Flags} {call : Code α ω Unit} (quiet : call.Only Access.Quiet) : Completing flags call

def HandleUse.Sound (flags : Flags) : HandleUse α ω → Prop
  | .borrowed cancels => ∀ call ∈ cancels, call.Only Access.Quiet
  | .polling poll => JoinHandle.Polling flags poll
  | .dropping drop => drop.Only Access.Quiet

def CompleterUse.Sound (flags : Flags) : CompleterUse α ω → Prop
  | .owned => flags ≠ .ready
  | .used call => Completing flags call

structure System.Sound (system : System α ω) : Prop where
  handle : system.handle.Sound system.shared.flags
  completer : system.completer.Sound system.shared.flags

/-- What a poll answers that finds the flag `ready`. -/
def taken : Option α → Answer α
  | some value => .ready (.ok value)
  | none => .panicked

/-- What may have come of a system since an earlier moment: a flag other than `pending` is
still there; since the task is cancelled every poll has answered so; since it is completed
the first poll has answered the value, which is there as long as none has, and the others
have found it gone. -/
def Since (earlier later : System α ω) : Prop :=
  ∃ answers, later.answers = earlier.answers ++ answers ∧
    match earlier.shared.flags with
    | .pending => True
    | .cancelled => later.shared.flags = .cancelled ∧ ∀ answer ∈ answers, answer = .ready (.error ⟨⟩)
    | .ready => later.shared.flags = .ready ∧
        (answers = [] ∧ later.shared.result = earlier.shared.result ∨
          ∃ others, answers = taken earlier.shared.result :: List.replicate others .panicked ∧
            later.shared.result = none)

omit [Waker ω] in
theorem Since.flags {earlier later : System α ω} (since : Since earlier later)
    (settled : earlier.shared.flags ≠ .pending) : later.shared.flags = earlier.shared.flags := by
  obtain ⟨answers, _, became⟩ := since
  cases flag : earlier.shared.flags with
  | pending => exact absurd flag settled
  | ready => rw [flag] at became; exact became.1
  | cancelled => rw [flag] at became; exact became.1

omit [Waker ω] in
theorem Since.refl (system : System α ω) : Since system system := by
  refine ⟨[], (List.append_nil _).symm, ?_⟩
  cases flag : system.shared.flags with
  | pending => trivial
  | ready => exact ⟨rfl, .inl ⟨rfl, rfl⟩⟩
  | cancelled => exact ⟨rfl, nofun⟩

omit [Waker ω] in
theorem Since.trans {first second third : System α ω} (early : Since first second)
    (late : Since second third) : Since first third := by
  have kept := early.flags
  obtain ⟨between, answered, became⟩ := early
  obtain ⟨after, answeredLater, becameLater⟩ := late
  refine ⟨between ++ after, by rw [answeredLater, answered, List.append_assoc], ?_⟩
  cases flag : first.shared.flags with
  | pending => trivial
  | cancelled =>
      rw [flag] at became
      rw [became.1] at becameLater
      refine ⟨becameLater.1, fun answer member => ?_⟩
      rcases List.mem_append.mp member with inside | inside
      · exact became.2 answer inside
      · exact becameLater.2 answer inside
  | ready =>
      rw [flag] at became
      rw [became.1] at becameLater
      refine ⟨becameLater.1, ?_⟩
      rcases became.2 with ⟨rfl, same⟩ | ⟨others, rfl, gone⟩
      · rw [← same]
        exact becameLater.2
      · right
        rcases becameLater.2 with ⟨rfl, same⟩ | ⟨more, rfl, still⟩
        · exact ⟨others, List.append_nil _, same.trans gone⟩
        · refine ⟨others + (more + 1), ?_, still⟩
          rw [gone, List.cons_append, ← List.replicate_append_replicate]
          rfl

/-- The store that an event makes, if it makes one, finds the flag `pending` or as it
leaves it. -/
def Settles (system : System α ω) (event : Event α ω) : Prop :=
  ∀ flags, system.access event = some (.store flags) →
    system.shared.flags = .pending ∨ system.shared.flags = flags

/-- A step that leaves a flag other than `pending` alone, and a published result. -/
structure Absorbs (before after : SharedState α ω) : Prop where
  flags : before.flags ≠ .pending → after.flags = before.flags
  result : before.flags = .ready → after.result = before.result

/-- Nor does it publish one. -/
structure Calm (before after : SharedState α ω) : Prop extends Absorbs before after where
  unready : after.flags = .ready → before.flags = .ready

theorem Access.Quiet.calm {access : Access α ω} (quiet : access.Quiet) {shared : SharedState α ω}
    (settles : ∀ flags, access = .store flags → shared.flags = .pending ∨ shared.flags = flags) :
    Calm shared (access.effect shared).2 := by
  refine ⟨⟨fun settled => ?_, fun _ => quiet.result shared⟩, fun became => ?_⟩
  · cases access with
    | store flags => exact ((settles flags rfl).resolve_left settled).symm
    | load | put value | take | register waker | wake => exact effect_flags (by nofun) shared
  · cases access with
    | store flags =>
        cases flags with
        | cancelled => cases became
        | pending | ready => exact quiet.elim
    | load | put value | take | register waker | wake => exact (effect_flags (by nofun) shared).symm.trans became

omit [Waker ω] in
theorem Absorbs.since {earlier later : System α ω} (absorbs : Absorbs earlier.shared later.shared)
    (same : later.answers = earlier.answers) : Since earlier later := by
  refine ⟨[], by rw [same, List.append_nil], ?_⟩
  cases flag : earlier.shared.flags with
  | pending => trivial
  | ready => exact ⟨(absorbs.flags (by rw [flag]; nofun)).trans flag, .inl ⟨rfl, absorbs.result flag⟩⟩
  | cancelled => exact ⟨(absorbs.flags (by rw [flag]; nofun)).trans flag, nofun⟩

omit [Waker ω] in
theorem HandleUse.Sound.absorbs {before after : SharedState α ω} {use : HandleUse α ω}
    (sound : use.Sound before.flags) (absorbs : Absorbs before after) : use.Sound after.flags := by
  cases use with
  | borrowed cancels => exact sound
  | dropping drop => exact sound
  | polling poll =>
      generalize found : before.flags = flags at sound
      cases sound with
      | start _ waker => exact .start _ waker
      | register _ waker => exact .register _ waker
      | recheck => exact .recheck _
      | take =>
          have same := (absorbs.flags (by rw [found]; nofun)).trans found
          rw [Sound, same]
          exact .take

omit [Waker ω] in
theorem CompleterUse.Sound.calm {before after : SharedState α ω} {use : CompleterUse α ω}
    (sound : use.Sound before.flags) (calm : Calm before after) : use.Sound after.flags := by
  have unready : before.flags ≠ .ready → after.flags ≠ .ready := fun before became => before (calm.unready became)
  cases use with
  | owned => exact unready sound
  | used call =>
      generalize found : before.flags = flags at sound unready
      cases sound with
      | start was value => exact .start (unready was) value
      | publish was => exact .publish (unready was)
      | rest quiet => exact .rest quiet

namespace JoinHandle

/-- What is left of a poll behind an access, or how it ends: the answer is the one that goes
with the flag. -/
def Polled (before after : SharedState α ω) : Code α ω (Answer α) → Prop
  | .done answer =>
      match before.flags with
      | .pending => True
      | .cancelled => answer = .ready (.error ⟨⟩)
      | .ready => answer = taken before.result ∧ after.result = none
  | .access what next => Polling before.flags (.access what next) ∧ after.result = before.result

theorem Polling.advance {poll rest : Code α ω (Answer α)} {before after : SharedState α ω}
    (polling : Polling before.flags poll) (advances : poll.advance Access.effect before = some (rest, after)) :
    after.flags = before.flags ∧ Polled before after rest := by
  obtain ⟨flags, result, waker, woken⟩ := before
  cases polling with
  | start _ waker =>
      cases advances
      refine ⟨rfl, ?_⟩
      cases flags with
      | pending => exact ⟨.register _ waker, rfl⟩
      | ready => exact ⟨.take, rfl⟩
      | cancelled => rfl
  | register _ registered =>
      obtain ⟨slot, same⟩ := Access.effect_register registered ⟨flags, result, waker, woken⟩
      obtain ⟨continues, memory⟩ := Prod.mk.inj (Option.some.inj advances)
      obtain rfl : JoinHandle.recheck = rest := continues
      obtain rfl : _ = after := same.symm.trans memory
      exact ⟨rfl, .recheck _, rfl⟩
  | recheck =>
      cases advances
      refine ⟨rfl, ?_⟩
      cases flags with
      | pending => trivial
      | ready => exact ⟨.take, rfl⟩
      | cancelled => rfl
  | take =>
      cases advances
      cases result <;> exact ⟨rfl, rfl, rfl⟩

end JoinHandle

/-- One access of the call that uses up the completer. -/
theorem Completing.advance {call rest : Code α ω Unit} {shared after : SharedState α ω}
    (completing : Completing shared.flags call) (advances : call.advance Access.effect shared = some (rest, after))
    (settles : ∀ flags, call.next = some (.store flags) → shared.flags = .pending ∨ shared.flags = flags) :
    Completing after.flags rest ∧ Absorbs shared after := by
  generalize found : shared.flags = flags at completing settles
  cases completing with
  | start unready value =>
      cases advances
      exact ⟨.publish (found ▸ unready), fun _ => rfl, fun became => absurd (found ▸ became) unready⟩
  | publish unready =>
      cases advances
      have settled := (settles .ready rfl).resolve_right unready
      refine ⟨.rest ⟨trivial, fun _ => Completer.drop_quiet⟩, ?_, ?_⟩
      · exact fun other => absurd (found.trans settled) other
      · exact fun became => absurd (found ▸ became) unready
  | rest quiet =>
      obtain ⟨only, access, still, makes, rfl⟩ := quiet.advance advances
      have calm : Calm shared (access.effect shared).2 :=
        still.calm fun flags same => found ▸ settles flags (same ▸ makes)
      exact ⟨.rest only, calm.toAbsorbs⟩

namespace System

theorem runCancel_sound {system next : System α ω} {index : Nat} (sound : system.Sound)
    (steps : system.runCancel index = some next) (settles : Settles system (.runCancel index)) :
    next.Sound ∧ Since system next := by
  obtain ⟨shared, handle, completer, answers⟩ := system
  cases handle with
  | polling poll => cases steps
  | dropping drop => cases steps
  | borrowed cancels =>
      obtain ⟨call, found, steps⟩ := Option.bind_eq_some_iff.mp steps
      obtain ⟨⟨rest, after⟩, advances, steps⟩ := Option.bind_eq_some_iff.mp steps
      cases steps
      obtain ⟨only, access, quiet, makes, rfl⟩ :=
        Program.Only.advance (sound.handle call (List.mem_of_getElem? found)) advances
      have calm : Calm shared (access.effect shared).2 := quiet.calm fun flags same =>
        settles flags (by rw [System.access]; simp only [found]; exact same ▸ makes)
      refine ⟨⟨fun other member => ?_, sound.completer.calm calm⟩, calm.toAbsorbs.since rfl⟩
      rcases List.mem_or_eq_of_mem_set member with old | rfl
      · exact sound.handle other old
      · exact only

theorem runHandle_sound {system next : System α ω} (sound : system.Sound)
    (steps : system.runHandle = some next) (settles : Settles system .runHandle) :
    next.Sound ∧ Since system next := by
  obtain ⟨shared, handle, completer, answers⟩ := system
  cases handle with
  | borrowed cancels => cases steps
  | dropping drop =>
      obtain ⟨⟨rest, after⟩, advances, steps⟩ := Option.bind_eq_some_iff.mp steps
      cases steps
      obtain ⟨only, access, quiet, makes, rfl⟩ := Program.Only.advance sound.handle advances
      have calm : Calm shared (access.effect shared).2 := quiet.calm fun flags same =>
        settles flags (same ▸ makes)
      exact ⟨⟨only, sound.completer.calm calm⟩, calm.toAbsorbs.since rfl⟩
  | polling poll =>
      obtain ⟨⟨rest, after⟩, advances, steps⟩ := Option.bind_eq_some_iff.mp steps
      obtain ⟨same, polled⟩ := JoinHandle.Polling.advance sound.handle advances
      have completes : completer.Sound after.flags := by
        rw [same]
        exact sound.completer
      cases rest with
      | access what continues =>
          cases steps
          have calm : Calm shared after := ⟨⟨fun _ => same, fun _ => polled.2⟩, fun ready => same ▸ ready⟩
          refine ⟨⟨?_, completes⟩, calm.toAbsorbs.since rfl⟩
          rw [HandleUse.Sound, same]
          exact polled.1
      | done answer =>
          cases steps
          refine ⟨⟨nofun, completes⟩, [answer], rfl, ?_⟩
          simp only [JoinHandle.Polled] at polled
          cases flag : shared.flags with
          | pending => trivial
          | cancelled =>
              rw [flag] at polled
              exact ⟨same.trans flag, fun other only => (List.mem_singleton.mp only).trans polled⟩
          | ready =>
              rw [flag] at polled
              exact ⟨same.trans flag, .inr ⟨0, by rw [polled.1]; rfl, polled.2⟩⟩

theorem runCompleter_sound {system next : System α ω} (sound : system.Sound)
    (steps : system.runCompleter = some next) (settles : Settles system .runCompleter) :
    next.Sound ∧ Since system next := by
  obtain ⟨shared, handle, completer, answers⟩ := system
  cases completer with
  | owned => cases steps
  | used call =>
      obtain ⟨⟨rest, after⟩, advances, steps⟩ := Option.bind_eq_some_iff.mp steps
      cases steps
      obtain ⟨completes, absorbs⟩ := Completing.advance sound.completer advances settles
      exact ⟨⟨sound.handle.absorbs absorbs, completes⟩, absorbs.since rfl⟩

omit [Waker ω] in
theorem startExclusive_sound {system next : System α ω} {use : HandleUse α ω} (sound : system.Sound)
    (fits : use.Sound system.shared.flags) (steps : system.startExclusive use = some next) :
    next.Sound ∧ Since system next := by
  obtain ⟨shared, handle, completer, answers⟩ := system
  cases handle with
  | polling poll => cases steps
  | dropping drop => cases steps
  | borrowed cancels =>
      simp only [startExclusive, Option.ite_none_right_eq_some] at steps
      cases steps.2
      exact ⟨⟨fits, sound.completer⟩, Absorbs.since ⟨fun _ => rfl, fun _ => rfl⟩ rfl⟩

omit [Waker ω] in
theorem useCompleter_sound {system next : System α ω} {call : Code α ω Unit} (sound : system.Sound)
    (fits : system.shared.flags ≠ .ready → Completing system.shared.flags call)
    (steps : system.useCompleter call = some next) : next.Sound ∧ Since system next := by
  obtain ⟨shared, handle, completer, answers⟩ := system
  cases completer with
  | used call => cases steps
  | owned =>
      cases steps
      exact ⟨⟨sound.handle, fits sound.completer⟩, Absorbs.since ⟨fun _ => rfl, fun _ => rfl⟩ rfl⟩

/-- What a step whose store settles keeps, and what comes of it. -/
theorem step_sound {system next : System α ω} {event : Event α ω} (sound : system.Sound)
    (steps : system.step event = some next) (settles : Settles system event) :
    next.Sound ∧ Since system next := by
  cases event with
  | poll waker =>
      have fits : HandleUse.Sound system.shared.flags (.polling (JoinHandle.poll waker : Code α ω _)) :=
        .start _ waker
      exact startExclusive_sound sound fits steps
  | dropTask =>
      have fits : HandleUse.Sound system.shared.flags (.dropping (Task.drop : Code α ω Unit)) := Task.drop_quiet
      exact startExclusive_sound sound fits steps
  | complete value => exact useCompleter_sound sound (fun unready => .start unready value) steps
  | dropCompleter => exact useCompleter_sound sound (fun _ => .rest Completer.drop_quiet) steps
  | runCancel index => exact runCancel_sound sound steps settles
  | runHandle => exact runHandle_sound sound steps settles
  | runCompleter => exact runCompleter_sound sound steps settles
  | cancel =>
      obtain ⟨shared, handle, completer, answers⟩ := system
      cases handle with
      | polling poll => cases steps
      | dropping drop => cases steps
      | borrowed cancels =>
          cases steps
          refine ⟨⟨fun call member => ?_, sound.completer⟩, Absorbs.since ⟨fun _ => rfl, fun _ => rfl⟩ rfl⟩
          rcases List.mem_append.mp member with old | new
          · exact sound.handle call old
          · exact List.mem_singleton.mp new ▸ SharedState.cancel_quiet

/-- The shared state behind a step that makes an access. -/
theorem step_access {system next : System α ω} {event : Event α ω} {access : Access α ω}
    (steps : system.step event = some next) (makes : system.access event = some access) :
    next.shared = (access.effect system.shared).2 := by
  obtain ⟨shared, handle, completer, answers⟩ := system
  cases event with
  | cancel | poll waker | dropTask | complete value | dropCompleter => cases makes
  | runCancel index =>
      cases handle with
      | polling poll => cases steps
      | dropping drop => cases steps
      | borrowed cancels =>
          obtain ⟨call, found, steps⟩ := Option.bind_eq_some_iff.mp steps
          obtain ⟨⟨rest, after⟩, advances, steps⟩ := Option.bind_eq_some_iff.mp steps
          obtain ⟨what, next, rfl⟩ := Program.advance_next advances
          simp only [System.access, found, Option.bind_some] at makes
          cases steps
          cases next.symm.trans makes
          rfl
  | runHandle =>
      cases handle with
      | borrowed cancels => cases steps
      | polling poll =>
          obtain ⟨⟨rest, after⟩, advances, steps⟩ := Option.bind_eq_some_iff.mp steps
          obtain ⟨what, next, rfl⟩ := Program.advance_next advances
          cases next.symm.trans makes
          cases rest <;> cases steps <;> rfl
      | dropping drop =>
          obtain ⟨⟨rest, after⟩, advances, steps⟩ := Option.bind_eq_some_iff.mp steps
          obtain ⟨what, next, rfl⟩ := Program.advance_next advances
          cases steps
          cases next.symm.trans makes
          rfl
  | runCompleter =>
      cases completer with
      | owned => cases steps
      | used call =>
          obtain ⟨⟨rest, after⟩, advances, steps⟩ := Option.bind_eq_some_iff.mp steps
          obtain ⟨what, next, rfl⟩ := Program.advance_next advances
          cases steps
          cases next.symm.trans makes
          rfl

theorem step_since_iff {system next : System α ω} {event : Event α ω} (sound : system.Sound)
    (steps : system.step event = some next) : Since system next ↔ Settles system event := by
  constructor
  · intro since flags makes
    by_cases pending : system.shared.flags = .pending
    · exact .inl pending
    · right
      have same := since.flags pending
      rw [step_access steps makes] at same
      exact same.symm
  · exact fun settles => (step_sound sound steps settles).2

omit [Waker ω] in
theorem new_sound : (new : System α ω).Sound := ⟨nofun, nofun⟩

/-- In every run, what each moment finds of every earlier one is as it should be, exactly
when every store settles. -/
theorem throughout_since_iff (events : List (Event α ω)) :
    Throughout step Since events new ↔ AllAllowed step Settles events new :=
  throughout_iff Since.refl Since.trans (fun sound steps settles => (step_sound sound steps settles).1)
    step_since_iff new_sound

section Example

instance : Waker Unit := ⟨fun _ _ => true⟩

/-- `cancel`, then `complete`, then a poll. -/
def resurrected : List (Event Nat Unit) :=
  [.cancel, .runCancel 0, .runCancel 0, .complete 7, .runCompleter, .runCompleter, .runCompleter,
    .runCompleter, .poll (), .runHandle, .runHandle]

/-- `complete`, then `cancel`, then a poll. -/
def discarded : List (Event Nat Unit) :=
  [.complete 7, .runCompleter, .runCompleter, .runCompleter, .runCompleter, .cancel, .runCancel 0,
    .runCancel 0, .poll (), .runHandle]

/-- A cancelled handle yields the value, and a completed one yields that it is cancelled. -/
theorem not_throughout_since :
    (∃ first second, run step (resurrected.take 3) new = some first ∧ first.shared.flags = .cancelled ∧
        run step resurrected new = some second ∧ second.answers = [.ready (.ok 7)]) ∧
      ¬ Throughout step Since resurrected new ∧
      (∃ first second, run step (discarded.take 3) new = some first ∧ first.shared.flags = .ready ∧
        first.shared.result = some 7 ∧
        run step discarded new = some second ∧ second.answers = [.ready (.error ⟨⟩)]) ∧
      ¬ Throughout step Since discarded new := by
  refine ⟨⟨_, _, rfl, rfl, rfl, rfl⟩, fun throughout => ?_, ⟨_, _, rfl, rfl, rfl, rfl, rfl⟩, fun throughout => ?_⟩
  · have since := throughout (resurrected.take 3) (resurrected.drop 3) _ _ (List.prefix_refl _) rfl rfl
    exact absurd (since.flags nofun) nofun
  · have since := throughout (discarded.take 3) (discarded.drop 3) _ _ (List.prefix_refl _) rfl rfl
    exact absurd (since.flags nofun) nofun

end Example

end System

end TptAsync.Core
