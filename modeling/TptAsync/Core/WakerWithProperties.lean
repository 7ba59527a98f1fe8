import TptAsync.Core.WakerWith

set_option autoImplicit false

/-!
# What the count of a waker's body is

Every waker and every call that has used one up owns a reference. A call by reference that panics
gives up one that it does not own.
-/

namespace TptAsync.Core

open Lib

namespace BodyAccess

variable {access : BodyAccess} {ending : WakeEnd} {body : Body}

theorem effect_corrupt (access : BodyAccess) (ending : WakeEnd) (body : Body) :
    (access.effect ending body).2.corrupt = (decide (body.strong = 0) || body.corrupt) := by
  by_cases dead : body.strong = 0
  · simp [effect, dead]
  · cases access <;> simp [effect, apply, dead]

theorem effect_alive (access : BodyAccess) (ending : WakeEnd) (alive : body.strong ≠ 0) :
    (access.effect ending body).2 = access.apply body := if_neg alive

/-- The body is freed with the last reference. -/
theorem apply_freed (access : BodyAccess) (alive : body.strong ≠ 0) (kept : body.freed = 0) :
    (access.apply body).freed = if (access.apply body).strong = 0 then 1 else 0 := by
  cases access with
  | vtable | onWake | wakeEnd => simp [apply, alive, kept]
  | increment => simp [apply, kept]
  | decrement =>
      have last : body.strong - 1 = 0 ↔ body.strong = 1 := by omega
      simp [apply, kept, last]

end BodyAccess

namespace VtableFn

/-- Where a call of `wake` may stand. -/
inductive WakeStage : VtableFn → Prop
  | called : WakeStage wakeOwned.called
  | onWake : WakeStage wakeOwned
  | wakeEnd : WakeStage (.access .wakeEnd fun _ => decrement)
  | decrement : WakeStage decrement
  | done : WakeStage (.done ())

inductive ByRefStage : VtableFn → Prop
  | called : ByRefStage wakeByRef.called
  | onWake : ByRefStage wakeByRef
  | wakeEnd : ByRefStage wakeByRefEnd
  | unwinding : ByRefStage decrement
  | done : ByRefStage (.done ())

inductive DropStage : VtableFn → Prop
  | called : DropStage dropWaker.called
  | decrement : DropStage dropWaker
  | done : DropStage (.done ())

inductive CloneStage : VtableFn → Prop
  | called : CloneStage cloneWaker.called
  | increment : CloneStage cloneWaker
  | done : CloneStage (.done ())

/-- A call that has used up a waker owns its reference to the end. -/
def owned (call : VtableFn) : Nat := if call.isDone then 0 else 1

/-- A call by reference that has panicked is about to give up a reference. -/
def unwinding (call : VtableFn) : Nat := if call.next = some .decrement then 1 else 0

/-- The closure is still to be called. -/
def waiting (call : VtableFn) : Nat :=
  if call.next = some .vtable ∨ call.next = some .onWake then 1 else 0

/-- The closure comes to its end in a panic. -/
def panics (call : VtableFn) (ending : WakeEnd) : Nat :=
  if call.next = some .wakeEnd ∧ ending = .panicked then 1 else 0

variable {call rest : VtableFn} {ending : WakeEnd} {body after : Body}

theorem advance_body (advances : call.advance (BodyAccess.effect ending) body = some (rest, after)) :
    ∃ access, after = (BodyAccess.effect ending access body).2 := by
  obtain ⟨access, _, effect⟩ := Program.advance_next advances
  exact ⟨access, effect⟩

theorem advance_corrupt (advances : call.advance (BodyAccess.effect ending) body = some (rest, after)) :
    after.corrupt = (decide (body.strong = 0) || body.corrupt) := by
  obtain ⟨access, rfl⟩ := advance_body advances
  exact BodyAccess.effect_corrupt access ending body

theorem advance_freed (alive : body.strong ≠ 0) (kept : body.freed = 0)
    (advances : call.advance (BodyAccess.effect ending) body = some (rest, after)) :
    after.freed = if after.strong = 0 then 1 else 0 := by
  obtain ⟨access, rfl⟩ := advance_body advances
  rw [BodyAccess.effect_alive access ending alive]
  exact access.apply_freed alive kept

/-- The access that a call makes, and what is behind it. -/
theorem advance_access {access : BodyAccess} {next : access.Response → VtableFn} (alive : body.strong ≠ 0)
    (advances : Program.advance (BodyAccess.effect ending) (.access access next) body = some (rest, after)) :
    rest = next (access.answer ending) ∧ after = access.apply body := by
  obtain ⟨rfl, rfl⟩ := Prod.mk.inj (Option.some.inj advances)
  exact ⟨rfl, BodyAccess.effect_alive access ending alive⟩

/-- A call that goes on has not come to its end. -/
theorem owned_of_advance (advances : call.advance (BodyAccess.effect ending) body = some (rest, after)) :
    call.owned = 1 := by
  cases call with
  | done value => cases advances
  | access what next => rfl

theorem WakeStage.advance (stage : WakeStage call) (alive : body.strong ≠ 0)
    (advances : call.advance (BodyAccess.effect ending) body = some (rest, after)) :
    WakeStage rest ∧ after.strong + call.owned = body.strong + rest.owned ∧
      after.calls + rest.waiting = body.calls + call.waiting := by
  cases stage with
  | called =>
      obtain ⟨rfl, rfl⟩ := advance_access alive advances
      exact ⟨.onWake, rfl, rfl⟩
  | onWake =>
      obtain ⟨rfl, rfl⟩ := advance_access alive advances
      exact ⟨.wakeEnd, rfl, rfl⟩
  | wakeEnd =>
      obtain ⟨rfl, rfl⟩ := advance_access alive advances
      exact ⟨.decrement, rfl, rfl⟩
  | decrement =>
      obtain ⟨rfl, rfl⟩ := advance_access alive advances
      exact ⟨.done, Nat.sub_add_cancel (Nat.pos_of_ne_zero alive), rfl⟩
  | done => cases advances

theorem DropStage.advance (stage : DropStage call) (alive : body.strong ≠ 0)
    (advances : call.advance (BodyAccess.effect ending) body = some (rest, after)) :
    DropStage rest ∧ after.strong + call.owned = body.strong + rest.owned ∧ after.calls = body.calls := by
  cases stage with
  | called =>
      obtain ⟨rfl, rfl⟩ := advance_access alive advances
      exact ⟨.decrement, rfl, rfl⟩
  | decrement =>
      obtain ⟨rfl, rfl⟩ := advance_access alive advances
      exact ⟨.done, Nat.sub_add_cancel (Nat.pos_of_ne_zero alive), rfl⟩
  | done => cases advances

theorem ByRefStage.advance (stage : ByRefStage call) (alive : body.strong ≠ 0)
    (advances : call.advance (BodyAccess.effect ending) body = some (rest, after)) :
    ByRefStage rest ∧
      after.strong + call.panics ending + call.unwinding = body.strong + rest.unwinding ∧
      after.calls + rest.waiting = body.calls + call.waiting ∧
      (rest.unwinding ≤ call.panics ending) := by
  cases stage with
  | called =>
      obtain ⟨rfl, rfl⟩ := advance_access alive advances
      exact ⟨.onWake, rfl, rfl, Nat.zero_le _⟩
  | onWake =>
      obtain ⟨rfl, rfl⟩ := advance_access alive advances
      exact ⟨.wakeEnd, rfl, rfl, Nat.zero_le _⟩
  | wakeEnd =>
      obtain ⟨rfl, rfl⟩ := advance_access alive advances
      cases ending with
      | returned => exact ⟨.done, rfl, rfl, Nat.zero_le _⟩
      | panicked => exact ⟨.unwinding, rfl, rfl, le_rfl⟩
  | unwinding =>
      obtain ⟨rfl, rfl⟩ := advance_access alive advances
      exact ⟨.done, Nat.sub_add_cancel (Nat.pos_of_ne_zero alive), rfl, Nat.zero_le _⟩
  | done => cases advances

/-- A clone that has come to its end has counted the reference of the new waker. -/
theorem CloneStage.advance (stage : CloneStage call) (alive : body.strong ≠ 0)
    (advances : call.advance (BodyAccess.effect ending) body = some (rest, after)) :
    CloneStage rest ∧ after.strong = body.strong + (if rest.isDone then 1 else 0) ∧
      after.calls = body.calls := by
  cases stage with
  | called =>
      obtain ⟨rfl, rfl⟩ := advance_access alive advances
      exact ⟨.increment, rfl, rfl⟩
  | increment =>
      obtain ⟨rfl, rfl⟩ := advance_access alive advances
      exact ⟨.done, rfl, rfl⟩
  | done => cases advances

end VtableFn

namespace WakerUse

def Staged : WakerUse → Prop
  | .borrowed wakes clones =>
      (∀ call ∈ wakes, VtableFn.ByRefStage call) ∧ ∀ call ∈ clones, VtableFn.CloneStage call
  | .woken call => VtableFn.WakeStage call
  | .dropped call => VtableFn.DropStage call
  | .forgotten => True

/-- The reference of a waker, or of the call that has used it up. -/
def owned : WakerUse → Nat
  | .borrowed _ _ => 1
  | .woken call | .dropped call => call.owned
  | .forgotten => 0

/-- The reference of a waker that nobody can reach. -/
def leaked : WakerUse → Nat
  | .forgotten => 1
  | .borrowed _ _ | .woken _ | .dropped _ => 0

def unwinding : WakerUse → Nat
  | .borrowed wakes _ => total VtableFn.unwinding wakes
  | .woken _ | .dropped _ | .forgotten => 0

def waiting : WakerUse → Nat
  | .borrowed wakes _ => total VtableFn.waiting wakes
  | .woken call => call.waiting
  | .dropped _ | .forgotten => 0

end WakerUse

namespace Waking

def owned (waking : Waking) : Nat := total WakerUse.owned waking.wakers

def leaked (waking : Waking) : Nat := total WakerUse.leaked waking.wakers

def unwinding (waking : Waking) : Nat := total WakerUse.unwinding waking.wakers

/-- The calls that have not come to the closure yet. -/
def waiting (waking : Waking) : Nat := total WakerUse.waiting waking.wakers

/-- The account of a body whose memory has not been accessed behind its end. -/
structure Sound (waking : Waking) : Prop where
  staged : ∀ use ∈ waking.wakers, use.Staged
  strong : waking.body.strong + waking.panics = waking.owned + waking.leaked + waking.unwinding
  unwound : waking.unwinding ≤ waking.panics
  freed : waking.body.freed = if waking.body.strong = 0 then 1 else 0
  calls : waking.body.calls + waking.waiting = waking.wakes

theorem new_sound : new.Sound where
  staged use member := by
    cases List.mem_singleton.mp member
    exact ⟨by simp, by simp⟩
  strong := rfl
  unwound := le_rfl
  freed := rfl
  calls := rfl

variable {waking next : Waking} {event : WakingEvent} {waker : Nat} {use : WakerUse}

theorem Sound.staged_set (sound : waking.Sound) (fresh : use.Staged) :
    ∀ other ∈ waking.wakers.set waker use, other.Staged := by
  intro other member
  rcases List.mem_or_eq_of_mem_set member with member | rfl
  · exact sound.staged other member
  · exact fresh

/-- One waker is used in another way, and the body is left alone. -/
theorem Sound.reuse {old : WakerUse} (sound : waking.Sound) (found : waking.wakers[waker]? = some old)
    (staged : use.Staged) (owned : use.owned + use.leaked = old.owned + old.leaked)
    (unwinding : use.unwinding = old.unwinding) (woken : Nat)
    (waiting : use.waiting = old.waiting + woken) :
    Sound { waking with wakers := waking.wakers.set waker use, wakes := waking.wakes + woken } := by
  have owners := @total_set _ WakerUse.owned _ _ _ found use
  have leaks := @total_set _ WakerUse.leaked _ _ _ found use
  have unwinds := @total_set _ WakerUse.unwinding _ _ _ found use
  have waits := @total_set _ WakerUse.waiting _ _ _ found use
  obtain ⟨_, strong, unwound, freed, calls⟩ := id sound
  simp only [Waking.owned, Waking.leaked, Waking.unwinding, Waking.waiting] at strong unwound calls
  refine ⟨sound.staged_set staged, ?_, ?_, freed, ?_⟩
  all_goals simp only [Waking.owned, Waking.leaked, Waking.unwinding, Waking.waiting]; omega

/-- What an access of a call does to the account: its waker is used in another way from then on,
and there may be a clone of it. -/
structure Moves (waking : Waking) (old use : WakerUse) (panicked clones : Nat) (body : Body) : Prop where
  staged : use.Staged
  strong : body.strong + panicked + old.owned + old.unwinding =
    waking.body.strong + use.owned + use.unwinding + clones
  unwound : use.unwinding ≤ old.unwinding + panicked
  calls : body.calls + use.waiting = waking.body.calls + old.waiting
  freed : body.freed = if body.strong = 0 then 1 else 0

def moved (waking : Waking) (waker : Nat) (use : WakerUse) (panicked clones : Nat) (body : Body) : Waking :=
  { waking with
    body
    wakers := waking.wakers.set waker use ++ List.replicate clones (.borrowed [] [])
    panics := waking.panics + panicked }

/-- What holds as long as freed memory has not been accessed, and what must have been the case when
it was. -/
inductive Standing (waking : Waking) : Prop
  | sound (safe : waking.body.corrupt = false) (sound : waking.Sound)
  | corrupt (broken : waking.body.corrupt = true) (lost : waking.leaked < waking.panics)

theorem Sound.moved {old : WakerUse} {panicked clones : Nat} {body : Body} (sound : waking.Sound)
    (safe : waking.body.corrupt = false) (found : waking.wakers[waker]? = some old)
    (owner : old.owned = 1) (same : use.leaked = old.leaked)
    (corrupt : body.corrupt = (decide (waking.body.strong = 0) || waking.body.corrupt))
    (moves : waking.body.strong ≠ 0 → waking.Moves old use panicked clones body) :
    (waking.moved waker use panicked clones body).Standing := by
  have owners := @total_set _ WakerUse.owned _ _ _ found use
  have leaks := @total_set _ WakerUse.leaked _ _ _ found use
  have unwinds := @total_set _ WakerUse.unwinding _ _ _ found use
  have waits := @total_set _ WakerUse.waiting _ _ _ found use
  obtain ⟨_, strong, unwound, _, calls⟩ := id sound
  simp only [Waking.owned, Waking.leaked, Waking.unwinding, Waking.waiting] at strong unwound calls
  by_cases dead : waking.body.strong = 0
  · have member : old.owned ≤ total WakerUse.owned waking.wakers := le_total (List.mem_of_getElem? found)
    refine .corrupt (by simp [Waking.moved, corrupt, dead]) ?_
    simp only [Waking.leaked, Waking.moved, total_append, total_replicate, WakerUse.leaked]
    omega
  · obtain ⟨staged, counted, unwinds', called, freed⟩ := moves dead
    refine .sound (by simp [Waking.moved, corrupt, dead, safe]) ⟨?_, ?_, ?_, freed, ?_⟩
    · intro other member
      rcases List.mem_append.mp member with member | member
      · exact sound.staged_set staged other member
      · obtain ⟨_, rfl⟩ := List.mem_replicate.mp member
        exact ⟨by simp, by simp⟩
    all_goals
      simp only [Waking.owned, Waking.leaked, Waking.unwinding, Waking.waiting, Waking.moved, total_append,
        total_replicate, WakerUse.leaked, WakerUse.owned, WakerUse.unwinding, WakerUse.waiting, total_nil]
      omega

/-- A waker that is used up has been borrowed by nobody. -/
theorem useUp_cases (used : waking.useUp waker use = some next) :
    ∃ wakes clones, waking.wakers[waker]? = some (.borrowed wakes clones) ∧
      (∀ call ∈ wakes, call.isDone = true) ∧ next = { waking with wakers := waking.wakers.set waker use } := by
  rw [useUp] at used
  split at used
  · next wakes clones found =>
      split at used
      · next idle =>
          rw [Bool.and_eq_true, List.all_eq_true] at idle
          exact ⟨wakes, clones, found, idle.1, (Option.some.inj used).symm⟩
      · cases used
  · cases used

theorem idle_weightless {wakes : List VtableFn} (idle : ∀ call ∈ wakes, call.isDone = true) :
    total VtableFn.unwinding wakes = 0 ∧ total VtableFn.waiting wakes = 0 := by
  have ended : ∀ call ∈ wakes, call.next = none := by
    intro call member
    cases call with
    | done value => rfl
    | access what next => cases idle _ member
  constructor
  · exact total_eq_zero fun call member => by simp [VtableFn.unwinding, ended call member]
  · exact total_eq_zero fun call member => by simp [VtableFn.waiting, ended call member]

theorem Sound.useUp (sound : waking.Sound) (used : waking.useUp waker use = some next)
    (staged : use.Staged) (owned : use.owned + use.leaked = 1) (still : use.unwinding = 0) (woken : Nat)
    (waiting : use.waiting = woken) : Sound { next with wakes := next.wakes + woken } := by
  obtain ⟨wakes, clones, found, idle, rfl⟩ := useUp_cases used
  obtain ⟨unwinding, called⟩ := idle_weightless idle
  refine sound.reuse found staged owned ?_ woken ?_
  · rw [still]
    exact unwinding.symm
  · rw [waiting, show (WakerUse.borrowed wakes clones).waiting = 0 from called, Nat.zero_add]

theorem Sound.runOwner {ending : WakeEnd} (sound : waking.Sound) (safe : waking.body.corrupt = false)
    (runs : waking.runOwner waker ending = some next) : next.Standing := by
  have unchanged : ∀ use body, Waking.moved waking waker use 0 0 body =
      { waking with body, wakers := waking.wakers.set waker use } := by
    simp [Waking.moved]
  rw [Waking.runOwner] at runs
  split at runs
  · next call found =>
      obtain ⟨⟨rest, body⟩, advances, goes⟩ := Option.bind_eq_some_iff.mp runs
      cases goes
      have stage : VtableFn.WakeStage call := sound.staged _ (List.mem_of_getElem? found)
      rw [← unchanged]
      refine sound.moved safe found (VtableFn.owned_of_advance advances) rfl
        (VtableFn.advance_corrupt advances) fun alive => ?_
      obtain ⟨staged, strong, calls⟩ := stage.advance alive advances
      exact ⟨staged, by simpa [WakerUse.owned, WakerUse.unwinding] using strong, Nat.zero_le _, calls,
        VtableFn.advance_freed alive (by simpa [alive] using sound.freed) advances⟩
  · next call found =>
      obtain ⟨⟨rest, body⟩, advances, goes⟩ := Option.bind_eq_some_iff.mp runs
      cases goes
      have stage : VtableFn.DropStage call := sound.staged _ (List.mem_of_getElem? found)
      rw [← unchanged]
      refine sound.moved safe found (VtableFn.owned_of_advance advances) rfl
        (VtableFn.advance_corrupt advances) fun alive => ?_
      obtain ⟨staged, strong, calls⟩ := stage.advance alive advances
      exact ⟨staged, by simpa [WakerUse.owned, WakerUse.unwinding] using strong, Nat.zero_le _,
        by rw [calls]; rfl, VtableFn.advance_freed alive (by simpa [alive] using sound.freed) advances⟩
  · cases runs

theorem Sound.runWake {call : Nat} {ending : WakeEnd} (sound : waking.Sound)
    (safe : waking.body.corrupt = false) (runs : waking.runWake waker call ending = some next) :
    next.Standing := by
  rw [Waking.runWake] at runs
  split at runs
  · next wakes clones found =>
      obtain ⟨code, listed, runs⟩ := Option.bind_eq_some_iff.mp runs
      obtain ⟨⟨rest, body⟩, advances, goes⟩ := Option.bind_eq_some_iff.mp runs
      cases goes
      obtain ⟨wakeStages, cloneStages⟩ := sound.staged _ (List.mem_of_getElem? found)
      have unchanged : waking.moved waker (.borrowed (wakes.set call rest) clones) (code.panics ending) 0
          body = { waking with
            body
            wakers := waking.wakers.set waker (.borrowed (wakes.set call rest) clones)
            panics := if code.next = some .wakeEnd ∧ ending = .panicked then waking.panics + 1
              else waking.panics } := by
        simp only [Waking.moved, VtableFn.panics, List.replicate_zero, List.append_nil]
        split <;> rfl
      rw [← unchanged]
      refine sound.moved safe found rfl rfl (VtableFn.advance_corrupt advances) fun alive => ?_
      obtain ⟨staged, strong, calls, unwound⟩ :=
        (wakeStages code (List.mem_of_getElem? listed)).advance alive advances
      have unwinds := @total_set _ VtableFn.unwinding _ _ _ listed rest
      have waits := @total_set _ VtableFn.waiting _ _ _ listed rest
      refine ⟨⟨?_, cloneStages⟩, ?_, ?_, ?_,
        VtableFn.advance_freed alive (by simpa [alive] using sound.freed) advances⟩
      · intro other member
        rcases List.mem_or_eq_of_mem_set member with member | rfl
        · exact wakeStages other member
        · exact staged
      all_goals
        simp only [WakerUse.owned, WakerUse.unwinding, WakerUse.waiting]
        omega
  · cases runs

theorem Sound.runClone {call : Nat} (sound : waking.Sound) (safe : waking.body.corrupt = false)
    (runs : waking.runClone waker call = some next) : next.Standing := by
  rw [Waking.runClone] at runs
  split at runs
  · next wakes clones found =>
      obtain ⟨code, listed, runs⟩ := Option.bind_eq_some_iff.mp runs
      obtain ⟨⟨rest, body⟩, advances, goes⟩ := Option.bind_eq_some_iff.mp runs
      cases goes
      obtain ⟨wakeStages, cloneStages⟩ := sound.staged _ (List.mem_of_getElem? found)
      have added : waking.moved waker (.borrowed wakes (clones.set call rest)) 0
          (if rest.isDone then 1 else 0) body =
        { waking with
          body
          wakers := if rest.isDone then
              waking.wakers.set waker (.borrowed wakes (clones.set call rest)) ++ [.borrowed [] []]
            else waking.wakers.set waker (.borrowed wakes (clones.set call rest)) } := by
        simp only [Waking.moved]
        split <;> simp
      rw [← added]
      refine sound.moved safe found rfl rfl (VtableFn.advance_corrupt advances) fun alive => ?_
      obtain ⟨staged, strong, calls⟩ :=
        (cloneStages code (List.mem_of_getElem? listed)).advance alive advances
      refine ⟨⟨wakeStages, ?_⟩, ?_, Nat.le_refl _, by rw [calls]; rfl,
        VtableFn.advance_freed alive (by simpa [alive] using sound.freed) advances⟩
      · intro other member
        rcases List.mem_or_eq_of_mem_set member with member | rfl
        · exact cloneStages other member
        · exact staged
      · simp only [WakerUse.owned, WakerUse.unwinding]
        omega
  · cases runs

theorem Sound.step (sound : waking.Sound) (stepped : waking.step event = some next) : next.Standing := by
  unfold Waking.step at stepped
  split at stepped
  · cases stepped
  · next intact =>
      have safe : waking.body.corrupt = false := by simpa using intact
      cases event with
      | wake waker =>
          obtain ⟨used, uses, goes⟩ := Option.bind_eq_some_iff.mp stepped
          cases goes
          have kept := sound.useUp uses .called rfl rfl 1 rfl
          obtain ⟨_, _, _, _, rfl⟩ := useUp_cases uses
          exact .sound safe kept
      | wakeByRef waker =>
          dsimp only at stepped
          split at stepped
          · next wakes clones found =>
              cases stepped
              obtain ⟨wakeStages, cloneStages⟩ := sound.staged _ (List.mem_of_getElem? found)
              have staged : (WakerUse.borrowed (wakes ++ [VtableFn.wakeByRef.called]) clones).Staged :=
                ⟨List.forall_mem_append.mpr ⟨wakeStages, List.forall_mem_singleton.mpr .called⟩, cloneStages⟩
              exact .sound safe
                (sound.reuse found staged rfl (total_append _ _ _) 1 (total_append _ _ _))
          · cases stepped
      | clone waker =>
          dsimp only at stepped
          split at stepped
          · next wakes clones found =>
              cases stepped
              obtain ⟨wakeStages, cloneStages⟩ := sound.staged _ (List.mem_of_getElem? found)
              have staged : (WakerUse.borrowed wakes (clones ++ [VtableFn.cloneWaker.called])).Staged :=
                ⟨wakeStages, List.forall_mem_append.mpr ⟨cloneStages, List.forall_mem_singleton.mpr .called⟩⟩
              exact .sound safe (sound.reuse found staged rfl rfl 0 rfl)
          · cases stepped
      | drop waker =>
          have kept := sound.useUp stepped .called rfl rfl 0 rfl
          obtain ⟨_, _, _, _, rfl⟩ := useUp_cases stepped
          exact .sound safe kept
      | forget waker =>
          have kept := sound.useUp stepped trivial rfl rfl 0 rfl
          obtain ⟨_, _, _, _, rfl⟩ := useUp_cases stepped
          exact .sound safe kept
      | runOwner waker ending => exact sound.runOwner safe stepped
      | runWake waker call ending => exact sound.runWake safe stepped
      | runClone waker call => exact sound.runClone safe stepped

theorem step_safe (stepped : waking.step event = some next) : waking.body.corrupt = false := by
  unfold Waking.step at stepped
  split at stepped
  · cases stepped
  · next intact => simpa using intact

theorem Standing.step (standing : waking.Standing) (stepped : waking.step event = some next) :
    next.Standing := by
  cases standing with
  | sound safe sound => exact sound.step stepped
  | corrupt broken lost =>
      rw [step_safe stepped] at broken
      cases broken

theorem Standing.of_safe (standing : waking.Standing) (safe : waking.body.corrupt = false) : waking.Sound := by
  cases standing with
  | sound _ sound => exact sound
  | corrupt broken _ =>
      rw [safe] at broken
      cases broken

theorem Standing.run {events : List WakingEvent} (standing : waking.Standing)
    (runs : Lib.run Waking.step events waking = some next) : next.Standing :=
  Reachable.invariant Standing.step ⟨events, runs⟩ standing

theorem reachable_standing (reachable : Reachable step new waking) : waking.Standing :=
  reachable.invariant Standing.step (.sound rfl new_sound)

/-- As long as no call by reference has panicked, the memory is not touched once it is freed, and
it is freed when the last waker that has not been leaked is gone. The closure runs once for each
call to wake. -/
theorem body_accounted (reachable : Reachable step new waking) (calm : waking.panics = 0) :
    waking.body.corrupt = false ∧ waking.body.strong = waking.owned + waking.leaked ∧
      waking.body.freed = (if waking.owned + waking.leaked = 0 then 1 else 0) ∧
      waking.body.calls + waking.waiting = waking.wakes := by
  cases reachable_standing reachable with
  | sound safe sound =>
      have still := sound.unwound
      have counted := sound.strong
      have strong : waking.body.strong = waking.owned + waking.leaked := by omega
      exact ⟨safe, strong, strong ▸ sound.freed, sound.calls⟩
  | corrupt broken lost =>
      rw [calm] at lost
      cases lost

/-- A clone wakes by reference, and is woken by value; then the first waker is dropped. -/
theorem body_accounted_two :
    ∃ waking, Reachable step new waking ∧ waking.body.corrupt = false ∧ waking.body.freed = 1 ∧
      waking.body.calls = 2 := by
  have ends : (run step
      [.clone 0, .runClone 0 0, .runClone 0 0, .wakeByRef 1, .runWake 1 0 .returned,
        .runWake 1 0 .returned, .runWake 1 0 .returned, .wake 1, .runOwner 1 .returned,
        .runOwner 1 .returned, .drop 0, .runOwner 1 .panicked, .runOwner 1 .returned,
        .runOwner 0 .returned, .runOwner 0 .returned] new).map (fun waking =>
          (waking.panics, waking.owned + waking.leaked, waking.waiting, waking.wakes)) =
      some (0, 0, 0, 2) := by decide +kernel
  obtain ⟨waking, reaches, shape⟩ := Option.map_eq_some_iff.mp ends
  obtain ⟨calm, gone, ended, wakes⟩ : waking.panics = 0 ∧ waking.owned + waking.leaked = 0 ∧
      waking.waiting = 0 ∧ waking.wakes = 2 := by simpa using shape
  obtain ⟨safe, _, freed, calls⟩ := body_accounted ⟨_, reaches⟩ calm
  exact ⟨waking, ⟨_, reaches⟩, safe, by rw [freed, if_pos gone], by omega⟩

end Waking

/-- Of the calls by reference, this one does not panic. -/
def WakingEvent.Calm : WakingEvent → Prop
  | .runWake _ _ ending => ending = .returned
  | .wake _ | .wakeByRef _ | .clone _ | .drop _ | .forget _ | .runOwner _ _ | .runClone _ _ => True

namespace VtableFn

/-- The accesses that a call still makes when its closure does not panic. -/
def remaining (call : VtableFn) : Nat := Program.remaining (BodyAccess.answer .returned) call

theorem advance_remaining {call rest : VtableFn} {body after : Body}
    (advances : call.advance (BodyAccess.effect .returned) body = some (rest, after)) :
    rest.remaining + 1 = call.remaining :=
  Program.remaining_advance (fun _ => rfl) advances

end VtableFn

/-- An upper bound for the events until the waker is gone. A clone on its way is a waker more. -/
def WakerUse.rank : WakerUse → Nat
  | .borrowed wakes clones =>
      3 + total VtableFn.remaining wakes + 4 * total VtableFn.remaining clones
  | .woken call | .dropped call => call.remaining
  | .forgotten => 0

namespace Waking

def rank (waking : Waking) : Nat := total WakerUse.rank waking.wakers

variable {waking next : Waking} {event : WakingEvent} {waker : Nat} {use old : WakerUse}

/-- Memory is lost to the account by panics, and leaked memory makes up for it. -/
def Lost (waking : Waking) : Prop := waking.leaked < waking.panics

theorem leaked_set (found : waking.wakers[waker]? = some old) (unreachable : use.leaked = old.leaked)
    (clones : Nat) :
    total WakerUse.leaked (waking.wakers.set waker use ++ List.replicate clones (.borrowed [] [])) =
      waking.leaked := by
  have leaks := @total_set _ WakerUse.leaked _ _ _ found use
  simp only [total_append, total_replicate, WakerUse.leaked, Waking.leaked]
  omega

theorem rank_set (found : waking.wakers[waker]? = some old) {clones : Nat}
    (smaller : use.rank + 3 * clones < old.rank) :
    total WakerUse.rank (waking.wakers.set waker use ++ List.replicate clones (.borrowed [] [])) <
      waking.rank := by
  have ranks := @total_set _ WakerUse.rank _ _ _ found use
  have fresh : (WakerUse.borrowed [] []).rank = 3 := rfl
  simp only [total_append, total_replicate, fresh, Waking.rank]
  omega

/-- An event that leads towards the end of the wakers. -/
structure Leads (waking : Waking) (event : WakingEvent) (next : Waking) : Prop where
  calm : event.Calm
  steps : waking.step event = some next
  leaked : next.leaked = waking.leaked
  panics : next.panics = waking.panics
  rank : next.rank < waking.rank

theorem step_of_safe (safe : waking.body.corrupt = false) (waker call : Nat) (ending : WakeEnd) :
    waking.step (.runOwner waker ending) = waking.runOwner waker ending ∧
      waking.step (.runWake waker call ending) = waking.runWake waker call ending ∧
      waking.step (.runClone waker call) = waking.runClone waker call ∧
      waking.step (.drop waker) = waking.useUp waker (.dropped VtableFn.dropWaker.called) := by
  simp [Waking.step, safe]

section Leads

variable {wakes clones : List VtableFn} {call rest : VtableFn} {place : Nat} {body : Body}

/-- An event that only shortens the use of a waker. -/
theorem leads_set (found : waking.wakers[waker]? = some old)
    (steps : waking.step event = some { waking with body, wakers := waking.wakers.set waker use })
    (calm : event.Calm) (same : use.leaked = old.leaked) (shorter : use.rank < old.rank) :
    ∃ event next, waking.Leads event next := by
  have leaked := leaked_set found same 0
  have ranked := @rank_set _ _ use _ found 0 shorter
  rw [List.replicate_zero, List.append_nil] at leaked ranked
  exact ⟨event, _, calm, steps, leaked, rfl, ranked⟩

/-- The call that has used up a waker goes on. -/
theorem leads_runOwner (safe : waking.body.corrupt = false) (found : waking.wakers[waker]? = some old)
    (uses : old = .woken call ∨ old = .dropped call) (going : call.isDone = false) :
    ∃ event next, waking.Leads event next := by
  obtain ⟨rest, body, advances⟩ :=
    Program.advance_of_not_done going (BodyAccess.effect .returned) waking.body
  have left := VtableFn.advance_remaining advances
  obtain ⟨use, same, shorter, runs⟩ : ∃ use : WakerUse, use.leaked = old.leaked ∧ use.rank < old.rank ∧
      waking.runOwner waker .returned = some { waking with body, wakers := waking.wakers.set waker use } := by
    rcases uses with rfl | rfl
    · refine ⟨.woken rest, rfl, ?_, by simp [runOwner, found, advances]⟩
      simp only [WakerUse.rank]
      omega
    · refine ⟨.dropped rest, rfl, ?_, by simp [runOwner, found, advances]⟩
      simp only [WakerUse.rank]
      omega
  have steps := (step_of_safe safe waker 0 .returned).1.trans runs
  exact leads_set found steps trivial same shorter

theorem leads_runWake (safe : waking.body.corrupt = false)
    (found : waking.wakers[waker]? = some (.borrowed wakes clones)) (listed : wakes[place]? = some call)
    (going : call.isDone = false) : ∃ event next, waking.Leads event next := by
  obtain ⟨rest, body, advances⟩ :=
    Program.advance_of_not_done going (BodyAccess.effect .returned) waking.body
  have left := VtableFn.advance_remaining advances
  have shorter := @total_set _ VtableFn.remaining _ _ _ listed rest
  have runs : waking.runWake waker place .returned = some { waking with
      body, wakers := waking.wakers.set waker (.borrowed (wakes.set place rest) clones) } := by
    simp [runWake, found, listed, advances]
  have steps := (step_of_safe safe waker place .returned).2.1.trans runs
  refine leads_set found steps rfl rfl ?_
  simp only [WakerUse.rank]
  omega

theorem leads_runClone (safe : waking.body.corrupt = false)
    (found : waking.wakers[waker]? = some (.borrowed wakes clones)) (listed : clones[place]? = some call)
    (going : call.isDone = false) : ∃ event next, waking.Leads event next := by
  obtain ⟨rest, body, advances⟩ :=
    Program.advance_of_not_done going (BodyAccess.effect .returned) waking.body
  have left := VtableFn.advance_remaining advances
  have shorter := @total_set _ VtableFn.remaining _ _ _ listed rest
  have runs : waking.runClone waker place = some { waking with
      body
      wakers := waking.wakers.set waker (.borrowed wakes (clones.set place rest)) ++
        List.replicate (if rest.isDone then 1 else 0) (.borrowed [] []) } := by
    simp only [runClone, found, listed, advances, Option.bind_eq_bind, Option.bind_some]
    cases rest.isDone <;> simp
  have leaked := @leaked_set _ _ (.borrowed wakes (clones.set place rest)) _ found rfl
    (if rest.isDone then 1 else 0)
  have ranked := @rank_set _ _ (.borrowed wakes (clones.set place rest)) _ found
    (if rest.isDone then 1 else 0) (by simp only [WakerUse.rank]; split <;> omega)
  exact ⟨.runClone waker place, _, trivial, (step_of_safe safe waker place .returned).2.2.1.trans runs,
    leaked, rfl, ranked⟩

/-- A waker that nobody has borrowed can be dropped. -/
theorem leads_drop (safe : waking.body.corrupt = false)
    (found : waking.wakers[waker]? = some (.borrowed wakes clones))
    (idle : wakes.all Program.isDone = true ∧ clones.all Program.isDone = true) :
    ∃ event next, waking.Leads event next := by
  have uses : waking.useUp waker (.dropped VtableFn.dropWaker.called) = some { waking with
      wakers := waking.wakers.set waker (.dropped VtableFn.dropWaker.called) } := by
    simp [useUp, found, idle]
  have steps := (step_of_safe safe waker 0 .returned).2.2.2.trans uses
  refine leads_set found steps trivial rfl ?_
  have two : (WakerUse.dropped VtableFn.dropWaker.called).rank = 2 := rfl
  rw [two, WakerUse.rank]
  omega

theorem leads_borrowed (safe : waking.body.corrupt = false)
    (found : waking.wakers[waker]? = some (.borrowed wakes clones)) :
    ∃ event next, waking.Leads event next := by
  have pick : ∀ {calls : List VtableFn}, calls.all Program.isDone = false →
      ∃ (place : Nat) (call : VtableFn), calls[place]? = some call ∧ call.isDone = false := by
    intro calls some
    obtain ⟨call, member, going⟩ := List.all_eq_false.mp some
    obtain ⟨place, listed⟩ := List.getElem?_of_mem member
    exact ⟨place, call, listed, by simpa using going⟩
  cases waking' : wakes.all Program.isDone with
  | false =>
      obtain ⟨place, call, listed, going⟩ := pick waking'
      exact leads_runWake safe found listed going
  | true =>
      cases cloning : clones.all Program.isDone with
      | false =>
          obtain ⟨place, call, listed, going⟩ := pick cloning
          exact leads_runClone safe found listed going
      | true => exact leads_drop safe found ⟨waking', cloning⟩

end Leads

/-- While memory is lost to the account, there is a waker left, or a call that has used one up. -/
theorem Sound.leads (sound : waking.Sound) (safe : waking.body.corrupt = false) (lost : waking.Lost) :
    ∃ event next, waking.Leads event next := by
  have counted := sound.strong
  have some : 0 < total (fun use => WakerUse.owned use + WakerUse.unwinding use) waking.wakers := by
    rw [total_add]
    simp only [Waking.owned, Waking.unwinding, Lost] at counted lost
    omega
  obtain ⟨waker, use, found, owner⟩ := exists_of_total_pos some
  have going : ∀ call : VtableFn, 0 < call.owned → call.isDone = false := by
    intro call owner
    cases call with
    | done value => cases owner
    | access what next => rfl
  cases use with
  | borrowed wakes clones => exact leads_borrowed safe found
  | woken call => exact leads_runOwner safe found (.inl rfl) (going call owner)
  | dropped call => exact leads_runOwner safe found (.inr rfl) (going call owner)
  | forgotten => cases owner

/-- A calm event adds no panic, and what is leaked stays leaked. -/
theorem step_calm (stepped : waking.step event = some next) (calm : event.Calm) :
    next.panics = waking.panics ∧ waking.leaked ≤ next.leaked := by
  have set : ∀ {waker : Nat} {old : WakerUse} (use : WakerUse), waking.wakers[waker]? = some old →
      old.leaked = 0 → waking.leaked ≤ total WakerUse.leaked (waking.wakers.set waker use) := by
    intro waker old use found reachable
    have leaks := @total_set _ WakerUse.leaked _ _ _ found use
    simp only [Waking.leaked]
    omega
  have safe := step_safe stepped
  cases event with
  | wake waker =>
      simp only [Waking.step, safe] at stepped
      obtain ⟨used, uses, goes⟩ := Option.bind_eq_some_iff.mp stepped
      obtain ⟨_, _, found, _, rfl⟩ := useUp_cases uses
      cases goes
      exact ⟨rfl, set _ found rfl⟩
  | drop waker | forget waker =>
      simp only [Waking.step, safe] at stepped
      obtain ⟨_, _, found, _, rfl⟩ := useUp_cases stepped
      exact ⟨rfl, set _ found rfl⟩
  | wakeByRef waker | clone waker =>
      simp only [Waking.step, safe, Bool.false_eq_true, if_false] at stepped
      split at stepped
      · next found =>
          cases stepped
          exact ⟨rfl, set _ found rfl⟩
      · cases stepped
  | runOwner waker ending =>
      rw [(step_of_safe safe waker 0 ending).1, runOwner] at stepped
      split at stepped
      · next found =>
          obtain ⟨_, _, goes⟩ := Option.bind_eq_some_iff.mp stepped
          cases goes
          exact ⟨rfl, set _ found rfl⟩
      · next found =>
          obtain ⟨_, _, goes⟩ := Option.bind_eq_some_iff.mp stepped
          cases goes
          exact ⟨rfl, set _ found rfl⟩
      · cases stepped
  | runWake waker call ending =>
      rw [(step_of_safe safe waker call ending).2.1, runWake] at stepped
      split at stepped
      · next found =>
          obtain ⟨code, _, stepped⟩ := Option.bind_eq_some_iff.mp stepped
          obtain ⟨_, _, goes⟩ := Option.bind_eq_some_iff.mp stepped
          cases goes
          exact ⟨by simp [show ending = .returned from calm], set _ found rfl⟩
      · cases stepped
  | runClone waker call =>
      rw [(step_of_safe safe waker call .returned).2.2.1, runClone] at stepped
      split at stepped
      · next wakes clones found =>
          obtain ⟨code, _, stepped⟩ := Option.bind_eq_some_iff.mp stepped
          obtain ⟨⟨rest, _⟩, _, goes⟩ := Option.bind_eq_some_iff.mp stepped
          cases goes
          refine ⟨rfl, (set (.borrowed wakes (clones.set call rest)) found rfl).trans ?_⟩
          simp only [Waking.leaked]
          split
          · rw [total_append]
            exact Nat.le_add_right _ _
          · exact le_rfl
      · cases stepped

/-- From here on, without another panic of a call by reference, freed memory can be accessed exactly
if more of them have panicked than references are leaked. -/
theorem corruptible_iff (reachable : Reachable step new waking) (safe : waking.body.corrupt = false) :
    (∃ events final, (∀ event ∈ events, event.Calm) ∧ run step events waking = some final ∧
      final.body.corrupt = true) ↔ waking.leaked < waking.panics := by
  constructor
  · rintro ⟨events, final, calm, runs, broken⟩
    have ends := (reachable_standing reachable).run runs
    have kept : final.panics = waking.panics ∧ waking.leaked ≤ final.leaked := by
      clear reachable safe ends broken
      induction events generalizing waking with
      | nil =>
          cases runs
          exact ⟨rfl, le_rfl⟩
      | cons event events ih =>
          obtain ⟨next, first, later⟩ := run_cons runs
          obtain ⟨calmFirst, calmLater⟩ := List.forall_mem_cons.mp calm
          obtain ⟨panics, leaked⟩ := step_calm first calmFirst
          obtain ⟨panics', leaked'⟩ := ih calmLater later
          exact ⟨panics'.trans panics, leaked.trans leaked'⟩
    cases ends with
    | sound safe _ =>
        rw [safe] at broken
        cases broken
    | corrupt _ lost => omega
  · intro lost
    have starts : waking.Sound := (reachable_standing reachable).of_safe safe
    refine exists_run (fun waking => waking.Sound ∧ waking.body.corrupt = false ∧ waking.Lost) rank ?_ ⟨starts, safe, lost⟩
    rintro waking ⟨sound, safe, lost⟩
    obtain ⟨event, next, leads⟩ := sound.leads safe lost
    refine ⟨event, next, leads.calm, leads.steps, ?_⟩
    cases sound.step leads.steps with
    | sound safe sound =>
        refine .inr ⟨⟨sound, safe, ?_⟩, leads.rank⟩
        rw [Lost, leads.leaked, leads.panics]
        exact lost
    | corrupt broken _ => exact .inl broken

/-- A waker is cloned, a call by reference panics, and both wakers are dropped. -/
theorem corruptible_iff_cloned :
    ∃ waking, Reachable step new waking ∧ waking.body.corrupt = false ∧
      ∃ events final, (∀ event ∈ events, event.Calm) ∧ run step events waking = some final ∧
        final.body.corrupt = true := by
  have ends : (run step
      [.clone 0, .runClone 0 0, .runClone 0 0, .wakeByRef 1, .runWake 1 0 .returned,
        .runWake 1 0 .returned, .runWake 1 0 .panicked] new).map (fun waking =>
          (waking.body.corrupt, waking.leaked, waking.panics)) = some (false, 0, 1) := by decide +kernel
  obtain ⟨waking, reaches, shape⟩ := Option.map_eq_some_iff.mp ends
  obtain ⟨safe, kept, panicked⟩ : waking.body.corrupt = false ∧ waking.leaked = 0 ∧ waking.panics = 1 := by
    simpa using shape
  exact ⟨waking, ⟨_, reaches⟩, safe,
    (corruptible_iff ⟨_, reaches⟩ safe).mpr (by rw [kept, panicked]; exact Nat.one_pos)⟩

end Waking

end TptAsync.Core
