import TptAsync.Executor.Parking

set_option autoImplicit false

/-!
# No wake-up is slept through

The owner tests its flag and the queue and goes to sleep under the lock. A main waker sets the flag
without it, but cannot notify before the owner sleeps.
-/

namespace TptAsync.Executor

open Lib

def OwnerStep.holds : OwnerStep → Bool
  | .enqueuePush .. | .popFront | .loadNotified | .isEmpty | .wait | .unlock => true
  | _ => false

def WakerStep.holds : WakerStep → Bool
  | .push | .notify | .unlock => true
  | _ => false

/-- The owner has seen its flag unset and not looked at it since. -/
def OwnerStep.parks : OwnerStep → Bool
  | .isEmpty | .wait | .waiting => true
  | _ => false

namespace Parking

variable {before after : Parking} {index : Nat} {call : WakerCall} {event : Event}

/-- What an access of the owner does to what the wakers share with it. -/
inductive OwnerMove (before after : Parking) : Prop
  | moves (holds : before.owner.holds = false ∧ after.owner.holds = false)
      (lock : after.locked = before.locked) (parks : after.owner.parks = false)
      (notified : after.notified = before.notified) (trace : after.trace = before.trace)
  | acquires (holds : before.owner.holds = false ∧ after.owner.holds = true)
      (lock : before.locked = false ∧ after.locked = true) (parks : after.owner.parks = false)
      (notified : after.notified = before.notified) (trace : after.trace = before.trace)
  | releases (holds : before.owner.holds = true ∧ after.owner.holds = false)
      (lock : after.locked = false) (parks : after.owner.parks = false)
      (notified : after.notified = before.notified) (trace : after.trace = before.trace)
  | awake (holds : before.owner.holds = true) (owner : after.owner = .unlock)
      (lock : after.locked = before.locked) (notified : after.notified = before.notified)
      (trace : after.trace = before.trace)
  | unnotified (unset : before.notified before.main = false) (holds : before.owner.holds = true)
      (shape : after = before.goTo .isEmpty)
  | empty (queue : before.queue = []) (owner : before.owner = .isEmpty) (shape : after = before.goTo .wait)
  | waits (owner : before.owner = .wait)
      (shape : after = (before.release.goTo .waiting).record (.waits before.main))
  | polls (holds : before.owner.holds = false)
      (shape : after = ({ before with notified := Function.update before.notified before.main false }.goTo
        (.user .main)).record (.polled before.main))

theorem acquire_goTo {owner : OwnerStep} (taken : before.acquire.map (·.goTo owner) = some after) :
    before.locked = false ∧ after = { before with locked := true }.goTo owner := by
  rw [acquire] at taken
  split at taken
  · cases taken
  · next free =>
      cases taken
      exact ⟨Bool.eq_false_iff.mpr free, rfl⟩

theorem notifyAll_goTo (parking : Parking) (owner : OwnerStep) :
    parking.notifyAll.goTo owner = parking.goTo owner := by
  rw [notifyAll]
  split <;> rfl

theorem runOwner_cases {owner : OwnerStep} (at' : before.owner = owner)
    (goes : before.runOwner owner = some after) :
    after.calls = before.calls ∧ after.main = before.main ∧ OwnerMove before after := by
  cases owner with
  | user code | waiting => cases goes
  | enqueueLock id code | popLock | parkLock | relock =>
      obtain ⟨free, rfl⟩ := acquire_goTo goes
      exact ⟨rfl, rfl, .acquires ⟨by rw [at']; rfl, rfl⟩ ⟨free, rfl⟩ rfl rfl rfl⟩
  | enqueuePush id code =>
      cases goes
      exact ⟨rfl, rfl, .releases ⟨by rw [at']; rfl, rfl⟩ rfl rfl rfl rfl⟩
  | enqueueNotify id code =>
      rw [runOwner, notifyAll_goTo] at goes
      cases goes
      exact ⟨rfl, rfl, .moves ⟨by rw [at']; rfl, rfl⟩ rfl rfl rfl rfl⟩
  | swapNotified =>
      simp only [runOwner] at goes
      split at goes
      · cases goes
        exact ⟨rfl, rfl, .polls (by rw [at']; rfl) rfl⟩
      · cases goes
        exact ⟨rfl, rfl, .moves ⟨by rw [at']; rfl, rfl⟩ rfl rfl rfl rfl⟩
  | popFront =>
      simp only [runOwner] at goes
      split at goes
      · cases goes
        refine ⟨rfl, rfl, .releases ⟨by rw [at']; rfl, ?_⟩ rfl ?_ rfl rfl⟩
        · simp only [goTo]
          split <;> rfl
        · simp only [goTo]
          split <;> rfl
      · cases goes
        exact ⟨rfl, rfl, .releases ⟨by rw [at']; rfl, rfl⟩ rfl rfl rfl rfl⟩
  | remove id =>
      simp only [runOwner] at goes
      split at goes
      · cases goes
        exact ⟨rfl, rfl, .moves ⟨by rw [at']; rfl, rfl⟩ rfl rfl rfl rfl⟩
      · cases goes
        exact ⟨rfl, rfl, .moves ⟨by rw [at']; rfl, rfl⟩ rfl rfl rfl rfl⟩
  | clearQueued id | storeDone id =>
      obtain ⟨task, _, goes⟩ := Option.bind_eq_some_iff.mp goes
      cases goes
      exact ⟨rfl, rfl, .moves ⟨by rw [at']; rfl, rfl⟩ rfl rfl rfl rfl⟩
  | loadNotified =>
      cases goes
      cases set : before.notified before.main with
      | true => exact ⟨rfl, rfl, .awake (by rw [at']; rfl) rfl rfl rfl rfl⟩
      | false => exact ⟨rfl, rfl, .unnotified set (by rw [at']; rfl) rfl⟩
  | isEmpty =>
      cases goes
      cases queue : before.queue with
      | nil => exact ⟨rfl, rfl, .empty queue at' rfl⟩
      | cons id queue => exact ⟨rfl, rfl, .awake (by rw [at']; rfl) rfl rfl rfl rfl⟩
  | wait =>
      cases goes
      exact ⟨rfl, rfl, .waits at' rfl⟩
  | unlock =>
      cases goes
      exact ⟨rfl, rfl, .releases ⟨by rw [at']; rfl, rfl⟩ rfl rfl rfl rfl⟩

/-- What an access of a call of a waker does. -/
inductive CallMove (before after : Parking) (index : Nat) (call : WakerCall) : Prop
  | looks {step : WakerStep} {id : Nat} {tasks : Nat → Option TaskState} (target : call.target = .task id)
      (at' : call.step = .loadDone ∨ call.step = .swapQueued) (holds : step.holds = false)
      (shape : after = { before.setCall index call step with tasks })
  | stores {main : Nat} (target : call.target = .main main) (at' : call.step = .storeNotified)
      (shape : after = ({ before with notified := Function.update before.notified main true }.setCall index
        call .lock).record (.stored index))
  | acquires {step : WakerStep} (at' : call.step = .lock)
      (next : step = .notify ∨ step = .push ∧ ∃ id, call.target = .task id) (lock : before.locked = false)
      (shape : after = { before with locked := true }.setCall index call step)
  | pushes {id : Nat} (target : call.target = .task id) (at' : call.step = .push)
      (shape : after = { before with queue := before.queue ++ [id] }.setCall index call .notify)
  | notifies (at' : call.step = .notify) (shape : after = before.notifyAll.setCall index call .unlock)
  | completes (at' : call.step = .unlock)
      (shape : after = (before.release.setCall index call .finished).record (.completed index))

theorem advance_cases (goes : before.advance index call = some after) :
    CallMove before after index call := by
  obtain ⟨target, step⟩ := call
  cases step with
  | storeNotified =>
      cases target with
      | main main =>
          cases goes
          exact .stores rfl rfl rfl
      | task id => cases goes
  | loadDone =>
      cases target with
      | main main => cases goes
      | task id =>
          obtain ⟨task, _, goes⟩ := Option.bind_eq_some_iff.mp goes
          cases goes
          refine .looks rfl (.inl rfl) ?_ rfl
          split <;> rfl
  | swapQueued =>
      cases target with
      | main main => cases goes
      | task id =>
          obtain ⟨task, _, goes⟩ := Option.bind_eq_some_iff.mp goes
          cases goes
          refine .looks rfl (.inr rfl) ?_ rfl
          split <;> rfl
  | lock =>
      have taken : ∀ {step}, (before.acquire.map (·.setCall index ⟨target, .lock⟩ step)) = some after →
          before.locked = false ∧ after = { before with locked := true }.setCall index ⟨target, .lock⟩ step := by
        intro step taken
        rw [acquire] at taken
        split at taken
        · cases taken
        · next free =>
            cases taken
            exact ⟨Bool.eq_false_iff.mpr free, rfl⟩
      cases target with
      | main main =>
          obtain ⟨free, rfl⟩ := taken goes
          exact .acquires rfl (.inl rfl) free rfl
      | task id =>
          obtain ⟨free, rfl⟩ := taken goes
          exact .acquires rfl (.inr ⟨rfl, id, rfl⟩) free rfl
  | push =>
      cases target with
      | main main => cases goes
      | task id =>
          cases goes
          exact .pushes rfl rfl rfl
  | notify =>
      cases goes
      exact .notifies rfl rfl
  | unlock =>
      cases goes
      exact .completes rfl rfl
  | finished => cases goes

/-- The steps of a run. -/
inductive Move (before after : Parking) : Prop
  | owner (calls : after.calls = before.calls) (main : after.main = before.main)
      (move : OwnerMove before after)
  | blockOn (owner : before.owner = .user .outside) (shape : after = before.blockOn)
  | wakes {target : Target} (known : before.known target = true)
      (shape : after = { before with calls := before.calls ++ [⟨target, firstStep target⟩] })
  | advances {index : Nat} {call : WakerCall} (found : before.calls[index]? = some call)
      (move : CallMove before after index call)

theorem step_cases (goes : before.step event = some after) : Move before after := by
  cases event with
  | spawn =>
      simp only [step] at goes
      split at goes
      · next code owner =>
          cases goes
          exact .owner rfl rfl (.moves ⟨by rw [owner]; rfl, rfl⟩ rfl rfl rfl rfl)
      · cases goes
  | blockOn =>
      simp only [step] at goes
      split at goes
      · next owner =>
          cases goes
          exact .blockOn owner rfl
      · cases goes
  | runUntilStalled =>
      simp only [step] at goes
      split at goes
      · next owner =>
          cases goes
          exact .owner rfl rfl (.moves ⟨by rw [owner]; rfl, rfl⟩ rfl rfl rfl rfl)
      · cases goes
  | run =>
      obtain ⟨calls, main, move⟩ := runOwner_cases rfl goes
      exact .owner calls main move
  | returns ready =>
      simp only [step] at goes
      split at goes
      · next code owner =>
          cases code with
          | outside => cases goes
          | main | body id =>
              simp only [returns] at goes
              split at goes
              · cases goes
                exact .owner rfl rfl (.moves ⟨by rw [owner]; rfl, rfl⟩ rfl rfl rfl rfl)
              · cases goes
                exact .owner rfl rfl (.moves ⟨by rw [owner]; rfl, rfl⟩ rfl rfl rfl rfl)
          | drop id =>
              cases goes
              exact .owner rfl rfl (.moves ⟨by rw [owner]; rfl, rfl⟩ rfl rfl rfl rfl)
      · cases goes
  | timeout =>
      simp only [step] at goes
      split at goes
      · next owner =>
          cases goes
          exact .owner rfl rfl (.moves ⟨by rw [owner]; rfl, rfl⟩ rfl rfl rfl rfl)
      · cases goes
  | wake target =>
      simp only [step] at goes
      split at goes
      · next known =>
          cases goes
          exact .wakes known rfl
      · cases goes
  | advance index =>
      obtain ⟨call, found, goes⟩ := Option.bind_eq_some_iff.mp goes
      exact .advances found (advance_cases goes)

section Mutex

/-- How many hold the lock. -/
def holders (parking : Parking) : Nat :=
  parking.calls.countP (·.step.holds) + if parking.owner.holds then 1 else 0

def Mutex (parking : Parking) : Prop := parking.holders = if parking.locked then 1 else 0

theorem countP_set {calls : List WakerCall} (found : calls[index]? = some call) (step : WakerStep) :
    (calls.set index { call with step }).countP (·.step.holds) + (if call.step.holds then 1 else 0) =
      calls.countP (·.step.holds) + if step.holds then 1 else 0 := by
  obtain ⟨within, rfl⟩ := List.getElem?_eq_some_iff.mp found
  have member : calls[index].step.holds = true → 0 < calls.countP (·.step.holds) := fun holds =>
    List.countP_pos_iff.mpr ⟨calls[index], List.getElem_mem within, holds⟩
  rw [List.countP_set within]
  by_cases holds : calls[index].step.holds = true
  · have positive := member holds
    simp only [holds, if_true]
    omega
  · simp only [holds, Bool.false_eq_true, if_false]
    omega

theorem notifyAll_holds (parking : Parking) : parking.notifyAll.owner.holds = parking.owner.holds := by
  rw [notifyAll]
  split
  · next waiting => rw [waiting]; rfl
  · rfl

theorem notifyAll_locked (parking : Parking) : parking.notifyAll.locked = parking.locked := by
  rw [notifyAll]
  split <;> rfl

theorem notifyAll_calls (parking : Parking) : parking.notifyAll.calls = parking.calls := by
  rw [notifyAll]
  split <;> rfl

theorem Mutex.setCall (mutex : before.Mutex) (found : before.calls[index]? = some call)
    {step : WakerStep} (calls : after.calls = before.calls.set index { call with step })
    (owner : after.owner.holds = before.owner.holds)
    (lock : (if after.locked then 1 else 0) + (if call.step.holds then 1 else 0) =
      (if before.locked then 1 else 0) + if step.holds then 1 else 0) : after.Mutex := by
  have counts := countP_set found step
  simp only [Mutex, holders] at mutex ⊢
  rw [calls, owner]
  omega

theorem Mutex.step (mutex : before.Mutex) (move : Move before after) : after.Mutex := by
  cases move with
  | owner calls main move =>
      simp only [Mutex, holders] at mutex ⊢
      rw [calls]
      cases move with
      | moves holds lock =>
          simp only [holds.1, holds.2] at mutex ⊢
          rw [lock]
          exact mutex
      | acquires holds lock =>
          simp only [holds.1, holds.2, lock.1, lock.2, Bool.false_eq_true, if_false, if_true] at mutex ⊢
          omega
      | releases holds lock =>
          simp only [holds.1, holds.2, lock, Bool.false_eq_true, if_false, if_true] at mutex ⊢
          split at mutex <;> omega
      | awake holds owner lock =>
          rw [owner, lock]
          rw [if_pos holds] at mutex
          exact mutex
      | unnotified unset holds shape =>
          rw [shape]
          rw [if_pos holds] at mutex
          exact mutex
      | empty queue owner shape =>
          rw [shape]
          rw [owner] at mutex
          exact mutex
      | waits owner shape =>
          rw [shape]
          rw [owner] at mutex
          change _ + 1 = _ at mutex
          change _ + 0 = 0
          split at mutex <;> omega
      | polls holds shape =>
          rw [shape]
          rw [if_neg (by simp [holds])] at mutex
          exact mutex
  | blockOn owner shape =>
      rw [shape]
      rw [Mutex, holders, owner] at mutex
      exact mutex
  | @wakes target known shape =>
      have free : (firstStep target).holds = false := by cases target <;> rfl
      rw [shape]
      simp only [Mutex, holders, List.countP_append, List.countP_singleton, free] at mutex ⊢
      exact mutex
  | advances found move =>
      cases move with
      | looks target at' holds shape =>
          rw [shape]
          refine mutex.setCall found rfl rfl ?_
          rcases at' with at' | at' <;> rw [at', holds] <;> rfl
      | stores target at' shape =>
          rw [shape]
          refine mutex.setCall found rfl rfl ?_
          rw [at']
          rfl
      | acquires at' next lock shape =>
          rw [shape]
          refine mutex.setCall found rfl rfl ?_
          rw [at', lock]
          rcases next with rfl | ⟨rfl, _⟩ <;> rfl
      | pushes target at' shape =>
          rw [shape]
          refine mutex.setCall found rfl rfl ?_
          rw [at']
          rfl
      | notifies at' shape =>
          rw [shape]
          refine mutex.setCall found (by rw [Parking.setCall, notifyAll_calls])
            (notifyAll_holds before) ?_
          rw [at', show (before.notifyAll.setCall _ _ _).locked = before.locked from notifyAll_locked before]
          rfl
      | completes at' shape =>
          rw [shape]
          refine mutex.setCall found rfl rfl ?_
          have held : before.locked = true := by
            have counts := countP_set found .finished
            by_contra free
            simp only [Mutex, holders, if_neg free] at mutex
            rw [at'] at counts
            change _ + 1 = _ + 0 at counts
            omega
          rw [at', held]
          rfl

/-- While the owner holds the lock, no call of a waker does. -/
theorem Mutex.alone (mutex : before.Mutex) (holds : before.owner.holds = true)
    (found : before.calls[index]? = some call) : call.step.holds = false := by
  rw [Mutex, holders, if_pos holds] at mutex
  by_contra held
  have positive : 0 < before.calls.countP (·.step.holds) :=
    List.countP_pos_iff.mpr ⟨call, List.mem_of_getElem? found, by simpa using held⟩
  split at mutex <;> omega

theorem Mutex.held (mutex : before.Mutex) (holds : before.owner.holds = true) : before.locked = true := by
  rw [Mutex, holders, if_pos holds] at mutex
  by_contra free
  rw [if_neg free] at mutex
  omega

end Mutex

section Safe

/-- A poll of the main future has begun since the call set its flag. -/
def Answered (trace : List Moment) (index main : Nat) : Prop :=
  List.Sublist [.stored index, .polled main] trace

/-- The call wakes the main future, and has set its flag. -/
def Stored (parking : Parking) (index main : Nat) (step : WakerStep) : Prop :=
  parking.calls[index]? = some ⟨.main main, step⟩ ∧ step ≠ .storeNotified

structure Safe (parking : Parking) : Prop where
  mutex : parking.Mutex
  mains : ∀ call ∈ parking.calls, ∀ main, call.target = .main main → main ≤ parking.main
  notified : parking.owner.parks = true → parking.notified parking.main = true →
    ∃ index step, parking.Stored index parking.main step ∧ (step = .lock ∨ step = .notify)
  queue : parking.owner = .wait ∨ parking.owner = .waiting → parking.queue ≠ [] →
    ∃ (index : Nat) (call : WakerCall), parking.calls[index]? = some call ∧ call.step = .notify
  stored : ∀ index main step, parking.Stored index main step → .stored index ∈ parking.trace
  answered : ∀ index step, parking.Stored index parking.main step →
    parking.notified parking.main = true ∨ Answered parking.trace index parking.main
  tested : parking.owner = .isEmpty ∨ parking.owner = .wait →
    ∀ index step, parking.Stored index parking.main step →
      step = .lock ∨ Answered parking.trace index parking.main
  completed : ∀ index, .completed index ∈ parking.trace →
    ∃ target, parking.calls[index]? = some ⟨target, .finished⟩
  waits : ∀ earlier later main index step, parking.trace = earlier ++ .waits main :: later →
    .completed index ∈ earlier → parking.Stored index main step → Answered earlier index main

theorem new_safe : new.Safe where
  mutex := rfl
  mains call member := by cases member
  notified parks := by cases parks
  queue owner := by rcases owner with owner | owner <;> cases owner
  stored index main step stored := by simp [Stored, new] at stored
  answered index step stored := by simp [Stored, new] at stored
  tested owner := by rcases owner with owner | owner <;> cases owner
  completed index member := by cases member
  waits earlier later main index step shape := by simp [new] at shape

theorem Answered.append {trace : List Moment} {main : Nat} (answered : Answered trace index main)
    (more : List Moment) : Answered (trace ++ more) index main :=
  answered.trans (List.sublist_append_left trace more)

/-- The last moment of a trace, or an earlier one. -/
theorem append_split {trace earlier later : List Moment} {moment found : Moment}
    (shape : trace ++ [moment] = earlier ++ found :: later) :
    (moment = found ∧ earlier = trace) ∨ ∃ more, trace = earlier ++ found :: more := by
  rcases List.eq_nil_or_concat later with rfl | ⟨more, last, rfl⟩
  · obtain ⟨rfl, same⟩ := List.append_inj' shape rfl
    exact .inl ⟨(List.cons.inj same).1, rfl⟩
  · refine .inr ⟨more, ?_⟩
    rw [List.concat_eq_append, ← List.cons_append, ← List.append_assoc] at shape
    exact (List.append_inj' shape rfl).1

theorem parks_of_wait {owner : OwnerStep} (waits : owner = .wait ∨ owner = .waiting) :
    owner.parks = true := by
  rcases waits with rfl | rfl <;> rfl

theorem parks_of_tested {owner : OwnerStep} (tested : owner = .isEmpty ∨ owner = .wait) :
    owner.parks = true ∧ owner.holds = true := by
  rcases tested with rfl | rfl <;> exact ⟨rfl, rfl⟩

/-- A move of the owner that does not lead to sleep. -/
theorem Safe.rests (safe : before.Safe) (mutex : after.Mutex) (calls : after.calls = before.calls)
    (main : after.main = before.main) (parks : after.owner.parks = false)
    (notified : after.notified = before.notified) (trace : after.trace = before.trace) :
    after.Safe := by
  have same : ∀ index main step, after.Stored index main step ↔ before.Stored index main step := by
    intro index main step
    rw [Stored, Stored, calls]
  constructor
  case mutex => exact mutex
  case mains =>
    rw [calls, main]
    exact safe.mains
  case notified =>
    rw [parks]
    exact fun set => absurd set Bool.false_ne_true
  case queue =>
    intro waits
    rw [parks_of_wait waits] at parks
    cases parks
  case stored =>
    intro index main step stored
    rw [trace]
    exact safe.stored index main step ((same _ _ _).mp stored)
  case answered =>
    intro index step stored
    rw [main, notified, trace]
    exact safe.answered index step (main ▸ (same _ _ _).mp stored)
  case tested =>
    intro tested
    rw [(parks_of_tested tested).1] at parks
    cases parks
  case completed =>
    rw [calls, trace]
    exact safe.completed
  case waits =>
    intro earlier later main index step shape member stored
    exact safe.waits earlier later main index step (trace ▸ shape) member ((same _ _ _).mp stored)

theorem Safe.ownerMove (safe : before.Safe) (mutex : after.Mutex) (calls : after.calls = before.calls)
    (main : after.main = before.main) (move : OwnerMove before after) : after.Safe := by
  cases move with
  | moves holds lock parks notified trace | acquires holds lock parks notified trace
  | releases holds lock parks notified trace =>
      exact safe.rests mutex calls main parks notified trace
  | awake holds owner lock notified trace =>
      exact safe.rests mutex calls main (by rw [owner]; rfl) notified trace
  | unnotified unset holds shape =>
      subst shape
      refine { safe with mutex, notified := ?_, queue := ?_, tested := ?_ }
      · intro _ set
        rw [show before.notified before.main = true from set] at unset
        cases unset
      · intro waits
        rcases waits with waits | waits <;> cases waits
      · intro _ index step stored
        refine .inr ((safe.answered index step stored).resolve_left ?_)
        rw [unset]
        exact Bool.false_ne_true
  | empty queue owner shape =>
      subst shape
      refine { safe with mutex, notified := ?_, queue := ?_, tested := ?_ }
      · exact fun _ => safe.notified (by rw [owner]; rfl)
      · exact fun _ filled => absurd queue filled
      · exact fun _ => safe.tested (.inl owner)
  | waits owner shape =>
      subst shape
      refine ⟨mutex, safe.mains, ?_, ?_, ?_, ?_, ?_, ?_, ?_⟩
      · exact fun _ => safe.notified (by rw [owner]; rfl)
      · exact fun _ => safe.queue (.inl owner)
      · exact fun index main step stored => List.mem_append_left _ (safe.stored index main step stored)
      · exact fun index step stored => (safe.answered index step stored).imp id (·.append _)
      · intro tested
        rcases tested with tested | tested <;> cases tested
      · intro index member
        exact safe.completed index (by simpa [record, release, goTo] using member)
      · intro earlier later main index step shape member stored
        rcases append_split shape with ⟨same, rfl⟩ | ⟨more, shape⟩
        · cases same
          obtain ⟨target, finished⟩ := safe.completed index member
          refine (safe.tested (.inr owner) index step stored).resolve_left fun lock => ?_
          have still : before.calls[index]? = some ⟨.main before.main, .lock⟩ := lock ▸ stored.1
          rw [still] at finished
          cases finished
        · exact safe.waits earlier more main index step shape member stored
  | polls holds shape =>
      subst shape
      refine ⟨mutex, safe.mains, ?_, ?_, ?_, ?_, ?_, ?_, ?_⟩
      · exact fun parks => by cases parks
      · intro waits
        rcases waits with waits | waits <;> cases waits
      · exact fun index main step stored => List.mem_append_left _ (safe.stored index main step stored)
      · intro index step stored
        have earlier := safe.stored index _ step stored
        exact .inr ((List.singleton_sublist.mpr earlier).append (List.Sublist.refl [_]))
      · intro tested
        rcases tested with tested | tested <;> cases tested
      · intro index member
        exact safe.completed index (by simpa [record, goTo] using member)
      · intro earlier later main index step shape member stored
        rcases append_split shape with ⟨same, _⟩ | ⟨more, shape⟩
        · cases same
        · exact safe.waits earlier more main index step shape member stored

theorem Safe.blockOn (safe : before.Safe) (mutex : before.blockOn.Mutex) : before.blockOn.Safe := by
  have unknown : ∀ index step, ¬ before.Stored index (before.main + 1) step := by
    intro index step stored
    have known := safe.mains _ (List.mem_of_getElem? stored.1) (before.main + 1) rfl
    omega
  refine ⟨mutex, ?_, ?_, ?_, safe.stored, ?_, ?_, safe.completed, safe.waits⟩
  · exact fun call member main target => (safe.mains call member main target).trans (Nat.le_succ _)
  · exact fun parks => by cases parks
  · intro waits
    rcases waits with waits | waits <;> cases waits
  · exact fun index step stored => absurd stored (unknown index step)
  · intro tested
    rcases tested with tested | tested <;> cases tested

theorem Safe.wakes (safe : before.Safe) {target : Target} (known : before.known target = true)
    (mutex : Mutex { before with calls := before.calls ++ [⟨target, firstStep target⟩] }) :
    Safe { before with calls := before.calls ++ [⟨target, firstStep target⟩] } := by
  have earlier : ∀ {index call}, before.calls[index]? = some call →
      (before.calls ++ [⟨target, firstStep target⟩])[index]? = some call := fun found =>
    (List.getElem?_append_left (List.getElem?_eq_some_iff.mp found).1).trans found
  have stored' : ∀ {index main step},
      Stored { before with calls := before.calls ++ [⟨target, firstStep target⟩] } index main step →
        before.Stored index main step := by
    rintro index main step ⟨found, past⟩
    rcases Nat.lt_or_ge index before.calls.length with inside | beyond
    · rw [List.getElem?_append_left inside] at found
      exact ⟨found, past⟩
    · rw [List.getElem?_append_right beyond] at found
      have call := List.mem_singleton.mp (List.mem_of_getElem? found)
      cases target with
      | main main' =>
          cases call
          exact absurd rfl past
      | task id => cases call
  constructor
  case mutex => exact mutex
  case mains =>
    intro call member main same
    cases List.mem_append.mp member with
    | inl old => exact safe.mains call old main same
    | inr new =>
        rw [List.mem_singleton.mp new] at same
        subst same
        exact of_decide_eq_true known
  case notified =>
    intro parks set
    obtain ⟨index, step, ⟨found, past⟩, at'⟩ := safe.notified parks set
    exact ⟨index, step, ⟨earlier found, past⟩, at'⟩
  case queue =>
    intro waits filled
    obtain ⟨index, call, found, at'⟩ := safe.queue waits filled
    exact ⟨index, call, earlier found, at'⟩
  case stored => exact fun index main step stored => safe.stored index main step (stored' stored)
  case answered => exact fun index step stored => safe.answered index step (stored' stored)
  case tested => exact fun tested index step stored => safe.tested tested index step (stored' stored)
  case completed =>
    intro index member
    obtain ⟨target, finished⟩ := safe.completed index member
    exact ⟨target, earlier finished⟩
  case waits =>
    exact fun _ _ _ index step shape member stored =>
      safe.waits _ _ _ index step shape member (stored' stored)

/-- The calls behind a move of one of them. -/
theorem getElem?_setCall (found : before.calls[index]? = some call) {step : WakerStep}
    (calls : after.calls = before.calls.set index { call with step }) {other : Nat} {call' : WakerCall}
    (found' : after.calls[other]? = some call') :
    (other = index ∧ call' = { call with step }) ∨ (other ≠ index ∧ before.calls[other]? = some call') := by
  rw [calls] at found'
  by_cases same : other = index
  · subst same
    obtain ⟨within, _⟩ := List.getElem?_eq_some_iff.mp found
    rw [List.getElem?_set_self within] at found'
    exact .inl ⟨rfl, (Option.some.inj found').symm⟩
  · rw [List.getElem?_set_ne (Ne.symm same)] at found'
    exact .inr ⟨same, found'⟩

theorem setCall_other {step : WakerStep} (calls : after.calls = before.calls.set index { call with step })
    {other : Nat} (different : other ≠ index) : after.calls[other]? = before.calls[other]? := by
  rw [calls, List.getElem?_set_ne (Ne.symm different)]

theorem setCall_self (found : before.calls[index]? = some call) {step : WakerStep}
    (calls : after.calls = before.calls.set index { call with step }) :
    after.calls[index]? = some { call with step } := by
  obtain ⟨within, _⟩ := List.getElem?_eq_some_iff.mp found
  rw [calls, List.getElem?_set_self within]

/-- What is the same for every move of a call: its past is kept, and it goes to sleep for nobody. -/
theorem Safe.setCall (safe : before.Safe) (found : before.calls[index]? = some call) {step : WakerStep}
    (calls : after.calls = before.calls.set index { call with step }) (main : after.main = before.main)
    {moments : List Moment} (trace : after.trace = before.trace ++ moments)
    (moment : moments = [] ∨ moments = [.stored index] ∨ moments = [.completed index] ∧ step = .finished)
    (unfinished : call.step ≠ .finished)
    (stores : call.step = .storeNotified → (∃ main, call.target = .main main) → moments = [.stored index] ∧
      (call.target = .main before.main → after.notified before.main = true))
    (set : before.notified before.main = true → after.notified before.main = true)
    (mutex : after.Mutex)
    (notified : after.owner.parks = true → after.notified before.main = true →
      ∃ index step, after.Stored index before.main step ∧ (step = .lock ∨ step = .notify))
    (queue : after.owner = .wait ∨ after.owner = .waiting → after.queue ≠ [] →
      ∃ (index : Nat) (call : WakerCall), after.calls[index]? = some call ∧ call.step = .notify)
    (tested : after.owner = .isEmpty ∨ after.owner = .wait → ∀ other step, after.Stored other before.main step →
      step = .lock ∨ Answered after.trace other before.main) : after.Safe := by
  have noWaits : ∀ main, .waits main ∉ moments := by
    intro main member
    rcases moment with rfl | rfl | ⟨rfl, _⟩ <;> simp at member
  -- A call that has set its flag had set it before, or does so now.
  have stored' : ∀ {other main step'}, after.Stored other main step' →
      (∃ step, before.Stored other main step) ∨
        (other = index ∧ call.step = .storeNotified ∧ call.target = .main main) := by
    rintro other main step' ⟨found', past⟩
    rcases getElem?_setCall found calls found' with ⟨rfl, same⟩ | ⟨_, found'⟩
    · cases call with
      | mk target step =>
          cases same
          by_cases fresh : step = .storeNotified
          · exact .inr ⟨rfl, fresh, rfl⟩
          · exact .inl ⟨step, found, fresh⟩
    · exact .inl ⟨step', found', past⟩
  constructor
  case mutex => exact mutex
  case mains =>
    intro call' member main' target
    obtain ⟨other, found'⟩ := List.getElem?_of_mem member
    rw [main]
    rcases getElem?_setCall found calls found' with ⟨rfl, rfl⟩ | ⟨_, found'⟩
    · exact safe.mains call (List.mem_of_getElem? found) main' target
    · exact safe.mains call' (List.mem_of_getElem? found') main' target
  case notified =>
    rw [main]
    exact notified
  case queue =>
    exact queue
  case stored =>
    intro other main' step' stored
    rw [trace]
    rcases stored' stored with ⟨step, old⟩ | ⟨rfl, fresh, target⟩
    · exact List.mem_append_left _ (safe.stored other main' step old)
    · rw [(stores fresh ⟨main', target⟩).1]
      exact List.mem_append_right _ (.head _)
  case answered =>
    intro other step' stored
    rw [main, trace] at *
    rcases stored' stored with ⟨step, old⟩ | ⟨rfl, fresh, target⟩
    · exact (safe.answered other step old).imp set (·.append _)
    · exact .inl ((stores fresh ⟨_, target⟩).2 target)
  case tested =>
    rw [main]
    exact tested
  case completed =>
    intro other member
    rw [trace, List.mem_append] at member
    rcases member with old | new
    · obtain ⟨target, finished⟩ := safe.completed other old
      refine ⟨target, ?_⟩
      rw [setCall_other calls, finished]
      rintro rfl
      rw [found] at finished
      cases finished
      exact unfinished rfl
    · rcases moment with rfl | rfl | ⟨rfl, rfl⟩
      · cases new
      · cases List.mem_singleton.mp new
      · cases List.mem_singleton.mp new
        exact ⟨call.target, setCall_self found calls⟩
  case waits =>
    intro earlier later main' other step' shape member stored
    have old : ∃ later, before.trace = earlier ++ .waits main' :: later := by
      rcases moment with rfl | rfl | ⟨rfl, _⟩
      · exact ⟨later, by rw [← shape, trace, List.append_nil]⟩
      · rcases append_split (trace ▸ shape) with ⟨same, _⟩ | old
        · cases same
        · exact old
      · rcases append_split (trace ▸ shape) with ⟨same, _⟩ | old
        · cases same
        · exact old
    obtain ⟨later, old⟩ := old
    rcases stored' stored with ⟨step, kept⟩ | ⟨rfl, fresh, _⟩
    · exact safe.waits earlier later main' other step old member kept
    · have finished := safe.completed other (old ▸ List.mem_append_left _ member)
      obtain ⟨target, finished⟩ := finished
      rw [found] at finished
      cases finished
      cases fresh

/-- The flag is still going to be notified of, if not by the call that moves. -/
theorem Safe.notified_other (safe : before.Safe) {step : WakerStep}
    (found : before.calls[index]? = some call)
    (calls : after.calls = before.calls.set index { call with step })
    (aside : call.target = .main before.main → call.step ≠ .lock ∧ call.step ≠ .notify)
    (parks : before.owner.parks = true) (set : before.notified before.main = true) :
    ∃ index step, after.Stored index before.main step ∧ (step = .lock ∨ step = .notify) := by
  obtain ⟨other, step', ⟨found', past⟩, at'⟩ := safe.notified parks set
  refine ⟨other, step', ⟨?_, past⟩, at'⟩
  rw [setCall_other calls, found']
  rintro rfl
  rw [found] at found'
  cases found'
  exact at'.elim (aside rfl).1 (aside rfl).2

theorem Safe.queue_other (safe : before.Safe) {step : WakerStep}
    (found : before.calls[index]? = some call)
    (calls : after.calls = before.calls.set index { call with step }) (aside : call.step ≠ .notify)
    (waits : before.owner = .wait ∨ before.owner = .waiting) (filled : before.queue ≠ []) :
    ∃ (index : Nat) (call : WakerCall), after.calls[index]? = some call ∧ call.step = .notify := by
  obtain ⟨other, call', found', at'⟩ := safe.queue waits filled
  refine ⟨other, call', ?_, at'⟩
  rw [setCall_other calls, found']
  rintro rfl
  rw [found] at found'
  cases found'
  exact aside at'

theorem Safe.tested_other (safe : before.Safe) {step : WakerStep} {moments : List Moment}
    (found : before.calls[index]? = some call)
    (calls : after.calls = before.calls.set index { call with step })
    (trace : after.trace = before.trace ++ moments)
    (aside : call.target = .main before.main → step = .lock)
    (tested : before.owner = .isEmpty ∨ before.owner = .wait) {other : Nat} {step' : WakerStep}
    (stored : after.Stored other before.main step') :
    step' = .lock ∨ Answered after.trace other before.main := by
  obtain ⟨found', past⟩ := stored
  rcases getElem?_setCall found calls found' with ⟨rfl, same⟩ | ⟨_, found'⟩
  · cases call
    cases same
    exact .inl (aside rfl)
  · rw [trace]
    exact (safe.tested tested other step' ⟨found', past⟩).imp id (·.append _)

theorem Safe.callMove (safe : before.Safe) (found : before.calls[index]? = some call)
    (mutex : after.Mutex) (move : CallMove before after index call) : after.Safe := by
  cases move with
  | looks target at' holds shape =>
      subst shape
      have aside : call.target ≠ .main before.main := by rw [target]; simp
      have steps : call.step ≠ .finished ∧ call.step ≠ .notify := by
        rcases at' with at' | at' <;> rw [at'] <;> simp
      refine safe.setCall found rfl rfl (List.append_nil _).symm (.inl rfl) steps.1 ?_ (fun set => set)
        mutex ?_ ?_ ?_
      · rintro _ ⟨main, same⟩
        rw [target] at same
        cases same
      · exact safe.notified_other found (by rfl) fun same => absurd same aside
      · exact safe.queue_other found (by rfl) steps.2
      · exact fun tested other step stored => safe.tested_other found (by rfl) (by exact (List.append_nil _).symm)
          (fun same => absurd same aside) tested stored
  | @stores main target at' shape =>
      subst shape
      have steps : call.step ≠ .finished ∧ call.step ≠ .lock ∧ call.step ≠ .notify := by
        rw [at']
        simp
      have others : main ≠ before.main →
          Function.update before.notified main true before.main = before.notified before.main :=
        fun different => Function.update_of_ne (Ne.symm different) _ _
      refine safe.setCall found rfl rfl rfl (.inr (.inl rfl)) steps.1 ?_ ?_ mutex ?_ ?_ ?_
      · refine fun _ _ => ⟨rfl, fun same => ?_⟩
        rw [target] at same
        cases same
        exact Function.update_self _ _ _
      · intro set
        by_cases same : main = before.main
        · rw [← same]
          exact Function.update_self _ _ _
        · exact (others same).trans set
      · intro parks set
        by_cases same : main = before.main
        · refine ⟨_, .lock, ⟨(setCall_self found (by rfl)).trans ?_, by simp⟩, .inl rfl⟩
          rw [target, same]
        · exact safe.notified_other found (by rfl) (fun _ => steps.2) parks ((others same).symm.trans set)
      · exact safe.queue_other found (by rfl) steps.2.2
      · exact fun tested other step stored => safe.tested_other found (by rfl) rfl (fun _ => rfl) tested
          stored
  | @acquires step at' next lock shape =>
      subst shape
      have steps : call.step ≠ .finished ∧ call.step ≠ .storeNotified ∧ call.step ≠ .notify := by
        rw [at']
        simp
      refine safe.setCall found rfl rfl (List.append_nil _).symm (.inl rfl) steps.1
        (fun fresh => absurd fresh steps.2.1) (fun set => set) mutex ?_ ?_ ?_
      · intro parks set
        obtain ⟨other, step', ⟨found', past⟩, at''⟩ := safe.notified parks set
        by_cases same : other = index
        · subst same
          rw [found, Option.some.injEq] at found'
          subst found'
          have notifies : step = .notify := by
            refine next.resolve_right ?_
            rintro ⟨_, id, target⟩
            cases target
          refine ⟨other, step, ⟨setCall_self found (by rfl), ?_⟩, .inr notifies⟩
          rw [notifies]
          simp
        · exact ⟨other, step', ⟨(setCall_other (by rfl) same).trans found', past⟩, at''⟩
      · exact safe.queue_other found (by rfl) steps.2.2
      · intro tested
        rw [safe.mutex.held (parks_of_tested tested).2] at lock
        cases lock
  | pushes target at' shape =>
      subst shape
      have aside : call.target ≠ .main before.main := by rw [target]; simp
      have steps : call.step ≠ .finished ∧ call.step ≠ .storeNotified := by
        rw [at']
        simp
      refine safe.setCall found rfl rfl (List.append_nil _).symm (.inl rfl) steps.1
        (fun fresh => absurd fresh steps.2) (fun set => set) mutex ?_ ?_ ?_
      · exact safe.notified_other found (by rfl) fun same => absurd same aside
      · exact fun _ _ => ⟨_, _, setCall_self found (by rfl), rfl⟩
      · exact fun tested other step stored => safe.tested_other found (by rfl) (by exact (List.append_nil _).symm)
          (fun same => absurd same aside) tested stored
  | notifies at' shape =>
      subst shape
      have steps : call.step ≠ .finished ∧ call.step ≠ .storeNotified := by
        rw [at']
        simp
      obtain ⟨owner, same, parks⟩ : ∃ owner : OwnerStep, before.notifyAll = before.goTo owner ∧
          owner.parks = false := by
        rw [notifyAll]
        split
        · exact ⟨.relock, rfl, rfl⟩
        · next awake =>
            refine ⟨before.owner, rfl, ?_⟩
            by_contra asleep
            have holds : before.owner.holds = true := by
              cases owner : before.owner <;> simp [owner, OwnerStep.parks, OwnerStep.holds] at *
            have alone := safe.mutex.alone holds found
            rw [at'] at alone
            cases alone
      rw [same] at mutex ⊢
      refine safe.setCall found rfl rfl (List.append_nil _).symm (.inl rfl) steps.1
        (fun fresh => absurd fresh steps.2) (fun set => set) mutex ?_ ?_ ?_
      · exact fun asleep => absurd (parks.symm.trans asleep) Bool.false_ne_true
      · exact fun waits => absurd (parks.symm.trans (parks_of_wait waits)) Bool.false_ne_true
      · exact fun tested => absurd (parks.symm.trans (parks_of_tested tested).1) Bool.false_ne_true
  | completes at' shape =>
      subst shape
      have steps : call.step ≠ .finished ∧ call.step ≠ .storeNotified ∧ call.step ≠ .lock ∧
          call.step ≠ .notify := by
        rw [at']
        simp
      refine safe.setCall found rfl rfl rfl (.inr (.inr ⟨rfl, rfl⟩)) steps.1
        (fun fresh => absurd fresh steps.2.1) (fun set => set) mutex ?_ ?_ ?_
      · exact safe.notified_other found (by rfl) fun _ => steps.2.2
      · exact safe.queue_other found (by rfl) steps.2.2.2
      · intro tested
        have alone := safe.mutex.alone (parks_of_tested tested).2 found
        rw [at'] at alone
        cases alone

/-- Every step keeps the invariant. -/
theorem Safe.step (safe : before.Safe) (goes : before.step event = some after) : after.Safe := by
  have move := step_cases goes
  have mutex := safe.mutex.step move
  cases move with
  | owner calls main move => exact safe.ownerMove mutex calls main move
  | blockOn owner shape =>
      subst shape
      exact safe.blockOn mutex
  | wakes known shape =>
      subst shape
      exact safe.wakes known mutex
  | advances found move => exact safe.callMove found mutex move

end Safe

/-- The call has yet to notify. -/
def stillNotifies (call : WakerCall) : Prop :=
  call.step = .lock ∨ call.step = .push ∨ call.step = .notify

/-- In no run does the owner wait with work pending that no call will still notify it of; and in front
of every wait, each main wake that has completed has been answered by a poll that began after its
store. -/
theorem parks_without_work {parking : Parking} (reached : Reachable step new parking) :
    (parking.owner = .waiting → parking.notified parking.main = true ∨ parking.queue ≠ [] →
      ∃ call ∈ parking.calls, stillNotifies call) ∧
    ∀ earlier later main index step, parking.trace = earlier ++ .waits main :: later →
      .completed index ∈ earlier → parking.calls[index]? = some ⟨.main main, step⟩ →
      List.Sublist [.stored index, .polled main] earlier := by
  have safe := reached.invariant Safe.step new_safe
  constructor
  · intro waiting work
    cases work with
    | inl set =>
        obtain ⟨index, step, ⟨found, _⟩, at'⟩ := safe.notified (by rw [waiting]; rfl) set
        exact ⟨_, List.mem_of_getElem? found, at'.imp id .inr⟩
    | inr filled =>
        obtain ⟨index, call, found, at'⟩ := safe.queue (.inr waiting) filled
        exact ⟨call, List.mem_of_getElem? found, .inr (.inr at')⟩
  · intro earlier later main index step shape member found
    refine safe.waits earlier later main index step shape member ⟨found, ?_⟩
    have whole : .completed index ∈ parking.trace := shape ▸ List.mem_append_left _ member
    obtain ⟨target, finished⟩ := safe.completed index whole
    rw [found] at finished
    cases finished
    simp

/-- A wake whose store comes in front of the second poll, and whose notification comes behind the
beginning of it. -/
def wokenOnce : List Event :=
  [.blockOn, .run, .wake (.main 1), .advance 0, .returns false, .run, .run, .run, .run, .run, .run,
    .advance 0, .advance 0, .advance 0, .returns false, .run, .run, .run, .run, .run, .run]

theorem parks_without_work_wokenOnce :
    ∃ parking, run step wokenOnce new = some parking ∧ parking.owner = .waiting ∧
      (parking.notified 1 = true ∨ parking.queue ≠ [] → ∃ call ∈ parking.calls, stillNotifies call) ∧
      List.Sublist [Moment.stored 0, .polled 1] [.polled 1, .stored 0, .polled 1, .completed 0] := by
  refine ⟨_, rfl, rfl, ?_, ?_⟩
  · exact (parks_without_work ⟨wokenOnce, rfl⟩).1 rfl
  · exact (parks_without_work ⟨wokenOnce, rfl⟩).2 [.polled 1, .stored 0, .polled 1, .completed 0] [] 1 0
      .finished rfl (by simp) rfl

/-- A wake that completes after a poll of the main future has begun need not be followed by another
poll: that poll may have begun after its store. -/
theorem not_polled_again :
    ¬ ∀ parking, Reachable step new parking → ∀ before between after later main index step,
      parking.trace = before ++ .polled main :: between ++ .completed index :: after ++
        .waits main :: later →
      parking.calls[index]? = some ⟨.main main, step⟩ → (∀ other, .waits other ∉ after) →
      .polled main ∈ after := by
  intro followed
  have polled := followed _ ⟨wokenOnce, rfl⟩ [.polled 1, .stored 0] [] [] [] 1 0 .finished rfl rfl
    (fun _ => List.not_mem_nil)
  cases polled

end Parking

end TptAsync.Executor
