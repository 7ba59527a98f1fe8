import Mathlib.Algebra.BigOperators.Group.Finset.Basic
import TptAsync.Executor.Positions

set_option autoImplicit false

/-!
# Bodies of tasks

Who holds which handle, and who waits for whom, while routines run. Each operation keeps it.
-/

namespace TptAsync.Executor

open Lib

variable {α : Type}

namespace Body

/-- The task that a body waits for. -/
def awaits : Body α → Option Nat
  | ⟨_, .join which _, handles⟩ => some (handles which)
  | ⟨_, .done _, _⟩ | ⟨_, .giveWay _, _⟩ | ⟨_, .start _ _ _, _⟩ => none

def comesTo (values : Nat → α) (body : Body α) : α :=
  body.routine.meaning fun place => values (body.handles place)

def effort (values : Nat → α) (body : Body α) : Nat :=
  body.routine.effort fun place => values (body.handles place)

/-- A body waits for a task whose handle it holds. -/
theorem awaits_handle {body : Body α} {id : Nat} (awaits : body.awaits = some id) :
    ∃ place, body.handles place = id := by
  obtain ⟨held, routine, handles⟩ := body
  cases routine with
  | join which next => exact ⟨which, Option.some.inj awaits⟩
  | done value => cases awaits
  | giveWay next => cases awaits
  | start split other next => cases awaits

theorem comesTo_congr {values others : Nat → α} {body : Body α}
    (same : ∀ place, values (body.handles place) = others (body.handles place)) :
    body.comesTo values = body.comesTo others :=
  congrArg body.routine.meaning (funext same)

theorem effort_congr {values others : Nat → α} {body : Body α}
    (same : ∀ place, values (body.handles place) = others (body.handles place)) :
    body.effort values = body.effort others :=
  congrArg body.routine.effort (funext same)

/-- The second body holds handles of the first, and comes to the same. -/
structure Continues (values : Nat → α) (body next : Body α) (place : Fin next.held → Fin body.held) :
    Prop where
  injective : Function.Injective place
  handles : ∀ later, next.handles later = body.handles (place later)
  comesTo : next.comesTo values = body.comesTo values

/-- The body of a task that is started. -/
def started {held given kept : Nat} (split : Fin held ≃ Fin given ⊕ Fin kept)
    (other : Routine Core.Cancelled α given) (handles : Fin held → Nat) : Body α :=
  ⟨_, other, fun place => handles (split.symm (.inl place))⟩

/-- What is left of the one that has started it. -/
def starter {held given kept : Nat} (split : Fin held ≃ Fin given ⊕ Fin kept)
    (next : Routine Core.Cancelled α (kept + 1)) (handles : Fin held → Nat) (limit : Nat) : Body α :=
  ⟨_, next, Fin.cons limit fun place => handles (split.symm (.inr place))⟩

end Body

def Sleeper.comesTo (result : α) (values : Nat → α) : Sleeper → α
  | .main => result
  | .task id => values id

/-- What is so of the bodies and of what the tasks share with their handles. -/
structure Bodies (result : α) (values : Nat → α) (limit : Nat) (bodies : Sleeper → Option (Body α))
    (shared : Nat → Core.SharedState α Sleeper) (runnable polled : Sleeper → Prop) : Prop where
  runs : ∀ target body, bodies target = some body →
    runnable target ∨ ∃ id, body.awaits = some id ∧ (shared id).waker = some target
  registered : ∀ id target, (shared id).waker = some target →
    polled target ∧ ∃ body, bodies target = some body ∧ body.awaits = some id
  pending : ∀ id body, bodies (.task id) = some body →
    (shared id).flags = .pending ∧ (shared id).woken = []
  /-- What a task that has ended has left for the one who holds its handle. -/
  ready : ∀ target body place, bodies target = some body → bodies (.task (body.handles place)) = none →
    (shared (body.handles place)).flags = .ready ∧ (shared (body.handles place)).waker = none ∧
      (shared (body.handles place)).result = some (values (body.handles place))
  fresh : ∀ id, limit ≤ id → bodies (.task id) = none ∧ shared id = .new
  known : ∀ target body place, bodies target = some body → body.handles place < limit
  injective : ∀ target body, bodies target = some body → Function.Injective body.handles
  /-- Nobody else holds the handle. -/
  alone : ∀ first second body other place there, bodies first = some body → bodies second = some other →
    body.handles place = other.handles there → first = second
  means : ∀ target body, bodies target = some body → body.comesTo values = target.comesTo result values

namespace Bodies

variable {result : α} {values : Nat → α} {limit : Nat} {bodies : Sleeper → Option (Body α)}
  {shared : Nat → Core.SharedState α Sleeper} {runnable polled after known : Sleeper → Prop}

theorem mono (sound : Bodies result values limit bodies shared runnable polled)
    (runs : ∀ target, runnable target → after target) (polls : ∀ target, polled target → known target) :
    Bodies result values limit bodies shared after known :=
  { sound with
    runs := fun target body found => (sound.runs target body found).imp_left (runs target)
    registered := fun id target registered =>
      (sound.registered id target registered).imp_left (polls target) }

/-- A body that waits for a task is woken by it. -/
theorem unfinished (sound : Bodies result values limit bodies shared runnable polled) {id : Nat}
    {target : Sleeper} (registered : (shared id).waker = some target) :
    ∃ body, bodies (.task id) = some body := by
  obtain ⟨_, body, found, awaits⟩ := sound.registered id target registered
  obtain ⟨place, rfl⟩ := Body.awaits_handle awaits
  cases there : bodies (.task (body.handles place)) with
  | some other => exact ⟨other, rfl⟩
  | none =>
      rw [(sound.ready target body place found there).2.1] at registered
      cases registered

/-- Nobody is going to wake one that does not wait. -/
theorem free (sound : Bodies result values limit bodies shared runnable polled) {self : Sleeper} {body : Body α}
    (found : bodies self = some body) (awaits : body.awaits = none) (id : Nat) :
    (shared id).waker ≠ some self := by
  intro registered
  obtain ⟨_, other, again, waits⟩ := sound.registered id self registered
  cases found.symm.trans again
  rw [awaits] at waits
  cases waits

theorem limited (sound : Bodies result values limit bodies shared runnable polled) {id : Nat} {body : Body α}
    (found : bodies (.task id) = some body) : id < limit := by
  by_contra beyond
  rw [(sound.fresh id (Nat.le_of_not_lt beyond)).1] at found
  cases found

section Self

variable {self : Sleeper} {body next : Body α}

/-- A body goes on without having waited. -/
theorem continues (sound : Bodies result values limit bodies shared runnable polled)
    (found : bodies self = some body) (continues : ∃ place, body.Continues values next place)
    (free : ∀ id, (shared id).waker ≠ some self) (runs : runnable self) :
    Bodies result values limit (Function.update bodies self (some next)) shared runnable polled := by
  have before : ∀ {target now}, Function.update bodies self (some next) target = some now →
      ∃ old, bodies target = some old ∧
        ∃ origin : Fin now.held → Fin old.held, old.Continues values now origin := by
    intro target now holds
    by_cases same : target = self
    · subst same
      rw [Function.update_self] at holds
      cases holds
      exact ⟨body, found, continues⟩
    · rw [Function.update_of_ne same] at holds
      exact ⟨now, holds, id, Function.injective_id, fun _ => rfl, rfl⟩
  have gone : ∀ {target}, Function.update bodies self (some next) target = none → bodies target = none := by
    intro target absent
    by_cases same : target = self
    · rw [same, Function.update_self] at absent
      cases absent
    · rwa [Function.update_of_ne same] at absent
  refine ⟨fun target now holds => ?_, fun id target registered => ?_, fun id now holds => ?_,
    fun target now there holds absent => ?_, fun id beyond => ?_, fun target now there holds => ?_,
    fun target now holds => ?_, fun first second now other there elsewhere holds also same => ?_,
    fun target now holds => ?_⟩
  · by_cases same : target = self
    · exact .inl (same ▸ runs)
    · rw [Function.update_of_ne same] at holds
      exact sound.runs target now holds
  · obtain ⟨polls, other, holds, awaits⟩ := sound.registered id target registered
    refine ⟨polls, other, ?_, awaits⟩
    rwa [Function.update_of_ne fun same : target = self => free id (same ▸ registered)]
  · obtain ⟨old, holds, _⟩ := before holds
    exact sound.pending id old holds
  · obtain ⟨old, holds, origin, goesOn⟩ := before holds
    rw [goesOn.handles] at absent ⊢
    exact sound.ready target old _ holds (gone absent)
  · refine ⟨?_, (sound.fresh id beyond).2⟩
    rw [Function.update_of_ne, (sound.fresh id beyond).1]
    rintro rfl
    rw [(sound.fresh id beyond).1] at found
    cases found
  · obtain ⟨old, holds, origin, goesOn⟩ := before holds
    exact goesOn.handles there ▸ sound.known target old _ holds
  · obtain ⟨old, holds, origin, goesOn⟩ := before holds
    intro one two same
    rw [goesOn.handles, goesOn.handles] at same
    exact goesOn.injective (sound.injective target old holds same)
  · obtain ⟨old, holds, origin, goesOn⟩ := before holds
    obtain ⟨past, also, since, goesOnToo⟩ := before also
    rw [goesOn.handles, goesOnToo.handles] at same
    exact sound.alone first second old past _ _ holds also same
  · obtain ⟨old, holds, origin, goesOn⟩ := before holds
    exact goesOn.comesTo.trans (sound.means target old holds)

/-- A body is polled while the task that it waits for goes on. -/
theorem register (sound : Bodies result values limit bodies shared runnable polled) {id : Nat} {other : Body α}
    (found : bodies self = some body) (awaits : body.awaits = some id) (there : bodies (.task id) = some other)
    (runs : ∀ target, target ≠ self → runnable target → after target)
    (polls : ∀ target, polled target → known target) (knows : known self) :
    Bodies result values limit bodies
      (Function.update shared id { shared id with waker := some self }) after known := by
  have kept : ∀ other, (Function.update shared id { shared id with waker := some self } other).flags =
      (shared other).flags ∧
      (Function.update shared id { shared id with waker := some self } other).woken = (shared other).woken := by
    intro other
    by_cases same : other = id
    · rw [same, Function.update_self]
      exact ⟨rfl, rfl⟩
    · rw [Function.update_of_ne same]
      exact ⟨rfl, rfl⟩
  refine { sound with
    runs := fun target now holds => ?_
    registered := fun other target registered => ?_
    pending := fun other now holds => ?_
    ready := fun target now place holds absent => ?_
    fresh := fun other beyond => ⟨(sound.fresh other beyond).1, ?_⟩ }
  · by_cases same : target = self
    · subst same
      cases found.symm.trans holds
      exact .inr ⟨id, awaits, by rw [Function.update_self]⟩
    · rcases sound.runs target now holds with ready | ⟨other, waits, registered⟩
      · exact .inl (runs target same ready)
      · refine .inr ⟨other, waits, ?_⟩
        rw [Function.update_of_ne, registered]
        rintro rfl
        obtain ⟨place, here⟩ := Body.awaits_handle awaits
        obtain ⟨elsewhere, also⟩ := Body.awaits_handle waits
        exact same (sound.alone _ _ _ _ elsewhere place holds found (also.trans here.symm))
  · by_cases same : other = id
    · rw [same, Function.update_self] at registered
      cases registered
      exact ⟨knows, body, found, same ▸ awaits⟩
    · rw [Function.update_of_ne same] at registered
      exact (sound.registered other target registered).imp_left (polls target)
  · rw [(kept other).1, (kept other).2]
    exact sound.pending other now holds
  · rw [Function.update_of_ne]
    · exact sound.ready target now place holds absent
    · intro same
      rw [same, there] at absent
      cases absent
  · rw [Function.update_of_ne, (sound.fresh other beyond).2]
    rintro rfl
    exact absurd (sound.limited there) (Nat.not_lt_of_le beyond)

end Self

/-- The result of a task that has ended is taken once its handle is gone. -/
theorem take (sound : Bodies result values limit bodies shared runnable polled) {id : Nat}
    (ended : bodies (.task id) = none) (old : id < limit) (quiet : (shared id).waker = none)
    (unheld : ∀ target body place, bodies target = some body → body.handles place ≠ id) :
    Bodies result values limit bodies (Function.update shared id { shared id with result := none })
      runnable polled := by
  have wakers : ∀ other,
      (Function.update shared id { shared id with result := none } other).waker = (shared other).waker := by
    intro other
    by_cases same : other = id
    · rw [same, Function.update_self]
    · rw [Function.update_of_ne same]
  refine { sound with
    runs := fun target body found => ?_
    registered := fun other target registered => ?_
    pending := fun other body found => ?_
    ready := fun target body place found absent => ?_
    fresh := fun other beyond => ⟨(sound.fresh other beyond).1, ?_⟩ }
  · refine (sound.runs target body found).imp_right fun ⟨other, waits, registered⟩ => ⟨other, waits, ?_⟩
    rw [wakers, registered]
  · rw [wakers] at registered
    exact sound.registered other target registered
  · rw [Function.update_of_ne]
    · exact sound.pending other body found
    · rintro rfl
      rw [ended] at found
      cases found
  · rw [Function.update_of_ne (unheld target body place found)]
    exact sound.ready target body place found absent
  · rw [Function.update_of_ne, (sound.fresh other beyond).2]
    rintro rfl
    exact absurd old (Nat.not_lt_of_le beyond)

/-- A task ends. -/
theorem complete (sound : Bodies result values limit bodies shared runnable polled) {id : Nat} {body : Body α}
    {woken : List Sleeper} (found : bodies (.task id) = some body) (awaits : body.awaits = none)
    (runs : ∀ target, target ≠ .task id → runnable target → after target)
    (wakes : ∀ target, (shared id).waker = some target → after target)
    (polls : ∀ target, polled target → known target) :
    Bodies result values limit (Function.update bodies (.task id) none)
      (Function.update shared id ⟨.ready, some (values id), none, woken⟩) after known := by
  have free := sound.free found awaits
  have before : ∀ {target now}, Function.update bodies (.task id) none target = some now →
      target ≠ .task id ∧ bodies target = some now := by
    intro target now holds
    by_cases same : target = .task id
    · rw [same, Function.update_self] at holds
      cases holds
    · rw [Function.update_of_ne same] at holds
      exact ⟨same, holds⟩
  refine ⟨fun target now holds => ?_, fun other target registered => ?_, fun other now holds => ?_,
    fun target now place holds absent => ?_, fun other beyond => ?_, fun target now place holds => ?_,
    fun target now holds => ?_, fun first second now other there elsewhere holds also same => ?_,
    fun target now holds => ?_⟩
  · obtain ⟨apart, holds⟩ := before holds
    rcases sound.runs target now holds with ready | ⟨other, waits, registered⟩
    · exact .inl (runs target apart ready)
    · by_cases same : other = id
      · exact .inl (wakes target (same ▸ registered))
      · exact .inr ⟨other, waits, by rw [Function.update_of_ne same, registered]⟩
  · by_cases same : other = id
    · rw [same, Function.update_self] at registered
      cases registered
    · rw [Function.update_of_ne same] at registered
      obtain ⟨polled, now, holds, waits⟩ := sound.registered other target registered
      refine ⟨polls target polled, now, ?_, waits⟩
      rwa [Function.update_of_ne fun same : target = .task id => free other (same ▸ registered)]
  · obtain ⟨apart, holds⟩ := before holds
    rw [Function.update_of_ne fun same : other = id => apart (congrArg Sleeper.task same)]
    exact sound.pending other now holds
  · obtain ⟨apart, holds⟩ := before holds
    by_cases same : now.handles place = id
    · rw [same, Function.update_self]
      exact ⟨rfl, rfl, rfl⟩
    · rw [Function.update_of_ne fun same : Sleeper.task (now.handles place) = .task id => by
        cases same; contradiction] at absent
      rw [Function.update_of_ne same]
      exact sound.ready target now place holds absent
  · obtain ⟨absent, new⟩ := sound.fresh other beyond
    have apart : other ≠ id := by
      rintro rfl
      rw [absent] at found
      cases found
    rw [Function.update_of_ne apart, Function.update_of_ne fun same => apart (Sleeper.task.inj same)]
    exact ⟨absent, new⟩
  · exact sound.known target now place (before holds).2
  · exact sound.injective target now (before holds).2
  · exact sound.alone first second now other there elsewhere (before holds).2 (before also).2 same
  · exact sound.means target now (before holds).2

section Start

variable {self : Sleeper} {held given kept : Nat} {split : Fin held ≃ Fin given ⊕ Fin kept}
  {other : Routine Core.Cancelled α given} {next : Routine Core.Cancelled α (kept + 1)}
  {handles : Fin held → Nat}

/-- The bodies once a task is started. -/
def withStarted (bodies : Sleeper → Option (Body α)) (self : Sleeper) (limit : Nat)
    (split : Fin held ≃ Fin given ⊕ Fin kept) (other : Routine Core.Cancelled α given)
    (next : Routine Core.Cancelled α (kept + 1)) (handles : Fin held → Nat) : Sleeper → Option (Body α) :=
  Function.update (Function.update bodies self (some (Body.starter split next handles limit)))
    (.task limit) (some (Body.started split other handles))

theorem withStarted_new : withStarted bodies self limit split other next handles (.task limit) =
    some (Body.started split other handles) :=
  Function.update_self _ _ _

theorem withStarted_old {target : Sleeper} (old : target ≠ .task limit) :
    withStarted bodies self limit split other next handles target =
      Function.update bodies self (some (Body.starter split next handles limit)) target :=
  Function.update_of_ne old _ _

/-- Whose body is found where after a task is started. -/
theorem started_cases {target : Sleeper} {now : Body α}
    (holds : withStarted bodies self limit split other next handles target = some now) :
    (target = .task limit ∧ now = Body.started split other handles) ∨
      (target = self ∧ now = Body.starter split next handles limit) ∨
      (target ≠ self ∧ bodies target = some now) := by
  by_cases new : target = .task limit
  · rw [new, withStarted_new] at holds
    exact .inl ⟨new, (Option.some.inj holds).symm⟩
  · rw [withStarted_old new] at holds
    by_cases same : target = self
    · rw [same, Function.update_self] at holds
      exact .inr (.inl ⟨same, (Option.some.inj holds).symm⟩)
    · rw [Function.update_of_ne same] at holds
      exact .inr (.inr ⟨same, holds⟩)

/-- Where a handle was before a task is started. -/
inductive Origin (bodies : Sleeper → Option (Body α)) (self : Sleeper) (limit : Nat)
    (split : Fin held ≃ Fin given ⊕ Fin kept) (handles : Fin held → Nat) (target : Sleeper) (handle : Nat) :
    Prop
  | new (same : target = self) (handle_eq : handle = limit)
  | split (side : Fin given ⊕ Fin kept)
      (target_eq : target = side.elim (fun _ => .task limit) (fun _ => self))
      (handle_eq : handle = handles (split.symm side))
  | elsewhere (body : Body α) (place : Fin body.held) (apart : target ≠ self)
      (found : bodies target = some body) (handle_eq : handle = body.handles place)

theorem started_origin {target : Sleeper} {now : Body α}
    (holds : withStarted bodies self limit split other next handles target = some now) (place : Fin now.held) :
    Origin bodies self limit split handles target (now.handles place) := by
  rcases started_cases holds with ⟨new, rfl⟩ | ⟨same, rfl⟩ | ⟨apart, found⟩
  · exact .split (.inl place) new rfl
  · cases place using Fin.cases with
    | zero => exact .new same rfl
    | succ place => exact .split (.inr place) same rfl
  · exact .elsewhere now place apart found rfl

/-- A handle has one holder still. -/
theorem origin_alone (sound : Bodies result values limit bodies shared runnable polled)
    (found : bodies self = some ⟨held, .start split other next, handles⟩) {first second : Sleeper} {handle : Nat}
    (one : Origin bodies self limit split handles first handle)
    (two : Origin bodies self limit split handles second handle) : first = second := by
  have below : ∀ place, handles place < limit := fun place => sound.known self _ place found
  cases one with
  | new same is_ =>
      cases two with
      | new again _ => exact same.trans again.symm
      | split side whose here => exact absurd (is_.symm.trans here) (Nat.ne_of_gt (below _))
      | elsewhere body place apart before here =>
          exact absurd (is_.symm.trans here) (Nat.ne_of_gt (sound.known second body place before))
  | split side whose is_ =>
      cases two with
      | new again here => exact absurd (here.symm.trans is_) (Nat.ne_of_gt (below _))
      | split another also here =>
          have same := split.symm.injective (sound.injective self _ found (is_.symm.trans here))
          rw [whose, also, same]
      | elsewhere body place apart before here =>
          exact absurd (sound.alone second self body _ place _ before found (here.symm.trans is_)) apart
  | elsewhere body place apart before is_ =>
      cases two with
      | new again here =>
          exact absurd (here.symm.trans is_) (Nat.ne_of_gt (sound.known first body place before))
      | split side whose here =>
          exact absurd (sound.alone first self body _ place _ before found (is_.symm.trans here)) apart
      | elsewhere another there away also here =>
          exact sound.alone first second body another place there before also (is_.symm.trans here)

/-- What the one that has started a task knows of the tasks whose handles it holds. -/
theorem starter_values (values : Nat → α) (value : α) (below : ∀ place, handles place < limit) :
    (fun place => Function.update values limit value ((Body.starter split next handles limit).handles place)) =
      (Fin.cons value fun place => values (handles (split.symm (.inr place))) : Fin (kept + 1) → α) := by
  funext place
  cases place using Fin.cases with
  | zero => exact Function.update_self limit value values
  | succ place => exact Function.update_of_ne (Nat.ne_of_lt (below _)) value values

theorem start (sound : Bodies result values limit bodies shared runnable polled)
    (found : bodies self = some ⟨held, .start split other next, handles⟩)
    (runs : ∀ target, runnable target → after target) (selfRuns : after self) (newRuns : after (.task limit))
    (polls : ∀ target, polled target → known target) :
    Bodies result (Function.update values limit ((Body.started split other handles).comesTo values)) (limit + 1)
      (withStarted bodies self limit split other next handles) shared after known := by
  set others := Function.update values limit ((Body.started split other handles).comesTo values) with defined
  have free := sound.free found rfl
  have below : ∀ place, handles place < limit := fun place => sound.known self _ place found
  have unmixed : Function.Injective handles := sound.injective self _ found
  have kept : ∀ handle, handle < limit → others handle = values handle := fun handle small =>
    Function.update_of_ne (Nat.ne_of_lt small) _ _
  have unnew : ∀ id, .task id = self → id < limit := by
    rintro id rfl
    exact sound.limited found
  have comes : ∀ {target now}, bodies target = some now →
      target.comesTo result others = target.comesTo result values := by
    intro target now before
    cases target with
    | main => rfl
    | task id => exact kept id (sound.limited before)
  have gone : ∀ {target}, withStarted bodies self limit split other next handles target = none →
      bodies target = none := by
    intro target absent
    by_cases new : target = .task limit
    · rw [new, withStarted_new] at absent
      cases absent
    · rw [withStarted_old new] at absent
      by_cases same : target = self
      · rw [same, Function.update_self] at absent
        cases absent
      · rwa [Function.update_of_ne same] at absent
  have readies : ∀ {handle}, handle < limit → (∃ target body place, bodies target = some body ∧
      body.handles place = handle) → bodies (.task handle) = none → (shared handle).flags = .ready ∧
        (shared handle).waker = none ∧ (shared handle).result = some (others handle) := by
    rintro handle small ⟨target, body, place, holds, rfl⟩ absent
    rw [kept _ small]
    exact sound.ready target body place holds absent
  refine ⟨fun target now holds => ?_, fun id target registered => ?_, fun id now holds => ?_,
    fun target now there holds absent => ?_, fun id beyond => ?_, fun target now there holds => ?_,
    fun target now holds => ?_, fun first second now later there elsewhere holds also same => ?_,
    fun target now holds => ?_⟩
  · rcases started_cases holds with ⟨new, rfl⟩ | ⟨same, rfl⟩ | ⟨apart, before⟩
    · exact .inl (new ▸ newRuns)
    · exact .inl (same ▸ selfRuns)
    · exact (sound.runs target now before).imp_left (runs target)
  · obtain ⟨polled, now, before, waits⟩ := sound.registered id target registered
    refine ⟨polls target polled, now, ?_, waits⟩
    have apart : target ≠ self := fun same => free id (same ▸ registered)
    have old : target ≠ .task limit := by
      rintro rfl
      exact absurd (sound.limited before) (Nat.lt_irrefl limit)
    rw [withStarted_old old, Function.update_of_ne apart, before]
  · rcases started_cases holds with ⟨new, rfl⟩ | ⟨same, rfl⟩ | ⟨apart, before⟩
    · rw [Sleeper.task.inj new, (sound.fresh limit le_rfl).2]
      exact ⟨rfl, rfl⟩
    · exact sound.pending id _ (same ▸ found)
    · exact sound.pending id now before
  · have ended := gone absent
    cases started_origin holds there with
    | new same handle =>
        rw [handle, withStarted_new] at absent
        cases absent
    | split side whose handle =>
        rw [handle] at ended ⊢
        exact readies (below _) ⟨self, _, _, found, rfl⟩ ended
    | elsewhere body place apart before handle =>
        rw [handle] at ended ⊢
        exact readies (sound.known target body place before) ⟨target, body, place, before, rfl⟩ ended
  · obtain ⟨absent, new⟩ := sound.fresh id (Nat.le_of_succ_le beyond)
    rw [withStarted_old fun same => Nat.ne_of_gt beyond (Sleeper.task.inj same),
      Function.update_of_ne fun same => Nat.lt_asymm (unnew id same) beyond]
    exact ⟨absent, new⟩
  · cases started_origin holds there with
    | new same handle => exact handle ▸ Nat.lt_succ_self limit
    | split side whose handle => exact handle ▸ Nat.lt_succ_of_lt (below _)
    | elsewhere body place apart before handle =>
        exact handle ▸ Nat.lt_succ_of_lt (sound.known target body place before)
  · rcases started_cases holds with ⟨new, rfl⟩ | ⟨same, rfl⟩ | ⟨apart, before⟩
    · exact unmixed.comp (split.symm.injective.comp Sum.inl_injective)
    · refine Fin.cons_injective_iff.mpr
        ⟨?_, unmixed.comp (split.symm.injective.comp Sum.inr_injective)⟩
      rintro ⟨place, equal⟩
      exact Nat.ne_of_lt (below _) equal
    · exact sound.injective target now before
  · refine origin_alone sound found (started_origin holds there) ?_
    rw [same]
    exact started_origin also elsewhere
  · rcases started_cases holds with ⟨rfl, rfl⟩ | ⟨rfl, rfl⟩ | ⟨apart, before⟩
    · rw [Sleeper.comesTo, defined, Function.update_self]
      exact Body.comesTo_congr fun place => kept _ (below _)
    · rw [comes found, ← sound.means target _ found]
      exact congrArg next.meaning (starter_values values _ below)
    · rw [comes before, ← sound.means target now before]
      exact Body.comesTo_congr fun place => kept _ (sound.known target now place before)

end Start

end Bodies

section Effort

variable {values : Nat → α} {limit : Nat} {bodies : Sleeper → Option (Body α)} {self : Sleeper}

def targets (limit : Nat) : Finset Sleeper := insert .main ((Finset.range limit).image .task)

theorem mem_targets {target : Sleeper} :
    target ∈ targets limit ↔ target = .main ∨ ∃ id < limit, .task id = target := by
  simp [targets]

/-- How much there is to do. -/
def total (values : Nat → α) (limit : Nat) (bodies : Sleeper → Option (Body α)) : Nat :=
  ∑ target ∈ targets limit, (bodies target).elim 0 (Body.effort values)

theorem total_update (member : self ∈ targets limit) (next : Option (Body α)) :
    total values limit (Function.update bodies self next) + (bodies self).elim 0 (Body.effort values) =
      total values limit bodies + next.elim 0 (Body.effort values) := by
  have others : ∑ target ∈ (targets limit).erase self,
      (Function.update bodies self next target).elim 0 (Body.effort values) =
      ∑ target ∈ (targets limit).erase self, (bodies target).elim 0 (Body.effort values) :=
    Finset.sum_congr rfl fun target inside => by rw [Function.update_of_ne (Finset.ne_of_mem_erase inside)]
  rw [total, total, ← Finset.add_sum_erase _ _ member, ← Finset.add_sum_erase _ _ member, others,
    Function.update_self]
  omega

theorem Bodies.member {result : α} {shared : Nat → Core.SharedState α Sleeper}
    {runnable polled : Sleeper → Prop} (sound : Bodies result values limit bodies shared runnable polled)
    {body : Body α}
    (found : bodies self = some body) : self ∈ targets limit := by
  cases self with
  | main => exact mem_targets.mpr (.inl rfl)
  | task id => exact mem_targets.mpr (.inr ⟨id, sound.limited found, rfl⟩)

/-- What is to do after a body goes on. -/
theorem Bodies.total_update {result : α} {shared : Nat → Core.SharedState α Sleeper}
    {runnable polled : Sleeper → Prop} (sound : Bodies result values limit bodies shared runnable polled)
    {body : Body α} (found : bodies self = some body) (next : Option (Body α)) :
    total values limit (Function.update bodies self next) + body.effort values =
      total values limit bodies + next.elim 0 (Body.effort values) := by
  have updated := @Executor.total_update _ values limit bodies self (sound.member found) next
  rwa [found] at updated

/-- What is to do after a task is started. -/
theorem Bodies.total_start {result : α} {shared : Nat → Core.SharedState α Sleeper}
    {runnable polled : Sleeper → Prop} (sound : Bodies result values limit bodies shared runnable polled)
    {held given kept : Nat} {split : Fin held ≃ Fin given ⊕ Fin kept} {other : Routine Core.Cancelled α given}
    {next : Routine Core.Cancelled α (kept + 1)} {handles : Fin held → Nat}
    (found : bodies self = some ⟨held, .start split other next, handles⟩) :
    total (Function.update values limit ((Body.started split other handles).comesTo values)) (limit + 1)
      (withStarted bodies self limit split other next handles) + 1 = total values limit bodies := by
  set value := (Body.started split other handles).comesTo values
  set others := Function.update values limit value with defined
  have below : ∀ place, handles place < limit := fun place => sound.known self _ place found
  have kept : ∀ handle, handle < limit → others handle = values handle := fun handle small =>
    Function.update_of_ne (Nat.ne_of_lt small) _ _
  have new : Sleeper.task limit ∉ targets limit := by
    rw [mem_targets]
    rintro (same | ⟨id, small, same⟩)
    · cases same
    · exact Nat.ne_of_lt small (Sleeper.task.inj same)
  have grown : targets (limit + 1) = insert (.task limit) (targets limit) := by
    rw [targets, targets, Finset.range_add_one, Finset.image_insert, Finset.insert_comm]
  have before : total others limit bodies = total values limit bodies := by
    refine Finset.sum_congr rfl fun target _ => ?_
    cases holds : bodies target with
    | none => rfl
    | some body => exact Body.effort_congr fun place => kept _ (sound.known target body place holds)
  have replaced := @Executor.total_update _ others limit bodies self (sound.member found)
    (some (Body.starter split next handles limit))
  have starts : (Body.started split other handles).effort others =
      other.effort fun place => values (handles (split.symm (.inl place))) :=
    Body.effort_congr fun place => kept _ (below _)
  have goesOn : (Body.starter split next handles limit).effort others =
      next.effort (Fin.cons value fun place => values (handles (split.symm (.inr place)))) :=
    congrArg next.effort (starter_values values value below)
  have was : Body.effort others ⟨held, .start split other next, handles⟩ =
      (Body.started split other handles).effort others +
        (Body.starter split next handles limit).effort others + 1 := by
    rw [starts, goesOn]
    exact @Body.effort_congr _ _ _ ⟨held, .start split other next, handles⟩ fun place => kept _ (below _)
  rw [found, before] at replaced
  simp only [Option.elim_some] at replaced
  have whole : total others (limit + 1) (withStarted bodies self limit split other next handles) =
      (Body.started split other handles).effort others +
        total others limit (Function.update bodies self (some (Body.starter split next handles limit))) := by
    rw [total, grown, Finset.sum_insert new, withStarted_new]
    refine congrArg _ (Finset.sum_congr rfl fun target member => ?_)
    rw [withStarted_old fun same => new (same ▸ member)]
  omega

end Effort

end TptAsync.Executor
