import Mathlib.Data.List.Infix

set_option autoImplicit false

/-!
# Transition systems

Runs of a step function over events, of which not every one is possible in every state.
-/

namespace TptAsync.Lib

variable {σ ε : Type} {step : σ → ε → Option σ}

/-- The state behind a list of events, if each of them is possible. -/
def run (step : σ → ε → Option σ) : List ε → σ → Option σ
  | [], state => some state
  | event :: events, state => (step state event).bind (run step events)

/-- A state that some run from `start` ends in. -/
def Reachable (step : σ → ε → Option σ) (start state : σ) : Prop :=
  ∃ events, run step events start = some state

theorem run_cons {event : ε} {events : List ε} {start state : σ}
    (ends : run step (event :: events) start = some state) :
    ∃ next, step start event = some next ∧ run step events next = some state :=
  Option.bind_eq_some_iff.mp ends

theorem run_append {events more : List ε} {start middle : σ} (reaches : run step events start = some middle) :
    run step (events ++ more) start = run step more middle := by
  induction events generalizing start with
  | nil => cases reaches; rfl
  | cons event events ih =>
      obtain ⟨next, first, rest⟩ := run_cons reaches
      rw [List.cons_append, run, first]
      exact ih rest

/-- What holds at the start and is kept by every step holds in every reachable state. -/
theorem Reachable.invariant {holds : σ → Prop}
    (steps : ∀ {state event next}, holds state → step state event = some next → holds next)
    {start state : σ} (reached : Reachable step start state) (starts : holds start) : holds state := by
  obtain ⟨events, ends⟩ := reached
  induction events generalizing start with
  | nil => exact Option.some.inj ends ▸ starts
  | cons event events ih =>
      obtain ⟨next, first, rest⟩ := run_cons ends
      exact ih (steps starts first) rest

/-- As long as the goal is not reached, some event leads to it, or at least closer. -/
theorem exists_run (holds : σ → Prop) {goal : σ → Prop} {may : ε → Prop} (measure : σ → Nat)
    (progress : ∀ {state}, holds state → ∃ event next, may event ∧ step state event = some next ∧
      (goal next ∨ holds next ∧ measure next < measure state))
    {start : σ} (starts : holds start) :
    ∃ events final, (∀ event ∈ events, may event) ∧ run step events start = some final ∧ goal final := by
  induction bound : measure start using Nat.strong_induction_on generalizing start with
  | h bound ih =>
      obtain ⟨event, next, allowed, first, reached | ⟨kept, closer⟩⟩ := progress starts
      · exact ⟨[event], next, List.forall_mem_singleton.mpr allowed, by rw [run, first]; rfl, reached⟩
      · obtain ⟨events, final, later, runs, reached⟩ := ih _ (bound ▸ closer) kept rfl
        refine ⟨event :: events, final, List.forall_mem_cons.mpr ⟨allowed, later⟩, ?_, reached⟩
        rw [run, first]
        exact runs

/-- Every step that the run makes is allowed in the state before it. -/
def AllAllowed (step : σ → ε → Option σ) (allowed : σ → ε → Prop) : List ε → σ → Prop
  | [], _ => True
  | event :: events, state =>
      ∀ next, step state event = some next → allowed state event ∧ AllAllowed step allowed events next

/-- Any two states of the run, the earlier one first, are related. -/
def Throughout (step : σ → ε → Option σ) (related : σ → σ → Prop) (events : List ε) (start : σ) : Prop :=
  ∀ earlier later first second, earlier ++ later <+: events →
    run step earlier start = some first → run step later first = some second → related first second

theorem Throughout.tail {related : σ → σ → Prop} {event : ε} {events : List ε} {start next : σ}
    (throughout : Throughout step related (event :: events) start)
    (first : step start event = some next) : Throughout step related events next := by
  intro earlier later before after within reaches ends
  refine throughout (event :: earlier) later before after ?_ ?_ ends
  · exact List.cons_prefix_cons.mpr ⟨rfl, within⟩
  · rw [run, first]
    exact reaches

section Relation

variable {invariant : σ → Prop} {allowed : σ → ε → Prop} {related : σ → σ → Prop}

theorem AllAllowed.cons {event : ε} {events : List ε} {start next : σ} (first : step start event = some next)
    (may : allowed start event) (all : AllAllowed step allowed events next) :
    AllAllowed step allowed (event :: events) start := by
  intro other again
  cases first.symm.trans again
  exact ⟨may, all⟩

theorem AllAllowed.and {allowed' : σ → ε → Prop} {events : List ε} {start : σ}
    (left : AllAllowed step allowed events start) (right : AllAllowed step allowed' events start) :
    AllAllowed step (fun state event => allowed state event ∧ allowed' state event) events start := by
  induction events generalizing start with
  | nil => trivial
  | cons event events ih =>
      intro next first
      obtain ⟨may, rest⟩ := left next first
      obtain ⟨may', rest'⟩ := right next first
      exact ⟨⟨may, may'⟩, ih rest rest'⟩

theorem AllAllowed.earlier {events rest : List ε} {start : σ}
    (all : AllAllowed step allowed events start) (within : rest <+: events) :
    AllAllowed step allowed rest start := by
  induction rest generalizing start events with
  | nil => trivial
  | cons event rest ih =>
      obtain ⟨tail, rfl⟩ := within
      intro next first
      obtain ⟨may, all⟩ := all next first
      exact ⟨may, ih all (List.prefix_append rest tail)⟩

/-- What every allowed step keeps holds behind a run of allowed steps. -/
theorem AllAllowed.keeps (holds : σ → Prop)
    (steps : ∀ {state event next}, holds state → step state event = some next →
      allowed state event → holds next)
    {events : List ε} {start state : σ} (starts : holds start)
    (all : AllAllowed step allowed events start) (ends : run step events start = some state) :
    holds state := by
  induction events generalizing start with
  | nil => exact Option.some.inj ends ▸ starts
  | cons event events ih =>
      obtain ⟨next, first, rest⟩ := run_cons ends
      obtain ⟨may, all⟩ := all next first
      exact ih (steps starts first may) all rest

/-- What holds where every allowed step is made holds of every step of such a run. -/
theorem AllAllowed.imp {allowed' : σ → ε → Prop} (holds : σ → Prop)
    (steps : ∀ {state event next}, holds state → step state event = some next →
      allowed state event → holds next ∧ allowed' state event)
    {events : List ε} {start : σ} (starts : holds start)
    (all : AllAllowed step allowed events start) : AllAllowed step allowed' events start := by
  induction events generalizing start with
  | nil => trivial
  | cons event events ih =>
      intro next first
      obtain ⟨may, all⟩ := all next first
      obtain ⟨kept, may'⟩ := steps starts first may
      exact ⟨may', ih kept all⟩

/-- Two conditions that agree where every step is made agree on every run. -/
theorem allAllowed_congr {allowed' : σ → ε → Prop} (holds : σ → Prop)
    (keeps : ∀ {state event next}, holds state → step state event = some next → holds next)
    (same : ∀ {state event next}, holds state → step state event = some next →
      (allowed state event ↔ allowed' state event))
    {events : List ε} {start : σ} (starts : holds start) :
    AllAllowed step allowed events start ↔ AllAllowed step allowed' events start := by
  constructor
  · intro all
    exact all.imp holds (fun kept steps may => ⟨keeps kept steps, (same kept steps).mp may⟩) starts
  · intro all
    exact all.imp holds (fun kept steps may => ⟨keeps kept steps, (same kept steps).mpr may⟩) starts

/-- Where a step that is not allowed spoils the state for good, a run that ends unspoilt has made
none. -/
theorem AllAllowed.of_unspoilt (holds spoilt : σ → Prop)
    (keeps : ∀ {state event next}, holds state → step state event = some next → holds next)
    (spoils : ∀ {state event next}, holds state → step state event = some next →
      ¬ allowed state event → spoilt next)
    (stays : ∀ {state event next}, holds state → step state event = some next →
      spoilt state → spoilt next)
    {events : List ε} {start state : σ} (starts : holds start)
    (ends : run step events start = some state) (unspoilt : ¬ spoilt state) :
    AllAllowed step allowed events start := by
  have remains : ∀ {rest : List ε} {later : σ}, holds later → spoilt later →
      run step rest later = some state → spoilt state := by
    intro rest
    induction rest with
    | nil => exact fun _ spoilt ends => Option.some.inj ends ▸ spoilt
    | cons event rest ih =>
        intro later kept spoilt ends
        obtain ⟨next, first, ends⟩ := run_cons ends
        exact ih (keeps kept first) (stays kept first spoilt) ends
  induction events generalizing start with
  | nil => trivial
  | cons event events ih =>
      obtain ⟨next, first, ends⟩ := run_cons ends
      intro other again
      cases first.symm.trans again
      refine ⟨?_, ih (keeps starts first) ends⟩
      by_contra disallowed
      exact unspoilt (remains (keeps starts first) (spoils starts first disallowed) ends)

theorem AllAllowed.relates (refl : ∀ state, related state state)
    (trans : ∀ {first second third}, related first second → related second third → related first third)
    (steps : ∀ {state event next}, invariant state → step state event = some next →
      allowed state event → invariant next ∧ related state next)
    {events rest : List ε} {start state : σ} (starts : invariant start)
    (all : AllAllowed step allowed events start) (within : rest <+: events)
    (ends : run step rest start = some state) : related start state := by
  induction rest generalizing start events with
  | nil => exact Option.some.inj ends ▸ refl start
  | cons event rest ih =>
      obtain ⟨next, first, ends⟩ := run_cons ends
      obtain ⟨tail, rfl⟩ := within
      obtain ⟨may, all⟩ := all next first
      obtain ⟨kept, stepped⟩ := steps starts first may
      exact trans stepped (ih kept all (List.prefix_append rest tail) ends)

/-- A relation that composes holds throughout a run exactly when it holds over each step. -/
theorem throughout_iff (refl : ∀ state, related state state)
    (trans : ∀ {first second third}, related first second → related second third → related first third)
    (keeps : ∀ {state event next}, invariant state → step state event = some next →
      allowed state event → invariant next)
    (exact : ∀ {state event next}, invariant state → step state event = some next →
      (related state next ↔ allowed state event))
    {events : List ε} {start : σ} (starts : invariant start) :
    Throughout step related events start ↔ AllAllowed step allowed events start := by
  constructor
  · intro throughout
    induction events generalizing start with
    | nil => trivial
    | cons event events ih =>
        intro next first
        have stepped : related start next :=
          throughout [] [event] start next (List.cons_prefix_cons.mpr ⟨rfl, List.nil_prefix⟩) rfl
            (by rw [run, first]; rfl)
        have may := (exact starts first).mp stepped
        exact ⟨may, ih (keeps starts first may) (throughout.tail first)⟩
  · intro all earlier later first second within reaches ends
    have steps : ∀ {state event next}, invariant state → step state event = some next →
        allowed state event → invariant next ∧ related state next :=
      fun kept steps may => ⟨keeps kept steps may, (exact kept steps).mpr may⟩
    induction earlier generalizing start events with
    | nil =>
        cases reaches
        exact all.relates refl trans steps starts within ends
    | cons event earlier ih =>
        obtain ⟨next, stepped, reaches⟩ := run_cons reaches
        obtain ⟨tail, rfl⟩ := within
        obtain ⟨may, all⟩ := all next stepped
        exact ih (keeps starts stepped may) all (List.prefix_append _ tail) reaches

end Relation

section Log

variable {α : Type}

/-- Every entry of a log fits the entries before it. -/
def Everywhere (fits : List α → α → Prop) (log : List α) : Prop :=
  ∀ before entry after, log = before ++ entry :: after → fits before entry

@[simp] theorem everywhere_nil (fits : List α → α → Prop) : Everywhere fits [] := by
  intro before entry after splits
  simp at splits

@[simp] theorem everywhere_snoc {fits : List α → α → Prop} {log : List α} {last : α} :
    Everywhere fits (log ++ [last]) ↔ Everywhere fits log ∧ fits log last := by
  constructor
  · intro everywhere
    refine ⟨fun before entry after splits => ?_, everywhere log last [] rfl⟩
    exact everywhere before entry (after ++ [last]) (by rw [splits, List.append_assoc, List.cons_append])
  · rintro ⟨everywhere, fitsLast⟩ before entry after splits
    rcases List.eq_nil_or_concat' after with rfl | ⟨rest, final, rfl⟩
    · obtain ⟨rfl, same⟩ := List.append_inj' splits rfl
      cases same
      exact fitsLast
    · rw [← List.cons_append, ← List.append_assoc] at splits
      obtain ⟨splits, _⟩ := List.append_inj' splits rfl
      exact everywhere before entry rest splits

end Log

end TptAsync.Lib
