import TptAsync.Timer.Wheel

set_option autoImplicit false

/-! The wheel's entries and slot heads as an intrusive-list heap: each pointer
manipulation of the wheel is the library operation of the same purpose. -/

namespace TptAsync.Timer.Inner

open Lib Lib.IntrusiveList

variable {Waker : Type}

def links (inner : Inner Waker) : Heap SlotHead Addr where
  heads := inner.heads
  next entry := (inner.entries entry).next
  prevNext entry := (inner.entries entry).prevNext

/-- Some slot's list leads to the entry. -/
def Linked (inner : Inner Waker) (entry : Addr) : Prop :=
  ∃ head steps, inner.links.walk steps (inner.heads head) = some entry

/-- What pointer manipulation leaves alone. -/
structure Frame (before after : Inner Waker) : Prop where
  tick : after.currentTick = before.currentTick
  fired : after.fired = before.fired
  deadline : ∀ entry, (after.entries entry).deadline = (before.entries entry).deadline
  waker : ∀ entry, (after.entries entry).waker = (before.entries entry).waker

theorem Frame.refl (inner : Inner Waker) : Frame inner inner :=
  ⟨rfl, rfl, fun _ => rfl, fun _ => rfl⟩

theorem Frame.trans {first second third : Inner Waker} (left : Frame first second)
    (right : Frame second third) : Frame first third where
  tick := right.tick.trans left.tick
  fired := right.fired.trans left.fired
  deadline entry := (right.deadline entry).trans (left.deadline entry)
  waker entry := (right.waker entry).trans (left.waker entry)

@[simp] theorem isRegistered_iff (inner : Inner Waker) (entry : Addr) :
    (inner.entries entry).isRegistered = true ↔ inner.links.prevNext entry ≠ none := by
  simp [TimerEntry.isRegistered, links, Option.isSome_iff_ne_none]

/-- An entry rewritten in its link fields only. -/
theorem frame_update (inner : Inner Waker) (heads : SlotHead → Option Addr) (pending : Nat)
    (entry : Addr) (value : TimerEntry Waker)
    (deadline : value.deadline = (inner.entries entry).deadline)
    (waker : value.waker = (inner.entries entry).waker) :
    Frame inner { inner with
      heads, pending, entries := Function.update inner.entries entry value } where
  tick := rfl
  fired := rfl
  deadline found := by
    by_cases same : found = entry
    · subst same
      simpa using deadline
    · simp [same]
  waker found := by
    by_cases same : found = entry
    · subst same
      simpa using waker
    · simp [same]

theorem links_setPrevNext (inner : Inner Waker) (entry : Addr)
    (cell : Option (Cell SlotHead Addr)) :
    (inner.setPrevNext entry cell).links =
      { inner.links with prevNext := Function.update inner.links.prevNext entry cell } := by
  refine Heap.ext rfl ?_ ?_ <;> funext found <;> by_cases same : found = entry
  all_goals simp [links, setPrevNext, same]

theorem setPrevNext_frame (inner : Inner Waker) (entry : Addr)
    (cell : Option (Cell SlotHead Addr)) : Frame inner (inner.setPrevNext entry cell) :=
  frame_update inner inner.heads inner.pending entry _ rfl rfl

theorem links_writeCell (inner : Inner Waker) (cell : Cell SlotHead Addr) (value : Option Addr) :
    (inner.writeCell cell value).links = inner.links.write cell value := by
  cases cell with
  | head head => rfl
  | next entry =>
      refine Heap.ext rfl ?_ ?_ <;> funext found <;> by_cases same : found = entry
      all_goals simp [links, writeCell, Heap.write, same]

theorem writeCell_frame (inner : Inner Waker) (cell : Cell SlotHead Addr) (value : Option Addr) :
    Frame inner (inner.writeCell cell value) := by
  cases cell with
  | head head => exact ⟨rfl, rfl, fun _ => rfl, fun _ => rfl⟩
  | next entry => exact frame_update inner inner.heads inner.pending entry _ rfl rfl

theorem links_repoint (inner : Inner Waker) (target : Option Addr) (cell : Cell SlotHead Addr) :
    (inner.repoint target cell).links = inner.links.setPrev target cell := by
  cases target with
  | none => rfl
  | some entry => exact links_setPrevNext inner entry (some cell)

theorem repoint_frame (inner : Inner Waker) (target : Option Addr) (cell : Cell SlotHead Addr) :
    Frame inner (inner.repoint target cell) := by
  cases target with
  | none => exact .refl inner
  | some entry => exact setPrevNext_frame inner entry (some cell)

@[simp] theorem repoint_pending (inner : Inner Waker) (target : Option Addr)
    (cell : Cell SlotHead Addr) : (inner.repoint target cell).pending = inner.pending := by
  cases target <;> rfl

@[simp] theorem writeCell_pending (inner : Inner Waker) (cell : Cell SlotHead Addr)
    (value : Option Addr) : (inner.writeCell cell value).pending = inner.pending := by
  cases cell <;> rfl

@[simp] theorem link_pending (inner : Inner Waker) (head : SlotHead) (entry : Addr) :
    (inner.link head entry).pending = inner.pending + 1 := by
  simp [link]

/-- Both links of one entry rewritten. -/
theorem links_relink (inner : Inner Waker) (entry : Addr) (value : TimerEntry Waker) :
    ({ inner with entries := Function.update inner.entries entry value } : Inner Waker).links =
      { inner.links with
        next := Function.update inner.links.next entry value.next
        prevNext := Function.update inner.links.prevNext entry value.prevNext } := by
  refine Heap.ext rfl ?_ ?_ <;> funext found <;> by_cases same : found = entry
  all_goals simp [links, same]

theorem links_link (inner : Inner Waker) (head : SlotHead) (entry : Addr) :
    (inner.link head entry).links = inner.links.pushFront head entry := by
  let entered : Inner Waker := { inner with
    entries := Function.update inner.entries entry
      { inner.entries entry with next := inner.heads head, prevNext := some (.head head) } }
  have enteredLinks := links_relink inner entry
    { inner.entries entry with next := inner.heads head, prevNext := some (.head head) }
  have repointed := links_repoint entered (inner.heads head) (.next entry)
  rw [show entered.links = _ from enteredLinks] at repointed
  exact congrArg (fun heap : Heap SlotHead Addr =>
    { heap with heads := Function.update heap.heads head (some entry) }) repointed

theorem link_frame (inner : Inner Waker) (head : SlotHead) (entry : Addr) :
    Frame inner (inner.link head entry) := by
  have entered := frame_update inner inner.heads inner.pending entry
    { inner.entries entry with next := inner.heads head, prevNext := some (.head head) } rfl rfl
  exact entered.trans ((repoint_frame _ _ _).trans ⟨rfl, rfl, fun _ => rfl, fun _ => rfl⟩)

theorem remove_unregistered (inner : Inner Waker) (entry : Addr)
    (unregistered : inner.links.prevNext entry = none) : inner.remove entry = some inner := by
  have clear : (inner.entries entry).prevNext = none := unregistered
  simp [remove, clear]

theorem remove_registered (inner : Inner Waker) (entry : Addr)
    (registered : inner.links.prevNext entry ≠ none) (positive : 0 < inner.pending) :
    ∃ after, inner.remove entry = some after ∧ after.links = inner.links.unlink entry ∧
      after.pending + 1 = inner.pending ∧ Frame inner after := by
  obtain ⟨cell, records⟩ := Option.ne_none_iff_exists'.mp registered
  obtain ⟨count, counted⟩ := Nat.exists_eq_succ_of_ne_zero positive.ne'
  have recorded : (inner.entries entry).prevNext = some cell := records
  let taken := inner.setPrevNext entry none
  let bypassed := taken.writeCell cell (taken.entries entry).next
  let cleared := bypassed.writeCell (.next entry) none
  let repointed := cleared.repoint (bypassed.entries entry).next cell
  have pendingSame : repointed.pending = count + 1 := by
    simpa [repointed, cleared, bypassed, taken, setPrevNext] using counted
  have bypassedLinks : bypassed.links =
      ({ inner.links with
          prevNext := Function.update inner.links.prevNext entry none } : Heap _ _).write cell
        (inner.links.next entry) := by
    rw [links_writeCell, links_setPrevNext]
    simp [taken, setPrevNext, links]
  refine ⟨{ repointed with pending := count }, ?_, ?_, counted.symm, ?_⟩
  · simp only [remove, recorded]
    change (U64.checkedPred repointed.pending).bind _ = _
    rw [pendingSame]
    rfl
  · change repointed.links = _
    rw [links_repoint, links_writeCell]
    change (bypassed.links.write (.next entry) none).setPrev (bypassed.links.next entry) cell = _
    rw [bypassedLinks]
    simp only [Heap.unlink, records]
    rfl
  · exact (setPrevNext_frame inner entry none).trans
      ((writeCell_frame taken cell _).trans ((writeCell_frame bypassed (.next entry) none).trans
        ((repoint_frame cleared _ cell).trans ⟨rfl, rfl, fun _ => rfl, fun _ => rfl⟩)))

end TptAsync.Timer.Inner
