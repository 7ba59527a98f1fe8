import Mathlib.Logic.Function.Basic
import Mathlib.Data.List.Nodup

set_option autoImplicit false

/-!
# Intrusive lists

Nodes at addresses `A` are linked through their own `next` field. A linked node
also records the cell that points at it, a list head or the `next` field of its
predecessor, so that unlinking needs no traversal. The heads are indexed by `H`.
-/

namespace TptAsync.Lib.IntrusiveList

/-- A cell that may hold the address of a node. -/
inductive Cell (H A : Type) where
  | head (head : H)
  | next (node : A)
  deriving DecidableEq

@[ext] structure Heap (H A : Type) where
  heads : H → Option A
  next : A → Option A
  prevNext : A → Option (Cell H A)

variable {H A : Type}

/-- A heap in which nothing is linked. -/
def Heap.empty : Heap H A where
  heads _ := none
  next _ := none
  prevNext _ := none

def Heap.read (heap : Heap H A) : Cell H A → Option A
  | .head head => heap.heads head
  | .next node => heap.next node

/-- The nodes met from `cell`, each recording the cell that led to it. -/
def Chain (heap : Heap H A) (cell : Cell H A) : List A → Prop
  | [] => heap.read cell = none
  | node :: rest =>
      heap.read cell = some node ∧ heap.prevNext node = some cell ∧
        Chain heap (.next node) rest

/-- A chain whose first node is known to a cursor only. -/
def Detached (heap : Heap H A) (cursor : Option A) : List A → Prop
  | [] => cursor = none
  | node :: rest => cursor = some node ∧ Chain heap (.next node) rest

/-- The cell contents met after following `next` from a cursor a number of times. -/
def Heap.walk (heap : Heap H A) : Nat → Option A → Option A
  | 0, cursor => cursor
  | steps + 1, cursor => heap.walk steps (cursor.bind heap.next)

/-- The heap holds exactly the lists `lists`, together with the chain `loose` that a
traversal has detached and reaches through `cursor`. -/
structure Represents (heap : Heap H A) (lists : H → List A) (cursor : Option A)
    (loose : List A) : Prop where
  chain : ∀ head, Chain heap (.head head) (lists head)
  detached : Detached heap cursor loose
  nodup : ∀ head, (lists head).Nodup
  apart : ∀ {left right : H} {node : A}, node ∈ lists left → node ∈ lists right → left = right
  looseNodup : loose.Nodup
  looseApart : ∀ {node : A}, node ∈ loose → ∀ head, node ∉ lists head
  unlinked : ∀ node, (∀ head, node ∉ lists head) → node ∉ loose → heap.prevNext node = none

/-- The nodes met by following `next` from a cursor, at most `fuel` of them. -/
def Heap.follow (heap : Heap H A) : Nat → Option A → List A
  | 0, _ => []
  | _ + 1, none => []
  | fuel + 1, some node => node :: heap.follow fuel (heap.next node)

variable {heap : Heap H A} {lists : H → List A} {cursor : Option A} {loose : List A}

theorem Chain.congr {other : Heap H A} {cell : Cell H A} {nodes : List A}
    (chain : Chain heap cell nodes) (readSame : other.read cell = heap.read cell)
    (nextSame : ∀ node ∈ nodes, other.next node = heap.next node)
    (prevSame : ∀ node ∈ nodes, other.prevNext node = heap.prevNext node) :
    Chain other cell nodes := by
  induction nodes generalizing cell with
  | nil => exact readSame.trans chain
  | cons node rest ih =>
      obtain ⟨points, records, tail⟩ := chain
      refine ⟨readSame.trans points, (prevSame node (.head _)).trans records, ih tail ?_ ?_ ?_⟩
      · exact nextSame node (.head _)
      · exact fun later member => nextSame later (.tail _ member)
      · exact fun later member => prevSame later (.tail _ member)

theorem Detached.congr {other : Heap H A} {nodes : List A}
    (detached : Detached heap cursor nodes)
    (nextSame : ∀ node ∈ nodes, other.next node = heap.next node)
    (prevSame : ∀ node ∈ nodes, other.prevNext node = heap.prevNext node) :
    Detached other cursor nodes := by
  cases nodes with
  | nil => exact detached
  | cons node rest =>
      refine ⟨detached.1, detached.2.congr (nextSame node (.head _)) ?_ ?_⟩
      · exact fun later member => nextSame later (.tail _ member)
      · exact fun later member => prevSame later (.tail _ member)

theorem Chain.prevNext_isSome {cell : Cell H A} {nodes : List A}
    (chain : Chain heap cell nodes) {node : A} (member : node ∈ nodes) :
    ∃ cell, heap.prevNext node = some cell := by
  induction nodes generalizing cell with
  | nil => simp at member
  | cons first rest ih =>
      obtain ⟨_, records, tail⟩ := chain
      rcases List.mem_cons.mp member with rfl | later
      · exact ⟨cell, records⟩
      · exact ih tail later

/-- The cell a linked node records leads to it. -/
theorem Chain.read_prevNext {cell found : Cell H A} {nodes : List A}
    (chain : Chain heap cell nodes) {node : A} (member : node ∈ nodes)
    (records : heap.prevNext node = some found) :
    heap.read found = some node ∧ (found = cell ∨ ∃ before ∈ nodes, found = .next before) := by
  induction nodes generalizing cell with
  | nil => simp at member
  | cons first rest ih =>
      obtain ⟨points, firstRecords, tail⟩ := chain
      rcases List.mem_cons.mp member with rfl | later
      · rw [records, Option.some.injEq] at firstRecords
        subst firstRecords
        exact ⟨points, .inl rfl⟩
      · obtain ⟨leads, place⟩ := ih tail later
        refine ⟨leads, .inr ?_⟩
        rcases place with rfl | ⟨before, earlier, rfl⟩
        · exact ⟨first, .head _, rfl⟩
        · exact ⟨before, .tail _ earlier, rfl⟩

theorem Chain.read_eq {cell : Cell H A} {nodes : List A} (chain : Chain heap cell nodes) :
    heap.read cell = nodes.head? := by
  cases nodes with
  | nil => exact chain
  | cons node rest => exact chain.1

theorem Chain.next_mem {cell : Cell H A} {nodes : List A} (chain : Chain heap cell nodes)
    {node later : A} (member : node ∈ nodes) (next : heap.next node = some later) :
    later ∈ nodes := by
  induction nodes generalizing cell with
  | nil => simp at member
  | cons first rest ih =>
      obtain ⟨_, _, tail⟩ := chain
      rcases List.mem_cons.mp member with rfl | inRest
      · have leads : heap.read (.next node) = some later := next
        rw [tail.read_eq] at leads
        exact .tail _ (List.mem_of_mem_head? leads)
      · exact .tail _ (ih tail inRest)

theorem Chain.next_eq_head {cell : Cell H A} {before after : List A} {node : A}
    (chain : Chain heap cell (before ++ node :: after)) : heap.next node = after.head? := by
  induction before generalizing cell with
  | nil => exact chain.2.2.read_eq
  | cons first rest ih => exact ih chain.2.2

theorem Heap.walk_none (steps : Nat) : heap.walk steps none = none := by
  induction steps with
  | zero => rfl
  | succ steps ih => exact ih

theorem Chain.walk_read {cell : Cell H A} {nodes : List A} (chain : Chain heap cell nodes)
    (steps : Nat) : heap.walk steps (heap.read cell) = nodes[steps]? := by
  induction nodes generalizing cell steps with
  | nil =>
      rw [show heap.read cell = none from chain, heap.walk_none]
      rfl
  | cons node rest ih =>
      obtain ⟨points, _, tail⟩ := chain
      rw [points]
      cases steps with
      | zero => rfl
      | succ steps => exact ih tail steps

theorem Chain.follow_read {cell : Cell H A} {nodes : List A} (chain : Chain heap cell nodes) {fuel : Nat}
    (enough : nodes.length ≤ fuel) : heap.follow fuel (heap.read cell) = nodes := by
  induction nodes generalizing cell fuel with
  | nil =>
      rw [show heap.read cell = none from chain]
      cases fuel <;> rfl
  | cons node rest ih =>
      obtain ⟨points, _, tail⟩ := chain
      obtain ⟨fuel, rfl⟩ : ∃ smaller, fuel = smaller + 1 :=
        Nat.exists_eq_add_one.mpr (Nat.zero_lt_of_lt enough)
      rw [points]
      exact congrArg (node :: ·) (ih tail (Nat.le_of_succ_le_succ enough))

/-- No node of a chain is its own successor. -/
theorem Chain.cell_outside {start cell : Cell H A} {before after : List A} {node : A}
    (chain : Chain heap start (before ++ node :: after)) (nodup : (before ++ node :: after).Nodup)
    (leads : heap.read cell = some node) : cell ≠ .next node := by
  rintro rfl
  have afterHead : after.head? = some node := chain.next_eq_head.symm.trans leads
  have repeated := List.mem_of_mem_head? afterHead
  exact (List.nodup_cons.mp (List.nodup_append.mp nodup).2.1).1 repeated

theorem Represents.empty : Represents (Heap.empty : Heap H A) (fun _ => []) none [] where
  chain _ := rfl
  detached := rfl
  nodup _ := .nil
  apart member := by simp at member
  looseNodup := .nil
  looseApart member := by simp at member
  unlinked _ _ _ := rfl

theorem Represents.heads_eq (represents : Represents heap lists cursor loose) (head : H) :
    heap.heads head = (lists head).head? := by
  have chain := represents.chain head
  cases shape : lists head with
  | nil =>
      rw [shape] at chain
      exact chain
  | cons node rest =>
      rw [shape] at chain
      exact chain.1

/-- A list is what following `next` from its head meets. -/
theorem Represents.mem_iff_walk (represents : Represents heap lists cursor loose) (head : H)
    (node : A) : node ∈ lists head ↔ ∃ steps, heap.walk steps (heap.heads head) = some node := by
  rw [List.mem_iff_getElem?]
  exact exists_congr fun steps => by
    rw [← (represents.chain head).walk_read]
    rfl

theorem Represents.linked_iff (represents : Represents heap lists none []) (node : A) :
    heap.prevNext node = none ↔ ∀ head, node ∉ lists head := by
  constructor
  · intro clear head member
    obtain ⟨cell, records⟩ := (represents.chain head).prevNext_isSome member
    simp [clear] at records
  · exact fun absent => represents.unlinked node absent (by simp)

variable [DecidableEq A]

/-- Let the node at `target`, if there is one, record `cell` as the cell that points at it. -/
def Heap.setPrev (heap : Heap H A) (target : Option A) (cell : Cell H A) : Heap H A :=
  match target with
  | none => heap
  | some node => { heap with prevNext := Function.update heap.prevNext node (some cell) }

/-- Clear both links of a node taken off a detached chain. -/
def Heap.release (heap : Heap H A) (node : A) : Heap H A :=
  { heap with
    next := Function.update heap.next node none
    prevNext := Function.update heap.prevNext node none }

@[simp] theorem Heap.setPrev_heads (heap : Heap H A) (target : Option A)
    (cell : Cell H A) : (heap.setPrev target cell).heads = heap.heads := by
  cases target <;> rfl

@[simp] theorem Heap.setPrev_next (heap : Heap H A) (target : Option A)
    (cell : Cell H A) : (heap.setPrev target cell).next = heap.next := by
  cases target <;> rfl

theorem Heap.setPrev_prevNext (heap : Heap H A) (target : Option A) (cell : Cell H A)
    (node : A) :
    (heap.setPrev target cell).prevNext node =
      if target = some node then some cell else heap.prevNext node := by
  cases target with
  | none => simp [Heap.setPrev]
  | some found =>
      by_cases same : found = node
      · subst same
        simp [Heap.setPrev]
      · simp [Heap.setPrev, same, Function.update_of_ne (Ne.symm same)]

theorem Represents.release {node : A} {rest : List A}
    (represents : Represents heap lists cursor (node :: rest)) :
    cursor = some node ∧ Represents (heap.release node) lists (heap.next node) rest := by
  obtain ⟨found, tail⟩ := represents.detached
  have unique := List.nodup_cons.mp represents.looseNodup
  have listedNe : ∀ {head other}, other ∈ lists head → other ≠ node := by
    rintro head other member rfl
    exact represents.looseApart (.head _) head member
  refine ⟨found, ?_⟩
  constructor
  case chain =>
    intro head
    refine (represents.chain head).congr rfl ?_ ?_
    · intro other member
      simp [Heap.release, listedNe member]
    · intro other member
      simp [Heap.release, listedNe member]
  case detached =>
    cases rest with
    | nil => exact tail
    | cons next rest =>
        have nextNe : next ≠ node := by
          rintro rfl
          exact unique.1 (.head _)
        have restNe : ∀ later ∈ rest, later ≠ node := by
          rintro later member rfl
          exact unique.1 (.tail _ member)
        refine ⟨tail.1, tail.2.2.congr ?_ ?_ ?_⟩
        · simp [Heap.read, Heap.release, nextNe]
        · intro later member
          simp [Heap.release, restNe later member]
        · intro later member
          simp [Heap.release, restNe later member]
  case nodup => exact represents.nodup
  case apart => exact represents.apart
  case looseNodup => exact unique.2
  case looseApart => exact fun member head => represents.looseApart (.tail _ member) head
  case unlinked =>
    intro other absent notLoose
    by_cases same : other = node
    · simp [Heap.release, same]
    · simpa [Heap.release, same] using
        represents.unlinked other absent (by simp [same, notLoose])

/-- The fields of an unlinked node may be reset at any time. -/
theorem Represents.release_unlinked {node : A} (represents : Represents heap lists none [])
    (absent : ∀ head, node ∉ lists head) : Represents (heap.release node) lists none [] := by
  have listedNe : ∀ {head other}, other ∈ lists head → other ≠ node := by
    rintro head other member rfl
    exact absent head member
  refine { represents with chain := ?_, detached := rfl, unlinked := ?_ }
  · intro head
    refine (represents.chain head).congr rfl ?_ ?_
    · intro other member
      simp [Heap.release, listedNe member]
    · intro other member
      simp [Heap.release, listedNe member]
  · intro other missing _
    by_cases same : other = node
    · simp [Heap.release, same]
    · simpa [Heap.release, same] using represents.unlinked other missing (by simp)

variable [DecidableEq H]

def Heap.write (heap : Heap H A) (cell : Cell H A) (value : Option A) : Heap H A :=
  match cell with
  | .head head => { heap with heads := Function.update heap.heads head value }
  | .next node => { heap with next := Function.update heap.next node value }

def Heap.pushFront (heap : Heap H A) (head : H) (node : A) : Heap H A :=
  let old := heap.heads head
  let entered : Heap H A := { heap with
    next := Function.update heap.next node old
    prevNext := Function.update heap.prevNext node (some (.head head)) }
  let repointed := entered.setPrev old (.next node)
  { repointed with heads := Function.update repointed.heads head (some node) }

def Heap.unlink (heap : Heap H A) (node : A) : Heap H A :=
  match heap.prevNext node with
  | none => heap
  | some cell =>
      let left : Heap H A := { heap with prevNext := Function.update heap.prevNext node none }
      let bypassed := left.write cell (left.next node)
      let cleared : Heap H A := { bypassed with next := Function.update bypassed.next node none }
      cleared.setPrev (bypassed.next node) cell

/-- Detach a whole list: its nodes stay chained to each other, but no head leads to them. -/
def Heap.takeHead (heap : Heap H A) (head : H) : Heap H A :=
  { heap with heads := Function.update heap.heads head none }

@[simp] theorem Heap.pushFront_heads (heap : Heap H A) (head : H) (node : A) :
    (heap.pushFront head node).heads = Function.update heap.heads head (some node) := by
  simp [Heap.pushFront]

@[simp] theorem Heap.pushFront_next (heap : Heap H A) (head : H) (node : A) :
    (heap.pushFront head node).next = Function.update heap.next node (heap.heads head) := by
  simp [Heap.pushFront]

theorem Heap.pushFront_prevNext (heap : Heap H A) (head : H) (node found : A) :
    (heap.pushFront head node).prevNext found =
      if heap.heads head = some found then some (.next node)
      else Function.update heap.prevNext node (some (.head head)) found := by
  simp only [Heap.pushFront, Heap.setPrev_prevNext]

@[simp] theorem Heap.write_prevNext (heap : Heap H A) (cell : Cell H A) (value : Option A) :
    (heap.write cell value).prevNext = heap.prevNext := by
  cases cell <;> rfl

theorem Heap.write_read (heap : Heap H A) (cell found : Cell H A) (value : Option A) :
    (heap.write cell value).read found = if found = cell then value else heap.read found := by
  cases cell <;> cases found <;> simp [Heap.write, Heap.read, Function.update_apply]

theorem Heap.pushFront_other {head : H} {node found : A} (distinct : found ≠ node)
    (notFirst : heap.heads head ≠ some found) :
    (heap.pushFront head node).next found = heap.next found ∧
      (heap.pushFront head node).prevNext found = heap.prevNext found := by
  simp [Heap.pushFront_prevNext, distinct, notFirst]

/-- A chain that holds neither the pushed node nor the one that was first is left as it was. -/
theorem Chain.pushFront_congr {start : Cell H A} {nodes : List A} {head : H} {node : A}
    (chain : Chain heap start nodes) (startOther : start ≠ .head head) (startNode : start ≠ .next node)
    (absent : node ∉ nodes) (notFirst : ∀ found ∈ nodes, heap.heads head ≠ some found) :
    Chain (heap.pushFront head node) start nodes := by
  have others := fun found member =>
    Heap.pushFront_other (fun same : found = node => absent (same ▸ member)) (notFirst found member)
  refine chain.congr ?_ (fun found member => (others found member).1) fun found member => (others found member).2
  cases start with
  | head other =>
      have distinct : other ≠ head := fun same => startOther (congrArg Cell.head same)
      simp [Heap.read, distinct]
  | next before =>
      have distinct : before ≠ node := fun same => startNode (congrArg Cell.next same)
      simp [Heap.read, distinct]

/-- The pushed node comes first on its list. -/
theorem Chain.pushFront {nodes : List A} {head : H} {node : A} (chain : Chain heap (.head head) nodes)
    (nodup : nodes.Nodup) (absent : node ∉ nodes) :
    Chain (heap.pushFront head node) (.head head) (node :: nodes) := by
  cases nodes with
  | nil =>
      have empty : heap.heads head = none := chain
      refine ⟨by simp [Heap.read], ?_, by simp [Chain, Heap.read, empty]⟩
      simp [Heap.pushFront_prevNext, empty]
  | cons old rest =>
      obtain ⟨points, _, tail⟩ := chain
      have first : heap.heads head = some old := points
      have unique := List.nodup_cons.mp nodup
      have oldNe : old ≠ node := fun same => absent (by simp [same])
      refine ⟨by simp [Heap.read], by simp [Heap.pushFront_prevNext, first, oldNe], ?_, ?_, ?_⟩
      · simp [Heap.read, first]
      · simp [Heap.pushFront_prevNext, first]
      · refine tail.pushFront_congr (by simp) (fun same => oldNe (Cell.next.inj same)) ?_ ?_
        · exact fun member => absent (.tail _ member)
        · rintro found member same
          exact unique.1 (Option.some.inj (first.symm.trans same) ▸ member)

omit [DecidableEq A] in
theorem mem_update_cons {head other : H} {node found : A} :
    found ∈ Function.update lists head (node :: lists head) other ↔
      found ∈ lists other ∨ other = head ∧ found = node := by
  by_cases same : other = head
  · subst same
    rw [Function.update_self, List.mem_cons, or_comm]
    simp
  · simp [same]

omit [DecidableEq A] in
theorem Represents.nodup_update (represents : Represents heap lists cursor loose) {head : H}
    {nodes : List A} (unique : nodes.Nodup) (other : H) :
    (Function.update lists head nodes other).Nodup :=
  (Function.forall_update_iff lists fun _ nodes => nodes.Nodup).mpr
    ⟨unique, fun other _ => represents.nodup other⟩ other

theorem Represents.pushFront (represents : Represents heap lists cursor loose) {head : H} {node : A}
    (fresh : ∀ other, node ∉ lists other) (freshLoose : node ∉ loose) :
    Represents (heap.pushFront head node) (Function.update lists head (node :: lists head))
      cursor loose := by
  have firstListed : ∀ {found}, heap.heads head = some found → found ∈ lists head := by
    intro found first
    rw [represents.heads_eq head] at first
    exact List.mem_of_mem_head? first
  constructor
  case chain =>
    intro other
    by_cases same : other = head
    · subst same
      rw [Function.update_self]
      exact (represents.chain other).pushFront (represents.nodup other) (fresh other)
    · rw [Function.update_of_ne same]
      refine (represents.chain other).pushFront_congr (fun equal => same (Cell.head.inj equal))
        (by simp) (fresh other) ?_
      exact fun found member first => same (represents.apart member (firstListed first))
  case detached =>
    have others : ∀ found ∈ loose, (heap.pushFront head node).next found = heap.next found ∧
        (heap.pushFront head node).prevNext found = heap.prevNext found :=
      fun found member => Heap.pushFront_other (fun same => freshLoose (same ▸ member)) fun first =>
        represents.looseApart member head (firstListed first)
    exact represents.detached.congr (fun found member => (others found member).1)
      fun found member => (others found member).2
  case nodup => exact represents.nodup_update (List.nodup_cons.mpr ⟨fresh head, represents.nodup head⟩)
  case apart =>
    intro left right found inLeft inRight
    rcases mem_update_cons.mp inLeft with oldLeft | ⟨leftSame, same⟩ <;>
      rcases mem_update_cons.mp inRight with oldRight | ⟨rightSame, sameRight⟩
    · exact represents.apart oldLeft oldRight
    · exact absurd (sameRight ▸ oldLeft) (fresh _)
    · exact absurd (same ▸ oldRight) (fresh _)
    · exact leftSame.trans rightSame.symm
  case looseNodup => exact represents.looseNodup
  case looseApart =>
    intro found member other inList
    rcases mem_update_cons.mp inList with inList | ⟨_, rfl⟩
    · exact represents.looseApart member other inList
    · exact freshLoose member
  case unlinked =>
    intro found absent notLoose
    have notNode : found ≠ node := fun same => absent head (mem_update_cons.mpr (.inr ⟨rfl, same⟩))
    have absentBefore : ∀ other, found ∉ lists other :=
      fun other member => absent other (mem_update_cons.mpr (.inl member))
    rw [(Heap.pushFront_other notNode fun first => absentBefore head (firstListed first)).2]
    exact represents.unlinked found absentBefore notLoose

omit [DecidableEq A] in
theorem Represents.takeHead (represents : Represents heap lists none []) (head : H) :
    Represents (heap.takeHead head) (Function.update lists head []) (heap.heads head)
      (lists head) := by
  have kept : ∀ other found, found ∈ Function.update lists head [] other →
      other ≠ head ∧ found ∈ lists other := by
    intro other found member
    by_cases same : other = head
    · subst same
      simp at member
    · exact ⟨same, by simpa [same] using member⟩
  constructor
  case chain =>
    intro other
    by_cases same : other = head
    · subst same
      simp [Chain, Heap.read, Heap.takeHead]
    · rw [Function.update_of_ne same]
      refine (represents.chain other).congr ?_ (fun _ _ => rfl) (fun _ _ => rfl)
      simp [Heap.read, Heap.takeHead, same]
  case detached =>
    have first := represents.heads_eq head
    have chain := represents.chain head
    cases shape : lists head with
    | nil => simpa [Detached, shape] using first
    | cons node rest =>
        rw [shape] at chain
        exact ⟨chain.1, chain.2.2.congr rfl (fun _ _ => rfl) (fun _ _ => rfl)⟩
  case nodup => exact represents.nodup_update .nil
  case apart =>
    intro left right found inLeft inRight
    exact represents.apart (kept left found inLeft).2 (kept right found inRight).2
  case looseNodup => exact represents.nodup head
  case looseApart =>
    intro found member other inList
    obtain ⟨distinct, inList⟩ := kept other found inList
    exact distinct (represents.apart inList member)
  case unlinked =>
    intro found absent notLoose
    refine represents.unlinked found (fun other member => ?_) (by simp)
    by_cases same : other = head
    · subst same
      exact notLoose member
    · exact absent other (by simpa [same] using member)

section Unlink

variable {node : A} {cell : Cell H A}

theorem Heap.write_next_self (outside : cell ≠ .next node) (value : Option A) :
    (heap.write cell value).next node = heap.next node := by
  cases cell with
  | head head => rfl
  | next before =>
      have distinct : node ≠ before := fun same => outside (congrArg Cell.next same.symm)
      simp [Heap.write, distinct]

theorem Heap.unlink_prevNext (records : heap.prevNext node = some cell)
    (outside : cell ≠ .next node) (found : A) :
    (heap.unlink node).prevNext found =
      if heap.next node = some found then some cell
      else if found = node then none else heap.prevNext found := by
  simp only [Heap.unlink, records, Heap.setPrev_prevNext, Heap.write_prevNext,
    Heap.write_next_self outside, Function.update_apply]

theorem Heap.unlink_read (records : heap.prevNext node = some cell) (found : Cell H A)
    (distinct : found ≠ .next node) :
    (heap.unlink node).read found = if found = cell then heap.next node else heap.read found := by
  have written := Heap.write_read { heap with prevNext := Function.update heap.prevNext node none }
    cell found (heap.next node)
  simp only [Heap.unlink, records]
  cases found with
  | head head => simpa [Heap.read] using written
  | next before =>
      have other : before ≠ node := fun same => distinct (congrArg Cell.next same)
      simpa [Heap.read, other] using written

/-- A chain that holds neither the unlinked node nor its successor is left as it was. -/
theorem Chain.unlink_congr (records : heap.prevNext node = some cell)
    (outside : cell ≠ .next node) (leads : heap.read cell = some node)
    {start : Cell H A} {nodes : List A} (chain : Chain heap start nodes)
    (startOther : start ≠ .next node) (absent : node ∉ nodes)
    (notNext : ∀ found ∈ nodes, heap.next node ≠ some found) :
    Chain (heap.unlink node) start nodes := by
  have notCell : ∀ {origin : Cell H A} {rest : List A}, Chain heap origin rest → node ∉ rest →
      origin ≠ cell := by
    rintro origin rest tail missing rfl
    rw [tail.read_eq] at leads
    exact missing (List.mem_of_mem_head? leads)
  induction nodes generalizing start with
  | nil => rw [Chain, Heap.unlink_read records start startOther, if_neg (notCell chain absent), chain]
  | cons first rest ih =>
      have firstOther : first ≠ node := fun same => absent (by simp [same])
      refine ⟨?_, ?_, ih chain.2.2 ?_ ?_ ?_⟩
      · rw [Heap.unlink_read records start startOther, if_neg (notCell chain absent), chain.1]
      · rw [Heap.unlink_prevNext records outside, if_neg (notNext first (.head _)),
          if_neg firstOther, chain.2.1]
      · exact fun same => firstOther (Cell.next.inj same)
      · exact fun member => absent (.tail _ member)
      · exact fun found member => notNext found (.tail _ member)

/-- Unlinking takes exactly `node` out of the chain it is on. -/
theorem Chain.unlink (records : heap.prevNext node = some cell) (outside : cell ≠ .next node)
    (leads : heap.read cell = some node) {start : Cell H A} {before after : List A}
    (chain : Chain heap start (before ++ node :: after))
    (nodup : (before ++ node :: after).Nodup) (startOther : start ≠ .next node) :
    Chain (heap.unlink node) start (before ++ after) := by
  have follows : heap.next node = after.head? := chain.next_eq_head
  induction before generalizing start with
  | nil =>
      obtain ⟨points, recordsStart, tail⟩ := chain
      have same : cell = start := by simpa [records] using recordsStart
      have readStart : (heap.unlink node).read start = after.head? := by
        rw [Heap.unlink_read records start startOther, if_pos same.symm, follows]
      have absent := (List.nodup_cons.mp nodup).1
      cases after with
      | nil => exact readStart
      | cons next rest =>
          refine ⟨readStart, ?_, ?_⟩
          · rw [Heap.unlink_prevNext records outside, follows, if_pos List.head?_cons, same]
          · refine tail.2.2.unlink_congr records outside leads ?_ ?_ ?_
            · exact fun equal => absent (by simp [Cell.next.inj equal])
            · exact fun member => absent (.tail _ member)
            · rintro found member equal
              have nextNodup := (List.nodup_cons.mp (List.nodup_cons.mp nodup).2).1
              simp only [follows, List.head?_cons, Option.some.injEq] at equal
              exact nextNodup (equal ▸ member)
  | cons first rest ih =>
      obtain ⟨points, recordsFirst, tail⟩ := chain
      have unique := List.nodup_cons.mp nodup
      have firstOther : first ≠ node := fun same => unique.1 (by simp [same])
      have startNotCell : start ≠ cell := by
        rintro rfl
        exact firstOther (Option.some.inj (points.symm.trans leads))
      have notNext : heap.next node ≠ some first := by
        intro equal
        rw [follows] at equal
        exact unique.1 (by simp [List.mem_of_mem_head? equal])
      refine ⟨?_, ?_, ih tail unique.2 ?_⟩
      · rw [Heap.unlink_read records start startOther, if_neg startNotCell, points]
      · rw [Heap.unlink_prevNext records outside, if_neg notNext, if_neg firstOther, recordsFirst]
      · exact fun same => firstOther (Cell.next.inj same)

theorem Represents.mem_update_erase (represents : Represents heap lists cursor loose) {head other : H}
    (member : node ∈ lists head) {found : A} :
    found ∈ Function.update lists head ((lists head).erase node) other ↔
      found ∈ lists other ∧ found ≠ node := by
  by_cases same : other = head
  · subst same
    rw [Function.update_self, (represents.nodup other).mem_erase_iff, and_comm]
  · rw [Function.update_of_ne same]
    refine ⟨fun listed => ⟨listed, ?_⟩, And.left⟩
    rintro rfl
    exact same (represents.apart listed member)

omit [DecidableEq H] [DecidableEq A] in
theorem Represents.cell_outside (represents : Represents heap lists cursor loose) {head : H}
    (member : node ∈ lists head) (leads : heap.read cell = some node) : cell ≠ .next node := by
  have chain := represents.chain head
  have nodup := represents.nodup head
  obtain ⟨before, after, shape⟩ := List.append_of_mem member
  rw [shape] at chain nodup
  exact chain.cell_outside nodup leads

theorem Represents.unlink (represents : Represents heap lists none []) {head : H}
    (member : node ∈ lists head) :
    Represents (heap.unlink node) (Function.update lists head ((lists head).erase node))
      none [] := by
  obtain ⟨cell, records⟩ := (represents.chain head).prevNext_isSome member
  obtain ⟨leads, place⟩ := (represents.chain head).read_prevNext member records
  obtain ⟨before, after, shape⟩ := List.append_of_mem member
  have nodup := represents.nodup head
  have chain := represents.chain head
  rw [shape] at chain nodup
  have follows : heap.next node = after.head? := chain.next_eq_head
  have nextListed : ∀ {found}, heap.next node = some found → found ∈ lists head := by
    intro found next
    exact (represents.chain head).next_mem member next
  have outside := represents.cell_outside member leads
  have erased : (lists head).erase node = before ++ after := by
    have notBefore : node ∉ before := by
      intro early
      exact (List.nodup_append.mp nodup).2.2 node early node (by simp) rfl
    rw [shape, List.erase_append_right _ notBefore, List.erase_cons_head]
  constructor
  case chain =>
    intro other
    by_cases same : other = head
    · subst same
      rw [Function.update_self, erased]
      exact chain.unlink records outside leads nodup (by simp)
    · rw [Function.update_of_ne same]
      refine (represents.chain other).unlink_congr records outside leads (by simp) ?_ ?_
      · exact fun listed => same (represents.apart listed member)
      · exact fun found listed next => same (represents.apart listed (nextListed next))
  case detached => rfl
  case nodup => exact represents.nodup_update ((represents.nodup head).erase node)
  case apart =>
    intro left right found inLeft inRight
    exact represents.apart ((represents.mem_update_erase member).mp inLeft).1
      ((represents.mem_update_erase member).mp inRight).1
  case looseNodup => exact .nil
  case looseApart =>
    intro found loose
    simp at loose
  case unlinked =>
    intro found absent _
    rw [Heap.unlink_prevNext records outside]
    by_cases same : found = node
    · subst same
      rw [if_neg, if_pos rfl]
      intro loops
      rw [follows] at loops
      exact (List.nodup_cons.mp (List.nodup_append.mp nodup).2.1).1 (List.mem_of_mem_head? loops)
    · have absentBefore : ∀ other, found ∉ lists other :=
        fun other listed => absent other ((represents.mem_update_erase member).mpr ⟨listed, same⟩)
      rw [if_neg (fun next => absentBefore head (nextListed next)), if_neg same]
      exact represents.unlinked found absentBefore (by simp)

end Unlink

end TptAsync.Lib.IntrusiveList
