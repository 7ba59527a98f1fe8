import TptAsync.Io.FakeIo

set_option autoImplicit false

/-!
# What is read from a connected pair

The entries of a direction are all that its two ends see of it. A reader is told the end of a
stream for good unless the closed end writes on, which `poll_write` does not look at.
-/

namespace TptAsync.Io.FakeIo

open Lib

variable {κ : Type}

namespace Entry

/-- The bytes that a write reports as accepted. -/
def accepted : Entry κ → Bytes
  | .wrote buf (.ok n) => buf.take n
  | .wrote _ (.error _) | .read _ _ | .pending _ | .closes _ | .closed _ | .wakes _ => []

def delivered : Entry κ → Bytes
  | .read _ filled => filled
  | .wrote _ _ | .pending _ | .closes _ | .closed _ | .wakes _ => []

/-- End of stream: nothing filled into a buffer with room. -/
def Ends : Entry κ → Prop
  | .read capacity filled => capacity ≠ 0 ∧ filled = []
  | .wrote _ _ | .pending _ | .closes _ | .closed _ | .wakes _ => False

/-- A call has returned by which a waiting reader is woken. -/
def Prompts : Entry κ → Prop
  | .wrote _ (.ok n) => n ≠ 0
  | .closed _ => True
  | .wrote _ (.error _) | .read _ _ | .pending _ | .closes _ | .wakes _ => False

end Entry

def accepted (log : List (Entry κ)) : Bytes := log.flatMap Entry.accepted

def delivered (log : List (Entry κ)) : Bytes := log.flatMap Entry.delivered

/-- The reader has been told the end of the stream. -/
def Told (log : List (Entry κ)) : Prop := ∃ entry ∈ log, entry.Ends

def Closes (log : List (Entry κ)) : Prop := ∃ how, .closes how ∈ log

def Closed (log : List (Entry κ)) : Prop := ∃ how, .closed how ∈ log

section Seen

variable {log : List (Entry κ)} {entry : Entry κ}

@[simp] theorem accepted_snoc : accepted (log ++ [entry]) = accepted log ++ entry.accepted := by
  simp [accepted]

@[simp] theorem delivered_snoc : delivered (log ++ [entry]) = delivered log ++ entry.delivered := by
  simp [delivered]

@[simp] theorem told_snoc : Told (log ++ [entry]) ↔ Told log ∨ entry.Ends := by
  simp [Told, or_and_right, exists_or]

@[simp] theorem closes_snoc : Closes (log ++ [entry]) ↔ Closes log ∨ ∃ how, entry = .closes how := by
  simp [Closes, exists_or, eq_comm]

@[simp] theorem closed_snoc : Closed (log ++ [entry]) ↔ Closed log ∨ ∃ how, entry = .closed how := by
  simp [Closed, exists_or, eq_comm]

end Seen

/-- A reader is told the end only behind a closing, with all that was accepted read. -/
def EndsBehind (before : List (Entry κ)) (entry : Entry κ) : Prop :=
  entry.Ends → Closes before ∧ delivered before = accepted before

def StaysEnded (before : List (Entry κ)) (entry : Entry κ) : Prop :=
  Told before → entry.delivered = []

section Waiting

variable [DecidableEq κ] {log : List (Entry κ)} {entry : Entry κ}

def Entry.waits (waiting : Option κ) : Entry κ → Option κ
  | .pending waker => some waker
  | .read _ _ => none
  | .wakes waker => if waiting = some waker then none else waiting
  | .wrote _ _ | .closes _ | .closed _ => waiting

/-- The waker of a reader that got `Pending` last, unless it has been woken. -/
def waits (log : List (Entry κ)) : Option κ := log.foldl Entry.waits none

@[simp] theorem waits_snoc : waits (log ++ [entry]) = entry.waits (waits log) := by
  simp [waits]

theorem Entry.waits_some {waiting : Option κ} {waker : κ} (waits : entry.waits waiting = some waker) :
    entry = .pending waker ∨ waiting = some waker := by
  cases entry with
  | pending other => exact .inl (congrArg _ (Option.some.inj waits))
  | read capacity filled => cases waits
  | wakes other =>
      by_cases same : waiting = some other
      · simp [Entry.waits, same] at waits
      · simpa [Entry.waits, same] using waits
  | wrote buf result => exact .inr waits
  | closes how => exact .inr waits
  | closed how => exact .inr waits

def WakesFirst (before : List (Entry κ)) (entry : Entry κ) : Prop :=
  entry.Prompts → waits before = none

/-- A byte stream. A reader that waits has read everything, and no call that closes the other end
has returned. -/
structure Streams (log : List (Entry κ)) : Prop where
  inOrder : delivered log <+: accepted log
  ends : Everywhere EndsBehind log
  woken : Everywhere WakesFirst log
  heard : waits log ≠ none → delivered log = accepted log ∧ ¬ Closed log

/-- A byte stream with a final end. -/
structure Faithful (log : List (Entry κ)) : Prop extends Streams log where
  final : Everywhere StaysEnded log

end Waiting

/-! ## One direction -/

/-- What the ends share of a direction, where they are in their calls and what they have seen. -/
structure Direction (κ : Type) where
  queue : Queue κ
  writeClosed : Bool
  writer : Call κ
  reader : Call κ
  log : List (Entry κ)

/-- An entry by which no byte passes, no stream ends and no reader waits. -/
structure Entry.Quiet (entry : Entry κ) : Prop where
  accepted : entry.accepted = []
  delivered : entry.delivered = []
  goesOn : ¬ entry.Ends
  unprompted : ¬ entry.Prompts
  awake : ∀ waker, entry ≠ .pending waker

theorem Entry.quiet_read : Entry.Quiet (.read 0 [] : Entry κ) :=
  ⟨rfl, rfl, fun ends => ends.1 rfl, id, fun _ => by simp⟩

theorem Entry.quiet_wrote : Entry.Quiet (.wrote [] (.ok 0) : Entry κ) :=
  ⟨rfl, rfl, id, fun prompts => prompts rfl, fun _ => by simp⟩

theorem Entry.quiet_refused (buf : Bytes) (error : IoError) :
    Entry.Quiet (.wrote buf (.error error) : Entry κ) :=
  ⟨rfl, rfl, id, id, fun _ => by simp⟩

theorem Entry.quiet_closes (how : Close) : Entry.Quiet (.closes how : Entry κ) :=
  ⟨rfl, rfl, id, id, fun _ => by simp⟩

theorem Entry.quiet_wakes (waker : κ) : Entry.Quiet (.wakes waker) :=
  ⟨rfl, rfl, id, id, fun _ => by simp⟩

namespace Direction

/-- What a step can do to a direction; where it may, it queues nothing behind a reported end. -/
inductive Move (may : Prop) (state : Direction κ) : Direction κ → Prop
  | stays : Move may state state
  | writer (call : Call κ) (elsewhere : ∀ how, call ≠ .closing how) :
      Move may state { state with writer := call }
  | reader (call : Call κ) (unlocked : call.locks = false) : Move may state { state with reader := call }
  | quiet (entry : Entry κ) (quiet : entry.Quiet) :
      Move may state { state with log := state.log ++ [entry] }
  | closes (how : Close) :
      Move may state
        { state with writeClosed := true, writer := .closing how, log := state.log ++ [.closes how] }
  | finds (capacity : Nat) (waker : κ) (empty : state.queue.bytes = []) :
      Move may state { state with reader := .checking capacity waker }
  | reads (capacity n : Nat) (some : n ≠ 0) (within : n ≤ state.queue.bytes.length) :
      Move may state
        { state with
          queue := { state.queue with bytes := state.queue.bytes.drop n }
          reader := .idle
          log := state.log ++ [.read capacity (state.queue.bytes.take n)] }
  | ends (capacity : Nat) (locked : state.reader.locks) (closed : state.writeClosed) :
      Move may state { state with reader := .idle, log := state.log ++ [.read capacity []] }
  | misses (waker : κ) (locked : state.reader.locks) (closed : state.writeClosed = false) :
      Move may state { state with reader := .registering waker }
  | registers (waker : κ) (registering : state.reader = .registering waker) :
      Move may state
        { state with
          queue := { state.queue with readerWaker := some waker }
          reader := .idle
          log := state.log ++ [.pending waker] }
  | queues (buf : Bytes) (unlocked : state.reader.locks = false) (before : may → ¬ Told state.log) :
      Move may state
        { state with
          queue := ⟨state.queue.bytes ++ buf, none⟩
          writer := .idle
          log := state.log ++ state.queue.wakeReader.2 ++ [.wrote buf (.ok buf.length)] }
  | leaves (how : Close) (closing : state.writer = .closing how) (unlocked : state.reader.locks = false) :
      Move may state
        { state with
          queue := state.queue.wakeReader.1
          writer := how.leaves
          log := state.log ++ state.queue.wakeReader.2 ++ [.closed how] }

end Direction

/-- The end that makes the step. -/
def Event.side : Event κ → End
  | .pollRead side _ _ | .pollWrite side _ | .close side _ | .proceed side => side

namespace Pair

variable {pair next : Pair κ} {side writer other : End}

def direction (pair : Pair κ) (writer : End) : Direction κ where
  queue := pair.queue writer
  writeClosed := pair.writeClosed writer
  writer := pair.call writer
  reader := pair.call writer.peer
  log := pair.log writer

theorem direction_calls (call : Call κ) :
    (pair.calls side call).direction side = { pair.direction side with writer := call } := by
  simp [direction, calls]

theorem direction_calls_peer (call : Call κ) :
    (pair.calls side call).direction side.peer = { pair.direction side.peer with reader := call } := by
  simp [direction, calls]

theorem direction_logs (entries : List (Entry κ)) :
    (pair.logs writer entries).direction writer =
      { pair.direction writer with log := pair.log writer ++ entries } := by
  simp [direction, logs]

theorem direction_logs_ne (ne : other ≠ writer) (entries : List (Entry κ)) :
    (pair.logs writer entries).direction other = pair.direction other := by
  simp [direction, logs, ne]

theorem direction_setQueue (queue : Queue κ) :
    (pair.setQueue writer queue).direction writer = { pair.direction writer with queue } := by
  simp [direction, setQueue]

theorem direction_setQueue_ne (ne : other ≠ writer) (queue : Queue κ) :
    (pair.setQueue writer queue).direction other = pair.direction other := by
  simp [direction, setQueue, ne]

theorem direction_setClosed :
    (pair.setClosed writer).direction writer = { pair.direction writer with writeClosed := true } := by
  simp [direction, setClosed]

theorem direction_setClosed_ne (ne : other ≠ writer) :
    (pair.setClosed writer).direction other = pair.direction other := by
  simp [direction, setClosed, ne]

/-- Bytes are queued only while the peer has not been told the end of the stream. -/
def BeforeEnd (pair : Pair κ) : Event κ → Prop
  | .proceed side => ∀ buf, pair.call side = .writing buf → ¬ Told (pair.log side)
  | .pollRead _ _ _ | .pollWrite _ _ | .close _ _ => True

open Direction (Move)

variable {may : Prop}

/-- Both directions move when a side goes on: the one it writes and the one it reads. -/
structure Moves (may : Prop) (pair next : Pair κ) (side : End) : Prop where
  writes : Move may (pair.direction side) (next.direction side)
  reads : Move may (pair.direction side.peer) (next.direction side.peer)

theorem pollRead_moves (capacity : Nat) (waker : κ) :
    Moves may pair (pair.pollRead side capacity waker) side := by
  unfold pollRead
  split
  · constructor
    · rw [direction_logs_ne side.peer_ne.symm]
      exact .stays
    · rw [direction_logs]
      exact .quiet _ Entry.quiet_read
  · constructor
    · rw [direction_calls]
      exact .writer _ (by simp)
    · rw [direction_calls_peer]
      exact .reader _ rfl

theorem pollWrite_moves (buf : Bytes) : Moves may pair (pair.pollWrite side buf) side := by
  unfold pollWrite
  split
  · constructor
    · rw [direction_logs]
      exact .quiet _ (Entry.quiet_refused _ _)
    · rw [direction_logs_ne side.peer_ne]
      exact .stays
  split
  · constructor
    · rw [direction_logs]
      exact .quiet _ Entry.quiet_wrote
    · rw [direction_logs_ne side.peer_ne]
      exact .stays
  · constructor
    · rw [direction_calls]
      exact .writer _ (by simp)
    · rw [direction_calls_peer]
      exact .reader _ rfl

theorem close_moves (how : Close) : Moves may pair (pair.close side how) side := by
  constructor
  · rw [close, direction_calls, direction_logs, direction_setClosed]
    exact .closes how
  · rw [close, direction_calls_peer, direction_logs_ne side.peer_ne, direction_setClosed_ne side.peer_ne]
    exact .reader _ rfl

theorem lockAndRead_moves {capacity : Nat} (room : capacity ≠ 0) (waker : κ) :
    Moves may pair (pair.lockAndRead side capacity waker) side := by
  simp only [lockAndRead]
  split
  next none =>
    have empty : (pair.queue side.peer).bytes = [] := List.eq_nil_of_length_eq_zero (by omega)
    constructor
    · rw [direction_calls]
      exact .writer _ (by simp)
    · rw [direction_calls_peer]
      exact .finds capacity waker empty
  next some =>
    constructor
    · rw [direction_calls, direction_logs_ne side.peer_ne.symm, direction_setQueue_ne side.peer_ne.symm]
      exact .writer _ (by simp)
    · rw [direction_calls_peer, direction_logs, direction_setQueue]
      exact .reads capacity _ some (Nat.min_le_left _ _)

theorem check_moves {capacity : Nat} {waker : κ} (checking : pair.call side = .checking capacity waker) :
    Moves may pair (pair.check side capacity waker) side := by
  have locked : (pair.direction side.peer).reader.locks := by
    simp [direction, checking, Call.locks]
  unfold check
  split
  next gone =>
    constructor
    · rw [direction_calls, direction_logs_ne side.peer_ne.symm]
      exact .writer _ (by simp)
    · rw [direction_calls_peer, direction_logs]
      exact .ends capacity locked gone
  next here =>
    constructor
    · rw [direction_calls]
      exact .writer _ (by simp)
    · rw [direction_calls_peer]
      exact .misses waker locked (Bool.eq_false_iff.mpr here)

theorem register_moves {waker : κ} (registering : pair.call side = .registering waker) :
    Moves may pair (pair.register side waker) side := by
  constructor
  · rw [register, direction_calls, direction_logs_ne side.peer_ne.symm,
      direction_setQueue_ne side.peer_ne.symm]
    exact .writer _ (by simp)
  · rw [register, direction_calls_peer, direction_logs, direction_setQueue]
    exact .registers waker (by simp [direction, registering])

theorem extend_moves (buf : Bytes) (unlocked : pair.locked side = false)
    (before : may → ¬ Told (pair.log side)) : Moves may pair (pair.extend side buf) side := by
  constructor
  · rw [extend, direction_calls, direction_logs, direction_setQueue, ← List.append_assoc]
    exact .queues buf unlocked before
  · rw [extend, direction_calls_peer, direction_logs_ne side.peer_ne, direction_setQueue_ne side.peer_ne]
    exact .reader _ rfl

theorem wakeAndLeave_moves {how : Close} (closing : pair.call side = .closing how)
    (unlocked : pair.locked side = false) : Moves may pair (pair.wakeAndLeave side how) side := by
  constructor
  · rw [wakeAndLeave, direction_calls, direction_logs, direction_setQueue, ← List.append_assoc]
    exact .leaves how closing unlocked
  · rw [wakeAndLeave, direction_calls_peer, direction_logs_ne side.peer_ne,
      direction_setQueue_ne side.peer_ne]
    cases how <;> exact .reader _ rfl

theorem whenIdle_moves (moves : Moves may pair next side) {after : Pair κ}
    (starts : pair.whenIdle next side = some after) : Moves may pair after side := by
  unfold whenIdle at starts
  split at starts
  case h_1 =>
    cases starts
    exact moves
  all_goals cases starts

theorem proceed_moves (proceeds : pair.proceed side = some next) :
    Moves (pair.BeforeEnd (.proceed side)) pair next side := by
  unfold proceed at proceeds
  split at proceeds
  next capacity room waker reading =>
    cases proceeds
    exact lockAndRead_moves room waker
  next capacity waker checking =>
    cases proceeds
    exact check_moves checking
  next waker registering =>
    cases proceeds
    exact register_moves registering
  next buf writing =>
    obtain ⟨unlocked, proceeds⟩ := Option.ite_none_left_eq_some.mp proceeds
    cases proceeds
    exact extend_moves buf (Bool.eq_false_iff.mpr unlocked) fun before => before buf writing
  next how closing =>
    obtain ⟨unlocked, proceeds⟩ := Option.ite_none_left_eq_some.mp proceeds
    cases proceeds
    exact wakeAndLeave_moves closing (Bool.eq_false_iff.mpr unlocked)
  next => cases proceeds
  next => cases proceeds

theorem step_moves {event : Event κ} (steps : step pair event = some next) :
    Moves (pair.BeforeEnd event) pair next event.side := by
  cases event with
  | pollRead side capacity waker => exact whenIdle_moves (pollRead_moves capacity waker) steps
  | pollWrite side buf => exact whenIdle_moves (pollWrite_moves buf) steps
  | close side how => exact whenIdle_moves (close_moves how) steps
  | proceed side => exact proceed_moves steps

/-- Whichever side goes on, every direction moves. -/
theorem step_move {event : Event κ} (steps : step pair event = some next) (writer : End) :
    Move (pair.BeforeEnd event) (pair.direction writer) (next.direction writer) := by
  rcases writer.eq_or_eq_peer event.side with rfl | rfl
  · exact (step_moves steps).writes
  · exact (step_moves steps).reads

/-- A call waits only for the peer, and then the peer can go on. -/
theorem goes_on (busy : pair.call side ≠ .idle) (present : pair.call side ≠ .dropped) :
    (pair.proceed side).isSome ∨ (pair.proceed side.peer).isSome := by
  by_cases locked : pair.locked side
  · right
    unfold proceed
    unfold Pair.locked at locked
    cases there : pair.call side.peer with
    | checking capacity waker => rfl
    | registering waker => rfl
    | idle | reading _ _ _ | writing _ | closing _ | dropped =>
        rw [there] at locked
        cases locked
  · left
    unfold proceed
    cases here : pair.call side with
    | idle => exact absurd here busy
    | dropped => exact absurd here present
    | writing buf => simp [locked]
    | closing how => simp [locked]
    | reading _ _ _ | checking _ _ | registering _ => rfl

end Pair

/-! ## What every move keeps -/

namespace Direction

variable {state next : Direction κ}

/-- Nothing is queued for a reader that has been told the end, and none was. -/
structure Silent (state : Direction κ) : Prop where
  final : Everywhere StaysEnded state.log
  empty : Told state.log → state.queue.bytes = []

theorem told_wakes (queue : Queue κ) (log : List (Entry κ)) :
    Told (log ++ queue.wakeReader.2) ↔ Told log := by
  cases registered : queue.readerWaker with
  | none => simp [Queue.wakeReader, registered]
  | some waker => simp [Queue.wakeReader, registered, Entry.Ends]

theorem Silent.quiet (silent : state.Silent) (entry : Entry κ) (delivered : entry.delivered = [])
    (goesOn : ¬ entry.Ends) : Silent { state with log := state.log ++ [entry] } where
  final := everywhere_snoc.mpr ⟨silent.final, fun _ => delivered⟩
  empty told := silent.empty ((told_snoc.mp told).resolve_right goesOn)

theorem Silent.wakes (silent : state.Silent) :
    Silent { state with log := state.log ++ state.queue.wakeReader.2 } := by
  cases registered : state.queue.readerWaker with
  | none => simpa [Queue.wakeReader, registered] using silent
  | some waker =>
      simpa [Queue.wakeReader, registered] using silent.quiet (.wakes waker) rfl id

theorem Silent.reads (silent : state.Silent) {capacity n : Nat} (some : n ≠ 0)
    (within : n ≤ state.queue.bytes.length) :
    Silent { state with
      queue := { state.queue with bytes := state.queue.bytes.drop n }
      reader := .idle
      log := state.log ++ [.read capacity (state.queue.bytes.take n)] } := by
  have untold : ¬ Told state.log := by
    intro told
    rw [silent.empty told, List.length_nil] at within
    omega
  refine ⟨everywhere_snoc.mpr ⟨silent.final, fun told => absurd told untold⟩, fun told => ?_⟩
  obtain ⟨_, nothing⟩ := (told_snoc.mp told).resolve_left untold
  have short := congrArg List.length nothing
  rw [List.length_take, List.length_nil] at short
  omega

variable [DecidableEq κ] {may : Prop}

/-- How a direction stands to what was seen of it. -/
structure Sound (state : Direction κ) : Prop where
  balance : accepted state.log = delivered state.log ++ state.queue.bytes
  ends : Everywhere EndsBehind state.log
  woken : Everywhere WakesFirst state.log
  emptied : state.reader.locks → state.queue.bytes = []
  flagged : state.writeClosed → Closes state.log
  closing : ∀ how, state.writer = .closing how → state.writeClosed
  shut : Closed state.log → state.writeClosed
  unshut : ∀ waker, state.reader = .registering waker → ¬ Closed state.log
  waiting : ∀ waker, waits state.log = some waker →
    state.queue.readerWaker = some waker ∧ state.queue.bytes = [] ∧ ¬ Closed state.log

/-- What an entry must be for the queue that is left with it. -/
structure Fits (state : Direction κ) (entry : Entry κ) (queue : Queue κ) : Prop where
  balance : state.queue.bytes ++ entry.accepted = entry.delivered ++ queue.bytes
  ends : EndsBehind state.log entry
  woken : WakesFirst state.log entry
  emptied : state.reader.locks → queue.bytes = []
  shut : ∀ how, entry = .closed how → state.writeClosed ∧ ∀ waker, state.reader ≠ .registering waker
  waiting : ∀ waker, entry.waits (waits state.log) = some waker →
    queue.readerWaker = some waker ∧ queue.bytes = [] ∧ ¬ Closed state.log ∧ ∀ how, entry ≠ .closed how

theorem Sound.logs (sound : state.Sound) {entry : Entry κ} {queue : Queue κ} (fits : Fits state entry queue) :
    Sound { state with queue, log := state.log ++ [entry] } where
  balance := by
    rw [accepted_snoc, delivered_snoc, sound.balance, List.append_assoc, fits.balance, List.append_assoc]
  ends := everywhere_snoc.mpr ⟨sound.ends, fits.ends⟩
  woken := everywhere_snoc.mpr ⟨sound.woken, fits.woken⟩
  emptied := fits.emptied
  flagged flag := closes_snoc.mpr (.inl (sound.flagged flag))
  closing := sound.closing
  shut shut := by
    rcases closed_snoc.mp shut with before | ⟨how, closed⟩
    · exact sound.shut before
    · exact (fits.shut how closed).1
  unshut waker registering shut := by
    rcases closed_snoc.mp shut with before | ⟨how, closed⟩
    · exact sound.unshut waker registering before
    · exact (fits.shut how closed).2 waker registering
  waiting waker waits := by
    rw [waits_snoc] at waits
    obtain ⟨registered, empty, unshut, goesOn⟩ := fits.waiting waker waits
    refine ⟨registered, empty, fun shut => ?_⟩
    obtain ⟨how, closed⟩ := (closed_snoc.mp shut).resolve_left unshut
    exact goesOn how closed

theorem Sound.writer (sound : state.Sound) {call : Call κ}
    (flagged : ∀ how, call = .closing how → state.writeClosed) : Sound { state with writer := call } :=
  { sound with closing := flagged }

theorem Sound.reader (sound : state.Sound) {call : Call κ} (emptied : call.locks → state.queue.bytes = [])
    (unshut : ∀ waker, call = .registering waker → ¬ Closed state.log) :
    Sound { state with reader := call } :=
  { sound with emptied := emptied, unshut := unshut }

/-- The reader's call has returned. -/
theorem Sound.rests (sound : state.Sound) : Sound { state with reader := .idle } :=
  sound.reader nofun nofun

theorem Sound.quiet (sound : state.Sound) {entry : Entry κ} (quiet : entry.Quiet) :
    Sound { state with log := state.log ++ [entry] } := by
  have goesOn : ∀ how, entry ≠ .closed how := by
    rintro how rfl
    exact quiet.unprompted trivial
  refine sound.logs ⟨?_, fun ends => absurd ends quiet.goesOn, fun prompts => absurd prompts quiet.unprompted,
    sound.emptied, fun how closed => absurd closed (goesOn how), fun waker waits => ?_⟩
  · rw [quiet.accepted, quiet.delivered, List.append_nil, List.nil_append]
  · have before := (Entry.waits_some waits).resolve_left (quiet.awake waker)
    obtain ⟨registered, empty, unshut⟩ := sound.waiting waker before
    exact ⟨registered, empty, unshut, goesOn⟩

theorem Sound.wakes (sound : state.Sound) :
    Sound { state with log := state.log ++ state.queue.wakeReader.2 } := by
  cases registered : state.queue.readerWaker with
  | none => simpa [Queue.wakeReader, registered] using sound
  | some waker => simpa [Queue.wakeReader, registered] using sound.quiet (Entry.quiet_wakes waker)

theorem Sound.woken_none (sound : state.Sound) : waits (state.log ++ state.queue.wakeReader.2) = none := by
  cases waiting : waits state.log with
  | none =>
      cases registered : state.queue.readerWaker with
      | none => simpa [Queue.wakeReader, registered] using waiting
      | some waker => simp [Queue.wakeReader, registered, Entry.waits, waiting]
  | some waker =>
      have registered := (sound.waiting waker waiting).1
      simp [Queue.wakeReader, registered, Entry.waits, waiting]

/-- The reader is woken, if one waits. -/
theorem Sound.wakeReader (sound : state.Sound) :
    Sound { state with
      queue := state.queue.wakeReader.1
      log := state.log ++ state.queue.wakeReader.2 } where
  __ := sound.wakes
  balance := sound.wakes.balance
  emptied := sound.emptied
  waiting waker waits := by
    rw [sound.woken_none] at waits
    cases waits

theorem Sound.finds (sound : state.Sound) {capacity : Nat} {waker : κ} (empty : state.queue.bytes = []) :
    Sound { state with reader := .checking capacity waker } :=
  sound.reader (fun _ => empty) (by simp)

theorem Sound.reads (sound : state.Sound) {capacity n : Nat} (some : n ≠ 0)
    (within : n ≤ state.queue.bytes.length) :
    Sound { state with
      queue := { state.queue with bytes := state.queue.bytes.drop n }
      reader := .idle
      log := state.log ++ [.read capacity (state.queue.bytes.take n)] } := by
  refine sound.rests.logs ⟨?_, fun ends => ?_, nofun, nofun, nofun, nofun⟩
  · simp [Entry.accepted, Entry.delivered]
  · have short := congrArg List.length ends.2
    rw [List.length_take, List.length_nil] at short
    omega

theorem Sound.told (sound : state.Sound) {capacity : Nat} (locked : state.reader.locks)
    (closed : state.writeClosed) :
    Sound { state with reader := .idle, log := state.log ++ [.read capacity []] } := by
  refine sound.rests.logs ⟨?_, fun _ => ⟨sound.flagged closed, ?_⟩, nofun, nofun, nofun, nofun⟩
  · simp [Entry.accepted, Entry.delivered]
  · rw [sound.balance, sound.emptied locked, List.append_nil]

theorem Sound.registers (sound : state.Sound) {waker : κ} (registering : state.reader = .registering waker) :
    Sound { state with
      queue := { state.queue with readerWaker := some waker }
      reader := .idle
      log := state.log ++ [.pending waker] } := by
  have empty : state.queue.bytes = [] := sound.emptied (by rw [registering]; rfl)
  refine sound.rests.logs ⟨?_, nofun, nofun, nofun, nofun, fun other waits => ?_⟩
  · simp [Entry.accepted, Entry.delivered]
  · exact ⟨waits, empty, sound.unshut waker registering, nofun⟩

theorem Sound.accepts (sound : state.Sound) (awake : waits state.log = none) (buf : Bytes)
    (unlocked : state.reader.locks = false) :
    Sound { state with
      queue := { state.queue with bytes := state.queue.bytes ++ buf }
      writer := .idle
      log := state.log ++ [.wrote buf (.ok buf.length)] } := by
  have returned : Sound { state with writer := .idle } := sound.writer nofun
  refine returned.logs
    ⟨?_, nofun, fun _ => awake, fun locked => ?_, nofun, fun waker waits => ?_⟩
  · simp [Entry.accepted, Entry.delivered]
  · rw [unlocked] at locked
    cases locked
  · rw [awake] at waits
    cases waits

theorem Sound.closed (sound : state.Sound) (awake : waits state.log = none) {how : Close}
    (closing : state.writer = .closing how) (unlocked : state.reader.locks = false) :
    Sound { state with writer := how.leaves, log := state.log ++ [.closed how] } := by
  have flag : state.writeClosed := sound.closing how closing
  have returned : Sound { state with writer := how.leaves } := sound.writer fun _ _ => flag
  refine returned.logs
    ⟨?_, nofun, fun _ => awake, sound.emptied, fun _ _ => ⟨flag, fun waker registering => ?_⟩,
      fun waker waits => ?_⟩
  · simp [Entry.accepted, Entry.delivered]
  · change state.reader = .registering waker at registering
    rw [registering] at unlocked
    cases unlocked
  · rw [awake] at waits
    cases waits

theorem Sound.closes (sound : state.Sound) (how : Close) :
    Sound { state with writeClosed := true, writer := .closing how, log := state.log ++ [.closes how] } where
  __ := sound.quiet (Entry.quiet_closes how)
  flagged _ := closes_snoc.mpr (.inr ⟨how, rfl⟩)
  closing _ _ := rfl
  shut _ := rfl

theorem Move.sound (move : Move may state next) (sound : state.Sound) : next.Sound := by
  cases move with
  | stays => exact sound
  | writer call elsewhere => exact sound.writer fun how closing => absurd closing (elsewhere how)
  | reader call unlocked =>
      refine sound.reader (fun locked => ?_) fun waker registering => ?_
      · rw [unlocked] at locked
        cases locked
      · rw [registering] at unlocked
        cases unlocked
  | quiet entry quiet => exact sound.quiet quiet
  | closes how => exact sound.closes how
  | finds capacity waker empty => exact sound.finds empty
  | reads capacity n some within => exact sound.reads some within
  | ends capacity locked closed => exact sound.told locked closed
  | misses waker locked closed =>
      refine sound.reader (fun _ => sound.emptied locked) fun _ _ shut => ?_
      rw [sound.shut shut] at closed
      cases closed
  | registers waker registering => exact sound.registers registering
  | queues buf unlocked before => exact sound.wakeReader.accepts sound.woken_none buf unlocked
  | leaves how closing unlocked => exact sound.wakeReader.closed sound.woken_none closing unlocked

/-- What is queued only before the end is reported is never delivered behind it. -/
theorem Move.silent (move : Move may state next) (allowed : may) (sound : state.Sound)
    (silent : state.Silent) : next.Silent := by
  cases move with
  | stays => exact silent
  | writer call elsewhere => exact { silent with }
  | reader call unlocked => exact { silent with }
  | quiet entry quiet => exact silent.quiet entry quiet.delivered quiet.goesOn
  | closes how => exact { silent.quiet (.closes how) rfl id with }
  | finds capacity waker empty => exact { silent with }
  | reads capacity n some within => exact silent.reads some within
  | ends capacity locked closed =>
      exact ⟨everywhere_snoc.mpr ⟨silent.final, fun _ => rfl⟩, fun _ => sound.emptied locked⟩
  | misses waker locked closed => exact { silent with }
  | registers waker registering => exact { silent.quiet (.pending waker) rfl id with }
  | queues buf unlocked before =>
      refine ⟨everywhere_snoc.mpr ⟨silent.wakes.final, fun _ => rfl⟩, fun told => ?_⟩
      have told := (told_snoc.mp told).resolve_right id
      exact absurd ((told_wakes _ _).mp told) (before allowed)
  | leaves how closing unlocked => exact { silent.wakes.quiet (.closed how) rfl id with }

theorem Sound.streams (sound : state.Sound) : Streams state.log where
  inOrder := ⟨state.queue.bytes, sound.balance.symm⟩
  ends := sound.ends
  woken := sound.woken
  heard waits := by
    obtain ⟨waker, waiting⟩ := Option.ne_none_iff_exists'.mp waits
    obtain ⟨_, empty, unshut⟩ := sound.waiting waker waiting
    refine ⟨?_, unshut⟩
    rw [sound.balance, empty, List.append_nil]

end Direction

section Runs

variable {pair : Pair κ}

theorem direction_ioPair_silent (writer : End) : ((ioPair : Pair κ).direction writer).Silent where
  final := everywhere_nil _
  empty _ := rfl

variable [DecidableEq κ]

theorem direction_ioPair_sound (writer : End) : ((ioPair : Pair κ).direction writer).Sound where
  balance := rfl
  ends := everywhere_nil _
  woken := everywhere_nil _
  emptied _ := rfl
  flagged := nofun
  closing := nofun
  shut := nofun
  unshut := nofun
  waiting := nofun

variable {next : Pair κ} {event : Event κ}

theorem step_sound (steps : pair.step event = some next) (sound : ∀ writer, (pair.direction writer).Sound)
    (writer : End) : (next.direction writer).Sound :=
  (Pair.step_move steps writer).sound (sound writer)

theorem step_silent (steps : pair.step event = some next) (allowed : pair.BeforeEnd event)
    (sound : ∀ writer, (pair.direction writer).Sound) (silent : ∀ writer, (pair.direction writer).Silent)
    (writer : End) : (next.direction writer).Silent :=
  (Pair.step_move steps writer).silent allowed (sound writer) (silent writer)

/-- Whatever is written, each direction is a byte stream. -/
theorem ioPair_streams (reached : Reachable Pair.step ioPair pair) (writer : End) :
    Streams (pair.log writer) :=
  (reached.invariant (fun sound steps => step_sound steps sound) direction_ioPair_sound writer).streams

/-- In every interleaving of the calls on the two ends, each direction is a byte stream with a final
end, if bytes are queued only while the reader has not been told the end. -/
theorem ioPair_faithful {events : List (Event κ)}
    (before : AllAllowed Pair.step Pair.BeforeEnd events ioPair)
    (ends : run Pair.step events ioPair = some pair) (writer : End) : Faithful (pair.log writer) where
  __ := ioPair_streams ⟨events, ends⟩ writer
  final := by
    have kept := before.keeps
      (fun pair => (∀ writer, (pair.direction writer).Sound) ∧ ∀ writer, (pair.direction writer).Silent)
      (fun kept steps allowed => ⟨step_sound steps kept.1, step_silent steps allowed kept.1 kept.2⟩)
      ⟨direction_ioPair_sound, direction_ioPair_silent⟩ ends
    exact (kept.2 writer).final

end Runs

instance : DecidablePred (Entry.Ends : Entry κ → Prop)
  | .read capacity filled => inferInstanceAs (Decidable (capacity ≠ 0 ∧ filled = []))
  | .wrote _ _ | .pending _ | .closes _ | .closed _ | .wakes _ => inferInstanceAs (Decidable False)

instance (log : List (Entry κ)) : Decidable (Told log) :=
  inferInstanceAs (Decidable (∃ entry ∈ log, entry.Ends))

instance (pair : Pair κ) : (event : Event κ) → Decidable (pair.BeforeEnd event)
  | .proceed side =>
      match writing : pair.call side with
      | .writing _ => decidable_of_iff (¬ Told (pair.log side)) (by simp [Pair.BeforeEnd, writing])
      | .idle | .reading _ _ _ | .checking _ _ | .registering _ | .closing _ | .dropped =>
          .isTrue (by simp [Pair.BeforeEnd, writing])
  | .pollRead _ _ _ | .pollWrite _ _ | .close _ _ => .isTrue trivial

theorem ioPair_faithful_drained :
    let events : List (Event Unit) :=
      [.pollRead .b 8 (), .proceed .b, .proceed .b, .proceed .b, .pollWrite .a [1, 2], .proceed .a,
        .close .a .shutdown, .pollRead .b 8 (), .proceed .b, .proceed .a, .pollRead .b 8 (), .proceed .b,
        .proceed .b]
    ∃ pair, run Pair.step events ioPair = some pair ∧ pair.log .a =
      [.pending (), .wakes (), .wrote [1, 2] (.ok 2), .closes .shutdown, .read 8 [1, 2],
        .closed .shutdown, .read 8 []] ∧ Faithful (pair.log .a) := by
  intro events
  have before : AllAllowed Pair.step Pair.BeforeEnd events ioPair := by
    repeat refine AllAllowed.cons rfl (by decide) ?_
    trivial
  exact ⟨_, rfl, rfl, ioPair_faithful before rfl .a⟩

/-- An end that is shut down writes on, behind the end of stream that its peer was told. -/
theorem written_behind_end :
    ∃ pair : Pair Unit, run Pair.step
        [.close .a .shutdown, .proceed .a, .pollRead .b 1 (), .proceed .b, .proceed .b,
          .pollWrite .a [1], .proceed .a, .pollRead .b 1 (), .proceed .b] ioPair = some pair ∧
      ¬ Faithful (pair.log .a) := by
  refine ⟨_, rfl, fun faithful => ?_⟩
  have told : Told [.closes .shutdown, .closed .shutdown, .read 1 [], (.wrote [1] (.ok 1) : Entry Unit)] := by
    decide
  have nothing := faithful.final _ (.read 1 [1]) [] rfl told
  cases nothing

end TptAsync.Io.FakeIo
