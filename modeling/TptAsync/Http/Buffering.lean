import TptAsync.Http.Draining
import TptAsync.Http.Dropped
import TptAsync.Lib.Transition

set_option autoImplicit false

/-!
# How much a connection buffers

The limit is looked at where a head is parsed, and nowhere else: a line of a chunked body is
waited for as long as the peer does not end it.
-/

namespace TptAsync.Http

open Lib

/-! ## Lines -/

/-- A line whose end comes within the limit on heads, or of which no more than that has come. -/
def ShortLine (bytes : Bytes) : Prop :=
  match find crlf bytes with
  | some position => position < maxHead
  | none => bytes.length ≤ maxHead

/-- Where the trailers of a body begin that begin with some bytes. -/
inductive TrailerAhead : Bytes → Bytes → Prop
  | first (bytes : Bytes) : TrailerAhead bytes bytes
  | next {bytes rest : Bytes} {position : Nat} (found : find crlf bytes = some position) (more : position ≠ 0)
      (ahead : TrailerAhead (bytes.drop (position + 2)) rest) : TrailerAhead bytes rest

/-- Where the lines begin that a reader takes before it is in a chunk again: that of a size, and
behind the last size the trailers. -/
inductive LineAhead (bytes : Bytes) : Bytes → Prop
  | size : LineAhead bytes bytes
  | trailer {rest : Bytes} {position : Nat} (found : find crlf bytes = some position)
      (last : BodyReader.parseChunkSize (bytes.take position) = .ok 0)
      (ahead : TrailerAhead (bytes.drop (position + 2)) rest) : LineAhead bytes rest

/-- What has come of a short line, as long as its end has not. -/
theorem ShortLine.front {part whole : Bytes} (short : ShortLine whole) (initial : part <+: whole)
    (missing : find crlf part = none) : part.length ≤ maxHead := by
  unfold ShortLine at short
  cases found : find crlf whole with
  | none =>
      rw [found] at short
      exact initial.length_le.trans short
  | some position =>
      rw [found] at short
      by_contra long
      obtain ⟨rest, rfl⟩ := initial
      obtain ⟨here, _, _⟩ := find_eq_some_iff.mp found
      have enough : position + 2 ≤ part.length := by
        dsimp only at short
        omega
      rw [List.drop_append_of_le_length (by omega)] at here
      have inside : crlf <+: part.drop position := by
        refine List.prefix_of_prefix_length_le here (List.prefix_append _ _) ?_
        rw [List.length_drop]
        exact Nat.le_sub_of_add_le (by rw [Nat.add_comm]; exact enough)
      exact find_eq_none_iff.mp missing (inside.isInfix.trans (List.drop_suffix _ _).isInfix)

theorem ShortLine.initial {part whole : Bytes} (short : ShortLine whole) (initial : part <+: whole) :
    ShortLine part := by
  unfold ShortLine
  cases missing : find crlf part with
  | none => exact short.front initial missing
  | some position =>
      have found := find_initial initial missing
      unfold ShortLine at short
      rw [found] at short
      exact short

/-- A line that is not short goes on, from what has come of it to behind the limit. -/
theorem exists_cut_of_long {part whole : Bytes} (long : ¬ ShortLine whole) (initial : part <+: whole)
    (missing : find crlf part = none) :
    ∃ cut, maxHead < cut ∧ part.length ≤ cut ∧ cut ≤ whole.length ∧ find crlf (whole.take cut) = none := by
  unfold ShortLine at long
  have room : crlf.length = 2 := rfl
  refine ⟨max (maxHead + 1) part.length, Nat.lt_of_succ_le (le_max_left _ _), le_max_right _ _, ?_, ?_⟩
  · refine max_le ?_ initial.length_le
    cases found : find crlf whole with
    | none =>
        rw [found] at long
        exact Nat.lt_of_not_le long
    | some position =>
        rw [found] at long
        have fits := find_length_le found
        dsimp only at long
        omega
  · cases found : find crlf (whole.take (max (maxHead + 1) part.length)) with
    | none => rfl
    | some position =>
        have fits := find_length_le found
        rw [find_initial (List.take_prefix _ _) found] at long
        rw [List.length_take] at fits
        dsimp only at long
        -- The end of the line would be in the part that has come.
        have held : max (maxHead + 1) part.length = part.length := by omega
        rw [held, ← List.prefix_iff_eq_take.mp initial, missing] at found
        cases found

namespace HttpConnection

variable {α : Type} {conn : HttpConnection} {fuel : Nat}

/-- The buffer of a connection is within its bound. -/
def Bounded (conn : HttpConnection) : Prop := conn.buf.length ≤ maxHead + readChunk

theorem Bounded.drop (bounded : conn.Bounded) (count : Nat) (io : Transport) (eof : Bool) :
    Bounded ⟨io, conn.buf.drop count, eof⟩ := by
  unfold Bounded
  rw [List.length_drop]
  exact (Nat.sub_le _ _).trans bounded

/-- A fill adds at most a chunk, also while it waits. -/
theorem fill_bounded (small : conn.buf.length ≤ maxHead) : (fill conn).2.Bounded := by
  rw [fill_eq]
  unfold Bounded
  cases reads : Transport.pollRead readChunk conn.io with
  | mk outcome io =>
      cases outcome with
      | ready data =>
          have fits := (pollRead_took reads).1
          dsimp only
          rw [List.length_append]
          omega
      | failed error =>
          dsimp only
          omega
      | pending =>
          dsimp only [grown]
          rw [List.length_append, List.length_replicate]
          omega

theorem readRaw_bounded (bounded : conn.Bounded) (capacity : Nat) : (readRaw capacity conn).2.Bounded := by
  rw [readRaw, (Async.Runs.get conn).bind_eq]
  split
  · exact bounded.drop capacity _ _
  · exact bounded

theorem expectLoop_bounded {missing : Nat} {got : Bytes} (bounded : conn.Bounded) :
    (expectLoop fuel missing got conn).2.Bounded := by
  induction fuel generalizing conn missing got with
  | zero => exact bounded
  | succ fuel ih =>
      rw [expectLoop]
      split
      · have within := readRaw_bounded bounded missing
        refine Async.bind_leaves within fun data middle runs => ?_
        rw [runs] at within
        split
        · exact within
        · exact ih within
      · exact bounded

theorem expectExact_bounded (bounded : conn.Bounded) (expected : Bytes) :
    (expectExact expected conn).2.Bounded := by
  have within := @expectLoop_bounded conn (expected.length + 1) expected.length [] bounded
  refine Async.bind_leaves within fun got middle runs => ?_
  rw [runs] at within
  split <;> exact within

theorem headLoop_bounded {parse : Bytes → Except HttpError (Option HeadRanges)} {finish : Bytes → HeadRanges → α}
    {ended : Async HttpError HttpConnection α} (parser : Incremental parse)
    (leaves : ∀ conn, (ended conn).2 = conn) (bounded : conn.Bounded) :
    (headLoop parse finish ended fuel conn).2.Bounded := by
  induction fuel generalizing conn with
  | zero => exact bounded
  | succ fuel ih =>
      cases parsed : parse conn.buf with
      | error error =>
          rw [headLoop_error parsed]
          exact Nat.zero_le _
      | ok found =>
          cases found with
          | some ranges =>
              rw [headLoop_some parsed]
              exact bounded.drop ranges.consumed _ _
          | none =>
              have small : conn.buf.length ≤ maxHead := by
                by_contra large
                cases (parser.limit conn.buf (Nat.lt_of_not_le large)).symm.trans parsed
              have within := fill_bounded small
              rw [headLoop_none parsed]
              refine Async.bind_leaves within fun count middle runs => ?_
              rw [runs] at within
              split
              · rw [leaves]
                exact within
              · exact ih within

theorem readRequestHead_bounded (bounded : conn.Bounded) : (readRequestHead conn).2.Bounded := by
  rw [readRequestHead, (Async.Runs.get conn).bind_eq, readRequestHeadLoop_eq]
  refine headLoop_bounded parseRequestRanges_incremental (fun conn => ?_) bounded
  rw [(Async.Runs.get conn).bind_eq]
  split <;> rfl

theorem readResponseHead_bounded (bounded : conn.Bounded) : (readResponseHead conn).2.Bounded := by
  rw [readResponseHead, (Async.Runs.get conn).bind_eq, readResponseHeadLoop_eq]
  exact headLoop_bounded parseResponseRanges_incremental (fun _ => rfl) bounded

/-- A line that is short leaves the buffer within its bound. -/
theorem readLineLoop_bounded (short : ShortLine conn.stream) (bounded : conn.Bounded) :
    (readLineLoop fuel conn).2.Bounded := by
  induction fuel generalizing conn with
  | zero => exact bounded
  | succ fuel ih =>
      rw [readLineLoop, (Async.Runs.get conn).bind_eq]
      cases found : find crlf conn.buf with
      | some position => exact bounded.drop (position + 2) _ _
      | none =>
          dsimp only
          split
          · exact bounded
          · have within := fill_bounded (short.front (List.prefix_append _ _) found)
            refine Async.bind_leaves within fun count middle runs => ?_
            rw [runs] at within
            split
            · exact within
            · exact ih (fill_stream runs ▸ short) within

theorem readLine_bounded (short : ShortLine conn.stream) (bounded : conn.Bounded) :
    (readLine conn).2.Bounded := by
  rw [readLine, (Async.Runs.get conn).bind_eq]
  exact readLineLoop_bounded short bounded

/-- A line that does not end is waited for. -/
theorem readLineLoop_waits (live : conn.Live) (pending : conn.io.ending = .pending)
    (unended : find crlf conn.stream = none) (enough : conn.undelivered.length < fuel) :
    (readLineLoop fuel conn).1 = .pending := by
  induction fuel generalizing conn with
  | zero => exact absurd enough (Nat.not_lt_zero _)
  | succ fuel ih =>
      have missing : find crlf conn.buf = none := by
        refine find_eq_none_iff.mpr fun found => find_eq_none_iff.mp unended ?_
        exact found.trans (List.prefix_append _ _).isInfix
      rw [readLineLoop, (Async.Runs.get conn).bind_eq]
      simp only [missing, live.eof, Bool.false_eq_true, and_false, if_false]
      by_cases delivered : conn.undelivered = []
      · rw [Async.bind_pending (fill_pending live delivered pending)]
      · obtain ⟨count, middle, fills, positive, advances, _, shrinks⟩ := fill_runs live delivered
        rw [fills.bind_eq, if_neg positive.ne']
        exact ih advances.live (advances.ending.trans pending) (fill_stream fills ▸ unended) (by omega)

theorem readLine_waits (live : conn.Live) (pending : conn.io.ending = .pending)
    (unended : find crlf conn.stream = none) :
    ∃ after, readLine conn = (.pending, after) ∧ after.buf = conn.stream ++ List.replicate readChunk 0 := by
  have waits : (readLine conn).1 = .pending := by
    rw [readLine, (Async.Runs.get conn).bind_eq]
    exact readLineLoop_waits live pending unended (Nat.lt_succ_self _)
  have ends : readLine conn = (.pending, (readLine conn).2) := Prod.ext waits rfl
  exact ⟨_, ends, (Dropped.line ends).padded.buf⟩

/-- A transport that has delivered less of the same bytes, however they are cut. -/
def Delivers (io io' : Transport) : Prop := io'.inbound.flatten <+: io.inbound.flatten

/-- A transport that delivers so much that the stream is cut, and waits. -/
theorem exists_delivers (opened : conn.eof = false) {cut : Nat} (behind : conn.buf.length ≤ cut) :
    ∃ io, Delivers conn.io io ∧ io.ending = .pending ∧ HttpConnection.Live { conn with io } ∧
      HttpConnection.stream { conn with io } = conn.stream.take cut := by
  let part := conn.undelivered.take (cut - conn.buf.length)
  let io : Transport := ⟨if part = [] then [] else [part], .pending, conn.io.outbound⟩
  have delivered : io.inbound.flatten = part := by
    by_cases nothing : part = []
    · simp [io, nothing]
    · simp [io, nothing]
  refine ⟨io, by rw [Delivers, delivered]; exact List.take_prefix _ _, rfl, ⟨fun segment member => ?_, opened⟩, ?_⟩
  · by_cases nothing : part = []
    · simp [io, nothing] at member
    · have same : segment = part := by simpa [io, nothing] using member
      rwa [same]
  · rw [stream, undelivered, delivered, stream, List.take_append, List.take_of_length_le behind]

/-- That the lines are short is just what it takes, where the end of one is still to come. -/
theorem readLine_bounded_iff (opened : conn.eof = false) (missing : find crlf conn.buf = none)
    (bounded : conn.Bounded) :
    (∀ io, Delivers conn.io io → (readLine { conn with io }).2.Bounded) ↔ ShortLine conn.stream := by
  constructor
  · intro every
    by_contra long
    obtain ⟨cut, beyond, behind, whole, unended⟩ := exists_cut_of_long long (List.prefix_append _ _) missing
    obtain ⟨io, delivers, pending, live, shape⟩ := exists_delivers opened behind
    obtain ⟨after, waits, buf⟩ := readLine_waits live pending (shape ▸ unended)
    have within := every io delivers
    rw [waits, Bounded, buf, shape, List.length_append, List.length_take_of_le whole,
      List.length_replicate] at within
    omega
  · intro short io delivers
    refine readLine_bounded (short.initial ?_) bounded
    exact (List.prefix_append_right_inj _).mpr delivers

end HttpConnection

namespace BodyReader

open HttpConnection

variable {reader : BodyReader} {capacity fuel : Nat}

def Bounded (reader : BodyReader) : Prop := reader.conn.Bounded

/-- What an action leaves of the connection. -/
theorem onConn_bounded {α : Type} {action : Async HttpError HttpConnection α}
    (bounded : (action reader.conn).2.Bounded) : (onConn action reader).2.Bounded := bounded

theorem readContentLength_bounded (bounded : reader.Bounded) :
    (readContentLength capacity reader).2.Bounded := by
  rw [readContentLength, (Async.Runs.get reader).bind_eq]
  split
  · exact bounded
  · have within := onConn_bounded (readRaw_bounded bounded (min capacity reader.remaining))
    refine Async.bind_leaves within fun data middle runs => ?_
    rw [runs] at within
    split <;> exact within

theorem readChunkData_bounded (bounded : reader.Bounded) :
    (readChunkData capacity reader).2.Bounded := by
  rw [readChunkData, (Async.Runs.get reader).bind_eq]
  have within := onConn_bounded (readRaw_bounded bounded (min capacity reader.chunkRemaining))
  refine Async.bind_leaves within fun data middle runs => ?_
  rw [runs] at within
  split
  · exact within
  · rw [(Async.Runs.modify _ middle).bind_eq, (Async.Runs.get _).bind_eq]
    split
    · have closed := @onConn_bounded { middle with
        chunkRemaining := middle.chunkRemaining - data.length } _ _ (expectExact_bounded within crlf)
      refine Async.bind_leaves closed fun _ last runs => ?_
      rw [runs] at closed
      exact closed
    · exact within

/-- A line that has been read is the first one of what was to come. -/
theorem readLine_found {line : Bytes} {after : BodyReader} (takes : (onConn readLine).Runs reader line after) :
    find crlf reader.conn.stream = some line.length ∧ reader.conn.stream.take line.length = line ∧
      reader.conn.stream.drop (line.length + 2) = after.conn.stream := by
  obtain ⟨takes, _⟩ := onConn_took takes
  obtain ⟨unbroken, stream⟩ := readLine_took takes
  refine ⟨?_, ?_, ?_⟩
  · rw [stream, find_crlf_line unbroken]
  · rw [stream, List.take_left]
  · rw [stream, ← List.drop_drop, List.drop_left]
    rfl

theorem skipTrailers_bounded (short : ∀ rest, TrailerAhead reader.conn.stream rest → ShortLine rest)
    (bounded : reader.Bounded) : (skipTrailers fuel reader).2.Bounded := by
  induction fuel generalizing reader with
  | zero => exact bounded
  | succ fuel ih =>
      have within := onConn_bounded (readLine_bounded (short _ (.first _)) bounded)
      refine Async.bind_leaves within fun trailer middle runs => ?_
      obtain ⟨found, _, behind⟩ := readLine_found runs
      rw [runs] at within
      split
      · exact within
      · next more =>
          refine ih (fun rest ahead => short rest (.next found ?_ (behind ▸ ahead))) within
          exact fun blank => more (List.eq_nil_of_length_eq_zero blank)

/-- The lines are short that the reader takes next, if it takes any. -/
def ShortLines (reader : BodyReader) (capacity : Nat) : Prop :=
  reader.finished = false → 0 < capacity → reader.kind = .chunked → reader.chunkRemaining = 0 →
    ∀ rest, LineAhead reader.conn.stream rest → ShortLine rest

theorem readChunked_bounded
    (short : reader.chunkRemaining = 0 → ∀ rest, LineAhead reader.conn.stream rest → ShortLine rest)
    (bounded : reader.Bounded) : (readChunked capacity reader).2.Bounded := by
  rw [readChunked, (Async.Runs.get reader).bind_eq]
  split
  · exact readChunkData_bounded bounded
  · next start =>
      have short := short (Nat.eq_zero_of_not_pos start)
      have within := onConn_bounded (readLine_bounded (short _ .size) bounded)
      refine Async.bind_leaves within fun line middle runs => ?_
      obtain ⟨found, front, behind⟩ := readLine_found runs
      rw [runs] at within
      cases parsed : parseChunkSize line with
      | error error => exact within
      | ok size =>
          rw [(Async.Runs.ofExcept middle size).bind_eq]
          split
          · next last =>
              rw [(Async.Runs.get middle).bind_eq]
              have skipped := @skipTrailers_bounded middle
                (middle.conn.buf.length + middle.conn.undelivered.length + 1)
                (fun rest ahead => short rest (.trailer found (by rw [front, parsed, last]) (behind ▸ ahead))) within
              refine Async.bind_leaves skipped fun _ last runs => ?_
              rw [runs] at skipped
              exact skipped
          · rw [(Async.Runs.modify _ middle).bind_eq]
            exact readChunkData_bounded within

theorem read_bounded (short : reader.ShortLines capacity) (bounded : reader.Bounded) :
    (read capacity reader).2.Bounded := by
  rw [read, (Async.Runs.get reader).bind_eq]
  split
  · exact bounded
  · next goes =>
      obtain ⟨unfinished, room⟩ := not_or.mp goes
      have within : (readFramed reader.kind capacity reader).2.Bounded := by
        cases kind : reader.kind with
        | empty => exact bounded
        | contentLength length => exact readContentLength_bounded bounded
        | untilEof => exact onConn_bounded (readRaw_bounded bounded capacity)
        | chunked =>
            exact readChunked_bounded
              (short (Bool.eq_false_iff.mpr unfinished) (Nat.pos_of_ne_zero room) kind) bounded
      refine Async.bind_leaves within fun data middle runs => ?_
      rw [runs] at within
      split <;> exact within

end BodyReader

/-! ## Everything that is read on one connection -/

/-- The reads on a connection. A body reader may be made at any time. -/
inductive Operation where
  | requestHead
  | responseHead
  | body (kind : BodyKind)
  | read (capacity : Nat)

namespace Operation

def perform : Operation → Async HttpError BodyReader Unit
  | requestHead => do
      let _ ← BodyReader.onConn HttpConnection.readRequestHead
      pure ()
  | responseHead => do
      let _ ← BodyReader.onConn HttpConnection.readResponseHead
      pure ()
  | body kind => Async.modify fun reader => .new reader.conn kind
  | read capacity => do
      let _ ← BodyReader.read capacity
      pure ()

end Operation

/-- A connection with its last body reader, and the call that waits, with the state in which it
began. -/
structure Session where
  reader : BodyReader
  call : Option (Operation × BodyReader)

namespace Session

inductive Event where
  | call (operation : Operation)
  | poll
  | drop
  | arrives (segments : List Bytes) (ending : Ending)

def fresh (io : Transport) : Session := ⟨.new (.new io) .empty, none⟩

/-- A call that goes on does what it would have done had everything been there when it began. -/
def go (operation : Operation) (began : BodyReader) : Session :=
  match operation.perform began with
  | (.pending, reader) => ⟨reader, some (operation, began)⟩
  | (_, reader) => ⟨reader, none⟩

def arrive (segments : List Bytes) (ending : Ending) (reader : BodyReader) : BodyReader :=
  { reader with conn := { reader.conn with io := { reader.conn.io with
    inbound := reader.conn.io.inbound ++ segments, ending } } }

def step (session : Session) : Event → Option Session
  | .call operation =>
      match session.call with
      | none => some (go operation session.reader)
      | some _ => none
  | .poll => session.call.map fun (operation, began) => go operation began
  | .drop => session.call.map fun _ => { session with call := none }
  | .arrives segments ending =>
      match session.reader.conn.io.ending with
      | .pending => some ⟨arrive segments ending session.reader,
          session.call.map fun (operation, began) => (operation, arrive segments ending began)⟩
      | _ => none

variable {session next : Session} {operation : Operation} {began : BodyReader}

/-- The lines that an operation reads are short. -/
def Short : Operation → BodyReader → Prop
  | .read capacity, reader => reader.ShortLines capacity
  | _, _ => True

/-- No line of a chunked body is longer than a head may be. -/
def LinesShort (session : Session) : Event → Prop
  | .call operation => Short operation session.reader
  | .poll => ∀ operation began, session.call = some (operation, began) → Short operation began
  | _ => True

def Bounded (session : Session) : Prop :=
  session.reader.Bounded ∧ ∀ operation began, session.call = some (operation, began) → began.Bounded

theorem perform_bounded (short : Short operation began) (bounded : began.Bounded) :
    (operation.perform began).2.Bounded := by
  have dropped : ∀ {α : Type} {action : Async HttpError BodyReader α}, (action began).2.Bounded →
      ((do let _ ← action; pure () : Async HttpError BodyReader Unit) began).2.Bounded := by
    intro α action within
    refine Async.bind_leaves within fun _ middle runs => ?_
    rw [runs] at within
    exact within
  cases operation with
  | requestHead => exact dropped (BodyReader.onConn_bounded (HttpConnection.readRequestHead_bounded bounded))
  | responseHead => exact dropped (BodyReader.onConn_bounded (HttpConnection.readResponseHead_bounded bounded))
  | body kind => exact bounded
  | read capacity => exact dropped (BodyReader.read_bounded short bounded)

theorem go_bounded (short : Short operation began) (bounded : began.Bounded) : (go operation began).Bounded := by
  have within := perform_bounded short bounded
  unfold go
  cases ends : operation.perform began with
  | mk outcome reader =>
      rw [ends] at within
      cases outcome with
      | pending =>
          refine ⟨within, fun other start same => ?_⟩
          cases same
          exact bounded
      | ready | failed =>
          refine ⟨within, fun other start same => ?_⟩
          cases same

theorem step_bounded {event : Event} (bounded : session.Bounded) (steps : step session event = some next)
    (short : LinesShort session event) : next.Bounded := by
  cases event with
  | call operation =>
      rw [step] at steps
      split at steps
      · cases steps
        exact go_bounded short bounded.1
      · cases steps
  | poll =>
      obtain ⟨⟨operation, began⟩, called, rfl⟩ := Option.map_eq_some_iff.mp steps
      exact go_bounded (short _ _ called) (bounded.2 _ _ called)
  | drop =>
      obtain ⟨_, _, rfl⟩ := Option.map_eq_some_iff.mp steps
      refine ⟨bounded.1, fun other start same => ?_⟩
      cases same
  | arrives segments ending =>
      rw [step] at steps
      split at steps
      · cases steps
        refine ⟨bounded.1, fun other start same => ?_⟩
        obtain ⟨⟨operation, began⟩, called, same⟩ := Option.map_eq_some_iff.mp same
        cases same
        have held : began.Bounded := bounded.2 _ _ called
        exact held
      · cases steps

section Chunked

variable {line : Bytes}

end Chunked

end Session

end TptAsync.Http
