import TptAsync.Http.BodyReaderProperties

set_option autoImplicit false

/-!
# What a drained body was

Whatever bytes a connection carries, a read that finishes has taken what it returns off the front.
So a body that has been read to its end was there, in its framing, and what is left stood behind it.
-/

namespace TptAsync.Http

open Lib

namespace HttpConnection

variable {conn after : HttpConnection} {data : Bytes}

theorem readRaw_took {capacity : Nat} (reads : (readRaw capacity).Runs conn data after) :
    data.length ≤ capacity ∧ conn.stream = data ++ after.stream := by
  rw [Async.Runs, readRaw, (Async.Runs.get conn).bind_eq] at reads
  by_cases buffered : conn.buf = []
  · rw [if_neg (fun more => more buffered)] at reads
    obtain ⟨io, polls, rfl⟩ := Async.Runs.of_zoom reads
    obtain ⟨fits, delivered⟩ := pollRead_took polls
    refine ⟨fits, ?_⟩
    rw [stream, stream, buffered, List.nil_append]
    exact delivered
  · rw [if_pos buffered] at reads
    cases reads
    refine ⟨List.length_take_le _ _, ?_⟩
    simp only [stream, undelivered, ← List.append_assoc, List.take_append_drop]

theorem readLineLoop_took {fuel : Nat} (reads : (readLineLoop fuel).Runs conn data after) :
    ¬ crlf <:+: data ∧ conn.stream = data ++ (crlf ++ after.stream) := by
  induction fuel generalizing conn with
  | zero => cases reads
  | succ fuel ih =>
      rw [Async.Runs, readLineLoop, (Async.Runs.get conn).bind_eq] at reads
      cases found : find crlf conn.buf with
      | some position =>
          rw [found] at reads
          cases reads
          obtain ⟨here, _, first⟩ := find_eq_some_iff.mp found
          obtain ⟨tail, shape⟩ := here
          have back : conn.buf.drop (position + 2) = tail := by
            rw [← List.drop_drop, ← shape]
            rfl
          constructor
          · exact find_front found (List.cons_ne_nil _ _)
          · simp only [stream, undelivered, back]
            rw [← List.append_assoc crlf, shape, ← List.append_assoc, List.take_append_drop]
      | none =>
          rw [found] at reads
          dsimp only at reads
          split at reads
          · cases reads
          · obtain ⟨count, middle, fills, reads⟩ := Async.Runs.of_bind reads
            split at reads
            · cases reads
            · obtain ⟨unbroken, shape⟩ := ih reads
              exact ⟨unbroken, (fill_stream fills).symm.trans shape⟩

theorem readLine_took (reads : readLine.Runs conn data after) :
    ¬ crlf <:+: data ∧ conn.stream = data ++ (crlf ++ after.stream) := by
  rw [Async.Runs, readLine, (Async.Runs.get conn).bind_eq] at reads
  exact readLineLoop_took reads

theorem expectLoop_took {fuel missing : Nat} {got : Bytes}
    (reads : (expectLoop fuel missing got).Runs conn data after) :
    ∃ more, data = got ++ more ∧ conn.stream = more ++ after.stream := by
  induction fuel generalizing conn missing got with
  | zero => cases reads
  | succ fuel ih =>
      rw [expectLoop] at reads
      split at reads
      · obtain ⟨part, middle, takes, reads⟩ := reads.of_bind
        split at reads
        · cases reads
        · obtain ⟨more, shape, stream⟩ := ih reads
          refine ⟨part ++ more, by rw [shape, List.append_assoc], ?_⟩
          rw [(readRaw_took takes).2, stream, List.append_assoc]
      · cases reads
        exact ⟨[], (List.append_nil _).symm, rfl⟩

theorem expectExact_took {expected : Bytes} (expects : (expectExact expected).Runs conn () after) :
    conn.stream = expected ++ after.stream := by
  obtain ⟨got, middle, takes, expects⟩ := expects.of_bind
  obtain ⟨more, shape, stream⟩ := expectLoop_took takes
  split at expects
  · cases expects
  · next same =>
      cases expects
      rw [stream, ← not_not.mp same, shape, List.nil_append]

end HttpConnection

namespace BodyReader

open HttpConnection

variable {reader middle after : BodyReader} {capacity : Nat} {data left rest : Bytes}

/-- Reads that return something, and one that returns nothing. -/
inductive Drains : BodyReader → BodyReader → Prop
  | ends {capacity : Nat} {reader after : BodyReader} (room : 0 < capacity)
      (reads : (read capacity).Runs reader [] after) : Drains reader after
  | reads {capacity : Nat} {reader middle after : BodyReader} {data : Bytes} (room : 0 < capacity)
      (nonempty : data ≠ []) (reads : (read capacity).Runs reader data middle)
      (rest : Drains middle after) : Drains reader after

theorem readToVecLoop_drains {max fuel : Nat} {out : Bytes}
    (reads : (readToVecLoop max fuel out).Runs reader data after) : reader.Drains after := by
  induction fuel generalizing reader out with
  | zero => cases reads
  | succ fuel ih =>
      obtain ⟨part, middle, takes, reads⟩ := reads.of_bind
      have room : 0 < 8192 := by decide
      by_cases nothing : part = []
      · rw [nothing] at takes reads
        cases reads
        exact .ends room takes
      · rw [if_neg (List.length_pos_of_ne_nil nothing).ne'] at reads
        split at reads
        · cases reads
        · exact .reads room nothing takes (ih reads)

/-- A body that has been read as a whole has been drained. -/
theorem readToVec_drains {max : Nat} (reads : (readToVec max).Runs reader data after) :
    reader.Drains after := by
  rw [Async.Runs, readToVec, (Async.Runs.get reader).bind_eq] at reads
  exact readToVecLoop_drains reads

section Kind

theorem onConn_keeps {α : Type} (action : Async HttpError HttpConnection α) :
    (onConn action).Keeps BodyReader.kind := .zoom fun _ => rfl

theorem readContentLength_keeps (capacity : Nat) : (readContentLength capacity).Keeps BodyReader.kind := by
  refine .bind .get fun reader => ?_
  split
  · exact .pure _
  · refine .bind (onConn_keeps _) fun data => ?_
    split
    · exact .fail _
    · exact .bind (.modify fun _ => rfl) fun _ => .pure _

theorem readChunkData_keeps (capacity : Nat) : (readChunkData capacity).Keeps BodyReader.kind := by
  refine .bind .get fun reader => .bind (onConn_keeps _) fun data => ?_
  split
  · exact .fail _
  · refine .bind (.modify fun _ => rfl) fun _ => .bind .get fun reader => ?_
    split
    · exact .bind (onConn_keeps _) fun _ => .pure _
    · exact .pure _

theorem skipTrailers_keeps (fuel : Nat) : (skipTrailers fuel).Keeps BodyReader.kind := by
  induction fuel with
  | zero => exact .wait
  | succ fuel ih =>
      refine .bind (onConn_keeps _) fun trailer => ?_
      split
      · exact .pure _
      · exact ih

theorem readChunked_keeps (capacity : Nat) : (readChunked capacity).Keeps BodyReader.kind := by
  refine .bind .get fun reader => ?_
  split
  · exact readChunkData_keeps capacity
  · refine .bind (onConn_keeps _) fun line => .bind (.ofExcept _) fun size => ?_
    split
    · refine .bind .get fun reader => .bind (skipTrailers_keeps _) fun _ => ?_
      exact .bind (.modify fun _ => rfl) fun _ => .pure _
    · exact .bind (.modify fun _ => rfl) fun _ => readChunkData_keeps capacity

theorem read_keeps (capacity : Nat) : (read capacity).Keeps BodyReader.kind := by
  refine .bind .get fun reader => ?_
  split
  · exact .pure _
  · refine .bind ?_ fun data => ?_
    · cases reader.kind with
      | empty => exact .pure _
      | contentLength length => exact readContentLength_keeps capacity
      | chunked => exact readChunked_keeps capacity
      | untilEof => exact onConn_keeps _
    · split
      · exact .bind (.modify fun _ => rfl) fun _ => .pure _
      · exact .pure _

end Kind

section Backwards

theorem onConn_took {α : Type} {action : Async HttpError HttpConnection α} {value : α}
    (runs : (onConn action).Runs reader value after) :
    action.Runs reader.conn value after.conn ∧ after = { reader with conn := after.conn } := by
  obtain ⟨conn, acts, rfl⟩ := Async.Runs.of_zoom runs
  exact ⟨acts, rfl⟩

theorem readContentLength_took (reads : (readContentLength capacity).Runs reader data after) :
    reader.conn.stream = data ++ after.conn.stream ∧ after.finished = reader.finished ∧
      reader.remaining = data.length + after.remaining ∧ (data = [] → reader.remaining = 0) := by
  rw [Async.Runs, readContentLength, (Async.Runs.get reader).bind_eq] at reads
  by_cases nothing : reader.remaining = 0
  · rw [if_pos nothing] at reads
    cases reads
    exact ⟨rfl, rfl, (Nat.zero_add _).symm, fun _ => nothing⟩
  · rw [if_neg nothing] at reads
    obtain ⟨part, middle, takes, reads⟩ := Async.Runs.of_bind reads
    obtain ⟨takes, shape⟩ := onConn_took takes
    obtain ⟨fits, stream⟩ := readRaw_took takes
    split at reads
    · cases reads
    · next positive =>
        cases reads
        rw [shape]
        refine ⟨stream, rfl, ?_, fun none => absurd (congrArg List.length none) positive⟩
        simp only
        omega

theorem readChunkData_took (reads : (readChunkData capacity).Runs reader data after) :
    data ≠ [] ∧ after.finished = reader.finished ∧
      reader.chunkRemaining = data.length + after.chunkRemaining ∧
      reader.conn.stream =
        data ++ ((if after.chunkRemaining = 0 then crlf else []) ++ after.conn.stream) := by
  rw [Async.Runs, readChunkData, (Async.Runs.get reader).bind_eq] at reads
  obtain ⟨part, middle, takes, reads⟩ := Async.Runs.of_bind reads
  obtain ⟨takes, shape⟩ := onConn_took takes
  obtain ⟨fits, stream⟩ := readRaw_took takes
  split at reads
  · cases reads
  · next positive =>
      have someBytes : part ≠ [] := fun none => positive (congrArg List.length none)
      have counted : reader.chunkRemaining = part.length + (reader.chunkRemaining - part.length) := by
        omega
      rw [Async.Runs, (Async.Runs.modify _ middle).bind_eq, (Async.Runs.get _).bind_eq, shape] at reads
      split at reads
      · next spent =>
          obtain ⟨_, last, expects, reads⟩ := Async.Runs.of_bind reads
          obtain ⟨expects, shape⟩ := onConn_took expects
          cases reads
          rw [shape]
          refine ⟨someBytes, rfl, counted, ?_⟩
          rw [if_pos spent, stream]
          exact congrArg (data ++ ·) (expectExact_took expects)
      · next more =>
          cases reads
          refine ⟨someBytes, rfl, counted, ?_⟩
          rw [if_neg more]
          exact stream

theorem skipTrailers_took {fuel : Nat} (skips : (skipTrailers fuel).Runs reader () after) :
    ∃ trailers : List Bytes, (∀ trailer ∈ trailers, ¬ crlf <:+: trailer ∧ trailer ≠ []) ∧
      reader.conn.stream = trailers.flatMap (· ++ crlf) ++ (crlf ++ after.conn.stream) := by
  induction fuel generalizing reader with
  | zero => cases skips
  | succ fuel ih =>
      obtain ⟨trailer, middle, takes, skips⟩ := skips.of_bind
      obtain ⟨takes, shape⟩ := onConn_took takes
      obtain ⟨unbroken, stream⟩ := readLine_took takes
      split at skips
      · next blank =>
          cases skips
          refine ⟨[], fun trailer member => absurd member (List.not_mem_nil), ?_⟩
          rw [stream, blank]
          rfl
      · next nonempty =>
          obtain ⟨trailers, lines, further⟩ := ih skips
          refine ⟨trailer :: trailers, List.forall_mem_cons.mpr ⟨⟨unbroken, nonempty⟩, lines⟩, ?_⟩
          rw [stream, further, List.flatMap_cons, List.append_assoc, List.append_assoc]

/-- What the reader held before a part of a chunk was read. -/
theorem Holds.of_chunkData (reads : (readChunkData capacity).Runs reader data after)
    (kind : after.kind = .chunked) (unfinished : reader.finished = false) (holds : Holds after rest left) :
    ∃ whole wire body, whole.length = reader.chunkRemaining ∧ whole ≠ [] ∧ Chunks wire body ∧
      reader.conn.stream = whole ++ (crlf ++ (wire ++ rest)) ∧ data ++ left = whole ++ body := by
  obtain ⟨someBytes, same, counted, stream⟩ := readChunkData_took reads
  cases holds with
  | done finished _ => simp [finished, unfinished] at same
  | contentLength other _ _ _ => simp [kind] at other
  | @chunkStart wire body _ _ spent chunked shape =>
      rw [if_pos spent, shape] at stream
      exact ⟨data, wire, left, by omega, someBytes, chunked, stream, rfl⟩
  | @chunkData more wire body _ _ remaining nonempty chunked shape =>
      have positive := List.length_pos_of_ne_nil nonempty
      rw [if_neg (by omega), shape, List.nil_append, ← List.append_assoc] at stream
      refine ⟨data ++ more, wire, body, ?_, fun none => someBytes (List.append_eq_nil_iff.mp none).1,
        chunked, stream, (List.append_assoc _ _ _).symm⟩
      rw [List.length_append]
      omega

/-- Where a chunk begins, its first line is read. -/
theorem readChunked_start (start : reader.chunkRemaining = 0)
    (reads : (readChunked capacity).Runs reader data after) :
    ∃ line size conn, SizeRead line size ∧ reader.conn.stream = line ++ (crlf ++ conn.stream) ∧
      (size = 0 ∧ data = [] ∧ (∃ trailers : List Bytes,
          (∀ trailer ∈ trailers, ¬ crlf <:+: trailer ∧ trailer ≠ []) ∧
          conn.stream = trailers.flatMap (· ++ crlf) ++ (crlf ++ after.conn.stream)) ∨
        0 < size ∧
          (readChunkData capacity).Runs { reader with conn, chunkRemaining := size } data after) := by
  rw [Async.Runs, readChunked, (Async.Runs.get reader).bind_eq, start, if_neg (Nat.lt_irrefl 0)] at reads
  obtain ⟨line, middle, takes, reads⟩ := Async.Runs.of_bind reads
  obtain ⟨takes, shape⟩ := onConn_took takes
  obtain ⟨unbroken, stream⟩ := readLine_took takes
  obtain ⟨size, _, parses, reads⟩ := Async.Runs.of_bind reads
  obtain ⟨parsed, same⟩ := parses.of_ofExcept
  rw [same] at reads
  refine ⟨line, size, middle.conn, ⟨unbroken, parsed⟩, stream, ?_⟩
  split at reads
  · next last =>
      rw [Async.Runs, (Async.Runs.get middle).bind_eq] at reads
      obtain ⟨_, skipped, skips, reads⟩ := Async.Runs.of_bind reads
      have trailers := skipTrailers_took skips
      cases reads
      exact .inl ⟨last, rfl, trailers⟩
  · next more =>
      rw [Async.Runs, (Async.Runs.modify _ middle).bind_eq, shape] at reads
      exact .inr ⟨Nat.pos_of_ne_zero more, reads⟩

/-- What a read does with a reader that has not finished. -/
theorem read_of_unfinished (room : 0 < capacity) (unfinished : reader.finished = false)
    (reads : (read capacity).Runs reader data after) :
    ∃ middle, (readFramed reader.kind capacity).Runs reader data middle ∧
      after = if data = [] then { middle with finished := true } else middle := by
  rw [Async.Runs, read, (Async.Runs.get reader).bind_eq, if_neg (by simp [unfinished, room.ne'])] at reads
  obtain ⟨part, middle, takes, reads⟩ := Async.Runs.of_bind reads
  by_cases nothing : part = []
  · rw [nothing] at takes reads
    cases reads
    exact ⟨middle, takes, rfl⟩
  · rw [if_neg (List.length_pos_of_ne_nil nothing).ne'] at reads
    cases reads
    exact ⟨_, takes, (if_neg nothing).symm⟩

theorem read_of_finished (finished : reader.finished = true)
    (reads : (read capacity).Runs reader data after) : data = [] ∧ after = reader := by
  rw [Async.Runs, read, (Async.Runs.get reader).bind_eq, if_pos (.inl finished)] at reads
  cases reads
  exact ⟨rfl, rfl⟩

/-- A framing in which the body says where it ends. -/
def Delimits : BodyKind → Prop
  | .contentLength _ => True
  | .chunked => True
  | .empty => False
  | .untilEof => False

/-- A read that returns nothing was the last one. -/
theorem Holds.of_last (room : 0 < capacity) (delimits : reader.finished = true ∨ Delimits reader.kind)
    (reads : (read capacity).Runs reader [] after) : Holds reader after.conn.stream [] := by
  cases unfinished : reader.finished with
  | true =>
      obtain ⟨_, rfl⟩ := read_of_finished unfinished reads
      exact .done unfinished rfl
  | false =>
      obtain ⟨middle, takes, rfl⟩ := read_of_unfinished room unfinished reads
      cases kind : reader.kind with
      | empty | untilEof => simp [kind, Delimits, unfinished] at delimits
      | contentLength length =>
          rw [kind] at takes
          obtain ⟨stream, _, _, spent⟩ := readContentLength_took takes
          exact .contentLength kind unfinished (spent rfl) stream
      | chunked =>
          rw [kind] at takes
          have spent : reader.chunkRemaining = 0 := by
            by_contra more
            rw [readFramed, readChunked, Async.Runs, (Async.Runs.get reader).bind_eq,
              if_pos (Nat.pos_of_ne_zero more)] at takes
            exact (readChunkData_took takes).1 rfl
          obtain ⟨line, size, conn, sizeRead, stream, last | more⟩ := readChunked_start spent takes
          · obtain ⟨rfl, _, trailers, lines, further⟩ := last
            refine .chunkStart kind unfinished spent (.last sizeRead trailers lines) ?_
            rw [stream, further]
            simp only [List.append_assoc]
            rfl
          · exact absurd rfl (readChunkData_took more.2).1

/-- What the reader held before a read that returned something. -/
theorem Holds.of_read (room : 0 < capacity) (delimits : Delimits reader.kind) (nonempty : data ≠ [])
    (reads : (read capacity).Runs reader data after) (holds : Holds after rest left) :
    Holds reader rest (data ++ left) := by
  have kept := (read_keeps capacity).of_runs reads
  cases unfinished : reader.finished with
  | true => exact absurd (read_of_finished unfinished reads).1 nonempty
  | false =>
      obtain ⟨middle, takes, rfl⟩ := read_of_unfinished room unfinished reads
      rw [if_neg nonempty] at kept holds
      cases kind : reader.kind with
      | empty | untilEof => simp [kind, Delimits] at delimits
      | contentLength length =>
          rw [kind] at takes
          obtain ⟨stream, same, counted, _⟩ := readContentLength_took takes
          cases holds with
          | done finished _ => simp [finished, unfinished] at same
          | contentLength _ _ remaining shape =>
              refine .contentLength kind unfinished ?_ ?_
              · rw [counted, remaining, List.length_append]
              · rw [stream, shape, List.append_assoc]
          | chunkStart other _ _ _ _ => simp [kept, kind] at other
          | chunkData other _ _ _ _ _ => simp [kept, kind] at other
      | chunked =>
          rw [kind] at takes kept
          by_cases start : reader.chunkRemaining = 0
          · obtain ⟨line, size, conn, sizeRead, stream, last | more⟩ := readChunked_start start takes
            · exact absurd last.2.1 nonempty
            · obtain ⟨whole, wire, body, length, someBytes, chunked, shape, same⟩ :=
                Holds.of_chunkData more.2 kept unfinished holds
              have length : whole.length = size := length
              have shape : conn.stream = whole ++ (crlf ++ (wire ++ rest)) := shape
              rw [same]
              refine .chunkStart kind unfinished start (.chunk (length ▸ sizeRead) someBytes chunked) ?_
              rw [stream, shape]
              simp only [List.append_assoc]
          · rw [readFramed, readChunked, Async.Runs, (Async.Runs.get reader).bind_eq,
              if_pos (Nat.pos_of_ne_zero start)] at takes
            obtain ⟨whole, wire, body, length, someBytes, chunked, shape, same⟩ :=
              Holds.of_chunkData takes kept unfinished holds
            rw [same]
            exact .chunkData kind unfinished length.symm someBytes chunked shape

/-- A body that has been drained was there. -/
theorem Holds.of_drains (delimits : reader.finished = true ∨ Delimits reader.kind)
    (drains : reader.Drains after) : ∃ body, Holds reader after.conn.stream body := by
  induction drains with
  | ends room reads => exact ⟨[], .of_last room delimits reads⟩
  | @reads capacity reader middle after data room nonempty reads _ ih =>
      have delimits : Delimits reader.kind := by
        refine delimits.resolve_left fun finished => ?_
        exact nonempty (read_of_finished finished reads).1
      have kept := (read_keeps capacity).of_runs reads
      obtain ⟨left, holds⟩ := ih (.inr (kept ▸ delimits))
      exact ⟨data ++ left, holds.of_read room delimits nonempty reads⟩

end Backwards

section Frames

variable {conn : HttpConnection} {kind : BodyKind} {wire : Bytes}

/-- A body as a reader with this framing finds it. -/
inductive Frames : BodyKind → Bytes → Prop
  | empty : Frames .empty []
  | contentLength (body : Bytes) : Frames (.contentLength body.length) body
  | chunked {wire body : Bytes} (chunks : Chunks wire body) : Frames .chunked wire

theorem Frames.holds (frames : Frames kind wire) (stream : conn.stream = wire ++ rest) :
    ∃ body, Holds (new conn kind) rest body := by
  cases frames with
  | empty => exact ⟨[], .done rfl stream⟩
  | contentLength => exact ⟨wire, .new_contentLength stream⟩
  | chunked chunks => exact ⟨_, .new_chunked chunks stream⟩

/-- What has been drained is a body in its framing. -/
theorem Frames.of_drains (delimited : kind ≠ .untilEof) (drains : (new conn kind).Drains after) :
    ∃ wire, Frames kind wire ∧ conn.stream = wire ++ after.conn.stream := by
  have ends : (new conn kind).finished = true ∨ Delimits (new conn kind).kind := by
    cases kind with
    | empty => exact .inl rfl
    | contentLength | chunked => exact .inr trivial
    | untilEof => exact absurd rfl delimited
  obtain ⟨body, holds⟩ := Holds.of_drains ends drains
  cases holds with
  | done finished stream =>
      have same : conn.stream = after.conn.stream := stream
      cases kind with
      | empty => exact ⟨[], .empty, same⟩
      | contentLength length =>
          have zero : length = 0 := by simpa [new] using finished
          subst zero
          exact ⟨[], .contentLength [], same⟩
      | chunked | untilEof => cases finished
  | contentLength framing unfinished remaining stream =>
      cases kind with
      | contentLength length =>
          have size : length = body.length := remaining
          subst size
          exact ⟨body, .contentLength body, stream⟩
      | empty | chunked | untilEof => cases framing
  | chunkStart framing unfinished remaining chunks stream =>
      cases kind with
      | chunked => exact ⟨_, .chunked chunks, stream⟩
      | empty | contentLength | untilEof => cases framing
  | chunkData framing unfinished remaining nonempty chunks stream =>
      have none : (new conn kind).chunkRemaining = 0 := rfl
      exact absurd (List.length_eq_zero_iff.mp (remaining.symm.trans none)) nonempty

end Frames

end BodyReader

end TptAsync.Http
