import TptAsync.Http.Connection

set_option autoImplicit false

/-!
# Reading a stream in segments

However the transport cuts the stream, a read that finishes takes bytes off its front.
What a reader sees depends on the stream only, never on the segments.
-/

namespace TptAsync.Http

open Lib

/-- The bytes still to be consumed, buffered or not. -/
def HttpConnection.stream (conn : HttpConnection) : Bytes := conn.buf ++ conn.undelivered

/-- No read returns zero bytes before the end of the stream. -/
structure HttpConnection.Live (conn : HttpConnection) : Prop where
  segments : ∀ segment ∈ conn.io.inbound, segment ≠ []
  eof : conn.eof = false

/-- The connection has moved past `taken`. -/
structure HttpConnection.Advances (before : HttpConnection) (taken : Bytes)
    (after : HttpConnection) : Prop where
  stream : before.stream = taken ++ after.stream
  live : after.Live
  ending : after.io.ending = before.io.ending
  outbound : after.io.outbound = before.io.outbound

namespace HttpConnection

variable {conn before middle after : HttpConnection} {taken more : Bytes}

theorem Advances.refl (live : conn.Live) : conn.Advances [] conn := ⟨rfl, live, rfl, rfl⟩

theorem Advances.trans (first : before.Advances taken middle) (second : middle.Advances more after) :
    before.Advances (taken ++ more) after where
  stream := by rw [first.stream, second.stream, List.append_assoc]
  live := second.live
  ending := second.ending.trans first.ending
  outbound := second.outbound.trans first.outbound

theorem pollRead_runs {io : Transport} {capacity : Nat}
    (segments : ∀ segment ∈ io.inbound, segment ≠ []) (arrives : io.inbound ≠ [])
    (room : 0 < capacity) :
    ∃ data inbound, (Transport.pollRead capacity).Runs io data { io with inbound } ∧
      data ≠ [] ∧ data.length ≤ capacity ∧ io.inbound.flatten = data ++ inbound.flatten ∧
      ∀ segment ∈ inbound, segment ≠ [] := by
  cases shape : io.inbound with
  | nil => exact absurd shape arrives
  | cons segment rest =>
      have nonempty : segment ≠ [] := segments segment (by simp [shape])
      refine ⟨segment.take capacity,
        if segment.length ≤ capacity then rest else segment.drop capacity :: rest, ?_, ?_,
        List.length_take_le _ _, ?_, ?_⟩
      · rw [Async.Runs, Transport.pollRead, shape]
      · cases segment with
        | nil => exact absurd rfl nonempty
        | cons byte bytes =>
            obtain ⟨smaller, rfl⟩ := Nat.exists_eq_succ_of_ne_zero room.ne'
            simp
      · split
        · next whole => rw [List.take_of_length_le whole, List.flatten_cons]
        · rw [List.flatten_cons, List.flatten_cons, ← List.append_assoc, List.take_append_drop]
      · intro other member
        split at member
        · exact segments other (by simp [shape, member])
        · next longer =>
            rcases List.mem_cons.mp member with rfl | later
            · exact List.ne_nil_of_length_pos (by rw [List.length_drop]; omega)
            · exact segments other (by simp [shape, later])

/-- What a read returns comes off the front. -/
theorem pollRead_took {capacity : Nat} {io io' : Transport} {data : Bytes}
    (reads : (Transport.pollRead capacity).Runs io data io') :
    data.length ≤ capacity ∧ io.inbound.flatten = data ++ io'.inbound.flatten := by
  unfold Async.Runs Transport.pollRead at reads
  split at reads
  · next segment rest shape =>
      cases reads
      refine ⟨List.length_take_le _ _, ?_⟩
      rw [shape, List.flatten_cons]
      dsimp only
      split
      · next whole => rw [List.take_of_length_le whole]
      · rw [List.flatten_cons, ← List.append_assoc, List.take_append_drop]
  · split at reads <;> cases reads
    exact ⟨Nat.zero_le _, rfl⟩

theorem inbound_ne_nil (missing : conn.undelivered ≠ []) : conn.io.inbound ≠ [] := by
  intro empty
  exact missing (by rw [undelivered, empty, List.flatten_nil])

/-- More of the stream has come into the buffer. -/
structure Buffers (before after : HttpConnection) : Prop where
  stream : after.stream = before.stream
  segments : ∀ segment ∈ after.io.inbound, segment ≠ []
  eof : after.eof = before.eof
  ending : after.io.ending = before.io.ending
  outbound : after.io.outbound = before.io.outbound
  grows : after.buf.length ≤ before.buf.length + readChunk
  shrinks : after.undelivered.length < before.undelivered.length

/-- The connection while a read into its buffer waits. -/
def grown (conn : HttpConnection) : HttpConnection :=
  { conn with buf := conn.buf ++ List.replicate readChunk 0 }

theorem fill_eq (conn : HttpConnection) :
    fill conn = match Transport.pollRead readChunk conn.io with
      | (.ready data, io) => (.ready data.length,
          ⟨io, conn.buf ++ data, if data.length = 0 then true else conn.eof⟩)
      | (.failed error, io) => (.failed error, { conn with io })
      | (.pending, io) => (.pending, { conn.grown with io }) := by
  have reads : onIo (Transport.pollRead readChunk) conn.grown =
      ((Transport.pollRead readChunk conn.io).1,
        { conn.grown with io := (Transport.pollRead readChunk conn.io).2 }) := rfl
  have cutBack : conn.grown.buf.take conn.buf.length = conn.buf := List.take_left
  rw [fill, (Async.Runs.get conn).bind_eq, (Async.Runs.modify _ conn).bind_eq]
  change ((onIo (Transport.pollRead readChunk)).attempt >>= _) conn.grown = _
  cases ends : Transport.pollRead readChunk conn.io with
  | mk outcome io =>
      rw [ends] at reads
      cases outcome with
      | ready data =>
          rw [(Async.Runs.attempt reads).bind_eq]
          exact congrArg (fun buf => (Outcome.ready data.length,
            HttpConnection.mk io (buf ++ data) (if data.length = 0 then true else conn.eof))) cutBack
      | failed error =>
          rw [(Async.Runs.attempt_failed reads).bind_eq]
          exact congrArg (fun buf => (Outcome.failed error, HttpConnection.mk io buf conn.eof)) cutBack
      | pending =>
          refine Async.bind_pending ?_
          rw [Async.attempt, reads]

theorem fill_of_runs {count : Nat} (fills : fill.Runs conn count after) :
    ∃ data io, (Transport.pollRead readChunk).Runs conn.io data io ∧ count = data.length ∧
      after = ⟨io, conn.buf ++ data, if data.length = 0 then true else conn.eof⟩ := by
  rw [Async.Runs, fill_eq] at fills
  cases reads : Transport.pollRead readChunk conn.io with
  | mk outcome io =>
      rw [reads] at fills
      cases outcome with
      | ready data =>
          cases fills
          exact ⟨data, io, reads, rfl, rfl⟩
      | failed error | pending => cases fills

theorem fill_took {count : Nat} (fills : fill.Runs conn count after) :
    ∃ data, data.length = count ∧ after.buf = conn.buf ++ data ∧
      conn.undelivered = data ++ after.undelivered := by
  obtain ⟨data, io, reads, rfl, rfl⟩ := fill_of_runs fills
  exact ⟨data, rfl, rfl, (pollRead_took reads).2⟩

theorem fill_stream {count : Nat} (fills : fill.Runs conn count after) :
    after.stream = conn.stream := by
  obtain ⟨data, _, buf, delivered⟩ := fill_took fills
  rw [stream, stream, buf, delivered, List.append_assoc]

theorem fill_buffers (segments : ∀ segment ∈ conn.io.inbound, segment ≠ [])
    (missing : conn.undelivered ≠ []) :
    ∃ count after, fill.Runs conn count after ∧ 0 < count ∧ Buffers conn after := by
  obtain ⟨data, inbound, reads, nonempty, fits, delivered, segments⟩ :=
    pollRead_runs segments (inbound_ne_nil missing) (show 0 < readChunk by decide)
  have positive : 0 < data.length := List.length_pos_of_ne_nil nonempty
  let after : HttpConnection :=
    { conn with io := { conn.io with inbound }, buf := conn.buf ++ data }
  refine ⟨data.length, after, ?_, positive, ⟨?_, segments, rfl, rfl, rfl, ?_, ?_⟩⟩
  · rw [Async.Runs, fill_eq, reads]
    simp only [if_neg positive.ne', after]
  · simp only [stream, undelivered, delivered, after, List.append_assoc]
  · simp only [after, List.length_append]
    omega
  · simp only [undelivered, delivered, after, List.length_append]
    omega

theorem fill_runs (live : conn.Live) (missing : conn.undelivered ≠ []) :
    ∃ count after, fill.Runs conn count after ∧ 0 < count ∧ conn.Advances [] after ∧
      after.buf.length ≤ conn.buf.length + readChunk ∧
      after.undelivered.length < conn.undelivered.length := by
  obtain ⟨count, after, fills, positive, buffers⟩ := fill_buffers live.segments missing
  have still : after.Live := ⟨buffers.segments, buffers.eof.trans live.eof⟩
  exact ⟨count, after, fills, positive, ⟨buffers.stream.symm, still, buffers.ending, buffers.outbound⟩,
    buffers.grows, buffers.shrinks⟩

theorem fill_advances {count : Nat} (live : conn.Live) (fills : fill.Runs conn count after)
    (some : count ≠ 0) : conn.Advances [] after := by
  obtain ⟨data, length, _, delivered⟩ := fill_took fills
  have missing : conn.undelivered ≠ [] := by
    intro none
    rw [none, eq_comm, List.append_eq_nil_iff] at delivered
    exact some (length.symm.trans (congrArg List.length delivered.1))
  obtain ⟨_, _, again, _, advances, _⟩ := fill_runs live missing
  exact (fills.unique again).2 ▸ advances

/-- A read that is not at the end of the stream takes at least one byte. -/
theorem readRaw_runs {capacity : Nat} (live : conn.Live) (more : conn.stream ≠ [])
    (room : 0 < capacity) :
    ∃ data after, (readRaw capacity).Runs conn data after ∧ data ≠ [] ∧ data.length ≤ capacity ∧
      conn.Advances data after ∧ after.buf.length ≤ conn.buf.length := by
  by_cases buffered : conn.buf = []
  · have missing : conn.undelivered ≠ [] := by simpa [stream, buffered] using more
    obtain ⟨data, inbound, reads, nonempty, fits, delivered, segments⟩ :=
      pollRead_runs live.segments (inbound_ne_nil missing) room
    refine ⟨data, { conn with io := { conn.io with inbound } }, ?_, nonempty, fits,
      ⟨?_, ⟨segments, live.eof⟩, rfl, rfl⟩, le_rfl⟩
    · refine (Async.Runs.get conn).bind ?_
      rw [if_neg (fun found => found buffered)]
      exact .zoom reads
    · simp [stream, undelivered, buffered, delivered]
  · refine ⟨conn.buf.take capacity, { conn with buf := conn.buf.drop capacity }, ?_, ?_,
      List.length_take_le _ _, ⟨?_, ⟨live.segments, live.eof⟩, rfl, rfl⟩, by simp⟩
    · refine (Async.Runs.get conn).bind ?_
      rw [if_pos buffered]
      rfl
    · obtain ⟨byte, rest, shape⟩ := List.exists_cons_of_ne_nil buffered
      obtain ⟨smaller, rfl⟩ := Nat.exists_eq_succ_of_ne_zero room.ne'
      simp [shape]
    · simp [stream, undelivered, ← List.append_assoc]

theorem pollRead_kept (capacity : Nat) (io : Transport) :
    (Transport.pollRead capacity io).2.outbound = io.outbound ∧
      (Transport.pollRead capacity io).2.ending = io.ending ∧
      ((∀ segment ∈ io.inbound, segment ≠ []) →
        ∀ segment ∈ (Transport.pollRead capacity io).2.inbound, segment ≠ []) := by
  unfold Transport.pollRead
  split
  · next segment rest shape =>
      refine ⟨rfl, rfl, fun segments other member => ?_⟩
      rw [shape] at segments
      dsimp only at member
      split at member
      · exact segments other (.tail _ member)
      · next longer =>
          cases member with
          | head => exact List.ne_nil_of_length_pos (by rw [List.length_drop]; omega)
          | tail _ later => exact segments other (.tail _ later)
  · split <;> exact ⟨rfl, rfl, id⟩

/-- Nothing has been written, and a transport that delivers goes on to do so. -/
structure OnlyReads (before after : HttpConnection) : Prop where
  outbound : after.io.outbound = before.io.outbound
  ending : after.io.ending = before.io.ending
  live : before.Live → after.Live

theorem readRaw_onlyReads (capacity : Nat) : (readRaw capacity).Moves OnlyReads OnlyReads := by
  refine Async.Moves.same_iff.mpr fun conn => ?_
  have kept := pollRead_kept capacity conn.io
  rw [readRaw, (Async.Runs.get conn).bind_eq]
  by_cases buffered : conn.buf = []
  · rw [if_neg (fun found => found buffered)]
    exact ⟨kept.1, kept.2.1, fun live => ⟨kept.2.2 live.segments, live.eof⟩⟩
  · rw [if_pos buffered]
    exact ⟨rfl, rfl, fun live => ⟨live.segments, live.eof⟩⟩

theorem stream_eq_nil (live : conn.Live) (ended : conn.stream = []) :
    conn.buf = [] ∧ conn.io.inbound = [] := by
  obtain ⟨buffered, undelivered⟩ := List.append_eq_nil_iff.mp ended
  refine ⟨buffered, List.eq_nil_iff_forall_not_mem.mpr fun segment member => ?_⟩
  exact live.segments segment member (List.flatten_eq_nil_iff.mp undelivered segment member)

/-- What a read comes to at the end of the stream. -/
def atEnd (ending : Ending) : Outcome HttpError Bytes :=
  match ending with
  | .eof => .ready []
  | .pending => .pending
  | .error error => .failed (.io error)

theorem readRaw_ended (live : conn.Live) (ended : conn.stream = []) (capacity : Nat) :
    readRaw capacity conn = (atEnd conn.io.ending, conn) := by
  obtain ⟨buffered, delivered⟩ := stream_eq_nil live ended
  rw [readRaw, (Async.Runs.get conn).bind_eq, if_neg (fun more => more buffered), onIo, Async.zoom,
    Transport.pollRead, delivered]
  cases conn.io.ending <;> rfl

section ReadLine

variable {line rest : Bytes}

theorem find_crlf_line (unbroken : ¬ crlf <:+: line) :
    find crlf (line ++ (crlf ++ rest)) = some line.length := by
  induction line with
  | nil => exact find_eq_zero (List.prefix_append _ _)
  | cons head tail ih =>
      have within : ¬ crlf <:+: tail := fun found => unbroken (List.infix_cons found)
      have away : ¬ crlf <+: head :: (tail ++ (crlf ++ rest)) := by
        rw [crlf, List.cons_prefix_cons]
        rintro ⟨rfl, next⟩
        cases tail with
        | nil => exact absurd (List.cons_prefix_cons.mp next).1 (by decide)
        | cons second tail =>
            obtain ⟨rfl, _⟩ := List.cons_prefix_cons.mp next
            exact unbroken ⟨[], tail, rfl⟩
      rw [List.cons_append, find_cons_of_away away, ih within]
      rfl

/-- A line that is not complete has no end. -/
theorem find_crlf_cut {part : Bytes} (unbroken : ¬ crlf <:+: line) (initial : part <+: line ++ crlf)
    (short : part.length < line.length + 2) : find crlf part = none := by
  cases found : find crlf part with
  | none => rfl
  | some position =>
      have whole := @find_crlf_line _ [] unbroken
      rw [List.append_nil, find_initial initial found, Option.some.injEq] at whole
      have within := find_length_le found
      rw [show crlf.length = 2 from rfl] at within
      omega

theorem readLineLoop_runs {fuel bound : Nat} (live : conn.Live) (unbroken : ¬ crlf <:+: line)
    (shape : conn.stream = line ++ (crlf ++ rest)) (enough : conn.undelivered.length < fuel)
    (chunk : readChunk ≤ bound) (buffered : conn.buf.length ≤ line.length + 2 + bound) :
    ∃ after, (readLineLoop fuel).Runs conn line after ∧ conn.Advances (line ++ crlf) after ∧
      after.buf.length ≤ bound := by
  induction fuel generalizing conn with
  | zero => exact absurd enough (Nat.not_lt_zero _)
  | succ fuel ih =>
      have whole := @find_crlf_line _ rest unbroken
      have initial : conn.buf <+: line ++ (crlf ++ rest) := ⟨conn.undelivered, shape⟩
      rcases Nat.lt_or_ge conn.buf.length (line.length + 2) with short | long
      · have found : find crlf conn.buf = none := by
          cases found : find crlf conn.buf with
          | none => rfl
          | some position =>
              rw [find_initial initial found, Option.some.injEq] at whole
              have within := find_length_le found
              rw [show crlf.length = 2 from rfl] at within
              omega
        have missing : conn.undelivered ≠ [] := by
          intro delivered
          rw [stream, delivered, List.append_nil] at shape
          rw [shape, whole] at found
          cases found
        obtain ⟨count, middle, fills, positive, advances, grows, shrinks⟩ := fill_runs live missing
        obtain ⟨after, loops, kept, bounded⟩ := ih advances.live
          (by rw [← shape, advances.stream, List.nil_append]) (by omega) (by omega)
        refine ⟨after, (Async.Runs.get conn).bind ?_, by simpa using advances.trans kept, bounded⟩
        simp only [found, live.eof, Bool.false_eq_true, and_false, if_false]
        refine fills.bind ?_
        rw [if_neg positive.ne']
        exact loops
      · obtain ⟨tail, held⟩ : line ++ crlf <+: conn.buf :=
          List.prefix_of_prefix_length_le ⟨rest, List.append_assoc _ _ _⟩ initial
            (by simpa [crlf] using long)
        have found : find crlf conn.buf = some line.length := by
          rw [← held, List.append_assoc, find_crlf_line unbroken]
        refine ⟨{ conn with buf := tail }, (Async.Runs.get conn).bind ?_,
          ⟨?_, ⟨live.segments, live.eof⟩, rfl, rfl⟩, ?_⟩
        · have front : conn.buf.take line.length = line := by
            rw [← held, List.append_assoc, List.take_left]
          have back : conn.buf.drop (line.length + 2) = tail := by
            rw [← held, List.drop_left' (by simp [crlf])]
          simp only [found, front, back]
          rfl
        · simp only [stream, undelivered, ← held, List.append_assoc]
        · have lengths := congrArg List.length held
          simp only [List.length_append, show crlf.length = 2 from rfl] at lengths
          simp only
          omega

/-- A line is read as it stands in the stream. -/
theorem readLine_runs (live : conn.Live) (unbroken : ¬ crlf <:+: line)
    (shape : conn.stream = line ++ (crlf ++ rest)) :
    ∃ after, readLine.Runs conn line after ∧ conn.Advances (line ++ crlf) after ∧
      after.buf.length ≤ max conn.buf.length readChunk := by
  obtain ⟨after, loops, advances, bounded⟩ := @readLineLoop_runs _ _ _ _ (max conn.buf.length readChunk)
    live unbroken shape (Nat.lt_succ_self _) (le_max_right _ _) (by omega)
  exact ⟨after, (Async.Runs.get conn).bind loops, advances, bounded⟩

end ReadLine

theorem expectLoop_runs {fuel : Nat} {expected got rest : Bytes} (live : conn.Live)
    (shape : conn.stream = expected ++ rest) (enough : expected.length < fuel) :
    ∃ after, (expectLoop fuel expected.length got).Runs conn (got ++ expected) after ∧
      conn.Advances expected after ∧ after.buf.length ≤ conn.buf.length := by
  induction fuel generalizing conn expected got with
  | zero => exact absurd enough (Nat.not_lt_zero _)
  | succ fuel ih =>
      cases expected with
      | nil =>
          refine ⟨conn, ?_, .refl live, le_rfl⟩
          rw [List.append_nil]
          exact .pure conn got
      | cons byte bytes =>
          obtain ⟨data, middle, reads, nonempty, fits, advances, shrinks⟩ :=
            @readRaw_runs _ ((byte :: bytes).length) live (by simp [shape]) (by simp)
          obtain ⟨missing, split⟩ : data <+: byte :: bytes := by
            refine List.prefix_of_prefix_length_le ?_ (List.prefix_append _ rest) fits
            rw [← shape, advances.stream]
            exact List.prefix_append _ _
          have remaining : middle.stream = missing ++ rest := by
            have both := shape
            rw [advances.stream, ← split, List.append_assoc] at both
            exact List.append_cancel_left both
          have positive : 0 < data.length := List.length_pos_of_ne_nil nonempty
          have lengths : (byte :: bytes).length = data.length + missing.length := by
            rw [← split, List.length_append]
          obtain ⟨after, loops, kept, bounded⟩ :=
            ih advances.live remaining (by omega)
          refine ⟨after, ?_, split ▸ advances.trans kept, bounded.trans shrinks⟩
          rw [expectLoop, if_pos (by simp)]
          refine reads.bind ?_
          rw [if_neg positive.ne', lengths, Nat.add_sub_cancel_left]
          rw [← split, ← List.append_assoc]
          exact loops

theorem expectExact_runs {expected rest : Bytes} (live : conn.Live)
    (shape : conn.stream = expected ++ rest) :
    ∃ after, (expectExact expected).Runs conn () after ∧ conn.Advances expected after ∧
      after.buf.length ≤ conn.buf.length := by
  obtain ⟨after, loops, advances, bounded⟩ :=
    expectLoop_runs live shape (Nat.lt_succ_self _)
  refine ⟨after, loops.bind ?_, advances, bounded⟩
  simp only [List.nil_append, ne_eq, not_true_eq_false, if_false]
  exact .pure after ()

section Cut

/-! A stream that is cut short: what is missing is noticed. -/

variable {line expected : Bytes}

theorem fill_ended (live : conn.Live) (delivered : conn.undelivered = [])
    (eof : conn.io.ending = .eof) : fill.Runs conn 0 { conn with eof := true } := by
  have inbound : conn.io.inbound = [] :=
    (@stream_eq_nil { conn with buf := [] } ⟨live.segments, live.eof⟩ delivered).2
  have reads : (Transport.pollRead readChunk).Runs conn.io [] conn.io := by
    rw [Async.Runs, Transport.pollRead, inbound]
    simp only [eof]
  rw [Async.Runs, fill_eq, reads]
  simp

theorem pollRead_ended (live : conn.Live) (delivered : conn.undelivered = []) (capacity : Nat) :
    Transport.pollRead capacity conn.io = (match conn.io.ending with
      | .eof => .ready []
      | .pending => .pending
      | .error error => .failed (.io error), conn.io) := by
  have inbound : conn.io.inbound = [] :=
    (@stream_eq_nil { conn with buf := [] } ⟨live.segments, live.eof⟩ delivered).2
  rw [Transport.pollRead, inbound]
  cases conn.io.ending <;> rfl

theorem fill_pending (live : conn.Live) (delivered : conn.undelivered = [])
    (pending : conn.io.ending = .pending) : fill conn = (.pending, conn.grown) := by
  rw [fill_eq, pollRead_ended live delivered, pending]
  rfl

theorem fill_failed {error : Io.IoError} (live : conn.Live) (delivered : conn.undelivered = [])
    (fails : conn.io.ending = .error error) : fill conn = (.failed (.io error), conn) := by
  rw [fill_eq, pollRead_ended live delivered, fails]

theorem readLineLoop_cut {fuel : Nat} (live : conn.Live) (eof : conn.io.ending = .eof)
    (unbroken : ¬ crlf <:+: line) (initial : conn.stream <+: line ++ crlf)
    (short : conn.stream.length < line.length + 2) (enough : conn.undelivered.length < fuel) :
    ∃ after, readLineLoop fuel conn = (.failed .connectionClosed, after) := by
  induction fuel generalizing conn with
  | zero => exact absurd enough (Nat.not_lt_zero _)
  | succ fuel ih =>
      have part : conn.buf <+: conn.stream := List.prefix_append _ _
      have found : find crlf conn.buf = none := by
        refine find_crlf_cut unbroken (part.trans initial) ?_
        have shorter := part.length_le
        omega
      rw [readLineLoop, (Async.Runs.get conn).bind_eq]
      simp only [found, live.eof, Bool.false_eq_true, and_false, if_false]
      by_cases delivered : conn.undelivered = []
      · rw [(fill_ended live delivered eof).bind_eq]
        exact ⟨_, rfl⟩
      · obtain ⟨count, middle, fills, positive, advances, grows, shrinks⟩ := fill_runs live delivered
        have same : middle.stream = conn.stream := by rw [advances.stream, List.nil_append]
        rw [fills.bind_eq, if_neg positive.ne']
        exact ih advances.live (advances.ending.trans eof) (same ▸ initial) (same ▸ short) (by omega)

theorem readLine_cut (live : conn.Live) (eof : conn.io.ending = .eof)
    (unbroken : ¬ crlf <:+: line) (initial : conn.stream <+: line ++ crlf)
    (short : conn.stream.length < line.length + 2) :
    ∃ after, readLine conn = (.failed .connectionClosed, after) := by
  rw [readLine, (Async.Runs.get conn).bind_eq]
  exact readLineLoop_cut live eof unbroken initial short (Nat.lt_succ_self _)

theorem expectLoop_cut {fuel missing : Nat} {got : Bytes} (live : conn.Live)
    (eof : conn.io.ending = .eof)
    (short : conn.stream.length < missing) (enough : conn.stream.length < fuel) :
    ∃ after, expectLoop fuel missing got conn = (.failed .connectionClosed, after) := by
  induction fuel generalizing conn missing got with
  | zero => exact absurd enough (Nat.not_lt_zero _)
  | succ fuel ih =>
      have positive : 0 < missing := by omega
      rw [expectLoop, if_pos positive]
      by_cases ended : conn.stream = []
      · have reads := readRaw_ended live ended missing
        rw [eof] at reads
        rw [Async.Runs.bind_eq reads]
        exact ⟨conn, rfl⟩
      · obtain ⟨data, middle, reads, nonempty, fits, advances, shrinks⟩ :=
          readRaw_runs live ended positive
        have some := List.length_pos_of_ne_nil nonempty
        have lengths := congrArg List.length advances.stream
        rw [List.length_append] at lengths
        rw [reads.bind_eq, if_neg some.ne']
        exact ih advances.live (advances.ending.trans eof) (by omega) (by omega)

theorem expectExact_cut (live : conn.Live) (eof : conn.io.ending = .eof)
    (short : conn.stream.length < expected.length) :
    ∃ after, expectExact expected conn = (.failed .connectionClosed, after) := by
  obtain ⟨after, fails⟩ := @expectLoop_cut _ _ _ [] live eof short (Nat.lt_succ_of_lt short)
  exact ⟨after, Async.bind_failed fails⟩

end Cut

theorem writeAll_runs (conn : HttpConnection) (bytes : Bytes) :
    (onIo (Transport.writeAll bytes)).Runs conn ()
      { conn with io := { conn.io with outbound := conn.io.outbound ++ bytes } } :=
  .zoom (.modify _ conn.io)

theorem writeMessage_runs (conn : HttpConnection) (head body : Bytes) :
    (writeMessage head body).Runs conn ()
      { conn with io := { conn.io with outbound := conn.io.outbound ++ (head ++ body) } } := by
  refine (writeAll_runs conn head).bind ?_
  by_cases empty : body = []
  · rw [if_neg (fun some => some empty), empty, List.append_nil]
    exact .pure _ _
  · rw [if_pos empty, ← List.append_assoc]
    exact writeAll_runs _ body

end HttpConnection

end TptAsync.Http
