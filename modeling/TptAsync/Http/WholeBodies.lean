import TptAsync.Http.BodyReaderProperties

set_option autoImplicit false

/-!
# Whole bodies

A body whose framing says where it ends is read exactly, and one whose stream ends before is
an error: there is no place to cut it at which it looks complete.
-/

namespace TptAsync.Http

open Lib

namespace BodyReader

open HttpConnection

variable {reader : BodyReader}

section Cut
variable {capacity : Nat} {data wire body : Bytes}

/-- The stream ends before the body does. -/
inductive Truncated (reader : BodyReader) : Prop
  | contentLength {length : Nat} (kind : reader.kind = .contentLength length)
      (unfinished : reader.finished = false) (short : reader.conn.stream.length < reader.remaining) :
      Truncated reader
  | chunkStart {wire body : Bytes} (kind : reader.kind = .chunked)
      (unfinished : reader.finished = false) (remaining : reader.chunkRemaining = 0)
      (chunked : Chunks wire body) (initial : reader.conn.stream <+: wire)
      (short : reader.conn.stream.length < wire.length) : Truncated reader
  | chunkData {data wire body : Bytes} (kind : reader.kind = .chunked)
      (unfinished : reader.finished = false) (remaining : reader.chunkRemaining = data.length)
      (nonempty : data ≠ []) (chunked : Chunks wire body)
      (initial : reader.conn.stream <+: data ++ (crlf ++ wire))
      (short : reader.conn.stream.length < (data ++ (crlf ++ wire)).length) : Truncated reader

/-- No more bytes will come than the transport has now. -/
structure Ends (reader : BodyReader) : Prop where
  live : reader.conn.Live
  eof : reader.conn.io.ending = .eof

/-- The end is noticed, or it is not yet reached. -/
inductive Notices (reader : BodyReader) : Outcome HttpError Bytes × BodyReader → Prop
  | closed (after : BodyReader) : Notices reader (.failed .connectionClosed, after)
  | reads {part : Bytes} {after : BodyReader} (nonempty : part ≠ []) (cut : after.Truncated)
      (ends : after.Ends) (shrinks : after.conn.stream.length < reader.conn.stream.length) :
      Notices reader (.ready part, after)

theorem Notices.mono {middle : BodyReader} {result : Outcome HttpError Bytes × BodyReader}
    (notices : Notices middle result)
    (shrinks : middle.conn.stream.length ≤ reader.conn.stream.length) : Notices reader result := by
  cases notices with
  | closed after => exact .closed after
  | reads nonempty cut ends shorter => exact .reads nonempty cut ends (by omega)

theorem onConn_failed {α : Type} {action : Async HttpError HttpConnection α} {error : HttpError}
    (fails : ∃ conn, action reader.conn = (.failed error, conn)) :
    ∃ after, onConn action reader = (.failed error, after) := by
  obtain ⟨conn, fails⟩ := fails
  exact ⟨{ reader with conn }, by rw [onConn, Async.zoom, fails]⟩

theorem readRaw_nothing (ends : reader.Ends) (ended : reader.conn.stream = []) (capacity : Nat) :
    (onConn (readRaw capacity)).Runs reader [] reader := by
  have reads := readRaw_ended ends.live ended capacity
  rw [ends.eof] at reads
  exact .zoom reads

/-- Reading at most `limit` bytes of a stream that has some. -/
theorem readRaw_some {limit : Nat} (ends : reader.Ends) (more : reader.conn.stream ≠ [])
    (room : 0 < limit) :
    ∃ part conn, (onConn (readRaw limit)).Runs reader part { reader with conn } ∧ part ≠ [] ∧
      part.length ≤ limit ∧ reader.conn.stream = part ++ conn.stream ∧
      Ends { reader with conn } := by
  obtain ⟨part, conn, reads, nonempty, fits, advances, _⟩ := readRaw_runs ends.live more room
  exact ⟨part, conn, .zoom reads, nonempty, fits, advances.stream, advances.live,
    advances.ending.trans ends.eof⟩

theorem readContentLength_cut (ends : reader.Ends) (room : 0 < capacity) {length : Nat}
    (kind : reader.kind = .contentLength length) (unfinished : reader.finished = false)
    (short : reader.conn.stream.length < reader.remaining) :
    Notices reader (readContentLength capacity reader) := by
  rw [readContentLength, (Async.Runs.get reader).bind_eq, if_neg (by omega)]
  by_cases ended : reader.conn.stream = []
  · rw [(readRaw_nothing ends ended _).bind_eq]
    exact .closed reader
  · obtain ⟨part, conn, reads, nonempty, fits, stream, ends⟩ :=
      @readRaw_some _ (min capacity reader.remaining) ends ended (by omega)
    have positive := List.length_pos_of_ne_nil nonempty
    have lengths := congrArg List.length stream
    rw [List.length_append] at lengths
    rw [reads.bind_eq, if_neg positive.ne']
    refine .reads nonempty (.contentLength kind unfinished ?_) ⟨ends.live, ends.eof⟩ ?_
    · simp only
      omega
    · simp only
      omega

theorem chunkEnd_cut (ends : reader.Ends) (initial : reader.conn.stream <+: crlf ++ wire)
    (short : reader.conn.stream.length < (crlf ++ wire).length) :
    (∃ after, onConn (expectExact crlf) reader = (.failed .connectionClosed, after)) ∨
      ∃ conn, (onConn (expectExact crlf)).Runs reader () { reader with conn } ∧
        Ends { reader with conn } ∧ conn.stream <+: wire ∧ conn.stream.length < wire.length ∧
        conn.stream.length ≤ reader.conn.stream.length := by
  rcases prefix_append_cases initial with ⟨_, cut⟩ | ⟨rest, shape, initial⟩
  · exact .inl (onConn_failed (expectExact_cut ends.live ends.eof cut))
  · obtain ⟨conn, expects, advances, _⟩ := expectExact_runs ends.live shape
    obtain rfl : rest = conn.stream := List.append_cancel_left (shape.symm.trans advances.stream)
    have lengths := congrArg List.length shape
    simp only [List.length_append] at lengths short
    exact .inr ⟨conn, .zoom expects, ⟨advances.live, advances.ending.trans ends.eof⟩, initial,
      by omega, by omega⟩

theorem readLine_cut_cases {line more : Bytes} (ends : reader.Ends) (unbroken : ¬ crlf <:+: line)
    (initial : reader.conn.stream <+: line ++ (crlf ++ more)) :
    (∃ after, onConn readLine reader = (.failed .connectionClosed, after)) ∨
      ∃ conn, (onConn readLine).Runs reader line { reader with conn } ∧ Ends { reader with conn } ∧
        reader.conn.stream = line ++ (crlf ++ conn.stream) ∧ conn.stream <+: more := by
  rw [← List.append_assoc] at initial
  rcases prefix_append_cases initial with ⟨cut, short⟩ | ⟨rest, shape, initial⟩
  · rw [List.length_append] at short
    exact .inl (onConn_failed (readLine_cut ends.live ends.eof unbroken cut short))
  · rw [List.append_assoc] at shape
    obtain ⟨conn, reads, advances, _⟩ := readLine_runs ends.live unbroken shape
    have stream := advances.stream
    rw [List.append_assoc] at stream
    obtain rfl : rest = conn.stream :=
      List.append_cancel_left (List.append_cancel_left (shape.symm.trans stream))
    exact .inr ⟨conn, .zoom reads, ⟨advances.live, advances.ending.trans ends.eof⟩, shape, initial⟩

theorem readChunkData_cut (ends : reader.Ends) (room : 0 < capacity)
    (kind : reader.kind = .chunked) (unfinished : reader.finished = false)
    (remaining : reader.chunkRemaining = data.length) (nonempty : data ≠ [])
    (chunked : Chunks wire body) (initial : reader.conn.stream <+: data ++ (crlf ++ wire))
    (short : reader.conn.stream.length < (data ++ (crlf ++ wire)).length) :
    Notices reader (readChunkData capacity reader) := by
  have positive := List.length_pos_of_ne_nil nonempty
  rw [readChunkData, (Async.Runs.get reader).bind_eq]
  by_cases ended : reader.conn.stream = []
  · rw [(readRaw_nothing ends ended _).bind_eq]
    exact .closed reader
  · obtain ⟨part, conn, reads, someBytes, fits, stream, ends⟩ :=
      @readRaw_some _ (min capacity reader.chunkRemaining) ends ended (by omega)
    have partPositive := List.length_pos_of_ne_nil someBytes
    obtain ⟨left, rfl⟩ : part <+: data := by
      refine List.prefix_of_prefix_length_le ?_ (List.prefix_append data (crlf ++ wire)) (by omega)
      rw [stream] at initial
      exact (List.prefix_append _ _).trans initial
    rw [stream, List.append_assoc] at initial
    have initial := (List.prefix_append_right_inj part).mp initial
    have lengths := congrArg List.length stream
    simp only [List.length_append] at lengths remaining short
    let middle : BodyReader :=
      { reader with conn, chunkRemaining := reader.chunkRemaining - part.length }
    rw [reads.bind_eq, if_neg partPositive.ne']
    change Notices reader ((if middle.chunkRemaining = 0 then (do
      onConn (expectExact crlf)
      pure part) else pure part) middle)
    by_cases whole : left = []
    · subst whole
      rw [if_pos (show reader.chunkRemaining - part.length = 0 by simp [remaining])]
      simp only [List.length_nil, Nat.add_zero] at short
      rcases @chunkEnd_cut middle _ ⟨ends.live, ends.eof⟩ initial (by
        rw [List.length_append]
        change conn.stream.length < _
        omega) with ⟨after, fails⟩ | ⟨conn', expects, ends, initial, short, shrinks⟩
      · rw [Async.bind_failed fails]
        exact .closed after
      · rw [expects.bind_eq]
        refine .reads someBytes (.chunkStart kind unfinished ?_ chunked initial short) ends ?_
        · simp [middle, remaining]
        · change conn'.stream.length ≤ conn.stream.length at shrinks
          change conn'.stream.length < _
          omega
    · have leftPositive := List.length_pos_of_ne_nil whole
      rw [if_neg (show ¬ reader.chunkRemaining - part.length = 0 by omega)]
      refine .reads someBytes (.chunkData kind unfinished ?_ whole chunked initial ?_)
        ⟨ends.live, ends.eof⟩ ?_
      · simp only [middle]
        omega
      · simp only [middle, List.length_append]
        omega
      · simp only [middle]
        omega

theorem skipTrailers_cut {fuel : Nat} {trailers : List Bytes} (ends : reader.Ends)
    (lines : ∀ trailer ∈ trailers, ¬ crlf <:+: trailer ∧ trailer ≠ [])
    (enough : reader.conn.stream.length < fuel)
    (initial : reader.conn.stream <+: trailers.flatMap (· ++ crlf) ++ crlf)
    (short : reader.conn.stream.length < (trailers.flatMap (· ++ crlf) ++ crlf).length) :
    ∃ after, skipTrailers fuel reader = (.failed .connectionClosed, after) := by
  induction trailers generalizing reader fuel with
  | nil =>
      obtain ⟨fuel, rfl⟩ := Nat.exists_eq_add_one_of_ne_zero (Nat.ne_zero_of_lt enough)
      obtain ⟨after, fails⟩ := onConn_failed
        (@readLine_cut _ [] ends.live ends.eof (by decide) initial short)
      exact ⟨after, Async.bind_failed fails⟩
  | cons trailer trailers ih =>
      obtain ⟨fuel, rfl⟩ := Nat.exists_eq_add_one_of_ne_zero (Nat.ne_zero_of_lt enough)
      obtain ⟨unbroken, nonempty⟩ := lines trailer (.head _)
      simp only [List.flatMap_cons, List.append_assoc] at initial short
      rcases readLine_cut_cases ends unbroken initial with
        ⟨after, fails⟩ | ⟨conn, reads, ends, shape, initial⟩
      · exact ⟨after, Async.bind_failed fails⟩
      · have lengths := congrArg List.length shape
        simp only [List.length_append, show crlf.length = 2 from rfl] at lengths short
        rw [skipTrailers, reads.bind_eq, if_neg nonempty]
        refine ih ends (fun later member => lines later (.tail _ member)) ?_ initial ?_
        · simp only
          omega
        · simp only [List.length_append, show crlf.length = 2 from rfl]
          omega

theorem readChunked_cut (ends : reader.Ends) (room : 0 < capacity)
    (kind : reader.kind = .chunked) (unfinished : reader.finished = false)
    (remaining : reader.chunkRemaining = 0) (chunked : Chunks wire body)
    (initial : reader.conn.stream <+: wire) (short : reader.conn.stream.length < wire.length) :
    Notices reader (readChunked capacity reader) := by
  rw [readChunked, (Async.Runs.get reader).bind_eq, if_neg (by omega)]
  cases chunked with
  | @last line size trailers lines =>
      rcases readLine_cut_cases ends size.unbroken initial with
        ⟨after, fails⟩ | ⟨conn, reads, ends, shape, initial⟩
      · rw [Async.bind_failed fails]
        exact .closed after
      · have lengths := congrArg List.length shape
        simp only [List.length_append] at lengths short
        let middle : BodyReader := { reader with conn }
        obtain ⟨after, fails⟩ := @skipTrailers_cut middle
          (conn.buf.length + conn.undelivered.length + 1) trailers ends lines
          (by simp only [middle, stream_length, Nat.lt_succ_self]) initial
          (by simp only [middle, List.length_append]; omega)
        rw [reads.bind_eq, size.parsed]
        rw [(Async.Runs.ofExcept middle 0).bind_eq, if_pos rfl, (Async.Runs.get middle).bind_eq]
        rw [Async.bind_failed fails]
        exact .closed after
  | @chunk line data wire body size nonempty chunked =>
      rcases readLine_cut_cases ends size.unbroken initial with
        ⟨after, fails⟩ | ⟨conn, reads, ends, shape, initial⟩
      · rw [Async.bind_failed fails]
        exact .closed after
      · have lengths := congrArg List.length shape
        simp only [List.length_append] at lengths short
        let middle : BodyReader := { reader with conn, chunkRemaining := data.length }
        have cut : middle.conn.stream.length < (data ++ (crlf ++ wire)).length := by
          simp only [middle, List.length_append]
          omega
        have notices : Notices middle (readChunkData capacity middle) :=
          readChunkData_cut ⟨ends.live, ends.eof⟩ room kind unfinished rfl nonempty chunked initial cut
        rw [reads.bind_eq, size.parsed]
        rw [(Async.Runs.ofExcept _ data.length).bind_eq,
          if_neg (List.length_pos_of_ne_nil nonempty).ne']
        refine Notices.mono (show Notices middle (readChunkData capacity middle) from notices) ?_
        simp only [middle]
        omega

/-- A read notices the end of the stream, or takes bytes in front of it. -/
theorem read_cut (ends : reader.Ends) (cut : reader.Truncated) (room : 0 < capacity) :
    Notices reader (read capacity reader) := by
  have framed : ∀ {kind : BodyKind}, reader.kind = kind → reader.finished = false →
      Notices reader (readFramed kind capacity reader) → Notices reader (read capacity reader) := by
    intro kind same unfinished notices
    rw [read, (Async.Runs.get reader).bind_eq, if_neg (by simp [unfinished, room.ne']), same]
    cases ended : readFramed kind capacity reader with
    | mk outcome after =>
        rw [ended] at notices
        cases notices with
        | closed =>
            rw [Async.bind_failed ended]
            exact .closed after
        | @reads part _ nonempty cut ends shrinks =>
            rw [Async.Runs.bind_eq ended, if_neg (List.length_pos_of_ne_nil nonempty).ne']
            exact .reads nonempty cut ends shrinks
  cases cut with
  | contentLength kind unfinished short =>
      exact framed kind unfinished (readContentLength_cut ends room kind unfinished short)
  | chunkStart kind unfinished remaining chunked initial short =>
      exact framed kind unfinished
        (readChunked_cut ends room kind unfinished remaining chunked initial short)
  | @chunkData data wire body kind unfinished remaining nonempty chunked initial short =>
      refine framed kind unfinished ?_
      have positive := List.length_pos_of_ne_nil nonempty
      change Notices reader (readChunked capacity reader)
      rw [readChunked, (Async.Runs.get reader).bind_eq, if_pos (by omega)]
      exact readChunkData_cut ends room kind unfinished remaining nonempty chunked initial short

theorem readToVecLoop_cut {max fuel : Nat} {out : Bytes} (ends : reader.Ends)
    (cut : reader.Truncated) (enough : reader.conn.stream.length < fuel) :
    ∃ error after, readToVecLoop max fuel out reader = (.failed error, after) := by
  induction fuel generalizing reader out with
  | zero => exact absurd enough (Nat.not_lt_zero _)
  | succ fuel ih =>
      have notices := @read_cut _ 8192 ends cut (by decide)
      rw [readToVecLoop]
      cases reads : read 8192 reader with
      | mk outcome after =>
          rw [reads] at notices
          cases notices with
          | closed => exact ⟨_, after, Async.bind_failed reads⟩
          | @reads part _ nonempty cut ends shrinks =>
              rw [Async.Runs.bind_eq reads, if_neg (List.length_pos_of_ne_nil nonempty).ne']
              by_cases large : max < out.length + part.length
              · rw [if_pos large]
                exact ⟨_, after, rfl⟩
              · rw [if_neg large]
                exact ih ends cut (by omega)

end Cut

section Whole

variable {kind : BodyKind} {conn : HttpConnection} {wire body rest : Bytes} {capacities : Nat → Nat}

/-- Repeated reads into buffers of some sizes, until one returns nothing. -/
def readAllLoop : Nat → (Nat → Nat) → Bytes → Async HttpError BodyReader Bytes
  | 0, _, _ => Async.wait
  | fuel + 1, capacities, out => do
      let data ← read (capacities 0)
      if data.length = 0 then pure out
      else readAllLoop fuel (fun n => capacities (n + 1)) (out ++ data)

def readAll (capacities : Nat → Nat) : Async HttpError BodyReader Bytes := do
  let conn := (← Async.get).conn
  readAllLoop (conn.buf.length + conn.undelivered.length + 1) capacities []

theorem readAllLoop_runs {fuel : Nat} {out : Bytes} (live : reader.conn.Live)
    (room : ∀ n, 0 < capacities n) (holds : Holds reader rest body) (enough : body.length < fuel) :
    ∃ after, (readAllLoop fuel capacities out).Runs reader (out ++ body) after ∧
      after.finished = true ∧ after.conn.stream = rest := by
  induction fuel generalizing reader body out capacities with
  | zero => exact absurd enough (Nat.not_lt_zero _)
  | succ fuel ih =>
      obtain ⟨part, left, middle, reads, last, split, held, follows⟩ := read_runs live (room 0) holds
      by_cases none : part = []
      · obtain ⟨rfl, finished⟩ := last none
        subst none
        refine ⟨middle, reads.bind ?_, finished, (held.of_finished finished).2⟩
        rw [if_pos List.length_nil, List.append_nil]
        exact .pure _ _
      · have positive := List.length_pos_of_ne_nil none
        have lengths : body.length = part.length + left.length := by rw [split, List.length_append]
        obtain ⟨after, loops, finished, stream⟩ :=
          @ih _ _ _ (out ++ part) follows.live (fun n => room (n + 1)) held (by omega)
        refine ⟨after, reads.bind ?_, finished, stream⟩
        rw [if_neg positive.ne', split, ← List.append_assoc]
        exact loops

theorem readAllLoop_cut {fuel : Nat} {out : Bytes} (ends : reader.Ends)
    (room : ∀ n, 0 < capacities n) (cut : reader.Truncated)
    (enough : reader.conn.stream.length < fuel) :
    ∃ error after, readAllLoop fuel capacities out reader = (.failed error, after) := by
  induction fuel generalizing reader out capacities with
  | zero => exact absurd enough (Nat.not_lt_zero _)
  | succ fuel ih =>
      have notices := read_cut ends cut (room 0)
      rw [readAllLoop]
      cases reads : read (capacities 0) reader with
      | mk outcome after =>
          rw [reads] at notices
          cases notices with
          | closed => exact ⟨_, after, Async.bind_failed reads⟩
          | reads nonempty cut ends shrinks =>
              rw [Async.Runs.bind_eq reads, if_neg (List.length_pos_of_ne_nil nonempty).ne']
              exact ih ends (fun n => room (n + 1)) cut (by omega)

/-- A body in the framing that delimits it. -/
inductive Delimited : BodyKind → Bytes → Bytes → Prop
  | contentLength {body : Bytes} (fits : body.length ≤ U64.max) :
      Delimited (.contentLength body.length) body body
  | chunked {wire body : Bytes} (chunked : ChunkedBody wire body) : Delimited .chunked wire body

theorem Delimited.holds (delimited : Delimited kind wire body) (stream : conn.stream = wire ++ rest) :
    Holds (new conn kind) rest body := by
  cases delimited with
  | contentLength fits => exact .new_contentLength stream
  | chunked chunked => exact .new_chunked (ChunkedBody.chunks chunked) stream

theorem Delimited.truncated (delimited : Delimited kind wire body) (initial : conn.stream <+: wire)
    (proper : conn.stream ≠ wire) : Truncated (new conn kind) := by
  have short : conn.stream.length < wire.length :=
    Nat.lt_of_le_of_ne initial.length_le fun same => proper (initial.eq_of_length same)
  cases delimited with
  | contentLength fits =>
      refine .contentLength rfl ?_ short
      have nonempty : wire ≠ [] := List.ne_nil_of_length_pos (by omega)
      simp [new, nonempty]
  | chunked chunked => exact .chunkStart rfl rfl rfl (ChunkedBody.chunks chunked) initial short

/-- A delimited body is read as it is, and nothing behind it; a part of it is an error. -/
theorem delimited_exact (delimited : Delimited kind wire body) (live : conn.Live) :
    (∀ rest, conn.stream = wire ++ rest →
      (∀ max, body.length ≤ max → ∃ after, (readToVec max).Runs (new conn kind) body after ∧
        after.isFinished = true ∧ after.conn.stream = rest) ∧
      ∀ capacities : Nat → Nat, (∀ n, 0 < capacities n) →
        ∃ after, (readAll capacities).Runs (new conn kind) body after ∧
          after.isFinished = true ∧ after.conn.stream = rest) ∧
    (conn.io.ending = .eof → conn.stream <+: wire → conn.stream ≠ wire →
      (∀ max, ∃ error after, readToVec max (new conn kind) = (.failed error, after)) ∧
      ∀ capacities : Nat → Nat, (∀ n, 0 < capacities n) →
        ∃ error after, readAll capacities (new conn kind) = (.failed error, after)) := by
  constructor
  · intro rest stream
    have holds := delimited.holds stream
    constructor
    · intro max fits
      obtain ⟨after, reads, finished, left, _⟩ := readToVec_runs live holds fits
      exact ⟨after, reads, finished, left⟩
    · intro capacities room
      have enough := holds.length_le
      rw [stream_length] at enough
      obtain ⟨after, loops, finished, left⟩ :=
        @readAllLoop_runs _ _ _ _ _ [] live room holds (Nat.lt_succ_of_le enough)
      exact ⟨after, (Async.Runs.get _).bind loops, finished, left⟩
  · intro eof initial proper
    have ends : Ends (new conn kind) := ⟨live, eof⟩
    have cut := delimited.truncated initial proper
    have enough : (new conn kind).conn.stream.length <
        conn.buf.length + conn.undelivered.length + 1 := by
      rw [stream_length]
      exact Nat.lt_succ_self _
    constructor
    · intro max
      exact readToVecLoop_cut ends cut enough
    · intro capacities room
      exact readAllLoop_cut ends room cut enough

/-- A body in one chunk, in two segments, with the next message behind it. -/
theorem delimited_exact_chunked :
    let conn : HttpConnection :=
      ⟨⟨[ascii "04;x\r\nWi", ascii "ki\r\n0\r\nA: b\r\n\r\nGET"], .eof, []⟩, [], false⟩
    ∃ after, (readToVec 4).Runs (new conn .chunked) (ascii "Wiki") after ∧
      after.isFinished = true ∧ after.conn.stream = ascii "GET" := by
  intro conn
  have digits : ∀ char ∈ ['0', '4'], (Text.digitValue 16 char).isSome :=
    List.forall_mem_cons.mpr ⟨by decide, List.forall_mem_singleton.mpr (by decide)⟩
  have first : SizeLine (ascii "04;x") (ascii "Wiki").length :=
    ⟨by decide, by decide, ['0', '4'], [], ascii ";x", rfl, by simp, digits, rfl, by simp,
      .inr ⟨ascii "x", rfl⟩⟩
  have last : SizeLine (ascii "0") 0 :=
    ⟨by decide, by decide, ['0'], [], [], rfl, by simp, fun char member => digits char (by simp_all),
      rfl, by simp, .inl rfl⟩
  have trailer : ∀ trailer ∈ [ascii "A: b"], ¬ crlf <:+: trailer ∧ trailer ≠ [] :=
    List.forall_mem_singleton.mpr ⟨by decide, by decide⟩
  have chunked : ChunkedBody (ascii "04;x\r\nWiki\r\n0\r\nA: b\r\n\r\n") (ascii "Wiki") := by
    have wire := ChunkedBody.chunk first (by decide) (.last last [ascii "A: b"] trailer)
    rw [List.append_nil] at wire
    exact wire
  have live : conn.Live := ⟨by decide, rfl⟩
  exact ((delimited_exact (.chunked chunked) live).1 (ascii "GET") rfl).1 4 (by decide)

end Whole

end BodyReader

end TptAsync.Http
