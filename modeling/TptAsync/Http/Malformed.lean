import TptAsync.Http.Consumption
import TptAsync.Http.HeadLoop

set_option autoImplicit false

/-!
# Malformed requests

A request that cannot be parsed, or whose body has no framing, ends the connection. Nothing
is written in answer to it.
-/

namespace TptAsync.Http

open Lib HttpConnection

/-- The bytes of a response on the wire. -/
def ResponseData.message (response : ResponseData) : Bytes := response.head ++ response.body

/-- The next request in the stream is one that the parser refuses, or one without a framing. -/
inductive Malformed (stream : Bytes) : Prop
  | head {part : Bytes} {error : HttpError}
      (word : FirstVerdict parseRequestRanges stream part (.error error)) : Malformed stream
  | framing {part : Bytes} {ranges : HeadRanges} {error : HttpError}
      (word : FirstVerdict parseRequestRanges stream part (.ok (some ranges)))
      (kind : requestBodyKind (RequestHead.fromRanges (part.take ranges.consumed) ranges).headers =
        .error error) : Malformed stream

/-- A part that is refused is enough, within the limit on heads. -/
theorem Malformed.of_part {stream part : Bytes} {error : HttpError} (initial : part <+: stream)
    (fits : part.length ≤ maxHead) (refused : parseRequestRanges part = .error error) :
    Malformed stream := by
  obtain ⟨least, _, word⟩ := exists_firstVerdict parseRequestRanges_incremental initial fits
    (by simp [refused])
  rw [refused] at word
  exact .head word

theorem Malformed.of_unframed {stream part : Bytes} {ranges : HeadRanges} {error : HttpError}
    (initial : part <+: stream) (fits : part.length ≤ maxHead)
    (parsed : parseRequestRanges part = .ok (some ranges))
    (kind : requestBodyKind (RequestHead.fromRanges (part.take ranges.consumed) ranges).headers =
      .error error) : Malformed stream := by
  obtain ⟨least, ⟨more, rfl⟩, word⟩ := exists_firstVerdict parseRequestRanges_incremental initial fits
    (by simp [parsed])
  rw [parsed] at word
  rw [List.take_append_of_le_length (parseRequestRanges_incremental.consumed _ _ word.parsed).2] at kind
  exact .framing word kind

/-- What the documentation promises for a malformed request, after what has been written before. -/
def AnsweredBadRequest {σ : Type} (before : Bytes) (result : Outcome HttpError σ × HttpConnection) :
    Prop :=
  (∃ response : ResponseData, response.status = 400 ∧
    result.2.io.outbound = before ++ response.message) ∧ result.1 ≠ .pending

variable {σ : Type} {handler : Handler σ} {state next last : σ} {conn middle after : HttpConnection}

/-- Requests that are answered, with the connection kept alive after each. -/
inductive Rounds (handler : Handler σ) : Nat → σ → HttpConnection → σ → HttpConnection → Prop
  | none (state : σ) (conn : HttpConnection) : Rounds handler 0 state conn state conn
  | round {count : Nat} {state next last : σ} {conn middle after : HttpConnection}
      (one : (serveOne handler state).Runs conn (some (next, true)) middle)
      (rest : Rounds handler count next middle last after) :
      Rounds handler (count + 1) state conn last after

theorem readRequestHeadLoop_shrinks {fuel : Nat} {head : RequestHead}
    (runs : (readRequestHeadLoop fuel).Runs conn (some head) after) :
    conn.Consumes after ∧ after.stream.length < conn.stream.length := by
  rw [readRequestHeadLoop_eq] at runs
  induction fuel generalizing conn with
  | zero => cases runs
  | succ fuel ih =>
      cases parsed : parseRequestRanges conn.buf with
      | error error =>
          rw [Async.Runs, headLoop_error parsed] at runs
          cases runs
      | ok found =>
          cases found with
          | some ranges =>
              have consumed := parseRequestRanges_incremental.consumed _ _ parsed
              rw [Async.Runs, headLoop_some parsed] at runs
              cases runs
              have shorter : (conn.buf.drop ranges.consumed ++ conn.undelivered).length <
                  (conn.buf ++ conn.undelivered).length := by
                simp only [List.length_append, List.length_drop]
                omega
              exact ⟨⟨id, shorter.le, rfl⟩, shorter⟩
          | none =>
              rw [Async.Runs, headLoop_none parsed] at runs
              cases fills : fill conn with
              | mk outcome middle =>
                  cases outcome with
                  | pending => rw [Async.bind_pending fills] at runs; cases runs
                  | failed error => rw [Async.bind_failed fills] at runs; cases runs
                  | ready count =>
                      have moved := fill_moves.of_runs fills
                      rw [Async.Runs.bind_eq fills] at runs
                      split at runs
                      · rw [(Async.Runs.get middle).bind_eq] at runs
                        split at runs <;> cases runs
                      · obtain ⟨further, shorter⟩ := ih runs
                        exact ⟨moved.trans further, Nat.lt_of_lt_of_le shorter moved.length⟩

/-- A handler that ends has only consumed. -/
theorem handle_consumes {program : HandlerProgram σ} {kind : BodyKind}
    {result : (ResponseData × σ) × Bool} (runs : (BodyReader.borrow kind do
      let answer ← program.run
      pure (answer, (← Async.get).isFinished)).Runs conn result after) :
    conn.Consumes after := by
  rw [Async.Runs, BodyReader.borrow, Prod.mk.injEq] at runs
  obtain ⟨ends, rfl⟩ := runs
  exact (Async.Moves.bind (program.run_moves consumes_respected)
    fun _ => .bind .get fun _ => .pure _).of_runs (Prod.ext ends rfl)

/-- A request that is served takes some bytes, and gets one response. -/
theorem serveOne_writes {keepAlive : Bool}
    (runs : (serveOne handler state).Runs conn (some (next, keepAlive)) after) :
    ∃ response : ResponseData, after.io.outbound = conn.io.outbound ++ response.message ∧
      after.stream.length < conn.stream.length ∧
      ((∀ segment ∈ conn.io.inbound, segment ≠ []) → ∀ segment ∈ after.io.inbound, segment ≠ []) := by
  obtain ⟨found, headed, reads, runs⟩ := Async.Runs.of_bind runs
  cases found with
  | none => cases runs
  | some head =>
      obtain ⟨consumes, shorter⟩ := readRequestHeadLoop_shrinks reads
      obtain ⟨kind, framed, decides, answers⟩ := Async.Runs.of_bind runs
      obtain ⟨⟨⟨response, state⟩, finished⟩, answered, handles, replies⟩ := Async.Runs.of_bind answers
      obtain ⟨_, written, writes, returns⟩ := Async.Runs.of_bind replies
      have message := writeMessage_runs answered response.head response.body
      obtain ⟨-, rfl⟩ := Async.Runs.unique message writes
      obtain ⟨-, rfl⟩ := Async.Runs.of_ofExcept decides
      cases returns
      have moved := handle_consumes handles
      have whole := consumes.trans moved
      refine ⟨response, ?_, Nat.lt_of_le_of_lt moved.length shorter, whole.segments⟩
      exact congrArg (· ++ response.message) whole.outbound

theorem Rounds.segments {count : Nat} (rounds : Rounds handler count state conn last after)
    (segments : ∀ segment ∈ conn.io.inbound, segment ≠ []) :
    ∀ segment ∈ after.io.inbound, segment ≠ [] := by
  induction rounds with
  | none => exact segments
  | round one rest ih =>
      obtain ⟨_, _, _, kept⟩ := serveOne_writes one
      exact ih (kept segments)

/-- One response to each request. -/
theorem Rounds.responses {count : Nat} (rounds : Rounds handler count state conn last after) :
    ∃ responses : List ResponseData, responses.length = count ∧
      after.io.outbound = conn.io.outbound ++ responses.flatMap ResponseData.message := by
  induction rounds with
  | none => exact ⟨[], rfl, (List.append_nil _).symm⟩
  | round one rest ih =>
      obtain ⟨response, written, _, _⟩ := serveOne_writes one
      obtain ⟨responses, counted, later⟩ := ih
      refine ⟨response :: responses, by rw [List.length_cons, counted], ?_⟩
      rw [later, written, List.flatMap_cons, List.append_assoc]

theorem Rounds.serveLoop_eq {count fuel : Nat} (rounds : Rounds handler count state conn last after)
    (enough : conn.stream.length < fuel) :
    ∃ fuel', after.stream.length < fuel' ∧
      serveLoop handler fuel state conn = serveLoop handler fuel' last after := by
  induction rounds generalizing fuel with
  | none => exact ⟨fuel, enough, rfl⟩
  | round one rest ih =>
      obtain ⟨_, _, shorter, _⟩ := serveOne_writes one
      obtain ⟨fuel, rfl⟩ := Nat.exists_eq_add_one_of_ne_zero (Nat.ne_zero_of_lt enough)
      obtain ⟨fuel', enough', same⟩ := @ih fuel (by omega)
      refine ⟨fuel', enough', ?_⟩
      rw [serveLoop, Async.Runs.bind_eq one]
      exact same

/-- A malformed request ends the connection without a word. -/
theorem serveOne_malformed (handler : Handler σ) (state : σ)
    (segments : ∀ segment ∈ conn.io.inbound, segment ≠ []) (malformed : Malformed conn.stream) :
    ∃ error after, serveOne handler state conn = (.failed error, after) ∧
      after.io.outbound = conn.io.outbound := by
  have reads : readRequestHead conn = headLoop parseRequestRanges
      (fun buf ranges => some (RequestHead.fromRanges buf ranges))
      (do if (← Async.get).buf = [] then pure none else Async.fail .connectionClosed)
      (conn.undelivered.length + 1) conn := by
    rw [readRequestHead, (Async.Runs.get conn).bind_eq, readRequestHeadLoop_eq]
  have settle := fun part verdict (word : FirstVerdict parseRequestRanges conn.stream part verdict) =>
    headLoop_settles parseRequestRanges_incremental
      (fun buf ranges => some (RequestHead.fromRanges buf ranges))
      (do if (← Async.get).buf = [] then pure none else Async.fail .connectionClosed)
      segments word (Nat.lt_succ_self _)
  cases ends : readRequestHead conn with
  | mk outcome after =>
      rw [← reads] at settle
      cases malformed with
      | head word =>
          have settles := settle _ _ word
          rw [ends] at settles
          cases settles with
          | found same => cases same
          | refused same outbound => exact ⟨_, after, Async.bind_failed ends, outbound⟩
          | oversize _ _ _ outbound => exact ⟨_, after, Async.bind_failed ends, outbound⟩
      | @framing part ranges error word kind =>
          have settles := settle _ _ word
          rw [ends] at settles
          cases settles with
          | found same segments eof stream ending outbound =>
              cases same
              refine ⟨error, after, ?_, outbound⟩
              rw [serveOne, Async.Runs.bind_eq ends]
              dsimp only
              rw [kind]
              exact Async.bind_failed rfl
          | refused same => cases same
          | oversize _ _ _ outbound => exact ⟨_, after, Async.bind_failed ends, outbound⟩

theorem message_ne_nil (response : ResponseData) : response.message ≠ [] := by
  simp [ResponseData.message, ResponseData.head, renderHead, crlf]

/-- A malformed request is not answered, whatever has been served before it. -/
theorem malformed_unanswered {count : Nat} {io : Transport}
    (segments : ∀ segment ∈ io.inbound, segment ≠ [])
    (rounds : Rounds handler count state (HttpConnection.new io) last conn)
    (malformed : Malformed conn.stream) :
    (∃ responses : List ResponseData, responses.length = count ∧
      conn.io.outbound = io.outbound ++ responses.flatMap ResponseData.message) ∧
    (∃ error, (serveConnection io handler state).1 = .failed error) ∧
    (serveConnection io handler state).2.io.outbound = conn.io.outbound ∧
    ¬ AnsweredBadRequest conn.io.outbound (serveConnection io handler state) := by
  have fits : (HttpConnection.new io).stream.length < io.inbound.flatten.length + 1 :=
    Nat.lt_succ_self _
  obtain ⟨fuel, enough, same⟩ := rounds.serveLoop_eq fits
  obtain ⟨fuel, rfl⟩ := Nat.exists_eq_add_one_of_ne_zero (Nat.ne_zero_of_lt enough)
  obtain ⟨error, after, fails, outbound⟩ := serveOne_malformed handler last
    (rounds.segments segments) malformed
  have ends : serveConnection io handler state = (.failed error, after) := by
    rw [serveConnection, same, serveLoop]
    exact Async.bind_failed fails
  refine ⟨rounds.responses, ⟨error, by rw [ends]⟩, by rw [ends]; exact outbound, ?_⟩
  rintro ⟨⟨response, _, written⟩, _⟩
  rw [ends] at written
  have nothing := List.append_cancel_left ((List.append_nil _).trans (outbound.symm.trans written))
  exact message_ne_nil response nothing.symm

/-- Answers every request, without reading a body. -/
def greet : Handler Unit := fun _ _ => .respond ⟨200, [], ascii "hi", by decide⟩ ()

theorem malformed_unanswered_first :
    let io : Transport := ⟨[ascii "BAD\r", ascii "\n\r\n"], .eof, []⟩
    ¬ AnsweredBadRequest [] (serveConnection io greet ()) :=
  (malformed_unanswered (by decide) (.none () (.new ⟨[ascii "BAD\r", ascii "\n\r\n"], .eof, []⟩))
    (.of_part (List.prefix_refl _) (by decide) (by rfl))).2.2.2

/-- A request with both framing headers. -/
theorem not_answered_conflicting :
    let stream := ascii "GET / HTTP/1.1\r\nTransfer-Encoding: chunked\r\nContent-Length: 5\r\n\r\n"
    let result := serveConnection ⟨[stream], .eof, []⟩ greet ()
    Malformed stream ∧
      result.1 = .failed (.conflictingHeaders "both Transfer-Encoding and Content-Length") ∧
      result.2.io.outbound = [] ∧ ¬ AnsweredBadRequest [] result := by
  intro stream result
  have ends : result.1 =
      .failed (.conflictingHeaders "both Transfer-Encoding and Content-Length") := by
    decide +kernel
  have written : result.2.io.outbound = [] := by decide +kernel
  have parsed : parseRequestRanges stream = .ok (some
    ⟨(⟨0, 3⟩, ⟨4, 5⟩), .http11, none, [(⟨16, 33⟩, ⟨35, 42⟩), (⟨44, 58⟩, ⟨60, 61⟩)], 65⟩) := by rfl
  refine ⟨.of_unframed (List.prefix_refl _) (by decide) parsed (by rfl), ends, written, ?_⟩
  rintro ⟨⟨response, _, answered⟩, _⟩
  rw [written, List.nil_append] at answered
  exact message_ne_nil response answered.symm

end TptAsync.Http
