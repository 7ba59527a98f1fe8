import TptAsync.Http.Leftovers
import TptAsync.Http.HeadLimit

set_option autoImplicit false

/-!
# Interim responses

A server may send any number of heads with a status 1xx in front of the response proper. The client
takes the first head that comes for the one of the response.
-/

namespace TptAsync.Http

open Lib HttpConnection

section UntilEof

namespace BodyReader

variable {reader : BodyReader} {body : Bytes}

theorem readToVecLoop_untilEof {max fuel : Nat} {out : Bytes} (live : reader.conn.Live)
    (framing : reader.kind = .untilEof) (unfinished : reader.finished = false)
    (ends : reader.conn.io.ending = .eof) (stream : reader.conn.stream = body)
    (fits : out.length + body.length ≤ max) (enough : body.length < fuel) :
    ∃ after, (readToVecLoop max fuel out).Runs reader (out ++ body) after ∧ after.conn.stream = [] := by
  induction fuel generalizing reader body out with
  | zero => exact absurd enough (Nat.not_lt_zero _)
  | succ fuel ih =>
      have framed : readFramed reader.kind 8192 = onConn (readRaw 8192) := by rw [framing]; rfl
      have reads : read 8192 reader = (do
          let data ← onConn (readRaw 8192)
          if data.length = 0 then
            Async.modify fun reader => { reader with finished := true }
            pure data
          else pure data) reader := by
        rw [read, (Async.Runs.get reader).bind_eq, if_neg (by simp [unfinished]), framed]
      by_cases empty : body = []
      · subst empty
        have nothing := readRaw_ended live stream 8192
        rw [ends] at nothing
        have ended : (onConn (readRaw 8192)).Runs reader [] reader := Async.Runs.zoom nothing
        have none : (read 8192).Runs reader [] { reader with finished := true } := by
          rw [Async.Runs, reads, ended.bind_eq, if_pos List.length_nil]
          rfl
        refine ⟨{ reader with finished := true }, none.bind ?_, stream⟩
        rw [if_pos List.length_nil, List.append_nil]
        exact .pure _ _
      · obtain ⟨data, conn, takes, nonempty, _, advances, _⟩ :=
          readRaw_runs live (stream ▸ empty) (Nat.succ_pos 8191)
        have positive := List.length_pos_of_ne_nil nonempty
        have some : (read 8192).Runs reader data { reader with conn } := by
          rw [Async.Runs, reads, (Runs.onConn takes).bind_eq, if_neg positive.ne']
          rfl
        have split : body = data ++ conn.stream := stream.symm.trans advances.stream
        have lengths : body.length = data.length + conn.stream.length := by
          rw [split, List.length_append]
        obtain ⟨after, loops, left⟩ := @ih { reader with conn } conn.stream (out ++ data) advances.live
          framing unfinished (advances.ending.trans ends) rfl (by rw [List.length_append]; omega)
          (by omega)
        refine ⟨after, some.bind ?_, left⟩
        rw [if_neg positive.ne', if_neg (by omega), split, ← List.append_assoc]
        exact loops

/-- A body that the end of the stream delimits is read up to there. -/
theorem readToVec_untilEof {max : Nat} {conn : HttpConnection} (live : conn.Live)
    (ends : conn.io.ending = .eof) (stream : conn.stream = body) (fits : body.length ≤ max) :
    ∃ after, (readToVec max).Runs (.new conn .untilEof) body after ∧ after.conn.stream = [] := by
  have enough : body.length < conn.buf.length + conn.undelivered.length + 1 := by
    rw [← stream, HttpConnection.stream, List.length_append]
    exact Nat.lt_succ_self _
  obtain ⟨after, loops, left⟩ := @readToVecLoop_untilEof (.new conn .untilEof) body max _ [] live rfl rfl
    ends stream (by simpa using fits) enough
  exact ⟨after, (Async.Runs.get _).bind loops, left⟩

end BodyReader

end UntilEof

section Interim

/-- A status that announces another head. -/
def isInterim (status : Nat) : Bool := 100 ≤ status && status < 200 && status ≠ 101

/-- The head of an interim response. -/
structure Interim where
  head : Bytes
  ranges : HeadRanges
  whole : WholeHead parseResponseRanges head ranges
  interim : isInterim (ranges.status.getD 200) = true

/-- The response proper: the bytes of its head, the bytes behind it, and the body that these stand
for. Its head fits the buffer however it is delivered. -/
structure FinalResponse (isHeadRequest : Bool) where
  head : Bytes
  wire : Bytes
  body : Bytes
  ranges : HeadRanges
  kind : BodyKind
  whole : WholeHead parseResponseRanges head ranges
  size : head.length ≤ maxHead - readChunk
  final : isInterim (ranges.status.getD 200) = false
  framing : responseBodyKind ⟨head, ranges.headers⟩ (ranges.status.getD 200) isHeadRequest = .ok kind
  delimited : kind = .empty ∧ wire = [] ∧ body = [] ∨ BodyReader.Delimited kind wire body ∨
    kind = .untilEof ∧ wire = body

variable {request : Request} {interims : List Interim} {final : FinalResponse request.isHead}

/-- However the heads and the response arrive: the send returns the head of the response proper, its
reader reads the body, and the connection is left behind the response. -/
def SkipsInterims (request : Request) (interims : List Interim) (final : FinalResponse request.isHead) :
    Prop :=
  ∀ host conn later, conn.Live → conn.buf.length ≤ maxHead →
    conn.stream = interims.flatMap Interim.head ++ (final.head ++ (final.wire ++ later)) →
    (final.kind = .untilEof → later = [] ∧ conn.io.ending = .eof) →
    ∃ response after, (ClientConnection.send request host).Runs conn response after ∧
      response.head = .fromRanges final.head final.ranges ∧
      ∀ max, final.body.length ≤ max → ∃ reader,
        (BodyReader.readToVec max).Runs response.body final.body reader ∧ reader.conn.stream = later

/-- Without an interim head, the response is the first thing that comes. -/
theorem skipsInterims_nil (final : FinalResponse request.isHead) : SkipsInterims request [] final := by
  intro host conn later live buffered shape closes
  rw [List.flatMap_nil, List.nil_append] at shape
  obtain ⟨after, sends, advances⟩ := @ClientConnection.send_found conn _ host _ _ _ _ live shape buffered
    final.whole.parsed final.whole.whole final.size final.framing
  have stream : after.stream = final.wire ++ later :=
    (List.append_cancel_left (shape.symm.trans advances.stream)).symm
  refine ⟨_, after, sends, rfl, fun max fits => ?_⟩
  rcases final.delimited with ⟨kind, wire, body⟩ | delimited | ⟨kind, same⟩
  · rw [wire, List.nil_append] at stream
    rw [body] at fits ⊢
    have holds : BodyReader.Holds (.new after final.kind) later [] := .done (by rw [kind]; rfl) stream
    obtain ⟨reader, reads, _, left, _⟩ := BodyReader.readToVec_runs advances.live holds fits
    exact ⟨reader, reads, left⟩
  · obtain ⟨reader, reads, _, left, _⟩ :=
      BodyReader.readToVec_runs advances.live (delimited.holds stream) fits
    exact ⟨reader, reads, left⟩
  · obtain ⟨rfl, ends⟩ := closes kind
    rw [List.append_nil, same] at stream
    rw [kind]
    exact BodyReader.readToVec_untilEof advances.live (advances.ending.trans ends) stream fits

/-- An interim head is returned for the head of the response. -/
theorem Interim.returned (interim : Interim) (request : Request) (host : Bytes)
    {conn : HttpConnection} (buffered : conn.buf = interim.head) :
    ∃ after, (ClientConnection.send request host).Runs conn
      ⟨.fromRanges interim.head interim.ranges, .new after .empty⟩ after := by
  have parsed : parseResponseRanges (ClientConnection.requested request host conn).buf =
      .ok (some interim.ranges) := by
    rw [← interim.whole.parsed, ← buffered]
    rfl
  have reads := readResponseHead_buffered parsed
  have front : (ClientConnection.requested request host conn).buf.take interim.ranges.consumed =
      interim.head := by
    rw [interim.whole.whole, ← buffered]
    exact List.take_length
  rw [front] at reads
  refine ⟨_, ClientConnection.send_of_head reads ?_⟩
  have range := interim.interim
  simp only [isInterim, Bool.and_eq_true, decide_eq_true_eq] at range
  exact if_pos (.inr (.inr range.1))

theorem not_skipsInterims_cons (interim : Interim) :
    ¬ SkipsInterims request (interim :: interims) final := by
  intro skips
  obtain ⟨conn, live, came, coming, ends⟩ := ResponseData.exists_live interim.head
    (interims.flatMap Interim.head ++ (final.head ++ final.wire))
  have buffered : conn.buf.length ≤ maxHead :=
    came ▸ interim.whole.fits parseResponseRanges_incremental
  have shape : conn.stream = (interim :: interims).flatMap Interim.head ++
      (final.head ++ (final.wire ++ [])) := by
    rw [HttpConnection.stream, came, coming, List.flatMap_cons, List.append_nil, List.append_assoc]
  obtain ⟨response, _, sends, proper, _⟩ := skips [] conn [] live buffered shape fun _ => ⟨rfl, ends⟩
  obtain ⟨_, returns⟩ := interim.returned request [] came
  obtain ⟨rfl, _⟩ := sends.unique returns
  -- The status tells the two heads apart.
  have status : interim.ranges.status.getD 200 = final.ranges.status.getD 200 :=
    congrArg ResponseHead.status proper
  have clash := interim.interim
  rw [status, final.final] at clash
  cases clash

/-- The client gets the response proper exactly if no interim head comes in front of it. -/
theorem interims_skipped_iff (request : Request) (interims : List Interim)
    (final : FinalResponse request.isHead) : SkipsInterims request interims final ↔ interims = [] := by
  constructor
  · intro skips
    cases interims with
    | nil => rfl
    | cons interim rest => exact absurd skips (not_skipsInterims_cons interim)
  · rintro rfl
    exact skipsInterims_nil final

def continueHead : Interim where
  head := ascii "HTTP/1.1 100 Continue\r\n\r\n"
  ranges := ⟨(⟨13, 21⟩, ⟨13, 21⟩), .http11, some 100, [], 25⟩
  whole := ⟨by rfl, rfl⟩
  interim := by decide

theorem noContent_fits : (ascii "HTTP/1.1 204 No Content\r\n\r\n").length ≤ maxHead - readChunk := by
  decide

def noContentResponse : FinalResponse (ResponseData.bare (ascii "GET")).isHead where
  head := ascii "HTTP/1.1 204 No Content\r\n\r\n"
  wire := []
  body := []
  ranges := ⟨(⟨13, 23⟩, ⟨13, 23⟩), .http11, some 204, [], 27⟩
  kind := .empty
  whole := ⟨by rfl, rfl⟩
  size := noContent_fits
  final := by decide
  framing := rfl
  delimited := .inl ⟨rfl, rfl, rfl⟩

theorem interims_unskipped :
    ¬ SkipsInterims (ResponseData.bare (ascii "GET")) [continueHead] noContentResponse :=
  not_skipsInterims_cons continueHead

end Interim

end TptAsync.Http
