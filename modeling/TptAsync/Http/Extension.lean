import TptAsync.Http.Client
import TptAsync.Http.ConnectionProperties

set_option autoImplicit false

/-!
# Segments that are not needed

What an action comes to without waiting, it comes to as well when more segments stand behind those
that it needs, and it leaves these as they are.
-/

namespace TptAsync.Http

open Lib

variable {rest : List Bytes} {ending : Ending}

/-- The second transport delivers `rest` where the first one waits. -/
def Transport.Extended (rest : List Bytes) (ending : Ending) (io io' : Transport) : Prop :=
  io.ending = .pending ∧ io' = { io with inbound := io.inbound ++ rest, ending := ending }

structure HttpConnection.Extended (rest : List Bytes) (ending : Ending)
    (conn conn' : HttpConnection) : Prop where
  io : conn.io.Extended rest ending conn'.io
  buf : conn'.buf = conn.buf
  eof : conn'.eof = conn.eof

theorem Transport.pollRead_follows {io io' : Transport} (extended : io.Extended rest ending io')
    (capacity : Nat) :
    Async.Follows (Transport.Extended rest ending) (pollRead capacity) (pollRead capacity) io io' := by
  obtain ⟨pending, rfl⟩ := extended
  obtain ⟨inbound, waiting, outbound⟩ := io
  cases pending
  intro ended
  cases inbound with
  | nil => exact absurd rfl ended
  | cons segment later =>
      refine ⟨rfl, rfl, ?_⟩
      simp only [pollRead, List.cons_append]
      split <;> rfl

namespace HttpConnection

variable {conn conn' : HttpConnection}

theorem Extended.undelivered_le (extended : Extended rest ending conn conn') :
    conn.undelivered.length ≤ conn'.undelivered.length := by
  rw [undelivered, undelivered, extended.io.2, List.flatten_append, List.length_append]
  exact Nat.le_add_right _ _

theorem Extended.drop (extended : Extended rest ending conn conn') (count : Nat) :
    Extended rest ending { conn with buf := conn.buf.drop count }
      { conn' with buf := conn'.buf.drop count } :=
  ⟨extended.io, congrArg (·.drop count) extended.buf, extended.eof⟩

theorem onIo_follows {α : Type} {action : Async HttpError Transport α}
    (follows : Async.Follows (Transport.Extended rest ending) action action conn.io conn'.io)
    (buf : conn'.buf = conn.buf) (eof : conn'.eof = conn.eof) :
    Async.Follows (Extended rest ending) (onIo action) (onIo action) conn conn' :=
  follows.zoom fun _ _ io => ⟨io, buf, eof⟩

theorem fill_follows (extended : Extended rest ending conn conn') :
    Async.Follows (Extended rest ending) fill fill conn conn' := by
  intro ended
  have reads := Transport.pollRead_follows extended.io readChunk
  rw [fill_eq] at ended
  rw [Async.Agrees, fill_eq, fill_eq]
  cases polled : Transport.pollRead readChunk conn.io with
  | mk outcome io =>
      cases polled' : Transport.pollRead readChunk conn'.io with
      | mk outcome' io' =>
          rw [Async.Follows, Async.Agrees, polled, polled'] at reads
          rw [polled] at ended
          cases outcome with
          | pending => exact absurd rfl ended
          | failed error =>
              obtain ⟨same, after⟩ := reads (by simp)
              cases same
              exact ⟨rfl, after, extended.buf, extended.eof⟩
          | ready data =>
              obtain ⟨same, after⟩ := reads (by simp)
              cases same
              refine ⟨rfl, after, congrArg (· ++ data) extended.buf, ?_⟩
              simp only [extended.eof]

theorem readRaw_follows (extended : Extended rest ending conn conn') (capacity : Nat) :
    Async.Follows (Extended rest ending) (readRaw capacity) (readRaw capacity) conn conn' := by
  refine .get_bind ?_
  rw [extended.buf]
  split
  · have same := extended.drop capacity
    rw [extended.buf] at same
    exact .bind (Async.Agrees.set same).follows fun _ _ _ same => (Async.Agrees.pure _ same).follows
  · exact onIo_follows (Transport.pollRead_follows extended.io capacity) extended.buf extended.eof

theorem readLineLoop_follows {fuel fuel' : Nat} (extended : Extended rest ending conn conn')
    (enough : fuel ≤ fuel') :
    Async.Follows (Extended rest ending) (readLineLoop fuel) (readLineLoop fuel') conn conn' := by
  induction fuel generalizing fuel' conn conn' with
  | zero => exact .wait
  | succ fuel ih =>
      obtain ⟨fuel', rfl⟩ := Nat.exists_eq_succ_of_ne_zero (Nat.zero_lt_of_lt enough).ne'
      refine .get_bind ?_
      rw [extended.buf]
      cases find crlf conn.buf with
      | some position =>
          have same := extended.drop (position + 2)
          rw [extended.buf] at same
          exact .bind (Async.Agrees.set same).follows fun _ _ _ same => (Async.Agrees.pure _ same).follows
      | none =>
          dsimp only
          rw [extended.eof]
          split
          · exact (Async.Agrees.fail _ extended).follows
          · refine .bind (fill_follows extended) fun count _ _ extended => ?_
            split
            · exact (Async.Agrees.fail _ extended).follows
            · exact ih extended (Nat.le_of_succ_le_succ enough)

theorem readLine_follows (extended : Extended rest ending conn conn') :
    Async.Follows (Extended rest ending) readLine readLine conn conn' :=
  .get_bind (readLineLoop_follows extended (Nat.succ_le_succ extended.undelivered_le))

theorem expectLoop_follows {fuel missing : Nat} {got : Bytes}
    (extended : Extended rest ending conn conn') :
    Async.Follows (Extended rest ending) (expectLoop fuel missing got) (expectLoop fuel missing got)
      conn conn' := by
  induction fuel generalizing missing got conn conn' with
  | zero => exact .wait
  | succ fuel ih =>
      rw [expectLoop]
      split
      · refine .bind (readRaw_follows extended missing) fun data _ _ extended => ?_
        split
        · exact (Async.Agrees.fail _ extended).follows
        · exact ih extended
      · exact (Async.Agrees.pure _ extended).follows

theorem expectExact_follows (extended : Extended rest ending conn conn') (expected : Bytes) :
    Async.Follows (Extended rest ending) (expectExact expected) (expectExact expected) conn conn' := by
  refine .bind (expectLoop_follows extended) fun got _ _ extended => ?_
  split
  · exact (Async.Agrees.fail _ extended).follows
  · exact (Async.Agrees.pure _ extended).follows

theorem readResponseHeadLoop_follows {fuel fuel' : Nat} (extended : Extended rest ending conn conn')
    (enough : fuel ≤ fuel') :
    Async.Follows (Extended rest ending) (readResponseHeadLoop fuel) (readResponseHeadLoop fuel')
      conn conn' := by
  induction fuel generalizing fuel' conn conn' with
  | zero => exact .wait
  | succ fuel ih =>
      obtain ⟨fuel', rfl⟩ := Nat.exists_eq_succ_of_ne_zero (Nat.zero_lt_of_lt enough).ne'
      have emptied : Extended rest ending { conn with buf := [] } { conn' with buf := [] } :=
        ⟨extended.io, rfl, extended.eof⟩
      refine .get_bind (.bind (Async.Agrees.set emptied).follows fun _ first second same => ?_)
      rw [extended.buf]
      refine .bind (Async.Agrees.ofExcept _ same).follows fun found first second same => ?_
      cases found with
      | some ranges =>
          have same := extended.drop ranges.consumed
          rw [extended.buf] at same
          exact .bind (Async.Agrees.set same).follows fun _ _ _ same => (Async.Agrees.pure _ same).follows
      | none =>
          refine .bind (Async.Agrees.set extended).follows fun _ _ _ extended => ?_
          refine .bind (fill_follows extended) fun count _ _ extended => ?_
          split
          · exact (Async.Agrees.fail _ extended).follows
          · exact ih extended (Nat.le_of_succ_le_succ enough)

theorem readResponseHead_follows (extended : Extended rest ending conn conn') :
    Async.Follows (Extended rest ending) readResponseHead readResponseHead conn conn' :=
  .get_bind (readResponseHeadLoop_follows extended (Nat.succ_le_succ extended.undelivered_le))

end HttpConnection

namespace BodyReader

open HttpConnection

structure Extended (rest : List Bytes) (ending : Ending) (reader reader' : BodyReader) : Prop where
  conn : reader.conn.Extended rest ending reader'.conn
  same : { reader' with conn := reader.conn } = reader

variable {reader reader' : BodyReader} {capacity : Nat}

theorem onConn_follows {α : Type} {action : Async HttpError HttpConnection α}
    (extended : Extended rest ending reader reader')
    (follows : Async.Follows (HttpConnection.Extended rest ending) action action reader.conn
      reader'.conn) :
    Async.Follows (Extended rest ending) (onConn action) (onConn action) reader reader' :=
  follows.zoom fun after _ conn =>
    ⟨conn, congrArg (fun reader : BodyReader => { reader with conn := after }) extended.same⟩

theorem modify_follows {change : BodyReader → BodyReader}
    (extended : Extended rest ending reader reader')
    (keeps : ∀ reader conn, { change reader with conn } = change { reader with conn })
    (conn : ∀ reader, (change reader).conn = reader.conn) :
    Async.Follows (Extended rest ending) (Async.modify (ε := HttpError) change) (Async.modify change)
      reader reader' := by
  refine (Async.Agrees.modify ⟨?_, ?_⟩).follows
  · rw [conn, conn]
    exact extended.conn
  · rw [conn, keeps]
    exact congrArg change extended.same

theorem readContentLength_follows (extended : Extended rest ending reader reader') :
    Async.Follows (Extended rest ending) (readContentLength capacity) (readContentLength capacity)
      reader reader' := by
  refine .get_bind ?_
  have remaining := congrArg BodyReader.remaining extended.same
  dsimp only at remaining
  rw [remaining]
  split
  · exact (Async.Agrees.pure _ extended).follows
  · refine .bind (onConn_follows extended (readRaw_follows extended.conn _)) fun data _ _ extended => ?_
    split
    · exact (Async.Agrees.fail _ extended).follows
    · exact .bind (modify_follows extended (fun _ _ => rfl) fun _ => rfl) fun _ _ _ extended =>
        (Async.Agrees.pure _ extended).follows

theorem readChunkData_follows (extended : Extended rest ending reader reader') :
    Async.Follows (Extended rest ending) (readChunkData capacity) (readChunkData capacity)
      reader reader' := by
  refine .get_bind ?_
  have remaining := congrArg BodyReader.chunkRemaining extended.same
  dsimp only at remaining
  rw [remaining]
  refine .bind (onConn_follows extended (readRaw_follows extended.conn _)) fun data _ _ extended => ?_
  split
  · exact (Async.Agrees.fail _ extended).follows
  · refine .bind (modify_follows extended (fun _ _ => rfl) fun _ => rfl) fun _ _ _ extended =>
      .get_bind ?_
    have remaining := congrArg BodyReader.chunkRemaining extended.same
    dsimp only at remaining
    rw [remaining]
    split
    · exact .bind (onConn_follows extended (expectExact_follows extended.conn _)) fun _ _ _ extended =>
        (Async.Agrees.pure _ extended).follows
    · exact (Async.Agrees.pure _ extended).follows

theorem skipTrailers_follows {fuel fuel' : Nat} (extended : Extended rest ending reader reader')
    (enough : fuel ≤ fuel') :
    Async.Follows (Extended rest ending) (skipTrailers fuel) (skipTrailers fuel') reader reader' := by
  induction fuel generalizing fuel' reader reader' with
  | zero => exact .wait
  | succ fuel ih =>
      obtain ⟨fuel', rfl⟩ := Nat.exists_eq_succ_of_ne_zero (Nat.zero_lt_of_lt enough).ne'
      refine .bind (onConn_follows extended (readLine_follows extended.conn)) fun _ _ _ extended => ?_
      split
      · exact (Async.Agrees.pure _ extended).follows
      · exact ih extended (Nat.le_of_succ_le_succ enough)

theorem stream_le (extended : reader.conn.Extended rest ending reader'.conn) :
    reader.conn.buf.length + reader.conn.undelivered.length + 1 ≤
      reader'.conn.buf.length + reader'.conn.undelivered.length + 1 := by
  have longer := extended.undelivered_le
  rw [extended.buf]
  omega

theorem readChunked_follows (extended : Extended rest ending reader reader') :
    Async.Follows (Extended rest ending) (readChunked capacity) (readChunked capacity)
      reader reader' := by
  refine .get_bind ?_
  have remaining := congrArg BodyReader.chunkRemaining extended.same
  dsimp only at remaining
  rw [remaining]
  split
  · exact readChunkData_follows extended
  · refine .bind (onConn_follows extended (readLine_follows extended.conn)) fun line _ _ extended => ?_
    refine .bind (Async.Agrees.ofExcept _ extended).follows fun size _ _ extended => ?_
    split
    · refine .get_bind (.bind (skipTrailers_follows extended (stream_le extended.conn)) fun _ _ _ extended => ?_)
      exact .bind (modify_follows extended (fun _ _ => rfl) fun _ => rfl) fun _ _ _ extended =>
        (Async.Agrees.pure _ extended).follows
    · exact .bind (modify_follows extended (fun _ _ => rfl) fun _ => rfl) fun _ _ _ extended =>
        readChunkData_follows extended

theorem read_follows (extended : Extended rest ending reader reader') :
    Async.Follows (Extended rest ending) (read capacity) (read capacity) reader reader' := by
  refine .get_bind ?_
  have finished := congrArg BodyReader.finished extended.same
  have kind := congrArg BodyReader.kind extended.same
  dsimp only at finished kind
  rw [finished, kind]
  split
  · exact (Async.Agrees.pure _ extended).follows
  · refine .bind ?_ fun data _ _ extended => ?_
    · cases reader.kind with
      | empty => exact (Async.Agrees.pure _ extended).follows
      | contentLength length => exact readContentLength_follows extended
      | chunked => exact readChunked_follows extended
      | untilEof => exact onConn_follows extended (readRaw_follows extended.conn _)
    · split
      · exact .bind (modify_follows extended (fun _ _ => rfl) fun _ => rfl) fun _ _ _ extended =>
          (Async.Agrees.pure _ extended).follows
      · exact (Async.Agrees.pure _ extended).follows

theorem readToVecLoop_follows {max fuel fuel' : Nat} {out : Bytes}
    (extended : Extended rest ending reader reader') (enough : fuel ≤ fuel') :
    Async.Follows (Extended rest ending) (readToVecLoop max fuel out) (readToVecLoop max fuel' out)
      reader reader' := by
  induction fuel generalizing fuel' out reader reader' with
  | zero => exact .wait
  | succ fuel ih =>
      obtain ⟨fuel', rfl⟩ := Nat.exists_eq_succ_of_ne_zero (Nat.zero_lt_of_lt enough).ne'
      refine .bind (read_follows extended) fun data _ _ extended => ?_
      split
      · exact (Async.Agrees.pure _ extended).follows
      · split
        · exact (Async.Agrees.fail _ extended).follows
        · exact ih extended (Nat.le_of_succ_le_succ enough)

theorem readToVec_follows (extended : Extended rest ending reader reader') (max : Nat) :
    Async.Follows (Extended rest ending) (readToVec max) (readToVec max) reader reader' :=
  .get_bind (readToVecLoop_follows extended (stream_le extended.conn))

end BodyReader

end TptAsync.Http
