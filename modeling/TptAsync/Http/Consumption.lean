import TptAsync.Http.ConnectionProperties
import TptAsync.Http.Server

set_option autoImplicit false

/-!
# Reading consumes

Whatever the bytes are and however a read ends, it only takes bytes off the stream, and
writes nothing.
-/

namespace TptAsync.Http

open Lib

/-- A reader has gone some way along the stream, or stayed where it was. -/
structure HttpConnection.Consumes (before after : HttpConnection) : Prop where
  segments : (∀ segment ∈ before.io.inbound, segment ≠ []) →
    ∀ segment ∈ after.io.inbound, segment ≠ []
  length : after.stream.length ≤ before.stream.length
  outbound : after.io.outbound = before.io.outbound

namespace HttpConnection

variable {before middle after conn : HttpConnection}

instance : Std.Refl Consumes := ⟨fun _ => ⟨id, le_rfl, rfl⟩⟩

theorem Consumes.trans (first : Consumes before middle) (second : Consumes middle after) :
    Consumes before after :=
  ⟨second.segments ∘ first.segments, second.length.trans first.length,
    second.outbound.trans first.outbound⟩

instance : Trans Consumes Consumes Consumes := ⟨Consumes.trans⟩

/-- The bytes that a read takes off the transport, if it is ready. -/
theorem pollRead_takes (io : Transport) (capacity : Nat) :
    ∃ data inbound, (Transport.pollRead capacity io).2 = { io with inbound } ∧
      io.inbound.flatten = data ++ inbound.flatten ∧
      ((∀ segment ∈ io.inbound, segment ≠ []) → ∀ segment ∈ inbound, segment ≠ []) ∧
      ∀ value, (Transport.pollRead capacity io).1 = .ready value → value = data := by
  obtain ⟨inbound, ending, outbound⟩ := io
  cases inbound with
  | nil =>
      refine ⟨[], [], ?_, rfl, id, ?_⟩
      · cases ending <;> rfl
      · cases ending <;> simp [Transport.pollRead]
  | cons segment rest =>
      refine ⟨segment.take capacity,
        if segment.length ≤ capacity then rest else segment.drop capacity :: rest, rfl, ?_, ?_, ?_⟩
      · split
        · next whole => rw [List.take_of_length_le whole, List.flatten_cons]
        · rw [List.flatten_cons, List.flatten_cons, ← List.append_assoc, List.take_append_drop]
      · intro segments other member
        split at member
        · exact segments other (.tail _ member)
        · next longer =>
            rcases List.mem_cons.mp member with rfl | later
            · exact List.ne_nil_of_length_pos (by rw [List.length_drop]; omega)
            · exact segments other (.tail _ later)
      · exact fun value ready => (Outcome.ready.inj ready).symm

/-- A poll of the transport, whatever it comes to. -/
theorem pollRead_consumes (conn : HttpConnection) (capacity : Nat) :
    conn.Consumes { conn with io := (Transport.pollRead capacity conn.io).2 } := by
  obtain ⟨data, inbound, after, taken, segments, _⟩ := pollRead_takes conn.io capacity
  rw [after]
  refine ⟨segments, ?_, rfl⟩
  simp only [stream, undelivered, taken, List.length_append]
  omega

theorem fill_moves : Async.Moves Consumes Async.Unknown fill := by
  intro conn
  have kept := pollRead_consumes conn readChunk
  obtain ⟨data, inbound, after, taken, segments, same⟩ := pollRead_takes conn.io readChunk
  rw [fill_eq]
  cases ends : Transport.pollRead readChunk conn.io with
  | mk outcome io =>
      rw [ends] at kept after same
      cases outcome with
      | pending => trivial
      | failed error => exact kept
      | ready value =>
          obtain rfl := same value rfl
          cases after
          refine ⟨segments, ?_, rfl⟩
          change (conn.buf ++ value ++ inbound.flatten).length ≤
            (conn.buf ++ conn.io.inbound.flatten).length
          rw [taken, List.append_assoc]

theorem drop_consumes (conn : HttpConnection) (count : Nat) :
    conn.Consumes { conn with buf := conn.buf.drop count } := by
  refine ⟨id, ?_, rfl⟩
  simp only [stream, undelivered, List.length_append, List.length_drop]
  omega

theorem readRaw_moves (capacity : Nat) : Async.Moves Consumes Async.Unknown (readRaw capacity) := by
  intro conn
  rw [readRaw, (Async.Runs.get conn).bind_eq]
  by_cases buffered : conn.buf ≠ []
  · rw [if_pos buffered]
    exact drop_consumes conn capacity
  · have kept := pollRead_consumes conn capacity
    rw [if_neg buffered, onIo, Async.zoom]
    cases ends : Transport.pollRead capacity conn.io with
    | mk outcome io =>
        rw [ends] at kept
        cases outcome with
        | ready data => exact kept
        | failed error => exact kept
        | pending => trivial

/-- A relation that the primitive reads respect, and so all that are made of them. -/
structure Respected (related stuck : HttpConnection → HttpConnection → Prop) : Prop where
  fill : Async.Moves related stuck fill
  readRaw : ∀ capacity, Async.Moves related stuck (readRaw capacity)
  drop : ∀ conn count, related conn { conn with buf := conn.buf.drop count }

theorem consumes_respected : Respected Consumes Async.Unknown where
  fill := fill_moves
  readRaw := readRaw_moves
  drop := drop_consumes

variable {related stuck : HttpConnection → HttpConnection → Prop} [Std.Refl related]
  [Std.Refl stuck] [Trans related related related] [Trans related stuck stuck]
  (reads : Respected related stuck)
include reads

theorem readLineLoop_moves (fuel : Nat) : Async.Moves related stuck (readLineLoop fuel) := by
  induction fuel with
  | zero => exact .wait
  | succ fuel ih =>
      intro conn
      rw [readLineLoop, (Async.Runs.get conn).bind_eq]
      cases find crlf conn.buf with
      | some position => exact reads.drop conn _
      | none =>
          dsimp only
          by_cases closed : conn.buf = [] ∧ conn.eof = true
          · rw [if_pos closed]
            exact Std.Refl.refl conn
          · rw [if_neg closed]
            refine Async.Moves.bind reads.fill (fun count => ?_) conn
            split
            · exact .fail _
            · exact ih

theorem readLine_moves : Async.Moves related stuck readLine :=
  .bind .get fun _ => readLineLoop_moves reads _

theorem expectLoop_moves (fuel missing : Nat) (got : Bytes) :
    Async.Moves related stuck (expectLoop fuel missing got) := by
  induction fuel generalizing missing got with
  | zero => exact .wait
  | succ fuel ih =>
      rw [expectLoop]
      split
      · refine .bind (reads.readRaw missing) fun data => ?_
        split
        · exact .fail _
        · exact ih _ _
      · exact .pure _

theorem expectExact_moves (expected : Bytes) : Async.Moves related stuck (expectExact expected) := by
  refine .bind (expectLoop_moves reads _ _ _) fun got => ?_
  split
  · exact .fail _
  · exact .pure _

end HttpConnection

namespace BodyReader

open HttpConnection

/-- A relation between connections, on the readers that hold them. -/
def OnConn (related : HttpConnection → HttpConnection → Prop) (before after : BodyReader) : Prop :=
  related before.conn after.conn

variable {related stuck : HttpConnection → HttpConnection → Prop}

instance [Std.Refl related] : Std.Refl (OnConn related) := ⟨fun reader => Std.Refl.refl reader.conn⟩

instance [Trans related stuck stuck] : Trans (OnConn related) (OnConn stuck) (OnConn stuck) :=
  ⟨fun first second => Trans.trans (r := related) (s := stuck) first second⟩

theorem onConn_moves {α : Type} {action : Async HttpError HttpConnection α}
    (moves : Async.Moves related stuck action) : Async.Moves (OnConn related) (OnConn stuck) (onConn action) :=
  moves.zoom (fun _ _ => id) fun _ _ => id

variable [Std.Refl related]

theorem modify_moves {update : BodyReader → BodyReader}
    (same : ∀ reader, (update reader).conn = reader.conn) :
    Async.Moves (OnConn related) (OnConn stuck) (Async.modify (ε := HttpError) update) := by
  intro reader
  change related reader.conn (update reader).conn
  rw [same]
  exact Std.Refl.refl _

variable [Std.Refl stuck] [Trans related related related] [Trans related stuck stuck]
  (reads : Respected related stuck)
include reads

omit [Std.Refl stuck] in
theorem readContentLength_moves (capacity : Nat) :
    Async.Moves (OnConn related) (OnConn stuck) (readContentLength capacity) := by
  refine .bind .get fun reader => ?_
  split
  · exact .pure _
  · refine .bind (onConn_moves (reads.readRaw _)) fun data => ?_
    split
    · exact .fail _
    · exact .bind (modify_moves fun _ => rfl) fun _ => .pure _

theorem readChunkData_moves (capacity : Nat) :
    Async.Moves (OnConn related) (OnConn stuck) (readChunkData capacity) := by
  refine .bind .get fun reader => .bind (onConn_moves (reads.readRaw _)) fun data => ?_
  split
  · exact .fail _
  · refine .bind (modify_moves fun _ => rfl) fun _ => .bind .get fun reader => ?_
    split
    · exact .bind (onConn_moves (expectExact_moves reads _)) fun _ => .pure _
    · exact .pure _

theorem skipTrailers_moves (fuel : Nat) : Async.Moves (OnConn related) (OnConn stuck) (skipTrailers fuel) := by
  induction fuel with
  | zero => exact .wait
  | succ fuel ih =>
      refine .bind (onConn_moves (readLine_moves reads)) fun trailer => ?_
      split
      · exact .pure _
      · exact ih

theorem readChunked_moves (capacity : Nat) : Async.Moves (OnConn related) (OnConn stuck) (readChunked capacity) := by
  refine .bind .get fun reader => ?_
  split
  · exact readChunkData_moves reads capacity
  · refine .bind (onConn_moves (readLine_moves reads)) fun line => .bind (.ofExcept _) fun size => ?_
    split
    · refine .bind .get fun reader => .bind (skipTrailers_moves reads _) fun _ => ?_
      exact .bind (modify_moves fun _ => rfl) fun _ => .pure _
    · exact .bind (modify_moves fun _ => rfl) fun _ => readChunkData_moves reads capacity

theorem read_moves (capacity : Nat) : Async.Moves (OnConn related) (OnConn stuck) (read capacity) := by
  refine .bind .get fun reader => ?_
  split
  · exact .pure _
  · refine .bind ?_ fun data => ?_
    · cases reader.kind with
      | empty => exact .pure _
      | contentLength length => exact readContentLength_moves reads capacity
      | chunked => exact readChunked_moves reads capacity
      | untilEof => exact onConn_moves (reads.readRaw capacity)
    · split
      · exact .bind (modify_moves fun _ => rfl) fun _ => .pure _
      · exact .pure _

theorem readToVecLoop_moves (max fuel : Nat) (out : Bytes) :
    Async.Moves (OnConn related) (OnConn stuck) (readToVecLoop max fuel out) := by
  induction fuel generalizing out with
  | zero => exact .wait
  | succ fuel ih =>
      refine .bind (read_moves reads _) fun data => ?_
      split
      · exact .pure _
      · split
        · exact .fail _
        · exact ih _

theorem readToVec_moves (max : Nat) : Async.Moves (OnConn related) (OnConn stuck) (readToVec max) :=
  .bind .get fun _ => readToVecLoop_moves reads _ _ _

end BodyReader

theorem HandlerProgram.run_moves {σ : Type} {related stuck : HttpConnection → HttpConnection → Prop}
    [Std.Refl related] [Std.Refl stuck] [Trans related related related] [Trans related stuck stuck]
    (reads : HttpConnection.Respected related stuck) (program : HandlerProgram σ) :
    Async.Moves (BodyReader.OnConn related) (BodyReader.OnConn stuck) program.run := by
  induction program with
  | respond response state => exact .pure _
  | bodyBytes max next ih => exact .bind (BodyReader.readToVec_moves reads max).attempt ih

end TptAsync.Http
