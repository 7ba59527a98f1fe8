import TptAsync.Http.ConnectionProperties
import TptAsync.Ws.Stream
import TptAsync.Ws.Wire

set_option autoImplicit false

/-!
# Receiving frames

However the transport cuts the stream, and whichever single waits run out, the frames come
out of it in order.
-/

namespace TptAsync.Ws

open Lib Http

namespace WebSocketStream

variable {κ : Type} {ws before middle after : WebSocketStream κ}

/-- The transport delivers, and of two timed waits in a row at most one runs out. -/
structure Live (ws : WebSocketStream κ) : Prop where
  conn : ws.conn.Live
  answered : ws.pingOutstanding = true → ∀ wait, ws.expiries 0 wait = false
  prompt : ∀ n wait next, ws.expiries n wait = true → ws.expiries (n + 1) next = false

/-- The stream goes on, with the same peer under the same agreement. -/
structure Continues (before after : WebSocketStream κ) : Prop where
  live : after.Live
  role : after.role = before.role
  deflate : after.deflate = before.deflate

theorem Continues.refl (live : ws.Live) : Continues ws ws := ⟨live, rfl, rfl⟩

theorem Continues.trans (first : Continues before middle) (second : Continues middle after) :
    Continues before after :=
  ⟨second.live, second.role.trans first.role, second.deflate.trans first.deflate⟩

section Send

/-- The stream behind some bytes that it has written. -/
def written (ws : WebSocketStream κ) (masks : Nat → MaskKey) (bytes : Bytes) : WebSocketStream κ :=
  { ws with
    masks
    conn := { ws.conn with io := { ws.conn.io with outbound := ws.conn.io.outbound ++ bytes } } }

/-- The stream behind a message that it has written. -/
def wrote (ws : WebSocketStream κ) (opcode : Opcode) (masks : Nat → MaskKey) (bytes : Bytes) :
    WebSocketStream κ :=
  { ws.written masks bytes with closeSent := ws.closeSent || opcode = .close }

theorem frameMask_runs (ws : WebSocketStream κ) :
    ∃ key masks, frameMask.Runs ws (peerMask ws.role.peer key) { ws with masks } := by
  by_cases client : ws.role = .client
  · have mask : peerMask ws.role.peer (ws.masks 0) = some (ws.masks 0) := by rw [client]; rfl
    refine ⟨ws.masks 0, fun n => ws.masks (n + 1), (Async.Runs.get ws).bind ?_⟩
    rw [if_pos client, mask]
    exact (Async.Runs.modify _ ws).bind (.pure _ _)
  · have server : ws.role = .server := by
      cases side : ws.role with
      | client => exact absurd side client
      | server => rfl
    have mask : peerMask ws.role.peer (ws.masks 0) = none := by rw [server]; rfl
    refine ⟨ws.masks 0, ws.masks, (Async.Runs.get ws).bind ?_⟩
    rw [if_neg client, mask]
    exact .pure ws none

theorem writeFrame_runs (ws : WebSocketStream κ) (frame : Frame) :
    ∃ masks key, (do
        let mask ← frameMask
        onConn (HttpConnection.writeRaw (encode frame mask))).Runs ws ()
      (ws.written masks (encode frame (peerMask ws.role.peer key))) := by
  obtain ⟨key, masks, masked⟩ := frameMask_runs ws
  exact ⟨masks, key, masked.bind (.zoom (HttpConnection.writeAll_runs ws.conn _).mapError)⟩

variable [DeflateCodec κ]

/-- Without compression a message is written as one frame. -/
theorem send_runs {message : Message} {opcode : Opcode} {payload : Bytes}
    (parts : message.parts = .ok (opcode, payload))
    (plain : opcode.isData = true → ws.deflate = none) :
    ∃ masks key, (send message).Runs ws ()
      (ws.wrote opcode masks (encode ⟨true, false, opcode, payload⟩ (peerMask ws.role.peer key))) := by
  let marked : WebSocketStream κ := { ws with closeSent := ws.closeSent || opcode = .close }
  have unpacked : (compressPayload opcode payload).Runs marked (false, payload) marked := by
    refine (Async.Runs.get marked).bind ?_
    cases codec : marked.deflate with
    | none => exact .pure _ _
    | some codec' =>
        have control : opcode.isData = false := by
          by_contra data
          have none : ws.deflate = none := plain (by simpa using data)
          rw [show marked.deflate = ws.deflate from rfl, none] at codec
          cases codec
        simp only [control, Bool.false_eq_true, if_false]
        exact .pure _ _
  obtain ⟨masks, key, writes⟩ := writeFrame_runs marked ⟨true, false, opcode, payload⟩
  refine ⟨masks, key, ?_⟩
  rw [send, parts]
  refine (Async.Runs.pure ws (opcode, payload)).bind ((Async.Runs.modify _ ws).bind ?_)
  exact unpacked.bind writes

end Send

section Read

variable {capacity : Nat}

theorem onConn_readRaw_runs (live : ws.conn.Live) (more : ws.conn.stream ≠ []) (room : 0 < capacity) :
    ∃ data conn, (onConn (HttpConnection.readRaw capacity)).Runs ws data { ws with conn } ∧
      data ≠ [] ∧ ws.conn.stream = data ++ conn.stream ∧ conn.Live := by
  obtain ⟨data, conn, reads, nonempty, _, advances, _⟩ := HttpConnection.readRaw_runs live more room
  exact ⟨data, conn, .zoom reads.mapError, nonempty, advances.stream, advances.live⟩

variable [DeflateCodec κ]

theorem readTimed_runs {policy : KeepAlive} {rounds : Nat} (live : ws.Live)
    (more : ws.conn.stream ≠ []) (room : 0 < capacity)
    (enough : (if ws.pingOutstanding then 1 else 2) ≤ rounds) :
    ∃ data after, (readTimed policy capacity rounds).Runs ws data after ∧ data ≠ [] ∧
      ws.conn.stream = data ++ after.conn.stream ∧ after.frameBuf = ws.frameBuf ∧
      Continues ws after := by
  induction rounds generalizing ws with
  | zero =>
      cases outstanding : ws.pingOutstanding <;> simp [outstanding] at enough
  | succ rounds ih =>
      let wait := if ws.pingOutstanding then policy.timeout else policy.interval
      let waited : WebSocketStream κ := { ws with expiries := fun n => ws.expiries (n + 1) }
      have prompt : ∀ n wait next, waited.expiries n wait = true → waited.expiries (n + 1) next = false :=
        fun n wait next => live.prompt (n + 1) wait next
      cases expires : ws.expiries 0 wait with
      | false =>
          obtain ⟨data, conn, reads, nonempty, stream, connLive⟩ :=
            @onConn_readRaw_runs _ waited _ live.conn more room
          refine ⟨data, { waited with conn, pingOutstanding := false }, ?_, nonempty, stream, rfl,
            ⟨⟨connLive, nofun, prompt⟩, rfl, rfl⟩⟩
          refine (Async.Runs.get ws).bind ((Async.Runs.modify _ ws).bind ?_)
          rw [if_neg (Bool.eq_false_iff.mp expires)]
          exact reads.attempt.bind ((Async.Runs.modify _ _).bind (.pure _ _))
      | true =>
          have idle : ws.pingOutstanding = false := by
            by_contra outstanding
            have answered := live.answered (by simpa using outstanding) wait
            rw [expires] at answered
            cases answered
          obtain ⟨masks, key, sends⟩ := @send_runs _ waited _ (.ping []) _ _ rfl nofun
          let frame := encode ⟨true, false, .ping, []⟩ (peerMask waited.role.peer key)
          let pinged : WebSocketStream κ :=
            { waited.wrote .ping masks frame with pingOutstanding := true }
          have pingedLive : pinged.Live :=
            ⟨⟨live.conn.segments, live.conn.eof⟩, fun _ next => live.prompt 0 wait next expires, prompt⟩
          obtain ⟨data, after, reads, nonempty, stream, kept, continues⟩ :=
            ih pingedLive more (by simp [pinged]; simpa [idle] using enough)
          refine ⟨data, after, ?_, nonempty, stream, kept, continues.live, continues.role,
            continues.deflate⟩
          refine (Async.Runs.get ws).bind ((Async.Runs.modify _ ws).bind ?_)
          rw [if_pos expires, if_neg (by simp [idle])]
          exact sends.bind ((Async.Runs.modify _ _).bind reads)

/-- A read takes some bytes, after at most one Ping. -/
theorem readWithKeepalive_runs (live : ws.Live) (more : ws.conn.stream ≠ []) (room : 0 < capacity) :
    ∃ data after, (readWithKeepalive capacity).Runs ws data after ∧ data ≠ [] ∧
      ws.conn.stream = data ++ after.conn.stream ∧ after.frameBuf = ws.frameBuf ∧
      Continues ws after := by
  cases policy : ws.keepalive with
  | none =>
      obtain ⟨data, conn, reads, nonempty, stream, connLive⟩ := onConn_readRaw_runs live.conn more room
      refine ⟨data, { ws with conn }, (Async.Runs.get ws).bind ?_, nonempty, stream, rfl,
        ⟨⟨connLive, live.answered, live.prompt⟩, rfl, rfl⟩⟩
      split
      · exact reads
      · next other => cases policy.symm.trans other
  | some policy' =>
      obtain ⟨data, after, reads, rest⟩ :=
        @readTimed_runs _ _ _ _ _ 2 live more room (by split <;> decide)
      refine ⟨data, after, (Async.Runs.get ws).bind ?_, rest⟩
      rw [policy]
      exact reads

end Read

section Frames

/-- The next frame in some bytes, and the bytes behind it. -/
def frameIn (role : Role) (closeReceived : Bool) (ending : Ending) (bytes : Bytes) :
    Outcome WsError (Option Frame) × Bytes :=
  match decode bytes role with
  | .ok (some (frame, consumed)) => (.ready (some frame), bytes.drop consumed)
  | .error error => (.failed error, bytes)
  | .ok none =>
      match ending with
      | .eof => (if closeReceived then .ready none else .failed .connectionClosed, bytes)
      | .pending => (.pending, bytes)
      | .error error => (.failed (.io error), bytes)

variable [DeflateCodec κ] {frame : Frame} {mask : Option MaskKey} {rest : Bytes}

/-- What the decoder says of the buffered bytes, it says of all of them. -/
theorem nextFrameLoop_buffered {fuel : Nat} (settled : decode ws.frameBuf ws.role ≠ .ok none) :
    ∃ outcome frameBuf, nextFrameLoop (fuel + 1) ws = (outcome, { ws with frameBuf }) ∧
      ∀ received ending, (outcome, stream { ws with frameBuf }) =
        frameIn ws.role received ending ws.stream := by
  have whole := (decode_append ws.frameBuf ws.conn.stream ws.role).resolve_left settled
  change decode ws.stream ws.role = _ at whole
  rw [nextFrameLoop, (Async.Runs.get ws).bind_eq]
  cases decoded : decode ws.frameBuf ws.role with
  | error error =>
      rw [decoded] at whole
      exact ⟨.failed error, ws.frameBuf, rfl, fun _ _ => by simp only [frameIn, whole]⟩
  | ok found =>
      rcases found with _ | ⟨frame, consumed⟩
      · exact absurd decoded settled
      · have left : ws.stream.drop consumed = ws.frameBuf.drop consumed ++ ws.conn.stream :=
          List.drop_append_of_le_length (decode_consumes decoded).2
        rw [decoded] at whole
        refine ⟨.ready (some frame), ws.frameBuf.drop consumed, rfl, fun _ _ => ?_⟩
        simp only [frameIn, whole, left]
        rfl

/-- What the loop does with what a read has brought. -/
def topUp (fuel : Nat) (chunk : Bytes) : Async WsError (WebSocketStream κ) (Option Frame) := do
  if chunk.length = 0 then
    if (← Async.get).closeReceived then pure none else Async.fail .connectionClosed
  else
    Async.modify fun ws => { ws with frameBuf := ws.frameBuf ++ chunk }
    nextFrameLoop fuel

theorem nextFrameLoop_missing (fuel : Nat) (missing : decode ws.frameBuf ws.role = .ok none) :
    nextFrameLoop (fuel + 1) ws = (readWithKeepalive 8192 >>= topUp fuel) ws := by
  rw [nextFrameLoop, (Async.Runs.get ws).bind_eq, missing]
  rfl

/-- One more read, and the loop goes on with what it has brought. -/
theorem nextFrameLoop_topped {data : Bytes} (fuel : Nat)
    (missing : decode ws.frameBuf ws.role = .ok none)
    (reads : (readWithKeepalive 8192).Runs ws data middle) (nonempty : data ≠ []) :
    nextFrameLoop (fuel + 1) ws =
      nextFrameLoop fuel { middle with frameBuf := middle.frameBuf ++ data } := by
  have positive : 0 < data.length := List.length_pos_of_ne_nil nonempty
  rw [nextFrameLoop_missing fuel missing, reads.bind_eq, topUp, if_neg positive.ne']
  exact (Async.Runs.modify _ middle).bind_eq

theorem nextFrameLoop_live {fuel : Nat} (live : ws.Live)
    (settled : decode ws.stream ws.role ≠ .ok none) (enough : ws.conn.stream.length < fuel) :
    ∃ outcome after, nextFrameLoop fuel ws = (outcome, after) ∧
      (∀ received ending, (outcome, after.stream) = frameIn ws.role received ending ws.stream) ∧
      Continues ws after := by
  induction fuel generalizing ws with
  | zero => exact absurd enough (Nat.not_lt_zero _)
  | succ fuel ih =>
      by_cases missing : decode ws.frameBuf ws.role = .ok none
      · have more : ws.conn.stream ≠ [] := by
          intro none
          apply settled
          rw [stream, show ws.conn.buf ++ ws.conn.undelivered = [] from none, List.append_nil, missing]
        obtain ⟨data, middle, reads, nonempty, streamLeft, kept, continues⟩ :=
          @readWithKeepalive_runs _ _ 8192 _ live more (by decide)
        let topped : WebSocketStream κ := { middle with frameBuf := middle.frameBuf ++ data }
        have whole : topped.stream = ws.stream := by
          change middle.frameBuf ++ data ++ middle.conn.stream = ws.frameBuf ++ ws.conn.stream
          rw [kept, List.append_assoc, ← streamLeft]
        have shorter : middle.conn.stream.length < fuel := by
          have positive := List.length_pos_of_ne_nil nonempty
          rw [streamLeft, List.length_append] at enough
          omega
        obtain ⟨outcome, after, loops, found, further⟩ := @ih topped
          ⟨continues.live.conn, continues.live.answered, continues.live.prompt⟩
          (by rw [whole]; exact continues.role ▸ settled) shorter
        refine ⟨outcome, after, (nextFrameLoop_topped fuel missing reads nonempty).trans loops, ?_,
          further.live, further.role.trans continues.role, further.deflate.trans continues.deflate⟩
        intro received ending
        rw [found received ending, whole]
        exact congrArg (frameIn · received ending ws.stream) continues.role
      · obtain ⟨outcome, frameBuf, loops, found⟩ := @nextFrameLoop_buffered _ ws _ fuel missing
        exact ⟨outcome, { ws with frameBuf }, loops, found,
          ⟨live.conn, live.answered, live.prompt⟩, rfl, rfl⟩

/-- Whatever the decoder says of the stream comes of the next frame. -/
theorem nextFrame_live (live : ws.Live) (settled : decode ws.stream ws.role ≠ .ok none) :
    ∃ outcome after, nextFrame ws = (outcome, after) ∧
      (∀ received ending, (outcome, after.stream) = frameIn ws.role received ending ws.stream) ∧
      Continues ws after := by
  have enough : ws.conn.stream.length < ws.stream.length + 1 := by
    rw [stream, List.length_append]
    exact Nat.lt_succ_of_le (Nat.le_add_left _ _)
  exact nextFrameLoop_live live settled enough

/-- The frame at the front of the stream is the next one. -/
theorem nextFrame_runs (live : ws.Live) (acceptable : Acceptable ws.role frame mask)
    (shape : ws.stream = encode frame mask ++ rest) :
    ∃ after, nextFrame.Runs ws (some frame) after ∧ after.stream = rest ∧ Continues ws after := by
  have decoded : decode ws.stream ws.role = .ok (some (frame, (encode frame mask).length)) := by
    rw [shape]
    exact decode_whole acceptable rest
  obtain ⟨outcome, after, found, word, continues⟩ := nextFrame_live live (by simp [decoded])
  have frames := word false .eof
  simp only [frameIn, decoded, Prod.mk.injEq] at frames
  obtain ⟨rfl, left⟩ := frames
  refine ⟨after, found, ?_, continues⟩
  rw [left, shape, List.drop_left]

end Frames

end WebSocketStream

end TptAsync.Ws
