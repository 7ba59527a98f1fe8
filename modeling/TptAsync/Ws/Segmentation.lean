import TptAsync.Ws.Fragments

set_option autoImplicit false

/-!
# Receiving, however the bytes are cut

Without keepalive, what comes out of a stream, and what is written in reply, is a matter of its
bytes. Where they are (in the frame buffer, in the buffer that the opening handshake has left,
or in segments still to be delivered) makes no difference.
-/

namespace TptAsync.Ws

open Lib Http

namespace WebSocketStream

variable {κ : Type} {ws after first second : WebSocketStream κ}

/-- The stream as it is but for its bytes. -/
def bare (ws : WebSocketStream κ) : WebSocketStream κ :=
  { ws with frameBuf := [], conn := ⟨{ ws.conn.io with inbound := [] }, [], false⟩ }

/-- The stream as it is but for its bytes and what comes behind them. -/
def still (ws : WebSocketStream κ) : WebSocketStream κ :=
  { ws with frameBuf := [], conn := ⟨{ ws.conn.io with inbound := [], ending := .pending }, [], false⟩ }

/-- The bytes that are there to be decoded, and what comes behind them. -/
def supply (ws : WebSocketStream κ) : Bytes × Ending := (ws.stream, ws.conn.io.ending)

structure Untimed (ws : WebSocketStream κ) : Prop where
  live : ws.conn.Live
  keepalive : ws.keepalive = none

structure Plain (ws : WebSocketStream κ) : Prop where
  live : ws.conn.Live
  keepalive : ws.keepalive = none
  deflate : ws.deflate = none

theorem Plain.untimed (plain : ws.Plain) : ws.Untimed := ⟨plain.live, plain.keepalive⟩

/-- Two streams that differ in nothing but what they are supplied with. -/
structure Beside (related : Bytes × Ending → Bytes × Ending → Prop)
    (first second : WebSocketStream κ) : Prop where
  supply : related first.supply second.supply
  still : first.still = second.still
  untimed : first.Untimed
  untimed' : second.Untimed

/-- The same bytes are still to be decoded, wherever they are. -/
abbrev Alike : WebSocketStream κ → WebSocketStream κ → Prop := Beside Eq

/-- What the frame at the front comes to, with everything but the bytes left alone. -/
structure Takes (before : WebSocketStream κ) (outcome : Outcome WsError (Option Frame))
    (after : WebSocketStream κ) : Prop where
  found : (outcome, after.stream) =
    frameIn before.role before.closeReceived before.conn.io.ending before.stream
  bare : after.bare = before.bare
  untimed : after.Untimed

theorem still_of_bare (same : first.bare = second.bare) : first.still = second.still :=
  congrArg (fun ws => ws.still) same

namespace Takes

variable {outcome : Outcome WsError (Option Frame)}

theorem still (takes : ws.Takes outcome after) : after.still = ws.still := still_of_bare takes.bare

theorem ending (takes : ws.Takes outcome after) : after.conn.io.ending = ws.conn.io.ending :=
  congrArg (fun ws => ws.conn.io.ending) takes.bare

theorem plain (takes : ws.Takes outcome after) (plain : ws.Plain) : after.Plain :=
  ⟨takes.untimed.live, takes.untimed.keepalive,
    (congrArg WebSocketStream.deflate takes.bare).trans plain.deflate⟩

end Takes

namespace Beside

variable {related : Bytes × Ending → Bytes × Ending → Prop}

theorem role (beside : Beside related first second) : first.role = second.role :=
  congrArg (fun ws => ws.role) beside.still

theorem closeSent (beside : Beside related first second) : first.closeSent = second.closeSent :=
  congrArg (fun ws => ws.closeSent) beside.still

theorem closeReceived (beside : Beside related first second) :
    first.closeReceived = second.closeReceived :=
  congrArg (fun ws => ws.closeReceived) beside.still

theorem deflate (beside : Beside related first second) : first.deflate = second.deflate :=
  congrArg (fun ws => ws.deflate) beside.still

theorem masks (beside : Beside related first second) : first.masks = second.masks :=
  congrArg (fun ws => ws.masks) beside.still

theorem outbound (beside : Beside related first second) :
    first.conn.io.outbound = second.conn.io.outbound :=
  congrArg (fun ws => ws.conn.io.outbound) beside.still

theorem stream (alike : Alike first second) : first.stream = second.stream :=
  congrArg Prod.fst alike.supply

theorem ending (alike : Alike first second) : first.conn.io.ending = second.conn.io.ending :=
  congrArg Prod.snd alike.supply

/-- A change that has nothing to do with the bytes. -/
theorem modify {change : WebSocketStream κ → WebSocketStream κ} (beside : Beside related first second)
    (supply : ∀ ws, (change ws).supply = ws.supply)
    (still : ∀ ws, (change ws).still = (change ws.still).still)
    (untimed : ∀ ws, ws.Untimed → (change ws).Untimed) :
    Async.Agrees (ε := WsError) (Beside related) (Async.modify change) (Async.modify change)
      first second := by
  refine .modify ⟨?_, ?_, untimed first beside.untimed, untimed second beside.untimed'⟩
  · rw [supply, supply]
    exact beside.supply
  · rw [still, still second, beside.still]

end Beside

variable {related : Bytes × Ending → Bytes × Ending → Prop}

theorem frameMask_agrees (beside : Beside related first second) :
    Async.Agrees (ε := WsError) (Beside related) frameMask frameMask first second := by
  refine .get_bind ?_
  rw [beside.role, beside.masks]
  split
  · refine .bind (beside.modify (fun _ => rfl) (fun _ => rfl) fun _ untimed => ?_) fun _ _ _ beside => ?_
    · exact ⟨untimed.live, untimed.keepalive⟩
    · exact .pure _ beside
  · exact .pure _ beside

theorem writeRaw_agrees (beside : Beside related first second) (bytes : Bytes) :
    Async.Agrees (Beside related) (onConn (HttpConnection.writeRaw bytes))
      (onConn (HttpConnection.writeRaw bytes)) first second :=
  let write (ws : WebSocketStream κ) : WebSocketStream κ := { ws with
    conn := { ws.conn with io := { ws.conn.io with outbound := ws.conn.io.outbound ++ bytes } } }
  @Beside.modify _ _ _ _ write beside (fun _ => rfl) (fun _ => rfl) fun _ untimed =>
    ⟨⟨untimed.live.segments, untimed.live.eof⟩, untimed.keepalive⟩

theorem onCodec_agrees {α : Type} {action : Async WsError κ α} (beside : Beside related first second)
    (codec : κ) :
    Async.Agrees (Beside related) (onCodec codec action) (onCodec codec action) first second :=
  have changed := @Beside.modify _ _ _ _ (fun ws => { ws with deflate := some (action codec).2 }) beside
    (fun _ => rfl) (fun _ => rfl) fun _ untimed => ⟨untimed.live, untimed.keepalive⟩
  ⟨rfl, changed.2⟩

variable [DeflateCodec κ]

theorem readWithKeepalive_untimed (untimed : ws.Untimed) (capacity : Nat) :
    readWithKeepalive capacity ws = onConn (HttpConnection.readRaw capacity) ws := by
  rw [readWithKeepalive, (Async.Runs.get ws).bind_eq, untimed.keepalive]

theorem readWithKeepalive_ended (untimed : ws.Untimed) (ended : ws.conn.stream = []) (capacity : Nat) :
    readWithKeepalive capacity ws =
      (match ws.conn.io.ending with
        | .eof => .ready []
        | .pending => .pending
        | .error error => .failed (.io error), ws) := by
  rw [readWithKeepalive_untimed untimed, onConn, Async.zoom, Async.mapError,
    HttpConnection.readRaw_ended untimed.live ended]
  cases ws.conn.io.ending <;> rfl

theorem readWithKeepalive_advances {capacity : Nat} (untimed : ws.Untimed)
    (more : ws.conn.stream ≠ []) (room : 0 < capacity) :
    ∃ data conn, (readWithKeepalive capacity).Runs ws data { ws with conn } ∧ data ≠ [] ∧
      ws.conn.Advances data conn := by
  obtain ⟨data, conn, reads, nonempty, _, advances, _⟩ :=
    HttpConnection.readRaw_runs untimed.live more room
  refine ⟨data, conn, ?_, nonempty, advances⟩
  exact (readWithKeepalive_untimed untimed capacity).trans (Async.Runs.zoom reads.mapError)

theorem nextFrameLoop_settled (fuel : Nat) (untimed : ws.Untimed)
    (settled : decode ws.frameBuf ws.role ≠ .ok none) :
    ∃ outcome after, nextFrameLoop (fuel + 1) ws = (outcome, after) ∧ ws.Takes outcome after := by
  obtain ⟨outcome, frameBuf, loops, found⟩ := @nextFrameLoop_buffered _ ws _ fuel settled
  exact ⟨outcome, { ws with frameBuf }, loops, found ws.closeReceived ws.conn.io.ending, rfl,
    ⟨untimed.live, untimed.keepalive⟩⟩

theorem nextFrameLoop_ended (fuel : Nat) (untimed : ws.Untimed)
    (decoded : decode ws.frameBuf ws.role = .ok none) (ended : ws.conn.stream = []) :
    ∃ outcome after, nextFrameLoop (fuel + 1) ws = (outcome, after) ∧ ws.Takes outcome after := by
  have whole : decode ws.stream ws.role = .ok none := by
    rw [stream, show ws.conn.buf ++ ws.conn.undelivered = [] from ended, List.append_nil, decoded]
  have reads := readWithKeepalive_ended untimed ended 8192
  rw [nextFrameLoop, (Async.Runs.get ws).bind_eq, decoded]
  change ∃ outcome after, (readWithKeepalive 8192 >>= _) ws = _ ∧ _
  cases ending : ws.conn.io.ending with
  | eof =>
      rw [ending] at reads
      refine ⟨if ws.closeReceived then .ready none else .failed .connectionClosed, ws, ?_,
        by simp only [frameIn, whole, ending], rfl, untimed⟩
      rw [Async.Runs.bind_eq reads, List.length_nil, if_pos rfl, (Async.Runs.get ws).bind_eq]
      cases ws.closeReceived <;> rfl
  | pending =>
      rw [ending] at reads
      exact ⟨.pending, ws, Async.bind_pending reads, by simp only [frameIn, whole, ending], rfl, untimed⟩
  | error error =>
      rw [ending] at reads
      exact ⟨.failed (.io error), ws, Async.bind_failed reads, by simp only [frameIn, whole, ending],
        rfl, untimed⟩

theorem nextFrameLoop_takes {fuel : Nat} (untimed : ws.Untimed) (enough : ws.conn.stream.length < fuel) :
    ∃ outcome after, nextFrameLoop fuel ws = (outcome, after) ∧ ws.Takes outcome after := by
  induction fuel generalizing ws with
  | zero => exact absurd enough (Nat.not_lt_zero _)
  | succ fuel ih =>
      by_cases settled : decode ws.frameBuf ws.role = .ok none
      · by_cases ended : ws.conn.stream = []
        · exact nextFrameLoop_ended fuel untimed settled ended
        · obtain ⟨data, conn, reads, nonempty, advances⟩ :=
            readWithKeepalive_advances untimed ended (show 0 < 8192 by decide)
          have positive := List.length_pos_of_ne_nil nonempty
          let topped : WebSocketStream κ := { ws with conn, frameBuf := ws.frameBuf ++ data }
          have whole : topped.stream = ws.stream := by
            change ws.frameBuf ++ data ++ conn.stream = ws.frameBuf ++ ws.conn.stream
            rw [advances.stream, List.append_assoc]
          have shorter : conn.stream.length < fuel := by
            rw [advances.stream, List.length_append] at enough
            omega
          have bare : topped.bare = ws.bare := by
            simp only [WebSocketStream.bare, topped, advances.ending, advances.outbound]
          obtain ⟨outcome, after, loops, takes⟩ := @ih topped
            ⟨advances.live, untimed.keepalive⟩ shorter
          refine ⟨outcome, after, ?_, ?_, takes.bare.trans bare, takes.untimed⟩
          · exact (nextFrameLoop_topped fuel settled reads nonempty).trans loops
          · rw [takes.found, whole]
            simp only [topped, advances.ending]
      · exact nextFrameLoop_settled fuel untimed settled

theorem nextFrame_takes (untimed : ws.Untimed) :
    ∃ outcome after, nextFrame ws = (outcome, after) ∧ ws.Takes outcome after := by
  refine nextFrameLoop_takes untimed ?_
  rw [stream, List.length_append]
  exact Nat.lt_succ_of_le (Nat.le_add_left _ _)

section Agrees

variable {message : Message} {assembly : Assembly} {frame : Frame} {payload : Bytes}

/-- The next frame is the same, wherever the bytes are. -/
theorem nextFrame_agrees (alike : first.Alike second) :
    Async.Agrees Alike nextFrame nextFrame first second := by
  obtain ⟨outcome, after, runs, takes⟩ := nextFrame_takes alike.untimed
  obtain ⟨outcome', after', runs', takes'⟩ := nextFrame_takes alike.untimed'
  have found : (outcome, after.stream) = (outcome', after'.stream) := by
    rw [takes.found, takes'.found, alike.role, alike.closeReceived, alike.ending, alike.stream]
  rw [Prod.mk.injEq] at found
  have ending : after.conn.io.ending = after'.conn.io.ending := by
    rw [takes.ending, takes'.ending, alike.ending]
  rw [Async.Agrees, runs, runs']
  exact ⟨found.1, congrArg₂ Prod.mk found.2 ending,
    takes.still.trans (alike.still.trans takes'.still.symm), takes.untimed, takes'.untimed⟩

theorem compressPayload_agrees (beside : Beside related first second) (opcode : Opcode)
    (payload : Bytes) :
    Async.Agrees (Beside related) (compressPayload opcode payload) (compressPayload opcode payload)
      first second := by
  refine .get_bind ?_
  rw [beside.deflate]
  split
  · split
    · exact .bind (onCodec_agrees beside _) fun _ _ _ beside => .pure _ beside
    · exact .pure _ beside
  · exact .pure _ beside

theorem send_agrees (beside : Beside related first second) :
    Async.Agrees (Beside related) (send message) (send message) first second := by
  refine .bind (.ofExcept _ beside) fun (opcode, payload) _ _ beside => ?_
  refine .bind (beside.modify (fun _ => rfl) (fun _ => rfl) fun _ untimed => ?_) fun _ _ _ beside => ?_
  · exact ⟨untimed.live, untimed.keepalive⟩
  · refine .bind (compressPayload_agrees beside _ _) fun (rsv1, payload) _ _ beside => ?_
    exact .bind (frameMask_agrees beside) fun mask _ _ beside => writeRaw_agrees beside _

theorem finish_agrees (beside : Beside related first second) :
    Async.Agrees (Beside related) (finish assembly) (finish assembly) first second := by
  refine .bind ?_ fun assembled _ _ beside => ?_
  · refine .get_bind ?_
    rw [beside.deflate]
    split
    · split
      · exact onCodec_agrees beside _
      · exact .pure _ beside
    · exact .pure _ beside
  · split
    · split
      · exact .pure _ beside
      · exact .fail _ beside
    · exact .pure _ beside
    · exact .fail _ beside

theorem addPayload_agrees (beside : Beside related first second) :
    Async.Agrees (Beside related) (addPayload assembly frame) (addPayload assembly frame)
      first second := by
  refine .bind (.ofExcept _ beside) fun _ _ _ beside => ?_
  split
  · exact .bind (finish_agrees beside) fun _ _ _ beside => .pure _ beside
  · exact .pure _ beside

theorem handleClose_agrees (beside : Beside related first second) :
    Async.Agrees (Beside related) (handleClose payload) (handleClose payload) first second := by
  have received : ∀ {first second : WebSocketStream κ}, Beside related first second →
      Async.Agrees (ε := WsError) (Beside related)
        (do
          Async.modify fun ws => { ws with closeReceived := true }
          pure none)
        (do
          Async.modify fun ws => { ws with closeReceived := true }
          pure (none : Option Message)) first second := by
    intro first second beside
    refine .bind (beside.modify (fun _ => rfl) (fun _ => rfl) fun _ untimed => ?_) fun _ _ _ beside => ?_
    · exact ⟨untimed.live, untimed.keepalive⟩
    · exact .pure _ beside
  refine .bind (.ofExcept _ beside) fun info _ _ beside => .get_bind ?_
  dsimp only
  rw [beside.closeSent]
  split
  · exact received beside
  · exact .bind (send_agrees beside) fun _ _ _ beside => received beside

/-- What a frame does has nothing to do with the bytes behind it. -/
theorem handleFrame_agrees (beside : Beside related first second) :
    Async.Agrees (Beside related) (handleFrame assembly frame) (handleFrame assembly frame)
      first second := by
  refine .get_bind ?_
  rw [beside.deflate]
  split
  · exact .fail _ beside
  · split
    · exact .fail _ beside
    · cases frame.opcode with
      | ping => exact .bind (send_agrees beside) fun _ _ _ beside => .pure _ beside
      | pong => exact .pure _ beside
      | close => exact .bind (handleClose_agrees beside) fun _ _ _ beside => .pure _ beside
      | text | binary =>
          dsimp only
          split
          · exact .fail _ beside
          · exact addPayload_agrees beside
      | continuation =>
          dsimp only
          split
          · exact .fail _ beside
          · exact addPayload_agrees beside

theorem recvLoop_agrees {fuel : Nat} (alike : first.Alike second) :
    Async.Agrees Alike (recvLoop fuel assembly) (recvLoop fuel assembly) first second := by
  induction fuel generalizing assembly first second with
  | zero => exact .wait alike
  | succ fuel ih =>
      refine .bind (nextFrame_agrees alike) fun found _ _ alike => ?_
      cases found with
      | none => exact .pure _ alike
      | some frame =>
          refine .bind (handleFrame_agrees alike) fun progress _ _ alike => ?_
          cases progress with
          | done message => exact .pure _ alike
          | more assembly => exact ih alike

theorem failConnection_agrees (beside : Beside related first second) (reason : String) :
    Async.Agrees (Beside related) (failConnection reason) (failConnection reason) first second := by
  refine .get_bind ?_
  rw [beside.closeSent]
  split
  · exact .fail _ beside
  · exact .bind (send_agrees beside).attempt fun _ _ _ beside => .fail _ beside

theorem recvMessage_agrees (alike : first.Alike second) :
    Async.Agrees Alike recvMessage recvMessage first second := by
  refine .get_bind ?_
  rw [alike.stream]
  exact recvLoop_agrees alike

theorem recv_agrees_of (same : Async.Agrees (Beside related) recvMessage recvMessage first second) :
    Async.Agrees (Beside related) recv recv first second := by
  refine .bind same.attempt fun result _ _ beside => ?_
  split
  · exact .pure _ beside
  · exact failConnection_agrees beside _
  · exact .fail _ beside

theorem recv_agrees (alike : first.Alike second) : Async.Agrees Alike recv recv first second :=
  recv_agrees_of (recvMessage_agrees alike)

end Agrees

section Rounds

variable {frame : Frame}

theorem handleFrame_supply (assembly : Assembly) (frame : Frame) :
    (handleFrame assembly frame).Keeps (supply : WebSocketStream κ → Bytes × Ending) :=
  handleFrame_keeps (fun _ _ _ _ _ _ => rfl) assembly frame

theorem nextFrame_shrinks (untimed : ws.Untimed) (runs : nextFrame.Runs ws (some frame) after) :
    after.stream.length < ws.stream.length ∧ after.Untimed := by
  obtain ⟨outcome, other, ends, takes⟩ := nextFrame_takes untimed
  cases runs.symm.trans ends
  have found := takes.found
  unfold frameIn at found
  refine ⟨?_, takes.untimed⟩
  split at found
  · next decoded =>
      have consumes := decode_consumes decoded
      rw [Prod.mk.injEq] at found
      rw [found.2, List.length_drop]
      omega
  · cases found
  · split at found
    · split at found <;> cases found
    · cases found
    · cases found

/-- The loop comes to its end within the rounds that it is given. -/
theorem recvLoop_rounds {rounds more : Nat} {assembly : Assembly} (untimed : ws.Untimed)
    (enough : ws.stream.length < rounds) (within : rounds ≤ more) :
    recvLoop more assembly ws = recvLoop rounds assembly ws := by
  induction rounds generalizing more ws assembly with
  | zero => exact absurd enough (Nat.not_lt_zero _)
  | succ rounds ih =>
      obtain ⟨more, rfl⟩ := Nat.exists_eq_add_one_of_ne_zero (show more ≠ 0 by omega)
      rw [recvLoop, recvLoop]
      cases found : nextFrame ws with
      | mk outcome middle =>
          cases outcome with
          | pending => rw [Async.bind_pending found, Async.bind_pending found]
          | failed error => rw [Async.bind_failed found, Async.bind_failed found]
          | ready next =>
              rw [Async.Runs.bind_eq found, Async.Runs.bind_eq found]
              cases next with
              | none => rfl
              | some frame =>
                  have shorter := nextFrame_shrinks untimed found
                  have kept := handleFrame_supply assembly frame middle
                  have alike : middle.Alike middle := ⟨rfl, rfl, shorter.2, shorter.2⟩
                  have still := (@handleFrame_agrees _ _ _ _ _ assembly frame alike).2.untimed
                  dsimp only
                  cases handled : handleFrame assembly frame middle with
                  | mk outcome after =>
                      rw [handled] at kept still
                      cases outcome with
                      | pending => rw [Async.bind_pending handled, Async.bind_pending handled]
                      | failed error => rw [Async.bind_failed handled, Async.bind_failed handled]
                      | ready progress =>
                          rw [Async.Runs.bind_eq handled, Async.Runs.bind_eq handled]
                          cases progress with
                          | done message => rfl
                          | more assembly =>
                              have left : after.stream = middle.stream := congrArg Prod.fst kept
                              exact ih still (by rw [left]; omega) (by omega)

end Rounds

section Calls

/-- What successive calls of `recv` come to, each with all that has been written by then. -/
def exchanges : Nat → WebSocketStream κ → List (Outcome WsError (Option Message) × Bytes)
  | 0, _ => []
  | calls + 1, ws =>
      let (outcome, after) := recv ws
      (outcome, after.conn.io.outbound) :: exchanges calls after

theorem exchanges_alike (alike : first.Alike second) (calls : Nat) :
    exchanges calls first = exchanges calls second := by
  induction calls generalizing first second with
  | zero => rfl
  | succ calls ih =>
      obtain ⟨same, after⟩ := recv_agrees alike
      simp only [exchanges, same, after.outbound, ih after]

/-- What the decoder says does not depend on what follows, and what is received and answered
does not depend on how the bytes behind the opening handshake are cut. -/
theorem exchanges_segmented :
    (∀ (buf more : Bytes) (role : Role),
      decode buf role ≠ .ok none → decode (buf ++ more) role = decode buf role) ∧
    ∀ (role : Role) (masks : Nat → MaskKey) (expiries : Nat → Nat → Bool)
      (first second : HttpConnection), first.Live → second.Live → first.stream = second.stream →
      first.io.ending = second.io.ending → first.io.outbound = second.io.outbound →
      ∀ calls, exchanges calls (fromConn first role masks expiries : WebSocketStream κ) =
        exchanges calls (fromConn second role masks expiries : WebSocketStream κ) := by
  refine ⟨fun buf more role settled => (decode_append buf more role).resolve_left settled, ?_⟩
  intro role masks expiries first second live live' stream ending outbound calls
  have still : (fromConn first role masks expiries : WebSocketStream κ).still =
      (fromConn second role masks expiries : WebSocketStream κ).still := by
    simp only [WebSocketStream.still, fromConn, outbound]
  have supply : (fromConn first role masks expiries : WebSocketStream κ).supply =
      (fromConn second role masks expiries : WebSocketStream κ).supply := congrArg₂ Prod.mk stream ending
  exact exchanges_alike ⟨supply, still, ⟨live, rfl⟩, ⟨live', rfl⟩⟩ calls

/-- A Ping, cut after its first byte or not. -/
theorem exchanges_segmented_ping :
    let conn : HttpConnection := ⟨⟨[[0, 0x81], [1, 65]], .eof, []⟩, [0x89], false⟩
    let other : HttpConnection := .new ⟨[[0x89, 0, 0x81, 1, 65]], .eof, []⟩
    let masks : Nat → MaskKey := fun _ => ⟨0, 0, 0, 0⟩
    exchanges 2 (fromConn conn .client masks fun _ _ => false : WebSocketStream Empty) =
        [(.ready (some (.text ['A'])), [0x8A, 0x80, 0, 0, 0, 0]),
          (.failed .connectionClosed, [0x8A, 0x80, 0, 0, 0, 0])] ∧
      exchanges 2 (fromConn conn .client masks fun _ _ => false : WebSocketStream Empty) =
        exchanges 2 (fromConn other .client masks fun _ _ => false : WebSocketStream Empty) :=
  ⟨by decide +kernel, (@exchanges_segmented Empty _).2 .client (fun _ => ⟨0, 0, 0, 0⟩) (fun _ _ => false)
    ⟨⟨[[0, 0x81], [1, 65]], .eof, []⟩, [0x89], false⟩ (.new ⟨[[0x89, 0, 0x81, 1, 65]], .eof, []⟩)
    ⟨by decide, rfl⟩ ⟨by decide, rfl⟩ rfl rfl rfl 2⟩

end Calls

end WebSocketStream

end TptAsync.Ws
