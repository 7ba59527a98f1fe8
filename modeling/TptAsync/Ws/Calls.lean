import TptAsync.Lib.Transition
import TptAsync.Ws.StreamProperties

set_option autoImplicit false

/-!
# The calls on a stream

What a stream writes is a sequence of frames. Every call but the sending of a message keeps to
one rule in it: behind its Close a side writes only Pings and Pongs.
-/

namespace TptAsync.Ws

open Lib Http

/-- What a side may write after a frame, by whether it has written a Close before it; whether
it has written one then. -/
def afterFrame (closeSent : Bool) (frame : Frame) : Option Bool :=
  match closeSent, frame.opcode with
  | true, .ping | true, .pong => some true
  | true, _ => none
  | false, opcode => some (opcode = .close)

theorem afterFrame_mono {closeSent after : Bool} {frame : Frame}
    (may : afterFrame closeSent frame = some after) (closed : closeSent = true) : after = true := by
  subst closed
  unfold afterFrame at may
  split at may <;> simp_all

theorem foldlM_afterFrame_mono {closeSent after : Bool} {log : List Frame}
    (may : log.foldlM afterFrame closeSent = some after) (closed : closeSent = true) :
    after = true := by
  induction log generalizing closeSent with
  | nil => exact (Option.some.inj may) ▸ closed
  | cons frame log ih =>
      rw [List.foldlM_cons] at may
      obtain ⟨middle, first, rest⟩ := Option.bind_eq_some_iff.mp may
      exact ih rest (afterFrame_mono first closed)

namespace WebSocketStream

variable {κ : Type} {ws before middle after : WebSocketStream κ} {log more : List Frame}

/-- The frames of `log` have been written. -/
structure Logs (log : List Frame) (before after : WebSocketStream κ) : Prop where
  outbound : ∃ bytes, after.conn.io.outbound = before.conn.io.outbound ++ bytes ∧
    Carries before.role.peer log bytes
  role : after.role = before.role

namespace Logs

theorem of_same (outbound : after.conn.io.outbound = before.conn.io.outbound)
    (role : after.role = before.role) : Logs [] before after :=
  ⟨⟨[], by rw [outbound, List.append_nil], .nil⟩, role⟩

theorem trans (first : Logs log before middle) (second : Logs more middle after) :
    Logs (log ++ more) before after := by
  obtain ⟨bytes, outbound, carries⟩ := first.outbound
  obtain ⟨bytes', outbound', carries'⟩ := second.outbound
  rw [first.role] at carries'
  exact ⟨⟨bytes ++ bytes', by rw [outbound', outbound, List.append_assoc], carries.append carries'⟩,
    second.role.trans first.role⟩

theorem length_lt (logs : Logs log before after) (some : log ≠ []) :
    before.conn.io.outbound.length < after.conn.io.outbound.length := by
  obtain ⟨bytes, outbound, carries⟩ := logs.outbound
  have nonempty : bytes ≠ [] := fun empty => some (empty ▸ carries).eq_nil
  rw [outbound, List.length_append]
  exact Nat.lt_add_of_pos_right (List.length_pos_of_ne_nil nonempty)

theorem length_le (logs : Logs log before after) :
    before.conn.io.outbound.length ≤ after.conn.io.outbound.length := by
  obtain ⟨bytes, outbound, _⟩ := logs.outbound
  rw [outbound, List.length_append]
  exact Nat.le_add_right _ _

theorem eq_nil (logs : Logs log before after)
    (silent : after.conn.io.outbound = before.conn.io.outbound) : log = [] := by
  obtain ⟨bytes, outbound, carries⟩ := logs.outbound
  rw [silent, List.self_eq_append_right] at outbound
  exact (outbound ▸ carries).eq_nil

theorem unique {log' : List Frame} (logs : Logs log before after) (logs' : Logs log' before after)
    (small : ∀ frame ∈ log, frame.payload.length ≤ 125)
    (small' : ∀ frame ∈ log', frame.payload.length ≤ 125) : log = log' := by
  obtain ⟨bytes, outbound, carries⟩ := logs.outbound
  obtain ⟨bytes', outbound', carries'⟩ := logs'.outbound
  have same : bytes = bytes' := List.append_cancel_left (outbound.symm.trans outbound')
  exact carries.unique (same ▸ carries') small small'

end Logs

/-- What every call keeps to, the sending of a message apart. -/
structure Behaves (before after : WebSocketStream κ) : Prop where
  log : ∃ log, Logs log before after ∧ log.foldlM afterFrame before.closeSent = some after.closeSent
  received : after.closeReceived = true → before.closeReceived = true ∨ after.closeSent = true
  live : before.conn.Live → after.conn.Live

namespace Behaves

theorem of_same (outbound : after.conn.io.outbound = before.conn.io.outbound)
    (role : after.role = before.role) (closeSent : after.closeSent = before.closeSent)
    (closeReceived : after.closeReceived = before.closeReceived)
    (live : before.conn.Live → after.conn.Live) : Behaves before after where
  log := ⟨[], .of_same outbound role, by rw [closeSent]; rfl⟩
  received received := .inl (closeReceived ▸ received)
  live := live

/-- An action that touches neither the connection nor what is known of the two Closes. -/
theorem of_keeps {α : Type} {action : Async WsError (WebSocketStream κ) α}
    (keeps : action.Keeps fun ws => (ws.conn, ws.role, ws.closeSent, ws.closeReceived)) :
    Async.Moves Behaves Behaves action := by
  refine Async.Moves.same_iff.mpr fun ws => ?_
  have same := keeps ws
  simp only [Prod.mk.injEq] at same
  obtain ⟨conn, role, closeSent, closeReceived⟩ := same
  exact of_same (by rw [conn]) role closeSent closeReceived (fun live => by rwa [conn])

theorem closeSent (behaves : Behaves before after) (closed : before.closeSent = true) :
    after.closeSent = true := by
  obtain ⟨_, _, may⟩ := behaves.log
  exact foldlM_afterFrame_mono may closed

instance : Std.Refl (Behaves (κ := κ)) := ⟨fun _ => of_same rfl rfl rfl rfl id⟩

instance : Trans (Behaves (κ := κ)) Behaves Behaves where
  trans first second := by
    obtain ⟨log, logs, may⟩ := first.log
    obtain ⟨log', logs', may'⟩ := second.log
    refine ⟨⟨log ++ log', logs.trans logs', ?_⟩, fun received => ?_, second.live ∘ first.live⟩
    · rw [List.foldlM_append, may]
      exact may'
    · cases second.received received with
      | inr closed => exact .inr closed
      | inl received => exact (first.received received).imp id second.closeSent

end Behaves

section Send

variable {message : Message} {opcode : Opcode} {payload : Bytes}

theorem Logs.wrote (opcode : Opcode) (masks : Nat → MaskKey) (frame : Frame) (key : MaskKey) :
    Logs [frame] ws (ws.wrote opcode masks (encode frame (peerMask ws.role.peer key))) :=
  ⟨⟨_, rfl, .single key⟩, rfl⟩

theorem Behaves.wrote {masks : Nat → MaskKey} {frame : Frame} {key : MaskKey}
    (may : afterFrame ws.closeSent frame = some (ws.closeSent || frame.opcode = .close)) :
    Behaves ws (ws.wrote frame.opcode masks (encode frame (peerMask ws.role.peer key))) where
  log := ⟨[frame], .wrote .., by rw [List.foldlM_cons, may]; rfl⟩
  received received := .inl received
  live live := ⟨live.segments, live.eof⟩

variable [DeflateCodec κ]

theorem compressPayload_keeps {β : Type} {part : WebSocketStream κ → β}
    (same : ∀ ws codec, part { ws with deflate := some codec } = part ws) (opcode : Opcode)
    (payload : Bytes) : (compressPayload opcode payload).Keeps part := by
  refine .bind .get fun ws => ?_
  split
  · split
    · exact .bind (.zoom fun _ => same _ _) fun _ => .pure _
    · exact .pure _
  · exact .pure _

/-- A control message is written as one frame. -/
theorem send_control (parts : message.parts = .ok (opcode, payload)) (control : opcode.isData = false)
    (may : afterFrame ws.closeSent ⟨true, false, opcode, payload⟩ =
      some (ws.closeSent || opcode = .close)) :
    Async.MovesAt Behaves Behaves (send message) ws := by
  obtain ⟨masks, key, sends⟩ := @send_runs _ ws _ _ _ _ parts (by simp [control])
  rw [Async.MovesAt, show send message ws = _ from sends]
  exact @Behaves.wrote _ ws masks ⟨true, false, opcode, payload⟩ key may

theorem send_ping_or_pong {opcode : Opcode} (parts : message.parts = .ok (opcode, payload))
    (reply : opcode = .ping ∨ opcode = .pong) (ws : WebSocketStream κ) :
    Async.MovesAt Behaves Behaves (send message) ws := by
  refine send_control parts (by rcases reply with rfl | rfl <;> rfl) ?_
  rcases reply with rfl | rfl <;> cases ws.closeSent <;> rfl

/-- A message that is refused is not sent. -/
theorem send_of_parts
    (sends : ∀ opcode payload, message.parts = .ok (opcode, payload) →
      Async.MovesAt Behaves Behaves (send message) ws) :
    Async.MovesAt Behaves Behaves (send message) ws := by
  cases parts : message.parts with
  | error error =>
      rw [Async.MovesAt, send, parts]
      exact Std.Refl.refl ws
  | ok result => exact sends result.1 result.2 parts

theorem send_ping (payload : Bytes) (ws : WebSocketStream κ) :
    Async.MovesAt Behaves Behaves (send (.ping payload)) ws := by
  refine send_of_parts fun opcode _ parts => send_ping_or_pong parts (.inl ?_) ws
  obtain ⟨_, _, result⟩ := except_bind_ok parts
  cases result
  rfl

theorem send_pong (payload : Bytes) (ws : WebSocketStream κ) :
    Async.MovesAt Behaves Behaves (send (.pong payload)) ws := by
  refine send_of_parts fun opcode _ parts => send_ping_or_pong parts (.inr ?_) ws
  obtain ⟨_, _, result⟩ := except_bind_ok parts
  cases result
  rfl

/-- A Close, before any other has been written. -/
theorem send_close (info : Option (UInt16 × List Char)) (first : ws.closeSent = false) :
    Async.MovesAt Behaves Behaves (send (.close info)) ws := by
  refine send_of_parts fun opcode payload parts => ?_
  obtain ⟨_, _, result⟩ := except_bind_ok parts
  cases result
  refine send_control parts rfl ?_
  rw [first]
  rfl

/-- A control message that is sent is written. -/
theorem wrote_of_send (sends : (send message).Runs ws () after)
    (control : ∀ opcode payload, message.parts = .ok (opcode, payload) → opcode.isData = false) :
    ∃ opcode payload masks key, message.parts = .ok (opcode, payload) ∧
      after = ws.wrote opcode masks (encode ⟨true, false, opcode, payload⟩ (peerMask ws.role.peer key)) := by
  obtain ⟨⟨opcode, payload⟩, middle, unpacks, _⟩ := sends.of_bind
  have parts := unpacks.of_ofExcept.1
  obtain ⟨masks, key, runs⟩ := @send_runs _ ws _ _ _ _ parts (by simp [control _ _ parts])
  exact ⟨opcode, payload, masks, key, parts, (sends.unique runs).2⟩

theorem send_pong_longer (sends : (send (.pong payload)).Runs ws () after) :
    ws.conn.io.outbound.length < after.conn.io.outbound.length := by
  obtain ⟨opcode, payload, masks, key, _, rfl⟩ := wrote_of_send sends fun _ _ parts => by
    obtain ⟨_, _, same⟩ := except_bind_ok parts
    cases same
    rfl
  exact (Logs.wrote opcode masks ⟨true, false, opcode, payload⟩ key).length_lt (by simp)

theorem closeSent_of_send {info : Option (UInt16 × List Char)}
    (sends : (send (.close info)).Runs ws () after) : after.closeSent = true := by
  have isClose : ∀ opcode payload, (Message.close info).parts = .ok (opcode, payload) →
      opcode = .close := by
    intro opcode payload parts
    obtain ⟨_, _, same⟩ := except_bind_ok parts
    cases same
    rfl
  obtain ⟨opcode, payload, masks, key, parts, rfl⟩ :=
    wrote_of_send sends fun _ _ parts => by rw [isClose _ _ parts]; rfl
  simp [wrote, isClose _ _ parts]

/-- A data message is written as at most one frame. -/
theorem send_data (parts : message.parts = .ok (opcode, payload)) (data : opcode.isData = true)
    (opened : ws.closeSent = false) : Async.MovesAt Behaves Behaves (send message) ws := by
  have notClose : opcode ≠ .close := by
    rintro rfl
    cases data
  have same : { ws with closeSent := ws.closeSent || opcode = .close } = ws := by
    simp [notClose]
  rw [Async.MovesAt, send, parts, (Async.Runs.ofExcept ws (opcode, payload)).bind_eq]
  dsimp only
  rw [(Async.Runs.modify _ ws).bind_eq, same]
  change Async.MovesAt Behaves Behaves (compressPayload opcode payload >>= _) ws
  refine .bind (Behaves.of_keeps (compressPayload_keeps (fun _ _ => rfl) opcode payload) ws)
    fun result middle compressed => ?_
  have still : middle.closeSent = ws.closeSent :=
    (compressPayload_keeps (fun _ _ => rfl) opcode _).of_runs compressed
  let frame : Frame := ⟨true, result.1, opcode, result.2⟩
  obtain ⟨masks, key, writes⟩ := writeFrame_runs middle frame
  rw [Async.MovesAt, show _ = _ from writes]
  have unchanged : middle.written masks (encode frame (peerMask middle.role.peer key)) =
      middle.wrote opcode masks (encode frame (peerMask middle.role.peer key)) := by
    simp [wrote, notClose, written]
  rw [unchanged]
  refine @Behaves.wrote _ middle masks frame key ?_
  rw [still, opened]
  rfl

end Send

/-- The transport delivers, and a side that has received a Close has sent one. -/
structure Sound (ws : WebSocketStream κ) : Prop where
  live : ws.conn.Live
  answered : ws.closeReceived = true → ws.closeSent = true

def KeepsSound (before after : WebSocketStream κ) : Prop := before.Sound → after.Sound

instance : Std.Refl (KeepsSound (κ := κ)) := ⟨fun _ => id⟩

instance : Trans (KeepsSound (κ := κ)) KeepsSound KeepsSound := ⟨fun first second => second ∘ first⟩

theorem Behaves.keepsSound (behaves : Behaves before after) : KeepsSound before after := by
  refine fun sound => ⟨behaves.live sound.live, fun received => ?_⟩
  exact (behaves.received received).elim (fun earlier => behaves.closeSent (sound.answered earlier)) id

theorem send_keepsSound [DeflateCodec κ] (message : Message) :
    Async.Moves KeepsSound KeepsSound (send message : Async _ (WebSocketStream κ) _) := by
  refine .bind (.ofExcept _) fun (opcode, payload) => .bind (.modify fun ws sound => ?_) fun _ => ?_
  · exact ⟨sound.live, fun received => by simp [sound.answered received]⟩
  refine .bind ?_ fun (rsv1, payload) => .bind ?_ fun mask => ?_
  · exact (Behaves.of_keeps (compressPayload_keeps (fun _ _ => rfl) _ _)).imp
      (fun _ _ behaves => behaves.keepsSound) fun _ _ behaves => behaves.keepsSound
  · refine .bind .get fun ws => ?_
    split
    · exact .bind (.modify fun _ sound => ⟨sound.live, sound.answered⟩) fun _ => .pure _
    · exact .pure _
  · refine Async.Moves.same_iff.mpr fun ws sound => ?_
    exact ⟨⟨sound.live.segments, sound.live.eof⟩, sound.answered⟩

section Receive

theorem closeReceived_behaves (closed : ws.closeSent = true) :
    Behaves ws { ws with closeReceived := true } where
  log := ⟨[], .of_same rfl rfl, rfl⟩
  received _ := .inr closed
  live := id

/-- The end of the transport, what was agreed on, and what is known of the two Closes. -/
structure Unchanged (before after : WebSocketStream κ) : Prop where
  ending : after.conn.io.ending = before.conn.io.ending
  deflate : after.deflate = before.deflate
  closeSent : after.closeSent = before.closeSent
  closeReceived : after.closeReceived = before.closeReceived
  keepalive : after.keepalive = before.keepalive

theorem Unchanged.refl (ws : WebSocketStream κ) : Unchanged ws ws := ⟨rfl, rfl, rfl, rfl, rfl⟩

theorem Unchanged.trans (first : Unchanged before middle) (second : Unchanged middle after) :
    Unchanged before after :=
  ⟨second.ending.trans first.ending, second.deflate.trans first.deflate,
    second.closeSent.trans first.closeSent, second.closeReceived.trans first.closeReceived,
    second.keepalive.trans first.keepalive⟩

/-- What waiting for the peer does: Pings are written. -/
structure Pings (before after : WebSocketStream κ) : Prop where
  log : ∃ log, Logs log before after ∧ ∀ frame ∈ log, frame = .whole .ping []
  unchanged : Unchanged before after
  live : before.conn.Live → after.conn.Live

namespace Pings

instance : Std.Refl (Pings (κ := κ)) :=
  ⟨fun ws => ⟨⟨[], .of_same rfl rfl, nofun⟩, .refl ws, id⟩⟩

instance : Trans (Pings (κ := κ)) Pings Pings where
  trans first second := by
    obtain ⟨log, logs, pings⟩ := first.log
    obtain ⟨log', logs', pings'⟩ := second.log
    exact ⟨⟨log ++ log', logs.trans logs', List.forall_mem_append.mpr ⟨pings, pings'⟩⟩,
      first.unchanged.trans second.unchanged, second.live ∘ first.live⟩

theorem foldlM_afterFrame (pings : ∀ frame ∈ log, frame = .whole .ping []) (closeSent : Bool) :
    log.foldlM afterFrame closeSent = some closeSent := by
  induction log with
  | nil => rfl
  | cons frame log ih =>
      have same : afterFrame closeSent frame = some closeSent := by
        unfold afterFrame
        rw [pings frame (.head _)]
        cases closeSent <;> rfl
      rw [List.foldlM_cons, same]
      exact ih fun frame member => pings frame (.tail _ member)

theorem behaves (pings : Pings before after) : Behaves before after where
  log := by
    obtain ⟨log, logs, same⟩ := pings.log
    exact ⟨log, logs, pings.unchanged.closeSent ▸ foldlM_afterFrame same before.closeSent⟩
  received received := .inl (pings.unchanged.closeReceived ▸ received)
  live := pings.live

end Pings

theorem readRaw_pings (capacity : Nat) :
    Async.Moves Pings Pings
      (onConn (HttpConnection.readRaw capacity) : Async _ (WebSocketStream κ) _) := by
  have lift : ∀ (state : WebSocketStream κ) (conn : HttpConnection),
      HttpConnection.OnlyReads state.conn conn → Pings state { state with conn } :=
    fun _ _ reads => ⟨⟨[], .of_same reads.outbound rfl, nofun⟩, ⟨reads.ending, rfl, rfl, rfl, rfl⟩, reads.live⟩
  exact (HttpConnection.readRaw_onlyReads capacity).mapError.zoom lift lift

theorem modify_frameBuf_pings (change : WebSocketStream κ → Bytes) :
    Async.Moves Pings Pings (Async.modify (ε := WsError) fun ws : WebSocketStream κ =>
      { ws with frameBuf := change ws }) :=
  .modify fun _ => ⟨⟨[], .of_same rfl rfl, nofun⟩, ⟨rfl, rfl, rfl, rfl, rfl⟩, id⟩

/-- A change of what is known of the waits. -/
theorem modify_waits_pings {change : WebSocketStream κ → WebSocketStream κ}
    (shape : ∀ ws, change ws = { ws with
      pingOutstanding := (change ws).pingOutstanding, expiries := (change ws).expiries }) :
    Async.Moves Pings Pings (Async.modify (ε := WsError) change) := by
  refine .modify fun ws => ?_
  rw [shape ws]
  exact ⟨⟨[], .of_same rfl rfl, nofun⟩, ⟨rfl, rfl, rfl, rfl, rfl⟩, id⟩

variable [DeflateCodec κ]

theorem send_ping_pings (ws : WebSocketStream κ) :
    Async.MovesAt Pings Pings (send (.ping [])) ws := by
  obtain ⟨masks, key, sends⟩ := @send_runs _ ws _ (.ping []) .ping [] rfl nofun
  rw [Async.MovesAt, show send (.ping []) ws = _ from sends]
  exact ⟨⟨_, .wrote .., by simp [Frame.whole]⟩, ⟨rfl, rfl, Bool.or_false _, rfl, rfl⟩,
    fun live => ⟨live.segments, live.eof⟩⟩

theorem readTimed_pings (policy : KeepAlive) (capacity rounds : Nat) :
    Async.Moves Pings Pings (readTimed policy capacity rounds : Async _ (WebSocketStream κ) _) := by
  induction rounds with
  | zero => exact .wait
  | succ rounds ih =>
      refine .bind .get fun ws => .bind (modify_waits_pings fun _ => rfl) fun _ => ?_
      generalize ws.expiries 0 _ = expired
      split
      · split
        · exact .fail _
        · exact .bind send_ping_pings fun _ => .bind (modify_waits_pings fun _ => rfl) fun _ => ih
      · refine .bind (readRaw_pings capacity).attempt fun result => ?_
        exact .bind (modify_waits_pings fun _ => rfl) fun _ => .ofExcept _

theorem readWithKeepalive_pings (capacity : Nat) :
    Async.Moves Pings Pings (readWithKeepalive capacity : Async _ (WebSocketStream κ) _) := by
  refine .bind .get fun ws => ?_
  split
  · exact readRaw_pings capacity
  · exact readTimed_pings _ capacity 2

theorem topUp_pings {fuel : Nat}
    (loops : Async.Moves Pings Pings (nextFrameLoop fuel : Async _ (WebSocketStream κ) _))
    (chunk : Bytes) :
    Async.Moves Pings Pings (topUp fuel chunk : Async _ (WebSocketStream κ) _) := by
  unfold topUp
  split
  · refine .bind .get fun ws => ?_
    split
    · exact .pure _
    · exact .fail _
  · exact .bind (modify_frameBuf_pings _) fun _ => loops

theorem nextFrameLoop_pings (fuel : Nat) :
    Async.Moves Pings Pings (nextFrameLoop fuel : Async _ (WebSocketStream κ) _) := by
  induction fuel with
  | zero => exact .wait
  | succ fuel ih =>
      intro ws
      refine Async.MovesAt.get_bind (.bind (Async.Moves.ofExcept _ ws) fun found middle decoded => ?_)
      obtain ⟨-, rfl⟩ := decoded.of_ofExcept
      cases found with
      | some found => exact modify_frameBuf_pings (fun _ => middle.frameBuf.drop found.2) middle
      | none =>
          exact .bind (readWithKeepalive_pings 8192 _) fun chunk middle _ => topUp_pings ih chunk middle

/-- The wait for the next frame. -/
theorem nextFrame_pings : Async.Moves Pings Pings (nextFrame : Async _ (WebSocketStream κ) _) :=
  .bind .get fun _ => nextFrameLoop_pings _

theorem nextFrame_behaves : Async.Moves Behaves Behaves (nextFrame : Async _ (WebSocketStream κ) _) :=
  nextFrame_pings.imp (fun _ _ pings => pings.behaves) fun _ _ pings => pings.behaves

theorem finish_keeps {β : Type} {part : WebSocketStream κ → β}
    (same : ∀ ws codec, part { ws with deflate := some codec } = part ws) (assembly : Assembly) :
    (finish assembly).Keeps part := by
  refine .bind (.bind .get fun ws => ?_) fun assembled => ?_
  · split
    · split
      · exact .zoom fun _ => same _ _
      · exact .pure _
    · exact .pure _
  · split
    · split
      · exact .pure _
      · exact .fail _
    · exact .pure _
    · exact .fail _

theorem addPayload_keeps {β : Type} {part : WebSocketStream κ → β}
    (same : ∀ ws codec, part { ws with deflate := some codec } = part ws) (assembly : Assembly)
    (frame : Frame) : (addPayload assembly frame).Keeps part := by
  refine .bind (.ofExcept _) fun _ => ?_
  split
  · exact .bind (finish_keeps same _) fun _ => .pure _
  · exact .pure _

/-- A part of the stream that only reading changes. -/
def Untouched {β : Type} (part : WebSocketStream κ → β) : Prop :=
  ∀ ws deflate outbound closeSent closeReceived masks,
    part { ws with
      deflate, closeSent, closeReceived, masks
      conn := { ws.conn with io := { ws.conn.io with outbound } } } = part ws

theorem send_keeps {β : Type} {part : WebSocketStream κ → β} (same : Untouched part) (message : Message) :
    (send message).Keeps part := by
  refine .bind (.ofExcept _) fun (opcode, payload) => .bind (.modify fun ws => ?_) fun _ => ?_
  · exact same ws _ _ _ _ _
  refine .bind (compressPayload_keeps (fun ws _ => same ws _ _ _ _ _) _ _) fun (rsv1, payload) =>
    .bind ?_ fun mask => ?_
  · refine .bind .get fun ws => ?_
    split
    · exact .bind (.modify fun ws => same ws _ _ _ _ _) fun _ => .pure _
    · exact .pure _
  · exact .zoom fun ws => same ws _ _ _ _ _

theorem handleFrame_keeps {β : Type} {part : WebSocketStream κ → β} (same : Untouched part)
    (assembly : Assembly) (frame : Frame) : (handleFrame assembly frame).Keeps part := by
  refine .bind .get fun ws => ?_
  split
  · exact .fail _
  · split
    · exact .fail _
    · cases frame.opcode with
      | ping => exact .bind (send_keeps same _) fun _ => .pure _
      | pong => exact .pure _
      | close =>
          have closes : (Async.modify fun ws : WebSocketStream κ =>
              { ws with closeReceived := true }).Keeps (ε := WsError) part :=
            .modify fun ws => same ws _ _ _ _ _
          refine .bind (.bind (.ofExcept _) fun info => .bind .get fun ws => ?_) fun _ => .pure _
          dsimp only
          split
          · exact .bind closes fun _ => .pure _
          · exact .bind (send_keeps same _) fun _ => .bind closes fun _ => .pure _
      | text | binary | continuation =>
          dsimp only
          split
          · exact .fail _
          · exact addPayload_keeps (fun ws _ => same ws _ _ _ _ _) _ _

theorem failConnection_keeps {β : Type} {part : WebSocketStream κ → β} (same : Untouched part) (reason : String) :
    (failConnection reason).Keeps part := by
  refine .bind .get fun ws => ?_
  split
  · exact .fail _
  · exact .bind (send_keeps same _).attempt fun _ => .fail _

theorem handleClose_behaves (payload : Bytes) :
    Async.Moves Behaves Behaves (handleClose payload : Async _ (WebSocketStream κ) _) := by
  refine .bind (.ofExcept _) fun info ws => Async.MovesAt.get_bind ?_
  dsimp only
  split
  · next closed => exact closeReceived_behaves closed
  · next opened =>
      refine .bind (send_close info (by simpa using opened)) fun _ middle sends => ?_
      exact closeReceived_behaves (closeSent_of_send sends)

theorem handleFrame_behaves (assembly : Assembly) (frame : Frame) :
    Async.Moves Behaves Behaves (handleFrame assembly frame : Async _ (WebSocketStream κ) _) := by
  refine .bind .get fun ws => ?_
  split
  · exact .fail _
  · split
    · exact .fail _
    · cases frame.opcode with
      | ping => exact .bind (send_pong _) fun _ => .pure _
      | pong => exact .pure _
      | close => exact .bind (handleClose_behaves _) fun _ => .pure _
      | text | binary | continuation =>
          dsimp only
          split
          · exact .fail _
          · exact Behaves.of_keeps (addPayload_keeps (fun _ _ => rfl) _ _)

theorem recvLoop_behaves (fuel : Nat) (assembly : Assembly) :
    Async.Moves Behaves Behaves (recvLoop fuel assembly : Async _ (WebSocketStream κ) _) := by
  induction fuel generalizing assembly with
  | zero => exact .wait
  | succ fuel ih =>
      refine .bind nextFrame_behaves fun found => ?_
      split
      · exact .pure _
      · refine .bind (handleFrame_behaves _ _) fun progress => ?_
        split
        · exact .pure _
        · exact ih _

theorem failConnection_behaves (reason : String) :
    Async.Moves Behaves Behaves (failConnection reason : Async _ (WebSocketStream κ) _) := by
  intro ws
  refine Async.MovesAt.get_bind ?_
  split
  · exact .fail _ ws
  · next opened =>
      exact .bind (send_close _ (by simpa using opened)).attempt fun _ middle _ => .fail _ middle

theorem recv_behaves : Async.Moves Behaves Behaves (recv : Async _ (WebSocketStream κ) _) := by
  refine .bind (.attempt (.bind .get fun _ => recvLoop_behaves _ _)) fun result => ?_
  split
  · exact .pure _
  · exact failConnection_behaves _
  · exact .fail _

theorem drainLoop_behaves (fuel : Nat) :
    Async.Moves Behaves Behaves (drainLoop fuel : Async _ (WebSocketStream κ) _) := by
  induction fuel with
  | zero => exact .wait
  | succ fuel ih =>
      refine .bind recv_behaves fun found => ?_
      split
      · exact ih
      · exact .pure _

theorem close_behaves (code : UInt16) :
    Async.Moves Behaves Behaves (close code : Async _ (WebSocketStream κ) _) := by
  have drains : Async.Moves Behaves Behaves
      (do drainLoop ((← Async.get).stream.length + 1) : Async _ (WebSocketStream κ) _) :=
    .bind .get fun _ => drainLoop_behaves _
  intro ws
  refine Async.MovesAt.get_bind ?_
  dsimp only
  split
  · exact drains ws
  · next opened =>
      refine .bind (send_close _ (by simpa using opened)) fun _ middle sends => ?_
      have closed := closeSent_of_send sends
      refine .bind ?_ fun _ middle _ => drains middle
      exact .of_same rfl rfl closed.symm rfl id

end Receive

inductive Call where
  | send (message : Message)
  | recv
  | close (code : UInt16)
  | setKeepalive (policy : Option KeepAlive)

/-- A call of the stream's user, or more bytes from a peer that has not shut down. -/
inductive Event where
  | call (call : Call)
  | arrives (segments : List Bytes) (ending : Ending)

/-- More comes in, and the end of it is another one. -/
def arrive (segments : List Bytes) (ending : Ending) (ws : WebSocketStream κ) : WebSocketStream κ :=
  { ws with conn := { ws.conn with io := { ws.conn.io with
    inbound := ws.conn.io.inbound ++ segments, ending } } }

/-- A stream behind the opening handshake. -/
structure Opened (ws : WebSocketStream κ) : Prop where
  live : ws.conn.Live
  fresh : ws = { (fromConn ws.conn ws.role ws.masks ws.expiries : WebSocketStream κ) with
    deflate := ws.deflate }

section Runs

theorem Opened.sound (opened : ws.Opened) : ws.Sound := by
  refine ⟨opened.live, ?_⟩
  rw [opened.fresh]
  nofun

theorem arrive_behaves {segments : List Bytes} (ending : Ending) (nonempty : [] ∉ segments) :
    Behaves ws (ws.arrive segments ending) := by
  refine .of_same rfl rfl rfl rfl fun live => ⟨fun segment member => ?_, live.eof⟩
  cases List.mem_append.mp member with
  | inl earlier => exact live.segments segment earlier
  | inr later => exact fun empty => nonempty (empty ▸ later)

variable [DeflateCodec κ]

def Call.run : Call → Async WsError (WebSocketStream κ) (Option Message)
  | .send message => do
      WebSocketStream.send message
      pure none
  | .recv => WebSocketStream.recv
  | .close code => do
      WebSocketStream.close code
      pure none
  | .setKeepalive policy => do
      WebSocketStream.setKeepalive policy
      pure none

/-- A call that stays pending is dropped. -/
def step (ws : WebSocketStream κ) : Event → Option (WebSocketStream κ)
  | .call call => some (call.run ws).2
  | .arrives segments ending =>
      match ws.conn.io.ending with
      | .pending => if [] ∈ segments then none else some (ws.arrive segments ending)
      | _ => none

theorem step_arrives {segments : List Bytes} {ending : Ending}
    (steps : step ws (.arrives segments ending) = some after) :
    ws.conn.io.ending = .pending ∧ [] ∉ segments ∧ after = ws.arrive segments ending := by
  rw [step] at steps
  split at steps
  · next pending =>
      split at steps
      · cases steps
      · next nonempty => exact ⟨pending, nonempty, (Option.some.inj steps).symm⟩
  · cases steps

/-- The sending of a message apart, every step keeps to the rule. -/
theorem step_behaves {event : Event} (steps : step ws event = some after) :
    Behaves ws after ∨ ∃ message, event = .call (.send message) := by
  cases event with
  | arrives segments ending =>
      obtain ⟨_, nonempty, rfl⟩ := step_arrives steps
      exact .inl (arrive_behaves ending nonempty)
  | call call =>
      cases Option.some.inj steps
      cases call with
      | send message => exact .inr ⟨message, rfl⟩
      | recv => exact .inl (Async.Moves.same_iff.mp recv_behaves ws)
      | close code =>
          refine .inl (Async.Moves.same_iff.mp (.bind (close_behaves code) fun _ => ?_) ws)
          exact .pure _
      | setKeepalive policy => exact .inl (.of_same rfl rfl rfl rfl id)

theorem step_keepsSound {event : Event} (sound : ws.Sound) (steps : step ws event = some after) :
    after.Sound := by
  obtain behaves | ⟨message, rfl⟩ := step_behaves steps
  · exact behaves.keepsSound sound
  · cases Option.some.inj steps
    refine Async.Moves.same_iff.mp (.bind (send_keepsSound message) fun _ => ?_) ws sound
    exact .pure _

/-- Whatever is called, and whatever the peer does. -/
theorem sound_of_reachable {start : WebSocketStream κ} (opened : start.Opened)
    (reached : Reachable step start ws) : ws.Sound :=
  reached.invariant step_keepsSound opened.sound

end Runs

end WebSocketStream

end TptAsync.Ws
