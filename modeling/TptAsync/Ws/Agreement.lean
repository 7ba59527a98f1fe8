import TptAsync.Ws.Closing
import TptAsync.Ws.Transmission

set_option autoImplicit false

/-!
# What one side sends and what the other receives

A side may send what its peer refuses: `send` checks the size of control payloads, and nothing
else.
-/

namespace TptAsync.Ws

open Lib Http

namespace WebSocketStream

variable {κ : Type} {ws sender sent receiver after : WebSocketStream κ} {message : Message}

/-- Not a violation of the protocol. -/
def Peaceful {α : Type} (outcome : Outcome WsError α) : Prop :=
  ∀ reason, outcome ≠ .failed (.protocol reason)

theorem Peaceful.failed {α β : Type} {error : WsError}
    (peaceful : Peaceful (.failed error : Outcome WsError α)) :
    Peaceful (.failed error : Outcome WsError β) := by
  intro reason ends
  cases ends
  exact peaceful reason rfl

theorem Peaceful.ready {α : Type} (value : α) : Peaceful (.ready value) := by
  intro reason ends
  cases ends

theorem Peaceful.pending {α : Type} : Peaceful (.pending : Outcome WsError α) := by
  intro reason ends
  cases ends

theorem peaceful_of_ne {α : Type} {error : WsError} (other : ∀ reason, error ≠ .protocol reason) :
    Peaceful (.failed error : Outcome WsError α) := by
  intro reason ends
  cases ends
  exact other reason rfl

/-- Nothing else comes of it, and no violation. -/
structure Yields {α : Type} (value : α) (outcome : Outcome WsError α) : Prop where
  peaceful : Peaceful outcome
  only : ∀ found, outcome = .ready found → found = value

namespace Yields

variable {α : Type} {value : α}

theorem ready : Yields value (.ready value) :=
  ⟨.ready value, fun _ ends => (Outcome.ready.inj ends).symm⟩

theorem pending : Yields value .pending := ⟨.pending, fun _ ends => by cases ends⟩

theorem failed {error : WsError} (peaceful : Peaceful (.failed error : Outcome WsError α)) :
    Yields value (.failed error) := ⟨peaceful, fun _ ends => by cases ends⟩

end Yields

section Dry

theorem onConn_readRaw_dry (live : ws.conn.Live) (dry : ws.conn.stream = []) (capacity : Nat) :
    ∃ outcome, onConn (HttpConnection.readRaw capacity) ws = (outcome, ws) ∧ Yields [] outcome := by
  rw [onConn, Async.zoom, Async.mapError, HttpConnection.readRaw_ended live dry]
  cases ws.conn.io.ending with
  | eof => exact ⟨_, rfl, .ready⟩
  | pending => exact ⟨_, rfl, .pending⟩
  | error error => exact ⟨_, rfl, .failed (peaceful_of_ne fun _ same => by cases same)⟩

variable [DeflateCodec κ]

theorem readTimed_dry {policy : KeepAlive} {capacity rounds : Nat} (live : ws.conn.Live)
    (dry : ws.conn.stream = []) :
    ∃ outcome after, readTimed policy capacity rounds ws = (outcome, after) ∧ Yields [] outcome := by
  induction rounds generalizing ws with
  | zero => exact ⟨.pending, ws, rfl, .pending⟩
  | succ rounds ih =>
      let wait := if ws.pingOutstanding then policy.timeout else policy.interval
      let waited : WebSocketStream κ := { ws with expiries := fun n => ws.expiries (n + 1) }
      rw [readTimed, (Async.Runs.get ws).bind_eq, (Async.Runs.modify _ ws).bind_eq]
      cases ws.expiries 0 wait with
      | true =>
          rw [if_pos rfl]
          split
          · exact ⟨.failed .timedOut, _, rfl, .failed (peaceful_of_ne fun _ same => by cases same)⟩
          · obtain ⟨masks, key, sends⟩ := @send_runs _ waited _ (.ping []) .ping [] rfl fun data => Bool.noConfusion data
            rw [sends.bind_eq, (Async.Runs.modify _ _).bind_eq]
            exact ih ⟨live.segments, live.eof⟩ dry
      | false =>
          rw [if_neg Bool.false_ne_true]
          obtain ⟨outcome, reads, yields⟩ := @onConn_readRaw_dry _ waited live dry capacity
          cases outcome with
          | ready data =>
              rw [(Async.Runs.attempt reads).bind_eq, (Async.Runs.modify _ _).bind_eq]
              exact ⟨.ready data, _, rfl, yields⟩
          | failed error =>
              rw [(Async.Runs.attempt_failed reads).bind_eq, (Async.Runs.modify _ _).bind_eq]
              exact ⟨.failed error, _, rfl, yields⟩
          | pending =>
              refine ⟨.pending, waited, Async.bind_pending ?_, .pending⟩
              rw [Async.attempt, reads]

theorem readWithKeepalive_dry {capacity : Nat} (live : ws.conn.Live) (dry : ws.conn.stream = []) :
    ∃ outcome after, readWithKeepalive capacity ws = (outcome, after) ∧ Yields [] outcome := by
  rw [readWithKeepalive, (Async.Runs.get ws).bind_eq]
  cases ws.keepalive with
  | none =>
      obtain ⟨outcome, reads, rest⟩ := onConn_readRaw_dry live dry capacity
      exact ⟨outcome, ws, reads, rest⟩
  | some policy => exact readTimed_dry live dry

/-- At the end of the stream there is no next frame. -/
theorem nextFrame_dry (live : ws.conn.Live) (dry : ws.stream = []) :
    ∃ outcome after, nextFrame ws = (outcome, after) ∧ Yields none outcome := by
  obtain ⟨buffered, delivered⟩ := List.append_eq_nil_iff.mp dry
  have missing : decode ws.frameBuf ws.role = .ok none := by rw [buffered]; rfl
  obtain ⟨outcome, after, reads, yields⟩ := @readWithKeepalive_dry _ ws _ 8192 live delivered
  rw [nextFrame, (Async.Runs.get ws).bind_eq, nextFrameLoop_missing _ missing]
  cases outcome with
  | pending => exact ⟨.pending, after, Async.bind_pending reads, .pending⟩
  | failed error =>
      exact ⟨.failed error, after, Async.bind_failed reads, .failed yields.peaceful.failed⟩
  | ready data =>
      cases yields.only data rfl
      rw [Async.Runs.bind_eq reads, topUp, List.length_nil, if_pos rfl, (Async.Runs.get after).bind_eq]
      split
      · exact ⟨.ready none, after, rfl, .ready⟩
      · exact ⟨.failed .connectionClosed, after, rfl,
          .failed (peaceful_of_ne fun _ same => by cases same)⟩

end Dry

variable [DeflateCodec κ]

/-- The peer takes the message for what it is, and answers it. -/
def Understood (message : Message) (receiver : WebSocketStream κ) : Prop :=
  ∃ outcome after log, recv receiver = (outcome, after) ∧ Logs log receiver after ∧
    (∀ frame ∈ log, frame.payload.length ≤ 125) ∧ Peaceful outcome ∧
    match message with
    | .text _ | .binary _ | .pong _ => outcome = .ready (some message) ∧ replies log = []
    | .ping payload => replies log = [.whole .pong payload]
    | .close info => outcome = .ready none ∧ replies log = [.whole .close (closePayload info)]

/-- A message that has been sent, and all of its bytes on their way to the peer. -/
structure Conveys (message : Message) (sender sent receiver : WebSocketStream κ) : Prop where
  sends : (send message).Runs sender () sent
  plain : sender.deflate = none
  /-- No vector is longer. -/
  vector : ∀ opcode payload, message.parts = .ok (opcode, payload) → payload.length < 2 ^ 63
  role : receiver.role = sender.role.peer
  arrives : sent.conn.io.outbound = sender.conn.io.outbound ++ receiver.stream
  live : receiver.Live
  plain' : receiver.deflate = none

/-- What a peer lets pass: data within its limit, and a Close with a code that may be sent. Only who
has not sent a Close echoes one. -/
def Receivable (receiver : WebSocketStream κ) : Message → Prop
  | .text string => (Text.toUtf8 string).length ≤ maxPayload
  | .binary bytes => bytes.length ≤ maxPayload
  | .ping _ | .pong _ => True
  | .close none => receiver.closeSent = false
  | .close (some (code, _)) => isValidCloseCode code = true ∧ receiver.closeSent = false

section Conveys

variable {opcode : Opcode} {payload : Bytes} {keys : Nat → MaskKey} {info : Option (UInt16 × List Char)}

/-- What arrives is one frame. -/
theorem Conveys.shape (conveys : Conveys message sender sent receiver) :
    ∃ opcode payload keys, message.parts = .ok (opcode, payload) ∧
      receiver.stream = wire receiver.role keys [.whole opcode payload] ++ [] := by
  obtain ⟨⟨opcode, payload⟩, middle, unpacks, _⟩ := conveys.sends.of_bind
  have parts := unpacks.of_ofExcept.1
  obtain ⟨masks, key, runs⟩ := @send_runs _ sender _ _ _ _ parts fun _ => conveys.plain
  obtain ⟨_, rfl⟩ := conveys.sends.unique runs
  refine ⟨opcode, payload, fun _ => key, parts, ?_⟩
  have arrives := List.append_cancel_left conveys.arrives
  rw [wire, wire_nil, List.append_nil, List.append_nil, conveys.role]
  exact arrives.symm

theorem parseClose_closePayload (info : Option (UInt16 × List Char)) :
    parseClose (closePayload info) =
      match info with
      | none => .ok none
      | some (code, reason) =>
          if isValidCloseCode code then .ok (some (code, reason))
          else .error (.protocol "invalid close status code") := by
  cases info with
  | none => rfl
  | some close =>
      obtain ⟨code, reason⟩ := close
      have bytes := @Bytes.fromBe_toBe 2 code.toNat code.toNat_lt
      have same : code.toNat.toUInt16 = code := UInt16.ofNat_toNat
      have shape : closePayload (some (code, reason)) =
          UInt8.ofNat (code.toNat / 256) :: UInt8.ofNat code.toNat :: Text.toUtf8 reason := rfl
      rw [show Bytes.toBe 2 code.toNat = [UInt8.ofNat (code.toNat / 256), UInt8.ofNat code.toNat] from rfl]
        at bytes
      rw [shape, parseClose]
      simp only [bytes, same, Text.fromUtf8_toUtf8]
      cases isValidCloseCode code <;> rfl

theorem recv_data (parts : message.parts = .ok (opcode, payload)) (isData : opcode.isData = true)
    (size : payload.length ≤ maxPayload) (live : ws.Live) (plain : ws.deflate = none)
    (shape : ws.stream = wire ws.role keys [.whole opcode payload] ++ []) :
    ∃ after, recv.Runs ws (some message) after ∧ Replies [] ws after := by
  obtain ⟨after, runs, _, replies⟩ := @recv_transmission _ ws keys [] _
    { message, opcode, payload, parts, isData, size
      fragments := [([], payload)]
      nonempty := by simp
      cut := by simp
      legal := by simp } live plain shape
  exact ⟨after, runs, replies⟩

/-- A message beyond the limit is refused. -/
theorem recv_oversize (large : maxPayload < payload.length) (vector : payload.length < 2 ^ 63)
    (live : ws.Live) (shape : ws.stream = wire ws.role keys [.whole opcode payload] ++ []) :
    (recv ws).1 = .failed (.protocol "frame exceeds 16 MiB limit") := by
  have decoded : decode ws.stream ws.role = .error (.protocol "frame exceeds 16 MiB limit") := by
    rw [shape, wire, List.append_assoc]
    exact @decode_oversize _ (.whole opcode payload) _ _ large (vector.trans (by decide))
  obtain ⟨outcome, after, found, word, _⟩ := nextFrame_live live (by simp [decoded])
  have frames := word false .eof
  simp only [frameIn, decoded, Prod.mk.injEq] at frames
  obtain ⟨rfl, _⟩ := frames
  refine @recv_violation _ _ after _ _ ?_
  rw [recvMessage, (Async.Runs.get ws).bind_eq, recvLoop_succ]
  exact Async.bind_failed found

theorem recv_pong (legal : payload.length ≤ 125) (live : ws.Live)
    (shape : ws.stream = wire ws.role keys [.whole .pong payload] ++ []) :
    ∃ after, recv.Runs ws (some (.pong payload)) after ∧ Replies [] ws after := by
  obtain ⟨after, comes, _, replies⟩ := @nextFrame_replies _ ws keys _ _ (.whole .pong payload) _ live
    (legal.trans (by decide)) (fun _ => legal) shape
  refine ⟨after, recv_of_done ((Async.Runs.get ws).bind (comes.bind ?_)), replies⟩
  exact (handleFrame_pong payload).bind (.pure _ _)

theorem recv_peaceful {outcome : Outcome WsError (Option Message)}
    (ends : recvMessage ws = (outcome, after)) (peaceful : Peaceful outcome) :
    recv ws = (outcome, after) := by
  cases outcome with
  | ready found => exact recv_of_done ends
  | pending => exact Async.bind_pending (by rw [Async.attempt, ends])
  | failed error =>
      rw [recv, (Async.Runs.attempt_failed ends).bind_eq]
      cases error with
      | protocol reason => exact absurd rfl (peaceful reason)
      | io | connectionClosed | handshake | timedOut => rfl

/-- A Ping is answered, and the call goes on to wait. -/
theorem recv_ping (legal : payload.length ≤ 125) (live : ws.Live)
    (shape : ws.stream = wire ws.role keys [.whole .ping payload] ++ []) :
    ∃ outcome after log, recv ws = (outcome, after) ∧ Logs log ws after ∧
      (∀ frame ∈ log, frame.payload.length ≤ 125) ∧ Peaceful outcome ∧
      replies log = [.whole .pong payload] := by
  obtain ⟨found, comes, left, waits⟩ := @nextFrame_replies _ ws keys _ _ (.whole .ping payload) _ live
    (legal.trans (by decide)) (fun _ => legal) shape
  obtain ⟨replied, handles, still, replies⟩ := handleFrame_ping ⟨none, [], false⟩ legal waits.live
  obtain ⟨log, logs, pongs, small, _⟩ := (waits.trans replies).log
  obtain ⟨outcome, after, ends, yields⟩ := nextFrame_dry replies.live.conn (still.trans left)
  obtain ⟨later, logs', noReply, small'⟩ := (Async.Moves.same_iff.mp nextFrame_pings replied).no_replies
  rw [ends] at logs'
  have loops : ∃ outcome, recvMessage ws = (outcome, after) ∧ Peaceful outcome := by
    obtain ⟨fuel, enough⟩ : ∃ fuel, ws.stream.length = fuel + 1 := by
      refine Nat.exists_eq_add_one_of_ne_zero fun empty => ?_
      rw [List.length_eq_zero_iff.mp empty, wire, encode_eq] at shape
      cases shape
    rw [recvMessage, (Async.Runs.get ws).bind_eq, enough, recvLoop_more comes handles, recvLoop_succ]
    cases outcome with
    | ready found =>
        cases yields.only found rfl
        rw [Async.Runs.bind_eq ends]
        exact ⟨.ready none, rfl, .ready none⟩
    | failed error => exact ⟨.failed error, Async.bind_failed ends, yields.peaceful.failed⟩
    | pending => exact ⟨.pending, Async.bind_pending ends, .pending⟩
  obtain ⟨outcome, loops, peaceful⟩ := loops
  refine ⟨outcome, after, log ++ later, recv_peaceful loops peaceful, logs.trans logs',
    List.forall_mem_append.mpr ⟨small, small'⟩, peaceful, ?_⟩
  rw [WebSocketStream.replies, List.filter_append, ← WebSocketStream.replies, pongs,
    ← WebSocketStream.replies, noReply]
  rfl

/-- The payload of a control message has been checked. -/
theorem checked_of_parts {content : Bytes} {result other : Opcode × Bytes}
    (parts : (do
      checkControl content
      .ok result : Except WsError (Opcode × Bytes)) = .ok other) :
    content.length ≤ 125 ∧ result = other := by
  obtain ⟨_, checked, same⟩ := except_bind_ok parts
  refine ⟨?_, Except.ok.inj same⟩
  by_contra large
  rw [checkControl, if_pos (Nat.lt_of_not_le large)] at checked
  cases checked

theorem close_of_parts (parts : (Message.close info).parts = .ok (opcode, payload)) :
    opcode = .close ∧ payload = closePayload info ∧ payload.length ≤ 125 := by
  obtain ⟨legal, same⟩ := checked_of_parts parts
  obtain ⟨rfl, rfl⟩ := Prod.mk.inj same
  exact ⟨rfl, rfl, legal⟩

/-- A Close is echoed, unless one has been sent. -/
theorem recv_close (parts : (Message.close info).parts = .ok (.close, payload))
    (parses : parseClose payload = .ok info) (live : ws.Live)
    (shape : ws.stream = wire ws.role keys [.whole .close payload] ++ []) :
    ∃ after log, recv.Runs ws none after ∧ Logs log ws after ∧
      (∀ frame ∈ log, frame.payload.length ≤ 125) ∧
      replies log = if ws.closeSent then [] else [.whole .close payload] := by
  obtain ⟨_, _, legal⟩ := close_of_parts parts
  obtain ⟨found, comes, _, waits⟩ := @nextFrame_replies _ ws keys _ _ (.whole .close payload) _ live
    (legal.trans (by decide)) (fun _ => legal) shape
  obtain ⟨log, logs, noReply, small, _⟩ := waits.log
  have start : ∀ {after}, (handleClose payload).Runs found none after → recv.Runs ws none after := by
    intro after closes
    exact recv_of_done ((Async.Runs.get ws).bind
      (comes.bind ((handleFrame_close ⟨none, [], false⟩ closes).bind (.pure _ _))))
  rw [← waits.unchanged.closeSent]
  cases closed : found.closeSent with
  | true =>
      exact ⟨{ found with closeReceived := true }, log, start (handleClose_second parses closed),
        ⟨logs.outbound, logs.role⟩, small, noReply⟩
  | false =>
      obtain ⟨masks, key, sends⟩ := @send_runs _ found _ _ _ _ parts fun data => Bool.noConfusion data
      have echo := @Logs.wrote _ found .close masks ⟨true, false, .close, payload⟩ key
      refine ⟨_, log ++ [.whole .close payload], start (handleClose_first parses closed sends),
        ⟨(logs.trans echo).outbound, (logs.trans echo).role⟩, ?_, ?_⟩
      · refine List.forall_mem_append.mpr ⟨small, fun frame member => ?_⟩
        rw [List.mem_singleton.mp member]
        exact legal
      · rw [replies, List.filter_append, ← replies, noReply]
        rfl

/-- A Close with a code that may not be sent is refused. -/
theorem recv_invalidClose (legal : payload.length ≤ 125)
    (invalid : parseClose payload = .error (.protocol "invalid close status code")) (live : ws.Live)
    (shape : ws.stream = wire ws.role keys [.whole .close payload] ++ []) :
    (recv ws).1 = .failed (.protocol "invalid close status code") := by
  obtain ⟨found, comes, _, _⟩ := @nextFrame_replies _ ws keys _ _ (.whole .close payload) _ live
    (legal.trans (by decide)) (fun _ => legal) shape
  refine @recv_violation _ _ found _ _ ?_
  rw [recvMessage, (Async.Runs.get ws).bind_eq, recvLoop_succ, comes.bind_eq]
  refine Async.bind_failed ((handleFrame_wellFormed (wellFormed_whole _ _ _)).trans (Async.bind_failed ?_))
  refine Async.bind_failed ?_
  change Async.ofExcept (parseClose payload) found = _
  rw [invalid]
  rfl

/-- Messages that are not answered are returned. -/
theorem understood_returned (notPing : ∀ payload, message ≠ .ping payload)
    (notClose : ∀ info, message ≠ .close info) :
    Understood message ws ↔ ∃ after log, recv.Runs ws (some message) after ∧ Logs log ws after ∧
      (∀ frame ∈ log, frame.payload.length ≤ 125) ∧ replies log = [] := by
  cases message with
  | ping payload => exact absurd rfl (notPing payload)
  | close info => exact absurd rfl (notClose info)
  | text | binary | pong =>
      refine ⟨fun understood => ?_, fun returned => ?_⟩
      · obtain ⟨_, after, log, receives, logs, small, _, rfl, noReply⟩ := understood
        exact ⟨after, log, receives, logs, small, noReply⟩
      · obtain ⟨after, log, receives, logs, small, noReply⟩ := returned
        exact ⟨_, after, log, receives, logs, small, .ready _, rfl, noReply⟩

/-- Data is returned if it is within the limit, and else refused. -/
theorem understood_data (parts : message.parts = .ok (opcode, payload)) (isData : opcode.isData = true)
    (vector : payload.length < 2 ^ 63) (live : ws.Live) (plain : ws.deflate = none)
    (shape : ws.stream = wire ws.role keys [.whole opcode payload] ++ []) :
    (∃ after log, recv.Runs ws (some message) after ∧ Logs log ws after ∧
      (∀ frame ∈ log, frame.payload.length ≤ 125) ∧ replies log = []) ↔ payload.length ≤ maxPayload := by
  refine ⟨fun returned => ?_, fun size => ?_⟩
  · obtain ⟨after, _, receives, _⟩ := returned
    by_contra large
    have refused := recv_oversize (Nat.lt_of_not_le large) vector live shape
    rw [show recv ws = _ from receives] at refused
    cases refused
  · obtain ⟨after, receives, replies⟩ := recv_data parts isData size live plain shape
    obtain ⟨log, logs, noReply, small, _⟩ := replies.log
    exact ⟨after, log, receives, logs, small, noReply⟩

/-- A Close that may be sent is echoed exactly by a side that has not sent one. -/
theorem understood_close (parts : (Message.close info).parts = .ok (.close, payload))
    (parses : parseClose payload = .ok info) (live : ws.Live)
    (shape : ws.stream = wire ws.role keys [.whole .close payload] ++ []) :
    Understood (.close info) ws ↔ ws.closeSent = false := by
  obtain ⟨_, content, _⟩ := close_of_parts parts
  obtain ⟨after, log, receives, logs, small, echo⟩ := recv_close parts parses live shape
  refine ⟨fun understood => ?_, fun opened => ?_⟩
  · obtain ⟨_, after', log', receives', logs', small', _, _, echo'⟩ := understood
    cases receives.symm.trans receives'
    rw [logs.unique logs' small small', echo'] at echo
    cases closed : ws.closeSent with
    | false => rfl
    | true =>
        rw [closed] at echo
        cases echo
  · rw [opened] at echo
    exact ⟨_, after, log, receives, logs, small, .ready _, rfl, content ▸ echo⟩

/-- The peer understands a message exactly when it lets it pass. -/
theorem understood_iff (conveys : Conveys message sender sent receiver) :
    Understood message receiver ↔ Receivable receiver message := by
  obtain ⟨opcode, payload, keys, parts, shape⟩ := conveys.shape
  have vector := conveys.vector opcode payload parts
  cases message with
  | text string =>
      obtain ⟨rfl, rfl⟩ := Prod.mk.inj (Except.ok.inj parts)
      refine (understood_returned (fun _ other => ?_) fun _ other => ?_).trans
        (understood_data parts rfl vector conveys.live conveys.plain' shape)
      all_goals cases other
  | binary bytes =>
      obtain ⟨rfl, rfl⟩ := Prod.mk.inj (Except.ok.inj parts)
      refine (understood_returned (fun _ other => ?_) fun _ other => ?_).trans
        (understood_data parts rfl vector conveys.live conveys.plain' shape)
      all_goals cases other
  | ping bytes =>
      obtain ⟨legal, same⟩ := checked_of_parts parts
      obtain ⟨rfl, rfl⟩ := Prod.mk.inj same
      exact iff_of_true (recv_ping legal conveys.live shape) trivial
  | pong bytes =>
      obtain ⟨legal, same⟩ := checked_of_parts parts
      obtain ⟨rfl, rfl⟩ := Prod.mk.inj same
      obtain ⟨after, receives, replies⟩ := recv_pong legal conveys.live shape
      obtain ⟨log, logs, noReply, small, _⟩ := replies.log
      exact iff_of_true ⟨_, after, log, receives, logs, small, .ready _, rfl, noReply⟩ trivial
  | close info =>
      obtain ⟨rfl, content, legal⟩ := close_of_parts parts
      have parses := parseClose_closePayload info
      rw [← content] at parses
      cases info with
      | none => exact understood_close parts parses conveys.live shape
      | some close =>
          obtain ⟨code, reason⟩ := close
          cases valid : isValidCloseCode code with
          | true =>
              simp only [valid, if_true] at parses
              rw [understood_close parts parses conveys.live shape, Receivable, valid]
              exact (and_iff_right rfl).symm
          | false =>
              simp only [valid, Bool.false_eq_true, if_false] at parses
              have refused := recv_invalidClose legal parses conveys.live shape
              refine iff_of_false (fun understood => ?_) fun receivable => ?_
              · obtain ⟨_, _, _, receives, _, _, peaceful, _⟩ := understood
                rw [receives] at refused
                exact peaceful _ refused
              · cases valid.symm.trans receivable.1

/-- A Close from a server, on its way to a client. -/
theorem conveys_close {code : UInt16} {reason : List Char} {sent : WebSocketStream Empty}
    (sends : (send (.close (some (code, reason)))).Runs accepted () sent) :
    Conveys (.close (some (code, reason))) accepted sent (received sent.conn.io.outbound) where
  sends := sends
  plain := rfl
  vector opcode payload parts := (close_of_parts parts).2.2.trans_lt (by decide)
  role := rfl
  arrives := by simp [accepted, received, fromConn, stream, HttpConnection.new,
    HttpConnection.undelivered]
  live := by
    obtain ⟨opcode, payload, masks, key, _, rfl⟩ := wrote_of_send sends fun _ _ parts => by
      rw [(close_of_parts parts).1]
      rfl
    exact received_live (by simp [wrote, written, encode_eq, accepted, fromConn])
  plain' := rfl

theorem understood_goodbye :
    ∃ sent, (send (.close (some (1000, ['b', 'y', 'e'])))).Runs accepted () sent ∧
      Understood (.close (some (1000, ['b', 'y', 'e']))) (received sent.conn.io.outbound) :=
  ⟨_, rfl, (understood_iff (@conveys_close 1000 ['b', 'y', 'e'] _ rfl)).mpr ⟨by decide, rfl⟩⟩

/-- The code for a Close without a code is sent, and then refused. -/
theorem not_understood_noStatus :
    ∃ sent, Conveys (.close (some (1005, []))) accepted sent (received [0x88, 2, 0x03, 0xED]) ∧
      ¬ Understood (.close (some (1005, []))) (received [0x88, 2, 0x03, 0xED]) := by
  have refused : (recv (received [0x88, 2, 0x03, 0xED])).1 =
      .failed (.protocol "invalid close status code") := by decide +kernel
  refine ⟨_, @conveys_close 1005 [] _ rfl, ?_⟩
  rintro ⟨_, _, _, receives, _, _, peaceful, _⟩
  rw [receives] at refused
  exact peaceful _ refused

end Conveys

end WebSocketStream

end TptAsync.Ws
