import TptAsync.Ws.HandleFrame

set_option autoImplicit false

/-!
# Behind the Close of the peer

When a stream has received a Close, the calls that follow find it closed only if the bytes that
are left, and the end of the transport, let them.
-/

namespace TptAsync.Ws

open Lib Http

namespace WebSocketStream

variable {κ : Type} {ws before middle after : WebSocketStream κ}

/-- Whether a wait runs out, counted from the next one, if every wait before it was answered. -/
def expires (ws : WebSocketStream κ) (n : Nat) : Bool :=
  match ws.keepalive with
  | none => false
  | some policy =>
      ws.expiries n (if n = 0 ∧ ws.pingOutstanding = true then policy.timeout else policy.interval)

/-- So many waits have been made and answered, and nothing has been written. -/
structure Waited (reads : Nat) (before after : WebSocketStream κ) : Prop where
  answered : ∀ n < reads, before.expires n = false
  later : ∀ n, after.expires n = before.expires (n + reads)
  live : after.conn.Live
  ending : after.conn.io.ending = before.conn.io.ending
  outbound : after.conn.io.outbound = before.conn.io.outbound
  role : after.role = before.role
  deflate : after.deflate = before.deflate
  closeSent : after.closeSent = before.closeSent
  closeReceived : after.closeReceived = before.closeReceived

namespace Waited

variable {reads more : Nat}

theorem of_frameBuf (live : ws.conn.Live) (frameBuf : Bytes) : Waited 0 ws { ws with frameBuf } :=
  ⟨fun _ below => absurd below (Nat.not_lt_zero _), fun _ => rfl, live, rfl, rfl, rfl, rfl, rfl, rfl⟩

theorem trans (first : Waited reads before middle) (second : Waited more middle after) :
    Waited (reads + more) before after where
  answered n below := by
    by_cases early : n < reads
    · exact first.answered n early
    · have rest := second.answered (n - reads) (by omega)
      rwa [first.later, Nat.sub_add_cancel (Nat.not_lt.mp early)] at rest
  later n := by rw [second.later, first.later, Nat.add_assoc, Nat.add_comm more]
  live := second.live
  ending := second.ending.trans first.ending
  outbound := second.outbound.trans first.outbound
  role := second.role.trans first.role
  deflate := second.deflate.trans first.deflate
  closeSent := second.closeSent.trans first.closeSent
  closeReceived := second.closeReceived.trans first.closeReceived

end Waited

/-- The stream behind a read that came in time. -/
def calmed (ws : WebSocketStream κ) (conn : HttpConnection) : WebSocketStream κ :=
  match ws.keepalive with
  | none => { ws with conn }
  | some _ => { ws with conn, pingOutstanding := false, expiries := fun n => ws.expiries (n + 1) }

theorem calmed_none (keepalive : ws.keepalive = none) (conn : HttpConnection) :
    ws.calmed conn = { ws with conn } := by
  unfold calmed
  split
  · rfl
  · next other => cases keepalive.symm.trans other

theorem calmed_some {policy : KeepAlive} (keepalive : ws.keepalive = some policy)
    (conn : HttpConnection) : ws.calmed conn =
      { ws with conn, pingOutstanding := false, expiries := fun n => ws.expiries (n + 1) } := by
  unfold calmed
  split
  · next other => cases keepalive.symm.trans other
  · rfl

theorem calmed_frameBuf (conn : HttpConnection) : (ws.calmed conn).frameBuf = ws.frameBuf := by
  unfold calmed
  split <;> rfl

theorem calmed_conn (conn : HttpConnection) : (ws.calmed conn).conn = conn := by
  unfold calmed
  split <;> rfl

theorem waited_calmed {conn : HttpConnection} {frameBuf : Bytes} (answered : ws.expires 0 = false)
    (live : conn.Live) (ending : conn.io.ending = ws.conn.io.ending)
    (outbound : conn.io.outbound = ws.conn.io.outbound) :
    Waited 1 ws { ws.calmed conn with frameBuf } := by
  have later : ∀ n, expires { ws.calmed conn with frameBuf } n = ws.expires (n + 1) := by
    intro n
    unfold calmed expires
    cases ws.keepalive <;> simp
  refine ⟨fun n below => ?_, later, ?_, ?_, ?_, ?_, ?_, ?_, ?_⟩
  · rwa [Nat.lt_one_iff.mp below]
  all_goals
    unfold calmed
    split <;> first | rfl | assumption

/-- What the next frame comes to when every wait is answered, and that a wait that is not shows
in what is written, or fails. -/
inductive NextFrame (ws : WebSocketStream κ) :
    Outcome WsError (Option Frame) → WebSocketStream κ → Prop
  | found {frame : Frame} {consumed reads : Nat} {after : WebSocketStream κ}
      (decoded : decode ws.stream ws.role = .ok (some (frame, consumed)))
      (stream : after.stream = ws.stream.drop consumed) (waited : Waited reads ws after) :
      NextFrame ws (.ready (some frame)) after
  | ended {reads : Nat} {after : WebSocketStream κ} (decoded : decode ws.stream ws.role = .ok none)
      (stream : after.stream = ws.stream) (waited : Waited reads ws after) (positive : 0 < reads)
      (eof : ws.conn.io.ending = .eof) (closed : ws.closeReceived = true) :
      NextFrame ws (.ready none) after
  | expired {found : Option Frame} {after : WebSocketStream κ} {n : Nat}
      (expires : ws.expires n = true)
      (written : ws.conn.io.outbound.length < after.conn.io.outbound.length) :
      NextFrame ws (.ready found) after
  | failed {error : WsError} {after : WebSocketStream κ}
      (stuck : (∃ n, ws.expires n = true) ∨ ws.conn.io.ending ≠ .eof ∨ ws.closeReceived = false ∨
        ∃ error, decode ws.stream ws.role = .error error) : NextFrame ws (.failed error) after
  | pending {after : WebSocketStream κ}
      (stuck : (∃ n, ws.expires n = true) ∨ ws.conn.io.ending ≠ .eof) : NextFrame ws .pending after

section Waits

variable {outcome : Outcome WsError (Option Frame)} {reads : Nat}

/-- What comes of the stream after some reads in time comes of it before them. -/
theorem NextFrame.of_waited (next : NextFrame middle outcome after) (waited : Waited reads ws middle)
    (stream : middle.stream = ws.stream) : NextFrame ws outcome after := by
  cases next with
  | found decoded streamLeft later =>
      rw [stream, waited.role] at decoded
      exact .found decoded (stream ▸ streamLeft) (waited.trans later)
  | ended decoded streamLeft later positive eof closed =>
      rw [stream, waited.role] at decoded
      exact .ended decoded (streamLeft.trans stream) (waited.trans later) (by omega)
        (waited.ending ▸ eof) (waited.closeReceived ▸ closed)
  | expired expires written =>
      exact .expired (waited.later _ ▸ expires) (waited.outbound ▸ written)
  | failed stuck =>
      refine .failed ?_
      rw [stream, waited.role, waited.ending, waited.closeReceived] at stuck
      exact stuck.imp (fun ⟨n, expires⟩ => ⟨n + reads, waited.later n ▸ expires⟩) id
  | pending stuck =>
      refine .pending ?_
      rw [waited.ending] at stuck
      exact stuck.imp (fun ⟨n, expires⟩ => ⟨n + reads, waited.later n ▸ expires⟩) id

/-- Both sides have closed. -/
structure BothClosed (ws : WebSocketStream κ) : Prop where
  live : ws.conn.Live
  sent : ws.closeSent = true
  received : ws.closeReceived = true

theorem BothClosed.of_waited {reads : Nat} (closed : ws.BothClosed) (waited : Waited reads ws after) :
    after.BothClosed :=
  ⟨waited.live, waited.closeSent.trans closed.sent, waited.closeReceived.trans closed.received⟩

/-- Every wait is answered, and in the end the peer shuts down. -/
structure Answered (ws : WebSocketStream κ) : Prop where
  prompt : ∀ n, ws.expires n = false
  ending : ws.conn.io.ending = .eof

theorem Answered.of_waited {reads : Nat} (answered : ws.Answered) (waited : Waited reads ws after) :
    after.Answered :=
  ⟨fun n => by rw [waited.later, answered.prompt], waited.ending.trans answered.ending⟩

end Waits

variable [DeflateCodec κ]

/-- A read that comes in time is as one without keepalive. -/
theorem readWithKeepalive_answered {capacity : Nat} (answered : ws.expires 0 = false) :
    match HttpConnection.readRaw capacity ws.conn with
    | (.ready data, conn) => (readWithKeepalive capacity).Runs ws data (ws.calmed conn)
    | (.failed error, _) => ∃ after, readWithKeepalive capacity ws = (.failed (.ofHttp error), after)
    | (.pending, _) => ∃ after, readWithKeepalive capacity ws = (.pending, after) := by
  unfold Async.Runs
  rw [readWithKeepalive, (Async.Runs.get ws).bind_eq]
  cases keepalive : ws.keepalive with
  | none =>
      dsimp only
      unfold onConn Async.zoom Async.mapError
      cases HttpConnection.readRaw capacity ws.conn with
      | mk outcome conn =>
          cases outcome with
          | ready data => exact congrArg (Prod.mk _) (calmed_none keepalive conn).symm
          | failed error => exact ⟨_, rfl⟩
          | pending => exact ⟨_, rfl⟩
  | some policy =>
      unfold expires at answered
      simp only [keepalive, true_and] at answered
      dsimp only
      rw [readTimed, (Async.Runs.get ws).bind_eq, (Async.Runs.modify _ ws).bind_eq,
        if_neg (Bool.eq_false_iff.mp answered)]
      let waiting : WebSocketStream κ := { ws with expiries := fun n => ws.expiries (n + 1) }
      cases result : HttpConnection.readRaw capacity ws.conn with
      | mk outcome conn =>
          have same : HttpConnection.readRaw capacity waiting.conn = (outcome, conn) := result
          cases outcome with
          | ready data =>
              have reads : (onConn (HttpConnection.readRaw capacity)).Runs waiting data
                { waiting with conn } := .zoom (Async.Runs.mapError same)
              change ((onConn (HttpConnection.readRaw capacity)).attempt >>= _) waiting = _
              rw [reads.attempt.bind_eq, (Async.Runs.modify _ _).bind_eq]
              exact congrArg (Prod.mk _) (calmed_some keepalive conn).symm
          | failed error =>
              have reads : onConn (HttpConnection.readRaw capacity) waiting =
                  (.failed (.ofHttp error), { waiting with conn }) := by
                rw [onConn, Async.zoom, Async.mapError, same]
              change ∃ after, ((onConn (HttpConnection.readRaw capacity)).attempt >>= _) waiting = _
              rw [(Async.Runs.attempt_failed reads).bind_eq]
              exact ⟨_, rfl⟩
          | pending =>
              refine ⟨{ waiting with conn }, Async.bind_pending ?_⟩
              change (onConn (HttpConnection.readRaw capacity)).attempt waiting = _
              rw [Async.attempt, onConn, Async.zoom, Async.mapError, same]

/-- A wait that runs out leads to a Ping or to an error. -/
theorem readWithKeepalive_expired {capacity : Nat} {data : Bytes} (expired : ws.expires 0 = true)
    (runs : (readWithKeepalive capacity).Runs ws data after) :
    ws.conn.io.outbound.length < after.conn.io.outbound.length := by
  rw [Async.Runs, readWithKeepalive, (Async.Runs.get ws).bind_eq] at runs
  unfold expires at expired
  cases keepalive : ws.keepalive with
  | none =>
      rw [keepalive] at expired
      cases expired
  | some policy =>
      rw [keepalive] at expired runs
      simp only [true_and] at expired
      change readTimed policy capacity 2 ws = _ at runs
      rw [readTimed, (Async.Runs.get ws).bind_eq, (Async.Runs.modify _ ws).bind_eq, if_pos expired] at runs
      split at runs
      · cases runs
      · obtain ⟨_, middle, sends, runs⟩ := Async.Runs.of_bind runs
        obtain ⟨_, pinged, marks, runs⟩ := runs.of_bind
        cases marks
        obtain ⟨masks, key, sent⟩ := @send_runs _ { ws with expiries := fun n => ws.expiries (n + 1) }
          _ (.ping []) _ _ rfl Bool.noConfusion
        cases (sent.unique sends).2
        have first : Logs [⟨true, false, .ping, []⟩] ws (ws.wrote .ping masks
          (encode ⟨true, false, .ping, []⟩ (peerMask ws.role.peer key))) := .wrote ..
        obtain ⟨log, logs, _⟩ := ((readTimed_pings policy capacity 1).of_runs runs).log
        have whole : Logs (⟨true, false, .ping, []⟩ :: log) ws after :=
          first.trans ⟨logs.outbound, logs.role⟩
        exact whole.length_lt (by simp)

section Frames

variable {found : Option Frame} {outcome : Outcome WsError (Option Frame)} {reads fuel : Nat}

theorem nextFrameLoop_exhausted (live : ws.conn.Live) (missing : decode ws.frameBuf ws.role = .ok none)
    (ended : ws.conn.stream = []) (answered : ws.expires 0 = false)
    (loops : nextFrameLoop (fuel + 1) ws = (outcome, after)) : NextFrame ws outcome after := by
  have whole : decode ws.stream ws.role = .ok none := by
    rw [stream, show ws.conn.buf ++ ws.conn.undelivered = [] from ended, List.append_nil, missing]
  have taken := @readWithKeepalive_answered _ ws _ 8192 answered
  rw [HttpConnection.readRaw_ended live ended] at taken
  rw [nextFrameLoop_missing fuel missing] at loops
  cases ending : ws.conn.io.ending with
  | eof =>
      rw [ending] at taken
      have waited : Waited 1 ws (ws.calmed ws.conn) := waited_calmed answered live rfl rfl
      have taken : (readWithKeepalive 8192).Runs ws [] (ws.calmed ws.conn) := taken
      rw [taken.bind_eq, topUp, List.length_nil, if_pos rfl, (Async.Runs.get _).bind_eq, waited.closeReceived] at loops
      cases closed : ws.closeReceived with
      | true =>
          rw [closed] at loops
          cases loops
          refine .ended whole ?_ waited Nat.one_pos ending closed
          rw [stream, calmed_frameBuf, calmed_conn]
          rfl
      | false =>
          rw [closed] at loops
          cases loops
          exact .failed (.inr (.inr (.inl closed)))
  | pending =>
      rw [ending] at taken
      obtain ⟨_, stays⟩ := taken
      rw [Async.bind_pending stays] at loops
      cases loops
      exact .pending (.inr (by simp [ending]))
  | error error =>
      rw [ending] at taken
      obtain ⟨_, fails⟩ := taken
      rw [Async.bind_failed fails] at loops
      cases loops
      exact .failed (.inr (.inl (by simp [ending])))

theorem nextFrameLoop_cases (live : ws.conn.Live) (enough : ws.conn.stream.length < fuel)
    (loops : nextFrameLoop fuel ws = (outcome, after)) : NextFrame ws outcome after := by
  induction fuel generalizing ws with
  | zero => exact absurd enough (Nat.not_lt_zero _)
  | succ fuel ih =>
      by_cases missing : decode ws.frameBuf ws.role = .ok none
      · cases expires : ws.expires 0 with
        | true =>
            cases outcome with
            | failed error => exact .failed (.inl ⟨0, expires⟩)
            | pending => exact .pending (.inl ⟨0, expires⟩)
            | ready found =>
                rw [nextFrameLoop_missing fuel missing] at loops
                obtain ⟨chunk, middle, reads, rest⟩ := Async.Runs.of_bind loops
                obtain ⟨_, logs, _⟩ := ((topUp_pings (nextFrameLoop_pings fuel) chunk).of_runs rest).log
                exact .expired expires (Nat.lt_of_lt_of_le (readWithKeepalive_expired expires reads)
                  logs.length_le)
        | false =>
            by_cases ended : ws.conn.stream = []
            · exact nextFrameLoop_exhausted live missing ended expires loops
            · obtain ⟨data, conn, reads, nonempty, _, advances, _⟩ :=
                HttpConnection.readRaw_runs live ended (show 0 < 8192 by decide)
              have taken := @readWithKeepalive_answered _ ws _ 8192 expires
              rw [reads] at taken
              rw [nextFrameLoop_topped fuel missing taken nonempty, calmed_frameBuf] at loops
              have waited : Waited 1 ws { ws.calmed conn with frameBuf := ws.frameBuf ++ data } :=
                waited_calmed expires advances.live advances.ending advances.outbound
              have positive := List.length_pos_of_ne_nil nonempty
              have shorter := congrArg List.length advances.stream
              rw [List.length_append] at shorter
              refine (ih waited.live ?_ loops).of_waited waited ?_
              · simp only [calmed_conn]
                omega
              · simp only [stream, calmed_conn]
                rw [List.append_assoc]
                exact congrArg _ advances.stream.symm
      · obtain ⟨outcome', frameBuf, settles, word⟩ := @nextFrameLoop_buffered _ ws _ fuel missing
        cases loops.symm.trans settles
        have same := word false .eof
        have whole := (decode_append ws.frameBuf ws.conn.stream ws.role).resolve_left missing
        change decode ws.stream ws.role = _ at whole
        unfold frameIn at same
        split at same
        · next frame consumed decoded =>
            rw [Prod.mk.injEq] at same
            obtain ⟨rfl, left⟩ := same
            have waited : Waited 0 ws { ws with frameBuf } :=
              .of_frameBuf live frameBuf
            exact .found decoded left waited
        · next error decoded =>
            rw [Prod.mk.injEq] at same
            obtain ⟨rfl, _⟩ := same
            exact .failed (.inr (.inr (.inr ⟨error, decoded⟩)))
        · next decoded => exact absurd (whole.symm.trans decoded) missing

theorem nextFrame_cases (live : ws.conn.Live) (next : nextFrame ws = (outcome, after)) :
    NextFrame ws outcome after := by
  refine nextFrameLoop_cases live ?_ next
  rw [stream, List.length_append]
  exact Nat.lt_succ_of_le (Nat.le_add_left _ _)

end Frames

/-- A valid Close frame. -/
structure ValidClose (deflated : Bool) (frame : Frame) : Prop where
  isClose : frame.opcode = .close
  wellFormed : WellFormed deflated frame
  valid : ∃ info, parseClose frame.payload = .ok info

/-- A fragment that does not finish the message under assembly. -/
structure Fragment (deflated : Bool) (assembly : Assembly) (frame : Frame) : Prop where
  part : frame.fin = false
  wellFormed : WellFormed deflated frame
  inOrder : InOrder assembly frame.opcode
  size : (extend assembly frame).assembled.length ≤ maxPayload

/-- Bytes that say nothing to a stream that has closed: what can be decoded of them are valid
Close frames, and fragments of messages that are never finished. -/
inductive Quiet (role : Role) (deflated : Bool) : Assembly → Bytes → Prop
  | ended {assembly : Assembly} {bytes : Bytes} (decoded : decode bytes role = .ok none) :
      Quiet role deflated assembly bytes
  | close {assembly : Assembly} {bytes : Bytes} {frame : Frame} {consumed : Nat}
      (decoded : decode bytes role = .ok (some (frame, consumed))) (closes : ValidClose deflated frame)
      (rest : Quiet role deflated ⟨none, [], false⟩ (bytes.drop consumed)) :
      Quiet role deflated assembly bytes
  | fragment {assembly : Assembly} {bytes : Bytes} {frame : Frame} {consumed : Nat}
      (decoded : decode bytes role = .ok (some (frame, consumed)))
      (fragment : Fragment deflated assembly frame)
      (rest : Quiet role deflated (extend assembly frame) (bytes.drop consumed)) :
      Quiet role deflated assembly bytes

section HandleFrame

variable {assembly : Assembly} {frame : Frame} {progress : Progress}

theorem handleFrame_fragment (fragment : Fragment ws.deflate.isSome assembly frame) :
    (handleFrame assembly frame).Runs ws (.more (extend assembly frame)) ws :=
  handleFrame_more fragment.wellFormed fragment.inOrder fragment.part fragment.size

/-- The Close of the peer changes nothing once both have closed. -/
theorem handleFrame_validClose (closes : ValidClose ws.deflate.isSome frame)
    (sent : ws.closeSent = true) (received : ws.closeReceived = true) :
    (handleFrame assembly frame).Runs ws (.done none) ws := by
  obtain ⟨info, valid⟩ := closes.valid
  have same : { ws with closeReceived := true } = ws := by rw [← received]
  have handles := handleClose_second valid sent
  rw [same] at handles
  rw [Async.Runs, handleFrame_wellFormed closes.wellFormed, closes.isClose]
  exact handles.bind (.pure _ _)

/-- What a frame comes to that has nothing written. -/
theorem handleFrame_silent (runs : (handleFrame assembly frame).Runs ws progress after)
    (silent : after.conn.io.outbound.length ≤ ws.conn.io.outbound.length) :
    (∃ message, progress = .done (some message)) ∨
      (progress = .done none ∧ ValidClose ws.deflate.isSome frame) ∨
      (progress = .more (extend assembly frame) ∧ Fragment ws.deflate.isSome assembly frame) := by
  have wellFormed := wellFormed_of_runs runs
  cases accepted_of_runs runs with
  | ping _ sends => exact absurd silent (Nat.not_le.mpr (send_pong_longer sends))
  | pong => exact .inl ⟨_, rfl⟩
  | @close info _ isClose valid => exact .inr (.inl ⟨rfl, isClose, wellFormed, info, valid⟩)
  | part inOrder size part => exact .inr (.inr ⟨rfl, part, wellFormed, inOrder, size⟩)
  | last => exact .inl ⟨_, rfl⟩

end HandleFrame

section Receive

variable {assembly : Assembly} {fuel : Nat}

theorem nextFrame_answered (closed : ws.BothClosed) (answered : ws.Answered)
    (valid : ∀ error, decode ws.stream ws.role ≠ .error error) :
    ∃ found after, nextFrame.Runs ws found after ∧ NextFrame ws (.ready found) after := by
  have prompt : ¬ ∃ n, ws.expires n = true := fun ⟨n, expires⟩ => by
    rw [answered.prompt n] at expires
    cases expires
  cases ends : nextFrame ws with
  | mk outcome after =>
      have next := nextFrame_cases closed.live ends
      cases outcome with
      | ready found => exact ⟨found, after, ends, next⟩
      | failed error =>
          cases next with
          | failed stuck =>
              have received := closed.received
              have ending := answered.ending
              obtain ⟨error, decoded⟩ := ((stuck.resolve_left prompt).resolve_left
                (by simp [ending])).resolve_left (by simp [received])
              exact absurd decoded (valid error)
      | pending =>
          cases next with
          | pending stuck => exact absurd answered.ending (stuck.resolve_left prompt)

theorem nextFrame_decoded {frame : Frame} {consumed : Nat} (closed : ws.BothClosed)
    (answered : ws.Answered) (decoded : decode ws.stream ws.role = .ok (some (frame, consumed))) :
    ∃ reads after, nextFrame.Runs ws (some frame) after ∧ Waited reads ws after ∧
      after.stream = ws.stream.drop consumed := by
  obtain ⟨found, after, runs, next⟩ := nextFrame_answered closed answered (by simp [decoded])
  cases next with
  | found decoded' stream waited =>
      cases decoded.symm.trans decoded'
      exact ⟨_, after, runs, waited, stream⟩
  | ended decoded' => cases decoded.symm.trans decoded'
  | expired expires =>
      rw [answered.prompt] at expires
      cases expires

theorem nextFrame_missing (closed : ws.BothClosed) (answered : ws.Answered)
    (missing : decode ws.stream ws.role = .ok none) :
    ∃ reads after, nextFrame.Runs ws none after ∧ Waited reads ws after ∧ after.stream = ws.stream := by
  obtain ⟨found, after, runs, next⟩ := nextFrame_answered closed answered (by simp [missing])
  cases next with
  | found decoded => cases missing.symm.trans decoded
  | ended _ stream waited => exact ⟨_, after, runs, waited, stream⟩
  | expired expires =>
      rw [answered.prompt] at expires
      cases expires

/-- With nothing left to say, a call finds the stream closed. -/
theorem recvLoop_quiet (closed : ws.BothClosed) (answered : ws.Answered)
    (quiet : Quiet ws.role ws.deflate.isSome assembly ws.stream) (enough : ws.stream.length < fuel) :
    ∃ reads after, (recvLoop fuel assembly).Runs ws none after ∧ Waited reads ws after ∧
      Quiet ws.role ws.deflate.isSome ⟨none, [], false⟩ after.stream := by
  induction fuel generalizing ws assembly with
  | zero => exact absurd enough (Nat.not_lt_zero _)
  | succ fuel ih =>
      cases quiet with
      | ended missing =>
          obtain ⟨reads, after, runs, waited, stream⟩ := nextFrame_missing closed answered missing
          exact ⟨reads, after, runs.bind (.pure _ _), waited, .ended (stream ▸ missing)⟩
      | close decoded closes rest =>
          obtain ⟨reads, after, runs, waited, stream⟩ := nextFrame_decoded closed answered decoded
          have closed' := closed.of_waited waited
          have handles := @handleFrame_validClose _ after _ assembly _ (waited.deflate ▸ closes)
            closed'.sent closed'.received
          exact ⟨reads, after, runs.bind (handles.bind (.pure _ _)), waited, stream ▸ rest⟩
      | fragment decoded fragment rest =>
          obtain ⟨reads, middle, runs, waited, stream⟩ := nextFrame_decoded closed answered decoded
          have handles := @handleFrame_fragment _ middle _ assembly _ (waited.deflate ▸ fragment)
          have shorter : middle.stream.length < fuel := by
            have consumes := decode_consumes decoded
            rw [stream, List.length_drop]
            omega
          obtain ⟨more, after, loops, waited', quiet⟩ := ih (closed.of_waited waited)
            (answered.of_waited waited) (by rw [waited.role, waited.deflate, stream]; exact rest) shorter
          refine ⟨reads + more, after, runs.bind (handles.bind loops), waited.trans waited', ?_⟩
          rwa [waited.role, waited.deflate] at quiet

/-- A call that finds the stream closed, with nothing written. -/
theorem recvLoop_silent (closed : ws.BothClosed) (runs : (recvLoop fuel assembly).Runs ws none after)
    (silent : after.conn.io.outbound.length ≤ ws.conn.io.outbound.length) :
    ∃ reads, Waited reads ws after ∧
      (0 < reads ∧ after.stream.length ≤ ws.stream.length ∧ ws.conn.io.ending = .eof ∧
          Quiet ws.role ws.deflate.isSome assembly ws.stream ∨
        after.stream.length < ws.stream.length ∧
          (Quiet ws.role ws.deflate.isSome ⟨none, [], false⟩ after.stream →
            Quiet ws.role ws.deflate.isSome assembly ws.stream)) := by
  induction fuel generalizing ws assembly with
  | zero => cases runs
  | succ fuel ih =>
      obtain ⟨found, middle, next, rest⟩ := Async.Runs.of_bind runs
      have taken := nextFrame_cases closed.live next
      have growing : middle.conn.io.outbound.length ≤ after.conn.io.outbound.length := by
        obtain ⟨_, logs, _⟩ := ((receive_behaves fuel assembly found).of_runs rest).log
        exact logs.length_le
      cases taken with
      | ended missing stream waited positive eof =>
          cases rest
          exact ⟨_, waited, .inl ⟨positive, by rw [stream], eof, .ended missing⟩⟩
      | expired _ written => omega
      | found decoded stream waited =>
          obtain ⟨progress, handled, handles, ends⟩ := Async.Runs.of_bind rest
          have closed' := closed.of_waited waited
          have growing' : handled.conn.io.outbound.length ≤ after.conn.io.outbound.length := by
            cases progress with
            | done message =>
                cases ends
                exact le_rfl
            | more next =>
                obtain ⟨_, logs, _⟩ := ((recvLoop_behaves fuel next).of_runs ends).log
                exact logs.length_le
          have silent' : handled.conn.io.outbound.length ≤ middle.conn.io.outbound.length := by
            rw [waited.outbound]
            exact growing'.trans silent
          have shorter : middle.stream.length < ws.stream.length := by
            have consumes := decode_consumes decoded
            rw [stream, List.length_drop]
            omega
          have came := handleFrame_silent handles silent'
          rw [waited.deflate] at came
          obtain ⟨message, rfl⟩ | ⟨rfl, closes⟩ | ⟨rfl, fragment⟩ := came
          · cases ends
          · cases ends
            have again := @handleFrame_validClose _ middle _ assembly _ (waited.deflate ▸ closes)
              closed'.sent closed'.received
            obtain ⟨_, rfl⟩ := handles.unique again
            refine ⟨_, waited, .inr ⟨shorter, fun quiet => .close decoded closes ?_⟩⟩
            rwa [stream] at quiet
          · have again := @handleFrame_fragment _ middle _ assembly _ (waited.deflate ▸ fragment)
            obtain ⟨_, rfl⟩ := handles.unique again
            obtain ⟨more, waited', quiet⟩ := ih closed' ends (by rw [waited.outbound]; exact silent)
            rw [waited.role, waited.deflate, waited.ending, stream] at quiet
            refine ⟨_, waited.trans waited', quiet.imp (fun ⟨positive, left, eof, rest⟩ => ?_)
              fun ⟨left, rest⟩ => ?_⟩
            · rw [← stream] at left
              exact ⟨Nat.add_pos_right _ positive, left.trans shorter.le, eof,
                .fragment decoded fragment rest⟩
            · rw [← stream] at left
              exact ⟨left.trans shorter, fun quiet => .fragment decoded fragment (rest quiet)⟩

end Receive

section Final

variable {start : WebSocketStream κ} {calls : List Call}

/-- What calls come to in turn, each with all that has been written by then. -/
def outcomes : List Call → WebSocketStream κ → List (Outcome WsError (Option Message) × Bytes)
  | [], _ => []
  | call :: calls, ws =>
      let (outcome, after) := call.run ws
      (outcome, after.conn.io.outbound) :: outcomes calls after

/-- The calls that receive. -/
def Call.Receives (call : Call) : Prop := call = .recv ∨ ∃ code, call = .close code

/-- Every later call finds the stream closed: nothing is returned, and nothing written. -/
def ClosedIsFinal (ws : WebSocketStream κ) : Prop :=
  ∀ calls : List Call, (∀ call ∈ calls, call.Receives) →
    outcomes calls ws = calls.map fun _ => (.ready none, ws.conn.io.outbound)

/-- There is nothing left to say, and every wait is answered until the peer shuts down. -/
structure Silent (ws : WebSocketStream κ) : Prop where
  answered : ws.Answered
  quiet : Quiet ws.role ws.deflate.isSome ⟨none, [], false⟩ ws.stream

theorem recv_silent (closed : ws.BothClosed) (silent : ws.Silent) :
    ∃ reads after, recv.Runs ws none after ∧ Waited reads ws after ∧ after.Silent := by
  obtain ⟨reads, after, loops, waited, quiet⟩ :=
    recvLoop_quiet closed silent.answered silent.quiet (Nat.lt_succ_self _)
  refine ⟨reads, after, recv_of_done ((Async.Runs.get ws).bind loops), waited,
    silent.answered.of_waited waited, ?_⟩
  rwa [waited.role, waited.deflate]

theorem call_silent {call : Call} (receives : call.Receives) (closed : ws.BothClosed)
    (silent : ws.Silent) :
    ∃ reads after, call.run.Runs ws none after ∧ Waited reads ws after ∧ after.Silent := by
  obtain ⟨reads, after, runs, waited, still⟩ := recv_silent closed silent
  obtain rfl | ⟨code, rfl⟩ := receives
  · exact ⟨reads, after, runs, waited, still⟩
  · refine ⟨reads, after, ?_, waited, still⟩
    have drains : (drainLoop (ws.stream.length + 1)).Runs ws () after := runs.bind (.pure _ _)
    suffices closes : (WebSocketStream.close code).Runs ws () after from closes.bind (.pure after none)
    rw [Async.Runs, WebSocketStream.close, (Async.Runs.get ws).bind_eq]
    simp only [closed.sent, if_true]
    exact (Async.Runs.get ws).bind drains

theorem closedIsFinal_of_silent (closed : ws.BothClosed) (silent : ws.Silent) : ClosedIsFinal ws := by
  intro calls receives
  induction calls generalizing ws with
  | nil => rfl
  | cons call calls ih =>
      obtain ⟨reads, after, runs, waited, still⟩ := call_silent (receives call (.head _)) closed silent
      have rest := ih (closed.of_waited waited) still fun call member => receives call (.tail _ member)
      rw [waited.outbound] at rest
      rw [outcomes, show call.run ws = _ from runs, List.map_cons, ← rest, ← waited.outbound]

theorem ClosedIsFinal.recv (final : ClosedIsFinal ws) :
    ∃ after, WebSocketStream.recv.Runs ws none after ∧
      after.conn.io.outbound = ws.conn.io.outbound ∧ ClosedIsFinal after := by
  have receives : Call.recv.Receives := .inl rfl
  have first := final [.recv] (by simpa using receives)
  cases ends : WebSocketStream.recv ws with
  | mk outcome after =>
      simp only [outcomes, Call.run, ends, List.map_cons, List.cons.injEq, Prod.mk.injEq] at first
      obtain ⟨⟨rfl, outbound⟩, _⟩ := first
      refine ⟨after, ends, outbound, fun calls later => ?_⟩
      have rest := final (.recv :: calls) (by simpa using ⟨receives, later⟩)
      simp only [outcomes, Call.run, ends, List.map_cons, List.cons.injEq] at rest
      rw [rest.2, outbound]

/-- A call that finds the stream closed: what it has waited for, and what it has taken. -/
theorem ClosedIsFinal.receives (closed : ws.BothClosed) (final : ClosedIsFinal ws) :
    ∃ reads after, ClosedIsFinal after ∧ Waited reads ws after ∧
      (0 < reads ∧ after.stream.length ≤ ws.stream.length ∧ ws.conn.io.ending = .eof ∧
          Quiet ws.role ws.deflate.isSome ⟨none, [], false⟩ ws.stream ∨
        after.stream.length < ws.stream.length ∧
          (Quiet ws.role ws.deflate.isSome ⟨none, [], false⟩ after.stream →
            Quiet ws.role ws.deflate.isSome ⟨none, [], false⟩ ws.stream)) := by
  obtain ⟨after, runs, outbound, still⟩ := final.recv
  obtain ⟨_, _, state, loops⟩ := (recvMessage_of_recv runs).of_bind
  cases state
  obtain ⟨reads, waited, taken⟩ := recvLoop_silent closed loops (by rw [outbound])
  exact ⟨reads, after, still, waited, taken⟩

theorem ClosedIsFinal.prompt (bound : Nat) (closed : ws.BothClosed) (final : ClosedIsFinal ws) (n : Nat)
    (below : n + ws.stream.length < bound) : ws.expires n = false := by
  induction bound generalizing ws n with
  | zero => exact absurd below (Nat.not_lt_zero _)
  | succ bound ih =>
      obtain ⟨reads, after, still, waited, taken⟩ := final.receives closed
      by_cases early : n < reads
      · exact waited.answered n early
      · have later := ih (closed.of_waited waited) still (n - reads) (by omega)
        rwa [waited.later, Nat.sub_add_cancel (Nat.not_lt.mp early)] at later

theorem ClosedIsFinal.quiet (bound : Nat) (closed : ws.BothClosed) (final : ClosedIsFinal ws)
    (below : ws.stream.length < bound) : ws.conn.io.ending = .eof ∧
      Quiet ws.role ws.deflate.isSome ⟨none, [], false⟩ ws.stream := by
  induction bound generalizing ws with
  | zero => exact absurd below (Nat.not_lt_zero _)
  | succ bound ih =>
      obtain ⟨reads, after, still, waited, taken⟩ := final.receives closed
      cases taken with
      | inl ended => exact ended.2.2
      | inr shorter =>
          obtain ⟨ending, quiet⟩ := ih (closed.of_waited waited) still (by omega)
          rw [waited.role, waited.deflate] at quiet
          exact ⟨waited.ending.symm.trans ending, shorter.2 quiet⟩

theorem silent_of_closedIsFinal (closed : ws.BothClosed) (final : ClosedIsFinal ws) : ws.Silent := by
  obtain ⟨ending, quiet⟩ := final.quiet _ closed (Nat.lt_succ_self _)
  exact ⟨⟨fun n => final.prompt _ closed n (Nat.lt_succ_self _), ending⟩, quiet⟩

/-- Closed is final exactly when there is nothing left to say and the peer shuts down. -/
theorem closedIsFinal_iff (opened : start.Opened) (reached : Reachable step start ws)
    (received : ws.closeReceived = true) : ClosedIsFinal ws ↔ ws.Silent := by
  have sound := sound_of_reachable opened reached
  have closed : ws.BothClosed := ⟨sound.live, sound.answered received, received⟩
  exact ⟨silent_of_closedIsFinal closed, closedIsFinal_of_silent closed⟩

/-- A client behind the opening handshake, to which a Close is on its way. -/
def closing (ending : Ending) : WebSocketStream Empty :=
  fromConn (.new ⟨[[0x88, 0]], ending, []⟩) .client (fun _ => ⟨0, 0, 0, 0⟩) fun _ _ => false

theorem closing_opened (ending : Ending) : (closing ending).Opened :=
  ⟨⟨by simp [closing, fromConn, HttpConnection.new], rfl⟩, rfl⟩

theorem closedIsFinal_shutDown :
    ∃ ws, Lib.run step [.call .recv] (closing .eof) = some ws ∧ ClosedIsFinal ws := by
  refine ⟨_, rfl, (closedIsFinal_iff (closing_opened .eof) ⟨[.call .recv], rfl⟩ rfl).mpr ?_⟩
  exact ⟨⟨fun _ => rfl, rfl⟩, .ended rfl⟩

/-- A peer that does not shut down keeps a second `close` waiting. -/
theorem not_closedIsFinal_waiting :
    ∃ ws, Lib.run step [.call .recv] (closing .pending) = some ws ∧ ws.closeReceived = true ∧
      ¬ ClosedIsFinal ws := by
  refine ⟨_, rfl, rfl, fun final => ?_⟩
  have ends := final [.close 1000] (by simp [Call.Receives])
  cases (List.cons.inj ends).1

end Final

end WebSocketStream

end TptAsync.Ws
