import TptAsync.Ws.Segmentation

set_option autoImplicit false

/-!
# Dropping a receive

A call of `recv` that waits may be dropped, and made again when more has arrived. Bytes that no
frame has been decoded from stay in the stream, and so does an incomplete frame. What the
fragments of a message have brought is in the call, and goes with it.
-/

namespace TptAsync.Ws

open Lib Http

/-- Only Pings, and behind them less than a frame. -/
inductive OnlyPings (role : Role) : Bytes → Prop
  | part {bytes : Bytes} (missing : decode bytes role = .ok none) : OnlyPings role bytes
  | ping {bytes : Bytes} {frame : Frame} {consumed : Nat}
      (decoded : decode bytes role = .ok (some (frame, consumed))) (isPing : frame.opcode = .ping)
      (rest : OnlyPings role (bytes.drop consumed)) : OnlyPings role bytes

namespace WebSocketStream

variable {κ : Type} {ws after first second third : WebSocketStream κ} {segments : List Bytes}
  {ending : Ending} {frame : Frame} {assembly : Assembly}

/-- What is there on one side, with more behind it on the other. -/
def Ahead (segments : List Bytes) (ending : Ending) (less more : Bytes × Ending) : Prop :=
  less.2 = .pending ∧ more = (less.1 ++ segments.flatten, ending)

instance : Trans (Alike (κ := κ)) Alike Alike where
  trans first second := ⟨first.supply.trans second.supply, first.still.trans second.still, first.untimed,
    second.untimed'⟩

theorem stream_arrive (ws : WebSocketStream κ) (segments : List Bytes) (ending : Ending) :
    (ws.arrive segments ending).stream = ws.stream ++ segments.flatten := by
  simp [arrive, stream, HttpConnection.undelivered]

theorem arrive_nil (opened : ws.conn.io.ending = .pending) : ws.arrive [] .pending = ws := by
  simp only [arrive, List.append_nil, ← opened]

theorem Untimed.arrive (untimed : ws.Untimed) (nonempty : [] ∉ segments) :
    (ws.arrive segments ending).Untimed := by
  have delivers := (arrive_behaves ending nonempty : Behaves ws _).live untimed.live
  exact ⟨delivers, untimed.keepalive⟩

theorem arrive_ahead (untimed : ws.Untimed) (open_ : ws.conn.io.ending = .pending)
    (nonempty : [] ∉ segments) : Beside (Ahead segments ending) ws (ws.arrive segments ending) where
  supply := ⟨open_, congrArg (·, ending) (stream_arrive ws segments ending)⟩
  still := rfl
  untimed := untimed
  untimed' := untimed.arrive nonempty

/-- Two streams with the same behind the same. -/
theorem alike_of_ahead (ahead : Beside (Ahead segments ending) first second)
    (ahead' : Beside (Ahead segments ending) first third) : second.Alike third where
  supply := ahead.supply.2.trans ahead'.supply.2.symm
  still := ahead.still.symm.trans ahead'.still
  untimed := ahead.untimed'
  untimed' := ahead'.untimed'

theorem Alike.arrive (alike : first.Alike second) (nonempty : [] ∉ segments) :
    (first.arrive segments ending).Alike (second.arrive segments ending) where
  supply := congrArg (·, ending) (by rw [stream_arrive, stream_arrive, alike.stream])
  still := alike.still
  untimed := alike.untimed.arrive nonempty
  untimed' := alike.untimed'.arrive nonempty

/-- What the bytes come to, they come to with more behind them. -/
theorem frameIn_append {role : Role} {received : Bool} {bytes rest : Bytes}
    {outcome : Outcome WsError (Option Frame)}
    (found : (outcome, rest) = frameIn role received .pending bytes) (ended : outcome ≠ .pending)
    (more : Bytes) : (outcome, rest ++ more) = frameIn role received ending (bytes ++ more) := by
  rcases decode_append bytes more role with missing | same
  · simp only [frameIn, missing, Prod.mk.injEq] at found
    exact absurd found.1 ended
  · cases decoded : decode bytes role with
    | error error =>
        simp only [frameIn, decoded, Prod.mk.injEq] at found
        simp only [frameIn, same, decoded, found.1, found.2]
    | ok next =>
        cases next with
        | none =>
            simp only [frameIn, decoded, Prod.mk.injEq] at found
            exact absurd found.1 ended
        | some next =>
            obtain ⟨frame, consumed⟩ := next
            simp only [frameIn, decoded, Prod.mk.injEq] at found
            simp only [frameIn, same, decoded, found.1, found.2,
              List.drop_append_of_le_length (decode_consumes decoded).2]

variable [DeflateCodec κ]

section Follows

theorem recvMessage_eq {rounds : Nat} (untimed : ws.Untimed) (enough : ws.stream.length < rounds) :
    recvMessage ws = recvLoop rounds ⟨none, [], false⟩ ws :=
  (recvLoop_rounds untimed (Nat.lt_succ_self _) enough).symm

theorem nextFrame_follows (ahead : Beside (Ahead segments ending) first second) :
    Async.Follows (Beside (Ahead segments ending)) nextFrame nextFrame first second := by
  intro ended
  obtain ⟨outcome, after, runs, takes⟩ := nextFrame_takes ahead.untimed
  obtain ⟨outcome', after', runs', takes'⟩ := nextFrame_takes ahead.untimed'
  obtain ⟨waits, supplied⟩ := ahead.supply
  have stream : second.stream = first.stream ++ segments.flatten := congrArg Prod.fst supplied
  have ending' : second.conn.io.ending = ending := congrArg Prod.snd supplied
  have found := takes.found
  rw [show first.conn.io.ending = .pending from waits] at found
  rw [runs] at ended
  have found' := takes'.found
  rw [← ahead.role, ← ahead.closeReceived, stream, ending', ← frameIn_append found ended,
    Prod.mk.injEq] at found'
  rw [Async.Agrees, runs, runs']
  refine ⟨found'.1.symm, ⟨takes.ending.trans waits, ?_⟩, ?_, takes.untimed, takes'.untimed⟩
  · exact congrArg₂ Prod.mk found'.2 (takes'.ending.trans ending')
  · exact takes.still.trans (ahead.still.trans takes'.still.symm)

theorem recvLoop_follows {fuel : Nat} (ahead : Beside (Ahead segments ending) first second) :
    Async.Follows (Beside (Ahead segments ending)) (recvLoop fuel assembly) (recvLoop fuel assembly)
      first second := by
  induction fuel generalizing assembly first second with
  | zero => exact fun ended => absurd rfl ended
  | succ fuel ih =>
      refine .bind (nextFrame_follows ahead) fun found _ _ ahead => ?_
      cases found with
      | none => exact (Async.Agrees.pure _ ahead).follows
      | some frame =>
          refine .bind (handleFrame_agrees ahead).follows fun progress _ _ ahead => ?_
          cases progress with
          | done message => exact (Async.Agrees.pure _ ahead).follows
          | more assembly => exact ih ahead

/-- What a call returns, it returns with more behind it, and leaves what is behind. -/
theorem recv_follows (ahead : Beside (Ahead segments ending) first second) :
    Async.Follows (Beside (Ahead segments ending)) recv recv first second := by
  have stream : second.stream = first.stream ++ segments.flatten := congrArg Prod.fst ahead.supply.2
  have rounds : first.stream.length < second.stream.length + 1 := by
    rw [stream, List.length_append]
    omega
  have receives : Async.Follows (Beside (Ahead segments ending)) recvMessage recvMessage first second := by
    rw [Async.Follows, Async.Agrees, recvMessage_eq ahead.untimed rounds,
      recvMessage_eq ahead.untimed' (Nat.lt_succ_self _)]
    exact recvLoop_follows ahead
  refine .bind receives.attempt fun result _ _ ahead => ?_
  · split
    · exact (Async.Agrees.pure _ ahead).follows
    · exact (failConnection_agrees ahead _).follows
    · exact (Async.Agrees.fail _ ahead).follows

end Follows

section Resumes

/-- A Ping is answered, or it is a violation. -/
theorem handleFrame_answers (isPing : frame.opcode = .ping) :
    (∃ after, (handleFrame assembly frame).Runs ws (.more assembly) after) ∨
      ∃ error, handleFrame assembly frame ws = (.failed error, ws) := by
  by_cases marked : frame.rsv1 = true ∧ ws.deflate.isNone = true
  · refine .inr ⟨.protocol "RSV1 set but permessage-deflate was not negotiated", ?_⟩
    rw [handleFrame, (Async.Runs.get ws).bind_eq, if_pos marked]
    rfl
  by_cases part : (!frame.fin) = true ∧ frame.opcode.isControl = true
  · refine .inr ⟨.protocol "fragmented control frame", ?_⟩
    rw [handleFrame, (Async.Runs.get ws).bind_eq, if_neg marked, if_pos part]
    rfl
  have wellFormed : WellFormed ws.deflate.isSome frame := by
    refine ⟨fun rsv1 => ?_, fun control => ?_⟩
    · cases codec : ws.deflate <;> simp_all
    · cases fin : frame.fin <;> simp_all
  have handles := @handleFrame_wellFormed _ _ assembly _ _ wellFormed
  rw [isPing] at handles
  by_cases legal : frame.payload.length ≤ 125
  · obtain ⟨masks, key, sends⟩ :=
      @send_runs _ ws _ _ _ _ (pong_parts legal) fun data => Bool.noConfusion data
    exact .inl ⟨_, handles.trans (sends.bind (.pure _ _))⟩
  · refine .inr ⟨.protocol "control frame payload exceeds 125 bytes", handles.trans ?_⟩
    refine Async.bind_failed (Async.bind_failed ?_)
    rw [Message.parts, checkControl, if_pos (Nat.lt_of_not_le legal)]
    rfl

/-- A call that has answered a Ping goes on as if it had just been made. -/
theorem recvMessage_more {middle next : WebSocketStream κ} (untimed : ws.Untimed)
    (comes : nextFrame.Runs ws (some frame) middle)
    (handles : (handleFrame ⟨none, [], false⟩ frame).Runs middle (.more ⟨none, [], false⟩) next) :
    next.Untimed ∧ next.role = middle.role ∧ next.supply = middle.supply ∧
      recvMessage ws = recvMessage next := by
  obtain ⟨shorter, still⟩ := nextFrame_shrinks untimed comes
  have kept := (handleFrame_supply _ frame).of_runs handles
  have left : next.stream = middle.stream := congrArg Prod.fst kept
  obtain ⟨_, logs, _⟩ := ((handleFrame_behaves _ _).of_runs handles).log
  have alike : middle.Alike middle := ⟨rfl, rfl, still, still⟩
  obtain ⟨_, _, after⟩ := (handleFrame_agrees alike).of_runs handles
  refine ⟨after.untimed, logs.role, kept, ?_⟩
  rw [recvMessage_eq after.untimed (show next.stream.length < ws.stream.length by rwa [left])]
  exact recvLoop_more comes handles

/-- Less than a frame is there, and a call that waits leaves it there. -/
theorem recvMessage_missing (missing : decode ws.stream ws.role = .ok none) (untimed : ws.Untimed)
    (waits : recvMessage ws = (.pending, after)) :
    ws.conn.io.ending = .pending ∧ ws.Alike after := by
  obtain ⟨outcome, middle, ends, takes⟩ := nextFrame_takes untimed
  have found := takes.found
  rw [recvMessage, (Async.Runs.get ws).bind_eq, recvLoop_succ] at waits
  cases ending : ws.conn.io.ending with
  | pending =>
      simp only [frameIn, missing, ending, Prod.mk.injEq] at found
      obtain ⟨rfl, stream⟩ := found
      cases (Async.bind_pending ends).symm.trans waits
      exact ⟨rfl, congrArg₂ Prod.mk stream.symm takes.ending.symm, takes.still.symm, untimed,
        takes.untimed⟩
  | eof =>
      simp only [frameIn, missing, ending, Prod.mk.injEq] at found
      obtain ⟨rfl, _⟩ := found
      split at ends
      · rw [Async.Runs.bind_eq ends] at waits
        cases waits
      · cases (Async.bind_failed ends).symm.trans waits
  | error error =>
      simp only [frameIn, missing, ending, Prod.mk.injEq] at found
      obtain ⟨rfl, _⟩ := found
      cases (Async.bind_failed ends).symm.trans waits

/-- A call that is dropped behind nothing but Pings goes on where it was, when it is made again. -/
theorem recvMessage_resumes {role : Role} {bytes : Bytes} (pings : OnlyPings role bytes)
    (side : ws.role = role) (shape : ws.stream = bytes) (untimed : ws.Untimed)
    (waits : recvMessage ws = (.pending, after)) :
    ws.conn.io.ending = .pending ∧ after.conn.io.ending = .pending ∧ after.Untimed ∧
      ∀ segments ending, [] ∉ segments → Async.Agrees Alike recvMessage recvMessage
        (ws.arrive segments ending) (after.arrive segments ending) := by
  induction pings generalizing ws with
  | part missing =>
      rw [← side, ← shape] at missing
      obtain ⟨opened, alike⟩ := recvMessage_missing missing untimed waits
      refine ⟨opened, alike.ending.symm.trans opened, alike.untimed', fun segments ending nonempty => ?_⟩
      exact recvMessage_agrees (alike.arrive nonempty)
  | @ping bytes frame consumed decoded isPing rest ih =>
      obtain ⟨outcome, middle, ends, takes⟩ := nextFrame_takes untimed
      have found := takes.found
      rw [side, shape] at found
      simp only [frameIn, decoded, Prod.mk.injEq] at found
      obtain ⟨rfl, left⟩ := found
      have rest' := waits
      rw [recvMessage, (Async.Runs.get ws).bind_eq, recvLoop_succ, Async.Runs.bind_eq ends] at rest'
      obtain ⟨next, handles⟩ | ⟨error, fails⟩ :=
        @handleFrame_answers _ middle _ ⟨none, [], false⟩ _ isPing
      · obtain ⟨untimed', sameRole, kept, same⟩ := recvMessage_more untimed ends handles
        rw [same] at waits
        have side' : next.role = role :=
          sameRole.trans ((congrArg (fun ws => ws.role) takes.bare).trans side)
        have shape' : next.stream = bytes.drop consumed := (congrArg Prod.fst kept).trans left
        obtain ⟨opened, opened', still, resumes⟩ := ih side' shape' untimed' waits
        have before : ws.conn.io.ending = .pending :=
          takes.ending.symm.trans ((congrArg Prod.snd kept).symm.trans opened)
        refine ⟨before, opened', still, fun segments ending nonempty => ?_⟩
        -- with more behind it, the Ping is answered in the same way
        have ahead := @arrive_ahead _ _ _ ending untimed before nonempty
        have comes := nextFrame_follows ahead (by rw [ends]; intro waits; cases waits)
        obtain ⟨middle', comes', ahead'⟩ := comes.of_runs ends
        obtain ⟨next', handles', ahead''⟩ := (handleFrame_agrees ahead').of_runs handles
        obtain ⟨_, _, _, same'⟩ := recvMessage_more ahead.untimed' comes' handles'
        have alike := alike_of_ahead ahead'' (arrive_ahead untimed' opened nonempty)
        have goes := (recvMessage_agrees alike).trans (resumes segments ending nonempty)
        rwa [Async.Agrees, ← same'] at goes
      · cases (Async.bind_failed fails).symm.trans rest'

theorem recv_resumes (pings : OnlyPings ws.role ws.stream) (untimed : ws.Untimed)
    (waits : recv ws = (.pending, after)) (nonempty : [] ∉ segments) :
    ws.conn.io.ending = .pending ∧ Async.Agrees Alike recv recv
      (ws.arrive segments ending) (after.arrive segments ending) := by
  obtain ⟨opened, _, _, resumes⟩ :=
    recvMessage_resumes pings rfl rfl untimed (recvMessage_of_pending waits)
  exact ⟨opened, recv_agrees_of (resumes segments ending nonempty)⟩

theorem recv_untimed (untimed : ws.Untimed) : (recv ws).2.Untimed :=
  have alike : ws.Alike ws := ⟨rfl, rfl, untimed, untimed⟩
  (recv_agrees alike).2.untimed

theorem recv_keepsEnding :
    (recv : Async WsError (WebSocketStream κ) _).Keeps fun ws => ws.conn.io.ending := by
  have ofSupply : ∀ {α : Type} {action : Async WsError (WebSocketStream κ) α}, action.Keeps supply →
      action.Keeps fun ws => ws.conn.io.ending := fun keeps ws => congrArg Prod.snd (keeps ws)
  have loop : ∀ (fuel : Nat) (assembly : Assembly),
      (recvLoop fuel assembly : Async WsError (WebSocketStream κ) _).Keeps fun ws => ws.conn.io.ending := by
    intro fuel
    induction fuel with
    | zero => exact fun _ => .wait
    | succ fuel ih =>
        intro assembly
        refine .bind (fun ws => ?_) fun found => ?_
        · exact (Async.Moves.same_iff.mp nextFrame_pings ws).unchanged.ending
        · cases found with
          | none => exact .pure _
          | some frame =>
              refine .bind (ofSupply (handleFrame_supply _ _)) fun progress => ?_
              cases progress with
              | done message => exact .pure _
              | more assembly => exact ih assembly
  refine .bind (Async.Keeps.attempt (.bind .get fun ws => loop _ _)) fun result => ?_
  split
  · exact .pure _
  · refine .bind .get fun ws => ?_
    split
    · exact .fail _
    · exact .bind (ofSupply (send_keeps (fun _ _ _ _ _ _ => rfl) _)).attempt fun _ => .fail _
  · exact .fail _

end Resumes

section Deliveries

theorem deliveries_alike (alike : first.Alike second) (calls : Nat) :
    deliveries calls first = deliveries calls second := by
  induction calls generalizing first second with
  | zero => rfl
  | succ calls ih =>
      obtain ⟨same, after⟩ := recv_agrees alike
      rw [deliveries, deliveries, same, ih after]

theorem deliveries_agrees (same : Async.Agrees Alike recv recv first second) (calls : Nat) :
    deliveries calls first = deliveries calls second := by
  cases calls with
  | zero => rfl
  | succ calls => rw [deliveries, deliveries, same.1, deliveries_alike same.2]

end Deliveries

/-- What is asked about: the data messages, and the violations. -/
def noted (results : List (Outcome WsError (Option Message))) : List (Outcome WsError (Option Message)) :=
  results.filter fun
    | .ready (some (.text _)) | .ready (some (.binary _)) | .failed (.protocol _) => true
    | _ => false

end WebSocketStream

/-- A stream that `recv` is called on, what the calls have returned, and the stream as it would
be without them. -/
structure Listener (κ : Type) where
  ws : WebSocketStream κ
  returned : List (Outcome WsError (Option Message))
  uncalled : WebSocketStream κ

/-- More comes in, or a call of `recv` is over: it has returned, or is dropped while it waits. -/
inductive Attempt where
  | arrives (segments : List Bytes) (ending : Ending)
  | returns
  | dropped

namespace Listener

variable {κ : Type} [DeflateCodec κ]

def start (ws : WebSocketStream κ) : Listener κ := ⟨ws, [], ws⟩

def step (listener : Listener κ) : Attempt → Option (Listener κ)
  | .arrives segments ending =>
      (listener.ws.step (.arrives segments ending)).map fun ws =>
        { listener with ws, uncalled := listener.uncalled.arrive segments ending }
  | .returns =>
      match listener.ws.recv with
      | (.pending, _) => none
      | (outcome, ws) => some { listener with ws, returned := listener.returned ++ [outcome] }
  | .dropped =>
      match listener.ws.recv with
      | (.pending, ws) => some { listener with ws }
      | _ => none

/-- However often it is called from here on, the data messages and the violations are those of
calls that were never dropped. -/
def CancelSafe (listener : Listener κ) : Prop :=
  ∀ calls, WebSocketStream.noted
      (listener.returned ++ WebSocketStream.deliveries calls listener.ws) =
    WebSocketStream.noted
      (WebSocketStream.deliveries (listener.returned.length + calls) listener.uncalled)

/-- No call is dropped that has taken a fragment of a message. -/
def Harmless (listener : Listener κ) : Attempt → Prop
  | .dropped => OnlyPings listener.ws.role listener.ws.stream
  | _ => True

open WebSocketStream

/-- The calls have returned what they would have on all that has come in, and so it stays whatever
else comes in. -/
structure Faithful (listener : Listener κ) : Prop where
  untimed : listener.ws.Untimed
  now : ∀ calls, listener.returned ++ deliveries calls listener.ws =
    deliveries (listener.returned.length + calls) listener.uncalled
  later : listener.ws.conn.io.ending = .pending → ∀ segments ending, [] ∉ segments → ∀ calls,
    listener.returned ++ deliveries calls (listener.ws.arrive segments ending) =
      deliveries (listener.returned.length + calls) (listener.uncalled.arrive segments ending)

variable {listener next : Listener κ} {ws after : WebSocketStream κ}

theorem faithful_start (untimed : ws.Untimed) : (start ws).Faithful where
  untimed := untimed
  now calls := by rw [start, List.nil_append, List.length_nil, Nat.zero_add]
  later _ segments ending _ calls := by rw [start, List.nil_append, List.length_nil, Nat.zero_add]

theorem Faithful.arrives {segments : List Bytes} {ending : Ending} (faithful : listener.Faithful)
    (steps : listener.step (.arrives segments ending) = some next) : next.Faithful := by
  obtain ⟨ws, comes, rfl⟩ := Option.map_eq_some_iff.mp steps
  obtain ⟨opened, nonempty, rfl⟩ := step_arrives comes
  have both (ws : WebSocketStream κ) (more : List Bytes) (last : Ending) :
      (ws.arrive segments ending).arrive more last = ws.arrive (segments ++ more) last := by
    simp only [arrive, List.append_assoc]
  refine ⟨faithful.untimed.arrive nonempty, faithful.later opened segments ending nonempty, ?_⟩
  intro _ more last none calls
  rw [both, both]
  refine faithful.later opened (segments ++ more) last (fun empty => ?_) calls
  exact (List.mem_append.mp empty).elim nonempty none

/-- A call that returns takes what it takes with more behind it. -/
theorem Faithful.returns {outcome : Outcome WsError (Option Message)} (faithful : listener.Faithful)
    (ends : listener.ws.recv = (outcome, after)) (settled : outcome ≠ .pending) :
    Faithful { listener with ws := after, returned := listener.returned ++ [outcome] } := by
  have still := recv_untimed faithful.untimed
  have kept := recv_keepsEnding listener.ws
  rw [ends] at still kept
  refine ⟨still, fun calls => ?_, fun opened segments ending nonempty calls => ?_⟩
  · have one := faithful.now (calls + 1)
    rw [deliveries, ends] at one
    rw [List.append_assoc, List.length_append, Nat.add_assoc, Nat.add_comm [outcome].length]
    exact one
  · have before := kept.symm.trans opened
    have ahead := @arrive_ahead _ _ _ ending faithful.untimed before nonempty
    obtain ⟨same, behind⟩ := recv_follows ahead (by rwa [ends])
    rw [ends] at same behind
    have alike := alike_of_ahead behind (arrive_ahead still opened nonempty)
    have one := faithful.later before segments ending nonempty (calls + 1)
    rw [deliveries, ← same, deliveries_alike alike] at one
    rw [List.append_assoc, List.length_append, Nat.add_assoc, Nat.add_comm [outcome].length]
    exact one

theorem Faithful.dropped (faithful : listener.Faithful) (waits : listener.ws.recv = (.pending, after))
    (harmless : OnlyPings listener.ws.role listener.ws.stream) :
    Faithful { listener with ws := after } := by
  have still := recv_untimed faithful.untimed
  have kept := recv_keepsEnding listener.ws
  rw [waits] at still kept
  obtain ⟨before, resumes⟩ :=
    @recv_resumes _ _ _ _ .pending _ harmless faithful.untimed waits List.not_mem_nil
  rw [arrive_nil before, arrive_nil (kept.trans before)] at resumes
  refine ⟨still, fun calls => ?_, fun opened segments ending nonempty calls => ?_⟩
  · rw [← deliveries_agrees resumes calls]
    exact faithful.now calls
  · obtain ⟨_, resumes⟩ := @recv_resumes _ _ _ _ ending _ harmless faithful.untimed waits nonempty
    rw [← deliveries_agrees resumes calls]
    exact faithful.later before segments ending nonempty calls

theorem Faithful.step {attempt : Attempt} (faithful : listener.Faithful)
    (steps : listener.step attempt = some next) (harmless : Harmless listener attempt) :
    next.Faithful := by
  cases attempt with
  | arrives segments ending => exact faithful.arrives steps
  | returns =>
      cases ends : listener.ws.recv with
      | mk outcome after =>
          rw [Listener.step, ends] at steps
          cases outcome with
          | pending => cases steps
          | ready message | failed error =>
              cases Option.some.inj steps
              exact faithful.returns ends fun waits => by cases waits
  | dropped =>
      cases ends : listener.ws.recv with
      | mk outcome after =>
          rw [Listener.step, ends] at steps
          cases outcome with
          | ready message | failed error => cases steps
          | pending =>
              cases Option.some.inj steps
              exact faithful.dropped ends harmless

theorem harmless_cancelSafe {attempts : List Attempt} (untimed : ws.Untimed)
    (harmless : AllAllowed Listener.step Harmless attempts (start ws))
    (ends : Lib.run Listener.step attempts (start ws) = some listener) : listener.CancelSafe := by
  have faithful := harmless.keeps Faithful Faithful.step (faithful_start untimed) ends
  exact fun calls => congrArg noted (faithful.now calls)

/-- A client that has received part of what the server has sent. -/
def clientBehind (bytes : Bytes) : WebSocketStream Empty :=
  fromConn (.new ⟨[bytes], .pending, []⟩) .client (fun _ => ⟨0, 0, 0, 0⟩) fun _ _ => false

/-- Dropped behind a Ping and in the middle of a text. -/
theorem harmless_cancelSafe_text :
    ∃ listener, Lib.run Listener.step [.dropped, .arrives [[1, 65]] .pending, .returns]
      (start (clientBehind [0x89, 0, 0x81])) = some listener ∧ listener.CancelSafe := by
  have untimed : (clientBehind [0x89, 0, 0x81]).Untimed := ⟨⟨by decide, rfl⟩, rfl⟩
  have pings : OnlyPings .client [0x89, 0, 0x81] :=
    @OnlyPings.ping _ _ (.whole .ping []) 2 (by decide) rfl (.part (by decide))
  have harmless : AllAllowed Listener.step Harmless [.dropped, .arrives [[1, 65]] .pending, .returns]
      (start (clientBehind [0x89, 0, 0x81])) :=
    fun next first => ⟨pings, fun _ _ => ⟨trivial, fun _ _ => ⟨trivial, trivial⟩⟩⟩
  exact ⟨_, rfl, harmless_cancelSafe untimed harmless rfl⟩

/-- The first fragment of a text is dropped with the call that waits for the second one. -/
theorem not_cancelSafe_fragments :
    ∃ listener, (clientBehind [0x01, 1, 65]).Untimed ∧
      Lib.run Listener.step [.dropped, .arrives [[0x80, 1, 66]] .pending, .returns]
        (start (clientBehind [0x01, 1, 65])) = some listener ∧ ¬ listener.CancelSafe := by
  refine ⟨_, ⟨⟨by decide, rfl⟩, rfl⟩, rfl, fun safe => ?_⟩
  have same := safe 0
  revert same
  decide +kernel

end Listener

end TptAsync.Ws
