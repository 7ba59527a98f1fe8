import TptAsync.Ws.Agreement
import TptAsync.Ws.Endpoint

set_option autoImplicit false

/-!
# What an endpoint does

With frames on its way that another endpoint has written, each step of an endpoint takes at most
one of them, and writes frames of the same kind.
-/

namespace TptAsync.Ws

open Lib Http

/-- A frame as an endpoint writes it. -/
inductive Legal : Frame → Prop
  | text {string : List Char} (size : (Text.toUtf8 string).length ≤ maxPayload) :
      Legal (.whole .text (Text.toUtf8 string))
  | binary {bytes : Bytes} (size : bytes.length ≤ maxPayload) : Legal (.whole .binary bytes)
  | ping {payload : Bytes} (size : payload.length ≤ 125) : Legal (.whole .ping payload)
  | pong {payload : Bytes} (size : payload.length ≤ 125) : Legal (.whole .pong payload)
  | close {code : UInt16} (valid : isValidCloseCode code = true) :
      Legal (.whole .close (closePayload (some (code, []))))

theorem Legal.size {frame : Frame} (legal : Legal frame) : frame.payload.length ≤ maxPayload := by
  cases legal with
  | text size | binary size => exact size
  | ping size | pong size => exact Nat.le_trans size (by decide)
  | close => exact Nat.le_trans (length_closePayload _) (by decide)

theorem Legal.control {frame : Frame} (legal : Legal frame) (control : frame.opcode.isControl = true) :
    frame.payload.length ≤ 125 := by
  cases legal with
  | text | binary => cases control
  | ping size | pong size => exact size
  | close => exact length_closePayload _

namespace WebSocketStream

variable {κ : Type} {ws before middle after : WebSocketStream κ} {log more queue : List Frame}
  {flight : Bytes} {frame : Frame}

/-- The frames of `log` have been written, each where it may be. -/
structure Acted (log : List Frame) (before after : WebSocketStream κ) : Prop where
  logs : Logs log before after
  legal : ∀ frame ∈ log, Legal frame
  may : log.foldlM afterFrame before.closeSent = some after.closeSent

namespace Acted

theorem nothing (outbound : after.conn.io.outbound = before.conn.io.outbound)
    (role : after.role = before.role) (closeSent : after.closeSent = before.closeSent) :
    Acted [] before after :=
  ⟨.of_same outbound role, fun _ member => absurd member List.not_mem_nil, by rw [closeSent]; rfl⟩

theorem trans (first : Acted log before middle) (second : Acted more middle after) :
    Acted (log ++ more) before after where
  logs := first.logs.trans second.logs
  legal := List.forall_mem_append.mpr ⟨first.legal, second.legal⟩
  may := by
    rw [List.foldlM_append, first.may]
    exact second.may

theorem wrote {masks : Nat → MaskKey} {key : MaskKey} (legal : Legal frame)
    (may : afterFrame ws.closeSent frame = some (ws.closeSent || frame.opcode = .close)) :
    Acted [frame] ws (ws.wrote frame.opcode masks (encode frame (peerMask ws.role.peer key))) where
  logs := .wrote ..
  legal other member := List.mem_singleton.mp member ▸ legal
  may := by
    rw [List.foldlM_cons, may]
    rfl

end Acted

theorem Plain.wrote {opcode : Opcode} {masks : Nat → MaskKey} {bytes : Bytes} (plain : ws.Plain) :
    (ws.wrote opcode masks bytes).Plain :=
  ⟨⟨plain.live.segments, plain.live.eof⟩, plain.keepalive, plain.deflate⟩

variable [DeflateCodec κ]

/-- A side takes the first of the frames on their way to it, once all of that has arrived. -/
theorem nextFrame_queue (plain : ws.Plain) (ending : ws.conn.io.ending = .pending)
    (carries : Carries ws.role queue (ws.stream ++ flight)) (legal : ∀ frame ∈ queue, Legal frame) :
    ∃ outcome after, nextFrame ws = (outcome, after) ∧ after.bare = ws.bare ∧ after.Plain ∧
      (outcome = .pending ∧ after.stream = ws.stream ∧ decode ws.stream ws.role = .ok none ∨
        ∃ frame later, outcome = .ready (some frame) ∧ queue = frame :: later ∧
          Carries ws.role later (after.stream ++ flight)) := by
  obtain ⟨outcome, after, ends, takes⟩ := nextFrame_takes plain.untimed
  refine ⟨outcome, after, ends, takes.bare, takes.plain plain, ?_⟩
  have found := takes.found
  rcases decode_append ws.stream flight ws.role with missing | same
  · simp only [frameIn, missing, ending, Prod.mk.injEq] at found
    exact .inl ⟨found.1, found.2, missing⟩
  · cases queue with
    | nil =>
        obtain ⟨_, empty⟩ := carries
        rw [wire_nil] at empty
        have dry : ws.stream = [] := (List.append_eq_nil_iff.mp empty).1
        have missing : decode ws.stream ws.role = .ok none := by rw [dry]; rfl
        simp only [frameIn, missing, ending, Prod.mk.injEq] at found
        exact .inl ⟨found.1, found.2, missing⟩
    | cons frame later =>
        have fits := legal frame (.head _)
        obtain ⟨consumed, whole, rest⟩ := carries.decoded_cons fits.size fits.control
        have decoded := same.symm.trans whole
        simp only [frameIn, decoded, Prod.mk.injEq] at found
        refine .inr ⟨frame, later, found.1, rfl, ?_⟩
        rwa [found.2, ← List.drop_append_of_le_length (decode_consumes decoded).2]

theorem handleFrame_data {message : Message} {opcode : Opcode} {payload : Bytes}
    (parts : message.parts = .ok (opcode, payload)) (isData : opcode.isData = true)
    (size : payload.length ≤ maxPayload) (plain : ws.Plain) :
    (handleFrame .start (.whole opcode payload)).Runs ws (.done (some message)) ws := by
  have finishes : (finish (extend .start (.whole opcode payload))).Runs ws (some message) ws :=
    finish_runs parts isData (if_pos isData) plain.deflate
  have within : (extend .start (.whole opcode payload)).assembled.length ≤ maxPayload := size
  rw [Async.Runs, handleFrame_within (wellFormed_whole _ _ _) (.inl ⟨isData, rfl⟩) within]
  exact finishes.bind (.pure _ _)

/-- What a frame does that an endpoint has written. -/
theorem handleFrame_legal (legal : Legal frame) (plain : ws.Plain) :
    ∃ progress after log, (handleFrame .start frame).Runs ws progress after ∧ Acted log ws after ∧
      after.stream = ws.stream ∧ after.conn.io.ending = ws.conn.io.ending ∧ after.Plain ∧
      (frame.opcode = .close ∧ progress = .done none ∨
        frame.opcode ≠ .close ∧ after.closeSent = ws.closeSent ∧
          after.closeReceived = ws.closeReceived ∧
          (progress = .more .start ∨ ∃ message, progress = .done (some message))) := by
  cases legal with
  | @text string size =>
      exact ⟨_, ws, [], @handleFrame_data _ ws _ (.text string) _ _ rfl rfl size plain, .nothing rfl rfl rfl,
        rfl, rfl, plain, .inr ⟨by simp, rfl, rfl, .inr ⟨_, rfl⟩⟩⟩
  | @binary bytes size =>
      exact ⟨_, ws, [], @handleFrame_data _ ws _ (.binary bytes) _ _ rfl rfl size plain, .nothing rfl rfl rfl,
        rfl, rfl, plain, .inr ⟨by simp, rfl, rfl, .inr ⟨_, rfl⟩⟩⟩
  | @pong payload size =>
      exact ⟨_, ws, [], handleFrame_pong payload, .nothing rfl rfl rfl, rfl, rfl, plain,
        .inr ⟨by simp, rfl, rfl, .inr ⟨_, rfl⟩⟩⟩
  | @ping payload size =>
      obtain ⟨masks, key, sends⟩ :=
        @send_runs _ ws _ _ _ _ (pong_parts size) fun data => Bool.noConfusion data
      have may : afterFrame ws.closeSent (.whole .pong payload) = some (ws.closeSent || false) := by
        cases ws.closeSent <;> rfl
      refine ⟨_, _, _, (handleFrame_wellFormed (wellFormed_whole _ _ _)).trans (sends.bind (.pure _ _)),
        @Acted.wrote _ ws (.whole .pong payload) masks key (.pong size) may, rfl, rfl, plain.wrote,
        .inr ⟨by simp, Bool.or_false _, rfl, .inl rfl⟩⟩
  | @close code valid =>
      have parses := parseClose_closePayload (some (code, []))
      simp only [valid, if_true] at parses
      cases closed : ws.closeSent with
      | true =>
          exact ⟨_, _, [], handleFrame_close .start (handleClose_second parses closed), .nothing rfl rfl rfl, rfl, rfl,
            ⟨plain.live, plain.keepalive, plain.deflate⟩, .inl ⟨rfl, rfl⟩⟩
      | false =>
          obtain ⟨masks, key, sends⟩ := @send_runs _ ws _ _ _ _ (close_parts (length_closePayload code))
            fun data => Bool.noConfusion data
          have may : afterFrame ws.closeSent (.whole .close (closePayload (some (code, [])))) =
              some (ws.closeSent || true) := by
            rw [closed]
            rfl
          have acted := @Acted.wrote _ ws _ masks key (.close valid) may
          exact ⟨_, _, _, handleFrame_close .start (handleClose_first parses closed sends),
            acted.trans (.nothing rfl rfl rfl), rfl, rfl,
            ⟨⟨plain.live.segments, plain.live.eof⟩, plain.keepalive, plain.deflate⟩, .inl ⟨rfl, rfl⟩⟩

/-- What comes of a round, with these frames on their way. -/
inductive Round (before : WebSocketStream κ) (queue : List Frame) :
    Outcome WsError Progress → WebSocketStream κ → List Frame → Prop
  | pending {after : WebSocketStream κ} (missing : decode before.stream before.role = .ok none)
      (closeSent : after.closeSent = before.closeSent)
      (closeReceived : after.closeReceived = before.closeReceived) :
      Round before queue .pending after queue
  | close {frame : Frame} {after : WebSocketStream κ} {later : List Frame}
      (shape : queue = frame :: later) (isClose : frame.opcode = .close) :
      Round before queue (.ready (.done none)) after later
  | other {frame : Frame} {progress : Progress} {after : WebSocketStream κ} {later : List Frame}
      (shape : queue = frame :: later) (notClose : frame.opcode ≠ .close)
      (closeSent : after.closeSent = before.closeSent)
      (closeReceived : after.closeReceived = before.closeReceived)
      (proceeds : progress = .more .start ∨ ∃ message, progress = .done (some message)) :
      Round before queue (.ready progress) after later

theorem round_queue (plain : ws.Plain) (ending : ws.conn.io.ending = .pending)
    (carries : Carries ws.role queue (ws.stream ++ flight)) (legal : ∀ frame ∈ queue, Legal frame) :
    ∃ outcome after log later, round .start ws = (outcome, after) ∧ Acted log ws after ∧
      after.Plain ∧ after.conn.io.ending = .pending ∧ Carries after.role later (after.stream ++ flight) ∧
      Round ws queue outcome after later := by
  obtain ⟨outcome, middle, ends, bare, plain', came⟩ := nextFrame_queue plain ending carries legal
  have role : middle.role = ws.role := congrArg (fun ws => ws.role) bare
  have closeSent : middle.closeSent = ws.closeSent := congrArg (fun ws => ws.closeSent) bare
  have closeReceived : middle.closeReceived = ws.closeReceived :=
    congrArg (fun ws => ws.closeReceived) bare
  have ending' : middle.conn.io.ending = .pending :=
    (congrArg (fun ws => ws.conn.io.ending) bare).trans ending
  have first : Acted [] ws middle :=
    .nothing (congrArg (fun ws => ws.conn.io.outbound) bare) role closeSent
  cases came with
  | inl waits =>
      obtain ⟨rfl, stream, missing⟩ := waits
      refine ⟨.pending, middle, [], queue, Async.bind_pending ends, first, plain', ending', ?_,
        .pending missing closeSent closeReceived⟩
      rwa [role, stream]
  | inr takes =>
      obtain ⟨frame, later, rfl, rfl, rest⟩ := takes
      obtain ⟨progress, after, log, handles, acted, stream, ending'', plain'', what⟩ :=
        handleFrame_legal (legal frame (.head _)) plain'
      refine ⟨.ready progress, after, log, later, Async.Runs.bind ends handles, first.trans acted, plain'',
        ending''.trans ending', ?_, ?_⟩
      · rwa [acted.logs.role, role, stream]
      · obtain ⟨isClose, rfl⟩ | ⟨notClose, sent, received, proceeds⟩ := what
        · exact .close rfl isClose
        · exact .other rfl notClose (sent.trans closeSent) (received.trans closeReceived) proceeds

end WebSocketStream

/-- A message that an endpoint sends before it receives. A longer Ping is not sent: `send` refuses
it. -/
def Opening : Message → Prop
  | .text string => (Text.toUtf8 string).length ≤ maxPayload
  | .binary bytes => bytes.length ≤ maxPayload
  | .ping payload => payload.length ≤ 125
  | .pong _ | .close _ => False

/-- Nothing has gone wrong, and no message is under assembly between two rounds. -/
def Phase.Calm (closeSent : Bool) : Phase → Prop
  | .idle messages => closeSent = false ∧ ∀ message ∈ messages, Opening message
  | .receiving assembly => closeSent = false ∧ assembly = .start
  | .closing assembly => assembly = .start
  | .finished result => result = .ok ()

namespace Endpoint

open WebSocketStream

variable {κ : Type} {endpoint next reader writer : Endpoint κ} {queue later log : List Frame}
  {flight : Bytes}

def Finished (endpoint : Endpoint κ) : Prop := ∃ result, endpoint.phase = .finished result

structure Fit (endpoint : Endpoint κ) : Prop where
  plain : endpoint.ws.Plain
  ending : endpoint.ws.conn.io.ending = .pending
  calm : Phase.Calm endpoint.ws.closeSent endpoint.phase

/-- What an endpoint has taken out of its queue: nothing, or one frame. A Close ends its calls. -/
inductive Takes (before after : Endpoint κ) : List Frame → List Frame → Prop
  | nothing {queue : List Frame} (same : after.ws.closeReceived = before.ws.closeReceived) :
      Takes before after queue queue
  | frame {frame : Frame} {later : List Frame} (other : frame.opcode ≠ .close)
      (same : after.ws.closeReceived = before.ws.closeReceived) :
      Takes before after (frame :: later) later
  | close {frame : Frame} {later : List Frame} (isClose : frame.opcode = .close)
      (finished : after.Finished) : Takes before after (frame :: later) later

/-- What does not read leaves what is on its way as it is. -/
structure Writes (log : List Frame) (before after : WebSocketStream κ) : Prop where
  acted : Acted log before after
  plain : after.Plain
  stream : after.stream = before.stream
  ending : after.conn.io.ending = before.conn.io.ending
  closeReceived : after.closeReceived = before.closeReceived

/-- What an endpoint has done, with these frames on their way to it. -/
structure Stepped (queue : List Frame) (flight : Bytes) (before after : Endpoint κ) : Prop where
  step : ∃ log later, Acted log before.ws after.ws ∧ Takes before after queue later ∧
    Carries after.ws.role later (after.ws.stream ++ flight)
  fit : after.Fit
  busy : ¬ before.Finished

theorem stepped_of_writes {after : WebSocketStream κ} {phase : Phase} (fit : endpoint.Fit)
    (carries : Carries endpoint.ws.role queue (endpoint.ws.stream ++ flight))
    (busy : ¬ endpoint.Finished) (writes : Writes log endpoint.ws after)
    (calm : phase.Calm after.closeSent) : Stepped queue flight endpoint ⟨after, phase⟩ where
  step := by
    refine ⟨log, queue, writes.acted, .nothing writes.closeReceived, ?_⟩
    rw [writes.acted.logs.role, writes.stream]
    exact carries
  fit := ⟨writes.plain, writes.ending.trans fit.ending, calm⟩
  busy := busy

variable [DeflateCodec κ] {ws : WebSocketStream κ}

theorem send_opening {message : Message} (opening : Opening message) (plain : ws.Plain)
    (opened : ws.closeSent = false) :
    ∃ after log, (send message).Runs ws () after ∧ Writes log ws after ∧ after.closeSent = false := by
  have sends : ∀ {opcode : Opcode} {payload : Bytes}, message.parts = .ok (opcode, payload) →
      Legal (.whole opcode payload) → opcode ≠ .close →
      ∃ after log, (send message).Runs ws () after ∧ Writes log ws after ∧ after.closeSent = false := by
    intro opcode payload parts legal other
    obtain ⟨masks, key, runs⟩ := @send_runs _ ws _ _ _ _ parts fun _ => plain.deflate
    have may : afterFrame ws.closeSent (.whole opcode payload) =
        some (ws.closeSent || decide (opcode = .close)) := by
      rw [opened]
      rfl
    refine ⟨_, _, runs, ⟨@Acted.wrote _ ws _ masks key legal may, plain.wrote, rfl, rfl, rfl⟩, ?_⟩
    change (ws.closeSent || decide (opcode = .close)) = false
    rw [opened, decide_eq_false other]
    rfl
  cases message with
  | text string => exact sends rfl (.text opening) (by decide)
  | binary bytes => exact sends rfl (.binary opening) (by decide)
  | ping payload =>
      refine @sends .ping payload ?_ (.ping opening) (by decide)
      rw [Message.parts, checkControl_ok opening]
      rfl
  | pong | close => exact absurd opening id

theorem startClose_writes {code : UInt16} (valid : isValidCloseCode code = true) (plain : ws.Plain)
    (opened : ws.closeSent = false) :
    ∃ after log, (startClose code).Runs ws () after ∧ Writes log ws after := by
  obtain ⟨masks, key, sends⟩ := @send_runs _ ws _ _ _ _ (close_parts (length_closePayload code))
    fun data => Bool.noConfusion data
  have may : afterFrame ws.closeSent (.whole .close (closePayload (some (code, [])))) =
      some (ws.closeSent || true) := by
    rw [opened]
    rfl
  have acted := @Acted.wrote _ ws _ masks key (.close valid) may
  let payload := closePayload (some (code, []))
  let closed := ws.wrote .close masks (encode (.whole .close payload) (peerMask ws.role.peer key))
  have marked : Acted [] closed { closed with closeSent := true } :=
    .nothing rfl rfl (Bool.or_true ws.closeSent).symm
  refine ⟨{ closed with closeSent := true }, _, (Async.Runs.get ws).bind ?_, acted.trans marked,
    ⟨⟨plain.live.segments, plain.live.eof⟩, plain.keepalive, plain.deflate⟩, rfl, rfl, rfl⟩
  rw [if_neg (Bool.eq_false_iff.mp opened)]
  exact sends.bind (.modify _ _)

/-- A round of a call, which is resumed or over. -/
theorem stepped_of_round {returned : Phase} {resumed : Assembly → Phase} (fit : endpoint.Fit)
    (carries : Carries endpoint.ws.role queue (endpoint.ws.stream ++ flight))
    (legal : ∀ frame ∈ queue, Legal frame) (busy : ¬ endpoint.Finished)
    (resumes : (resumed .start).Calm endpoint.ws.closeSent) (returns : returned.Calm endpoint.ws.closeSent) :
    Stepped queue flight endpoint (settle returned resumed .start (round .start endpoint.ws)) := by
  obtain ⟨outcome, after, log, later, rounds, acted, plain, ending, left, what⟩ :=
    round_queue fit.plain fit.ending carries legal
  rw [rounds]
  cases what with
  | pending _ closeSent closeReceived =>
      exact ⟨⟨log, queue, acted, .nothing closeReceived, left⟩, ⟨plain, ending, closeSent ▸ resumes⟩, busy⟩
  | close shape isClose =>
      subst shape
      exact ⟨⟨log, later, acted, .close isClose ⟨_, rfl⟩, left⟩, ⟨plain, ending, rfl⟩, busy⟩
  | other shape notClose closeSent closeReceived proceeds =>
      subst shape
      obtain rfl | ⟨message, rfl⟩ := proceeds
      · exact ⟨⟨log, later, acted, .frame notClose closeReceived, left⟩,
          ⟨plain, ending, closeSent ▸ resumes⟩, busy⟩
      · exact ⟨⟨log, later, acted, .frame notClose closeReceived, left⟩,
          ⟨plain, ending, closeSent ▸ returns⟩, busy⟩

theorem act_stepped {turn : Turn} (fit : endpoint.Fit) (acts : endpoint.act turn = some next)
    (carries : Carries endpoint.ws.role queue (endpoint.ws.stream ++ flight))
    (legal : ∀ frame ∈ queue, Legal frame) : Stepped queue flight endpoint next := by
  obtain ⟨ws, phase⟩ := endpoint
  have still : Writes [] ws ws := ⟨.nothing rfl rfl rfl, fit.plain, rfl, rfl, rfl⟩
  have calm := fit.calm
  cases phase with
  | finished result => cases turn <;> cases acts
  | idle messages =>
      have busy : ¬ Finished ⟨ws, .idle messages⟩ := fun finished => by
        obtain ⟨_, same⟩ := finished
        cases same
      obtain ⟨opened, opening⟩ := calm
      cases turn with
      | poll => cases acts
      | send =>
          cases messages with
          | nil => cases acts
          | cons message messages =>
              obtain ⟨after, log, sends, writes, still⟩ :=
                send_opening (opening message (.head _)) fit.plain opened
              change proceed (.idle messages) (send message ws) = some next at acts
              rw [show send message ws = _ from sends] at acts
              cases acts
              exact stepped_of_writes fit carries busy writes
                ⟨still, fun message member => opening message (.tail _ member)⟩
      | recv =>
          cases messages with
          | cons => cases acts
          | nil =>
              cases acts
              exact stepped_of_writes fit carries busy still ⟨opened, rfl⟩
      | close code =>
          cases messages with
          | cons => cases acts
          | nil =>
              change (if _ then proceed (.closing .start) (startClose code ws) else none) = _ at acts
              split at acts
              · next valid =>
                  obtain ⟨after, log, starts, writes⟩ := startClose_writes valid fit.plain opened
                  rw [show startClose code ws = _ from starts] at acts
                  cases acts
                  exact stepped_of_writes fit carries busy writes rfl
              · cases acts
  | receiving assembly =>
      have busy : ¬ Finished ⟨ws, .receiving assembly⟩ := fun finished => by
        obtain ⟨_, same⟩ := finished
        cases same
      obtain ⟨opened, rfl⟩ := calm
      cases turn with
      | poll =>
          cases acts
          exact stepped_of_round fit carries legal busy ⟨opened, rfl⟩
            ⟨opened, fun _ member => absurd member List.not_mem_nil⟩
      | send | recv | close => cases acts
  | closing assembly =>
      have busy : ¬ Finished ⟨ws, .closing assembly⟩ := fun finished => by
        obtain ⟨_, same⟩ := finished
        cases same
      cases calm
      cases turn with
      | poll =>
          cases acts
          exact stepped_of_round fit carries legal busy rfl rfl
      | send | recv | close => cases acts

/-- In a call, with no frame to go on with. -/
def Waits (endpoint : Endpoint κ) : Prop :=
  ∃ assembly, (endpoint.phase = .receiving assembly ∨ endpoint.phase = .closing assembly) ∧
    (round assembly endpoint.ws).1 = .pending

theorem Waits.not_finished (waits : endpoint.Waits) : ¬ endpoint.Finished := by
  obtain ⟨assembly, phase, _⟩ := waits
  intro finished
  obtain ⟨result, same⟩ := finished
  cases phase with
  | inl phase | inr phase => cases phase.symm.trans same

/-- Who waits has taken all that has arrived. -/
theorem Waits.eq_nil (waits : endpoint.Waits) (fit : endpoint.Fit)
    (carries : Carries endpoint.ws.role queue endpoint.ws.stream) (legal : ∀ frame ∈ queue, Legal frame) :
    queue = [] := by
  obtain ⟨assembly, phase, pending⟩ := waits
  have start : assembly = .start := by
    have calm := fit.calm
    cases phase with
    | inl phase =>
        rw [phase] at calm
        exact calm.2
    | inr phase =>
        rw [phase] at calm
        exact calm
  subst start
  rw [← List.append_nil endpoint.ws.stream] at carries
  obtain ⟨outcome, after, log, later, rounds, _, _, _, _, what⟩ :=
    round_queue fit.plain fit.ending carries legal
  rw [rounds] at pending
  cases queue with
  | nil => rfl
  | cons frame queue =>
      rw [List.append_nil] at carries
      have fits := legal frame (.head _)
      obtain ⟨_, decoded, _⟩ := carries.decoded_cons fits.size fits.control
      cases what with
      | pending missing => cases missing.symm.trans decoded
      | close | other => cases pending

end Endpoint

end TptAsync.Ws
