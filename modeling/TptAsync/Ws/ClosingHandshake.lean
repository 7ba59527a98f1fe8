import Mathlib.Logic.Function.Basic
import TptAsync.Ws.EndpointProperties

set_option autoImplicit false

/-!
# The closing handshake

Two endpoints, each of which reads what the other writes, in whatever pieces it arrives.
-/

namespace TptAsync.Ws

open Lib Http WebSocketStream Endpoint

variable {κ : Type}

/-- Two endpoints, one in each role, and how many of the bytes that each has written have been
delivered to the other. -/
structure Pair (κ : Type) where
  endpoint : Role → Endpoint κ
  delivered : Role → Nat

/-- Something that an endpoint does, or some of its bytes that arrive. -/
inductive Action where
  | act (turn : Turn)
  | deliver (count : Nat)

def Endpoint.arrive (endpoint : Endpoint κ) (bytes : Bytes) : Endpoint κ :=
  { endpoint with ws := endpoint.ws.arrive [bytes] .pending }

namespace Pair

/-- The bytes of a side that are on their way. -/
def flight (pair : Pair κ) (side : Role) : Bytes :=
  (pair.endpoint side).ws.conn.io.outbound.drop (pair.delivered side)

def step [DeflateCodec κ] (pair : Pair κ) : Role × Action → Option (Pair κ)
  | (side, .act turn) =>
      ((pair.endpoint side).act turn).map fun next =>
        { pair with endpoint := Function.update pair.endpoint side next }
  | (side, .deliver count) =>
      let bytes := (pair.flight side).take count
      if bytes = [] then none
      else some {
        endpoint := Function.update pair.endpoint side.peer ((pair.endpoint side.peer).arrive bytes)
        delivered := Function.update pair.delivered side (pair.delivered side + bytes.length) }

/-- Behind the opening handshake, each with some messages to send. -/
structure Begun (sends : Message → Prop) (pair : Pair κ) : Prop where
  opened : ∀ side, (pair.endpoint side).ws.Opened
  role : ∀ side, (pair.endpoint side).ws.role = side
  deflate : ∀ side, (pair.endpoint side).ws.deflate = none
  ending : ∀ side, (pair.endpoint side).ws.conn.io.ending = .pending
  stream : ∀ side, (pair.endpoint side).ws.stream = []
  delivered : ∀ side, pair.delivered side = (pair.endpoint side).ws.conn.io.outbound.length
  opening : ∀ side, ∃ messages, (pair.endpoint side).phase = .idle messages ∧
    ∀ message ∈ messages, sends message

abbrev Started (pair : Pair κ) : Prop := pair.Begun Opening

end Pair

section Link

variable {reader writer after : Endpoint κ} {delivered : Nat} {queue later log : List Frame}
  {closeSent : Bool}

theorem count_closes {before after : Bool} (may : log.foldlM afterFrame before = some after) :
    (log.filter fun frame => frame.opcode = .close).length + before.toNat = after.toNat := by
  induction log generalizing before with
  | nil => rw [List.filter_nil, List.length_nil, Nat.zero_add, Option.some.inj may]
  | cons frame log ih =>
      rw [List.foldlM_cons] at may
      obtain ⟨middle, first, rest⟩ := Option.bind_eq_some_iff.mp may
      have counted := ih rest
      unfold afterFrame at first
      split at first
      · next ping => cases first; simpa [ping] using counted
      · next pong => cases first; simpa [pong] using counted
      · cases first
      · next opcode =>
          cases first
          by_cases closes : frame.opcode = .close
          · simpa [closes] using counted
          · simpa [closes] using counted

/-- The frames that one side has written, and the other not yet taken. -/
structure Link (writer reader : Endpoint κ) (delivered : Nat) (queue : List Frame) : Prop where
  role : reader.ws.role = writer.ws.role.peer
  within : delivered ≤ writer.ws.conn.io.outbound.length
  carries : Carries reader.ws.role queue
    (reader.ws.stream ++ writer.ws.conn.io.outbound.drop delivered)
  legal : ∀ frame ∈ queue, Legal frame
  written : (∃ close ∈ queue, close.opcode = .close) → writer.ws.closeSent = true
  received : reader.ws.closeReceived = true → writer.ws.closeSent = true
  coming : writer.ws.closeSent = true →
    (∃ close ∈ queue, close.opcode = .close) ∨ reader.Finished

theorem WebSocketStream.Acted.closes {before after : WebSocketStream κ} (acted : Acted log before after) :
    after.closeSent = true ↔ before.closeSent = true ∨ ∃ close ∈ log, close.opcode = .close := by
  have counted := count_closes acted.may
  have found : (log.filter fun frame => frame.opcode = .close) = [] ↔
      ¬ ∃ close ∈ log, close.opcode = .close := by
    simp [List.filter_eq_nil_iff]
  cases sent : before.closeSent with
  | true =>
      rw [sent] at counted
      cases sent' : after.closeSent with
      | true => simp
      | false =>
          rw [sent'] at counted
          cases counted
  | false =>
      rw [sent] at counted
      cases sent' : after.closeSent with
      | false =>
          rw [sent', Bool.toNat_false, Nat.add_zero, List.length_eq_zero_iff, found] at counted
          simpa using counted
      | true =>
          have some : ∃ close ∈ log, close.opcode = .close := by
            by_contra none
            rw [found.mpr none, sent'] at counted
            cases counted
          exact ⟨fun _ => .inr some, fun _ => rfl⟩

namespace Link

theorem writes (link : Link writer reader delivered queue) (acted : Acted log writer.ws after.ws) :
    Link after reader delivered (queue ++ log) where
  role := link.role.trans (congrArg Role.peer acted.logs.role.symm)
  within := link.within.trans acted.logs.length_le
  carries := by
    obtain ⟨bytes, outbound, carries⟩ := acted.logs.outbound
    rw [outbound, List.drop_append_of_le_length link.within, ← List.append_assoc]
    exact link.carries.append (link.role ▸ carries)
  legal := List.forall_mem_append.mpr ⟨link.legal, acted.legal⟩
  written found := by
    obtain ⟨close, member, isClose⟩ := found
    refine acted.closes.mpr ?_
    cases List.mem_append.mp member with
    | inl earlier => exact .inl (link.written ⟨close, earlier, isClose⟩)
    | inr later => exact .inr ⟨close, later, isClose⟩
  received received := acted.closes.mpr (.inl (link.received received))
  coming sent := by
    cases acted.closes.mp sent with
    | inl earlier =>
        refine (link.coming earlier).imp (fun found => ?_) id
        obtain ⟨close, member, isClose⟩ := found
        exact ⟨close, List.mem_append_left log member, isClose⟩
    | inr found =>
        obtain ⟨close, member, isClose⟩ := found
        exact .inl ⟨close, List.mem_append_right queue member, isClose⟩

theorem reads (link : Link writer reader delivered queue) (takes : Takes reader after queue later)
    (role : after.ws.role = reader.ws.role) (busy : ¬ reader.Finished)
    (carries : Carries after.ws.role later
      (after.ws.stream ++ writer.ws.conn.io.outbound.drop delivered)) :
    Link writer after delivered later where
  role := role.trans link.role
  within := link.within
  carries := carries
  legal := by
    cases takes with
    | nothing => exact link.legal
    | frame | close => exact fun frame member => link.legal frame (.tail _ member)
  written found := by
    obtain ⟨close, member, isClose⟩ := found
    cases takes with
    | nothing => exact link.written ⟨close, member, isClose⟩
    | frame | close => exact link.written ⟨close, .tail _ member, isClose⟩
  received received := by
    cases takes with
    | nothing same | frame _ same => exact link.received (same ▸ received)
    | close isClose => exact link.written ⟨_, .head _, isClose⟩
  coming sent := by
    obtain ⟨close, member, isClose⟩ := (link.coming sent).resolve_right busy
    cases takes with
    | nothing => exact .inl ⟨close, member, isClose⟩
    | close _ finished => exact .inr finished
    | frame other =>
        cases member with
        | head => exact absurd isClose other
        | tail _ later => exact .inl ⟨close, later, isClose⟩

theorem arrives {bytes : Bytes} {count : Nat} (link : Link writer reader delivered queue)
    (part : bytes = (writer.ws.conn.io.outbound.drop delivered).take count) :
    Link writer (reader.arrive bytes) (delivered + bytes.length) queue where
  role := link.role
  within := by
    have short := congrArg List.length part
    rw [List.length_take, List.length_drop] at short
    have within := link.within
    omega
  carries := by
    have split : bytes ++ writer.ws.conn.io.outbound.drop (delivered + bytes.length) =
        writer.ws.conn.io.outbound.drop delivered := by
      have initial : bytes <+: writer.ws.conn.io.outbound.drop delivered :=
        part ▸ List.take_prefix count _
      rw [← List.drop_drop]
      exact List.prefix_iff_eq_append.mp initial
    have stream : (reader.arrive bytes).ws.stream = reader.ws.stream ++ bytes := by
      simp [Endpoint.arrive, WebSocketStream.arrive, WebSocketStream.stream,
        HttpConnection.undelivered]
    rw [stream, List.append_assoc, split]
    exact link.carries
  legal := link.legal
  written := link.written
  received := link.received
  coming sent := (link.coming sent).imp id fun finished => finished

end Link

end Link

namespace Pair

variable {start pair next : Pair κ}

/-- What holds of two endpoints however their steps are interleaved. -/
structure Consistent (start pair : Pair κ) : Prop where
  fit : ∀ side, (pair.endpoint side).Fit
  link : ∀ side, ∃ queue,
    Link (pair.endpoint side) (pair.endpoint side.peer) (pair.delivered side) queue
  acted : ∀ side, ∃ log, Acted log (start.endpoint side).ws (pair.endpoint side).ws

theorem Started.consistent (started : pair.Started) : Consistent pair pair where
  fit side := by
    obtain ⟨messages, phase, opening⟩ := started.opening side
    have fresh := (started.opened side).fresh
    refine ⟨⟨(started.opened side).live, ?_, started.deflate side⟩, started.ending side, ?_⟩
    · rw [fresh]
      rfl
    · rw [phase, fresh]
      exact ⟨rfl, opening⟩
  link side := by
    have unsent : (pair.endpoint side).ws.closeSent = false := by
      rw [(started.opened side).fresh]
      rfl
    have unread : (pair.endpoint side.peer).ws.closeReceived = false := by
      rw [(started.opened side.peer).fresh]
      rfl
    refine ⟨[], by rw [started.role, started.role], (started.delivered side).le, ?_, ?_, ?_, ?_, ?_⟩
    · rw [started.stream, started.delivered, List.drop_length]
      exact .nil
    · simp
    · simp
    · simp [unread]
    · simp [unsent]
  acted side := ⟨[], .nothing rfl rfl rfl⟩

theorem peer_ne (side : Role) : side.peer ≠ side := by
  cases side <;> decide

theorem eq_or_eq_peer (other side : Role) : other = side ∨ other = side.peer := by
  cases other <;> cases side <;> decide

theorem Consistent.deliver {side : Role} {count : Nat} {bytes : Bytes}
    (consistent : Consistent start pair) (part : bytes = (pair.flight side).take count)
    (nonempty : bytes ≠ []) :
    Consistent start {
      endpoint := Function.update pair.endpoint side.peer ((pair.endpoint side.peer).arrive bytes)
      delivered := Function.update pair.delivered side (pair.delivered side + bytes.length) } := by
  obtain ⟨queue, out⟩ := consistent.link side
  obtain ⟨queue', into⟩ := consistent.link side.peer
  rw [Role.peer_peer] at into
  let reader := (pair.endpoint side.peer).arrive bytes
  have nothing : Acted [] (pair.endpoint side.peer).ws reader.ws := .nothing rfl rfl rfl
  have self : Function.update pair.endpoint side.peer reader side.peer = reader :=
    Function.update_self ..
  have other : Function.update pair.endpoint side.peer reader side = pair.endpoint side :=
    Function.update_of_ne (peer_ne side).symm ..
  have counted : Function.update pair.delivered side (pair.delivered side + bytes.length) side =
      pair.delivered side + bytes.length := Function.update_self ..
  have uncounted : Function.update pair.delivered side (pair.delivered side + bytes.length) side.peer =
      pair.delivered side.peer := Function.update_of_ne (peer_ne side) ..
  refine ⟨fun role => ?_, fun role => ?_, fun role => ?_⟩
  all_goals dsimp only
  · obtain rfl | rfl := eq_or_eq_peer role side
    · rw [other]
      exact consistent.fit _
    · rw [self]
      have fit := consistent.fit side.peer
      have delivers := (@arrive_behaves _ (pair.endpoint side.peer).ws [bytes] .pending
        (by simpa using nonempty.symm)).live fit.plain.live
      exact ⟨⟨delivers, fit.plain.keepalive, fit.plain.deflate⟩, rfl, fit.calm⟩
  · obtain rfl | rfl := eq_or_eq_peer role side
    · rw [self, other, counted]
      exact ⟨queue, out.arrives part⟩
    · rw [Role.peer_peer, self, other, uncounted]
      exact ⟨queue' ++ [], into.writes nothing⟩
  · obtain rfl | rfl := eq_or_eq_peer role side
    · rw [other]
      exact consistent.acted _
    · rw [self]
      obtain ⟨log, earlier⟩ := consistent.acted side.peer
      exact ⟨log ++ [], earlier.trans nothing⟩

variable [DeflateCodec κ]

theorem Consistent.act {side : Role} {turn : Turn} {after : Endpoint κ}
    (consistent : Consistent start pair) (acts : (pair.endpoint side).act turn = some after) :
    Consistent start { pair with endpoint := Function.update pair.endpoint side after } := by
  obtain ⟨queue, out⟩ := consistent.link side
  obtain ⟨queue', into⟩ := consistent.link side.peer
  rw [Role.peer_peer] at into
  obtain ⟨⟨log, later, acted, takes, carries⟩, fit, busy⟩ :=
    act_stepped (consistent.fit side) acts into.carries into.legal
  have self : Function.update pair.endpoint side after side = after := Function.update_self ..
  have other : Function.update pair.endpoint side after side.peer = pair.endpoint side.peer :=
    Function.update_of_ne (peer_ne side) ..
  refine ⟨fun role => ?_, fun role => ?_, fun role => ?_⟩
  all_goals dsimp only
  · obtain rfl | rfl := eq_or_eq_peer role side
    · rw [self]
      exact fit
    · rw [other]
      exact consistent.fit _
  · obtain rfl | rfl := eq_or_eq_peer role side
    · rw [self, other]
      exact ⟨queue ++ log, out.writes acted⟩
    · rw [Role.peer_peer, self, other]
      exact ⟨later, into.reads takes acted.logs.role busy carries⟩
  · obtain rfl | rfl := eq_or_eq_peer role side
    · rw [self]
      obtain ⟨log', earlier⟩ := consistent.acted role
      exact ⟨log' ++ log, earlier.trans acted⟩
    · rw [other]
      exact consistent.acted _

theorem Consistent.step {event : Role × Action} (consistent : Consistent start pair)
    (steps : pair.step event = some next) : Consistent start next := by
  obtain ⟨side, action⟩ := event
  cases action with
  | act turn =>
      obtain ⟨after, acts, rfl⟩ := Option.map_eq_some_iff.mp steps
      exact consistent.act acts
  | deliver count =>
      rw [Pair.step] at steps
      split at steps
      · cases steps
      · next nonempty =>
          cases steps
          exact consistent.deliver rfl nonempty

/-- Nothing goes wrong, at most one Close is written by each side, neither is left waiting when one
has been, and a side that is closed has a peer that has written one. -/
structure Orderly (start pair : Pair κ) : Prop where
  noViolation : ∀ side reason, (pair.endpoint side).phase ≠ .finished (.error (.protocol reason))
  closes : ∀ side, ∃ log, Logs log (start.endpoint side).ws (pair.endpoint side).ws ∧
    (log.filter fun frame => frame.opcode = .close).length = (pair.endpoint side).ws.closeSent.toNat
  noStandstill : (∀ side, (pair.endpoint side).Waits ∧ pair.flight side = []) →
    ∀ side, (pair.endpoint side).ws.closeSent = false
  agreed : ∀ side, (pair.endpoint side).Finished → (pair.endpoint side).ws.isClosed = true →
    (pair.endpoint side.peer).ws.closeSent = true

theorem Consistent.orderly (consistent : Consistent start pair) (started : start.Started) :
    Orderly start pair where
  noViolation side reason same := by
    have calm := (consistent.fit side).calm
    rw [same] at calm
    cases calm
  closes side := by
    obtain ⟨log, acted⟩ := consistent.acted side
    have counted := count_closes acted.may
    have unsent : (start.endpoint side).ws.closeSent = false := by
      rw [(started.opened side).fresh]
      rfl
    rw [unsent] at counted
    exact ⟨log, acted.logs, counted⟩
  noStandstill standstill side := by
    obtain ⟨queue, link⟩ := consistent.link side
    have carries := link.carries
    rw [show (pair.endpoint side).ws.conn.io.outbound.drop (pair.delivered side) = [] from
      (standstill side).2, List.append_nil] at carries
    have waits := (standstill side.peer).1
    cases waits.eq_nil (consistent.fit side.peer) carries link.legal
    by_contra sent
    cases link.coming (by simpa using sent) with
    | inl found =>
        obtain ⟨_, member, _⟩ := found
        cases member
    | inr finished => exact waits.not_finished finished
  agreed side _ closed := by
    obtain ⟨queue, link⟩ := consistent.link side.peer
    rw [Role.peer_peer] at link
    exact link.received (Bool.and_eq_true_iff.mp closed).2

/-- A client that sends some messages, and a server that only receives. -/
def clientSends (messages : List Message) : Pair Empty where
  endpoint side := {
    ws := fromConn (.new ⟨[], .pending, []⟩) side (fun _ => ⟨0, 0, 0, 0⟩) fun _ _ => false
    phase := .idle (if side = .client then messages else []) }
  delivered _ := 0

theorem clientSends_begun {sends : Message → Prop} {messages : List Message}
    (may : ∀ message ∈ messages, sends message) : (clientSends messages).Begun sends where
  opened _ := ⟨⟨by simp [clientSends, fromConn, HttpConnection.new], rfl⟩, rfl⟩
  role _ := rfl
  deflate _ := rfl
  ending _ := rfl
  stream _ := rfl
  delivered _ := rfl
  opening side := by
    refine ⟨_, rfl, ?_⟩
    cases side with
    | client => exact may
    | server => simp

/-- Messages whose size is limited only where they carry data. -/
def DataLimited : Message → Prop
  | .text string => (Text.toUtf8 string).length ≤ maxPayload
  | .binary bytes => bytes.length ≤ maxPayload
  | .ping _ => True
  | .pong _ | .close _ => False

/-- The payload of a control frame has at most 125 bytes. -/
theorem act_longPing {ws : WebSocketStream κ} {payload : Bytes} {later : List Message}
    (long : 125 < payload.length) : act ⟨ws, .idle (.ping payload :: later)⟩ .send =
      some ⟨ws, .finished (.error (.protocol "control frame payload exceeds 125 bytes"))⟩ := by
  have parts : (Message.ping payload).parts =
      .error (.protocol "control frame payload exceeds 125 bytes") := by
    rw [Message.parts, checkControl, if_pos long]
    rfl
  simp only [act, send, parts]
  rfl

/-- A Ping of 126 bytes is refused. -/
theorem longPing_disorderly :
    let start := clientSends [.ping (List.replicate 126 0)]
    start.Begun DataLimited ∧ ∃ pair, Reachable Pair.step start pair ∧ ¬ Orderly start pair := by
  intro start
  refine ⟨clientSends_begun (by simp [DataLimited]), ?_⟩
  obtain ⟨failed, refused, reason, phase⟩ : ∃ failed, (start.endpoint .client).act .send = some failed ∧
      ∃ reason, failed.phase = .finished (.error (.protocol reason)) := ⟨_, act_longPing (by simp), _, rfl⟩
  have stepped : start.step (.client, .act .send) =
      some { start with endpoint := Function.update start.endpoint .client failed } := by
    rw [Pair.step, refused]
    rfl
  refine ⟨_, ⟨[(.client, .act .send)], Option.bind_eq_some_iff.mpr ⟨_, stepped, rfl⟩⟩, fun orderly => ?_⟩
  refine orderly.noViolation .client reason ?_
  dsimp only
  rw [Function.update_self, phase]

end Pair

end TptAsync.Ws
