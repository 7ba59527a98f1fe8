import TptAsync.Lib.TextProperties
import TptAsync.Ws.Segmentation

set_option autoImplicit false

/-!
# Messages in fragments

A message is the same however it was cut, and whatever Pings are sent between its fragments:
each is answered, and the assembly goes on.
-/

namespace TptAsync.Ws

open Lib Http

/-- A data message in fragments, each with the payloads of the Pings in front of it. -/
structure Transmission where
  message : Message
  opcode : Opcode
  payload : Bytes
  parts : message.parts = .ok (opcode, payload)
  isData : opcode.isData = true
  size : payload.length ≤ maxPayload
  fragments : List (List Bytes × Bytes)
  nonempty : fragments ≠ []
  cut : (fragments.map Prod.snd).flatten = payload
  legal : ∀ fragment ∈ fragments, ∀ ping ∈ fragment.1, ping.length ≤ 125

namespace Transmission

/-- The frames of the fragments, the first of them with this opcode. -/
def framesFrom : Opcode → List (List Bytes × Bytes) → List Frame
  | _, [] => []
  | opcode, (pings, payload) :: rest =>
      pings.map (Frame.whole .ping) ++
        ⟨rest.isEmpty, false, opcode, payload⟩ :: framesFrom .continuation rest

def frames (transmission : Transmission) : List Frame :=
  framesFrom transmission.opcode transmission.fragments

def pings (transmission : Transmission) : List Bytes := transmission.fragments.flatMap Prod.fst

end Transmission

namespace WebSocketStream

variable {κ : Type} {ws before middle after : WebSocketStream κ} {pings more : List Bytes}
  {keys : Nat → MaskKey} {rest : Bytes} {assembly : Assembly}

/-- What a side writes but for the Pings of its keepalive. -/
def replies (log : List Frame) : List Frame := log.filter fun frame => frame.opcode ≠ .ping

theorem Pings.no_replies (waits : Pings before after) :
    ∃ log, Logs log before after ∧ replies log = [] ∧ ∀ frame ∈ log, frame.payload.length ≤ 125 := by
  obtain ⟨log, logs, same⟩ := waits.log
  refine ⟨log, logs, List.filter_eq_nil_iff.mpr fun frame member => ?_, fun frame member => ?_⟩
  · rw [same frame member]
    decide
  · rw [same frame member]
    exact Nat.zero_le _

/-- The Pings that have been taken out of the stream are answered in order, and the stream goes on as
it was. What is written besides are the Pings of a keepalive. -/
structure Replies (pings : List Bytes) (before after : WebSocketStream κ) : Prop where
  log : ∃ log, Logs log before after ∧ replies log = pings.map (Frame.whole .pong) ∧
    (∀ frame ∈ log, frame.payload.length ≤ 125) ∧
    (before.keepalive = none → log = pings.map (Frame.whole .pong))
  unchanged : Unchanged before after
  live : after.Live

namespace Replies

theorem of_pings (waits : Pings before after) (live : after.Live)
    (silent : before.keepalive = none → after.conn.io.outbound = before.conn.io.outbound) :
    Replies [] before after := by
  obtain ⟨log, logs, none, small⟩ := waits.no_replies
  exact ⟨⟨log, logs, none, small, fun off => logs.eq_nil (silent off)⟩, waits.unchanged, live⟩

theorem refl (live : ws.Live) : Replies [] ws ws := of_pings (Std.Refl.refl ws) live fun _ => rfl

theorem trans (first : Replies pings before middle) (second : Replies more middle after) :
    Replies (pings ++ more) before after := by
  obtain ⟨log, logs, pongs, small, silent⟩ := first.log
  obtain ⟨log', logs', pongs', small', silent'⟩ := second.log
  refine ⟨⟨log ++ log', logs.trans logs', ?_, List.forall_mem_append.mpr ⟨small, small'⟩, fun off => ?_⟩,
    first.unchanged.trans second.unchanged, second.live⟩
  · rw [replies, List.filter_append, ← replies, pongs, ← replies, pongs', List.map_append]
  · rw [silent off, silent' (first.unchanged.keepalive.trans off), List.map_append]

theorem role (replies : Replies pings before after) : after.role = before.role := by
  obtain ⟨_, logs, _⟩ := replies.log
  exact logs.role

/-- A Pong that has been written. -/
theorem wrote {payload : Bytes} (masks : Nat → MaskKey) (key : MaskKey) (live : ws.Live)
    (legal : payload.length ≤ 125) :
    Replies [payload] ws
      (ws.wrote .pong masks (encode (Frame.whole .pong payload) (peerMask ws.role.peer key))) where
  log := ⟨_, .wrote .., by simp [Frame.whole, replies], by simpa [Frame.whole] using legal, fun _ => rfl⟩
  unchanged := ⟨rfl, rfl, Bool.or_false _, rfl, rfl⟩
  live := ⟨⟨live.conn.segments, live.conn.eof⟩, live.answered, live.prompt⟩

end Replies

variable [DeflateCodec κ]

section Receive

variable {fuel : Nat} {frame : Frame} {message : Message} {opcode kind : Opcode} {payload : Bytes}

/-- The frame at the front is taken out of the stream, and nothing else happens. -/
theorem nextFrame_replies {frames : List Frame} (live : ws.Live)
    (size : frame.payload.length ≤ maxPayload)
    (control : frame.opcode.isControl = true → frame.payload.length ≤ 125)
    (shape : ws.stream = wire ws.role keys (frame :: frames) ++ rest) :
    ∃ after, nextFrame.Runs ws (some frame) after ∧
      after.stream = wire after.role (fun n => keys (n + 1)) frames ++ rest ∧ Replies [] ws after := by
  rw [wire, List.append_assoc] at shape
  obtain ⟨after, runs, stream, continues⟩ :=
    nextFrame_runs live (acceptable_peerMask size control) shape
  have waits := nextFrame_pings.of_runs runs
  refine ⟨after, runs, continues.role ▸ stream, .of_pings waits continues.live ?_⟩
  intro off
  obtain ⟨_, after', ends, takes⟩ := nextFrame_takes ⟨live.conn, off⟩
  cases runs.symm.trans ends
  exact congrArg (fun ws => ws.conn.io.outbound) takes.bare

theorem handleFrame_ping (assembly : Assembly) (legal : payload.length ≤ 125) (live : ws.Live) :
    ∃ after, (handleFrame assembly (.whole .ping payload)).Runs ws (.more assembly) after ∧
      after.stream = ws.stream ∧ Replies [payload] ws after := by
  obtain ⟨masks, key, sends⟩ :=
    @send_runs _ ws _ _ _ _ (pong_parts legal) fun data => Bool.noConfusion data
  refine ⟨_, ?_, ?_, .wrote masks key live legal⟩
  · exact (handleFrame_wellFormed (wellFormed_whole _ _ _)).trans (sends.bind (.pure _ _))
  · rfl

/-- Pings are answered, and do nothing to the message under assembly. -/
theorem recvLoop_pings {frames : List Frame} (live : ws.Live)
    (legal : ∀ ping ∈ pings, ping.length ≤ 125)
    (shape : ws.stream = wire ws.role keys (pings.map (Frame.whole .ping) ++ frames) ++ rest) :
    ∃ after, recvLoop (pings.length + fuel) assembly ws = recvLoop fuel assembly after ∧
      after.stream = wire after.role (fun n => keys (n + pings.length)) frames ++ rest ∧
      Replies pings ws after := by
  induction pings generalizing ws keys with
  | nil => exact ⟨ws, by rw [List.length_nil, Nat.zero_add], shape, .refl live⟩
  | cons ping pings ih =>
      have small : ping.length ≤ 125 := legal ping (.head _)
      rw [List.map_cons, List.cons_append] at shape
      obtain ⟨found, comes, left, waits⟩ :=
        nextFrame_replies live (show ping.length ≤ _ from small.trans (by decide)) (fun _ => small)
          shape
      obtain ⟨replied, handles, still, replies⟩ := handleFrame_ping assembly small waits.live
      obtain ⟨after, loops, stream, later⟩ := ih replies.live
        (fun ping member => legal ping (.tail _ member)) (by rw [still, left, replies.role])
      refine ⟨after, ?_, ?_, waits.trans (replies.trans later)⟩
      · rw [List.length_cons, Nat.succ_add, recvLoop_more comes handles, loops]
      · simpa only [List.length_cons, Nat.add_assoc] using stream

theorem finish_runs (parts : message.parts = .ok (kind, assembly.assembled))
    (isData : kind.isData = true) (begun : assembly.opcode = some kind) (plain : ws.deflate = none) :
    (finish assembly).Runs ws (some message) ws := by
  have unpacked : (decompressPayload assembly).Runs ws assembly.assembled ws := by
    refine (Async.Runs.get ws).bind ?_
    rw [plain]
    exact .pure _ _
  refine unpacked.bind ?_
  rw [begun]
  cases message with
  | text string =>
      obtain ⟨rfl, assembled⟩ := Prod.mk.inj (Except.ok.inj parts)
      rw [← assembled]
      simp only [Text.fromUtf8_toUtf8]
      exact .pure _ _
  | binary bytes =>
      obtain ⟨rfl, assembled⟩ := Prod.mk.inj (Except.ok.inj parts)
      rw [← assembled]
      exact .pure _ _
  | ping | pong | close =>
      obtain ⟨_, _, same⟩ := except_bind_ok parts
      obtain ⟨rfl, _⟩ := Prod.mk.inj (Except.ok.inj same)
      cases isData

/-- A fragment at the front is added to the message under assembly. -/
theorem nextFrame_part {frames : List Frame} (live : ws.Live)
    (inOrder : InOrder assembly frame.opcode) (unmarked : frame.rsv1 = false)
    (size : (extend assembly frame).assembled.length ≤ maxPayload)
    (shape : ws.stream = wire ws.role keys (frame :: frames) ++ rest) :
    ∃ after, nextFrame.Runs ws (some frame) after ∧
      after.stream = wire after.role (fun n => keys (n + 1)) frames ++ rest ∧ Replies [] ws after ∧
      handleFrame assembly frame after = (do
        if frame.fin then
          let message ← finish (extend assembly frame)
          pure (.done message)
        else pure (.more (extend assembly frame)) : Async WsError (WebSocketStream κ) Progress)
        after := by
  have notControl := inOrder.isControl
  have small : frame.payload.length ≤ maxPayload := by
    refine Nat.le_trans ?_ size
    rw [extend, List.length_append]
    exact Nat.le_add_left _ _
  obtain ⟨after, comes, left, waits⟩ :=
    nextFrame_replies live small (by simp [notControl]) shape
  exact ⟨after, comes, left, waits, handleFrame_within ⟨by simp [unmarked], by simp [notControl]⟩ inOrder size⟩

/-- One call takes all of the fragments, and answers all of the Pings. -/
theorem recvLoop_fragments {fragments : List (List Bytes × Bytes)} (live : ws.Live)
    (plain : ws.deflate = none) (nonempty : fragments ≠ []) (inOrder : InOrder assembly opcode)
    (begun : (if opcode.isData then some opcode else assembly.opcode) = some kind)
    (isData : kind.isData = true)
    (parts : message.parts = .ok (kind, assembly.assembled ++ (fragments.map Prod.snd).flatten))
    (size : (assembly.assembled ++ (fragments.map Prod.snd).flatten).length ≤ maxPayload)
    (legal : ∀ fragment ∈ fragments, ∀ ping ∈ fragment.1, ping.length ≤ 125)
    (shape : ws.stream = wire ws.role keys (Transmission.framesFrom opcode fragments) ++ rest)
    (enough : (Transmission.framesFrom opcode fragments).length ≤ fuel) :
    ∃ after, (recvLoop fuel assembly).Runs ws (some message) after ∧ after.stream = rest ∧
      Replies (fragments.flatMap Prod.fst) ws after := by
  induction fragments generalizing ws keys opcode assembly fuel with
  | nil => exact absurd rfl nonempty
  | cons fragment fragments ih =>
      obtain ⟨pings, payload⟩ := fragment
      rw [Transmission.framesFrom] at shape enough
      simp only [List.map_cons, List.flatten_cons, ← List.append_assoc] at parts size
      simp only [List.length_append, List.length_map, List.length_cons] at enough
      obtain ⟨spare, rfl⟩ : ∃ spare, fuel = pings.length + (spare + 1) :=
        ⟨fuel - pings.length - 1, by omega⟩
      have allowed : ∀ ping ∈ pings, ping.length ≤ 125 := legal (pings, payload) (.head _)
      obtain ⟨quiet, loops, left, replies⟩ :=
        @recvLoop_pings _ ws _ _ _ assembly _ (spare + 1) _ live allowed shape
      let frame : Frame := ⟨fragments.isEmpty, false, opcode, payload⟩
      have fits : (extend assembly frame).assembled.length ≤ maxPayload := by
        rw [List.length_append] at size
        exact Nat.le_trans (Nat.le_add_right _ _) size
      obtain ⟨found, comes, behind, waits, handles⟩ :=
        @nextFrame_part _ quiet _ rest assembly _ frame _ replies.live inOrder rfl fits left
      have together := replies.trans waits
      rw [List.append_nil] at together
      have still : found.deflate = none := together.unchanged.deflate.trans plain
      cases fragments with
      | nil =>
          rw [List.map_nil, List.flatten_nil, List.append_nil] at parts
          have finishes :=
            @finish_runs _ found (extend assembly frame) _ message kind parts isData begun still
          have done : (handleFrame assembly frame).Runs found (.done (some message)) found :=
            handles.trans (finishes.bind (.pure _ _))
          refine ⟨found, loops.trans (comes.bind (done.bind (.pure _ _))), behind, ?_⟩
          · rwa [List.flatMap_cons, List.flatMap_nil, List.append_nil]
      | cons next fragments =>
          have proceeds : InOrder (extend assembly frame) .continuation := by
            refine .inr ⟨rfl, ?_⟩
            rw [show (extend assembly frame).opcode = some kind from begun]
            rfl
          obtain ⟨after, runs, stream, later⟩ := ih together.live still (List.cons_ne_nil _ _)
            proceeds begun parts size (fun fragment member => legal fragment (.tail _ member)) behind
            (show _ ≤ spare by omega)
          refine ⟨after, ?_, stream, together.trans later⟩
          rw [Async.Runs, loops, recvLoop_more comes handles]
          exact runs

end Receive

section Deliver

/-- One call returns the message, and has taken its frames out of the stream. -/
theorem recv_transmission (transmission : Transmission) (live : ws.Live) (plain : ws.deflate = none)
    (shape : ws.stream = wire ws.role keys transmission.frames ++ rest) :
    ∃ after, recv.Runs ws (some transmission.message) after ∧ after.stream = rest ∧
      Replies transmission.pings ws after := by
  have enough : transmission.frames.length ≤ ws.stream.length + 1 := by
    have count := length_le_wire ws.role keys transmission.frames
    rw [shape, List.length_append]
    omega
  obtain ⟨after, loops, stream, replies⟩ := @recvLoop_fragments _ ws _ rest ⟨none, [], false⟩ _ _
    transmission.message transmission.opcode transmission.opcode transmission.fragments live plain
    transmission.nonempty (.inl ⟨transmission.isData, rfl⟩) (if_pos transmission.isData)
    transmission.isData (by rw [List.nil_append, transmission.cut, transmission.parts])
    (by rw [List.nil_append, transmission.cut]; exact transmission.size) transmission.legal shape
    enough
  exact ⟨after, recv_of_done ((Async.Runs.get ws).bind loops), stream, replies⟩

/-- Each call returns the next message, answers the Pings up to its last fragment, and leaves the
frames behind it. -/
def Delivers (rest : Bytes) : (Nat → MaskKey) → List Transmission → WebSocketStream κ → Prop
  | _, [], ws => ws.stream = rest
  | keys, transmission :: later, ws => ∃ after, recv.Runs ws (some transmission.message) after ∧
      Replies transmission.pings ws after ∧
      after.stream = wire after.role (fun n => keys (n + transmission.frames.length))
        (later.flatMap Transmission.frames) ++ rest ∧
      Delivers rest (fun n => keys (n + transmission.frames.length)) later after

/-- However the messages are cut, and wherever Pings are put between their fragments. -/
theorem delivers_transmissions {transmissions : List Transmission} (live : ws.Live)
    (plain : ws.deflate = none)
    (shape : ws.stream = wire ws.role keys (transmissions.flatMap Transmission.frames) ++ rest) :
    Delivers rest keys transmissions ws := by
  induction transmissions generalizing ws keys with
  | nil => exact shape
  | cons transmission later ih =>
      rw [List.flatMap_cons, wire_append, List.append_assoc] at shape
      obtain ⟨after, receives, left, replies⟩ := recv_transmission transmission live plain shape
      rw [← replies.role] at left
      have still : after.deflate = none := replies.unchanged.deflate.trans plain
      exact ⟨after, receives, replies, left, ih replies.live still left⟩

/-- A letter of two bytes, one in each fragment, with an empty fragment and Pings between them. -/
def splitLetter : Transmission where
  message := .text ['é']
  opcode := .text
  payload := [0xC3, 0xA9]
  parts := by decide
  isData := rfl
  size := by decide
  fragments := [([[1]], [0xC3]), ([], []), ([[2], [3]], [0xA9])]
  nonempty := by decide
  cut := rfl
  legal := by decide

theorem delivers_splitLetter :
    Delivers [0x89] (fun _ => ⟨0, 0, 0, 0⟩) [splitLetter, splitLetter]
      (received (wire .client (fun _ => ⟨0, 0, 0, 0⟩)
        (splitLetter.frames ++ splitLetter.frames) ++ [0x89])) :=
  @delivers_transmissions _ (received _) _ [0x89] _ [splitLetter, splitLetter]
    (received_live (by simp)) rfl (by decide +kernel)

end Deliver

end WebSocketStream

end TptAsync.Ws
