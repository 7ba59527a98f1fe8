import TptAsync.Ws.HandleFrame

set_option autoImplicit false

/-!
# Fragmented messages

A message in fragments, and a Pong that arrives between two of them.
-/

namespace TptAsync.Ws

open Lib Http

/-- A data message in two or more fragments, split in front of `next`. -/
structure FragmentedMessage where
  opcode : Opcode
  isData : opcode.isData = true
  compressed : Bool
  first : Bytes
  before : List Bytes
  next : Bytes
  after : List Bytes
  size : (first ++ before.flatten ++ next ++ after.flatten).length ≤ maxPayload
  valid : opcode = .text → compressed = false →
    (Text.fromUtf8 (first ++ before.flatten ++ next ++ after.flatten)).isSome = true

namespace FragmentedMessage

/-- The frames in front of the split. -/
def frontFrames (message : FragmentedMessage) : List Frame :=
  ⟨false, message.compressed, message.opcode, message.first⟩ ::
    message.before.map fun payload => ⟨false, false, .continuation, payload⟩

/-- The frames behind the split, of which the last one is final. -/
def backFrames (message : FragmentedMessage) : List Frame :=
  lastFrames message.next message.after
where
  lastFrames (payload : Bytes) : List Bytes → List Frame
    | [] => [⟨true, false, .continuation, payload⟩]
    | next :: rest => ⟨false, false, .continuation, payload⟩ :: lastFrames next rest

def pongFrame (payload : Bytes) : Frame := ⟨true, false, .pong, payload⟩

end FragmentedMessage

namespace WebSocketStream

variable {κ : Type} [DeflateCodec κ]

/-- What successive calls of `recv` return. -/
def deliveries : Nat → WebSocketStream κ → List (Outcome WsError (Option Message))
  | 0, _ => []
  | calls + 1, ws => (recv ws).1 :: deliveries calls (recv ws).2

/-- The data messages among the results. -/
def dataMessages (results : List (Outcome WsError (Option Message))) : List Message :=
  results.filterMap fun
    | .ready (some (.text string)) => some (.text string)
    | .ready (some (.binary bytes)) => some (.binary bytes)
    | _ => none

/-- The Pong costs one more call and nothing else: the data messages are the same, and
neither the call that returns the Pong nor the next one finds a violation. -/
structure PongTransparent (plain inserted : WebSocketStream κ) : Prop where
  data : ∀ calls, dataMessages (deliveries (calls + 1) inserted) = dataMessages (deliveries calls plain)
  noViolation : ∀ reason, .failed (.protocol reason) ∉ deliveries 2 inserted

/-- Two streams with the same fragmented message, and a Pong at the split of the second one. -/
structure PongInsertion (plain inserted : WebSocketStream κ) where
  message : FragmentedMessage
  pong : Bytes
  legal : pong.length ≤ 125
  keys : Nat → MaskKey
  pongKey : MaskKey
  later : Bytes
  plainLive : plain.Live
  insertedLive : inserted.Live
  role : inserted.role = plain.role
  deflate : inserted.deflate = plain.deflate
  negotiated : message.compressed = true → plain.deflate.isSome = true
  plainStream : plain.stream =
    wire plain.role keys (message.frontFrames ++ message.backFrames) ++ later
  insertedStream : inserted.stream = wire plain.role keys message.frontFrames ++
    (encode (FragmentedMessage.pongFrame pong) (peerMask plain.role pongKey) ++
      (wire plain.role (fun n => keys (n + message.frontFrames.length)) message.backFrames ++ later))

section HandleFrame

variable {ws middle after : WebSocketStream κ} {assembly next : Assembly} {payload : Bytes}

theorem handleFrame_first {opcode : Opcode} {compressed : Bool} (isData : opcode.isData = true)
    (negotiated : compressed = true → ws.deflate.isSome = true) (size : payload.length ≤ maxPayload) :
    (handleFrame ⟨none, [], false⟩ ⟨false, compressed, opcode, payload⟩).Runs ws
      (.more ⟨some opcode, payload, compressed⟩) ws := by
  have extended : extend ⟨none, [], false⟩ ⟨false, compressed, opcode, payload⟩ =
      ⟨some opcode, payload, compressed⟩ := by
    simp [extend, isData]
  rw [← extended]
  apply handleFrame_more
  case wellFormed => exact ⟨negotiated, fun control => absurd ((isControl_of_isData isData).symm.trans control) Bool.false_ne_true⟩
  case inOrder => exact .inl ⟨isData, rfl⟩
  case part => rfl
  case size => exact extended ▸ size

theorem handleFrame_continuation {opcode : Opcode} {compressed : Bool} {assembled : Bytes}
    (size : (assembled ++ payload).length ≤ maxPayload) :
    (handleFrame ⟨some opcode, assembled, compressed⟩ ⟨false, false, .continuation, payload⟩).Runs ws
      (.more ⟨some opcode, assembled ++ payload, compressed⟩) ws := by
  have extended : extend ⟨some opcode, assembled, compressed⟩ ⟨false, false, .continuation, payload⟩ =
      ⟨some opcode, assembled ++ payload, compressed⟩ := by
    simp [extend, Opcode.isData]
  rw [← extended]
  apply handleFrame_more
  case wellFormed => exact ⟨fun marked => Bool.noConfusion marked, fun control => Bool.noConfusion control⟩
  case inOrder => exact .inr ⟨rfl, rfl⟩
  case part => rfl
  case size => exact extended ▸ size

theorem handleFrame_pong (payload : Bytes) :
    (handleFrame assembly (FragmentedMessage.pongFrame payload)).Runs ws
      (.done (some (.pong payload))) ws := by
  refine (Async.Runs.get ws).bind ?_
  simp only [FragmentedMessage.pongFrame, Bool.false_eq_true, false_and, if_false, Bool.not_true]
  exact .pure _ _

/-- A continuation frame without a message under assembly is a violation. -/
theorem handleFrame_orphan (fin : Bool) (payload : Bytes) :
    handleFrame ⟨none, [], false⟩ ⟨fin, false, .continuation, payload⟩ ws =
      (.failed (.protocol "continuation without initial frame"), ws) := by
  cases fin <;> rfl

end HandleFrame

section Front

variable {ws : WebSocketStream κ} {rest : Bytes}

theorem recvLoop_continuations {fuel : Nat} {keys : Nat → MaskKey} {opcode : Opcode}
    {compressed : Bool} {assembled : Bytes} {payloads : List Bytes} (live : ws.Live)
    (size : (assembled ++ payloads.flatten).length ≤ maxPayload)
    (shape : ws.stream = wire ws.role keys
      (payloads.map fun payload => ⟨false, false, .continuation, payload⟩) ++ rest) :
    ∃ after, after.stream = rest ∧ Continues ws after ∧
      recvLoop (payloads.length + fuel) ⟨some opcode, assembled, compressed⟩ ws =
        recvLoop fuel ⟨some opcode, assembled ++ payloads.flatten, compressed⟩ after := by
  induction payloads generalizing ws keys assembled with
  | nil => exact ⟨ws, shape, .refl live, by simp⟩
  | cons payload payloads ih =>
      rw [List.map_cons, wire, List.append_assoc] at shape
      simp only [List.flatten_cons, List.length_append] at size
      obtain ⟨middle, comes, streamLeft, continues⟩ := nextFrame_runs live
        (acceptable_peerMask (by simp only; omega) (by simp [Opcode.isControl])) shape
      obtain ⟨after, streamAfter, further, loops⟩ := @ih _ _ (assembled ++ payload)
        continues.live (by simp only [List.length_append]; omega) (continues.role ▸ streamLeft)
      refine ⟨after, streamAfter, continues.trans further, ?_⟩
      rw [List.length_cons, Nat.succ_add, recvLoop_more comes
        (handleFrame_continuation (by simp only [List.length_append]; omega)), loops,
        List.flatten_cons, List.append_assoc]

/-- The fragments in front of the split are assembled. -/
theorem recvLoop_frontFrames {fuel : Nat} {keys : Nat → MaskKey} (message : FragmentedMessage)
    (live : ws.Live) (negotiated : message.compressed = true → ws.deflate.isSome = true)
    (shape : ws.stream = wire ws.role keys message.frontFrames ++ rest) :
    ∃ after, after.stream = rest ∧ Continues ws after ∧
      recvLoop (message.frontFrames.length + fuel) ⟨none, [], false⟩ ws =
        recvLoop fuel ⟨some message.opcode, message.first ++ message.before.flatten, message.compressed⟩
          after := by
  have size := message.size
  simp only [List.length_append] at size
  rw [FragmentedMessage.frontFrames, wire, List.append_assoc] at shape
  have notControl := isControl_of_isData message.isData
  obtain ⟨middle, comes, streamLeft, continues⟩ := nextFrame_runs live
    (acceptable_peerMask (by simp only; omega) (by simp [notControl])) shape
  obtain ⟨after, streamAfter, further, loops⟩ := @recvLoop_continuations _ _ _ _ _ _ _ _ message.first _
    continues.live (by simp only [List.length_append]; omega) (continues.role ▸ streamLeft)
  refine ⟨after, streamAfter, continues.trans further, ?_⟩
  rw [FragmentedMessage.frontFrames, List.length_cons, List.length_map, Nat.succ_add,
    recvLoop_more comes (handleFrame_first message.isData (continues.deflate ▸ negotiated) (by omega)),
    loops]

end Front

section Pong

variable {plain inserted : WebSocketStream κ}

/-- The first call returns the Pong, and forgets the fragments in front of it. -/
theorem PongInsertion.recv_pong (insertion : PongInsertion plain inserted) :
    ∃ after, recv.Runs inserted (some (.pong insertion.pong)) after ∧ Continues inserted after ∧
      after.stream = wire plain.role (fun n => insertion.keys (n + insertion.message.frontFrames.length))
        insertion.message.backFrames ++ insertion.later := by
  have shape := insertion.insertedStream
  rw [← insertion.role] at shape
  have count := length_le_wire inserted.role insertion.keys insertion.message.frontFrames
  obtain ⟨fuel, enough⟩ : ∃ fuel,
      inserted.stream.length + 1 = insertion.message.frontFrames.length + (fuel + 1) := by
    refine ⟨inserted.stream.length - insertion.message.frontFrames.length, ?_⟩
    rw [shape, List.length_append]
    omega
  obtain ⟨middle, streamLeft, continues, loops⟩ := recvLoop_frontFrames
    insertion.message insertion.insertedLive (insertion.deflate ▸ insertion.negotiated) shape
  rw [← continues.role] at streamLeft
  have legal := insertion.legal
  obtain ⟨after, comes, streamAfter, further⟩ := nextFrame_runs continues.live
    (acceptable_peerMask
      (by simp only [FragmentedMessage.pongFrame]; exact legal.trans (by decide))
      (by simp [FragmentedMessage.pongFrame, legal])) streamLeft
  refine ⟨after, recv_of_done ((Async.Runs.get inserted).bind ?_), continues.trans further, ?_⟩
  · rw [enough, Async.Runs, loops]
    exact comes.bind ((handleFrame_pong _).bind (.pure _ _))
  · rw [streamAfter, continues.role, insertion.role]

/-- A fragment that a call starts with is a violation. -/
theorem recv_orphan {ws : WebSocketStream κ} {fin : Bool} {payload rest : Bytes} {key : MaskKey}
    (live : ws.Live) (size : payload.length ≤ maxPayload)
    (shape : ws.stream = encode ⟨fin, false, .continuation, payload⟩ (peerMask ws.role key) ++ rest) :
    (recv ws).1 = .failed (.protocol "continuation without initial frame") := by
  obtain ⟨middle, comes, _, _⟩ := nextFrame_runs live
    (acceptable_peerMask size (by simp [Opcode.isControl])) shape
  have fails : recvMessage ws =
      (.failed (.protocol "continuation without initial frame"), middle) := by
    rw [recvMessage, (Async.Runs.get ws).bind_eq, recvLoop, comes.bind_eq]
    exact Async.bind_failed (handleFrame_orphan fin payload)
  exact recv_violation fails

theorem backFrames_eq (message : FragmentedMessage) :
    ∃ fin frames, message.backFrames = ⟨fin, false, .continuation, message.next⟩ :: frames := by
  cases message with
  | mk opcode isData compressed first before next after size valid =>
      cases after with
      | nil => exact ⟨_, _, rfl⟩
      | cons payload rest => exact ⟨_, _, rfl⟩

end Pong

/-- Whatever the message and the split, the Pong makes the next call fail. -/
theorem not_pongTransparent {plain inserted : WebSocketStream κ}
    (insertion : PongInsertion plain inserted) :
    deliveries 2 inserted = [.ready (some (.pong insertion.pong)),
        .failed (.protocol "continuation without initial frame")] ∧
      ¬ PongTransparent plain inserted := by
  obtain ⟨after, receives, continues, shape⟩ := insertion.recv_pong
  obtain ⟨fin, frames, back⟩ := backFrames_eq insertion.message
  have size := insertion.message.size
  simp only [List.length_append] at size
  rw [back, wire, List.append_assoc, ← insertion.role, ← continues.role] at shape
  have fails := recv_orphan continues.live (by omega) shape
  have results : deliveries 2 inserted = [.ready (some (.pong insertion.pong)),
      .failed (.protocol "continuation without initial frame")] := by
    rw [deliveries, show recv inserted = _ from receives, deliveries, fails, deliveries]
  refine ⟨results, fun transparent => ?_⟩
  refine transparent.noViolation "continuation without initial frame" ?_
  rw [results]
  exact .tail _ (.head _)

section Example

/-- A client that has received some bytes. -/
def received (bytes : Bytes) : WebSocketStream Empty :=
  fromConn (HttpConnection.new ⟨[bytes], .pending, []⟩) .client (fun _ => ⟨0, 0, 0, 0⟩) fun _ _ => false

theorem received_live {bytes : Bytes} (nonempty : bytes ≠ []) : (received bytes).Live :=
  ⟨⟨by simpa [received, fromConn, HttpConnection.new] using nonempty, rfl⟩, nofun, nofun⟩

def twoFragments : FragmentedMessage := ⟨.binary, rfl, false, [1], [], [2], [], by decide, nofun⟩

theorem not_pongTransparent_twoFragments :
    ¬ PongTransparent (received [0x02, 1, 1, 0x80, 1, 2]) (received [0x02, 1, 1, 0x8A, 0, 0x80, 1, 2]) :=
  (@not_pongTransparent _ _ (received [0x02, 1, 1, 0x80, 1, 2])
      (received [0x02, 1, 1, 0x8A, 0, 0x80, 1, 2]) {
    message := twoFragments
    pong := []
    legal := by decide
    keys := fun _ => ⟨0, 0, 0, 0⟩
    pongKey := ⟨0, 0, 0, 0⟩
    later := []
    plainLive := received_live (by decide)
    insertedLive := received_live (by decide)
    role := rfl
    deflate := rfl
    negotiated := nofun
    plainStream := by decide +kernel
    insertedStream := by decide +kernel }).2

/-- The binary message `1, 2` in two fragments: with a Pong between them the message is lost. -/
theorem pong_between_fragments :
    deliveries 1 (received [0x02, 1, 1, 0x80, 1, 2]) = [.ready (some (.binary [1, 2]))] ∧
      deliveries 2 (received [0x02, 1, 1, 0x8A, 0, 0x80, 1, 2]) = [.ready (some (.pong [])),
        .failed (.protocol "continuation without initial frame")] ∧
      ¬ PongTransparent (received [0x02, 1, 1, 0x80, 1, 2]) (received [0x02, 1, 1, 0x8A, 0, 0x80, 1, 2]) := by
  have results : deliveries 2 (received [0x02, 1, 1, 0x8A, 0, 0x80, 1, 2]) = [.ready (some (.pong [])),
      .failed (.protocol "continuation without initial frame")] := by decide +kernel
  refine ⟨by decide +kernel, results, fun transparent => ?_⟩
  refine transparent.noViolation "continuation without initial frame" ?_
  rw [results]
  exact .tail _ (.head _)

end Example

end WebSocketStream

end TptAsync.Ws
