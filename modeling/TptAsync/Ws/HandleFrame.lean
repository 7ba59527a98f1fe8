import TptAsync.Ws.Calls

set_option autoImplicit false

/-!
# What a frame does

A frame that is well formed, and in its place, comes to what its opcode says.
-/

namespace TptAsync.Ws

open Lib Http

theorem checkControl_ok {payload : Bytes} (small : payload.length ≤ 125) :
    checkControl payload = .ok () := if_neg (Nat.not_lt.mpr small)

theorem pong_parts {payload : Bytes} (small : payload.length ≤ 125) :
    (Message.pong payload).parts = .ok (.pong, payload) := by
  rw [Message.parts, checkControl_ok small]
  rfl

theorem close_parts {info : Option (UInt16 × List Char)} (small : (closePayload info).length ≤ 125) :
    (Message.close info).parts = .ok (.close, closePayload info) := by
  rw [Message.parts, checkControl_ok small]
  rfl

theorem length_closePayload (code : UInt16) : (closePayload (some (code, []))).length ≤ 125 := by
  simp [closePayload, Text.toUtf8]

theorem isControl_of_isData {opcode : Opcode} (isData : opcode.isData = true) : opcode.isControl = false := by
  cases opcode with
  | text | binary => rfl
  | continuation | close | ping | pong => cases isData

namespace WebSocketStream

variable {κ : Type} {ws middle after : WebSocketStream κ} {assembly : Assembly} {frame : Frame}
  {progress : Progress}

/-- RSV1 only where it was agreed on, and no control frame in fragments. -/
structure WellFormed (deflated : Bool) (frame : Frame) : Prop where
  rsv1 : frame.rsv1 = true → deflated = true
  whole : frame.opcode.isControl = true → frame.fin = true

theorem wellFormed_whole (deflated : Bool) (opcode : Opcode) (payload : Bytes) :
    WellFormed deflated (.whole opcode payload) :=
  ⟨fun marked => Bool.noConfusion marked, fun _ => rfl⟩

/-- A first frame with no message begun, or a continuation of one. -/
def InOrder (assembly : Assembly) (opcode : Opcode) : Prop :=
  opcode.isData = true ∧ assembly.opcode = none ∨
    opcode = .continuation ∧ assembly.opcode.isSome = true

theorem InOrder.isControl {opcode : Opcode} (inOrder : InOrder assembly opcode) : opcode.isControl = false := by
  obtain ⟨isData, _⟩ | ⟨rfl, _⟩ := inOrder
  · exact isControl_of_isData isData
  · rfl

/-- The message under assembly with one more fragment. -/
def extend (assembly : Assembly) (frame : Frame) : Assembly where
  opcode := if frame.opcode.isData then some frame.opcode else assembly.opcode
  assembled := assembly.assembled ++ frame.payload
  compressed := assembly.compressed || (frame.rsv1 && frame.opcode.isData)

variable [DeflateCodec κ]

/-- What a call of `recv` does with the frame that it has found. -/
def receive (fuel : Nat) (assembly : Assembly) (found : Option Frame) :
    Async WsError (WebSocketStream κ) (Option Message) := do
  match found with
  | none => pure none
  | some frame =>
      match ← handleFrame assembly frame with
      | .done message => pure message
      | .more assembly => recvLoop fuel assembly

theorem recvLoop_succ (fuel : Nat) (assembly : Assembly) :
    (recvLoop (fuel + 1) assembly : Async WsError (WebSocketStream κ) _) =
      nextFrame >>= receive fuel assembly := rfl

theorem recvLoop_more {fuel : Nat} {next : Assembly}
    (comes : nextFrame.Runs ws (some frame) middle)
    (handles : (handleFrame assembly frame).Runs middle (.more next) after) :
    recvLoop (fuel + 1) assembly ws = recvLoop fuel next after := by
  rw [recvLoop, comes.bind_eq]
  exact handles.bind_eq

theorem receive_behaves (fuel : Nat) (assembly : Assembly) (found : Option Frame) :
    Async.Moves Behaves Behaves (receive fuel assembly found : Async _ (WebSocketStream κ) _) := by
  cases found with
  | none => exact .pure _
  | some frame =>
      refine .bind (handleFrame_behaves _ _) fun progress => ?_
      cases progress with
      | done message => exact .pure _
      | more assembly => exact recvLoop_behaves fuel assembly

theorem handleFrame_wellFormed (wellFormed : WellFormed ws.deflate.isSome frame) :
    handleFrame assembly frame ws =
      (match frame.opcode with
        | .ping => do
            send (.pong frame.payload)
            pure (.more assembly)
        | .pong => pure (.done (some (.pong frame.payload)))
        | .close => do
            let message ← handleClose frame.payload
            pure (.done message)
        | .text | .binary =>
            if assembly.opcode.isSome then
              Async.fail (.protocol "new data frame during fragmented message")
            else addPayload { assembly with
              opcode := some frame.opcode, compressed := assembly.compressed || frame.rsv1 } frame
        | .continuation =>
            if assembly.opcode.isNone then Async.fail (.protocol "continuation without initial frame")
            else addPayload assembly frame : Async WsError (WebSocketStream κ) Progress) ws := by
  obtain ⟨rsv1, whole⟩ := wellFormed
  have agreed : ¬ (frame.rsv1 = true ∧ ws.deflate.isNone = true) := by
    cases codec : ws.deflate <;> simp_all
  have notPart : ¬ ((!frame.fin) = true ∧ frame.opcode.isControl = true) := by
    cases fin : frame.fin <;> simp_all
  rw [handleFrame, (Async.Runs.get ws).bind_eq, if_neg agreed, if_neg notPart]
  cases frame.opcode <;> simp [Opcode.isData]

theorem handleFrame_close {payload : Bytes} {message : Option Message} (assembly : Assembly)
    (closes : (handleClose payload).Runs ws message after) :
    (handleFrame assembly (.whole .close payload)).Runs ws (.done message) after :=
  (handleFrame_wellFormed (wellFormed_whole _ .close payload)).trans (closes.bind (.pure _ _))

theorem wellFormed_of_runs (runs : (handleFrame assembly frame).Runs ws progress after) :
    WellFormed ws.deflate.isSome frame := by
  rw [Async.Runs, handleFrame, (Async.Runs.get ws).bind_eq] at runs
  split at runs
  · cases runs
  · next agreed =>
      split at runs
      · cases runs
      · next notPart =>
        refine ⟨?_, ?_⟩
        · cases codec : ws.deflate <;> simp_all
        · cases fin : frame.fin <;> simp_all

/-- A fragment in its place is added to the message. -/
theorem handleFrame_part (wellFormed : WellFormed ws.deflate.isSome frame)
    (inOrder : InOrder assembly frame.opcode) :
    handleFrame assembly frame ws = (do
      Async.ofExcept (checkSize (extend assembly frame).assembled)
      if frame.fin then
        let message ← finish (extend assembly frame)
        pure (.done message)
      else pure (.more (extend assembly frame)) : Async WsError (WebSocketStream κ) Progress) ws := by
  rw [handleFrame_wellFormed wellFormed]
  obtain ⟨fin, rsv1, opcode, payload⟩ := frame
  obtain ⟨isData, idle⟩ | ⟨rfl, begun⟩ := inOrder
  · cases opcode with
    | text | binary =>
        simp only [idle, Option.isSome_none, Bool.false_eq_true, if_false]
        simp only [addPayload, extend, Opcode.isData, Bool.and_true, if_true]
    | continuation | close | ping | pong => cases isData
  · have some : assembly.opcode.isNone = false := by simpa using begun
    simp only [some, Bool.false_eq_true, if_false]
    simp only [addPayload, extend, Opcode.isData, Bool.and_false, Bool.or_false, Bool.false_eq_true,
      if_false]

/-- With a fragment in its place the message stays within the limit. -/
theorem handleFrame_within (wellFormed : WellFormed ws.deflate.isSome frame)
    (inOrder : InOrder assembly frame.opcode) (size : (extend assembly frame).assembled.length ≤ maxPayload) :
    handleFrame assembly frame ws = (do
      if frame.fin then
        let message ← finish (extend assembly frame)
        pure (.done message)
      else pure (.more (extend assembly frame)) : Async WsError (WebSocketStream κ) Progress) ws := by
  have checked : checkSize (extend assembly frame).assembled = .ok () := if_neg (Nat.not_lt.mpr size)
  rw [handleFrame_part wellFormed inOrder, checked]
  exact (Async.Runs.ofExcept ws ()).bind_eq

theorem handleFrame_large (wellFormed : WellFormed ws.deflate.isSome frame)
    (inOrder : InOrder assembly frame.opcode) (large : maxPayload < (extend assembly frame).assembled.length) :
    handleFrame assembly frame ws = (.failed (.protocol "message exceeds 16 MiB limit"), ws) := by
  rw [handleFrame_part wellFormed inOrder, checkSize, if_pos large]
  rfl

/-- A fragment in its place that is not the last one leaves the message open. -/
theorem handleFrame_more (wellFormed : WellFormed ws.deflate.isSome frame)
    (inOrder : InOrder assembly frame.opcode) (part : frame.fin = false)
    (size : (extend assembly frame).assembled.length ≤ maxPayload) :
    (handleFrame assembly frame).Runs ws (.more (extend assembly frame)) ws := by
  rw [Async.Runs, handleFrame_within wellFormed inOrder size, part, if_neg Bool.false_ne_true]
  rfl

theorem inOrder_of_runs (notControl : frame.opcode.isControl = false)
    (runs : (handleFrame assembly frame).Runs ws progress after) : InOrder assembly frame.opcode := by
  rw [Async.Runs, handleFrame_wellFormed (wellFormed_of_runs runs)] at runs
  cases opcode : frame.opcode with
  | text | binary =>
      cases begun : assembly.opcode with
      | none => exact .inl ⟨rfl, begun⟩
      | some first =>
          rw [opcode] at runs
          simp only [begun, Option.isSome_some, if_true] at runs
          cases runs
  | continuation =>
      cases begun : assembly.opcode with
      | none =>
          rw [opcode] at runs
          simp only [begun, Option.isNone_none, if_true] at runs
          cases runs
      | some first => exact .inr ⟨rfl, by rw [begun]; rfl⟩
  | close | ping | pong =>
      rw [opcode] at notControl
      cases notControl

/-- A message that is finished is a text or a binary one. -/
theorem finish_isSome {message : Option Message} (runs : (finish assembly).Runs ws message after) :
    message.isSome = true := by
  obtain ⟨assembled, middle, _, runs⟩ := Async.Runs.of_bind runs
  split at runs
  · split at runs
    · cases runs
      rfl
    · cases runs
  · cases runs
    rfl
  · cases runs

/-- A Close that is not the first of the two is not echoed. -/
theorem handleClose_second {payload : Bytes} {info : Option (UInt16 × List Char)}
    (parses : parseClose payload = .ok info) (closed : ws.closeSent = true) :
    (handleClose payload).Runs ws none { ws with closeReceived := true } := by
  rw [Async.Runs, handleClose, parses, (Async.Runs.ofExcept ws info).bind_eq,
    (Async.Runs.get ws).bind_eq]
  dsimp only
  rw [if_pos closed]
  exact (Async.Runs.modify _ ws).bind_eq

theorem handleClose_first {payload : Bytes} {info : Option (UInt16 × List Char)}
    (parses : parseClose payload = .ok info) (opened : ws.closeSent = false)
    (sends : (send (.close info)).Runs ws () after) :
    (handleClose payload).Runs ws none { after with closeReceived := true } := by
  rw [Async.Runs, handleClose, parses, (Async.Runs.ofExcept ws info).bind_eq,
    (Async.Runs.get ws).bind_eq]
  dsimp only
  rw [if_neg (Bool.eq_false_iff.mp opened), sends.bind_eq]
  exact (Async.Runs.modify _ after).bind_eq

theorem handleClose_valid {payload : Bytes} {message : Option Message}
    (runs : (handleClose payload).Runs ws message after) :
    ∃ info, parseClose payload = .ok info ∧ message = none := by
  obtain ⟨info, _, parses, rest⟩ := Async.Runs.of_bind runs
  obtain ⟨valid, rfl⟩ := parses.of_ofExcept
  refine ⟨info, valid, ?_⟩
  obtain ⟨_, _, state, rest⟩ := rest.of_bind
  cases state
  dsimp only at rest
  split at rest
  · cases rest
    rfl
  · obtain ⟨_, _, _, rest⟩ := rest.of_bind
    cases rest
    rfl

theorem checkSize_le {bytes : Bytes} (checked : checkSize bytes = .ok ()) : bytes.length ≤ maxPayload := by
  unfold checkSize at checked
  split at checked
  · cases checked
  · next within => exact Nat.not_lt.mp within

/-- What an accepted frame comes to. -/
inductive Accepted (assembly : Assembly) (frame : Frame) (ws : WebSocketStream κ) :
    Progress → WebSocketStream κ → Prop where
  | ping {after : WebSocketStream κ} (isPing : frame.opcode = .ping)
      (sends : (send (.pong frame.payload)).Runs ws () after) : Accepted assembly frame ws (.more assembly) after
  | pong (isPong : frame.opcode = .pong) : Accepted assembly frame ws (.done (some (.pong frame.payload))) ws
  | close {info : Option (UInt16 × List Char)} {after : WebSocketStream κ} (isClose : frame.opcode = .close)
      (valid : parseClose frame.payload = .ok info) (closes : (handleClose frame.payload).Runs ws none after) :
      Accepted assembly frame ws (.done none) after
  | part (inOrder : InOrder assembly frame.opcode) (size : (extend assembly frame).assembled.length ≤ maxPayload)
      (part : frame.fin = false) : Accepted assembly frame ws (.more (extend assembly frame)) ws
  | last {message : Message} {after : WebSocketStream κ} (inOrder : InOrder assembly frame.opcode)
      (size : (extend assembly frame).assembled.length ≤ maxPayload)
      (finishes : (finish (extend assembly frame)).Runs ws (some message) after) :
      Accepted assembly frame ws (.done (some message)) after

theorem accepted_of_runs (runs : (handleFrame assembly frame).Runs ws progress after) :
    Accepted assembly frame ws progress after := by
  have wellFormed := wellFormed_of_runs runs
  cases control : frame.opcode.isControl with
  | true =>
      rw [Async.Runs, handleFrame_wellFormed wellFormed] at runs
      cases opcode : frame.opcode with
      | ping =>
          rw [opcode] at runs
          obtain ⟨_, _, sends, rest⟩ := Async.Runs.of_bind runs
          cases rest
          exact .ping opcode sends
      | pong =>
          rw [opcode] at runs
          cases runs
          exact .pong opcode
      | close =>
          rw [opcode] at runs
          obtain ⟨_, _, closes, rest⟩ := Async.Runs.of_bind runs
          obtain ⟨info, valid, rfl⟩ := handleClose_valid closes
          cases rest
          exact .close opcode valid closes
      | text | binary | continuation =>
          rw [opcode] at control
          cases control
  | false =>
      have inOrder := inOrder_of_runs control runs
      rw [Async.Runs, handleFrame_part wellFormed inOrder] at runs
      obtain ⟨_, _, checks, rest⟩ := Async.Runs.of_bind runs
      obtain ⟨checked, rfl⟩ := checks.of_ofExcept
      split at rest
      · obtain ⟨_, _, finishes, rest⟩ := rest.of_bind
        cases rest
        obtain ⟨message, rfl⟩ := Option.isSome_iff_exists.mp (finish_isSome finishes)
        exact .last inOrder (checkSize_le checked) finishes
      · next part =>
          cases rest
          exact .part inOrder (checkSize_le checked) (Bool.eq_false_iff.mpr part)

theorem recv_of_done {message : Option Message}
    (receives : recvMessage.Runs ws message after) : recv.Runs ws message after :=
  receives.attempt.bind (.pure _ _)

theorem failConnection_fails (reason : String) (ws : WebSocketStream κ) :
    (failConnection reason ws).1 = .failed (.protocol reason) := by
  let code : UInt16 := if reason = invalidUtf8 then 1007 else 1002
  obtain ⟨masks, key, sends⟩ :=
    @send_runs _ ws _ _ _ _ (close_parts (length_closePayload code)) nofun
  rw [failConnection, (Async.Runs.get ws).bind_eq]
  split
  · rfl
  · rw [sends.attempt.bind_eq]
    rfl

theorem recv_violation {reason : String}
    (fails : recvMessage ws = (.failed (.protocol reason), after)) :
    (recv ws).1 = .failed (.protocol reason) := by
  rw [recv, (Async.Runs.attempt_failed fails).bind_eq]
  exact failConnection_fails _ after

theorem recvMessage_of_recv {message : Option Message} (runs : recv.Runs ws message after) :
    recvMessage.Runs ws message after := by
  obtain ⟨result, middle, attempts, rest⟩ := Async.Runs.of_bind runs
  cases result with
  | ok found =>
      cases rest
      exact attempts.of_attempt_ok
  | error error =>
      cases error with
      | protocol reason =>
          have fails := failConnection_fails reason middle
          rw [show failConnection reason middle = _ from rest] at fails
          cases fails
      | io | connectionClosed | handshake | timedOut => cases rest

theorem recvMessage_of_pending (waits : recv ws = (.pending, after)) :
    recvMessage ws = (.pending, after) := by
  cases ends : recvMessage ws with
  | mk outcome middle =>
      cases outcome with
      | ready message => cases waits.symm.trans (recv_of_done ends)
      | pending =>
          have same : recv ws = (.pending, middle) :=
            Async.bind_pending (by rw [Async.attempt, ends])
          exact same.symm.trans waits
      | failed error =>
          cases error with
          | protocol reason =>
              have fails := recv_violation ends
              rw [waits] at fails
              cases fails
          | io | connectionClosed | handshake | timedOut =>
              rw [recv, (Async.Runs.attempt_failed ends).bind_eq] at waits
              cases waits

end WebSocketStream

end TptAsync.Ws
