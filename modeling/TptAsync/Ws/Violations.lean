import TptAsync.Ws.HandshakeProperties
import TptAsync.Ws.Receiver

set_option autoImplicit false

/-!
# How violations are answered

The ways in which a turn of a call fails, and what it writes before. The code of a Close is
chosen by the text of an error: it is the one for invalid UTF-8 just where a text, or the reason
of a Close, is not UTF-8.
-/

namespace TptAsync.Ws

open Lib Http

/-- An error for a violation that has nothing to do with UTF-8. -/
def Unrelated (error : WsError) : Prop := ∃ reason, error = .protocol reason ∧ reason ≠ invalidUtf8

section Codecs

variable {γ δ : Type}

/-- A codec that fails on streams that are not valid, or too long. -/
class ViolatedCodec (κ : Type) [DeflateCodec κ] : Prop where
  unrelated : ∀ {data : Bytes} {limit : Nat} {codec after : κ} {error : WsError},
    DeflateCodec.decompress data limit codec = (.failed error, after) → Unrelated error

variable [Inflate δ]

theorem decompressVec_fails {input : Bytes} {spare : Nat} {codec after : Codec δ} {error : WsError}
    (fails : Codec.decompressVec input spare codec = (.failed error, after)) : Unrelated error := by
  unfold Codec.decompressVec at fails
  split at fails
  · cases fails
  · cases fails
    exact ⟨_, rfl, by decide⟩

theorem decompressLoop_fails {input out : Bytes} {start limit rounds capacity consumed : Nat}
    {codec after : Codec δ} {error : WsError}
    (fails : Codec.decompressLoop input start limit rounds capacity consumed out codec =
      (.failed error, after)) : Unrelated error := by
  induction rounds generalizing capacity consumed out codec with
  | zero => cases fails
  | succ rounds ih =>
      rw [Codec.decompressLoop] at fails
      obtain ⟨⟨status, appended⟩, middle, _, fails⟩ | ⟨_, cannot⟩ | ⟨_, first, same⟩ :=
        Async.bind_ends fails
      · dsimp only at fails
        rw [(Async.Runs.get middle).bind_eq] at fails
        split at fails
        · cases fails
          exact ⟨_, rfl, by decide⟩
        · split at fails
          · cases fails
          · split at fails
            · cases fails
              exact ⟨_, rfl, by decide⟩
            · exact ih fails
      · cases cannot
      · cases same
        exact decompressVec_fails first

theorem FullCodec.decompress_fails {rounds limit : Nat} {data : Bytes} {codec after : FullCodec γ δ}
    {error : WsError} (fails : FullCodec.decompress rounds data limit codec = (.failed error, after)) :
    Unrelated error := by
  unfold FullCodec.decompress at fails
  obtain ⟨half, decompresses, _⟩ := Async.zoom_ends fails
  rw [Codec.decompress, (Async.Runs.get _).bind_eq] at decompresses
  obtain ⟨_, _, _, rest⟩ | ⟨_, cannot⟩ | ⟨_, first, same⟩ := Async.bind_ends decompresses
  · cases rest
  · cases cannot
  · cases same
    exact decompressLoop_fails first

instance [Rounds] [Deflate γ] : ViolatedCodec (FullCodec γ δ) := ⟨FullCodec.decompress_fails⟩

end Codecs

section Frames

variable {buf : Bytes} {role : Role} {error : WsError}

theorem fromU8_unrelated {code : UInt8} (fails : Opcode.fromU8 code = .error error) : Unrelated error := by
  unfold Opcode.fromU8 at fails
  split at fails <;> cases fails
  exact ⟨_, rfl, by decide⟩

theorem decodeLength_unrelated {len7 : Nat} (fails : decodeLength buf len7 = .error error) :
    Unrelated error := by
  unfold decodeLength at fails
  split at fails
  · split at fails <;> cases fails
  · split at fails
    · split at fails
      · cases fails
      · dsimp only at fails
        split at fails <;> cases fails
        exact ⟨_, rfl, by decide⟩
    · cases fails

theorem checkMasking_unrelated {masked : Bool} (fails : checkMasking role masked = .error error) :
    Unrelated error := by
  unfold checkMasking at fails
  split at fails <;> cases fails
  · exact ⟨_, rfl, by decide⟩
  · exact ⟨_, rfl, by decide⟩

theorem decodePayload_unrelated {fin rsv1 masked : Bool} {opcode : Opcode} {payloadLen pos : Nat}
    (fails : decodePayload buf role fin rsv1 opcode masked payloadLen pos = .error error) :
    Unrelated error := by
  unfold decodePayload at fails
  split at fails
  · cases fails
    exact ⟨_, rfl, by decide⟩
  · split at fails
    · cases fails
      exact ⟨_, rfl, by decide⟩
    · split at fails
      · cases fails
      · obtain same | ⟨_, _, fails⟩ := except_bind_error fails
        · exact checkMasking_unrelated same
        · split at fails <;> cases fails

/-- Nothing that is wrong with a frame alone is about UTF-8. -/
theorem decode_unrelated (fails : decode buf role = .error error) : Unrelated error := by
  unfold decode at fails
  split at fails
  · dsimp only at fails
    split at fails
    · cases fails
      exact ⟨_, rfl, by decide⟩
    · obtain same | ⟨opcode, _, fails⟩ := except_bind_error fails
      · exact fromU8_unrelated same
      · obtain same | ⟨found, _, fails⟩ := except_bind_error fails
        · exact decodeLength_unrelated same
        · cases found with
          | none => cases fails
          | some found => exact decodePayload_unrelated fails
  · cases fails

end Frames

namespace WebSocketStream

variable {κ : Type} {ws after : WebSocketStream κ} {assembly : Assembly} {frame : Frame}

/-- A frame that ends a text that is not UTF-8, or a Close with such a reason; nothing else is
wrong with it. -/
inductive InvalidText [DeflateCodec κ] (assembly : Assembly) (frame : Frame) (ws : WebSocketStream κ) : Prop where
  | closeReason {high low : UInt8} {reason : Bytes} (wellFormed : WellFormed ws.deflate.isSome frame)
      (closes : frame.opcode = .close) (payload : frame.payload = high :: low :: reason)
      (valid : isValidCloseCode (Bytes.fromBe [high, low]).toUInt16 = true)
      (invalid : Text.fromUtf8 reason = none)
  | text {bytes : Bytes} {after : WebSocketStream κ} (wellFormed : WellFormed ws.deflate.isSome frame)
      (inOrder : InOrder assembly frame.opcode)
      (size : (extend assembly frame).assembled.length ≤ maxPayload) (final : frame.fin = true)
      (kind : (extend assembly frame).opcode = some .text)
      (decompressed : (decompressPayload (extend assembly frame)).Runs ws bytes after)
      (invalid : Text.fromUtf8 bytes = none)

theorem parseClose_fails {payload : Bytes} {error : WsError} (fails : parseClose payload = .error error) :
    Unrelated error ∧ ¬ (∃ high low reason, payload = high :: low :: reason ∧
        isValidCloseCode (Bytes.fromBe [high, low]).toUInt16 = true ∧ Text.fromUtf8 reason = none) ∨
      error = .protocol invalidUtf8 ∧ ∃ high low reason, payload = high :: low :: reason ∧
        isValidCloseCode (Bytes.fromBe [high, low]).toUInt16 = true ∧ Text.fromUtf8 reason = none := by
  unfold parseClose at fails
  split at fails
  · cases fails
  · cases fails
    refine .inl ⟨⟨_, rfl, by decide⟩, ?_⟩
    rintro ⟨_, _, _, same, _⟩
    cases same
  · next high low reason =>
      dsimp only at fails
      split at fails
      · next invalid =>
          cases fails
          refine .inl ⟨⟨_, rfl, by decide⟩, ?_⟩
          rintro ⟨_, _, _, same, valid, _⟩
          cases same
          rw [valid] at invalid
          cases invalid
      · next valid =>
          split at fails
          · next invalid =>
              cases fails
              exact .inr ⟨rfl, high, low, reason, rfl, by simpa using valid, invalid⟩
          · cases fails

theorem parts_unrelated {message : Message} {error : WsError} (refused : message.parts = .error error) :
    Unrelated error := by
  have control : ∀ {payload} {next : Unit → Except WsError (Opcode × Bytes)},
      (checkControl payload >>= next) = .error error → (∀ result, next () ≠ .error result) → Unrelated error := by
    intro payload next fails ready
    obtain same | ⟨_, _, same⟩ := except_bind_error fails
    · unfold checkControl at same
      split at same <;> cases same
      exact ⟨_, rfl, by decide⟩
    · exact absurd same (ready _)
  cases message with
  | text | binary => cases refused
  | ping | pong | close => exact control refused nofun

/-- A control message is written, or refused before anything is written. -/
theorem send_cases [DeflateCodec κ] (message : Message)
    (control : ∀ opcode payload, message.parts = .ok (opcode, payload) → opcode.isData = false)
    (ws : WebSocketStream κ) :
    (∃ error, Unrelated error ∧ send message ws = (.failed error, ws)) ∨
      ∃ opcode payload masks key, message.parts = .ok (opcode, payload) ∧ (send message).Runs ws ()
        (ws.wrote opcode masks (encode (.whole opcode payload) (peerMask ws.role.peer key))) := by
  cases parts : message.parts with
  | ok found =>
      obtain ⟨masks, key, sends⟩ := @send_runs κ ws _ message found.1 found.2 parts
        fun data => Bool.noConfusion ((control _ _ parts).symm.trans data)
      exact .inr ⟨found.1, found.2, masks, key, rfl, sends⟩
  | error refused =>
      refine .inl ⟨refused, parts_unrelated parts, ?_⟩
      rw [send, parts]
      rfl

theorem pong_control {payload : Bytes} (opcode : Opcode) (bytes : Bytes)
    (parts : (Message.pong payload).parts = .ok (opcode, bytes)) : opcode = .pong := by
  obtain ⟨_, _, result⟩ := except_bind_ok parts
  cases result
  rfl

theorem close_control {info : Option (UInt16 × List Char)} (opcode : Opcode) (bytes : Bytes)
    (parts : (Message.close info).parts = .ok (opcode, bytes)) : opcode = .close := by
  obtain ⟨_, _, result⟩ := except_bind_ok parts
  cases result
  rfl

theorem send_pong_cases [DeflateCodec κ] (payload : Bytes) (ws : WebSocketStream κ) :
    (∃ error, Unrelated error ∧ send (.pong payload) ws = (.failed error, ws)) ∨
      ∃ payload' masks key, (send (.pong payload)).Runs ws ()
        (ws.wrote .pong masks (encode (.whole .pong payload') (peerMask ws.role.peer key))) := by
  obtain refused | ⟨opcode, payload', masks, key, parts, sends⟩ :=
    send_cases (.pong payload) (fun _ _ parts => by rw [pong_control _ _ parts]; rfl) ws
  · exact .inl refused
  · cases pong_control _ _ parts
    exact .inr ⟨payload', masks, key, sends⟩

theorem send_close_cases [DeflateCodec κ] (info : Option (UInt16 × List Char)) (ws : WebSocketStream κ) :
    (∃ error, Unrelated error ∧ send (.close info) ws = (.failed error, ws)) ∨
      ∃ payload masks key, (send (.close info)).Runs ws ()
        (ws.wrote .close masks (encode (.whole .close payload) (peerMask ws.role.peer key))) := by
  obtain refused | ⟨opcode, payload, masks, key, parts, sends⟩ :=
    send_cases (.close info) (fun _ _ parts => by rw [close_control _ _ parts]; rfl) ws
  · exact .inl refused
  · cases close_control _ _ parts
    exact .inr ⟨payload, masks, key, sends⟩

section Fails

variable [DeflateCodec κ] {error : WsError}

theorem InvalidText.kind (invalid : InvalidText assembly frame ws) :
    frame.opcode = .close ∨ InOrder assembly frame.opcode := by
  cases invalid with
  | closeReason _ closes => exact .inl closes
  | text _ inOrder => exact .inr inOrder

theorem InvalidText.wellFormed (invalid : InvalidText assembly frame ws) :
    WellFormed ws.deflate.isSome frame := by
  cases invalid with
  | closeReason wellFormed => exact wellFormed
  | text wellFormed => exact wellFormed

theorem decompressPayload_fails [ViolatedCodec κ]
    (fails : decompressPayload assembly ws = (.failed error, after)) : Unrelated error := by
  rw [decompressPayload, (Async.Runs.get ws).bind_eq] at fails
  cases codec : ws.deflate with
  | none =>
      simp only [codec] at fails
      cases fails
  | some codec' =>
      simp only [codec] at fails
      cases marked : assembly.compressed with
      | true =>
          rw [if_pos marked] at fails
          obtain ⟨_, decompresses, _⟩ := Async.zoom_ends fails
          exact ViolatedCodec.unrelated decompresses
      | false =>
          rw [if_neg (Bool.eq_false_iff.mp marked)] at fails
          cases fails

theorem finish_fails [ViolatedCodec κ] (fails : finish assembly ws = (.failed error, after)) :
    Unrelated error ∧ (∀ bytes middle, (decompressPayload assembly).Runs ws bytes middle →
        assembly.opcode = some .text → Text.fromUtf8 bytes ≠ none) ∨
      error = .protocol invalidUtf8 ∧ assembly.opcode = some .text ∧
        ∃ bytes middle, (decompressPayload assembly).Runs ws bytes middle ∧ Text.fromUtf8 bytes = none := by
  obtain ⟨bytes, middle, runs, rest⟩ | ⟨_, cannot⟩ | ⟨_, first, same⟩ := Async.bind_ends fails
  · by_cases text : assembly.opcode = some .text
    · cases decoded : Text.fromUtf8 bytes with
      | some string =>
          simp only [text, decoded] at rest
          cases rest
      | none =>
          simp only [text, decoded] at rest
          cases rest
          exact .inr ⟨rfl, text, bytes, _, runs, decoded⟩
    · refine .inl ⟨?_, fun _ _ _ kind => absurd kind text⟩
      cases kind : assembly.opcode with
      | none =>
          simp only [kind] at rest
          cases rest
          exact ⟨_, rfl, by decide⟩
      | some opcode =>
          cases opcode with
          | text => exact absurd kind text
          | binary =>
              simp only [kind] at rest
              cases rest
          | continuation | close | ping | pong =>
              simp only [kind] at rest
              cases rest
              exact ⟨_, rfl, by decide⟩
  · cases cannot
  · cases same
    refine .inl ⟨decompressPayload_fails first, fun _ _ runs => ?_⟩
    cases first.symm.trans runs

theorem handleClose_fails {payload : Bytes} (fails : handleClose payload ws = (.failed error, after)) :
    Unrelated error ∧ ¬ (∃ high low reason, payload = high :: low :: reason ∧
        isValidCloseCode (Bytes.fromBe [high, low]).toUInt16 = true ∧ Text.fromUtf8 reason = none) ∨
      error = .protocol invalidUtf8 ∧ ∃ high low reason, payload = high :: low :: reason ∧
        isValidCloseCode (Bytes.fromBe [high, low]).toUInt16 = true ∧ Text.fromUtf8 reason = none := by
  cases parses : parseClose payload with
  | error refused =>
      rw [handleClose, parses] at fails
      cases fails
      exact parseClose_fails parses
  | ok info =>
      have sound : ¬ (∃ high low reason, payload = high :: low :: reason ∧
          isValidCloseCode (Bytes.fromBe [high, low]).toUInt16 = true ∧ Text.fromUtf8 reason = none) := by
        rintro ⟨high, low, reason, rfl, valid, invalid⟩
        simp only [parseClose, valid, invalid, Bool.not_true, Bool.false_eq_true, if_false] at parses
        cases parses
      rw [handleClose, parses, (Async.Runs.ofExcept ws info).bind_eq, (Async.Runs.get ws).bind_eq] at fails
      dsimp only at fails
      split at fails
      · cases fails
      · obtain ⟨_, unrelated, refused⟩ | ⟨_, masks, key, sends⟩ := send_close_cases info ws
        · cases (Async.bind_failed refused).symm.trans fails
          exact .inl ⟨unrelated, sound⟩
        · cases (Async.Runs.bind_eq sends).symm.trans fails

theorem handleFrame_malformed (malformed : ¬ WellFormed ws.deflate.isSome frame) :
    ∃ error, Unrelated error ∧ handleFrame assembly frame ws = (.failed error, ws) := by
  rw [handleFrame, (Async.Runs.get ws).bind_eq]
  split
  · exact ⟨_, ⟨_, rfl, by decide⟩, rfl⟩
  · next agreed =>
      split
      · exact ⟨_, ⟨_, rfl, by decide⟩, rfl⟩
      · next whole =>
          refine absurd ⟨fun marked => ?_, fun control => ?_⟩ malformed
          · cases codec : ws.deflate <;> simp_all
          · cases fin : frame.fin <;> simp_all

theorem addFragment_fails [ViolatedCodec κ] (wellFormed : WellFormed ws.deflate.isSome frame)
    (inOrder : InOrder assembly frame.opcode) (fails : handleFrame assembly frame ws = (.failed error, after)) :
    Unrelated error ∧ ¬ InvalidText assembly frame ws ∨
      error = .protocol invalidUtf8 ∧ InvalidText assembly frame ws := by
  have notClose : frame.opcode ≠ .close := by
    intro closes
    have notControl := inOrder.isControl
    rw [closes] at notControl
    cases notControl
  by_cases size : (extend assembly frame).assembled.length ≤ maxPayload
  · rw [handleFrame_within wellFormed inOrder size] at fails
    cases final : frame.fin with
    | false =>
        simp only [final, Bool.false_eq_true, if_false] at fails
        cases fails
    | true =>
        simp only [final, if_true] at fails
        obtain ⟨_, _, _, rest⟩ | ⟨_, cannot⟩ | ⟨_, first, same⟩ := Async.bind_ends fails
        · cases rest
        · cases cannot
        · cases same
          obtain ⟨unrelated, sound⟩ | ⟨same, kind, bytes, middle, runs, invalid⟩ := finish_fails first
          · refine .inl ⟨unrelated, fun invalid => ?_⟩
            cases invalid with
            | closeReason _ closes => exact notClose closes
            | text _ _ _ _ kind decompressed invalid => exact sound _ _ decompressed kind invalid
          · exact .inr ⟨same, .text wellFormed inOrder size final kind runs invalid⟩
  · cases (handleFrame_large wellFormed inOrder (Nat.not_le.mp size)).symm.trans fails
    refine .inl ⟨⟨_, rfl, by decide⟩, fun invalid => ?_⟩
    cases invalid with
    | closeReason _ closes => exact notClose closes
    | text _ _ within => exact size within

/-- The text of the error is that for invalid UTF-8 just for a frame with such a text. -/
theorem handleFrame_fails [ViolatedCodec κ] (fails : handleFrame assembly frame ws = (.failed error, after)) :
    Unrelated error ∧ ¬ InvalidText assembly frame ws ∨
      error = .protocol invalidUtf8 ∧ InvalidText assembly frame ws := by
  by_cases wellFormed : WellFormed ws.deflate.isSome frame
  · cases opcode : frame.opcode with
    | ping =>
        rw [handleFrame_wellFormed wellFormed, opcode] at fails
        obtain ⟨_, unrelated, refused⟩ | ⟨_, masks, key, sends⟩ := send_pong_cases frame.payload ws
        · cases (Async.bind_failed refused).symm.trans fails
          refine .inl ⟨unrelated, fun invalid => ?_⟩
          have kind := invalid.kind
          rw [opcode] at kind
          obtain closes | ⟨data, _⟩ | ⟨continues, _⟩ := kind
          · cases closes
          · cases data
          · cases continues
        · cases (Async.Runs.bind_eq sends).symm.trans fails
    | pong =>
        rw [handleFrame_wellFormed wellFormed, opcode] at fails
        cases fails
    | close =>
        rw [handleFrame_wellFormed wellFormed, opcode] at fails
        obtain ⟨_, _, _, rest⟩ | ⟨_, cannot⟩ | ⟨_, first, same⟩ := Async.bind_ends fails
        · cases rest
        · cases cannot
        · cases same
          obtain ⟨unrelated, sound⟩ | ⟨same, high, low, reason, payload, valid, invalid⟩ :=
            handleClose_fails first
          · refine .inl ⟨unrelated, fun invalid => ?_⟩
            cases invalid with
            | closeReason _ _ payload valid invalid => exact sound ⟨_, _, _, payload, valid, invalid⟩
            | text _ inOrder =>
                rw [opcode] at inOrder
                obtain ⟨data, _⟩ | ⟨continues, _⟩ := inOrder
                · cases data
                · cases continues
          · exact .inr ⟨same, .closeReason wellFormed opcode payload valid invalid⟩
    | text | binary | continuation =>
        by_cases inOrder : InOrder assembly frame.opcode
        · exact addFragment_fails wellFormed inOrder fails
        · refine .inl ⟨?_, fun invalid => ?_⟩
          · rw [handleFrame_wellFormed wellFormed, opcode] at fails
            dsimp only at fails
            split at fails
            · cases fails
              exact ⟨_, rfl, by decide⟩
            · next free =>
                refine absurd ?_ inOrder
                rw [opcode]
                simpa [InOrder, Opcode.isData, Option.isSome_iff_ne_none] using free
          · obtain closes | placed := invalid.kind
            · rw [opcode] at closes
              cases closes
            · exact inOrder placed
  · obtain ⟨_, unrelated, refused⟩ := @handleFrame_malformed κ ws assembly frame _ wellFormed
    cases refused.symm.trans fails
    exact .inl ⟨unrelated, fun invalid => wellFormed invalid.wellFormed⟩

end Fails

section Writes

variable {middle : WebSocketStream κ} {outcome : Outcome WsError Progress}

/-- The Closes among some frames. -/
def closes (log : List Frame) : List Frame := log.filter fun frame => frame.opcode = .close

/-- The Close that tells the peer no more than a status code. -/
def closeFrame (code : UInt16) : Frame := .whole .close (closePayload (some (code, [])))

/-- Some frames have been written, but no Close. -/
def Unclosed (before after : WebSocketStream κ) : Prop :=
  after.closeSent = before.closeSent ∧ ∃ log, Logs log before after ∧ closes log = []

theorem Unclosed.trans (first : Unclosed ws middle) (second : Unclosed middle after) : Unclosed ws after := by
  obtain ⟨same, log, logs, none⟩ := first
  obtain ⟨same', log', logs', none'⟩ := second
  exact ⟨same'.trans same, log ++ log', logs.trans logs', by rw [closes, List.filter_append]; exact congrArg₂ _ none none'⟩

theorem Unclosed.of_same (outbound : after.conn.io.outbound = ws.conn.io.outbound)
    (role : after.role = ws.role) (closeSent : after.closeSent = ws.closeSent) : Unclosed ws after :=
  ⟨closeSent, [], .of_same outbound role, rfl⟩

theorem Pings.unclosed (pings : Pings ws after) : Unclosed ws after := by
  obtain ⟨log, logs, same⟩ := pings.log
  refine ⟨pings.unchanged.closeSent, log, logs, List.filter_eq_nil_iff.mpr fun frame member => ?_⟩
  rw [same frame member]
  decide

/-- What is written for a frame. -/
inductive Handled (ws : WebSocketStream κ) : Outcome WsError Progress → WebSocketStream κ → Prop where
  | silent {outcome : Outcome WsError Progress} {after : WebSocketStream κ} (logs : Logs [] ws after)
      (closeSent : after.closeSent = ws.closeSent) : Handled ws outcome after
  | ponged {assembly : Assembly} {payload : Bytes} {after : WebSocketStream κ}
      (logs : Logs [.whole .pong payload] ws after) (closeSent : after.closeSent = ws.closeSent) :
      Handled ws (.ready (.more assembly)) after
  | echoed {payload : Bytes} {after : WebSocketStream κ} (opened : ws.closeSent = false)
      (logs : Logs [.whole .close payload] ws after) (closed : after.closeSent = true) :
      Handled ws (.ready (.done none)) after

variable [DeflateCodec κ]

theorem handleClose_handled {payload : Bytes} {outcome : Outcome WsError (Option Message)}
    (handles : handleClose payload ws = (outcome, after)) :
    Logs [] ws after ∧ after.closeSent = ws.closeSent ∨
      outcome = .ready none ∧ ws.closeSent = false ∧ after.closeSent = true ∧
        ∃ payload, Logs [.whole .close payload] ws after := by
  cases parses : parseClose payload with
  | error refused =>
      rw [handleClose, parses] at handles
      cases handles
      exact .inl ⟨.of_same rfl rfl, rfl⟩
  | ok info =>
      cases sent : ws.closeSent with
      | true =>
          cases handles.symm.trans (handleClose_second parses sent)
          exact .inl ⟨.of_same rfl rfl, sent⟩
      | false =>
          obtain ⟨_, _, refused⟩ | ⟨bytes, masks, key, sends⟩ := send_close_cases info ws
          · rw [handleClose, parses, (Async.Runs.ofExcept ws info).bind_eq,
              (Async.Runs.get ws).bind_eq] at handles
            dsimp only at handles
            rw [if_neg (Bool.eq_false_iff.mp sent)] at handles
            cases (Async.bind_failed refused).symm.trans handles
            exact .inl ⟨.of_same rfl rfl, sent⟩
          · cases handles.symm.trans (handleClose_first parses sent sends)
            exact .inr ⟨rfl, rfl, by simp [wrote], bytes, ⟨_, rfl, .single key⟩, rfl⟩

theorem addPayload_handled (handles : addPayload assembly frame ws = (outcome, after)) :
    Handled ws outcome after := by
  have kept := @addPayload_keeps κ _ _ (fun ws => (ws.conn, ws.role, ws.closeSent)) (fun _ _ => rfl)
    assembly frame ws
  rw [handles] at kept
  simp only [Prod.mk.injEq] at kept
  obtain ⟨conn, role, closeSent⟩ := kept
  exact .silent (.of_same (by rw [conn]) role) closeSent

theorem handleFrame_handled (handles : handleFrame assembly frame ws = (outcome, after)) :
    Handled ws outcome after := by
  by_cases wellFormed : WellFormed ws.deflate.isSome frame
  · rw [handleFrame_wellFormed wellFormed] at handles
    cases opcode : frame.opcode with
    | ping =>
        rw [opcode] at handles
        obtain ⟨_, _, refused⟩ | ⟨bytes, masks, key, sends⟩ := send_pong_cases frame.payload ws
        · cases (Async.bind_failed refused).symm.trans handles
          exact .silent (.of_same rfl rfl) rfl
        · cases (Async.Runs.bind_eq sends).symm.trans handles
          exact .ponged ⟨⟨_, rfl, .single key⟩, rfl⟩ (by simp [wrote])
    | pong =>
        rw [opcode] at handles
        cases handles
        exact .silent (.of_same rfl rfl) rfl
    | close =>
        rw [opcode] at handles
        cases closes : handleClose frame.payload ws with
        | mk result middle =>
            obtain ⟨logs, same⟩ | ⟨rfl, opened, closed, payload, logs⟩ := handleClose_handled closes
            · cases result with
              | ready message =>
                  cases (Async.Runs.bind_eq closes).symm.trans handles
                  exact .silent logs same
              | failed error =>
                  cases (Async.bind_failed closes).symm.trans handles
                  exact .silent logs same
              | pending =>
                  cases (Async.bind_pending closes).symm.trans handles
                  exact .silent logs same
            · cases (Async.Runs.bind_eq closes).symm.trans handles
              exact .echoed opened logs closed
    | text | binary | continuation =>
        rw [opcode] at handles
        dsimp only at handles
        split at handles
        · cases handles
          exact .silent (.of_same rfl rfl) rfl
        · exact addPayload_handled handles
  · obtain ⟨_, _, refused⟩ := @handleFrame_malformed κ ws assembly frame _ wellFormed
    cases refused.symm.trans handles
    exact .silent (.of_same rfl rfl) rfl

/-- What a turn writes: a Close just where it ends the call by echoing one. -/
theorem turn_writes (turns : turn assembly ws = (outcome, after)) :
    Unclosed ws after ∨ outcome = .ready (.done none) ∧ ws.closeSent = false ∧ after.closeSent = true ∧
      ∃ payload, Logs [.whole .close payload] ws after := by
  have waited : ∀ {result middle}, timedRead 8192 ws = (result, middle) → Unclosed ws middle := by
    intro result middle timed
    have pings := Async.Moves.same_iff.mp (timedRead_pings 8192) ws
    rw [timed] at pings
    exact Pings.unclosed pings
  cases turn_turned turns with
  | refused refused => exact .inl (.of_same rfl rfl rfl)
  | took decoded handled =>
      cases handleFrame_handled handled with
      | silent logs closeSent => exact .inl ⟨closeSent, [], ⟨logs.outbound, logs.role⟩, rfl⟩
      | ponged logs closeSent => exact .inl ⟨closeSent, _, ⟨logs.outbound, logs.role⟩, by simp [closes]⟩
      | echoed opened logs closed => exact .inr ⟨rfl, opened, closed, _, ⟨logs.outbound, logs.role⟩⟩
  | waits missing timed | failed missing timed => exact .inl (waited timed)
  | pinged missing timed | ended missing timed | lost missing timed => exact .inl (waited timed)
  | appended missing timed =>
      obtain ⟨same, log, logs, none⟩ := waited timed
      exact .inl ⟨same, log, ⟨logs.outbound, logs.role⟩, none⟩

/-- What a violation is answered with. -/
theorem failConnection_writes (reason : String) (ws : WebSocketStream κ) :
    (failConnection reason ws).2 = ws ∧ ws.closeSent = true ∨
      ws.closeSent = false ∧ (failConnection reason ws).2.closeSent = true ∧
        Logs [closeFrame (if reason = invalidUtf8 then 1007 else 1002)] ws (failConnection reason ws).2 := by
  let code : UInt16 := if reason = invalidUtf8 then 1007 else 1002
  obtain ⟨masks, key, sends⟩ := @send_runs _ ws _ _ _ _ (close_parts (length_closePayload code)) nofun
  cases sent : ws.closeSent with
  | true =>
      rw [failConnection, (Async.Runs.get ws).bind_eq, if_pos sent]
      exact .inl ⟨rfl, rfl⟩
  | false =>
      rw [failConnection, (Async.Runs.get ws).bind_eq, if_neg (Bool.eq_false_iff.mp sent),
        sends.attempt.bind_eq]
      exact .inr ⟨rfl, by simp [Async.fail, wrote], ⟨_, rfl, .single key⟩, rfl⟩

end Writes

/-- Whether the frame that the next turn takes has a text that is not UTF-8. -/
def InvalidAhead [DeflateCodec κ] (assembly : Assembly) (ws : WebSocketStream κ) : Prop :=
  ∃ frame consumed, decode ws.frameBuf ws.role = .ok (some (frame, consumed)) ∧
    InvalidText assembly frame { ws with frameBuf := ws.frameBuf.drop consumed }

theorem readRaw_fails {capacity : Nat} {conn after : HttpConnection} {error : HttpError}
    (fails : HttpConnection.readRaw capacity conn = (.failed error, after)) : ∃ io, error = .io io := by
  rw [HttpConnection.readRaw, (Async.Runs.get conn).bind_eq] at fails
  by_cases buffered : conn.buf = []
  · rw [if_neg (fun more => more buffered)] at fails
    obtain ⟨io, polls, _⟩ := Async.zoom_ends fails
    unfold Transport.pollRead at polls
    split at polls
    · cases polls
    · split at polls
      · cases polls
      · cases polls
      · cases polls
        exact ⟨_, rfl⟩
  · rw [if_pos buffered] at fails
    cases fails

/-- A timed read fails when the peer does not answer, or with the transport. -/
theorem timedRead_fails [DeflateCodec κ] {capacity : Nat} {error : WsError}
    (fails : timedRead capacity ws = (.failed error, after)) : error = .timedOut ∨ ∃ io, error = .io io := by
  cases keepalive : ws.keepalive with
  | none =>
      rw [timedRead_untimed keepalive] at fails
      obtain ⟨_, _, _, rest⟩ | ⟨_, cannot⟩ | ⟨_, first, same⟩ := Async.bind_ends fails
      · cases rest
      · cases cannot
      · cases same
        cases reads : HttpConnection.readRaw capacity ws.conn with
        | mk outcome conn =>
            have ends := onConn_ends reads
            cases outcome with
            | failed error =>
                cases ends.symm.trans first
                obtain ⟨io, rfl⟩ := readRaw_fails reads
                exact .inr ⟨io, rfl⟩
            | ready data => cases ends.symm.trans first
            | pending => cases ends.symm.trans first
  | some policy =>
      have timed := timedRead_timed keepalive capacity
      rw [fails] at timed
      cases timed with
      | timedOut => exact .inl rfl
      | failed _ reads =>
          obtain ⟨io, rfl⟩ := readRaw_fails reads
          exact .inr ⟨io, rfl⟩

theorem turn_fails [DeflateCodec κ] [ViolatedCodec κ] {reason : String}
    (turns : turn assembly ws = (.failed (.protocol reason), after)) :
    reason = invalidUtf8 ↔ InvalidAhead assembly ws := by
  cases turn_turned turns with
  | refused refused =>
      obtain ⟨_, same, other⟩ := decode_unrelated refused
      cases same
      refine ⟨fun same => absurd same other, ?_⟩
      rintro ⟨_, _, decoded, _⟩
      cases refused.symm.trans decoded
  | took decoded handled =>
      obtain ⟨⟨_, same, other⟩, sound⟩ | ⟨same, invalid⟩ := handleFrame_fails handled
      · cases same
        refine ⟨fun same => absurd same other, ?_⟩
        rintro ⟨_, _, decoded', invalid⟩
        cases decoded.symm.trans decoded'
        exact absurd invalid sound
      · cases same
        exact ⟨fun _ => ⟨_, _, decoded, invalid⟩, fun _ => rfl⟩
  | failed missing timed =>
      obtain same | ⟨_, same⟩ := timedRead_fails timed
      · cases same
      · cases same

end WebSocketStream

namespace Receiver

open WebSocketStream

variable {κ : Type} [DeflateCodec κ] {receiver next : Receiver κ} {call : Receiving κ}
  {start ws after : WebSocketStream κ}

/-- How many Closes have been written, by what is known of them. -/
def Tallied (before after : WebSocketStream κ) : Prop :=
  ∃ log, Logs log before after ∧ (closes log).length + before.closeSent.toNat = after.closeSent.toNat

theorem Tallied.trans {κ : Type} {start ws after : WebSocketStream κ} (first : Tallied start ws) (second : Tallied ws after) : Tallied start after := by
  obtain ⟨log, logs, count⟩ := first
  obtain ⟨log', logs', count'⟩ := second
  refine ⟨log ++ log', logs.trans logs', ?_⟩
  rw [closes, List.filter_append, List.length_append]
  unfold closes at count count'
  omega

theorem tallied_of_unclosed {κ : Type} {ws after : WebSocketStream κ} (unclosed : Unclosed ws after) : Tallied ws after := by
  obtain ⟨same, log, logs, none⟩ := unclosed
  exact ⟨log, logs, by rw [none, same, List.length_nil, Nat.zero_add]⟩

/-- How a call that fails has answered, since it began. -/
def Answers (call : Receiving κ) (ws after : WebSocketStream κ) : WsError → Prop
  | .protocol _ =>
      ∃ log, Logs log call.began after ∧
        if call.began.closeSent then closes log = []
        else ∃ code, closes log = [closeFrame code] ∧
          (InvalidAhead call.assembly ws → code = 1007) ∧ (¬ InvalidAhead call.assembly ws → code = 1002)
  | _ => ∃ log, Logs log call.began after ∧ closes log = []

/-- A call in progress has not written a Close. -/
structure Calling (start : WebSocketStream κ) (receiver : Receiver κ) : Prop where
  tallied : Tallied start receiver.ws
  unclosed : ∀ call, receiver.call = some call → Unclosed call.began receiver.ws

/-- Nothing is said of a call when there is none. -/
theorem uncalled {κ : Type} {holds : Receiving κ → Prop} (other : Receiving κ) (same : none = some other) : holds other := by
  cases same

/-- A violation is answered once, and not at all where a Close has been sent. -/
theorem failConnection_answers {reason : String} (since : Unclosed call.began after)
    (cause : reason = invalidUtf8 ↔ InvalidAhead call.assembly ws) :
    Tallied after (failConnection reason after).2 ∧
      Answers call ws (failConnection reason after).2 (.protocol reason) := by
  obtain ⟨log, logs, none⟩ := since.2
  obtain ⟨quiet, sent⟩ | ⟨opened, closed, answer⟩ := failConnection_writes reason after
  · rw [quiet]
    refine ⟨tallied_of_unclosed (.of_same rfl rfl rfl), log, logs, ?_⟩
    rw [if_pos (since.1 ▸ sent)]
    exact none
  · refine ⟨⟨_, answer, by rw [opened, closed]; rfl⟩, _, logs.trans answer, ?_⟩
    rw [if_neg (by rw [← since.1, opened]; exact Bool.false_ne_true)]
    have one : closes (log ++ [closeFrame (if reason = invalidUtf8 then 1007 else 1002)]) =
        [closeFrame (if reason = invalidUtf8 then 1007 else 1002)] := by
      rw [closes, List.filter_append]
      exact congrArg (· ++ _) none
    exact ⟨_, one, fun invalid => if_pos (cause.mpr invalid), fun valid => if_neg (valid ∘ cause.mp)⟩

theorem settle_answers [ViolatedCodec κ] {outcome : Outcome WsError Progress} {frames : List Frame}
    {reads : List TimedRead} (calling : Calling start receiver) (called : receiver.call = some call)
    (turns : turn call.assembly receiver.ws = (outcome, after))
    (settled : { receiver with reads }.settle { call with frames } (outcome, after) = next) :
    Calling start next ∧ ∀ error, next.returned = .error error :: receiver.returned →
      Answers call receiver.ws next.ws error := by
  have before := calling.unclosed call called
  have unreturned : ∀ {error : WsError} {holds : Prop},
      receiver.returned = .error error :: receiver.returned → holds :=
    fun same => (List.ne_cons_self same).elim
  obtain unclosed | ⟨rfl, opened, closed, payload, logs⟩ := turn_writes turns
  · have since := before.trans unclosed
    have tallied := calling.tallied.trans (tallied_of_unclosed unclosed)
    have still : ∀ {assembly : Assembly} (other : Receiving κ),
        some { call with frames, assembly } = some other → Unclosed other.began after := by
      intro assembly other same
      cases same
      exact since
    cases outcome with
    | pending =>
        subst settled
        exact ⟨⟨tallied, still⟩, fun error => unreturned⟩
    | ready progress =>
        cases progress with
        | more assembly =>
            subst settled
            exact ⟨⟨tallied, still⟩, fun error => unreturned⟩
        | done message =>
            subst settled
            refine ⟨⟨tallied, uncalled⟩, fun error same => ?_⟩
            cases (List.cons.inj same).1
    | failed error =>
        cases error with
        | protocol reason =>
            obtain ⟨answered, answers⟩ := failConnection_answers since (turn_fails turns)
            subst settled
            refine ⟨⟨tallied.trans answered, uncalled⟩, fun error same => ?_⟩
            cases (List.cons.inj same).1
            exact answers
        | io | connectionClosed | handshake | timedOut =>
            subst settled
            refine ⟨⟨tallied, uncalled⟩, fun error same => ?_⟩
            cases (List.cons.inj same).1
            exact since.2
  · have tallied : Tallied receiver.ws after := ⟨_, logs, by rw [opened, closed]; rfl⟩
    subst settled
    refine ⟨⟨calling.tallied.trans tallied, uncalled⟩, fun error same => ?_⟩
    cases (List.cons.inj same).1

theorem step_calling [ViolatedCodec κ] {event : Event} (calling : Calling start receiver)
    (steps : step receiver event = some next) : Calling start next := by
  cases step_stepped steps with
  | began free =>
      refine ⟨calling.tallied, fun other same => ?_⟩
      cases same
      exact .of_same rfl rfl rfl
  | polled called _ => exact (settle_answers calling called (Prod.mk.eta (p := turn _ _)).symm rfl).1
  | dropped => exact ⟨calling.tallied, uncalled⟩
  | arrived segments ending =>
      refine ⟨calling.tallied.trans (tallied_of_unclosed (.of_same rfl rfl rfl)), fun other same => ?_⟩
      exact (calling.unclosed other same).trans (.of_same rfl rfl rfl)

theorem step_answers [ViolatedCodec κ] {event : Event} {error : WsError} (calling : Calling start receiver)
    (steps : step receiver event = some next) (called : receiver.call = some call)
    (fails : next.returned = .error error :: receiver.returned) :
    Answers call receiver.ws next.ws error := by
  have returns : next.returned ≠ receiver.returned := fun same => List.ne_cons_self (same.symm.trans fails)
  cases step_stepped steps with
  | began | dropped | arrived => exact absurd rfl returns
  | polled called' _ =>
      cases called.symm.trans called'
      exact (settle_answers calling called (Prod.mk.eta (p := turn _ _)).symm rfl).2 error fails

/-- Whatever a peer sends, and whatever calls are made, in whatever state of the stream: a call that
fails with a violation has answered it, and all the calls together write at most one Close. -/
theorem violations_answered {γ δ : Type} [Rounds] [Deflate γ] [Inflate δ]
    {start : WebSocketStream (FullCodec γ δ)} {receiver next : Receiver (FullCodec γ δ)}
    (reached : Reachable step (idle start) receiver) {event : Event} (steps : step receiver event = some next) :
    (∃ log, Logs log start next.ws ∧ (closes log).length + start.closeSent.toNat ≤ 1) ∧
      ∀ call error, receiver.call = some call → next.returned = .error error :: receiver.returned →
        Answers call receiver.ws next.ws error := by
  have starts : Calling start (idle start) := ⟨⟨[], .of_same rfl rfl, Nat.zero_add _⟩, uncalled⟩
  have calling := reached.invariant step_calling starts
  refine ⟨?_, fun call error called fails => step_answers calling steps called fails⟩
  obtain ⟨log, logs, count⟩ := (step_calling calling steps).tallied
  exact ⟨log, logs, count.trans_le (Bool.toNat_le _)⟩

/-- A client behind the opening handshake, with some bytes from its peer. -/
def clientReceiving (bytes : Bytes) : WebSocketStream (FullCodec Unit Unit) :=
  fromConn (.new ⟨[bytes], .pending, []⟩) .client (fun _ => ⟨0, 0, 0, 0⟩) fun _ _ => false

theorem violations_answered_opcode :
    letI : Rounds := ⟨1⟩
    ∃ receiver next, Lib.run step [.recv, .poll] (idle (clientReceiving [0x83, 0])) = some receiver ∧
      step receiver .poll = some next ∧ next.returned = [.error (.protocol "reserved opcode")] ∧
        ∀ call, receiver.call = some call → Answers call receiver.ws next.ws (.protocol "reserved opcode") := by
  let rounds : Rounds := ⟨1⟩
  obtain ⟨receiver, next, runs, steps, before, after⟩ : ∃ receiver next,
      Lib.run step [.recv, .poll] (idle (clientReceiving [0x83, 0])) = some receiver ∧
        step receiver .poll = some next ∧ receiver.returned = [] ∧
          next.returned = [.error (.protocol "reserved opcode")] := ⟨_, _, rfl, rfl, rfl, rfl⟩
  refine ⟨receiver, next, runs, steps, after, fun call called => ?_⟩
  exact (violations_answered ⟨_, runs⟩ steps).2 call _ called (by rw [after, before])

end Receiver

end TptAsync.Ws
