import TptAsync.Lib.TextProperties
import TptAsync.Ws.HandshakeProperties
import TptAsync.Ws.Receiver

set_option autoImplicit false

/-!
# How much a receiver holds

Whatever a peer sends, and however it is cut, the buffer for frames, the message under assembly
and the messages that are returned stay within the limit on payloads.
-/

namespace TptAsync.Ws

open Lib Http

/-- The bytes of a data message. -/
def Message.data? : Message → Option Bytes
  | .text string => some (Text.toUtf8 string)
  | .binary bytes => some bytes
  | _ => none

/-- What a turn leaves under assembly, or the message that it returns, is within the limit. -/
def Progress.Small : Progress → Prop
  | .more assembly => assembly.assembled.length ≤ maxPayload
  | .done message => ∀ bytes, message.bind Message.data? = some bytes → bytes.length ≤ maxPayload

theorem small_of_dataless {message : Option Message} (dataless : message.bind Message.data? = none) :
    (Progress.done message).Small := by
  intro bytes same
  rw [dataless] at same
  cases same

section Frames

variable {buf : Bytes} {role : Role}

theorem decodeLength_header {len7 len pos : Nat} (decoded : decodeLength buf len7 = .ok (some (len, pos))) :
    pos ≤ 10 := by
  unfold decodeLength at decoded
  split at decoded
  · split at decoded <;> cases decoded
    decide
  · split at decoded
    · split at decoded
      · cases decoded
      · dsimp only at decoded
        split at decoded <;> cases decoded
        decide
    · cases decoded
      decide

theorem decodeLength_missing {len7 : Nat} (missing : decodeLength buf len7 = .ok none) : buf.length < 10 := by
  unfold decodeLength at missing
  split at missing
  · split at missing
    · omega
    · cases missing
  · split at missing
    · split at missing
      · assumption
      · dsimp only at missing
        split at missing <;> cases missing
    · cases missing

theorem decodeMask_header {pos after : Nat} {masked : Bool} {mask : Option MaskKey}
    (decoded : decodeMask buf pos masked = some (mask, after)) : after ≤ pos + 4 := by
  unfold decodeMask at decoded
  split at decoded
  · split at decoded <;> cases decoded
    exact Nat.le_refl _
  · cases decoded
    exact Nat.le_add_right _ _

theorem decodeMask_missing {pos : Nat} {masked : Bool} (missing : decodeMask buf pos masked = none) :
    buf.length < pos + 4 := by
  unfold decodeMask at missing
  split at missing
  · split at missing
    · cases missing
    · next short =>
        have left : (buf.drop pos).length < 4 := by
          rcases shape : buf.drop pos with _ | ⟨first, _ | ⟨second, _ | ⟨third, _ | ⟨fourth, rest⟩⟩⟩⟩
          · exact Nat.succ_pos 3
          · exact Nat.le_add_left 2 2
          · exact Nat.le_succ 3
          · exact Nat.le_refl 4
          · exact absurd shape (short _ _ _ _ _)
        rw [List.length_drop] at left
        omega
  · cases missing

/-- A frame that is waited for has declared no more than the limit. -/
theorem decodePayload_missing {fin rsv1 masked : Bool} {opcode : Opcode} {payloadLen pos : Nat}
    (header : pos ≤ 10)
    (missing : decodePayload buf role fin rsv1 opcode masked payloadLen pos = .ok none) :
    buf.length < 14 + maxPayload := by
  unfold decodePayload at missing
  split at missing
  · cases missing
  · next within =>
      split at missing
      · cases missing
      · split at missing
        · next short =>
            have := decodeMask_missing short
            omega
        · next mask after masked =>
            have := decodeMask_header masked
            obtain ⟨_, _, missing⟩ := except_bind_ok missing
            split at missing
            · omega
            · cases missing

/-- A frame that is waited for has declared no more than the limit. -/
theorem decode_missing (missing : decode buf role = .ok none) : buf.length < 14 + maxPayload := by
  unfold decode at missing
  split at missing
  · dsimp only at missing
    split at missing
    · cases missing
    · obtain ⟨opcode, _, missing⟩ := except_bind_ok missing
      obtain ⟨found, lengths, missing⟩ := except_bind_ok missing
      cases found with
      | none => exact Nat.lt_of_lt_of_le (decodeLength_missing lengths) (by decide)
      | some found => exact decodePayload_missing (decodeLength_header lengths) missing
  · next short =>
      rcases buf with _ | ⟨bits, _ | ⟨lengths, rest⟩⟩
      · decide
      · exact Nat.succ_lt_succ (by decide)
      · exact absurd rfl (short _ _ _)

end Frames

/-- A codec that decompresses no more than it is allowed to. -/
class CappedCodec (κ : Type) [DeflateCodec κ] : Prop where
  capped : ∀ {data out : Bytes} {limit : Nat} {codec after : κ},
    (DeflateCodec.decompress data limit).Runs codec out after → out.length ≤ limit

section Codecs

variable {γ δ : Type} [Inflate δ]

theorem decompressLoop_capped {input out whole : Bytes} {start limit rounds capacity consumed : Nat}
    {codec after : Codec δ}
    (runs : (Codec.decompressLoop input start limit rounds capacity consumed out).Runs codec whole after) :
    whole.length ≤ limit := by
  induction rounds generalizing capacity consumed out codec with
  | zero => cases runs
  | succ rounds ih =>
      rw [Codec.decompressLoop] at runs
      obtain ⟨⟨status, appended⟩, middle, _, runs⟩ := runs.of_bind
      dsimp only at runs
      rw [Async.Runs, (Async.Runs.get middle).bind_eq] at runs
      split at runs
      · cases runs
      · next within =>
          split at runs
          · cases runs
            exact Nat.not_lt.mp within
          · split at runs
            · cases runs
            · exact ih runs

theorem FullCodec.decompress_capped {rounds limit : Nat} {data out : Bytes} {codec after : FullCodec γ δ}
    (runs : (FullCodec.decompress rounds data limit).Runs codec out after) : out.length ≤ limit := by
  unfold FullCodec.decompress at runs
  obtain ⟨half, decompresses, _⟩ := runs.of_zoom
  obtain ⟨start, _, state, rest⟩ := decompresses.of_bind
  obtain ⟨whole, _, loops, rest⟩ := rest.of_bind
  obtain ⟨_, _, _, last⟩ := rest.of_bind
  cases last
  exact decompressLoop_capped loops

instance [Rounds] [Deflate γ] : CappedCodec (FullCodec γ δ) := ⟨FullCodec.decompress_capped⟩

end Codecs

namespace WebSocketStream

variable {κ : Type} [DeflateCodec κ] {ws after : WebSocketStream κ} {assembly next : Assembly} {frame : Frame}
  {message : Option Message}

theorem decompressPayload_le [CappedCodec κ] {bytes : Bytes} (small : assembly.assembled.length ≤ maxPayload)
    (runs : (decompressPayload assembly).Runs ws bytes after) : bytes.length ≤ maxPayload := by
  obtain ⟨state, _, got, runs⟩ := runs.of_bind
  cases got
  split at runs
  · split at runs
    · obtain ⟨_, decompresses, _⟩ := runs.of_zoom
      exact CappedCodec.capped decompresses
    · cases runs
      exact small
  · cases runs
    exact small

/-- A data message has the bytes that it has been decompressed to. -/
theorem finish_data {bytes : Bytes} (runs : (finish assembly).Runs ws message after)
    (data : message.bind Message.data? = some bytes) : (decompressPayload assembly).Runs ws bytes after := by
  obtain ⟨assembled, middle, decompresses, runs⟩ := runs.of_bind
  split at runs
  · split at runs
    · next decoded =>
        cases runs
        cases data
        rw [Text.toUtf8_of_fromUtf8 decoded]
        exact decompresses
    · cases runs
  · cases runs
    cases data
    exact decompresses
  · cases runs

theorem handleFrame_small [CappedCodec κ] {progress : Progress}
    (small : assembly.assembled.length ≤ maxPayload)
    (runs : (handleFrame assembly frame).Runs ws progress after) : progress.Small := by
  cases accepted_of_runs runs with
  | ping => exact small
  | pong | close => exact small_of_dataless rfl
  | part _ size => exact size
  | last _ size finishes => exact fun bytes data => decompressPayload_le size (finish_data finishes data)

end WebSocketStream

namespace Receiver

open WebSocketStream

variable {κ : Type} [DeflateCodec κ] {receiver next : Receiver κ} {call : Receiving κ}

/-- What a receiver holds, and has returned. -/
structure Bounded (receiver : Receiver κ) : Prop where
  frameBuf : receiver.ws.frameBuf.length ≤ 14 + maxPayload + 8192
  assembly : ∀ call, receiver.call = some call → call.assembly.assembled.length ≤ maxPayload
  returned : ∀ message bytes, .ok (some message) ∈ receiver.returned → message.data? = some bytes →
    bytes.length ≤ maxPayload

theorem turn_bounded [CappedCodec κ] {ws after : WebSocketStream κ} {assembly : Assembly}
    {outcome : Outcome WsError Progress} (frameBuf : ws.frameBuf.length ≤ 14 + maxPayload + 8192)
    (small : assembly.assembled.length ≤ maxPayload) (turns : turn assembly ws = (outcome, after)) :
    after.frameBuf.length ≤ 14 + maxPayload + 8192 ∧ ∀ progress, outcome = .ready progress → progress.Small := by
  have still : ∀ {result middle}, timedRead 8192 ws = (result, middle) →
      middle.frameBuf.length ≤ 14 + maxPayload + 8192 := by
    intro result middle timed
    have kept := timedRead_frameBuf 8192 ws
    rw [timed] at kept
    rwa [kept]
  cases turn_turned turns with
  | refused refused => exact ⟨frameBuf, nofun⟩
  | @took frame consumed _ _ decoded handled =>
      have kept : after.frameBuf = ws.frameBuf.drop consumed := by
        have same := @handleFrame_keeps κ _ _ WebSocketStream.frameBuf (fun _ _ _ _ _ _ => rfl) assembly frame
          { ws with frameBuf := ws.frameBuf.drop consumed }
        rwa [handled] at same
      refine ⟨?_, fun progress same => ?_⟩
      · rw [kept, List.length_drop]
        exact (Nat.sub_le _ _).trans frameBuf
      · cases same
        exact handleFrame_small small handled
  | waits missing timed => exact ⟨still timed, nofun⟩
  | failed missing timed => exact ⟨still timed, nofun⟩
  | pinged missing timed =>
      refine ⟨still timed, fun progress same => ?_⟩
      cases same
      exact small
  | @appended chunk middle missing timed some =>
      refine ⟨?_, fun progress same => ?_⟩
      · have read := timedRead_le timed
        have kept := (timedRead_frameBuf 8192).of_runs timed
        have header := decode_missing missing
        rw [List.length_append, kept]
        omega
      · cases same
        exact small
  | ended missing timed received =>
      refine ⟨still timed, fun progress same => ?_⟩
      cases same
      exact small_of_dataless rfl
  | lost missing timed received => exact ⟨still timed, nofun⟩

theorem uncalled_small {κ : Type} (call : Receiving κ) (same : none = some call) :
    call.assembly.assembled.length ≤ maxPayload := by
  cases same

theorem settle_bounded [CappedCodec κ] {outcome : Outcome WsError Progress} {after : WebSocketStream κ}
    (bounded : receiver.Bounded) (small : call.assembly.assembled.length ≤ maxPayload)
    (frameBuf : after.frameBuf.length ≤ 14 + maxPayload + 8192)
    (ready : ∀ progress, outcome = .ready progress → progress.Small) :
    (receiver.settle call (outcome, after)).Bounded := by
  have failed : ∀ {error}, ∀ message bytes, .ok (some message) ∈ .error error :: receiver.returned →
      message.data? = some bytes → bytes.length ≤ maxPayload :=
    fun message bytes member => bounded.returned message bytes ((List.mem_cons.mp member).resolve_left nofun)
  cases outcome with
  | pending =>
      refine ⟨frameBuf, fun other same => ?_, bounded.returned⟩
      cases same
      exact small
  | failed error =>
      cases error with
      | protocol reason =>
          have kept : (failConnection reason after).2.frameBuf = after.frameBuf :=
            failConnection_keeps (fun _ _ _ _ _ _ => rfl) reason after
          exact ⟨by rw [settle, kept]; exact frameBuf, uncalled_small, failed⟩
      | io | connectionClosed | handshake | timedOut => exact ⟨frameBuf, uncalled_small, failed⟩
  | ready progress =>
      have within := ready progress rfl
      cases progress with
      | more assembly =>
          refine ⟨frameBuf, fun other same => ?_, bounded.returned⟩
          cases same
          exact within
      | done message =>
          refine ⟨frameBuf, uncalled_small, fun other bytes member data => ?_⟩
          obtain same | earlier := List.mem_cons.mp member
          · cases same
            exact within bytes data
          · exact bounded.returned other bytes earlier data

theorem step_bounded [CappedCodec κ] {event : Event} (bounded : receiver.Bounded)
    (steps : step receiver event = some next) : next.Bounded := by
  obtain ⟨frameBuf, assembly, returned⟩ := bounded
  cases step_stepped steps with
  | began free => exact ⟨frameBuf, fun _ same => Option.some.inj same ▸ Nat.zero_le _, returned⟩
  | @polled call called _ =>
      have small := assembly call called
      obtain ⟨within, ready⟩ := @turn_bounded κ _ _ _ _ _ _ frameBuf small (Prod.mk.eta (p := turn _ _)).symm
      exact settle_bounded ⟨frameBuf, assembly, returned⟩ small within ready
  | dropped => exact ⟨frameBuf, uncalled_small, returned⟩
  | arrived segments ending => exact ⟨frameBuf, assembly, returned⟩

theorem idle_bounded {κ : Type} {ws : WebSocketStream κ} (empty : ws.frameBuf = []) : (idle ws).Bounded where
  frameBuf := by
    rw [idle, empty]
    exact Nat.zero_le _
  assembly := uncalled_small
  returned message bytes member := by cases member

/-- A stream as the opening handshake hands it over. -/
def opened (conn : HttpConnection) (role : Role) (deflate : Option κ) (keepalive : Option KeepAlive)
    (masks : Nat → MaskKey) (expiries : Nat → Nat → Bool) : WebSocketStream κ :=
  { (fromConn conn role masks expiries : WebSocketStream κ) with deflate, keepalive }

/-- Whatever the peer sends, in whatever segments, and whatever calls are made. -/
theorem reachable_bounded {γ δ : Type} [Rounds] [Deflate γ] [Inflate δ] {conn : HttpConnection} {role : Role}
    {deflate : Option (FullCodec γ δ)} {keepalive : Option KeepAlive} {masks : Nat → MaskKey}
    {expiries : Nat → Nat → Bool} {receiver : Receiver (FullCodec γ δ)}
    (reached : Reachable step (idle (opened conn role deflate keepalive masks expiries)) receiver) :
    receiver.Bounded :=
  reached.invariant step_bounded (idle_bounded rfl)

theorem reachable_bounded_binary :
    letI : Rounds := ⟨1⟩
    ∃ receiver : Receiver (FullCodec Unit Unit),
      Lib.run step [.recv, .poll, .poll] (idle (opened (.new ⟨[[0x82, 1, 7]], .pending, []⟩) .client
        none none (fun _ => ⟨0, 0, 0, 0⟩) fun _ _ => false)) = some receiver ∧
      receiver.returned = [.ok (some (.binary [7]))] ∧ receiver.Bounded :=
  letI : Rounds := ⟨1⟩
  ⟨_, rfl, rfl, @reachable_bounded Unit Unit _ _ _ (.new ⟨[[0x82, 1, 7]], .pending, []⟩) .client none none
    (fun _ => ⟨0, 0, 0, 0⟩) (fun _ _ => false) _ ⟨[.recv, .poll, .poll], rfl⟩⟩

end Receiver

end TptAsync.Ws
