import TptAsync.Ws.Canonical
import TptAsync.Ws.Memory
import TptAsync.Ws.Violations

set_option autoImplicit false

/-!
# Marked frames

RSV1 belongs to the first frame of a compressed message. `recv` asks whether the extension has
been negotiated, and not where in a message the marked frame is.
-/

namespace TptAsync.Ws

open Lib Http

/-! ## The message that some frames are parts of -/

/-- The first frame of a message, among the frames that a call has taken. -/
def firstData (frames : List Frame) : Option Frame := frames.find? fun frame => frame.opcode.isData

/-- What the frames of a message carry. -/
def payloads (frames : List Frame) : Bytes :=
  (frames.filter fun frame => !frame.opcode.isControl).flatMap Frame.payload

def assemblyOf (frames : List Frame) : Assembly where
  opcode := (firstData frames).map Frame.opcode
  assembled := payloads frames
  compressed := (firstData frames).any Frame.rsv1

section Frames

variable {frames : List Frame} {frame : Frame}

theorem firstData_append (frames : List Frame) (frame : Frame) :
    firstData (frames ++ [frame]) =
      (firstData frames).or (if frame.opcode.isData then some frame else none) := by
  rw [firstData, List.find?_append, List.find?_singleton]
  rfl

theorem firstData_isData (first : firstData frames = some frame) : frame.opcode.isData = true :=
  List.find?_some (p := fun frame : Frame => frame.opcode.isData) first

theorem payloads_append (frames : List Frame) (frame : Frame) :
    payloads (frames ++ [frame]) = payloads frames ++ if frame.opcode.isControl then [] else frame.payload := by
  rw [payloads, List.filter_append, List.flatMap_append]
  cases control : frame.opcode.isControl <;> simp [payloads, control]

theorem assemblyOf_kind {opcode : Opcode} (kind : (assemblyOf frames).opcode = some opcode) :
    opcode.isData = true := by
  obtain ⟨first, found, rfl⟩ := Option.map_eq_some_iff.mp kind
  exact firstData_isData found

/-- Control frames are no parts of a message. -/
theorem assemblyOf_control (control : frame.opcode.isControl = true) :
    assemblyOf (frames ++ [frame]) = assemblyOf frames := by
  have other : frame.opcode.isData = false := by
    by_contra isData
    rw [isControl_of_isData (Bool.not_eq_false _ ▸ isData)] at control
    cases control
  simp only [assemblyOf, firstData_append, payloads_append, other, control]
  simp

theorem extend_assemblyOf (inOrder : WebSocketStream.InOrder (assemblyOf frames) frame.opcode) :
    WebSocketStream.extend (assemblyOf frames) frame = assemblyOf (frames ++ [frame]) := by
  obtain ⟨isData, idle⟩ | ⟨continues, _⟩ := inOrder
  · have fresh : firstData frames = none := Option.map_eq_none_iff.mp idle
    simp only [assemblyOf, firstData_append, payloads_append, isData, isControl_of_isData isData, fresh]
    simp [WebSocketStream.extend, isData]
  · simp only [assemblyOf, firstData_append, payloads_append, continues]
    simp [WebSocketStream.extend, continues, Opcode.isData, Opcode.isControl]

theorem decodePayload_control {buf : Bytes} {role : Role} {fin rsv1 masked : Bool} {opcode : Opcode}
    {payloadLen pos consumed : Nat}
    (decoded : decodePayload buf role fin rsv1 opcode masked payloadLen pos = .ok (some (frame, consumed)))
    (control : frame.opcode.isControl = true) : frame.payload.length ≤ 125 := by
  have small : ¬ (opcode.isControl = true ∧ 125 < payloadLen) := by
    intro large
    rw [decodePayload] at decoded
    split at decoded
    · cases decoded
    · cases decoded
  obtain ⟨_, _, _, _, _, same, size, _⟩ := decodePayload_layout decoded
  rw [size]
  exact Nat.not_lt.mp fun large => small ⟨same ▸ control, large⟩

theorem decode_control {buf : Bytes} {role : Role} {consumed : Nat}
    (decoded : decode buf role = .ok (some (frame, consumed))) (control : frame.opcode.isControl = true) :
    frame.payload.length ≤ 125 := by
  unfold decode at decoded
  split at decoded
  · dsimp only at decoded
    split at decoded
    · cases decoded
    · obtain ⟨opcode, _, decoded⟩ := except_bind_ok decoded
      obtain ⟨found, _, decoded⟩ := except_bind_ok decoded
      cases found with
      | none => cases decoded
      | some found => exact decodePayload_control decoded control
  · cases decoded

end Frames

namespace WebSocketStream

variable {κ : Type} {ws after : WebSocketStream κ} {assembly next : Assembly} {frame : Frame}
  {frames : List Frame} {bytes : Bytes}

/-- A message is under assembly just as the frames of the call say, and marked just where that has
been agreed on. -/
structure Assembled (frames : List Frame) (assembly : Assembly) (ws : WebSocketStream κ) : Prop where
  same : assembly = assemblyOf frames
  agreed : assembly.compressed = true → ws.deflate.isSome = true

/-- Only the codec matters. -/
theorem Assembled.congr (assembled : Assembled frames assembly ws) (same : after.deflate = ws.deflate) :
    Assembled frames assembly after where
  same := assembled.same
  agreed marked := by
    rw [same]
    exact assembled.agreed marked

theorem Assembled.kind (assembled : Assembled frames assembly ws) (opcode : Opcode)
    (kind : assembly.opcode = some opcode) : opcode.isData = true := by
  rw [assembled.same] at kind
  exact assemblyOf_kind kind

variable [DeflateCodec κ]

/-- How the bytes of a message come from its frames. -/
def Unpacked (frames : List Frame) (bytes : Bytes) (ws after : WebSocketStream κ) : Prop :=
  if (firstData frames).any Frame.rsv1 then
    ∃ codec codec', ws.deflate = some codec ∧ after.deflate = some codec' ∧
      (DeflateCodec.decompress (payloads frames) maxPayload).Runs codec bytes codec'
  else bytes = payloads frames ∧ after.deflate = ws.deflate

theorem decompressPayload_unpacked (agreed : (assemblyOf frames).compressed = true → ws.deflate.isSome = true)
    (runs : (decompressPayload (assemblyOf frames)).Runs ws bytes after) : Unpacked frames bytes ws after := by
  rw [Async.Runs, decompressPayload, (Async.Runs.get ws).bind_eq] at runs
  unfold Unpacked
  change (firstData frames).any Frame.rsv1 = true → _ at agreed
  cases codec : ws.deflate with
  | none =>
      rw [codec] at agreed
      rw [if_neg (fun marked => Bool.noConfusion (agreed marked))]
      simp only [codec] at runs
      cases runs
      exact ⟨rfl, codec⟩
  | some codec' =>
      simp only [codec] at runs
      by_cases marked : (firstData frames).any Frame.rsv1 = true
      · rw [if_pos marked]
        rw [if_pos (show (assemblyOf frames).compressed = true from marked)] at runs
        obtain ⟨last, decompresses, rfl⟩ := Async.Runs.of_zoom runs
        exact ⟨codec', last, rfl, rfl, decompresses⟩
      · rw [if_neg marked]
        rw [if_neg (show ¬ (assemblyOf frames).compressed = true from marked)] at runs
        cases runs
        exact ⟨rfl, codec⟩

/-- What a frame that is accepted does to the message under assembly. -/
theorem handleFrame_assembles {progress : Progress} (assembled : Assembled frames assembly ws)
    (runs : (handleFrame assembly frame).Runs ws progress after) :
    (∀ next, progress = .more next → Assembled (frames ++ [frame]) next after) ∧
      ∀ message bytes, progress = .done (some message) → message.data? = some bytes →
        Unpacked (frames ++ [frame]) bytes ws after := by
  obtain ⟨rfl, agreed⟩ := assembled
  have wellFormed := wellFormed_of_runs runs
  have agreed' : (extend (assemblyOf frames) frame).compressed = true → ws.deflate.isSome = true := by
    intro marked
    obtain earlier | here := Bool.or_eq_true_iff.mp marked
    · exact agreed earlier
    · exact wellFormed.rsv1 (Bool.and_eq_true_iff.mp here).1
  cases accepted_of_runs runs with
  | ping isPing sends =>
      obtain ⟨_, _, refused⟩ | ⟨_, masks, key, wrote⟩ := send_pong_cases frame.payload ws
      · cases refused.symm.trans sends
      · cases wrote.symm.trans sends
        refine ⟨fun next same => ?_, fun message bytes same => ?_⟩
        · cases same
          exact ⟨(assemblyOf_control (by rw [isPing]; rfl)).symm, agreed⟩
        · cases same
  | pong =>
      refine ⟨fun next same => ?_, fun message bytes same data => ?_⟩
      · cases same
      · cases same
        cases data
  | close =>
      refine ⟨fun next same => ?_, fun message bytes same => ?_⟩
      · cases same
      · cases same
  | part inOrder =>
      rw [extend_assemblyOf inOrder] at agreed' ⊢
      refine ⟨fun next same => ?_, fun message bytes same => ?_⟩
      · cases same
        exact ⟨rfl, agreed'⟩
      · cases same
  | last inOrder _ finishes =>
      rw [extend_assemblyOf inOrder] at agreed' finishes
      refine ⟨fun next same => ?_, fun message bytes same data => ?_⟩
      · cases same
      · cases same
        exact decompressPayload_unpacked agreed' (finish_data finishes data)

/-! ## What is refused -/

/-- A frame that begins no message, and is refused whether it is marked or not. -/
inductive Faulty (assembly : Assembly) (frame : Frame) (ws : WebSocketStream κ) : Prop where
  | fragmented (control : frame.opcode.isControl = true) (part : frame.fin = false)
  | close {error : WsError} (closes : frame.opcode = .close) (refused : parseClose frame.payload = .error error)
  | orphan (continues : frame.opcode = .continuation) (none : assembly.opcode = none)
  | large (continues : frame.opcode = .continuation)
      (size : maxPayload < (assembly.assembled ++ frame.payload).length)
  | corrupt {error : WsError} {after : WebSocketStream κ} (continues : frame.opcode = .continuation)
      (final : frame.fin = true) (fails : decompressPayload (extend assembly frame) ws = (.failed error, after))
  | text {bytes : Bytes} {after : WebSocketStream κ} (continues : frame.opcode = .continuation)
      (final : frame.fin = true) (kind : assembly.opcode = some .text)
      (decompressed : (decompressPayload (extend assembly frame)).Runs ws bytes after)
      (invalid : Text.fromUtf8 bytes = none)

/-- The frame is refused. -/
def Refused (assembly : Assembly) (frame : Frame) (ws : WebSocketStream κ) : Prop :=
  ∃ error, (handleFrame assembly frame ws).1 = .failed error

theorem refused_protocol [ViolatedCodec κ] (refused : Refused assembly frame ws) :
    ∃ reason, (handleFrame assembly frame ws).1 = .failed (.protocol reason) := by
  obtain ⟨error, fails⟩ := refused
  rw [fails]
  obtain ⟨⟨reason, rfl, _⟩, _⟩ | ⟨rfl, _⟩ := handleFrame_fails (Prod.ext fails rfl)
  · exact ⟨reason, rfl⟩
  · exact ⟨invalidUtf8, rfl⟩

theorem refused_of_malformed (malformed : ¬ WellFormed ws.deflate.isSome frame) :
    Refused assembly frame ws := by
  obtain ⟨error, _, fails⟩ := @handleFrame_malformed _ ws assembly _ _ malformed
  exact ⟨error, congrArg Prod.fst fails⟩

theorem refused_of_second (wellFormed : WellFormed ws.deflate.isSome frame) (isData : frame.opcode.isData = true)
    (begun : assembly.opcode.isSome = true) : Refused assembly frame ws := by
  rw [Refused, handleFrame_wellFormed wellFormed]
  cases opcode : frame.opcode with
  | text | binary =>
      dsimp only
      rw [if_pos begun]
      exact ⟨_, rfl⟩
  | continuation | close | ping | pong =>
      rw [opcode] at isData
      cases isData

theorem length_closePayload_of_parse {payload : Bytes} {info : Option (UInt16 × List Char)}
    (parses : parseClose payload = .ok info) : (closePayload info).length = payload.length := by
  unfold parseClose at parses
  split at parses
  · cases parses
    rfl
  · cases parses
  · dsimp only at parses
    split at parses
    · cases parses
    · split at parses
      · cases parses
      · next decoded =>
          cases parses
          simp only [closePayload, Text.toUtf8_of_fromUtf8 decoded, List.length_append, Bytes.length_toBe,
            List.length_cons]
          omega

theorem handleClose_refused_iff {payload : Bytes} (small : payload.length ≤ 125) :
    (∃ error, (handleClose payload ws).1 = .failed error) ↔ ∃ error, parseClose payload = .error error := by
  cases parses : parseClose payload with
  | error error =>
      refine iff_of_true ⟨error, ?_⟩ ⟨error, rfl⟩
      rw [handleClose, parses]
      rfl
  | ok info =>
      refine iff_of_false ?_ ?_
      · rintro ⟨error, fails⟩
        cases sent : ws.closeSent with
        | true =>
            rw [handleClose_second parses sent] at fails
            cases fails
        | false =>
            have parts := close_parts ((length_closePayload_of_parse parses).trans_le small)
            obtain ⟨masks, key, sends⟩ := @send_runs _ ws _ _ _ _ parts fun data => Bool.noConfusion data
            rw [handleClose_first parses sent sends] at fails
            cases fails
      · rintro ⟨_, same⟩
        cases same

theorem control_refused_iff (control : frame.opcode.isControl = true) (whole : frame.fin = true)
    (agreed : frame.rsv1 = true → ws.deflate.isSome = true) (small : frame.payload.length ≤ 125) :
    Refused assembly frame ws ↔
      frame.opcode = .close ∧ ∃ error, parseClose frame.payload = .error error := by
  rw [Refused, handleFrame_wellFormed ⟨agreed, fun _ => whole⟩]
  cases opcode : frame.opcode with
  | ping =>
      refine iff_of_false ?_ (fun closes => Opcode.noConfusion closes.1)
      obtain ⟨masks, key, sends⟩ := @send_runs _ ws _ _ _ _ (pong_parts small) nofun
      dsimp only
      rw [sends.bind_eq]
      rintro ⟨_, same⟩
      cases same
  | pong =>
      refine iff_of_false ?_ (fun closes => Opcode.noConfusion closes.1)
      rintro ⟨_, same⟩
      cases same
  | close =>
      rw [← @handleClose_refused_iff _ ws _ _ small]
      simp only [true_and]
      exact exists_congr fun error => Async.bind_pure_fails_iff
  | text | binary | continuation =>
      rw [opcode] at control
      cases control

theorem finish_refused_iff (kind : assembly.opcode = some .text ∨ assembly.opcode = some .binary) :
    (∃ error, (finish assembly ws).1 = .failed error) ↔
      (∃ error, (decompressPayload assembly ws).1 = .failed error) ∨
        assembly.opcode = some .text ∧
          ∃ bytes after, (decompressPayload assembly).Runs ws bytes after ∧ Text.fromUtf8 bytes = none := by
  cases ends : decompressPayload assembly ws with
  | mk outcome after =>
      cases outcome with
      | pending =>
          rw [finish, Async.bind_pending ends]
          refine iff_of_false ?_ ?_
          · rintro ⟨_, ⟨⟩⟩
          · rintro (⟨_, ⟨⟩⟩ | ⟨_, _, _, runs, _⟩)
            cases ends.symm.trans runs
      | failed error =>
          rw [finish, Async.bind_failed ends]
          exact iff_of_true ⟨error, rfl⟩ (.inl ⟨error, rfl⟩)
      | ready bytes =>
          rw [finish, Async.Runs.bind_eq ends]
          obtain text | binary := kind
          · simp only [text]
            cases decoded : Text.fromUtf8 bytes with
            | none => exact iff_of_true ⟨_, rfl⟩ (.inr ⟨trivial, bytes, after, ends, decoded⟩)
            | some string =>
                refine iff_of_false ?_ ?_
                · rintro ⟨_, ⟨⟩⟩
                · rintro (⟨_, ⟨⟩⟩ | ⟨_, _, _, runs, invalid⟩)
                  cases ends.symm.trans runs
                  cases decoded.symm.trans invalid
          · simp only [binary]
            refine iff_of_false ?_ ?_
            · rintro ⟨_, ⟨⟩⟩
            · rintro (⟨_, ⟨⟩⟩ | ⟨⟨⟩, _⟩)

/-- What may be wrong with a continuation. -/
theorem Faulty.continuation (faulty : Faulty assembly frame ws) (continues : frame.opcode = .continuation) :
    assembly.opcode = none ∨ maxPayload < (extend assembly frame).assembled.length ∨
      frame.fin = true ∧ ((∃ error, (decompressPayload (extend assembly frame) ws).1 = .failed error) ∨
        assembly.opcode = some .text ∧
          ∃ bytes after, (decompressPayload (extend assembly frame)).Runs ws bytes after ∧
            Text.fromUtf8 bytes = none) := by
  cases faulty with
  | fragmented control =>
      rw [continues] at control
      cases control
  | close closes => cases continues.symm.trans closes
  | orphan _ none => exact .inl none
  | large _ size => exact .inr (.inl size)
  | corrupt _ final fails => exact .inr (.inr ⟨final, .inl ⟨_, congrArg Prod.fst fails⟩⟩)
  | text _ final kind runs invalid => exact .inr (.inr ⟨final, .inr ⟨kind, _, _, runs, invalid⟩⟩)

theorem continuation_refused_iff (continues : frame.opcode = .continuation)
    (agreed : frame.rsv1 = true → ws.deflate.isSome = true)
    (kind : ∀ opcode, assembly.opcode = some opcode → opcode.isData = true) :
    Refused assembly frame ws ↔ Faulty assembly frame ws := by
  have wellFormed : WellFormed ws.deflate.isSome frame :=
    ⟨agreed, fun control => by rw [continues] at control; cases control⟩
  have opcode : (extend assembly frame).opcode = assembly.opcode := by
    simp [extend, continues, Opcode.isData]
  cases begun : assembly.opcode with
  | none =>
      refine iff_of_true ?_ (.orphan continues begun)
      rw [Refused, handleFrame_wellFormed wellFormed, continues]
      simp only [begun, Option.isNone_none, if_true]
      exact ⟨_, rfl⟩
  | some first =>
      have inOrder : InOrder assembly frame.opcode := .inr ⟨continues, by rw [begun]; rfl⟩
      by_cases size : (extend assembly frame).assembled.length ≤ maxPayload
      · rw [Refused, handleFrame_within wellFormed inOrder size]
        have placed : (extend assembly frame).opcode = some .text ∨
            (extend assembly frame).opcode = some .binary := by
          have isData := kind first begun
          rw [opcode, begun]
          cases first with
          | text => exact .inl rfl
          | binary => exact .inr rfl
          | continuation | close | ping | pong => cases isData
        have others : Faulty assembly frame ws → frame.fin = true ∧ _ := fun faulty =>
          ((faulty.continuation continues).resolve_left fun none =>
            Option.some_ne_none first (begun.symm.trans none)).resolve_left (Nat.not_lt.mpr size)
        cases final : frame.fin with
        | false =>
            refine iff_of_false ?_ fun faulty => Bool.noConfusion (final.symm.trans (others faulty).1)
            rintro ⟨_, ⟨⟩⟩
        | true =>
            rw [if_pos rfl]
            have finishes := exists_congr fun error => @Async.bind_pure_fails_iff _ _ _ _
              (finish (extend assembly frame)) ws Progress.done error
            rw [finishes, finish_refused_iff placed, opcode]
            refine ⟨?_, fun faulty => (others faulty).2⟩
            rintro (⟨error, fails⟩ | ⟨text, bytes, after, runs, invalid⟩)
            · exact .corrupt continues final (Prod.ext fails rfl)
            · exact .text continues final text runs invalid
      · have large := Nat.not_le.mp size
        exact iff_of_true ⟨_, congrArg Prod.fst (handleFrame_large wellFormed inOrder large)⟩
          (.large continues large)

/-- Which of the frames that begin no message are refused, once they are allowed to be marked. -/
theorem refused_iff_faulty (other : frame.opcode.isData = false)
    (agreed : frame.rsv1 = true → ws.deflate.isSome = true)
    (small : frame.opcode.isControl = true → frame.payload.length ≤ 125)
    (kind : ∀ opcode, assembly.opcode = some opcode → opcode.isData = true) :
    Refused assembly frame ws ↔ Faulty assembly frame ws := by
  cases control : frame.opcode.isControl with
  | true =>
      have notContinuation : frame.opcode ≠ .continuation := by
        intro continues
        rw [continues] at control
        cases control
      cases final : frame.fin with
      | false =>
          refine iff_of_true (refused_of_malformed fun wellFormed => ?_) (.fragmented control final)
          cases final.symm.trans (wellFormed.whole control)
      | true =>
          rw [control_refused_iff control final agreed (small control)]
          constructor
          · rintro ⟨closes, _, refused⟩
            exact .close closes refused
          · intro faulty
            cases faulty with
            | fragmented _ part => cases final.symm.trans part
            | close closes refused => exact ⟨closes, _, refused⟩
            | orphan continues | large continues | corrupt continues | text continues =>
                exact absurd continues notContinuation
  | false =>
      refine continuation_refused_iff ?_ agreed kind
      cases opcode : frame.opcode with
      | continuation => rfl
      | text | binary =>
          rw [opcode] at other
          cases other
      | close | ping | pong =>
          rw [opcode] at control
          cases control

theorem timedRead_assembled {result : Outcome WsError Waiting} (assembled : Assembled frames assembly ws)
    (missing : decode ws.frameBuf ws.role = .ok none) (timed : timedRead 8192 ws = (result, after)) :
    Assembled (frames ++ ws.frameAhead.toList) assembly after := by
  have pings := Async.Moves.same_iff.mp (timedRead_pings 8192) ws
  rw [timed] at pings
  rw [frameAhead_missing missing, Option.toList_none, List.append_nil]
  exact assembled.congr pings.unchanged.deflate

theorem turn_assembles {outcome : Outcome WsError Progress} (assembled : Assembled frames assembly ws)
    (turns : turn assembly ws = (outcome, after)) :
    (∀ next, outcome = .ready (.more next) → Assembled (frames ++ ws.frameAhead.toList) next after) ∧
      (outcome = .pending → ws.frameAhead = none →
        Assembled (frames ++ ws.frameAhead.toList) assembly after) := by
  cases turn_turned turns with
  | refused refused => exact ⟨nofun, nofun⟩
  | @took frame consumed _ _ decoded handled =>
      refine ⟨fun next same => ?_, fun _ none => ?_⟩
      · cases same
        rw [frameAhead_decoded decoded]
        have assembled' : Assembled frames assembly { ws with frameBuf := ws.frameBuf.drop consumed } :=
          assembled.congr rfl
        exact (handleFrame_assembles assembled' handled).1 _ rfl
      · cases none.symm.trans (frameAhead_decoded decoded)
  | waits missing timed => exact ⟨nofun, fun _ _ => timedRead_assembled assembled missing timed⟩
  | failed missing timed => exact ⟨nofun, nofun⟩
  | pinged missing timed =>
      refine ⟨fun next same => ?_, nofun⟩
      cases same
      exact timedRead_assembled assembled missing timed
  | appended missing timed some =>
      refine ⟨fun next same => ?_, nofun⟩
      cases same
      exact (timedRead_assembled assembled missing timed).congr rfl
  | ended missing timed received =>
      refine ⟨fun next same => ?_, nofun⟩
      cases same
  | lost missing timed received => exact ⟨nofun, nofun⟩

end WebSocketStream

namespace Receiver

open WebSocketStream

variable {κ : Type} [DeflateCodec κ] {receiver next : Receiver κ} {call : Receiving κ} {frame : Frame}

/-- A frame that may be marked: the first one of a message, when that has been agreed on. -/
def MayMark (negotiated : Bool) (frames : List Frame) (frame : Frame) : Prop :=
  negotiated = true ∧ frame.opcode.isData = true ∧ firstData frames = none

/-- A marked frame is refused where none may be, and a message is decompressed just where its
first frame is marked. -/
def Rsv1Checked (receiver : Receiver κ) : Event → Prop
  | .poll => ∀ call frame consumed next, receiver.call = some call →
      decode receiver.ws.frameBuf receiver.ws.role = .ok (some (frame, consumed)) →
      step receiver .poll = some next →
        (frame.rsv1 = true → ¬ MayMark receiver.ws.deflate.isSome call.frames frame →
          ∃ reason, next.returned = .error (.protocol reason) :: receiver.returned) ∧
        ∀ message bytes, next.returned = .ok (some message) :: receiver.returned →
          message.data? = some bytes → Unpacked (call.frames ++ [frame]) bytes receiver.ws next.ws
  | _ => True

/-- Where the extension has been negotiated, no other frame is marked than the first one of a
message, but for those that are refused in any case. -/
def Unmarked (receiver : Receiver κ) : Event → Prop
  | .poll => ∀ call frame consumed, receiver.call = some call →
      decode receiver.ws.frameBuf receiver.ws.role = .ok (some (frame, consumed)) →
      receiver.ws.deflate.isSome = true → frame.rsv1 = true → frame.opcode.isData = false →
        Faulty call.assembly frame { receiver.ws with frameBuf := receiver.ws.frameBuf.drop consumed }
  | _ => True

/-- The message of a call in progress is under assembly just as its frames say. -/
def Assembles (receiver : Receiver κ) : Prop :=
  ∀ call, receiver.call = some call → Assembled call.frames call.assembly receiver.ws

theorem settle_fails_iff {outcome : Outcome WsError Progress} {after : WebSocketStream κ} {error : WsError} :
    (receiver.settle call (outcome, after)).returned = .error error :: receiver.returned ↔
      outcome = .failed error := by
  cases outcome with
  | pending => exact iff_of_false List.ne_cons_self (by rintro ⟨⟩)
  | ready progress =>
      cases progress with
      | more assembly => exact iff_of_false List.ne_cons_self (by rintro ⟨⟩)
      | done message => exact iff_of_false (fun same => by cases (List.cons.inj same).1) (by rintro ⟨⟩)
  | failed failure =>
      rw [settle_failure]
      simp

theorem settle_returns {outcome : Outcome WsError Progress} {after : WebSocketStream κ} {message : Option Message}
    (returns : (receiver.settle call (outcome, after)).returned = .ok message :: receiver.returned) :
    outcome = .ready (.done message) ∧ (receiver.settle call (outcome, after)).ws = after := by
  cases outcome with
  | pending => exact absurd returns List.ne_cons_self
  | ready progress =>
      cases progress with
      | more assembly => exact absurd returns List.ne_cons_self
      | done other =>
          cases (List.cons.inj returns).1
          exact ⟨rfl, rfl⟩
  | failed failure => cases (List.cons.inj ((settle_failure ..).symm.trans returns)).1

theorem settle_assembles {outcome : Outcome WsError Progress} {after : WebSocketStream κ} {frames : List Frame}
    (more : ∀ assembly, outcome = .ready (.more assembly) → Assembled frames assembly after)
    (waits : outcome = .pending → Assembled frames call.assembly after) :
    (receiver.settle { call with frames } (outcome, after)).Assembles := by
  intro other same
  cases outcome with
  | pending =>
      cases same
      exact waits rfl
  | ready progress =>
      cases progress with
      | more assembly =>
          cases same
          exact more assembly rfl
      | done message => cases same
  | failed error => cases error <;> cases same

theorem step_assembles {event : Event} (assembles : receiver.Assembles) (steps : step receiver event = some next) :
    next.Assembles := by
  cases step_stepped steps with
  | began free =>
      intro other same
      cases same
      exact ⟨rfl, fun marked => Bool.noConfusion marked⟩
  | @polled call called takes =>
      cases ends : turn call.assembly receiver.ws with
      | mk outcome after =>
          obtain ⟨more, waits⟩ := turn_assembles (assembles call called) ends
          rw [ends] at takes
          rw [poll, ends]
          exact settle_assembles more fun pending => waits pending (takes pending)
  | dropped =>
      intro other same
      cases same
  | arrived segments ending => exact fun call called => (assembles call called).congr rfl

/-- What a step makes of a frame is what is made of the frame. -/
theorem step_decoded {consumed : Nat} (called : receiver.call = some call)
    (decoded : decode receiver.ws.frameBuf receiver.ws.role = .ok (some (frame, consumed)))
    (steps : step receiver .poll = some next) :
    ∃ outcome after, handleFrame call.assembly frame
        { receiver.ws with frameBuf := receiver.ws.frameBuf.drop consumed } = (outcome, after) ∧
      next = { receiver with reads := receiver.ws.readAhead.toList ++ receiver.reads }.settle
        { call with frames := call.frames ++ [frame] } (outcome, after) := by
  obtain ⟨other, called', rfl, _⟩ := polled_of_step steps
  cases called.symm.trans called'
  refine ⟨_, _, (Prod.mk.eta (p := handleFrame _ _ _)).symm, ?_⟩
  rw [poll, turn_decoded decoded, frameAhead_decoded decoded]
  rfl

theorem checked_iff_unmarked [ViolatedCodec κ] {event : Event} (assembles : receiver.Assembles)
    (steps : step receiver event = some next) : Rsv1Checked receiver event ↔ Unmarked receiver event := by
  cases event with
  | recv | drop | arrives => exact Iff.rfl
  | poll =>
      constructor
      · intro checked call frame consumed called decoded negotiated marked other
        obtain ⟨outcome, after, handled, rfl⟩ := step_decoded called decoded steps
        have assembled : Assembled call.frames call.assembly
            { receiver.ws with frameBuf := receiver.ws.frameBuf.drop consumed } :=
          (assembles call called).congr rfl
        obtain ⟨reason, fails⟩ := (checked call frame consumed _ called decoded steps).1 marked
          fun may => Bool.noConfusion (other.symm.trans may.2.1)
        cases settle_fails_iff.mp fails
        refine (refused_iff_faulty other (fun _ => ?_) (decode_control decoded) assembled.kind).mp
          ⟨_, congrArg Prod.fst handled⟩
        exact negotiated
      · intro unmarked call frame consumed next' called decoded steps'
        obtain ⟨outcome, after, handled, rfl⟩ := step_decoded called decoded steps'
        have assembled : Assembled call.frames call.assembly
            { receiver.ws with frameBuf := receiver.ws.frameBuf.drop consumed } :=
          (assembles call called).congr rfl
        refine ⟨fun marked mayNot => ?_, fun message bytes returns data => ?_⟩
        · have refused : Refused call.assembly frame
              { receiver.ws with frameBuf := receiver.ws.frameBuf.drop consumed } := by
            by_cases wellFormed : WellFormed receiver.ws.deflate.isSome frame
            · have negotiated := wellFormed.rsv1 marked
              cases isData : frame.opcode.isData with
              | true =>
                  refine refused_of_second wellFormed isData ?_
                  rw [assembled.same]
                  have begun : firstData call.frames ≠ none := fun none => mayNot ⟨negotiated, isData, none⟩
                  simpa [assemblyOf, Option.isSome_iff_ne_none] using begun
              | false =>
                  refine (refused_iff_faulty isData (fun _ => ?_) (decode_control decoded) assembled.kind).mpr
                    (unmarked call frame consumed called decoded negotiated marked isData)
                  exact negotiated
            · exact refused_of_malformed wellFormed
          obtain ⟨reason, fails⟩ := refused_protocol refused
          rw [handled] at fails
          exact ⟨reason, settle_fails_iff.mpr fails⟩
        · obtain ⟨rfl, same⟩ := settle_returns returns
          rw [same]
          exact (handleFrame_assembles assembled handled).2 message bytes rfl data

/-- In whatever state a stream is, and whatever a peer sends: the runs in which RSV1 is minded are
those in which no peer marks another frame than the first one of a message. -/
theorem rsv1_checked_iff_unmarked {γ δ : Type} [Rounds] [Deflate γ] [Inflate δ]
    (start : WebSocketStream (FullCodec γ δ)) (events : List Event) :
    AllAllowed step Rsv1Checked events (idle start) ↔ AllAllowed step Unmarked events (idle start) :=
  allAllowed_congr Assembles step_assembles checked_iff_unmarked (fun _ same => by cases same)

/-- A client that has agreed on permessage-deflate, with some bytes from its peer. -/
def deflatingClient (bytes : Bytes) : WebSocketStream (FullCodec Unit Unit) :=
  { clientReceiving bytes with deflate := some .serverDefault }

/-- A marked Ping is answered as if it were not marked. -/
theorem rsv1_checked_ping :
    letI : Rounds := ⟨1⟩
    ¬ AllAllowed step Rsv1Checked [.recv, .poll, .poll] (idle (deflatingClient [0xC9, 0])) := by
  let rounds : Rounds := ⟨1⟩
  intro all
  obtain ⟨_, all⟩ := all _ rfl
  obtain ⟨_, all⟩ := all _ rfl
  obtain ⟨checked, _⟩ := all _ rfl
  obtain ⟨refused, _⟩ := checked _ ⟨true, true, .ping, []⟩ 2 _ rfl rfl rfl
  obtain ⟨_, returned⟩ := refused rfl (by rintro ⟨_, ⟨⟩, _⟩)
  cases returned

end Receiver

end TptAsync.Ws
