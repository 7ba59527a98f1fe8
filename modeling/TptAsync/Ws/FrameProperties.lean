import TptAsync.Lib.Except
import TptAsync.Ws.Frame

set_option autoImplicit false

/-!
# Decoding what was encoded

A frame is decoded from any bytes that start with its encoding, and before its last byte has
arrived the decoder asks for more. What it says of any bytes stands when more of them come.
-/

namespace TptAsync.Ws

open Lib

theorem applyMask_applyMask (data : Bytes) (key : MaskKey) : applyMask (applyMask data key) key = data := by
  rw [applyMask, applyMask, List.mapIdx_mapIdx]
  refine List.ext_getElem (by simp) fun i _ _ => ?_
  rw [List.getElem_mapIdx, Function.comp_apply, UInt8.xor_assoc, UInt8.xor_self, UInt8.xor_zero]

@[simp] theorem length_applyMask (data : Bytes) (key : MaskKey) : (applyMask data key).length = data.length := by
  simp [applyMask]

/-- A frame that the side with `role` accepts, in the masking that it expects. -/
structure Acceptable (role : Role) (frame : Frame) (mask : Option MaskKey) : Prop where
  size : frame.payload.length ≤ maxPayload
  control : frame.opcode.isControl = true → frame.payload.length ≤ 125
  masking : mask.isSome = true ↔ role = .server

section Parts

/-- The first byte. -/
def headerBits (fin rsv1 : Bool) (opcode : Opcode) : UInt8 :=
  (if fin then 0x80 else 0x00) ||| (if rsv1 then 0x40 else 0x00) ||| opcode.toU8

/-- The seven bits of a length. -/
def lengthCode (len : Nat) : Nat := if len < 126 then len else if len ≤ 65535 then 126 else 127

/-- The extended length. -/
def lengthBytes (len : Nat) : Bytes :=
  if len < 126 then [] else if len ≤ 65535 then Bytes.toBe 2 len else Bytes.toBe 8 len

def keyBytes (mask : Option MaskKey) : Bytes := (mask.map MaskKey.bytes).getD []

def maskedPayload (payload : Bytes) (mask : Option MaskKey) : Bytes :=
  (mask.map (applyMask payload)).getD payload

theorem encode_eq (frame : Frame) (mask : Option MaskKey) :
    encode frame mask = headerBits frame.fin frame.rsv1 frame.opcode ::
      ((if mask.isSome then 0x80 else 0x00) ||| UInt8.ofNat (lengthCode frame.payload.length)) ::
      (lengthBytes frame.payload.length ++ (keyBytes mask ++ maskedPayload frame.payload mask)) := by
  by_cases short : frame.payload.length < 126
  · cases mask <;>
      simp [encode, headerBits, lengthCode, lengthBytes, keyBytes, maskedPayload, short]
  · by_cases medium : frame.payload.length ≤ 65535 <;> cases mask <;>
      simp [encode, headerBits, lengthCode, lengthBytes, keyBytes, maskedPayload, short, medium]

theorem headerBits_parts (fin rsv1 : Bool) (opcode : Opcode) :
    headerBits fin rsv1 opcode &&& 0x30 = 0 ∧
      Opcode.fromU8 (headerBits fin rsv1 opcode &&& 0x0F) = .ok opcode ∧
      decide (headerBits fin rsv1 opcode &&& 0x80 ≠ 0) = fin ∧
      decide (headerBits fin rsv1 opcode &&& 0x40 ≠ 0) = rsv1 := by
  cases opcode <;> cases fin <;> cases rsv1 <;> exact ⟨by decide, rfl, by decide, by decide⟩

theorem lengthCode_lt (len : Nat) : lengthCode len < 128 := by
  unfold lengthCode
  split
  · omega
  · split <;> omega

theorem lengths_code {code : Nat} (small : code < 128) (masked : Bool) :
    decide (((if masked then 0x80 else 0x00) ||| UInt8.ofNat code) &&& 0x80 ≠ 0) = masked ∧
      (((if masked then 0x80 else 0x00) ||| UInt8.ofNat code) &&& 0x7F).toNat = code := by
  revert code
  cases masked <;> decide

theorem maskedPayload_maskedPayload (payload : Bytes) (mask : Option MaskKey) :
    maskedPayload (maskedPayload payload mask) mask = payload := by
  cases mask with
  | none => rfl
  | some key => exact applyMask_applyMask payload key

@[simp] theorem length_maskedPayload (payload : Bytes) (mask : Option MaskKey) :
    (maskedPayload payload mask).length = payload.length := by
  cases mask with
  | none => rfl
  | some key => exact length_applyMask payload key

end Parts

section Decode

variable {buf whole more : Bytes}

theorem decodeLength_initial {first second : UInt8} {len : Nat} (size : len ≤ maxPayload)
    (initial : buf <+: first :: second :: (lengthBytes len ++ more)) (started : 2 ≤ buf.length) :
    decodeLength buf (lengthCode len) =
      .ok (if buf.length < 2 + (lengthBytes len).length then none
        else some (len, 2 + (lengthBytes len).length)) := by
  have small : len < 256 ^ 8 := Nat.lt_of_le_of_lt size (by decide)
  have field : ∀ count, lengthBytes len = Bytes.toBe count len → len < 256 ^ count →
      2 + count ≤ buf.length → Bytes.fromBe (buf.window 2 count) = len := by
    intro count bytes fits within
    have same : buf.window 2 count = Bytes.toBe count len := by
      rw [Bytes.window_of_prefix initial within, bytes]
      have found := Bytes.window_append [first, second] (Bytes.toBe count len) more
      rwa [Bytes.length_toBe] at found
    rw [same, Bytes.fromBe_toBe fits]
  by_cases short : len < 126
  · have none : lengthBytes len = [] := if_pos short
    rw [lengthCode, if_pos short, decodeLength, if_neg (by omega), if_neg (by omega), none,
      if_neg (by rw [List.length_nil]; omega)]
    rfl
  · by_cases medium : len ≤ 65535
    · have bytes : lengthBytes len = Bytes.toBe 2 len := by
        rw [lengthBytes, if_neg short, if_pos medium]
      rw [lengthCode, if_neg short, if_pos medium, decodeLength, if_pos rfl]
      rw [show 2 + (lengthBytes len).length = 4 by rw [bytes, Bytes.length_toBe]]
      split
      · rfl
      · next long => rw [field 2 bytes (by omega) (by omega)]
    · have bytes : lengthBytes len = Bytes.toBe 8 len := by
        rw [lengthBytes, if_neg short, if_neg medium]
      rw [lengthCode, if_neg short, if_neg medium, decodeLength, if_neg (by decide), if_pos rfl]
      rw [show 2 + (lengthBytes len).length = 10 by rw [bytes, Bytes.length_toBe]]
      split
      · rfl
      · next long =>
          rw [field 8 bytes small (by omega)]
          exact if_neg (Nat.not_lt.mpr size)

theorem decodeMask_initial {before : Bytes} {mask : Option MaskKey}
    (initial : buf <+: before ++ (keyBytes mask ++ more)) (started : before.length ≤ buf.length) :
    decodeMask buf before.length mask.isSome =
      if buf.length < before.length + (keyBytes mask).length then none
      else some (mask, before.length + (keyBytes mask).length) := by
  cases mask with
  | none => exact (if_neg (Nat.not_lt.mpr started)).symm
  | some key =>
      obtain ⟨tail, rfl⟩ : before <+: buf :=
        List.prefix_of_prefix_length_le (List.prefix_append _ _) initial started
      have rest : tail <+: key.bytes ++ more := (List.prefix_append_right_inj before).mp initial
      rw [decodeMask, Option.isSome_some, if_pos rfl, List.drop_left]
      match tail, rest with
      | [], _ => simp [keyBytes, MaskKey.bytes]
      | [_], _ => simp [keyBytes, MaskKey.bytes]
      | [_, _], _ => simp [keyBytes, MaskKey.bytes]
      | [_, _, _], _ => simp [keyBytes, MaskKey.bytes]
      | first :: second :: third :: fourth :: _, rest =>
          simp only [MaskKey.bytes, List.cons_append, List.cons_prefix_cons] at rest
          obtain ⟨rfl, rfl, rfl, rfl, _⟩ := rest
          rw [if_neg (by simp [keyBytes, MaskKey.bytes])]
          rfl

theorem decodePayload_initial {role : Role} {frame : Frame} {mask : Option MaskKey} {before : Bytes}
    (acceptable : Acceptable role frame mask) (started : before.length ≤ buf.length)
    (initial : buf <+: before ++ (keyBytes mask ++ (maskedPayload frame.payload mask ++ more))) :
    decodePayload buf role frame.fin frame.rsv1 frame.opcode mask.isSome frame.payload.length
        before.length =
      let stop := before.length + (keyBytes mask).length + frame.payload.length
      .ok (if buf.length < stop then none else some (frame, stop)) := by
  have control : ¬ (frame.opcode.isControl = true ∧ 125 < frame.payload.length) :=
    fun both => Nat.not_lt.mpr (acceptable.control both.1) both.2
  have checked : checkMasking role mask.isSome = .ok () := by
    have masking := acceptable.masking
    cases role <;> cases mask <;> simp_all [checkMasking]
  simp only [decodePayload, if_neg (Nat.not_lt.mpr acceptable.size), if_neg control,
    decodeMask_initial initial started]
  by_cases keyless : buf.length < before.length + (keyBytes mask).length
  · rw [if_pos keyless, if_pos (by omega)]
  · rw [if_neg keyless]
    simp only [checked, bind, Except.bind]
    by_cases short : buf.length < before.length + (keyBytes mask).length + frame.payload.length
    · rw [if_pos short, if_pos short]
    · have payload : buf.window (before.length + (keyBytes mask).length) frame.payload.length =
          maskedPayload frame.payload mask := by
        rw [Bytes.window_of_prefix initial (by omega)]
        have found := Bytes.window_append (before ++ keyBytes mask) (maskedPayload frame.payload mask) more
        rwa [List.length_append, length_maskedPayload, List.append_assoc] at found
      rw [if_neg short, if_neg short, payload]
      exact congrArg (fun payload => Except.ok (some ({ frame with payload }, _)))
        (maskedPayload_maskedPayload frame.payload mask)

theorem length_encode (frame : Frame) (mask : Option MaskKey) :
    (encode frame mask).length =
      2 + (lengthBytes frame.payload.length).length + (keyBytes mask).length + frame.payload.length := by
  rw [encode_eq]
  simp only [List.length_cons, List.length_append, length_maskedPayload]
  omega

/-- The decoder behind the lengths, on the start of a frame and what follows it. -/
theorem decode_lengths {role : Role} {frame : Frame} {mask : Option MaskKey} {rest : Bytes}
    (size : frame.payload.length ≤ maxPayload) (initial : buf <+: encode frame mask ++ rest) :
    decode buf role =
      let start := 2 + (lengthBytes frame.payload.length).length
      if buf.length < start then .ok none
      else decodePayload buf role frame.fin frame.rsv1 frame.opcode mask.isSome frame.payload.length start := by
  obtain ⟨reserved, code, finBit, rsvBit⟩ := headerBits_parts frame.fin frame.rsv1 frame.opcode
  obtain ⟨masked, len7⟩ := lengths_code (lengthCode_lt frame.payload.length) mask.isSome
  rw [encode_eq] at initial
  simp only [List.cons_append, List.append_assoc] at initial
  match buf, initial with
  | [], _ => exact (if_pos (by rw [List.length_nil]; omega)).symm
  | [_], _ => exact (if_pos (by rw [List.length_singleton]; omega)).symm
  | first :: second :: tail, initial =>
      have bytes := initial
      simp only [List.cons_prefix_cons] at bytes
      obtain ⟨sameFirst, sameSecond, _⟩ := bytes
      rw [← sameFirst] at reserved code finBit rsvBit
      rw [← sameSecond] at masked len7
      rw [← sameFirst, ← sameSecond] at initial
      simp only [decode, reserved, ne_eq, not_true_eq_false, if_false, code, bind, Except.bind, len7,
        decodeLength_initial size initial (Nat.le_add_left 2 _)]
      by_cases lengthless : (first :: second :: tail).length < 2 + (lengthBytes frame.payload.length).length
      · rw [if_pos lengthless, if_pos lengthless]
      · rw [if_neg lengthless, if_neg lengthless]
        simp only [ne_eq] at finBit rsvBit masked
        simp only [finBit, rsvBit, masked]

theorem initial_body {frame : Frame} {mask : Option MaskKey} {rest : Bytes}
    (initial : buf <+: encode frame mask ++ rest) :
    ∃ before, before.length = 2 + (lengthBytes frame.payload.length).length ∧
      buf <+: before ++ (keyBytes mask ++ (maskedPayload frame.payload mask ++ rest)) := by
  rw [encode_eq] at initial
  refine ⟨headerBits frame.fin frame.rsv1 frame.opcode ::
    ((if mask.isSome then 0x80 else 0x00) ||| UInt8.ofNat (lengthCode frame.payload.length)) ::
      lengthBytes frame.payload.length, ?_, ?_⟩
  · simp only [List.length_cons]
    omega
  · simpa only [List.cons_append, List.append_assoc] using initial

/-- The decoder on the start of a frame, or on the frame with anything behind it. -/
theorem decode_initial {role : Role} {frame : Frame} {mask : Option MaskKey} {rest : Bytes}
    (acceptable : Acceptable role frame mask) (initial : buf <+: encode frame mask ++ rest) :
    decode buf role = .ok (if buf.length < (encode frame mask).length then none
      else some (frame, (encode frame mask).length)) := by
  obtain ⟨before, positions, body⟩ := initial_body initial
  rw [decode_lengths acceptable.size initial, length_encode]
  by_cases lengthless : buf.length < 2 + (lengthBytes frame.payload.length).length
  · rw [if_pos lengthless, if_pos (by omega)]
  · have payload := decodePayload_initial acceptable (by omega) body
    rw [positions] at payload
    rw [if_neg lengthless]
    exact payload

/-- A frame is decoded, whatever follows it. -/
theorem decode_whole {role : Role} {frame : Frame} {mask : Option MaskKey}
    (acceptable : Acceptable role frame mask) (rest : Bytes) :
    decode (encode frame mask ++ rest) role = .ok (some (frame, (encode frame mask).length)) := by
  rw [decode_initial acceptable (List.prefix_refl _), if_neg]
  rw [List.length_append]
  exact Nat.not_lt.mpr (Nat.le_add_right _ _)

/-- A frame in the other masking is refused once its key has come. -/
theorem decode_mismatched {role : Role} {frame : Frame} {mask : Option MaskKey} {rest : Bytes}
    (size : frame.payload.length ≤ maxPayload)
    (control : frame.opcode.isControl = true → frame.payload.length ≤ 125)
    {error : WsError} (refused : checkMasking role mask.isSome = .error error) :
    decode (encode frame mask ++ rest) role = .error error := by
  obtain ⟨before, positions, body⟩ := initial_body (List.prefix_refl (encode frame mask ++ rest))
  have within : 2 + (lengthBytes frame.payload.length).length + (keyBytes mask).length ≤
      (encode frame mask ++ rest).length := by
    rw [List.length_append, length_encode]
    omega
  have small : ¬ (frame.opcode.isControl = true ∧ 125 < frame.payload.length) :=
    fun both => Nat.not_lt.mpr (control both.1) both.2
  have keyed := decodeMask_initial body (by omega)
  rw [positions, if_neg (Nat.not_lt.mpr within)] at keyed
  rw [decode_lengths size (List.prefix_refl _), if_neg (by omega)]
  simp only [decodePayload, if_neg (Nat.not_lt.mpr size), if_neg small, keyed, refused]
  rfl

/-- A frame that is too large is refused once its length has come. -/
theorem decode_oversize {role : Role} {frame : Frame} {mask : Option MaskKey} {rest : Bytes}
    (large : maxPayload < frame.payload.length) (fits : frame.payload.length < 256 ^ 8) :
    decode (encode frame mask ++ rest) role = .error (.protocol "frame exceeds 16 MiB limit") := by
  obtain ⟨reserved, code, _, _⟩ := headerBits_parts frame.fin frame.rsv1 frame.opcode
  obtain ⟨_, len7⟩ := lengths_code (lengthCode_lt frame.payload.length) mask.isSome
  have long : ¬ frame.payload.length ≤ 65535 := fun short => by
    rw [maxPayload] at large
    omega
  have bytes : lengthBytes frame.payload.length = Bytes.toBe 8 frame.payload.length := by
    rw [lengthBytes, if_neg (by omega), if_neg long]
  have wide : lengthCode frame.payload.length = 127 := by
    rw [lengthCode, if_neg (by omega), if_neg long]
  rw [wide] at len7
  have field := Bytes.window_append
    [headerBits frame.fin frame.rsv1 frame.opcode,
      (if mask.isSome then 0x80 else 0x00) ||| UInt8.ofNat 127]
    (Bytes.toBe 8 frame.payload.length) (keyBytes mask ++ (maskedPayload frame.payload mask ++ rest))
  rw [Bytes.length_toBe] at field
  simp only [List.cons_append, List.nil_append, List.length_cons, List.length_nil] at field
  rw [encode_eq, bytes, wide]
  simp only [List.cons_append, List.append_assoc]
  simp only [decode, reserved, ne_eq, not_true_eq_false, if_false, code, bind, Except.bind, len7,
    decodeLength]
  rw [if_neg (by decide), if_pos trivial, if_neg]
  · rw [field, Bytes.fromBe_toBe fits, if_pos large]
  · simp only [List.length_cons, List.length_append, Bytes.length_toBe]
    omega

/-- Each side reads back what the other has encoded, and refuses what its own kind has. -/
theorem decode_encode (frame : Frame) (key : MaskKey) (rest : Bytes)
    (size : frame.payload.length ≤ maxPayload)
    (control : frame.opcode.isControl = true → frame.payload.length ≤ 125) :
    decode (encode frame (some key) ++ rest) .server =
        .ok (some (frame, (encode frame (some key)).length)) ∧
      decode (encode frame none ++ rest) .client = .ok (some (frame, (encode frame none).length)) ∧
      decode (encode frame (some key) ++ rest) .client =
        .error (.protocol "server frame is masked") ∧
      decode (encode frame none ++ rest) .server =
        .error (.protocol "client frame is not masked") := by
  have whole : ∀ mask, ¬ (encode frame mask ++ rest).length < (encode frame mask).length := by
    intro mask
    rw [List.length_append]
    omega
  have masked : Acceptable .server frame (some key) := ⟨size, control, by simp⟩
  have plain : Acceptable .client frame none := ⟨size, control, by simp⟩
  refine ⟨?_, ?_, decode_mismatched size control rfl, decode_mismatched size control rfl⟩
  · rw [decode_initial masked (List.prefix_refl _), if_neg (whole (some key))]
  · rw [decode_initial plain (List.prefix_refl _), if_neg (whole none)]

theorem decode_encode_ping :
    let frame : Frame := ⟨true, false, .ping, [1, 2]⟩
    decode (encode frame (some ⟨1, 2, 3, 4⟩) ++ [7]) .server =
        .ok (some (frame, (encode frame (some ⟨1, 2, 3, 4⟩)).length)) :=
  (decode_encode ⟨true, false, .ping, [1, 2]⟩ ⟨1, 2, 3, 4⟩ [7] (by decide) (by decide)).1

end Decode

section Extension

variable {buf : Bytes}

theorem decodeLength_append (more : Bytes) (len7 : Nat) :
    decodeLength buf len7 = .ok none ∨ decodeLength (buf ++ more) len7 = decodeLength buf len7 := by
  have same : ∀ count, 2 + count ≤ buf.length →
      (buf ++ more).window 2 count = buf.window 2 count := fun count within =>
    (Bytes.window_of_prefix (List.prefix_append buf more) within).symm
  have longer : buf.length ≤ (buf ++ more).length := by
    rw [List.length_append]
    exact Nat.le_add_right _ _
  by_cases two : len7 = 126
  · subst two
    by_cases short : buf.length < 4
    · exact .inl (by rw [decodeLength, if_pos rfl, if_pos short])
    · right
      rw [decodeLength, decodeLength, if_pos rfl, if_pos rfl, if_neg short, if_neg (by omega),
        same 2 (by omega)]
  · by_cases eight : len7 = 127
    · subst eight
      by_cases short : buf.length < 10
      · exact .inl (by rw [decodeLength, if_neg two, if_pos rfl, if_pos short])
      · right
        rw [decodeLength, decodeLength, if_neg two, if_neg two, if_pos rfl, if_pos rfl, if_neg short,
          if_neg (by omega), same 8 (by omega)]
    · exact .inr (by simp only [decodeLength, if_neg two, if_neg eight])

theorem decodeMask_append (more : Bytes) (pos : Nat) (masked : Bool) :
    decodeMask buf pos masked = none ∨
      decodeMask (buf ++ more) pos masked = decodeMask buf pos masked := by
  cases masked with
  | false => exact .inr rfl
  | true =>
      rcases shape : buf.drop pos with _ | ⟨first, _ | ⟨second, _ | ⟨third, _ | ⟨fourth, rest⟩⟩⟩⟩
      case cons.cons.cons.cons =>
        have within : pos ≤ buf.length := by
          have lengths := congrArg List.length shape
          simp only [List.length_drop, List.length_cons] at lengths
          omega
        have longer : (buf ++ more).drop pos = first :: second :: third :: fourth :: (rest ++ more) := by
          rw [List.drop_append_of_le_length within, shape]
          rfl
        exact .inr (by simp only [decodeMask, if_true, shape, longer])
      all_goals exact .inl (by simp only [decodeMask, if_true, shape])

theorem decodePayload_append (more : Bytes) (role : Role) (fin rsv1 : Bool) (opcode : Opcode)
    (masked : Bool) (payloadLen pos : Nat) :
    decodePayload buf role fin rsv1 opcode masked payloadLen pos = .ok none ∨
      decodePayload (buf ++ more) role fin rsv1 opcode masked payloadLen pos =
        decodePayload buf role fin rsv1 opcode masked payloadLen pos := by
  unfold decodePayload
  split
  · exact .inr rfl
  · split
    · exact .inr rfl
    · cases decodeMask_append more pos masked with
      | inl none => exact .inl (by rw [none])
      | inr same =>
          rw [same]
          cases decodeMask buf pos masked with
          | none => exact .inl rfl
          | some key =>
              obtain ⟨mask, pos⟩ := key
              cases checkMasking role masked with
              | error error => exact .inr rfl
              | ok _ =>
                  by_cases short : buf.length < pos + payloadLen
                  · exact .inl (if_pos short)
                  · right
                    have long : ¬ (buf ++ more).length < pos + payloadLen := by
                      rw [List.length_append]
                      omega
                    have window : (buf ++ more).window pos payloadLen = buf.window pos payloadLen :=
                      (Bytes.window_of_prefix (List.prefix_append buf more) (Nat.not_lt.mp short)).symm
                    change (if _ then _ else _) = (if _ then _ else _)
                    simp only [if_neg short, if_neg long, window]

/-- What the decoder has said does not change when more bytes come. -/
theorem decode_append (buf more : Bytes) (role : Role) :
    decode buf role = .ok none ∨ decode (buf ++ more) role = decode buf role := by
  match buf with
  | [] | [_] => exact .inl rfl
  | bits :: lengths :: rest =>
      let buf := bits :: lengths :: rest
      change decode buf role = _ ∨ decode (buf ++ more) role = _
      unfold decode
      change (if _ then _ else _) = _ ∨ (if _ then _ else _) = (if _ then _ else _)
      by_cases reserved : bits &&& 0x30 ≠ 0
      · exact .inr (by rw [if_pos reserved, if_pos reserved])
      · rw [if_neg reserved, if_neg reserved]
        cases Opcode.fromU8 (bits &&& 0x0F) with
        | error error => exact .inr rfl
        | ok opcode =>
            have length := @decodeLength_append buf more (lengths &&& 0x7F).toNat
            change (decodeLength buf _ >>= _) = _ ∨
              (decodeLength (buf ++ more) _ >>= _) = (decodeLength buf _ >>= _)
            cases length with
            | inl none => exact .inl (by rw [none]; rfl)
            | inr same =>
                rw [same]
                cases decodeLength buf (lengths &&& 0x7F).toNat with
                | error error => exact .inr rfl
                | ok length =>
                    cases length with
                    | none => exact .inl rfl
                    | some length => exact decodePayload_append more role _ _ opcode _ _ _

theorem decodeLength_pos {buf : Bytes} {len7 len pos : Nat}
    (decoded : decodeLength buf len7 = .ok (some (len, pos))) : 2 ≤ pos := by
  unfold decodeLength at decoded
  split at decoded
  · split at decoded
    · cases decoded
    · cases decoded; decide
  · split at decoded
    · split at decoded
      · cases decoded
      · dsimp only at decoded
        split at decoded
        · cases decoded
        · cases decoded; decide
    · cases decoded; decide

theorem decodeMask_pos {buf : Bytes} {pos after : Nat} {masked : Bool} {mask : Option MaskKey}
    (decoded : decodeMask buf pos masked = some (mask, after)) : pos ≤ after := by
  unfold decodeMask at decoded
  split at decoded
  · split at decoded
    · cases decoded
      exact Nat.le_add_right _ _
    · cases decoded
  · cases decoded
    exact Nat.le_refl _

theorem decodePayload_consumes {buf : Bytes} {role : Role} {fin rsv1 masked : Bool} {opcode : Opcode}
    {payloadLen pos consumed : Nat} {frame : Frame}
    (decoded : decodePayload buf role fin rsv1 opcode masked payloadLen pos =
      .ok (some (frame, consumed))) : pos ≤ consumed ∧ consumed ≤ buf.length := by
  unfold decodePayload at decoded
  split at decoded
  · cases decoded
  · split at decoded
    · cases decoded
    · cases masks : decodeMask buf pos masked with
      | none => rw [masks] at decoded; cases decoded
      | some key =>
          obtain ⟨mask, behind⟩ := key
          have further := decodeMask_pos masks
          rw [masks] at decoded
          obtain ⟨_, _, decoded⟩ := except_bind_ok decoded
          split at decoded
          · cases decoded
          · next whole =>
              cases decoded
              exact ⟨Nat.le_add_right_of_le further, Nat.not_lt.mp whole⟩

/-- A frame takes at least two bytes, and none that have not come. -/
theorem decode_consumes {buf : Bytes} {role : Role} {frame : Frame} {consumed : Nat}
    (decoded : decode buf role = .ok (some (frame, consumed))) :
    2 ≤ consumed ∧ consumed ≤ buf.length := by
  unfold decode at decoded
  split at decoded
  · next bits lengths rest =>
      change (if _ then _ else _) = _ at decoded
      split at decoded
      · cases decoded
      · obtain ⟨opcode, _, decoded⟩ := except_bind_ok decoded
        obtain ⟨found, length, decoded⟩ := except_bind_ok decoded
        cases found with
        | none => cases decoded
        | some found =>
            have first := decodeLength_pos length
            have last := decodePayload_consumes decoded
            exact ⟨Nat.le_trans first last.1, last.2⟩
  · cases decoded

end Extension

end TptAsync.Ws
