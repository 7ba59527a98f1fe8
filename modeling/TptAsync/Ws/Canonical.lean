import TptAsync.Ws.FrameProperties

set_option autoImplicit false

/-!
# What a decoded frame looked like

Every part of an accepted encoding is determined by the frame and its masking key, but for
the payload length, which may stand in a longer form than it needs.
-/

namespace TptAsync.Ws

open Lib

variable {buf : Bytes} {role : Role} {frame : Frame} {consumed : Nat}

theorem Opcode.toU8_of_fromU8 {code : UInt8} {opcode : Opcode} (read : Opcode.fromU8 code = .ok opcode) :
    opcode.toU8 = code := by
  unfold Opcode.fromU8 at read
  split at read <;> cases read <;> rfl

section Header

set_option maxRecDepth 2048 in
theorem byte_bits {code : Nat} (small : code < 256) (reserved : UInt8.ofNat code &&& 0x30 = 0) :
    (if UInt8.ofNat code &&& 0x80 ≠ 0 then 0x80 else 0x00) |||
      (if UInt8.ofNat code &&& 0x40 ≠ 0 then 0x40 else 0x00) |||
      (UInt8.ofNat code &&& 0x0F) = UInt8.ofNat code := by
  revert code
  decide

set_option maxRecDepth 2048 in
theorem byte_lengths {code : Nat} (small : code < 256) :
    (if UInt8.ofNat code &&& 0x80 ≠ 0 then 0x80 else 0x00) |||
      UInt8.ofNat (UInt8.ofNat code &&& 0x7F).toNat = UInt8.ofNat code ∧
    (UInt8.ofNat code &&& 0x7F).toNat < 128 := by
  revert code
  decide

/-- The first byte of an accepted frame. -/
theorem headerBits_of_accepted {bits : UInt8} {opcode : Opcode} (reserved : bits &&& 0x30 = 0)
    (read : Opcode.fromU8 (bits &&& 0x0F) = .ok opcode) :
    headerBits (bits &&& 0x80 ≠ 0) (bits &&& 0x40 ≠ 0) opcode = bits := by
  have same : UInt8.ofNat bits.toNat = bits := UInt8.ofNat_toNat
  have parts := byte_bits bits.toNat_lt
  rw [same] at parts
  simp only [headerBits, Opcode.toU8_of_fromU8 read, decide_eq_true_eq]
  exact parts reserved

end Header

/-- How a length may stand in a frame, by its seven bits and the bytes behind them. -/
inductive LengthForm : Nat → Bytes → Nat → Prop
  | seven {len : Nat} (short : len < 126) : LengthForm len [] len
  | two {field : Bytes} (width : field.length = 2) : LengthForm 126 field (Bytes.fromBe field)
  | eight {field : Bytes} (width : field.length = 8) : LengthForm 127 field (Bytes.fromBe field)

section Layout

theorem take_window (buf : Bytes) (start count : Nat) :
    buf.take (start + count) = buf.take start ++ buf.window start count :=
  List.take_add

theorem decodeLength_form {len7 len pos : Nat} (small : len7 < 128)
    (decoded : decodeLength buf len7 = .ok (some (len, pos))) :
    ∃ field, LengthForm len7 field len ∧ pos = 2 + field.length ∧
      buf.window 2 field.length = field := by
  have width : ∀ {count}, 2 + count ≤ buf.length → (buf.window 2 count).length = count := by
    intro count within
    rw [Bytes.window, List.length_take, List.length_drop]
    omega
  unfold decodeLength at decoded
  split at decoded
  · next medium =>
      subst medium
      split at decoded
      · cases decoded
      · cases decoded
        have two : (buf.window 2 2).length = 2 := width (by omega)
        exact ⟨_, .two two, by rw [two], by rw [two]⟩
  · split at decoded
    · next wide =>
        subst wide
        split at decoded
        · cases decoded
        · dsimp only at decoded
          split at decoded
          · cases decoded
          · cases decoded
            have eight : (buf.window 2 8).length = 8 := width (by omega)
            exact ⟨_, .eight eight, by rw [eight], by rw [eight]⟩
    · cases decoded
      exact ⟨[], .seven (by omega), rfl, List.take_zero⟩

theorem decodeMask_key {pos after : Nat} {masked : Bool} {mask : Option MaskKey}
    (decoded : decodeMask buf pos masked = some (mask, after)) :
    mask.isSome = masked ∧ after = pos + (keyBytes mask).length ∧
      buf.window pos (keyBytes mask).length = keyBytes mask := by
  unfold decodeMask at decoded
  split at decoded
  · next set =>
      split at decoded
      · next first second third fourth rest bytes =>
          cases decoded
          refine ⟨set.symm, rfl, ?_⟩
          rw [Bytes.window, bytes]
          rfl
      · cases decoded
  · next clear =>
      cases decoded
      exact ⟨(Bool.not_eq_true _ ▸ clear).symm, rfl, List.take_zero⟩

theorem checkMasking_iff {masked : Bool} :
    checkMasking role masked = .ok () ↔ (masked = true ↔ role = .server) := by
  cases role <;> cases masked <;> simp [checkMasking]

theorem decodePayload_layout {fin rsv1 masked : Bool} {opcode : Opcode} {payloadLen pos : Nat}
    (decoded : decodePayload buf role fin rsv1 opcode masked payloadLen pos =
      .ok (some (frame, consumed))) :
    ∃ mask, mask.isSome = masked ∧ (mask.isSome = true ↔ role = .server) ∧
      frame.fin = fin ∧ frame.rsv1 = rsv1 ∧ frame.opcode = opcode ∧
      frame.payload.length = payloadLen ∧
      buf.take consumed = buf.take pos ++ (keyBytes mask ++ maskedPayload frame.payload mask) := by
  unfold decodePayload at decoded
  split at decoded
  · cases decoded
  · split at decoded
    · cases decoded
    · cases masks : decodeMask buf pos masked with
      | none =>
          rw [masks] at decoded
          cases decoded
      | some found =>
          obtain ⟨mask, behind⟩ := found
          obtain ⟨same, after, key⟩ := decodeMask_key masks
          rw [masks] at decoded
          obtain ⟨_, checked, decoded⟩ := except_bind_ok decoded
          split at decoded
          · cases decoded
          · next whole =>
              cases decoded
              have length : (buf.window behind payloadLen).length = payloadLen := by
                rw [Bytes.window, List.length_take, List.length_drop]
                omega
              refine ⟨mask, same, ?_, rfl, rfl, rfl, ?_, ?_⟩
              · rw [same]
                exact checkMasking_iff.mp checked
              · exact (length_maskedPayload _ mask).trans length
              · rw [take_window, after, take_window, key, List.append_assoc]
                exact congrArg (fun body => buf.take pos ++ (keyBytes mask ++ body))
                  (maskedPayload_maskedPayload (buf.window _ payloadLen) mask).symm

/-- The bytes of an accepted frame. -/
theorem decode_layout (decoded : decode buf role = .ok (some (frame, consumed))) :
    ∃ mask len7 field, (mask.isSome = true ↔ role = .server) ∧ len7 < 128 ∧
      LengthForm len7 field frame.payload.length ∧
      buf.getD 1 0 &&& 0x7F = UInt8.ofNat len7 ∧ buf.window 2 field.length = field ∧
      buf.take consumed = headerBits frame.fin frame.rsv1 frame.opcode ::
        ((if mask.isSome then 0x80 else 0x00) ||| UInt8.ofNat len7) ::
        (field ++ (keyBytes mask ++ maskedPayload frame.payload mask)) := by
  unfold decode at decoded
  split at decoded
  · next bits lengths rest =>
      change (if _ then _ else _) = _ at decoded
      split at decoded
      · cases decoded
      · next reserved =>
          obtain ⟨opcode, read, decoded⟩ := except_bind_ok decoded
          obtain ⟨found, length, decoded⟩ := except_bind_ok decoded
          cases found with
          | none => cases decoded
          | some found =>
              obtain ⟨len, pos⟩ := found
              have parts := byte_lengths lengths.toNat_lt
              rw [UInt8.ofNat_toNat] at parts
              obtain ⟨field, form, rfl, window⟩ := decodeLength_form parts.2 length
              obtain ⟨mask, masked, masking, fin, rsv1, code, size, taken⟩ := decodePayload_layout decoded
              subst code size
              refine ⟨mask, (lengths &&& 0x7F).toNat, field, masking, parts.2, form, ?_, window, ?_⟩
              · exact UInt8.ofNat_toNat.symm
              · rw [taken, take_window, window, masked, fin, rsv1,
                  headerBits_of_accepted (by simpa using reserved) read]
                simp only [decide_eq_true_eq, parts.1]
                rw [List.append_assoc]
                rfl
  · cases decoded

end Layout

/-- The length of a frame is in the shortest form: a field of two bytes is for lengths from 126
on, and one of eight bytes for those that need more than two. -/
def MinimalLength (buf : Bytes) : Prop :=
  (buf.getD 1 0 &&& 0x7F = 126 → 126 ≤ Bytes.fromBe (buf.window 2 2)) ∧
    (buf.getD 1 0 &&& 0x7F = 127 → 65535 < Bytes.fromBe (buf.window 2 8))

/-- The form that `encode` chooses is the minimal one. -/
theorem LengthForm.minimal_iff {len7 len : Nat} {field : Bytes} (form : LengthForm len7 field len)
    (code : buf.getD 1 0 &&& 0x7F = UInt8.ofNat len7) (window : buf.window 2 field.length = field) :
    MinimalLength buf ↔ lengthCode len = len7 := by
  rw [MinimalLength, code]
  cases form with
  | seven short =>
      have other : ∀ {wide}, 126 ≤ wide → wide < 256 → UInt8.ofNat len7 ≠ UInt8.ofNat wide := by
        intro wide above below same
        have values := congrArg UInt8.toNat same
        rw [UInt8.toNat_ofNat_of_lt' (Nat.lt_of_lt_of_le short (by decide)),
          UInt8.toNat_ofNat_of_lt' below] at values
        omega
      refine iff_of_true ⟨fun same => ?_, fun same => ?_⟩ (if_pos short)
      · exact absurd same (other (by decide) (by decide))
      · exact absurd same (other (by decide) (by decide))
  | two width =>
      have small := Bytes.fromBe_lt field
      rw [width] at window small
      rw [window, lengthCode]
      constructor
      · intro minimal
        have wide := minimal.1 rfl
        rw [if_neg (by omega), if_pos (by omega)]
      · intro chosen
        refine ⟨fun _ => ?_, fun same => absurd same (by decide)⟩
        by_contra short
        rw [if_pos (by omega)] at chosen
        omega
  | eight width =>
      rw [width] at window
      rw [window, lengthCode]
      constructor
      · intro minimal
        have wide := minimal.2 rfl
        rw [if_neg (by omega), if_neg (by omega)]
      · intro chosen
        refine ⟨fun same => absurd same (by decide), fun _ => ?_⟩
        by_contra short
        split at chosen
        · omega
        · rw [if_pos (by omega)] at chosen
          omega

theorem LengthForm.bytes {len7 len : Nat} {field : Bytes} (form : LengthForm len7 field len)
    (chosen : lengthCode len = len7) : lengthBytes len = field := by
  have whole := Bytes.toBe_fromBe field
  rw [lengthCode] at chosen
  rw [lengthBytes]
  cases form with
  | seven short => exact if_pos short
  | two width =>
      rw [width] at whole
      split at chosen
      · omega
      · next long =>
          split at chosen
          · next medium => rw [if_neg long, if_pos medium, whole]
          · omega
  | eight width =>
      rw [width] at whole
      split at chosen
      · omega
      · next long =>
          split at chosen
          · omega
          · next wide => rw [if_neg long, if_neg wide, whole]

/-- What was decoded is the encoding of the frame, under some key where one is due, exactly when
its length is in the shortest form. -/
theorem decode_canonical_iff (decoded : decode buf role = .ok (some (frame, consumed))) :
    (∃ mask, (mask.isSome = true ↔ role = .server) ∧ encode frame mask = buf.take consumed) ↔
      MinimalLength buf := by
  obtain ⟨mask, len7, field, masking, small, form, code, window, taken⟩ := decode_layout decoded
  rw [form.minimal_iff code window]
  constructor
  · rintro ⟨other, _, same⟩
    rw [encode_eq, taken] at same
    have second := (List.cons.inj (List.cons.inj same).2).1
    rw [← (lengths_code (lengthCode_lt frame.payload.length) other.isSome).2, second]
    exact (lengths_code small mask.isSome).2
  · intro chosen
    refine ⟨mask, masking, (encode_eq frame mask).trans ?_⟩
    rw [taken, chosen, form.bytes chosen]

/-- A masked frame of a single byte. -/
theorem decode_canonical_iff_short :
    ∃ mask : Option MaskKey, (mask.isSome = true ↔ Role.server = .server) ∧
      encode ⟨true, false, .text, [7]⟩ mask = [0x81, 0x81, 1, 2, 3, 4, 6] := by
  have decoded : decode [0x81, 0x81, 1, 2, 3, 4, 6] .server =
      .ok (some (⟨true, false, .text, [7]⟩, 7)) := rfl
  exact (decode_canonical_iff decoded).mpr ⟨by decide, by decide⟩

/-- One byte of payload, its length in the two bytes of an extended length. -/
theorem decode_accepts_long_form :
    decode [0x82, 126, 0, 1, 7] .client = .ok (some (⟨true, false, .binary, [7]⟩, 5)) ∧
      ¬ ∃ mask, (mask.isSome = true ↔ Role.client = .server) ∧
        encode ⟨true, false, .binary, [7]⟩ mask = [0x82, 126, 0, 1, 7].take 5 := by
  refine ⟨by decide +kernel, ?_⟩
  rintro ⟨mask, masking, same⟩
  cases mask with
  | none => exact absurd same (by decide)
  | some key => exact absurd (masking.mp rfl) (by decide)

end TptAsync.Ws
