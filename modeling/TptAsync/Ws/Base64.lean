import TptAsync.Lib.Base64
import TptAsync.Ws.HandshakeProperties

set_option autoImplicit false

/-!
# Base64 of the opening handshake

`base64_encode` of `handshake.rs` packs three bytes into a word and cuts the word into sextets.
-/

namespace TptAsync.Ws

open Lib Lib.Base64

theorem base64Table_value : ∀ sextet < 64, value (base64Table.getD sextet 0) = some sextet := by
  decide

theorem base64Digit_value (word : UInt32) : value (base64Digit word) = some (word.toNat % 64) := by
  have masked : word.toNat &&& 63 = word.toNat % 64 := Nat.and_two_pow_sub_one_eq_mod word.toNat 6
  rw [base64Digit, masked]
  exact base64Table_value _ (Nat.mod_lt _ (by decide))

/-- The word that a chunk is packed into. -/
theorem packed (b0 b1 b2 : UInt8) :
    ((b0.toUInt32 <<< 16) ||| (b1.toUInt32 <<< 8) ||| b2.toUInt32).toNat = group b0 b1 b2 := by
  have first := b0.toNat_lt
  have second := b1.toNat_lt
  have high : (b0.toNat <<< 16) % 2 ^ 32 = b0.toNat <<< 16 := by
    rw [Nat.shiftLeft_eq]
    omega
  have middle : (b1.toNat <<< 8) % 2 ^ 32 = b1.toNat <<< 8 := by
    rw [Nat.shiftLeft_eq]
    omega
  have upper : b0.toNat <<< 16 ||| b1.toNat <<< 8 = (b0.toNat <<< 8 + b1.toNat) <<< 8 := by
    rw [Nat.shiftLeft_add_eq_or_of_lt second, Nat.shiftLeft_or_distrib, ← Nat.shiftLeft_add]
  simp only [UInt32.toNat_or, UInt32.toNat_shiftLeft, UInt8.toNat_toUInt32]
  rw [show (16 : UInt32).toNat % 32 = 16 from rfl, show (8 : UInt32).toNat % 32 = 8 from rfl, high, middle,
    upper, ← Nat.shiftLeft_add_eq_or_of_lt b2.toNat_lt]
  simp only [Nat.shiftLeft_eq, group]
  omega

section Chunks

variable {b0 b1 b2 : UInt8}

/-- The sextets that the four characters of a chunk show of its word. -/
structure Sextets (word : UInt32) (group : Nat) : Prop where
  first : value (base64Digit (word >>> 18)) = some (group / 2 ^ 18 % 64)
  second : value (base64Digit (word >>> 12)) = some (group / 2 ^ 12 % 64)
  third : value (base64Digit (word >>> 6)) = some (group / 2 ^ 6 % 64)
  fourth : value (base64Digit word) = some (group % 64)

theorem sextets {word : UInt32} {group : Nat} (packs : word.toNat = group) : Sextets word group := by
  subst packs
  constructor
  · simp [base64Digit_value, Nat.shiftRight_eq_div_pow]
  · simp [base64Digit_value, Nat.shiftRight_eq_div_pow]
  · simp [base64Digit_value, Nat.shiftRight_eq_div_pow]
  · exact base64Digit_value word

theorem base64Chunk_three {rest data : Bytes} (decodes : Base64.decode rest = some data) :
    Base64.decode (base64Chunk [b0, b1, b2] ++ rest) = some (b0 :: b1 :: b2 :: data) := by
  obtain ⟨first, second, third, fourth⟩ := sextets (packed b0 b1 b2)
  refine (decode_group first second third fourth decodes).trans ?_
  rw [join_parts (group_lt b0 b1 b2), bytesOf_group]
  rfl

theorem base64Chunk_two : Base64.decode (base64Chunk [b0, b1]) = some [b0, b1] := by
  obtain ⟨first, second, third, _⟩ := sextets (packed b0 b1 0)
  have parts := join_parts (group_lt b0 b1 0)
  have last : group b0 b1 0 % 64 = 0 := by
    simp only [group, UInt8.toNat_zero]
    omega
  rw [last] at parts
  have zero : group b0 b1 0 % 256 = 0 := by
    simp only [group, UInt8.toNat_zero]
    omega
  refine (decode_two first second third (by rw [parts, zero])).trans ?_
  rw [parts, bytesOf_group]
  rfl

theorem base64Chunk_one : Base64.decode (base64Chunk [b0]) = some [b0] := by
  obtain ⟨first, second, _, _⟩ := sextets (packed b0 0 0)
  have parts := join_parts (group_lt b0 0 0)
  have third : group b0 0 0 / 2 ^ 6 % 64 = 0 := by
    simp only [group, UInt8.toNat_zero]
    omega
  have last : group b0 0 0 % 64 = 0 := by
    simp only [group, UInt8.toNat_zero]
    omega
  rw [third, last] at parts
  have zero : group b0 0 0 % 65536 = 0 := by
    simp only [group, UInt8.toNat_zero]
    omega
  refine (decode_one first second (by rw [parts, zero])).trans ?_
  rw [parts, bytesOf_group]
  rfl

end Chunks

/-- The decoder reads back what was encoded: the bytes that a short chunk lacks leave no trace. -/
theorem decode_base64Encode (data : Bytes) : Base64.decode (base64Encode data) = some data := by
  fun_induction base64Encode data with
  | case1 b0 b1 b2 rest ih => exact base64Chunk_three ih
  | case2 => rfl
  | case3 chunk short nonempty =>
      rcases chunk with _ | ⟨b0, _ | ⟨b1, _ | ⟨b2, rest⟩⟩⟩
      · exact (nonempty rfl).elim
      · exact base64Chunk_one
      · exact base64Chunk_two
      · exact (short b0 b1 b2 rest rfl).elim

theorem base64Encode_injective : Function.Injective base64Encode := by
  intro left right same
  have decoded := congrArg Base64.decode same
  rw [decode_base64Encode, decode_base64Encode] at decoded
  exact Option.some.inj decoded

/-- Characters of the alphabet, and then as many of padding as the last chunk lacks bytes. -/
theorem base64Encode_padded (data : Bytes) :
    ∃ chars : Bytes, base64Encode data = chars ++ List.replicate ((3 - data.length % 3) % 3) pad ∧
      ∀ char ∈ chars, (value char).isSome := by
  have digit : ∀ word, (value (base64Digit word)).isSome := fun word =>
    Option.isSome_of_eq_some (base64Digit_value word)
  fun_induction base64Encode data with
  | case1 b0 b1 b2 rest ih =>
      obtain ⟨chars, encodes, stand⟩ := ih
      refine ⟨base64Chunk [b0, b1, b2] ++ chars, ?_, ?_⟩
      · rw [encodes, List.append_assoc]
        simp only [List.length_cons]
        congr 4
        omega
      · refine List.forall_mem_append.mpr ⟨?_, stand⟩
        simp [base64Chunk, digit]
  | case2 => exact ⟨[], rfl, by simp⟩
  | case3 chunk short nonempty =>
      rcases chunk with _ | ⟨b0, _ | ⟨b1, _ | ⟨b2, rest⟩⟩⟩
      · exact (nonempty rfl).elim
      · exact ⟨(base64Chunk [b0]).take 2, rfl, by simp [base64Chunk, digit]⟩
      · exact ⟨(base64Chunk [b0, b1]).take 3, rfl, by simp [base64Chunk, digit]⟩
      · exact (short b0 b1 b2 rest rfl).elim

/-- `base64_encode` is the encoding of RFC 4648, so different keys of a client and different
digests have different header values. -/
theorem base64_rfc4648 :
    (∀ data : Bytes, (base64Encode data).length = 4 * ((data.length + 2) / 3) ∧
      (∃ chars : Bytes, base64Encode data = chars ++ List.replicate ((3 - data.length % 3) % 3) pad ∧
        ∀ char ∈ chars, (value char).isSome) ∧
      Base64.decode (base64Encode data) = some data) ∧
    (Function.Injective fun key : Vector UInt8 16 => base64Encode key.toList) ∧
    (Function.Injective fun digest : Vector UInt8 20 => base64Encode digest.toList) ∧
    ∀ (sha1 : Bytes → Vector UInt8 20) (key other : Bytes),
      acceptKey sha1 key = acceptKey sha1 other ↔ sha1 (key ++ wsGuid) = sha1 (other ++ wsGuid) := by
  have digests : Function.Injective fun digest : Vector UInt8 20 => base64Encode digest.toList :=
    base64Encode_injective.comp fun _ _ => Vector.toList_inj.mp
  refine ⟨fun data => ⟨length_base64Encode data, base64Encode_padded data, decode_base64Encode data⟩,
    base64Encode_injective.comp fun _ _ => Vector.toList_inj.mp, digests, fun sha1 key other => ?_⟩
  exact digests.eq_iff

end TptAsync.Ws
