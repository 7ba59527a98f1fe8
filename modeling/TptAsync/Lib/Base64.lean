import Mathlib.Data.Nat.Basic
import TptAsync.Lib.Bytes

set_option autoImplicit false

/-!
# Decoding Base64

RFC 4648, section 4: four characters of six bits each stand for three bytes, and the last group
may be padded.
-/

namespace TptAsync.Lib.Base64

def pad : UInt8 := 61

/-- The six bits that a character of the standard alphabet stands for. -/
def value (char : UInt8) : Option Nat :=
  if 65 ≤ char ∧ char ≤ 90 then some (char.toNat - 65)
  else if 97 ≤ char ∧ char ≤ 122 then some (char.toNat - 71)
  else if 48 ≤ char ∧ char ≤ 57 then some (char.toNat + 4)
  else if char = 43 then some 62
  else if char = 47 then some 63
  else none

/-- Six-bit values from the most significant on, as one number. -/
def join (values : List Nat) : Nat :=
  values.foldl (fun high low => high * 64 + low) 0

/-- The three bytes of a 24-bit group. -/
def bytesOf (group : Nat) : Bytes :=
  [.ofNat (group / 2 ^ 16), .ofNat (group / 2 ^ 8), .ofNat group]

/-- A group whose last characters are padding, and stand for bits that must be zero. -/
def decodeShort (chars : Bytes) (count : Nat) : Option Bytes := do
  let values ← chars.mapM value
  let group := join (values ++ List.replicate (4 - values.length) 0)
  if group % 256 ^ (3 - count) = 0 then some ((bytesOf group).take count) else none

def decode : Bytes → Option Bytes
  | c0 :: c1 :: c2 :: c3 :: rest =>
      if c3 = pad then
        if rest ≠ [] then none
        else if c2 = pad then decodeShort [c0, c1] 1
        else decodeShort [c0, c1, c2] 2
      else do
        let values ← [c0, c1, c2, c3].mapM value
        some (bytesOf (join values) ++ (← decode rest))
  | [] => some []
  | _ => none

theorem value_pad : value pad = none := by decide

theorem ne_pad {char : UInt8} {sextet : Nat} (stands : value char = some sextet) : char ≠ pad := by
  rintro rfl
  cases value_pad.symm.trans stands

section Groups

variable {c0 c1 c2 c3 : UInt8} {v0 v1 v2 v3 : Nat} {rest data : Bytes}

theorem decode_group (first : value c0 = some v0) (second : value c1 = some v1)
    (third : value c2 = some v2) (fourth : value c3 = some v3) (decodes : decode rest = some data) :
    decode (c0 :: c1 :: c2 :: c3 :: rest) = some (bytesOf (join [v0, v1, v2, v3]) ++ data) := by
  simp [decode, ne_pad fourth, first, second, third, fourth, decodes]

theorem decode_two (first : value c0 = some v0) (second : value c1 = some v1) (third : value c2 = some v2)
    (zero : join [v0, v1, v2, 0] % 256 = 0) :
    decode [c0, c1, c2, pad] = some ((bytesOf (join [v0, v1, v2, 0])).take 2) := by
  simp [decode, decodeShort, ne_pad third, first, second, third, zero]

theorem decode_one (first : value c0 = some v0) (second : value c1 = some v1)
    (zero : join [v0, v1, 0, 0] % 65536 = 0) :
    decode [c0, c1, pad, pad] = some ((bytesOf (join [v0, v1, 0, 0])).take 1) := by
  simp [decode, decodeShort, first, second, zero]

end Groups

/-- A 24-bit group is the sum of its six-bit parts. -/
theorem join_parts {group : Nat} (small : group < 2 ^ 24) :
    join [group / 2 ^ 18 % 64, group / 2 ^ 12 % 64, group / 2 ^ 6 % 64, group % 64] = group := by
  simp only [join, List.foldl_cons, List.foldl_nil]
  omega

/-- The group of three bytes. -/
def group (b0 b1 b2 : UInt8) : Nat := b0.toNat * 2 ^ 16 + b1.toNat * 2 ^ 8 + b2.toNat

theorem group_lt (b0 b1 b2 : UInt8) : group b0 b1 b2 < 2 ^ 24 := by
  have := b0.toNat_lt
  have := b1.toNat_lt
  have := b2.toNat_lt
  unfold group
  omega

theorem bytesOf_group (b0 b1 b2 : UInt8) : bytesOf (group b0 b1 b2) = [b0, b1, b2] := by
  have first := b0.toNat_lt
  have second := b1.toNat_lt
  have third := b2.toNat_lt
  have high : group b0 b1 b2 / 2 ^ 16 % 2 ^ 8 = b0.toNat := by
    unfold group
    omega
  have middle : group b0 b1 b2 / 2 ^ 8 % 2 ^ 8 = b1.toNat := by
    unfold group
    omega
  have low : group b0 b1 b2 % 2 ^ 8 = b2.toNat := by
    unfold group
    omega
  simp only [bytesOf, List.cons.injEq, and_true]
  refine ⟨?_, ?_, ?_⟩ <;> apply UInt8.toNat.inj <;> rw [UInt8.toNat_ofNat']
  · exact high
  · exact middle
  · exact low

end TptAsync.Lib.Base64
