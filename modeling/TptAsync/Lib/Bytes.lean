import Mathlib.Algebra.Group.Nat.Defs
import Mathlib.Data.List.Basic
import Mathlib.Data.List.Induction

set_option autoImplicit false

/-! Byte strings, as the slice methods of the standard library treat them. -/

namespace TptAsync.Lib

abbrev Bytes := List UInt8

/-- The bytes of a literal. -/
def ascii (text : String) : Bytes := text.toUTF8.data.toList

namespace Bytes

def isDigit (byte : UInt8) : Bool := 48 ≤ byte && byte ≤ 57

def toLower (byte : UInt8) : UInt8 := if 65 ≤ byte && byte ≤ 90 then byte + 32 else byte

def eqIgnoreCase (left right : Bytes) : Bool := left.map toLower == right.map toLower

theorem eqIgnoreCase_iff {left right : Bytes} :
    eqIgnoreCase left right = true ↔ left.map toLower = right.map toLower := by
  simp [eqIgnoreCase]

/-- The bytes without the spaces and tabs around them. -/
def trimBlanks (bytes : Bytes) : Bytes :=
  let isBlank (byte : UInt8) : Bool := byte = 32 || byte = 9
  ((bytes.dropWhile isBlank).reverse.dropWhile isBlank).reverse

/-- Some bytes from `start` on. -/
def window (bytes : Bytes) (start count : Nat) : Bytes := (bytes.drop start).take count

theorem window_of_prefix {part whole : Bytes} {start count : Nat} (initial : part <+: whole)
    (within : start + count ≤ part.length) : part.window start count = whole.window start count := by
  obtain ⟨more, rfl⟩ := initial
  rw [window, window, List.drop_append_of_le_length (by omega), List.take_append_of_le_length]
  rw [List.length_drop]
  omega

theorem window_append (before part after : Bytes) :
    window (before ++ (part ++ after)) before.length part.length = part := by
  rw [window, List.drop_left, List.take_left]

/-- A number in `count` bytes, the most significant first. -/
def toBe : Nat → Nat → Bytes
  | 0, _ => []
  | count + 1, number => toBe count (number / 256) ++ [UInt8.ofNat number]

def fromBe (bytes : Bytes) : Nat := bytes.foldl (fun number byte => number * 256 + byte.toNat) 0

@[simp] theorem length_toBe (count number : Nat) : (toBe count number).length = count := by
  induction count generalizing number with
  | zero => rfl
  | succ count ih => rw [toBe, List.length_append, ih, List.length_singleton]

theorem fromBe_toBe {count number : Nat} (fits : number < 256 ^ count) :
    fromBe (toBe count number) = number := by
  induction count generalizing number with
  | zero => rw [Nat.lt_one_iff.mp fits]; rfl
  | succ count ih =>
      have high : number / 256 < 256 ^ count := by
        rw [Nat.div_lt_iff_lt_mul (by decide), ← Nat.pow_succ]
        exact fits
      have low : (UInt8.ofNat number).toNat = number % 256 := UInt8.toNat_ofNat'
      rw [toBe, fromBe, List.foldl_append, ← fromBe, ih high, List.foldl_cons, List.foldl_nil, low]
      exact Nat.div_add_mod' number 256

theorem fromBe_append_singleton (bytes : Bytes) (last : UInt8) :
    fromBe (bytes ++ [last]) = fromBe bytes * 256 + last.toNat := by
  rw [fromBe, List.foldl_append]
  rfl

theorem fromBe_lt (bytes : Bytes) : fromBe bytes < 256 ^ bytes.length := by
  induction bytes using List.reverseRecOn with
  | nil => decide
  | append_singleton bytes last ih =>
      have small := last.toNat_lt
      rw [fromBe_append_singleton, List.length_append, List.length_singleton, Nat.pow_succ]
      omega

theorem toBe_fromBe (bytes : Bytes) : toBe bytes.length (fromBe bytes) = bytes := by
  induction bytes using List.reverseRecOn with
  | nil => rfl
  | append_singleton bytes last ih =>
      have small := last.toNat_lt
      have quotient : (fromBe bytes * 256 + last.toNat) / 256 = fromBe bytes := by omega
      have remainder : UInt8.ofNat (fromBe bytes * 256 + last.toNat) = last := by
        refine UInt8.toNat_inj.mp ?_
        rw [UInt8.toNat_ofNat']
        omega
      rw [fromBe_append_singleton, List.length_append, List.length_singleton, toBe, quotient,
        remainder, ih]

end Bytes

end TptAsync.Lib
