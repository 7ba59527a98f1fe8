import Mathlib.Data.List.TakeWhile
import TptAsync.Lib.Text

set_option autoImplicit false

namespace TptAsync.Lib.Text

/-- The character of an ASCII byte. -/
def toChar (byte : UInt8) : Char := Char.ofNat byte.toNat

@[simp] theorem toChar_toNat (byte : UInt8) : (toChar byte).toNat = byte.toNat := by
  have valid : byte.toNat.isValidChar := .inl (Nat.lt_trans byte.toNat_lt (by decide))
  rw [toChar, Char.ofNat, dif_pos valid]
  rfl

theorem utf8EncodeChar_toChar {byte : UInt8} (low : byte < 128) :
    String.utf8EncodeChar (toChar byte) = [byte] := by
  have bound : byte.toNat < 128 := UInt8.lt_iff_toNat_lt.mp low
  have value : (toChar byte).val.toNat = byte.toNat := toChar_toNat byte
  have single : (toChar byte).utf8Size = 1 := by
    rw [Char.utf8Size_eq_one_iff, UInt32.le_iff_toNat_le, value]
    exact Nat.le_of_lt_succ bound
  rw [String.utf8EncodeChar_eq_singleton single, List.singleton_inj]
  apply UInt8.toNat_inj.mp
  rw [UInt32.toNat_toUInt8, value]
  omega

theorem utf8Encode_map_toChar {bytes : Bytes} (low : ∀ byte ∈ bytes, byte < 128) :
    (bytes.map toChar).utf8Encode = ByteArray.mk bytes.toArray := by
  have encoded : bytes.flatMap (fun byte => String.utf8EncodeChar (toChar byte)) = bytes := by
    induction bytes with
    | nil => rfl
    | cons head tail ih =>
        rw [List.flatMap_cons, utf8EncodeChar_toChar (low head (.head _)),
          ih fun byte member => low byte (.tail _ member)]
        rfl
  rw [List.utf8Encode, List.flatMap_map, encoded]
  ext1
  simp

theorem fromUtf8_toUtf8 (text : List Char) : fromUtf8 (toUtf8 text) = some text := by
  have encoded : ByteArray.mk (toUtf8 text).toArray = text.utf8Encode := by
    ext1
    simp [List.utf8Encode, toUtf8]
  rw [fromUtf8, encoded, List.utf8Decode?_utf8Encode]
  rfl

theorem fromUtf8_of_low {bytes : Bytes} (low : ∀ byte ∈ bytes, byte < 128) :
    fromUtf8 bytes = some (bytes.map toChar) := by
  rw [fromUtf8, ← utf8Encode_map_toChar low, List.utf8Decode?_utf8Encode]
  simp

theorem toChar_toUInt8 {char : Char} (low : char.toNat < 128) : toChar char.toUInt8 = char := by
  have same : char.toUInt8.toNat = char.toNat := by
    rw [Char.toUInt8, UInt32.toNat_toUInt8]
    exact Nat.mod_eq_of_lt (Nat.lt_trans low (by decide))
  rw [toChar, same, Char.ofNat_toNat]

theorem fromUtf8_map {text : List Char} (low : ∀ char ∈ text, char.toNat < 128) :
    fromUtf8 (text.map Char.toUInt8) = some text := by
  rw [fromUtf8_of_low, List.map_map]
  · have same : text.map (toChar ∘ Char.toUInt8) = text.map id :=
      List.map_congr_left fun char member => toChar_toUInt8 (low char member)
    rw [same, List.map_id]
  · intro byte member
    obtain ⟨char, inText, rfl⟩ := List.mem_map.mp member
    have small := low char inText
    rw [UInt8.lt_iff_toNat_lt, Char.toUInt8, UInt32.toNat_toUInt8]
    change char.toNat % 2 ^ 8 < 128
    omega

theorem toUtf8_of_fromUtf8 {bytes : Bytes} {text : List Char} (decoded : fromUtf8 bytes = some text) :
    toUtf8 text = bytes := by
  obtain ⟨chars, found, rfl⟩ := Option.map_eq_some_iff.mp decoded
  have valid : (ByteArray.mk bytes.toArray).utf8Decode?.isSome := by
    rw [found]
    rfl
  have encoded := @ByteArray.utf8Encode_get_utf8Decode? (ByteArray.mk bytes.toArray) valid
  simp only [found, Option.get_some] at encoded
  have same := congrArg (fun array : ByteArray => array.data.toList) encoded
  simpa [List.utf8Encode, toUtf8] using same

theorem toUtf8_of_low {text : List Char} (low : ∀ char ∈ text, char.toNat < 128) :
    toUtf8 text = text.map Char.toUInt8 :=
  toUtf8_of_fromUtf8 (fromUtf8_map low)

section Trim

variable {before text after : List Char}

theorem takeWhile_white (white : ∀ char ∈ before, isWhitespace char = true)
    (solid : ∀ char ∈ text, isWhitespace char = false) (nonempty : text ≠ []) :
    (before ++ (text ++ after)).takeWhile isWhitespace = before := by
  rw [List.takeWhile_append_of_pos white]
  cases text with
  | nil => exact absurd rfl nonempty
  | cons char rest => simp [solid char (.head _)]

theorem trim_between (white : ∀ char ∈ before, isWhitespace char = true)
    (solid : ∀ char ∈ text, isWhitespace char = false)
    (blank : ∀ char ∈ after, isWhitespace char = true) (nonempty : text ≠ []) :
    trim (before ++ (text ++ after)) = text := by
  have kept : (before ++ (text ++ after)).dropWhile isWhitespace = text ++ after := by
    rw [List.dropWhile_append_of_pos white]
    cases text with
    | nil => exact absurd rfl nonempty
    | cons char rest => simp [solid char (.head _)]
  have dropped : (text ++ after).reverse.dropWhile isWhitespace = text.reverse := by
    rw [List.reverse_append, List.dropWhile_append_of_pos (by simpa using blank)]
    cases shape : text.reverse with
    | nil => rfl
    | cons char rest =>
        have member : char ∈ text := by
          rw [← List.mem_reverse, shape]
          exact .head _
        simp [solid char member]
  rw [trim, kept, dropped, List.reverse_reverse]

theorem trim_append (solid : ∀ char ∈ text, isWhitespace char = false)
    (blank : ∀ char ∈ after, isWhitespace char = true) (nonempty : text ≠ []) :
    trim (text ++ after) = text :=
  @trim_between [] text after (by simp) solid blank nonempty

/-- The trimmed text and the white space that was around it. -/
theorem exists_around (text : List Char) : ∃ before after, text = before ++ (trim text ++ after) ∧
    (∀ char ∈ before, isWhitespace char = true) ∧ ∀ char ∈ after, isWhitespace char = true := by
  refine ⟨text.takeWhile isWhitespace,
    ((text.dropWhile isWhitespace).reverse.takeWhile isWhitespace).reverse, ?_, ?_, ?_⟩
  · rw [trim, ← List.reverse_append, List.takeWhile_append_dropWhile, List.reverse_reverse,
      List.takeWhile_append_dropWhile]
  · exact fun char member => List.mem_takeWhile_imp member
  · exact fun char member => List.mem_takeWhile_imp (List.mem_reverse.mp member)

theorem around_unique {before' text' after' : List Char}
    (same : before ++ (text ++ after) = before' ++ (text' ++ after'))
    (white : ∀ char ∈ before, isWhitespace char = true)
    (blank : ∀ char ∈ after, isWhitespace char = true)
    (solid : ∀ char ∈ text, isWhitespace char = false) (nonempty : text ≠ [])
    (white' : ∀ char ∈ before', isWhitespace char = true)
    (blank' : ∀ char ∈ after', isWhitespace char = true)
    (solid' : ∀ char ∈ text', isWhitespace char = false) (nonempty' : text' ≠ []) :
    before = before' ∧ text = text' ∧ after = after' := by
  have front : before = before' := by
    rw [← @takeWhile_white _ _ after white solid nonempty, same,
      takeWhile_white white' solid' nonempty']
  have inner : text = text' := by
    rw [← trim_between white solid blank nonempty, same, trim_between white' solid' blank' nonempty']
  subst front inner
  exact ⟨rfl, rfl, List.append_cancel_left (List.append_cancel_left same)⟩

end Trim

/-- The number that digits stand for. -/
def number (radix : Nat) (digits : List Char) : Nat :=
  digits.foldl (fun value char => value * radix + (digitValue radix char).getD 0) 0

/-- A digit is ASCII, and neither white space nor a sign. -/
theorem digitValue_char {radix : Nat} {char : Char} (digit : (digitValue radix char).isSome) :
    char.toNat < 128 ∧ isWhitespace char = false ∧ char ≠ '+' ∧ char ≠ '-' := by
  have range : 48 ≤ char.toNat ∧ char.toNat ≤ 57 ∨ 97 ≤ char.toNat ∧ char.toNat ≤ 122 ∨
      65 ≤ char.toNat ∧ char.toNat ≤ 90 := by
    by_contra outside
    push Not at outside
    simp only [digitValue] at digit
    split at digit
    · omega
    · split at digit
      · omega
      · split at digit
        · omega
        · simp at digit
  refine ⟨by omega, ?_, ?_, ?_⟩
  · simp only [isWhitespace, Bool.or_eq_false_iff, Bool.and_eq_false_iff, decide_eq_false_iff_not,
      beq_eq_false_iff_ne]
    omega
  · rintro rfl
    revert range
    decide
  · rintro rfl
    revert range
    decide

/-- Digits of a radix, and the number of 64 bits that they stand for. -/
structure Digits (radix : Nat) (digits : List Char) (value : Nat) : Prop where
  nonempty : digits ≠ []
  valid : ∀ char ∈ digits, (digitValue radix char).isSome
  value_eq : number radix digits = value
  fits : value ≤ U64.max

section ReadDigits

variable {radix : Nat} {digits : List Char}

theorem foldDigits_eq (valid : ∀ char ∈ digits, (digitValue radix char).isSome) (start : Nat) :
    digits.foldlM (fun value char => (digitValue radix char).map (value * radix + ·)) start =
      some (digits.foldl (fun value char => value * radix + (digitValue radix char).getD 0) start) := by
  induction digits generalizing start with
  | nil => rfl
  | cons char rest ih =>
      obtain ⟨value, found⟩ := Option.isSome_iff_exists.mp (valid char (.head _))
      rw [List.foldlM_cons, found, List.foldl_cons, found]
      exact ih (fun later member => valid later (.tail _ member)) _

theorem foldDigits_valid {start value : Nat}
    (folded : digits.foldlM (fun value char => (digitValue radix char).map (value * radix + ·)) start =
      some value) : ∀ char ∈ digits, (digitValue radix char).isSome := by
  induction digits generalizing start with
  | nil => simp
  | cons char rest ih =>
      rw [List.foldlM_cons] at folded
      obtain ⟨next, found, folded⟩ := Option.bind_eq_some_iff.mp folded
      obtain ⟨digit, found, _⟩ := Option.map_eq_some_iff.mp found
      intro later member
      rcases List.mem_cons.mp member with rfl | member
      · rw [found]
        rfl
      · exact ih folded later member

theorem readDigits_eq (valid : ∀ char ∈ digits, (digitValue radix char).isSome)
    (fits : number radix digits ≤ U64.max) : readDigits radix digits = some (number radix digits) := by
  rw [readDigits, foldDigits_eq valid 0]
  exact Option.filter_some_pos (decide_eq_true fits)

theorem readDigits_some {value : Nat} (found : readDigits radix digits = some value)
    (nonempty : digits ≠ []) : Digits radix digits value := by
  obtain ⟨folded, fits⟩ := Option.filter_eq_some_iff.mp found
  have valid := foldDigits_valid folded
  have same := (foldDigits_eq valid 0).symm.trans folded
  exact ⟨nonempty, valid, Option.some.inj same, of_decide_eq_true fits⟩

theorem fromStrRadix_eq (valid : ∀ char ∈ digits, (digitValue radix char).isSome) (nonempty : digits ≠ [])
    (fits : number radix digits ≤ U64.max) :
    fromStrRadix radix digits = some (number radix digits) := by
  cases digits with
  | nil => exact absurd rfl nonempty
  | cons char rest =>
      obtain ⟨_, _, notPlus, notMinus⟩ := digitValue_char (valid char (.head _))
      rw [← readDigits_eq valid fits]
      unfold fromStrRadix
      split
      · next empty => exact absurd empty (by simp)
      · next plus => exact absurd (List.cons.inj plus).1 notPlus
      · next minus => exact absurd (List.cons.inj minus).1 notMinus
      · next plus => exact absurd (List.cons.inj plus).1 notPlus
      · rfl

/-- A number is read off digits, with or without a plus sign in front. -/
theorem fromStrRadix_iff {text : List Char} {value : Nat} : fromStrRadix radix text = some value ↔
    ∃ sign digits, text = sign ++ digits ∧ (sign = [] ∨ sign = ['+']) ∧ Digits radix digits value := by
  constructor
  · intro found
    unfold fromStrRadix at found
    split at found
    · cases found
    · cases found
    · cases found
    · next digits notEmpty =>
        refine ⟨['+'], digits, rfl, .inr rfl, readDigits_some found ?_⟩
        rintro rfl
        exact notEmpty rfl
    · next notEmpty _ _ _ => exact ⟨[], text, rfl, .inl rfl, readDigits_some found notEmpty⟩
  · rintro ⟨sign, digits, rfl, signed, ⟨nonempty, valid, rfl, fits⟩⟩
    rcases signed with rfl | rfl
    · exact fromStrRadix_eq valid nonempty fits
    · cases digits with
      | nil => exact absurd rfl nonempty
      | cons char rest => exact readDigits_eq valid fits

end ReadDigits

section Decimal

theorem digitValue_of_isDigit {char : Char} (digit : char.isDigit = true) :
    digitValue 10 char = some (char.toNat - '0'.toNat) := by
  have range : 48 ≤ char.toNat ∧ char.toNat ≤ 57 := by
    simpa [Char.isDigit, UInt32.le_iff_toNat_le] using digit
  have small : char.toNat - 48 < 10 := by omega
  rw [digitValue, if_pos range]
  exact Option.filter_some_pos (decide_eq_true small)

theorem isDigit_of_digitValue {char : Char} (digit : (digitValue 10 char).isSome) :
    char.isDigit = true := by
  have range : 48 ≤ char.toNat ∧ char.toNat ≤ 57 := by
    simp only [digitValue, Option.isSome_filter] at digit
    split at digit
    · assumption
    · split at digit
      · simp at digit
      · split at digit <;> simp at digit
  simpa [Char.isDigit, UInt32.le_iff_toNat_le] using range

theorem number_eq_ofDigitChars {digits : List Char} (valid : ∀ char ∈ digits, char.isDigit = true) :
    number 10 digits = Nat.ofDigitChars 10 digits 0 := by
  rw [number, Nat.ofDigitChars_eq_foldl]
  refine List.foldl_ext _ _ 0 fun value char member => ?_
  rw [digitValue_of_isDigit (valid char member), Option.getD_some, Nat.mul_comm]

theorem number_toDigits (value : Nat) : number 10 (Nat.toDigits 10 value) = value := by
  rw [number_eq_ofDigitChars fun char member =>
    Nat.isDigit_of_mem_toDigits (by decide) (by decide) member]
  exact Nat.ofDigitChars_ten_toDigits

end Decimal

end TptAsync.Lib.Text
