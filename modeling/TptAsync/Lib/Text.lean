import TptAsync.Lib.Bytes
import TptAsync.Lib.U64

set_option autoImplicit false

/-! Text decoded from bytes, trimmed, and read as a number. -/

namespace TptAsync.Lib.Text

/-- The characters of a valid UTF-8 byte string. -/
def fromUtf8 (bytes : Bytes) : Option (List Char) :=
  (ByteArray.mk bytes.toArray).utf8Decode?.map Array.toList

def toUtf8 (text : List Char) : Bytes := text.flatMap String.utf8EncodeChar

/-- The characters with the property White_Space. -/
def isWhitespace (char : Char) : Bool :=
  let code := char.toNat
  (9 ≤ code && code ≤ 13) || code == 0x20 || code == 0x85 || code == 0xA0 || code == 0x1680 ||
    (0x2000 ≤ code && code ≤ 0x200A) || code == 0x2028 || code == 0x2029 || code == 0x202F ||
    code == 0x205F || code == 0x3000

def trim (text : List Char) : List Char :=
  ((text.dropWhile isWhitespace).reverse.dropWhile isWhitespace).reverse

def digitValue (radix : Nat) (char : Char) : Option Nat :=
  let code := char.toNat
  let value :=
    if 48 ≤ code ∧ code ≤ 57 then some (code - 48)
    else if 97 ≤ code ∧ code ≤ 122 then some (code - 97 + 10)
    else if 65 ≤ code ∧ code ≤ 90 then some (code - 65 + 10)
    else none
  value.filter (· < radix)

def readDigits (radix : Nat) (digits : List Char) : Option Nat :=
  (digits.foldlM (fun value char => (digitValue radix char).map (value * radix + ·)) 0).filter
    (· ≤ U64.max)

/-- `u64::from_str_radix`, which takes a leading plus sign. -/
def fromStrRadix (radix : Nat) : List Char → Option Nat
  | [] | ['+'] | ['-'] => none
  | '+' :: digits => readDigits radix digits
  | digits => readDigits radix digits

/-- How many bytes continue a character that begins with this one, and the range of the first of
them. -/
def continued (first : UInt8) : Option (Nat × UInt8 × UInt8) :=
  if 0xC2 ≤ first ∧ first ≤ 0xDF then some (1, 0x80, 0xBF)
  else if first = 0xE0 then some (2, 0xA0, 0xBF)
  else if first = 0xED then some (2, 0x80, 0x9F)
  else if 0xE1 ≤ first ∧ first ≤ 0xEF then some (2, 0x80, 0xBF)
  else if first = 0xF0 then some (3, 0x90, 0xBF)
  else if 0xF1 ≤ first ∧ first ≤ 0xF3 then some (3, 0x80, 0xBF)
  else if first = 0xF4 then some (3, 0x80, 0x8F)
  else none

/-- How many bytes belong to the sequence behind its first one, and whether it is a character. -/
def sequence (first : UInt8) (rest : Bytes) : Nat × Bool :=
  if first < 0x80 then (0, true)
  else
    match continued first with
    | none => (0, false)
    | some (count, low, high) =>
        let ranges := (low, high) :: List.replicate (count - 1) (0x80, 0xBF)
        let inside := (rest.zip ranges).takeWhile fun (byte, low, high) => low ≤ byte && byte ≤ high
        (inside.length, inside.length = count)

def fromUtf8LossyLoop : Nat → Bytes → Bytes
  | 0, _ | _, [] => []
  | fuel + 1, first :: rest =>
      let (count, valid) := sequence first rest
      (if valid then first :: rest.take count else [0xEF, 0xBF, 0xBD]) ++
        fromUtf8LossyLoop fuel (rest.drop count)

/-- `String::from_utf8_lossy`, which replaces every sequence that is not a character. -/
def fromUtf8Lossy (bytes : Bytes) : Bytes := fromUtf8LossyLoop bytes.length bytes

end TptAsync.Lib.Text
