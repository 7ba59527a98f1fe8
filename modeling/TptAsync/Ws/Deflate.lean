import TptAsync.Lib.Async
import TptAsync.Ws.Frame

set_option autoImplicit false

/-!
# Decompression of messages

The decompressing half of a `Codec` (`deflate.rs`), over any inflate machine.
-/

namespace TptAsync.Ws

open Lib

inductive Status where
  | ok
  | bufError
  | streamEnd
  deriving DecidableEq

/-- The operations of an inflate machine. A call is given an input and the spare room of the
output, and returns what it has appended, or nothing for a stream that is not valid. -/
class Inflate (δ : Type) where
  totalIn : δ → Nat
  decompressVec : δ → Bytes → Nat → Option (Status × Bytes) × δ
  reset : δ → δ

/-- The block that is stripped from every message. -/
def syncTail : Bytes := [0x00, 0x00, 0xFF, 0xFF]

/-- The capacity of a vector that has reserved room. -/
def reserve (length capacity additional : Nat) : Nat :=
  if additional ≤ capacity - length then capacity else max (2 * capacity) (length + additional)

structure Codec (δ : Type) where
  decompressor : δ
  /-- Start a fresh decompressor for every message. -/
  resetDecompressor : Bool

namespace Codec

variable {δ : Type} [Inflate δ]

def decompressVec (input : Bytes) (spare : Nat) : Async WsError (Codec δ) (Status × Bytes) :=
  fun codec =>
    match Inflate.decompressVec codec.decompressor input spare with
    | (some result, decompressor) => (.ready result, { codec with decompressor })
    | (none, decompressor) => (.failed (.protocol "invalid deflate stream"), { codec with decompressor })

/-- The loop of `decompress`, for some rounds. -/
def decompressLoop (input : Bytes) (start max : Nat) : Nat → Nat → Nat → Bytes →
    Async WsError (Codec δ) Bytes
  | 0, _, _, _ => Async.wait
  | rounds + 1, capacity, consumed, out => do
      let capacity := reserve out.length capacity 4096
      let (status, appended) ← decompressVec (input.drop consumed) (capacity - out.length)
      let total := Inflate.totalIn (← Async.get).decompressor - start
      let grown := out ++ appended
      if max < grown.length then
        Async.fail (.protocol "decompressed message exceeds 16 MiB limit")
      else if total = input.length ∧ grown.length < capacity then pure grown
      else if total = consumed ∧ grown.length = out.length ∧ status = .bufError then
        Async.fail (.protocol "invalid deflate stream")
      else decompressLoop input start max rounds capacity total grown

/-- Decompress one message, of at most `max` bytes. -/
def decompress (rounds : Nat) (data : Bytes) (max : Nat) : Async WsError (Codec δ) Bytes := do
  let start := Inflate.totalIn (← Async.get).decompressor
  let out ← decompressLoop (data ++ syncTail) start max rounds 0 0 []
  Async.modify fun codec =>
    if codec.resetDecompressor then { codec with decompressor := Inflate.reset codec.decompressor }
    else codec
  pure out

end Codec

end TptAsync.Ws
