import TptAsync.Lib.Text
import TptAsync.Ws.Deflate

set_option autoImplicit false

/-!
# Negotiation of permessage-deflate

The whole of a `Codec` (`deflate.rs`), over any deflate and inflate machines, and the header
values by which the two ends come to theirs.
-/

namespace TptAsync.Ws

open Lib

/-- The operations of a deflate machine. A call is given an input and the spare room of the
output, and returns what it has appended, or nothing when it fails. -/
class Deflate (γ : Type) where
  new : γ
  totalIn : γ → Nat
  compressVec : γ → Bytes → Nat → Option Bytes × γ
  reset : γ → γ

class NewInflate (δ : Type) extends Inflate δ where
  new : δ

structure FullCodec (γ δ : Type) extends Codec δ where
  compressor : γ
  /-- Start a fresh compressor for every message. -/
  resetCompressor : Bool

def extensionName : Bytes := ascii "permessage-deflate"

def clientOffer : Bytes := extensionName

def trimAscii (value : Bytes) : Bytes := Bytes.trimBlanks value

namespace FullCodec

variable {γ δ : Type}

def new [Deflate γ] [NewInflate δ] (resetCompressor resetDecompressor : Bool) : FullCodec γ δ where
  compressor := Deflate.new
  decompressor := NewInflate.new
  resetCompressor := resetCompressor
  resetDecompressor := resetDecompressor

/-- The codec of a server that has accepted an offer. -/
def serverDefault [Deflate γ] [NewInflate δ] : FullCodec γ δ := new true true

section Compress

variable [Deflate γ]

def compressVec (input : Bytes) (spare : Nat) : Async WsError (FullCodec γ δ) Bytes := fun codec =>
  match Deflate.compressVec codec.compressor input spare with
  | (some appended, compressor) => (.ready appended, { codec with compressor })
  | (none, compressor) => (.failed (.protocol "deflate compression failed"), { codec with compressor })

/-- The loop of `compress`, for some rounds. -/
def compressLoop (data : Bytes) (start : Nat) :
    Nat → Nat → Nat → Bytes → Async WsError (FullCodec γ δ) Bytes
  | 0, _, _, _ => Async.wait
  | rounds + 1, capacity, consumed, out => do
      let capacity := reserve out.length capacity 256
      let appended ← compressVec (data.drop consumed) (capacity - out.length)
      let total := Deflate.totalIn (← Async.get).compressor - start
      let grown := out ++ appended
      if total = data.length ∧ syncTail.isSuffixOf grown then pure grown
      else if total = consumed ∧ grown.length = out.length then
        Async.fail (.protocol "deflate sync flush stalled")
      else compressLoop data start rounds capacity total grown

/-- Compress one message. -/
def compress (rounds : Nat) (data : Bytes) : Async WsError (FullCodec γ δ) Bytes := do
  let start := Deflate.totalIn (← Async.get).compressor
  let out ← compressLoop data start rounds (data.length / 2 + 64) 0 []
  Async.modify fun codec =>
    if codec.resetCompressor then { codec with compressor := Deflate.reset codec.compressor } else codec
  pure (if syncTail.isSuffixOf out then out.take (out.length - syncTail.length) else out)

end Compress

def decompress [Inflate δ] (rounds : Nat) (data : Bytes) (max : Nat) : Async WsError (FullCodec γ δ) Bytes :=
  Async.zoom FullCodec.toCodec (fun codec half => { codec with toCodec := half })
    (Codec.decompress rounds data max)

end FullCodec

/-- What a parameter of the response says of the resets, of the compressor and of the
decompressor. -/
def acceptParam (resets : Bool × Bool) (param : Bytes) : Except WsError (Bool × Bool) :=
  let param := trimAscii param
  let (key, value) :=
    match param.findIdx? (· = 61) with
    | some eq => (trimAscii (param.take eq), some (trimAscii (param.drop (eq + 1))))
    | none => (param, none)
  if Bytes.eqIgnoreCase key (ascii "server_no_context_takeover") then .ok (resets.1, true)
  else if Bytes.eqIgnoreCase key (ascii "client_no_context_takeover") then .ok (true, resets.2)
  else if Bytes.eqIgnoreCase key (ascii "client_max_window_bits") then
    -- A number that is not a `u8` passes.
    let bits := (value.bind Text.fromUtf8).bind (Text.fromStrRadix 10)
    if bits.any (· < 15) then
      .error (.handshake "permessage-deflate client_max_window_bits below 15 is unsupported")
    else .ok resets
  else .ok resets

section Negotiation

variable {γ δ : Type} [Deflate γ] [NewInflate δ]

/-- The codec for the first extension that is permessage-deflate. -/
def clientCodecLoop : List Bytes → Except WsError (Option (FullCodec γ δ))
  | [] => .ok none
  | ext :: extensions =>
      match ext.splitOn 59 with
      | [] => clientCodecLoop extensions
      | name :: params =>
          if !Bytes.eqIgnoreCase (trimAscii name) extensionName then clientCodecLoop extensions
          else do
            let (resetCompressor, resetDecompressor) ← params.foldlM acceptParam (false, false)
            .ok (some (.new resetCompressor resetDecompressor))

/-- The codec of a client for the response of its server; `none` when the extension was not
accepted. -/
def clientCodec (response : Bytes) : Except WsError (Option (FullCodec γ δ)) :=
  clientCodecLoop (response.splitOn 44)

/-- The response of a server to an offer. -/
def serverAccept (offer : Option Bytes) : Option Bytes :=
  offer.bind fun offer =>
    let offered := (offer.splitOn 44).any fun ext =>
      (ext.splitOn 59).head?.any fun name => Bytes.eqIgnoreCase (trimAscii name) extensionName
    if offered then
      some (extensionName ++ ascii "; client_no_context_takeover; server_no_context_takeover")
    else none

end Negotiation

end TptAsync.Ws
