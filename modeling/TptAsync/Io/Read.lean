import TptAsync.Io.Transport
import TptAsync.Lib.Loop

set_option autoImplicit false

/-!
# Readers that are polled

`ReadBuf` of `read_buf.rs`, and the futures of `read.rs` that read a buffer full and to the end.
-/

namespace TptAsync.Io

open Lib Async

/-- A `ReadBuf`: storage of some capacity, of which the first part is filled. -/
structure ReadBuf (capacity : Nat) where
  buf : Bytes
  cursor : Nat
  sized : buf.length = capacity
  within : cursor ≤ capacity

namespace ReadBuf

def new (buf : Bytes) : ReadBuf buf.length where
  buf := buf
  cursor := 0
  sized := rfl
  within := Nat.zero_le _

variable {capacity : Nat}

def filled (rb : ReadBuf capacity) : Bytes := rb.buf.take rb.cursor

@[simp] theorem length_filled (rb : ReadBuf capacity) : rb.filled.length = rb.cursor := by
  rw [filled, List.length_take, rb.sized]
  exact Nat.min_eq_left rb.within

def remaining (rb : ReadBuf capacity) : Nat := capacity - rb.cursor

/-- The code panics for data that does not fit. -/
def putSlice (rb : ReadBuf capacity) (data : Bytes) (fits : data.length ≤ rb.remaining) : ReadBuf capacity where
  buf := rb.filled ++ data ++ rb.buf.drop (rb.cursor + data.length)
  cursor := rb.cursor + data.length
  sized := by
    have := rb.within
    rw [remaining] at fits
    rw [List.length_append, List.length_append, length_filled, List.length_drop, rb.sized]
    omega
  within := by
    have := rb.within
    rw [remaining] at fits
    omega

@[simp] theorem filled_putSlice (rb : ReadBuf capacity) (data : Bytes) (fits : data.length ≤ rb.remaining) :
    (rb.putSlice data fits).filled = rb.filled ++ data := by
  have length : (rb.filled ++ data).length = rb.cursor + data.length := by
    rw [List.length_append, length_filled]
  exact List.take_left' length

end ReadBuf

/-- A reader that is given a `ReadBuf`. It may write anything into the part that is not filled. -/
class AsyncReadBuf (ω : Type) where
  pollRead : {capacity : Nat} → ReadBuf capacity → ω → Outcome IoError Unit × ReadBuf capacity × ω

structure ReadExact (ω : Type) where
  reader : ω
  buf : Bytes
  pos : Nat

structure ReadToEnd (ω : Type) where
  reader : ω
  out : Bytes
  deriving DecidableEq

variable {ω : Type} [AsyncReadBuf ω]

/-- One round of `ReadExact::poll`. -/
def ReadExact.round : Async IoError (ReadExact ω) (Option Unit) := fun this =>
  if this.buf.length ≤ this.pos then (.ready (some ()), this)
  else
    let (polled, rb, reader) := AsyncReadBuf.pollRead (.new (this.buf.drop this.pos)) this.reader
    let read : ReadExact ω := { this with reader, buf := this.buf.take this.pos ++ rb.buf }
    match polled with
    | .pending => (.pending, read)
    | .failed error => (.failed error, read)
    | .ready () =>
        let n := rb.filled.length
        if n = 0 then (.failed .unexpectedEof, read)
        else (.ready none, { read with pos := this.pos + n })

def readToEndChunk : Nat := 4096

/-- One round of `ReadToEnd::poll`. -/
def ReadToEnd.round : Async IoError (ReadToEnd ω) (Option Unit) := fun this =>
  let base := this.out.length
  let resized := this.out ++ List.replicate readToEndChunk 0
  let (polled, rb, reader) := AsyncReadBuf.pollRead (.new (resized.drop base)) this.reader
  let out := resized.take base ++ rb.buf
  match polled with
  | .pending => (.pending, { reader, out := out.take base })
  | .failed error => (.failed error, { reader, out := out.take base })
  | .ready () =>
      let n := rb.filled.length
      (.ready (if n = 0 then some () else none), { reader, out := out.take (base + n) })

end TptAsync.Io
