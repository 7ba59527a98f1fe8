set_option autoImplicit false

/-! The portable I/O error of `read.rs`. -/

namespace TptAsync.Io

inductive IoErrorKind where
  | unexpectedEof
  | writeZero
  | wouldBlock
  | brokenPipe
  | connectionReset
  | connectionAborted
  | invalidData
  | timedOut
  | other
  deriving DecidableEq

structure IoError where
  kind : IoErrorKind
  msg : String
  deriving DecidableEq

def IoError.unexpectedEof : IoError := ⟨.unexpectedEof, "unexpected end of stream"⟩

def IoError.writeZero : IoError := ⟨.writeZero, "write returned 0 bytes"⟩

end TptAsync.Io
