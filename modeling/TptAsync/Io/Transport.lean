import TptAsync.Io.Write

set_option autoImplicit false

/-! Transports that are read from (`read.rs`) and written to (`write.rs`). -/

namespace TptAsync.Io

open Lib

class AsyncRead (ω : Type) where
  /-- Fill a buffer of this size. -/
  pollRead : Nat → Async IoError ω Bytes

class Transport (ω : Type) extends AsyncRead ω, AsyncWrite ω where
  pollFlush : Async IoError ω Unit
  pollShutdown : Async IoError ω Unit

end TptAsync.Io
