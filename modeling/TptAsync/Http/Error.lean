import TptAsync.Io.Error

set_option autoImplicit false

namespace TptAsync.Http

/-- The errors of the crate, without those of its optional HTTP/2 support. -/
inductive HttpError where
  | io (error : Io.IoError)
  | parse (reason : String)
  | connectionClosed
  | timedOut
  | conflictingHeaders (what : String)
  deriving DecidableEq

end TptAsync.Http
