import TptAsync.Http.Parse
import TptAsync.Lib.Text

set_option autoImplicit false

/-! How the length of a body is framed, decided from the head (`body.rs`). -/

namespace TptAsync.Http

open Lib

inductive BodyKind where
  | empty
  | contentLength (length : Nat)
  | chunked
  | untilEof
  deriving DecidableEq

/-- The number in a `Content-Length` value. -/
def parseContentLength (value : Bytes) : Except HttpError Nat :=
  let invalid := HttpError.parse "invalid Content-Length"
  match Text.fromUtf8 value with
  | none => .error invalid
  | some text =>
      let trimmed := Text.trim text
      if trimmed = [] ∨ !trimmed.all Char.isDigit then .error invalid
      else
        match Text.fromStrRadix 10 trimmed with
        | none => .error invalid
        | some length => .ok length

/-- Absent is `empty`; the first value decides. -/
def contentLengthKind (headers : HeaderBlock) : Except HttpError BodyKind :=
  match headers.get (ascii "content-length") with
  | some value => do .ok (.contentLength (← parseContentLength value))
  | none => .ok .empty

/-- The transfer coding that both sides of a connection understand. -/
def acceptableTransferEncoding (value : Bytes) : Bool :=
  Bytes.eqIgnoreCase value (ascii "chunked")

/-- The framing of a request body. -/
def requestBodyKind (headers : HeaderBlock) : Except HttpError BodyKind :=
  match headers.get (ascii "transfer-encoding") with
  | some transferEncoding =>
      if (headers.get (ascii "content-length")).isSome then
        .error (.conflictingHeaders "both Transfer-Encoding and Content-Length")
      else if acceptableTransferEncoding transferEncoding then .ok .chunked
      else .error (.parse "unsupported Transfer-Encoding")
  | none => contentLengthKind headers

/-- The framing of a response body. -/
def responseBodyKind (headers : HeaderBlock) (status : Nat) (isHeadRequest : Bool) :
    Except HttpError BodyKind :=
  if status = 204 ∨ status = 304 ∨ (100 ≤ status ∧ status < 200) then .ok .empty
  else if isHeadRequest then .ok .empty
  else
    match headers.get (ascii "transfer-encoding") with
    | some transferEncoding =>
        if acceptableTransferEncoding transferEncoding then .ok .chunked
        else .error (.parse "unsupported Transfer-Encoding")
    | none => do
        match ← contentLengthKind headers with
        -- Without a Content-Length, a response body is framed by the end of stream.
        | .empty => .ok .untilEof
        | other => .ok other

end TptAsync.Http
