import TptAsync.Http.Error
import TptAsync.Lib.Bytes
import TptAsync.Lib.Search

set_option autoImplicit false

/-!
# Head parsing

`parse.rs`: a head is scanned into byte ranges, and the parsed heads are views over the
frozen buffer.
-/

namespace TptAsync.Http

open Lib

inductive Version where
  | http10
  | http11
  deriving DecidableEq

/-- A half-open byte range. -/
structure Range where
  start : Nat
  stop : Nat
  deriving DecidableEq

def Range.slice (range : Range) (buf : Bytes) : Bytes :=
  (buf.drop range.start).take (range.stop - range.start)

/-- The name and the value of a header. -/
abbrev HeaderRange := Range × Range

structure HeaderBlock where
  buf : Bytes
  entries : List HeaderRange

namespace HeaderBlock

def empty : HeaderBlock := ⟨[], []⟩

def iter (headers : HeaderBlock) : List (Bytes × Bytes) :=
  headers.entries.map fun (name, value) => (name.slice headers.buf, value.slice headers.buf)

/-- The value of the first header with `name`, in any letter case. -/
def get (headers : HeaderBlock) (name : Bytes) : Option Bytes :=
  (headers.iter.find? fun header => Bytes.eqIgnoreCase header.1 name).map (·.2)

def isEmpty (headers : HeaderBlock) : Bool := headers.entries.isEmpty

end HeaderBlock

structure HeadRanges where
  first : Range × Range
  version : Version
  status : Option Nat
  headers : List HeaderRange
  consumed : Nat

structure RequestHead where
  buf : Bytes
  methodRange : Range
  targetRange : Range
  version : Version
  headers : HeaderBlock

namespace RequestHead

def method (head : RequestHead) : Bytes := head.methodRange.slice head.buf

def target (head : RequestHead) : Bytes := head.targetRange.slice head.buf

def fromRanges (buf : Bytes) (ranges : HeadRanges) : RequestHead where
  buf := buf
  methodRange := ranges.first.1
  targetRange := ranges.first.2
  version := ranges.version
  headers := ⟨buf, ranges.headers⟩

end RequestHead

structure ResponseHead where
  buf : Bytes
  reasonRange : Range
  status : Nat
  version : Version
  headers : HeaderBlock

namespace ResponseHead

def reason (head : ResponseHead) : Bytes := head.reasonRange.slice head.buf

def fromRanges (buf : Bytes) (ranges : HeadRanges) : ResponseHead where
  buf := buf
  reasonRange := ranges.first.1
  status := ranges.status.getD 200
  version := ranges.version
  headers := ⟨buf, ranges.headers⟩

end ResponseHead

def maxHead : Nat := 64 * 1024

def crlf : Bytes := [13, 10]

def headerDelim : Bytes := [13, 10, 13, 10]

/-- Locate the blank line that ends the head; `none` while it is incomplete. -/
def findHeadEnd (buf : Bytes) : Except HttpError (Option Nat) :=
  if maxHead < buf.length then .error (.parse "message head exceeds 64 KiB")
  else
    let headEnd := find headerDelim buf
    -- Only complete lines of the header block are scanned for folding.
    let scanned :=
      match headEnd with
      | some stop => buf.take stop
      | none =>
          match findLast crlf buf with
          | some lastCrlf => buf.take lastCrlf
          | none => []
    if (find [10, 32] scanned).isSome || (find [10, 9] scanned).isSome then
      .error (.parse "obsolete line folding in header block")
    else .ok headEnd

def firstLine (head : Bytes) : Option Range :=
  match find crlf head with
  | some stop => some ⟨0, stop⟩
  | none => if head ≠ [] then some ⟨0, head.length⟩ else none

/-- The length of a run of spaces and tabs at the front. -/
def leadingOws (value : Bytes) : Nat := (value.takeWhile fun byte => byte = 32 || byte = 9).length

def trimOws (value : Bytes) : Range :=
  let start := leadingOws value
  ⟨start, value.length - leadingOws (value.drop start).reverse⟩

/-- Split one `name: value` line that starts at `start`. -/
def headerRanges (start : Nat) (line : Bytes) : Except HttpError HeaderRange :=
  match line.findIdx? (· = 58) with
  | none => .error (.parse "header line missing colon")
  | some colon =>
      let trimmed := trimOws (line.drop (colon + 1))
      .ok (⟨start, start + colon⟩,
        ⟨start + colon + 1 + trimmed.start, start + colon + 1 + trimmed.stop⟩)

/-- The header of a line, for lines after the first `skip` that are not empty. -/
def collectLine (skip seen start : Nat) (line : Bytes) (out : List HeaderRange) :
    Except HttpError (List HeaderRange) :=
  if skip ≤ seen ∧ line ≠ [] then do
    let ranges ← headerRanges start line
    .ok (out ++ [ranges])
  else .ok out

/-- The loop of `collect_header_ranges`, with the bytes from `i` on as its argument. -/
def collectLoop (buf : Bytes) (skip : Nat) (start seen i : Nat) (out : List HeaderRange) :
    Bytes → Except HttpError (List HeaderRange)
  | first :: second :: rest =>
      if first = 13 ∧ second = 10 then do
        let out ← collectLine skip seen start ((Range.mk start i).slice buf) out
        collectLoop buf skip (i + 2) (seen + 1) (i + 2) out rest
      else collectLoop buf skip start seen (i + 1) out (second :: rest)
  | _ => collectLine skip seen start (buf.drop start) out

/-- Turn every line after the first `skip` into a pair of ranges. -/
def collectHeaderRanges (buf : Bytes) (skip : Nat) : Except HttpError (List HeaderRange) :=
  collectLoop buf skip 0 0 0 [] buf

/-- The characters of a token. -/
def isTcharStrict (byte : UInt8) : Bool :=
  (65 ≤ byte && byte ≤ 90) || (97 ≤ byte && byte ≤ 122) || (48 ≤ byte && byte ≤ 57) ||
    (ascii "!#$%&'*+-.^_`|~").contains byte

/-- `method SP target SP version` -/
def parseRequestLine (line : Bytes) : Except HttpError (Range × Range × Version) :=
  let malformed := HttpError.parse "malformed request line"
  match line.findIdx? (· = 32) with
  | none => .error malformed
  | some sp1 =>
      if sp1 = 0 ∨ !(line.take sp1).all isTcharStrict then .error malformed
      else
        let rest := line.drop (sp1 + 1)
        match rest.findIdx? (· = 32) with
        | none => .error malformed
        | some sp2 =>
            if sp2 = 0 then .error malformed
            else if rest.drop (sp2 + 1) = ascii "HTTP/1.1" then
              .ok (⟨0, sp1⟩, ⟨sp1 + 1, sp1 + 1 + sp2⟩, .http11)
            else if rest.drop (sp2 + 1) = ascii "HTTP/1.0" then
              .ok (⟨0, sp1⟩, ⟨sp1 + 1, sp1 + 1 + sp2⟩, .http10)
            else .error (.parse "unsupported HTTP version")

/-- `version SP code SP reason` -/
def parseStatusLine (line : Bytes) : Except HttpError (Version × Nat × Range) :=
  let malformed := HttpError.parse "malformed status line"
  if !(ascii "HTTP/1.1 ").isPrefixOf line ∧ !(ascii "HTTP/1.0 ").isPrefixOf line then
    .error malformed
  else
    let version := if (line)[5]? = some 49 then Version.http11 else .http10
    let rest := line.drop 9
    match rest with
    | hundreds :: tens :: units :: tail =>
        if !([hundreds, tens, units].all Bytes.isDigit) then .error malformed
        else
          let code := (hundreds.toNat - 48) * 100 + (tens.toNat - 48) * 10 + (units.toNat - 48)
          if 100 ≤ code ∧ code ≤ 599 then
            let trimmed := trimOws tail
            .ok (version, code, ⟨9 + 3 + trimmed.start, 9 + 3 + trimmed.stop⟩)
          else .error malformed
    | _ => .error malformed

def offsetRange (range : Range) (offset : Nat) : Range :=
  ⟨range.start + offset, range.stop + offset⟩

/-- Parse a request head; `none` when more bytes are needed. -/
def parseRequestRanges (buf : Bytes) : Except HttpError (Option HeadRanges) := do
  match ← findHeadEnd buf with
  | none => .ok none
  | some headEnd =>
      let head := buf.take headEnd
      match firstLine head with
      | none => .error (.parse "empty request head")
      | some requestLine =>
          let (method, target, version) ← parseRequestLine (requestLine.slice buf)
          let headers ← collectHeaderRanges head 1
          .ok (some {
            first := (offsetRange method requestLine.start, offsetRange target requestLine.start)
            version, status := none, headers
            consumed := headEnd + headerDelim.length })

/-- Parse a response head; `none` when more bytes are needed. -/
def parseResponseRanges (buf : Bytes) : Except HttpError (Option HeadRanges) := do
  match ← findHeadEnd buf with
  | none => .ok none
  | some headEnd =>
      let head := buf.take headEnd
      match firstLine head with
      | none => .error (.parse "empty status head")
      | some statusLine =>
          let (version, status, reason) ← parseStatusLine (statusLine.slice buf)
          let headers ← collectHeaderRanges head 1
          .ok (some {
            first := (offsetRange reason statusLine.start, offsetRange reason statusLine.start)
            version, status := some status, headers
            consumed := headEnd + headerDelim.length })

end TptAsync.Http
