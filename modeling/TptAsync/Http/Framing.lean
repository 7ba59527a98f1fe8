import TptAsync.Http.Body
import TptAsync.Lib.TextProperties

set_option autoImplicit false

/-!
# Ambiguous request framing

Which header blocks frame a request body ambiguously, and which of these the
first-match lookup lets through.
-/

namespace TptAsync.Http

open Lib

/-- The values of every header with `name`, in order. -/
def HeaderBlock.values (headers : HeaderBlock) (name : Bytes) : List Bytes :=
  (headers.iter.filter fun header => Bytes.eqIgnoreCase header.1 name).map (·.2)

theorem HeaderBlock.get_eq (headers : HeaderBlock) (name : Bytes) :
    headers.get name = (headers.values name).head? := by
  simp only [get, values, List.head?_map, List.head?_filter]

def contentLengths (headers : HeaderBlock) : List Bytes :=
  headers.values (ascii "content-length")

def transferEncodings (headers : HeaderBlock) : List Bytes :=
  headers.values (ascii "transfer-encoding")

/-- Content-Length values that differ, a Transfer-Encoding next to a Content-Length, or
several Transfer-Encoding fields that are not all acceptable. -/
def AmbiguousFraming (headers : HeaderBlock) : Prop :=
  (∃ left ∈ contentLengths headers, ∃ right ∈ contentLengths headers, left ≠ right) ∨
    (transferEncodings headers ≠ [] ∧ contentLengths headers ≠ []) ∨
    (2 ≤ (transferEncodings headers).length ∧
      ∃ value ∈ transferEncodings headers, acceptableTransferEncoding value = false)

/-- The first Content-Length is well formed and a later one differs from it, or the first
Transfer-Encoding is acceptable and a later one is not. -/
def OverlookedFraming (headers : HeaderBlock) : Prop :=
  (transferEncodings headers = [] ∧ ∃ first rest, contentLengths headers = first :: rest ∧
      (parseContentLength first).isOk ∧ ∃ later ∈ rest, later ≠ first) ∨
    (contentLengths headers = [] ∧ ∃ first rest, transferEncodings headers = first :: rest ∧
      acceptableTransferEncoding first = true ∧
      ∃ later ∈ rest, acceptableTransferEncoding later = false)

theorem requestBodyKind_isOk_iff (headers : HeaderBlock) :
    (requestBodyKind headers).isOk = true ↔
      (transferEncodings headers = [] ∧
        ∀ first rest, contentLengths headers = first :: rest → (parseContentLength first).isOk) ∨
      (contentLengths headers = [] ∧ ∃ first rest, transferEncodings headers = first :: rest ∧
        acceptableTransferEncoding first = true) := by
  simp only [requestBodyKind, contentLengthKind, HeaderBlock.get_eq]
  rw [show headers.values (ascii "transfer-encoding") = transferEncodings headers from rfl,
    show headers.values (ascii "content-length") = contentLengths headers from rfl]
  cases transferEncodings headers with
  | nil =>
      cases contentLengths headers with
      | nil => simp [Except.isOk, Except.toBool]
      | cons first rest =>
          cases parsed : parseContentLength first <;>
            simp [parsed, Except.isOk, Except.toBool, bind, Except.bind]
  | cons coding codings =>
      cases contentLengths headers with
      | nil =>
          cases acceptable : acceptableTransferEncoding coding <;>
            simp [acceptable, Except.isOk, Except.toBool]
      | cons first rest => simp [Except.isOk, Except.toBool]

/-- Ambiguous framing is rejected exactly when it is not of the overlooked kind. -/
theorem requestBodyKind_rejects_iff (headers : HeaderBlock) :
    (AmbiguousFraming headers → ∃ error, requestBodyKind headers = .error error) ↔
      ¬ OverlookedFraming headers := by
  have rejected : (∃ error, requestBodyKind headers = .error error) ↔
      ¬ (requestBodyKind headers).isOk = true := by
    cases requestBodyKind headers <;> simp [Except.isOk, Except.toBool]
  rw [rejected, requestBodyKind_isOk_iff]
  constructor
  · rintro rejects (⟨noCoding, first, rest, lengths, valid, later, member, differs⟩ |
      ⟨noLength, first, rest, codings, acceptable, later, member, unacceptable⟩)
    · refine rejects (.inl ⟨later, ?_, first, ?_, differs⟩) (.inl ⟨noCoding, ?_⟩)
      · simp [lengths, member]
      · simp [lengths]
      · intro head tail same
        rw [lengths, List.cons.injEq] at same
        exact same.1 ▸ valid
    · refine rejects (.inr (.inr ⟨?_, later, ?_, unacceptable⟩))
        (.inr ⟨noLength, first, rest, codings, acceptable⟩)
      · rw [codings, List.length_cons]
        exact Nat.succ_le_succ (List.length_pos_of_mem member)
      · simp [codings, member]
  · rintro seen ambiguous (⟨noCoding, valid⟩ | ⟨noLength, first, rest, codings, acceptable⟩)
    · rcases ambiguous with ⟨left, leftMember, right, rightMember, differ⟩ | ⟨coding, _⟩ | ⟨two, _⟩
      · refine seen (.inl ⟨noCoding, ?_⟩)
        cases lengths : contentLengths headers with
        | nil => simp [lengths] at leftMember
        | cons first rest =>
            refine ⟨first, rest, rfl, valid first rest lengths, ?_⟩
            rw [lengths, List.mem_cons] at leftMember rightMember
            by_contra same
            push Not at same
            have leftFirst : left = first := leftMember.elim id (same left)
            have rightFirst : right = first := rightMember.elim id (same right)
            exact differ (leftFirst.trans rightFirst.symm)
      · exact coding noCoding
      · simp [noCoding] at two
    · rcases ambiguous with ⟨left, leftMember, _⟩ | ⟨_, someLength⟩ | ⟨_, value, member, unacceptable⟩
      · simp [noLength] at leftMember
      · exact someLength noLength
      · refine seen (.inr ⟨noLength, first, rest, codings, acceptable, value, ?_, unacceptable⟩)
        rw [codings, List.mem_cons] at member
        refine member.resolve_left ?_
        rintro rfl
        simp [acceptable] at unacceptable

/-- `Content-Length: 5` followed by `content-length: 6`. -/
def twoContentLengths : HeaderBlock where
  buf := ascii "Content-Length:5content-length:6"
  entries := [(⟨0, 14⟩, ⟨15, 16⟩), (⟨16, 30⟩, ⟨31, 32⟩)]

theorem requestBodyKind_twoContentLengths :
    AmbiguousFraming twoContentLengths ∧
      requestBodyKind twoContentLengths = .ok (.contentLength 5) := by
  have lengths : contentLengths twoContentLengths = [[53], [54]] := by decide
  have five : parseContentLength [53] = .ok 5 := by
    have low : ∀ byte ∈ ([53] : Bytes), byte < 128 := fun byte member =>
      List.mem_singleton.mp member ▸ by decide
    rw [parseContentLength, Text.fromUtf8_of_low low]
    decide
  refine ⟨.inl ⟨[53], by simp [lengths], [54], by simp [lengths], by decide⟩, ?_⟩
  have coding : twoContentLengths.get (ascii "transfer-encoding") = none := by decide
  have length : twoContentLengths.get (ascii "content-length") = some [53] := by decide
  rw [requestBodyKind, coding, contentLengthKind, length]
  simp only [five]
  rfl

end TptAsync.Http
