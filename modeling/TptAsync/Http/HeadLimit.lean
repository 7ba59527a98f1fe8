import TptAsync.Http.HeadLoop
import TptAsync.Http.HeadProperties

set_option autoImplicit false

/-!
# The limit on heads

The limit is checked against the whole buffer. What else a read has brought along with the last
byte of a head counts as well.
-/

namespace TptAsync.Http

open Lib

variable {parse : Bytes → Except HttpError (Option HeadRanges)} {head : Bytes} {ranges : HeadRanges}

/-- A head that the parser accepts when nothing comes behind it. -/
structure WholeHead (parse : Bytes → Except HttpError (Option HeadRanges)) (head : Bytes)
    (ranges : HeadRanges) : Prop where
  parsed : parse head = .ok (some ranges)
  whole : ranges.consumed = head.length

theorem WholeHead.fits (parser : Incremental parse) (whole : WholeHead parse head ranges) :
    head.length ≤ maxHead := by
  by_contra large
  have refused := parser.limit head (Nat.lt_of_not_le large)
  rw [whole.parsed] at refused
  cases refused

namespace HttpConnection

variable {α : Type} {conn : HttpConnection} {rest : Bytes} {fuel : Nat}

/-- The head is returned, and what is behind it is left. -/
def Accepts (read : Async HttpError HttpConnection α) (conn : HttpConnection) (value : α)
    (rest : Bytes) : Prop :=
  ∃ after, read.Runs conn value after ∧ after.stream = rest

/-- The parser asks for more until the head is there. -/
theorem WholeHead.firstVerdict (parser : Incremental parse) (whole : WholeHead parse head ranges)
    (rest : Bytes) : FirstVerdict parse (head ++ rest) head (.ok (some ranges)) where
  initial := List.prefix_append _ _
  parsed := whole.parsed
  settled same := by cases same
  first shorter inside short := by
    obtain ⟨more, shape⟩ := inside
    have fits : (shorter ++ more).length ≤ maxHead := shape ▸ whole.fits parser
    refine (parser.stands shorter more fits).resolve_right fun same => ?_
    rw [shape, whole.parsed] at same
    have within := (parser.consumed shorter ranges same.symm).2
    rw [whole.whole] at within
    exact absurd short (Nat.not_lt.mpr within)

theorem headLoop_accepts_iff (parser : Incremental parse) (finish : Bytes → HeadRanges → α)
    (ended : Async HttpError HttpConnection α) (whole : WholeHead parse head ranges)
    (segments : ∀ segment ∈ conn.io.inbound, segment ≠ []) (shape : conn.stream = head ++ rest)
    (enough : conn.undelivered.length < fuel) :
    Accepts (headLoop parse finish ended fuel) conn (finish head ranges) rest ↔
      filledTo head.length conn.buf.length conn.io.inbound ≤ maxHead := by
  have word := WholeHead.firstVerdict parser whole rest
  obtain ⟨filled, rounds, loops, gathers⟩ :=
    headLoop_gathers finish ended segments (shape ▸ word) enough
  have buffered : filled.buf <+: head ++ rest := by
    rw [← shape, ← gathers.stream]
    exact List.prefix_append _ _
  obtain ⟨more, held⟩ :=
    List.prefix_of_prefix_length_le (List.prefix_append _ _) buffered gathers.holds
  rw [← gathers.filled]
  constructor
  · rintro ⟨after, runs, _⟩
    by_contra large
    have refused := parser.limit filled.buf (Nat.lt_of_not_le large)
    rw [Async.Runs, loops, headLoop_error refused] at runs
    cases runs
  · intro fits
    rw [← held] at fits
    have stands := (parser.stands head more fits).resolve_left (by rw [whole.parsed]; exact word.settled)
    rw [held, whole.parsed] at stands
    have front : filled.buf.take ranges.consumed = head := by
      rw [← held, whole.whole, List.take_left]
    refine ⟨{ filled with buf := filled.buf.drop ranges.consumed }, ?_, ?_⟩
    · rw [Async.Runs, loops, headLoop_some stands, front]
    · have split := gathers.stream.trans shape
      rw [stream, ← held, List.append_assoc] at split
      rw [stream, ← held, whole.whole, List.drop_left]
      exact List.append_cancel_left split

theorem requestHead_accepts_iff (segments : ∀ segment ∈ conn.io.inbound, segment ≠ [])
    (shape : conn.stream = head ++ rest) (whole : WholeHead parseRequestRanges head ranges) :
    Accepts readRequestHead conn (some (RequestHead.fromRanges head ranges)) rest ↔
      filledTo head.length conn.buf.length conn.io.inbound ≤ maxHead := by
  have accepts := headLoop_accepts_iff parseRequestRanges_incremental
    (fun buf ranges => some (RequestHead.fromRanges buf ranges))
    (do if (← Async.get).buf = [] then pure none else Async.fail .connectionClosed) whole
    segments shape (Nat.lt_succ_self _)
  rwa [← readRequestHeadLoop_eq] at accepts

theorem responseHead_accepts_iff (segments : ∀ segment ∈ conn.io.inbound, segment ≠ [])
    (shape : conn.stream = head ++ rest) (whole : WholeHead parseResponseRanges head ranges) :
    Accepts readResponseHead conn (ResponseHead.fromRanges head ranges) rest ↔
      filledTo head.length conn.buf.length conn.io.inbound ≤ maxHead := by
  have accepts := headLoop_accepts_iff parseResponseRanges_incremental ResponseHead.fromRanges
    (Async.fail .connectionClosed) whole segments shape (Nat.lt_succ_self _)
  rwa [← readResponseHeadLoop_eq] at accepts

/-- A head within the limit is accepted exactly if the buffer is within the limit by the time that
it holds the head. -/
theorem head_accepted_iff (segments : ∀ segment ∈ conn.io.inbound, segment ≠ [])
    (shape : conn.stream = head ++ rest) :
    (∀ ranges, WholeHead parseRequestRanges head ranges →
      (Accepts readRequestHead conn (some (RequestHead.fromRanges head ranges)) rest ↔
        filledTo head.length conn.buf.length conn.io.inbound ≤ maxHead)) ∧
    ∀ ranges, WholeHead parseResponseRanges head ranges →
      (Accepts readResponseHead conn (ResponseHead.fromRanges head ranges) rest ↔
        filledTo head.length conn.buf.length conn.io.inbound ≤ maxHead) :=
  ⟨fun _ whole => requestHead_accepts_iff segments shape whole,
    fun _ whole => responseHead_accepts_iff segments shape whole⟩

theorem head_accepted_iff_split :
    Accepts readRequestHead ⟨⟨[ascii "GET / HTTP/1.1\r\n\r", ascii "\nab"], .eof, []⟩, [], false⟩
      (some (RequestHead.fromRanges (ascii "GET / HTTP/1.1\r\n\r\n")
        ⟨(⟨0, 3⟩, ⟨4, 5⟩), .http11, none, [], 18⟩)) (ascii "ab") :=
  ((@head_accepted_iff (ascii "GET / HTTP/1.1\r\n\r\n")
    ⟨⟨[ascii "GET / HTTP/1.1\r\n\r", ascii "\nab"], .eof, []⟩, [], false⟩ (ascii "ab")
    (by decide) rfl).1 _ ⟨rfl, rfl⟩).mpr (by decide)

section LongHead

variable (count : Nat)

/-- A field whose value is as long as wanted. -/
def longField : Field := (ascii "x", List.replicate count 97)

def longHead : Bytes := headText (ascii "GET / HTTP/1.1") [(longField count).line] ++ headerDelim

/-- What the parser finds in it. -/
def longRanges : HeadRanges :=
  ⟨(⟨0, 3⟩, ⟨4, 5⟩), .http11, none, fieldRanges 16 [longField count],
    (headText (ascii "GET / HTTP/1.1") [(longField count).line]).length + headerDelim.length⟩

theorem longHead_length : (longHead count).length = count + 22 := by
  have first : (ascii "GET / HTTP/1.1").length = 14 := rfl
  have name : (ascii "x").length = 1 := rfl
  simp only [longHead, headText, Field.line, longField, crlf, headerDelim, first, name,
    List.length_append, List.length_cons, List.length_nil, List.length_replicate]
  omega

theorem longField_bytes : LineBytes (longField count).line := by
  have bytes : ∀ byte ∈ (longField count).line, byte = 120 ∨ byte = 58 ∨ byte = 97 := by
    intro byte member
    rcases List.mem_append.mp member with name | rest
    · exact .inl (List.mem_singleton.mp name)
    · cases rest with
      | head => exact .inr (.inl rfl)
      | tail _ value => exact .inr (.inr (List.eq_of_mem_replicate value))
  exact ⟨fun cr => absurd (bytes 13 cr) (by decide), fun lf => absurd (bytes 10 lf) (by decide)⟩

theorem wholeHead_longHead (fits : count + 22 ≤ maxHead) :
    WholeHead parseRequestRanges (longHead count) (longRanges count) := by
  have wellFormed : ∀ field ∈ [longField count], field.WellFormed := by
    intro field member
    cases List.mem_singleton.mp member
    exact ⟨⟨longField_bytes count, 120, 58 :: (longField count).2, rfl, by decide, by decide⟩,
      by change 58 ∉ ascii "x"; decide⟩
  have bare : headText (ascii "GET / HTTP/1.1") ([longField count].map Field.line) ++
      (headerDelim ++ []) = longHead count := by rw [List.append_nil]; rfl
  have parsed := @parseRequestRanges_complete (ascii "GET / HTTP/1.1") [longField count] []
    ⟨by decide, by decide⟩ (by decide) wellFormed (by rw [bare, longHead_length]; exact fits)
  rw [bare] at parsed
  exact ⟨parsed, List.length_append.symm⟩

/-- The first byte comes on its own, and the reads end with the head and 5515 bytes more. -/
theorem not_accepted_longHead :
    let head := longHead 60000
    let body : Bytes := List.replicate 6000 0
    WholeHead parseRequestRanges head (longRanges 60000) ∧ head.length ≤ maxHead ∧
      ¬ Accepts readRequestHead (.new ⟨[head.take 1, head.drop 1 ++ body], .pending, []⟩)
        (some (RequestHead.fromRanges head (longRanges 60000))) body ∧
      Accepts readRequestHead (.new ⟨[head ++ body], .pending, []⟩)
        (some (RequestHead.fromRanges head (longRanges 60000))) body := by
  intro head body
  have whole := wholeHead_longHead 60000 (by decide)
  have length : head.length = 60022 := longHead_length 60000
  have size : (head ++ body).length = 66022 := by
    rw [List.length_append, length, List.length_replicate]
  have first : (head.take 1).length = 1 := by
    rw [List.length_take, length]
    decide
  have second : (head.drop 1 ++ body).length = 66021 := by
    rw [List.length_append, List.length_drop, length, List.length_replicate]
  refine ⟨whole, length ▸ by decide, fun accepted => ?_, ?_⟩
  · have segments : ∀ segment ∈ [head.take 1, head.drop 1 ++ body], segment ≠ [] := by
      intro segment member
      refine List.ne_nil_of_length_pos ?_
      rcases List.mem_pair.mp member with rfl | rfl <;> omega
    have shape : [head.take 1, head.drop 1 ++ body].flatten = head ++ body := by
      rw [List.flatten_cons, List.flatten_cons, List.flatten_nil, List.append_nil, ← List.append_assoc,
        List.take_append_drop]
    have within : filledTo head.length 0 [head.take 1, head.drop 1 ++ body] ≤ maxHead :=
      (@requestHead_accepts_iff _ _ (.new ⟨[head.take 1, head.drop 1 ++ body], .pending, []⟩) _
        segments shape whole).mp accepted
    simp only [filledTo, first, second, length] at within
    revert within
    decide
  · have segments : ∀ segment ∈ [head ++ body], segment ≠ [] := by
      intro segment member
      cases List.mem_singleton.mp member
      exact List.ne_nil_of_length_pos (by omega)
    have shape : [head ++ body].flatten = head ++ body := by simp
    have fits : filledTo head.length 0 [head ++ body] ≤ maxHead := by
      simp only [filledTo, size, length]
      decide
    exact (@requestHead_accepts_iff _ _ (.new ⟨[head ++ body], .pending, []⟩) _
      segments shape whole).mpr fits

end LongHead

end HttpConnection

end TptAsync.Http
