import Mathlib.Data.Nat.Find
import TptAsync.Http.Incremental

set_option autoImplicit false

/-!
# Reading heads piece by piece

A head is read until the parser has a word. What it has by then is decided by where the reads
end, and so is whether the buffer is over its limit.
-/

namespace TptAsync.Http

open Lib

namespace HttpConnection

variable {conn before after : HttpConnection}

section Filled

variable {need held : Nat}

/-- How much is in the buffer once it holds `need` bytes, or all there are. A read takes no more
than a chunk, and no more than the rest of a segment. -/
def filledTo (need held : Nat) : List Bytes → Nat
  | [] => held
  | segment :: rest =>
      if need ≤ held then held
      else if held + segment.length < need then filledTo need (held + segment.length) rest
      else held + min segment.length ((need - held + (readChunk - 1)) / readChunk * readChunk)

theorem filledTo_of_le (enough : need ≤ held) (inbound : List Bytes) :
    filledTo need held inbound = held := by
  cases inbound with
  | nil => rfl
  | cons segment rest => rw [filledTo, if_pos enough]

/-- A chunk of a longer segment. -/
theorem filledTo_chunk {segment : Bytes} (rest : List Bytes) (short : held < need)
    (long : readChunk < segment.length) :
    filledTo need (held + readChunk) (segment.drop readChunk :: rest) =
      if held + segment.length < need then filledTo need (held + segment.length) rest
      else held + min segment.length ((need - held + (readChunk - 1)) / readChunk * readChunk) := by
  have same : held + readChunk + (segment.length - readChunk) = held + segment.length := by omega
  rw [filledTo, List.length_drop, same]
  by_cases enough : need ≤ held + readChunk
  · rw [if_pos enough, if_neg (by omega)]
    simp only [readChunk] at enough long ⊢
    omega
  · rw [if_neg enough]
    by_cases beyond : held + segment.length < need
    · rw [if_pos beyond, if_pos beyond]
    · rw [if_neg beyond, if_neg beyond]
      simp only [readChunk] at enough long ⊢
      omega

theorem filledTo_read {io io' : Transport} {data : Bytes} (short : held < need)
    (reads : (Transport.pollRead readChunk).Runs io data io') :
    filledTo need (held + data.length) io'.inbound = filledTo need held io.inbound := by
  unfold Async.Runs Transport.pollRead at reads
  split at reads
  · next segment rest shape =>
      cases reads
      rw [shape, filledTo, if_neg (Nat.not_le.mpr short), List.length_take]
      rcases Nat.lt_or_ge readChunk segment.length with long | whole
      · rw [min_eq_left long.le, if_neg (Nat.not_le.mpr long)]
        exact filledTo_chunk rest short long
      · rw [min_eq_right whole, if_pos whole]
        split
        · rfl
        · next enough =>
            rw [filledTo_of_le (Nat.not_lt.mp enough)]
            simp only [readChunk] at whole ⊢
            omega
  · split at reads <;> cases reads
    rfl

theorem filledTo_le (inbound : List Bytes) :
    filledTo need held inbound ≤ max held (need + readChunk) := by
  induction inbound generalizing held with
  | nil => exact le_max_left _ _
  | cons segment rest ih =>
      rw [filledTo]
      split
      · exact le_max_left _ _
      · split
        · refine ih.trans (max_le ?_ (le_max_right _ _))
          omega
        · simp only [readChunk]
          omega

theorem filledTo_le_length (inbound : List Bytes) :
    filledTo need held inbound ≤ held + inbound.flatten.length := by
  induction inbound generalizing held with
  | nil => exact Nat.le_add_right _ _
  | cons segment rest ih =>
      rw [filledTo, List.flatten_cons, List.length_append]
      split
      · exact Nat.le_add_right _ _
      · split
        · have further := @ih (held + segment.length)
          omega
        · omega

/-- Reads until the buffer holds `need` bytes. -/
structure Gathers (need : Nat) (before after : HttpConnection) : Prop where
  stream : after.stream = before.stream
  segments : ∀ segment ∈ after.io.inbound, segment ≠ []
  eof : after.eof = before.eof
  ending : after.io.ending = before.io.ending
  outbound : after.io.outbound = before.io.outbound
  holds : need ≤ after.buf.length
  filled : after.buf.length = filledTo need before.buf.length before.io.inbound

theorem Gathers.of_fill {count : Nat} {middle : HttpConnection} (gathers : Gathers need middle after)
    (short : before.buf.length < need) (fills : fill.Runs before count middle)
    (buffers : Buffers before middle) : Gathers need before after where
  stream := gathers.stream.trans buffers.stream
  segments := gathers.segments
  eof := gathers.eof.trans buffers.eof
  ending := gathers.ending.trans buffers.ending
  outbound := gathers.outbound.trans buffers.outbound
  holds := gathers.holds
  filled := by
    obtain ⟨data, io, reads, _, rfl⟩ := fill_of_runs fills
    rw [gathers.filled, ← filledTo_read short reads, List.length_append]

end Filled

section Loop

variable {α : Type} {parse : Bytes → Except HttpError (Option HeadRanges)}
  {finish : Bytes → HeadRanges → α} {ended : Async HttpError HttpConnection α}
  {part : Bytes} {ranges : HeadRanges} {fuel : Nat}

/-- The loop that reads heads of either kind. -/
def headLoop (parse : Bytes → Except HttpError (Option HeadRanges)) (finish : Bytes → HeadRanges → α)
    (ended : Async HttpError HttpConnection α) : Nat → Async HttpError HttpConnection α
  | 0 => Async.wait
  | fuel + 1 => do
      let conn ← Async.get
      Async.set { conn with buf := [] }
      match ← Async.ofExcept (parse conn.buf) with
      | some ranges =>
          Async.set { conn with buf := conn.buf.drop ranges.consumed }
          pure (finish (conn.buf.take ranges.consumed) ranges)
      | none =>
          Async.set conn
          if (← fill) = 0 then ended else headLoop parse finish ended fuel

theorem readRequestHeadLoop_eq (fuel : Nat) :
    readRequestHeadLoop fuel =
      headLoop parseRequestRanges (fun buf ranges => some (RequestHead.fromRanges buf ranges))
        (do if (← Async.get).buf = [] then pure none else Async.fail .connectionClosed) fuel := by
  induction fuel with
  | zero => rfl
  | succ fuel ih =>
      rw [readRequestHeadLoop, headLoop]
      exact ih ▸ rfl

theorem readResponseHeadLoop_eq (fuel : Nat) :
    readResponseHeadLoop fuel =
      headLoop parseResponseRanges ResponseHead.fromRanges (Async.fail .connectionClosed) fuel := by
  induction fuel with
  | zero => rfl
  | succ fuel ih =>
      rw [readResponseHeadLoop, headLoop]
      exact ih ▸ rfl

theorem headLoop_some (parsed : parse conn.buf = .ok (some ranges)) :
    headLoop parse finish ended (fuel + 1) conn =
      (.ready (finish (conn.buf.take ranges.consumed) ranges),
      { conn with buf := conn.buf.drop ranges.consumed }) := by
  rw [headLoop, (Async.Runs.get conn).bind_eq, parsed]
  rfl

theorem headLoop_error {error : HttpError} (parsed : parse conn.buf = .error error) :
    headLoop parse finish ended (fuel + 1) conn = (.failed error, { conn with buf := [] }) := by
  rw [headLoop, (Async.Runs.get conn).bind_eq, parsed]
  rfl

theorem headLoop_none (parsed : parse conn.buf = .ok none) :
    headLoop parse finish ended (fuel + 1) conn =
      (do if (← fill) = 0 then ended else headLoop parse finish ended fuel) conn := by
  rw [headLoop, (Async.Runs.get conn).bind_eq, parsed]
  rfl

/-- Fed byte by byte, the parser has its first word at `part`, and this is it. -/
structure FirstVerdict (parse : Bytes → Except HttpError (Option HeadRanges)) (bytes part : Bytes)
    (verdict : Except HttpError (Option HeadRanges)) : Prop where
  initial : part <+: bytes
  parsed : parse part = verdict
  settled : verdict ≠ .ok none
  first : ∀ shorter, shorter <+: part → shorter.length < part.length → parse shorter = .ok none

/-- What the loop comes to when the parser's first word is `verdict`: that, unless so much has
come behind the head at once that the buffer is over the limit. -/
inductive Settles (finish : Bytes → HeadRanges → α) (conn : HttpConnection) (part : Bytes)
    (verdict : Except HttpError (Option HeadRanges)) : Outcome HttpError α × HttpConnection → Prop
  | found {ranges : HeadRanges} {after : HttpConnection} (word : verdict = .ok (some ranges))
      (segments : ∀ segment ∈ after.io.inbound, segment ≠ []) (eof : after.eof = conn.eof)
      (stream : conn.stream = part.take ranges.consumed ++ after.stream)
      (ending : after.io.ending = conn.io.ending) (outbound : after.io.outbound = conn.io.outbound)
      (buffered : after.buf.length ≤ max conn.buf.length (part.length + readChunk)) :
      Settles finish conn part verdict (.ready (finish (part.take ranges.consumed) ranges), after)
  | refused {error : HttpError} {after : HttpConnection} (word : verdict = .error error)
      (outbound : after.io.outbound = conn.io.outbound) :
      Settles finish conn part verdict (.failed error, after)
  | oversize {buf : Bytes} {error : HttpError} {after : HttpConnection}
      (initial : buf <+: conn.stream) (large : maxHead < buf.length)
      (short : buf.length ≤ max conn.buf.length (part.length + readChunk))
      (outbound : after.io.outbound = conn.io.outbound) :
      Settles finish conn part verdict (.failed error, after)

/-- A head that is returned was at the front of the stream. -/
theorem headLoop_of_runs {value : α} (closes : ∀ conn after, ¬ ended.Runs conn value after)
    (live : conn.Live) (runs : (headLoop parse finish ended fuel).Runs conn value after) :
    ∃ part ranges, part <+: conn.stream ∧ parse part = .ok (some ranges) ∧
      value = finish (part.take ranges.consumed) ranges ∧
      conn.Advances (part.take ranges.consumed) after := by
  induction fuel generalizing conn with
  | zero => cases runs
  | succ fuel ih =>
      cases parsed : parse conn.buf with
      | error error => cases (headLoop_error parsed).symm.trans runs
      | ok found =>
          cases found with
          | some ranges =>
              cases (headLoop_some parsed).symm.trans runs
              refine ⟨conn.buf, ranges, List.prefix_append _ _, parsed, rfl, ?_,
                ⟨live.segments, live.eof⟩, rfl, rfl⟩
              simp only [stream, undelivered, ← List.append_assoc, List.take_append_drop]
          | none =>
              rw [Async.Runs, headLoop_none parsed] at runs
              obtain ⟨count, middle, fills, runs⟩ := Async.Runs.of_bind runs
              split at runs
              · exact absurd runs (closes middle after)
              · next some =>
                  have advances := fill_advances live fills some
                  obtain ⟨part, ranges, initial, parsed, same, further⟩ := ih advances.live runs
                  refine ⟨part, ranges, ?_, parsed, same, advances.trans further⟩
                  rwa [advances.stream]

/-- Before it has a word, the parser is asked again and again. -/
theorem headLoop_gathers {verdict : Except HttpError (Option HeadRanges)}
    (finish : Bytes → HeadRanges → α) (ended : Async HttpError HttpConnection α)
    (segments : ∀ segment ∈ conn.io.inbound, segment ≠ [])
    (word : FirstVerdict parse conn.stream part verdict)
    (enough : conn.undelivered.length < fuel) :
    ∃ filled rounds, headLoop parse finish ended fuel conn =
      headLoop parse finish ended (rounds + 1) filled ∧ Gathers part.length conn filled := by
  induction fuel generalizing conn with
  | zero => exact absurd enough (Nat.not_lt_zero _)
  | succ fuel ih =>
      rcases Nat.lt_or_ge conn.buf.length part.length with short | whole
      · have initial := List.prefix_of_prefix_length_le (List.prefix_append _ _) word.initial short.le
        have missing : conn.undelivered ≠ [] := by
          intro delivered
          have inside := word.initial.length_le
          rw [stream, delivered, List.append_nil] at inside
          omega
        obtain ⟨count, middle, fills, positive, buffers⟩ := fill_buffers segments missing
        have shrinks := buffers.shrinks
        obtain ⟨filled, rounds, loops, gathers⟩ :=
          @ih middle buffers.segments (buffers.stream ▸ word) (by omega)
        refine ⟨filled, rounds, ?_, gathers.of_fill short fills buffers⟩
        rw [headLoop_none (word.first conn.buf initial short), fills.bind_eq, if_neg positive.ne', loops]
      · exact ⟨conn, fuel, rfl, rfl, segments, rfl, rfl, rfl, whole, (filledTo_of_le whole _).symm⟩

theorem headLoop_settles {verdict : Except HttpError (Option HeadRanges)}
    (parser : Incremental parse) (finish : Bytes → HeadRanges → α)
    (ended : Async HttpError HttpConnection α)
    (segments : ∀ segment ∈ conn.io.inbound, segment ≠ [])
    (word : FirstVerdict parse conn.stream part verdict)
    (enough : conn.undelivered.length < fuel) :
    Settles finish conn part verdict (headLoop parse finish ended fuel conn) := by
  obtain ⟨filled, rounds, loops, gathers⟩ := headLoop_gathers finish ended segments word enough
  have buffered : filled.buf <+: conn.stream := gathers.stream ▸ List.prefix_append _ _
  have short : filled.buf.length ≤ max conn.buf.length (part.length + readChunk) :=
    gathers.filled ▸ filledTo_le _
  obtain ⟨more, shape⟩ := List.prefix_of_prefix_length_le word.initial buffered gathers.holds
  rw [loops]
  rcases Nat.lt_or_ge maxHead filled.buf.length with large | fits
  · rw [headLoop_error (parser.limit filled.buf large)]
    exact .oversize buffered large short gathers.outbound
  · rw [← shape] at fits
    have stands := (parser.stands part more fits).resolve_left (word.parsed ▸ word.settled)
    rw [shape, word.parsed] at stands
    rcases verdict with error | _ | ranges
    · rw [headLoop_error stands]
      exact .refused rfl gathers.outbound
    · exact absurd rfl word.settled
    · have consumed := parser.consumed part ranges word.parsed
      have same : filled.buf.take ranges.consumed = part.take ranges.consumed := by
        rw [← shape, List.take_append_of_le_length consumed.2]
      rw [headLoop_some stands, same]
      refine .found rfl gathers.segments gathers.eof ?_ gathers.ending gathers.outbound ?_
      · rw [← same, ← gathers.stream]
        simp only [stream, undelivered, ← List.append_assoc, List.take_append_drop]
      · simp only [List.length_drop]
        omega

variable (finish ended) (parser : Incremental parse)
include parser

/-- A part on which the parser has a word starts with the part at which it has its first. -/
theorem exists_firstVerdict {bytes : Bytes} (initial : part <+: bytes) (fits : part.length ≤ maxHead)
    (settled : parse part ≠ .ok none) :
    ∃ least, least <+: part ∧ FirstVerdict parse bytes least (parse part) := by
  classical
  have exists' : ∃ count, parse (part.take count) ≠ .ok none :=
    ⟨part.length, by rwa [List.take_length]⟩
  have least := List.take_prefix (Nat.find exists') part
  obtain ⟨more, shape⟩ := least
  have stands := (parser.stands (part.take (Nat.find exists')) more (by rwa [shape])).resolve_left
    (Nat.find_spec exists')
  rw [shape] at stands
  refine ⟨_, ⟨more, shape⟩, ⟨List.IsPrefix.trans ⟨more, shape⟩ initial, stands.symm, settled, ?_⟩⟩
  intro shorter inside short
  have taken : shorter = part.take shorter.length :=
    List.prefix_iff_eq_take.mp (inside.trans ⟨more, shape⟩)
  have early : shorter.length < Nat.find exists' :=
    Nat.lt_of_lt_of_le short (List.length_take_le _ _)
  rw [taken]
  exact not_not.mp (Nat.find_min exists' early)

/-- A head that stands in a part of the stream is found, however the stream is cut. -/
theorem headLoop_found (live : conn.Live) (initial : part <+: conn.stream)
    (parsed : parse part = .ok (some ranges)) (enough : conn.undelivered.length < fuel)
    (bounded : ∀ buf, buf <+: conn.stream →
      buf.length ≤ max conn.buf.length (part.length + readChunk) → buf.length ≤ maxHead) :
    ∃ after, (headLoop parse finish ended fuel).Runs conn
        (finish (part.take ranges.consumed) ranges) after ∧
      conn.Advances (part.take ranges.consumed) after ∧
      after.buf.length ≤ max conn.buf.length (part.length + readChunk) := by
  have fits : part.length ≤ maxHead := bounded part initial (by omega)
  obtain ⟨least, inside, word⟩ := exists_firstVerdict parser initial fits (by simp [parsed])
  have shorter := inside.length_le
  rw [parsed] at word
  cases ends : headLoop parse finish ended fuel conn with
  | mk outcome after =>
      have settles := headLoop_settles parser finish ended live.segments word enough
      rw [ends] at settles
      cases settles with
      | found same segments eof stream ending outbound buffered =>
          cases same
          have consumed := (parser.consumed least _ word.parsed).2
          have taken : least.take ranges.consumed = part.take ranges.consumed := by
            obtain ⟨more, rfl⟩ := inside
            rw [List.take_append_of_le_length consumed]
          rw [taken] at stream ends
          exact ⟨after, ends, ⟨stream, ⟨segments, eof.trans live.eof⟩, ending, outbound⟩, by omega⟩
      | refused same outbound => cases same
      | oversize initial large short outbound =>
          exact absurd (bounded _ initial (by omega)) (Nat.not_le.mpr large)

/-- No head in the whole stream: the loop reads on to its end. -/
theorem headLoop_missing (live : conn.Live) (fits : conn.stream.length ≤ maxHead)
    (nothing : parse conn.stream = .ok none) (enough : conn.undelivered.length < fuel) :
    ∃ after, after.buf = conn.stream ∧ after.io.outbound = conn.io.outbound ∧
      headLoop parse finish ended fuel conn = (match conn.io.ending with
        | .eof => ended after
        | .pending => (.pending, after.grown)
        | .error error => (.failed (.io error), after)) := by
  induction fuel generalizing conn with
  | zero => exact absurd enough (Nat.not_lt_zero _)
  | succ fuel ih =>
      have none : parse conn.buf = .ok none := by
        rcases parser.stands conn.buf conn.undelivered fits with none | stands
        · exact none
        · rw [← stands]
          exact nothing
      rw [headLoop_none none]
      by_cases delivered : conn.undelivered = []
      · have gathered : conn.buf = conn.stream := by rw [stream, delivered, List.append_nil]
        cases ending : conn.io.ending with
        | eof =>
            refine ⟨{ conn with eof := true }, gathered, rfl, ?_⟩
            rw [(fill_ended live delivered ending).bind_eq, if_pos rfl]
        | pending =>
            exact ⟨conn, gathered, rfl, Async.bind_pending (fill_pending live delivered ending)⟩
        | error error =>
            exact ⟨conn, gathered, rfl, Async.bind_failed (fill_failed live delivered ending)⟩
      · obtain ⟨count, middle, fills, positive, advances, grows, shrinks⟩ := fill_runs live delivered
        have same : middle.stream = conn.stream := by rw [advances.stream, List.nil_append]
        obtain ⟨after, gathered, outbound, loops⟩ := @ih middle advances.live (same ▸ fits)
          (same ▸ nothing) (by omega)
        refine ⟨after, gathered.trans same, outbound.trans advances.outbound, ?_⟩
        rw [fills.bind_eq, if_neg positive.ne', loops, advances.ending]

end Loop

/-- A head that is in the buffer is taken from it. -/
theorem readResponseHead_buffered {ranges : HeadRanges}
    (parsed : parseResponseRanges conn.buf = .ok (some ranges)) :
    readResponseHead.Runs conn (ResponseHead.fromRanges (conn.buf.take ranges.consumed) ranges)
      { conn with buf := conn.buf.drop ranges.consumed } := by
  rw [Async.Runs, readResponseHead, (Async.Runs.get conn).bind_eq, readResponseHeadLoop_eq]
  exact headLoop_some parsed

theorem readResponseHead_of_runs {head : ResponseHead} (live : conn.Live)
    (runs : readResponseHead.Runs conn head after) :
    ∃ part ranges, part <+: conn.stream ∧ parseResponseRanges part = .ok (some ranges) ∧
      head = ResponseHead.fromRanges (part.take ranges.consumed) ranges ∧
      conn.Advances (part.take ranges.consumed) after := by
  rw [Async.Runs, readResponseHead, (Async.Runs.get conn).bind_eq, readResponseHeadLoop_eq] at runs
  exact headLoop_of_runs (fun _ _ closes => by cases closes) live runs

/-- Reading a head comes to what the parser says of the whole stream. -/
structure ReadsWhole {α : Type} (parse : Bytes → Except HttpError (Option HeadRanges))
    (finish : Bytes → HeadRanges → α) (closed : Bytes → Outcome HttpError α)
    (conn : HttpConnection) (result : Outcome HttpError α × HttpConnection) : Prop where
  found : ∀ ranges, parse conn.stream = .ok (some ranges) →
    result.1 = .ready (finish (conn.stream.take ranges.consumed) ranges) ∧
      result.2.stream = conn.stream.drop ranges.consumed
  refused : ∀ error, parse conn.stream = .error error → result.1 = .failed error
  incomplete : parse conn.stream = .ok none → conn.io.ending = .eof →
    result.1 = closed conn.stream

theorem headLoop_readsWhole {α : Type} {parse : Bytes → Except HttpError (Option HeadRanges)}
    {finish : Bytes → HeadRanges → α} {closed : Bytes → Outcome HttpError α}
    {ended : Async HttpError HttpConnection α} (parser : Incremental parse)
    (closes : ∀ conn, ended conn = (closed conn.buf, conn)) (live : conn.Live)
    (fits : conn.stream.length ≤ maxHead) {fuel : Nat} (enough : conn.undelivered.length < fuel) :
    ReadsWhole parse finish closed conn (headLoop parse finish ended fuel conn) where
  found := by
    intro ranges parsed
    obtain ⟨after, loops, advances, _⟩ := headLoop_found finish ended parser live
      (List.prefix_refl _) parsed enough fun buf inside _ => inside.length_le.trans fits
    rw [loops]
    refine ⟨rfl, ?_⟩
    have split := (List.take_append_drop ranges.consumed conn.stream).trans advances.stream
    exact (List.append_cancel_left split).symm
  refused := by
    intro error refused
    obtain ⟨least, inside, word⟩ := exists_firstVerdict parser (List.prefix_refl _) fits
      (by simp [refused])
    rw [refused] at word
    have settles := headLoop_settles parser finish ended live.segments word enough
    cases ends : headLoop parse finish ended fuel conn with
    | mk outcome after =>
        rw [ends] at settles
        cases settles with
        | found same => cases same
        | refused same => cases same; rfl
        | oversize initial large =>
            exact absurd (initial.length_le.trans fits) (Nat.not_le.mpr large)
  incomplete := by
    intro nothing eof
    obtain ⟨after, gathered, _, loops⟩ := headLoop_missing finish ended parser live fits
      nothing enough
    rw [loops, eof, closes, gathered]

/-- What the parser says of a part of at most 64 KiB it says of the whole, so that reading a
head piece by piece is parsing it at once. -/
theorem head_incremental :
    (∀ buf more, (buf ++ more).length ≤ maxHead →
      (parseRequestRanges buf ≠ .ok none →
        parseRequestRanges (buf ++ more) = parseRequestRanges buf) ∧
      (parseResponseRanges buf ≠ .ok none →
        parseResponseRanges (buf ++ more) = parseResponseRanges buf)) ∧
    ∀ conn : HttpConnection, conn.Live → conn.stream.length ≤ maxHead →
      ReadsWhole parseRequestRanges (fun buf ranges => some (RequestHead.fromRanges buf ranges))
          (fun buf => if buf = [] then .ready none else .failed .connectionClosed)
          conn (readRequestHead conn) ∧
        ReadsWhole parseResponseRanges ResponseHead.fromRanges
          (fun _ => .failed .connectionClosed) conn (readResponseHead conn) := by
  refine ⟨fun buf more fits => ⟨?_, ?_⟩, fun conn live fits => ⟨?_, ?_⟩⟩
  · exact (parseRequestRanges_incremental.stands _ _ fits).resolve_left
  · exact (parseResponseRanges_incremental.stands _ _ fits).resolve_left
  · rw [readRequestHead, (Async.Runs.get conn).bind_eq, readRequestHeadLoop_eq]
    refine headLoop_readsWhole parseRequestRanges_incremental (fun conn => ?_) live fits
      (Nat.lt_succ_self _)
    rw [(Async.Runs.get conn).bind_eq]
    split <;> rfl
  · rw [readResponseHead, (Async.Runs.get conn).bind_eq, readResponseHeadLoop_eq]
    exact headLoop_readsWhole parseResponseRanges_incremental (fun _ => rfl) live fits
      (Nat.lt_succ_self _)

/-- The blank line comes in two segments, and the body with the second. -/
theorem head_incremental_split :
    let conn : HttpConnection :=
      ⟨⟨[ascii "GET / HTTP/1.1\r\n\r", ascii "\nab"], .eof, []⟩, [], false⟩
    let ranges : HeadRanges := ⟨(⟨0, 3⟩, ⟨4, 5⟩), .http11, none, [], 18⟩
    (readRequestHead conn).1 =
        .ready (some (RequestHead.fromRanges (ascii "GET / HTTP/1.1\r\n\r\n") ranges)) ∧
      (readRequestHead conn).2.stream = ascii "ab" := by
  intro conn ranges
  have parsed : parseRequestRanges conn.stream = .ok (some ranges) := rfl
  have live : conn.Live := ⟨by decide, rfl⟩
  exact ((head_incremental.2 conn live (by decide)).1).found ranges parsed

end HttpConnection

end TptAsync.Http
