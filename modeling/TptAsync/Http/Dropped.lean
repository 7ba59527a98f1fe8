import TptAsync.Http.HeadLoop

set_option autoImplicit false

/-!
# Dropping a read

The buffer is grown for a read and cut back when the read is over. A read that is dropped while
it waits is never over: the room that was made for it stays in the buffer, as if it had come from
the peer.
-/

namespace TptAsync.Http

open Lib

namespace HttpConnection

variable {α : Type} {conn middle before after : HttpConnection} {fuel count : Nat}

/-- What a dropped read should leave: what was in the buffer, and behind it what the transport has
delivered. -/
def Intact (before after : HttpConnection) : Prop :=
  ∃ received, before.undelivered = received ++ after.undelivered ∧ after.buf = before.buf ++ received

/-- A read that is dropped while it waits. -/
inductive Dropped (before after : HttpConnection) : Prop
  | requestHead (waits : readRequestHead before = (.pending, after))
  | responseHead (waits : readResponseHead before = (.pending, after))
  | line (waits : readLine before = (.pending, after))

/-- All that was to come is in the buffer, and a chunk of zeros behind it. -/
structure Padded (before after : HttpConnection) : Prop where
  buf : after.buf = before.stream ++ List.replicate readChunk 0
  undelivered : after.undelivered = []

theorem Padded.notIntact (padded : Padded before after) : ¬ Intact before after := by
  rintro ⟨received, delivered, buf⟩
  rw [padded.undelivered, List.append_nil] at delivered
  have lengths := congrArg List.length (buf.symm.trans padded.buf)
  simp only [stream, delivered, List.length_append, List.length_replicate] at lengths
  exact absurd lengths (by simp [readChunk])

theorem pollRead_waits {capacity : Nat} {io io' : Transport}
    (waits : Transport.pollRead capacity io = (.pending, io')) : io' = io ∧ io.inbound = [] := by
  unfold Transport.pollRead at waits
  split at waits
  · cases waits
  · next shape =>
      split at waits <;> cases waits
      exact ⟨rfl, shape⟩

theorem fill_waits (waits : fill conn = (.pending, after)) : Padded conn after := by
  rw [fill_eq] at waits
  cases reads : Transport.pollRead readChunk conn.io with
  | mk outcome io =>
      rw [reads] at waits
      cases outcome with
      | ready data | failed error => cases waits
      | pending =>
          cases waits
          obtain ⟨rfl, delivered⟩ := pollRead_waits reads
          have nothing : conn.undelivered = [] := by rw [undelivered, delivered, List.flatten_nil]
          exact ⟨by rw [stream, nothing, List.append_nil]; rfl, nothing⟩

/-- A loop that waits nowhere but in a fill, and goes on after one that brings something. -/
def FillLoop (loop : Nat → Async HttpError HttpConnection α) : Prop :=
  ∀ fuel conn after, loop (fuel + 1) conn = (.pending, after) →
    fill conn = (.pending, after) ∨
      ∃ count middle, fill.Runs conn (count + 1) middle ∧ loop fuel middle = (.pending, after)

theorem FillLoop.padded {loop : Nat → Async HttpError HttpConnection α} (looping : FillLoop loop)
    (waits : loop fuel conn = (.pending, after)) (enough : conn.undelivered.length < fuel) :
    Padded conn after := by
  induction fuel generalizing conn with
  | zero => exact absurd enough (Nat.not_lt_zero _)
  | succ fuel ih =>
      obtain waits | ⟨count, middle, fills, waits⟩ := looping fuel conn after waits
      · exact fill_waits waits
      · obtain ⟨data, length, buf, delivered⟩ := fill_took fills
        have shorter : middle.undelivered.length < fuel := by
          rw [delivered, List.length_append] at enough
          omega
        obtain ⟨padded, nothing⟩ := ih waits shorter
        refine ⟨?_, nothing⟩
        rw [padded, stream, stream, buf, delivered, List.append_assoc conn.buf]

/-- What follows a fill in these loops. -/
theorem waits_of_filled {ended loop : Async HttpError HttpConnection α}
    (settles : ∀ conn after, ended conn ≠ (.pending, after))
    (waits : (do if (← fill) = 0 then ended else loop) conn = (.pending, after)) :
    fill conn = (.pending, after) ∨
      ∃ count middle, fill.Runs conn (count + 1) middle ∧ loop middle = (.pending, after) := by
  cases fills : fill conn with
  | mk outcome middle =>
      cases outcome with
      | failed error =>
          rw [Async.bind_failed fills] at waits
          cases waits
      | pending =>
          rw [Async.bind_pending fills] at waits
          cases waits
          exact .inl rfl
      | ready count =>
          rw [Async.Runs.bind_eq fills] at waits
          cases count with
          | zero => exact absurd waits (settles middle after)
          | succ count => exact .inr ⟨count, middle, fills, waits⟩

theorem headLoop_fillLoop {parse : Bytes → Except HttpError (Option HeadRanges)}
    {finish : Bytes → HeadRanges → α} {ended : Async HttpError HttpConnection α}
    (settles : ∀ conn after, ended conn ≠ (.pending, after)) :
    FillLoop (headLoop parse finish ended) := by
  intro fuel conn after waits
  cases parsed : parse conn.buf with
  | error error => cases (headLoop_error parsed).symm.trans waits
  | ok found =>
      cases found with
      | some ranges => cases (headLoop_some parsed).symm.trans waits
      | none =>
          rw [headLoop_none parsed] at waits
          exact waits_of_filled settles waits

theorem readLineLoop_fillLoop : FillLoop readLineLoop := by
  intro fuel conn after waits
  rw [readLineLoop, (Async.Runs.get conn).bind_eq] at waits
  cases found : find crlf conn.buf with
  | some position =>
      rw [found] at waits
      cases waits
  | none =>
      rw [found] at waits
      dsimp only at waits
      split at waits
      · cases waits
      · exact waits_of_filled (fun _ _ ends => by cases ends) waits

theorem Dropped.padded (dropped : Dropped before after) : Padded before after := by
  cases dropped with
  | requestHead waits =>
      rw [readRequestHead, (Async.Runs.get before).bind_eq, readRequestHeadLoop_eq] at waits
      refine (headLoop_fillLoop fun conn after ends => ?_).padded waits (Nat.lt_succ_self _)
      rw [(Async.Runs.get conn).bind_eq] at ends
      split at ends <;> cases ends
  | responseHead waits =>
      rw [readResponseHead, (Async.Runs.get before).bind_eq, readResponseHeadLoop_eq] at waits
      exact (headLoop_fillLoop fun _ _ ends => by cases ends).padded waits (Nat.lt_succ_self _)
  | line waits => exact readLineLoop_fillLoop.padded waits (Nat.lt_succ_self _)

/-- A dropped read always leaves bytes in the buffer that nobody has sent. -/
theorem dropped_notIntact (dropped : Dropped before after) : ¬ Intact before after :=
  dropped.padded.notIntact

/-- The part of a request line in front of its first space is a token. -/
theorem parseRequestLine_zero (tail : Bytes) : ∀ parts, parseRequestLine (0 :: tail) ≠ .ok parts := by
  intro parts parsed
  unfold parseRequestLine at parsed
  dsimp only at parsed
  cases space : (0 :: tail).findIdx? (· = 32) with
  | none =>
      rw [space] at parsed
      cases parsed
  | some sp1 =>
      rw [space] at parsed
      dsimp only at parsed
      have token : sp1 = 0 ∨ (!((0 : UInt8) :: tail |>.take sp1).all isTcharStrict) = true := by
        cases sp1 with
        | zero => exact .inl rfl
        | succ sp1 => exact .inr rfl
      rw [if_pos token] at parsed
      cases parsed

theorem firstLine_zero {tail : Bytes} {line : Range} (first : firstLine (0 :: tail) = some line) :
    line.start = 0 ∧ 0 < line.stop := by
  unfold firstLine at first
  cases found : find crlf (0 :: tail) with
  | none =>
      rw [found] at first
      cases first
      exact ⟨rfl, Nat.succ_pos _⟩
  | some position =>
      rw [found] at first
      cases first
      refine ⟨rfl, Nat.pos_of_ne_zero fun start => ?_⟩
      obtain ⟨here, _, _⟩ := find_eq_some_iff.mp found
      rw [show position = 0 from start, List.drop_zero, crlf, List.cons_prefix_cons] at here
      exact absurd here.1 (by decide)

/-- No request begins with the zeros that a dropped read leaves. -/
theorem parseRequestRanges_zero (tail : Bytes) :
    ∀ ranges, parseRequestRanges (0 :: tail) ≠ .ok (some ranges) := by
  intro ranges parsed
  obtain ⟨found, complete, parsed⟩ := except_bind_ok parsed
  cases found with
  | none => cases parsed
  | some stop =>
      obtain ⟨here, _, _⟩ := find_eq_some_iff.mp (findHeadEnd_some complete).1
      cases stop with
      | zero =>
          rw [List.drop_zero, headerDelim, List.cons_prefix_cons] at here
          exact absurd here.1 (by decide)
      | succ stop =>
          dsimp only at parsed
          rw [List.take_succ_cons] at parsed
          split at parsed
          · cases parsed
          · next line first =>
              obtain ⟨start, positive⟩ := firstLine_zero first
              obtain ⟨length, within⟩ := Nat.exists_eq_add_one_of_ne_zero positive.ne'
              obtain ⟨parts, refused, _⟩ := except_bind_ok parsed
              rw [Range.slice, start, within] at refused
              exact parseRequestLine_zero _ parts refused

/-- Behind them no request is found any more, whatever the peer sends. -/
theorem readRequestHeadLoop_lost {tail : Bytes} (lost : conn.buf = 0 :: tail) (head : RequestHead) :
    (readRequestHeadLoop fuel conn).1 ≠ .ready (some head) := by
  intro found
  induction fuel generalizing conn tail with
  | zero => cases found
  | succ fuel ih =>
      rw [readRequestHeadLoop_eq] at found
      cases parsed : parseRequestRanges conn.buf with
      | error error =>
          rw [headLoop_error parsed] at found
          cases found
      | ok ranges =>
          cases ranges with
          | some ranges => exact parseRequestRanges_zero tail ranges (lost ▸ parsed)
          | none =>
              rw [headLoop_none parsed, ← readRequestHeadLoop_eq] at found
              cases fills : fill conn with
              | mk outcome middle =>
                  cases outcome with
                  | failed error =>
                      rw [Async.bind_failed fills] at found
                      cases found
                  | pending =>
                      rw [Async.bind_pending fills] at found
                      cases found
                  | ready count =>
                      obtain ⟨data, length, buf, _⟩ := fill_took fills
                      rw [lost, List.cons_append] at buf
                      rw [Async.Runs.bind_eq fills] at found
                      split at found
                      · rw [(Async.Runs.get middle).bind_eq, buf, if_neg (List.cons_ne_nil _ _)] at found
                        cases found
                      · exact ih buf found

/-- An idle connection on which a read has been dropped is of no use for requests. -/
theorem dropped_lost (dropped : Dropped before after) (idle : before.stream = []) (io : Transport)
    (head : RequestHead) : (readRequestHead { after with io }).1 ≠ .ready (some head) := by
  have zeros : after.buf = 0 :: List.replicate (readChunk - 1) 0 := by
    rw [dropped.padded.buf, idle]
    rfl
  exact @readRequestHeadLoop_lost { after with io } _ _ zeros head

/-- A connection on which these bytes have come, and others may follow. -/
def received (inbound : List Bytes) : HttpConnection := .new ⟨inbound, .pending, []⟩

theorem dropped_notIntact_byte :
    ∃ after, readRequestHead (received [[71]]) = (.pending, after) ∧ ¬ Intact (received [[71]]) after :=
  ⟨_, rfl, dropped_notIntact (.requestHead rfl)⟩

/-- A wait for the next request is dropped before anything has come, and the request is lost. -/
theorem dropped_idle :
    let request := received [ascii "GET / HTTP/1.1\r\n\r\n"]
    ∃ after, readRequestHead (received []) = (.pending, after) ∧ ¬ Intact (received []) after ∧
      (∀ head, (readRequestHead { after with io := request.io }).1 ≠ .ready (some head)) ∧
      ∃ head, (readRequestHead request).1 = .ready (some head) := by
  intro request
  have dropped : Dropped (received []) (received []).grown := .requestHead rfl
  exact ⟨_, rfl, dropped.padded.notIntact, dropped_lost dropped rfl request.io, _, rfl⟩

end HttpConnection

end TptAsync.Http
