import TptAsync.Tls.Stream

set_option autoImplicit false

/-!
# Accounting for plaintext

What `pollWrite` reports against what rustls has taken, call by call and over whole runs.
-/

namespace TptAsync.Tls

open Lib Io

/-- A rustls connection takes a part of every slice, not empty unless the slice is, and
moving its records does not change what it has taken. -/
class LawfulConnection (ρ : Type) [Connection ρ] where
  accepted : ρ → Bytes
  write (conn : ρ) (buf : Bytes) : ∃ n after, (Connection.write buf).Runs conn n after ∧
    n ≤ buf.length ∧ (buf ≠ [] → 0 < n) ∧ accepted after = accepted conn ++ buf.take n
  writeTls (conn : ρ) : accepted (Connection.writeTls conn).2 = accepted conn
  atOnce (conn : ρ) : (Connection.writeTls conn).1 ≠ .pending

open LawfulConnection (accepted)

namespace TlsStream

variable {ω ρ : Type} [AsyncWrite ω] [Connection ρ]

/-- The part of a buffer that a call reports as accepted. -/
def reported (buf : Bytes) : Outcome IoError Nat → Bytes
  | .ready k => buf.take k
  | _ => []

/-- Calls in a row: what they report, and the stream behind them. -/
def run : List Bytes → TlsStream ω ρ → Bytes × TlsStream ω ρ
  | [], stream => ([], stream)
  | buf :: bufs, stream =>
      let (outcome, after) := pollWrite buf stream
      let (rest, last) := run bufs after
      (reported buf outcome ++ rest, last)

/-- The end of `pollWrite`, behind the write to rustls. -/
def pushRecords : Async IoError (TlsStream ω ρ) Unit := do
  pullTlsRecords
  pollFlushWriteBuf

/-- If rustls is given the buffer and takes any of it, then it takes all of it, and pushing
the records does not fail. -/
def TakenWhole (stream : TlsStream ω ρ) (buf : Bytes) : Prop :=
  ∀ drained n written, pollFlushWriteBuf.Runs stream () drained →
    (onConn (Connection.write buf)).Runs drained n written → 0 < n →
      n = buf.length ∧ ∀ error, (pushRecords written).1 ≠ .failed error

/-- Every call of a run finds its buffer taken whole. -/
def AllTakenWhole : TlsStream ω ρ → List Bytes → Prop
  | _, [] => True
  | stream, buf :: bufs => TakenWhole stream buf ∧ AllTakenWhole (pollWrite buf stream).2 bufs

omit [Connection ρ] in
theorem flushLoop_keeps (fuel : Nat) : (flushLoop fuel).Keeps (TlsStream.conn (ω := ω) (ρ := ρ)) := by
  induction fuel with
  | zero => exact .wait
  | succ fuel ih =>
      refine .bind .get fun stream => ?_
      split
      · refine .bind (.zoom fun _ => rfl) fun n => ?_
        split
        · exact .fail _
        · exact .bind (.modify fun _ => rfl) fun _ => ih
      · exact .modify fun _ => rfl

omit [Connection ρ] in
theorem pollFlushWriteBuf_keeps : pollFlushWriteBuf.Keeps (TlsStream.conn (ω := ω) (ρ := ρ)) :=
  .bind .get fun _ => flushLoop_keeps _

theorem takenWhole_iff {stream drained written : TlsStream ω ρ} {buf : Bytes} {n : Nat}
    (drains : pollFlushWriteBuf.Runs stream () drained)
    (writes : (onConn (Connection.write buf)).Runs drained n written) :
    TakenWhole stream buf ↔
      (0 < n → n = buf.length ∧ ∀ error, (pushRecords written).1 ≠ .failed error) := by
  constructor
  · exact fun whole some => whole drained n written drains writes some
  · intro whole drained' n' written' drains' writes' some
    obtain ⟨_, rfl⟩ := drains.unique drains'
    obtain ⟨rfl, rfl⟩ := writes.unique writes'
    exact whole some

theorem pollWrite_stopped {stream drained : TlsStream ω ρ} {outcome : Outcome IoError Unit}
    {buf : Bytes} (stops : pollFlushWriteBuf stream = (outcome, drained)) (notReady : outcome ≠ .ready ()) :
    (pollWrite buf stream).2 = drained ∧ reported buf (pollWrite buf stream).1 = [] := by
  cases outcome with
  | ready value => exact absurd rfl notReady
  | failed error => rw [pollWrite, Async.bind_failed stops]; exact ⟨rfl, rfl⟩
  | pending => rw [pollWrite, Async.bind_pending stops]; exact ⟨rfl, rfl⟩

variable [LawfulConnection ρ]

theorem pushRecords_keeps :
    pushRecords.Keeps fun stream : TlsStream ω ρ => accepted stream.conn := by
  refine .bind (.bind (.zoom fun stream => LawfulConnection.writeTls stream.conn) fun _ => ?_) fun _ => ?_
  · exact .modify fun _ => rfl
  · exact fun stream => congrArg accepted (pollFlushWriteBuf_keeps stream)

/-- What a call does behind a write that has taken something. -/
theorem pollWrite_written {stream drained written : TlsStream ω ρ} {buf : Bytes} {n : Nat}
    (drains : pollFlushWriteBuf.Runs stream () drained)
    (writes : (onConn (Connection.write buf)).Runs drained n written) (some : 0 < n) :
    (pollWrite buf stream).2 = (pushRecords written).2 ∧
      (pollWrite buf stream).1 = match (pushRecords written).1 with
        | .failed error => .failed error
        | _ => .ready buf.length := by
  have atOnce : (pullTlsRecords written).1 ≠ .pending := by
    have moves := LawfulConnection.atOnce written.conn
    cases moved : Connection.writeTls written.conn with
    | mk outcome conn =>
        rw [moved] at moves
        have pulled : onConn Connection.writeTls written = (outcome, { written with conn }) := by
          rw [onConn, Async.zoom, moved]
        cases outcome with
        | pending => exact absurd rfl moves
        | failed error => rw [pullTlsRecords, Async.bind_failed pulled]; simp
        | ready records =>
            have runs : Async.Runs _ written records _ := pulled
            rw [pullTlsRecords, runs.bind_eq]
            simp [Async.modify]
  rw [pollWrite, drains.bind_eq, writes.bind_eq, if_neg (Nat.ne_of_gt some)]
  cases pulled : pullTlsRecords written with
  | mk outcome pulledStream =>
      cases outcome with
      | pending => rw [pulled] at atOnce; exact absurd rfl atOnce
      | failed error =>
          rw [Async.bind_failed pulled, pushRecords, Async.bind_failed pulled]
          exact ⟨rfl, rfl⟩
      | ready value =>
          have runs : Async.Runs _ written value pulledStream := pulled
          rw [runs.bind_eq, pushRecords, runs.bind_eq]
          cases flushed : pollFlushWriteBuf pulledStream with
          | mk result last =>
              rw [(Async.Runs.outcome flushed).bind_eq]
              cases result <;> exact ⟨rfl, rfl⟩

/-- A call reports what rustls has taken exactly when rustls takes it whole. -/
theorem pollWrite_accounts_iff (stream : TlsStream ω ρ) (buf : Bytes) :
    accepted (pollWrite buf stream).2.conn =
        accepted stream.conn ++ reported buf (pollWrite buf stream).1 ↔
      TakenWhole stream buf := by
  have kept := pollFlushWriteBuf_keeps stream
  cases flushed : pollFlushWriteBuf stream with
  | mk outcome drained =>
      rw [flushed] at kept
      by_cases ready : outcome = .ready ()
      · subst ready
        obtain ⟨n, conn, accepts, within, taken, grows⟩ := LawfulConnection.write drained.conn buf
        have writes : (onConn (Connection.write buf)).Runs drained n { drained with conn } := .zoom accepts
        have drains : pollFlushWriteBuf.Runs stream () drained := flushed
        rw [takenWhole_iff drains writes]
        by_cases none : n = 0
        · have nothing : pollWrite buf stream = (.failed IoError.writeZero, { drained with conn }) := by
            rw [pollWrite, drains.bind_eq, writes.bind_eq, if_pos none]
            rfl
          rw [nothing, grows, none, kept]
          simp [reported]
        · have some := Nat.pos_of_ne_zero none
          obtain ⟨same, outcome⟩ := pollWrite_written drains writes some
          have total : accepted (pushRecords { drained with conn }).2.conn =
              accepted stream.conn ++ buf.take n :=
            (pushRecords_keeps { drained with conn }).trans (kept ▸ grows)
          rw [same, outcome, total, List.append_cancel_left_eq]
          have nonempty : buf.take n ≠ [] := by
            intro empty
            rw [List.take_eq_nil_iff] at empty
            rcases empty with zero | nil
            · exact none zero
            · exact none (Nat.le_zero.mp (by rwa [nil, List.length_nil] at within))
          cases (pushRecords { drained with conn }).1 with
          | failed error =>
              simp only [reported, nonempty, false_iff]
              exact fun whole => (whole some).2 error rfl
          | pending | ready =>
              simp only [reported, List.take_length]
              constructor
              · intro all _
                have lengths := congrArg List.length all
                rw [List.length_take] at lengths
                exact ⟨by omega, nofun⟩
              · intro whole
                rw [(whole some).1, List.take_length]
      · obtain ⟨same, nothing⟩ := pollWrite_stopped flushed ready
        rw [same, nothing, kept, List.append_nil]
        simp only [true_iff]
        intro drained' _ _ drains
        rw [Async.Runs, flushed, Prod.mk.injEq] at drains
        exact absurd drains.1 ready

theorem run_accounts_first {stream : TlsStream ω ρ} {buf : Bytes} {bufs : List Bytes}
    (accounts : ∀ calls, accepted (run ((buf :: bufs).take calls) stream).2.conn =
      accepted stream.conn ++ (run ((buf :: bufs).take calls) stream).1) :
    accepted (pollWrite buf stream).2.conn =
      accepted stream.conn ++ reported buf (pollWrite buf stream).1 := by
  simpa [run] using accounts 1

/-- In every run, what the calls so far have reported is what rustls has taken, exactly when
every call finds its buffer taken whole. -/
theorem run_accounts_iff (stream : TlsStream ω ρ) (bufs : List Bytes) :
    (∀ calls, accepted (run (bufs.take calls) stream).2.conn =
        accepted stream.conn ++ (run (bufs.take calls) stream).1) ↔
      AllTakenWhole stream bufs := by
  induction bufs generalizing stream with
  | nil => simp [run, AllTakenWhole]
  | cons buf bufs ih =>
      rw [AllTakenWhole, ← pollWrite_accounts_iff, ← ih]
      constructor
      · intro accounts
        have first := run_accounts_first accounts
        refine ⟨first, fun calls => ?_⟩
        have whole := accounts (calls + 1)
        simp only [List.take_succ_cons, run] at whole
        rw [whole, first, List.append_assoc]
      · rintro ⟨first, rest⟩ calls
        cases calls with
        | zero => simp [run]
        | succ calls =>
            simp only [List.take_succ_cons, run]
            rw [rest calls, first, List.append_assoc]

section Example

/-- A transport that is not ready. -/
structure Blocked where

instance : AsyncWrite Blocked where
  pollWrite _ := Async.wait

/-- A connection with no records queued takes 64 KiB; the records stand for themselves. -/
structure LimitedConnection where
  plaintext : Bytes
  queued : Bytes

def bufferLimit : Nat := 64 * 1024

instance : Connection LimitedConnection where
  write buf conn := (.ready (min buf.length bufferLimit),
    ⟨conn.plaintext ++ buf.take bufferLimit, conn.queued ++ buf.take bufferLimit⟩)
  writeTls conn := (.ready conn.queued, { conn with queued := [] })

instance : LawfulConnection LimitedConnection where
  accepted := LimitedConnection.plaintext
  write conn buf := by
    refine ⟨min buf.length bufferLimit, _, rfl, Nat.min_le_left _ _, ?_, ?_⟩
    · intro nonempty
      have positive := List.length_pos_of_ne_nil nonempty
      have limit : 0 < bufferLimit := by decide
      omega
    · rw [Nat.min_comm, ← List.take_take, List.take_length]
  writeTls _ := rfl
  atOnce _ := nofun

def idle (plaintext queued writeBuf : Bytes) : TlsStream Blocked LimitedConnection :=
  ⟨⟨⟩, ⟨plaintext, queued⟩, writeBuf, 0⟩

theorem idle_drained (plaintext queued : Bytes) :
    pollFlushWriteBuf.Runs (idle plaintext queued []) () (idle plaintext queued []) := rfl

theorem idle_writes (buf : Bytes) :
    (onConn (Connection.write buf)).Runs (idle [] [] []) (min buf.length bufferLimit)
      (idle (buf.take bufferLimit) (buf.take bufferLimit) []) := rfl

theorem pushRecords_blocked {records : Bytes} (nonempty : records ≠ []) (plaintext : Bytes) :
    pushRecords (idle plaintext records []) = (.pending, idle plaintext [] records) := by
  have pulls : pullTlsRecords.Runs (idle plaintext records []) () (idle plaintext [] records) := rfl
  have waiting : (idle plaintext [] records).writePos <
      (idle plaintext [] records).writeBuf.length := List.length_pos_of_ne_nil nonempty
  rw [pushRecords, pulls.bind_eq, pollFlushWriteBuf, (Async.Runs.get _).bind_eq, flushLoop,
    (Async.Runs.get _).bind_eq, if_pos waiting]
  rfl

theorem run_accounts_short :
    accepted (run [[1, 2, 3]] (idle [] [] [])).2.conn = (run [[1, 2, 3]] (idle [] [] [])).1 := by
  refine (run_accounts_iff (idle [] [] []) [[1, 2, 3]]).mpr ⟨?_, trivial⟩ 1
  rw [takenWhole_iff (idle_drained [] []) (idle_writes _)]
  exact fun _ => ⟨rfl, by rw [pushRecords_blocked (by decide)]; nofun⟩

/-- One byte more than the connection takes. -/
def longBuffer : Bytes := List.replicate (bufferLimit + 1) 0

/-- What the connection takes of it. -/
def limitBuffer : Bytes := List.replicate bufferLimit 0

theorem longBuffer_length : longBuffer.length = bufferLimit + 1 := List.length_replicate

theorem longBuffer_take : longBuffer.take bufferLimit = limitBuffer := by
  rw [longBuffer, limitBuffer, List.take_replicate, Nat.min_eq_left (Nat.le_succ _)]

theorem longBuffer_ne_nil : longBuffer ≠ [] :=
  List.ne_nil_of_length_pos (longBuffer_length ▸ Nat.succ_pos _)

theorem limitBuffer_length : limitBuffer.length = bufferLimit := List.length_replicate

theorem limitBuffer_ne_nil : limitBuffer ≠ [] :=
  List.ne_nil_of_length_pos (limitBuffer_length ▸ by decide)

theorem pollWrite_longBuffer :
    (pollWrite longBuffer).Runs (idle [] [] []) (bufferLimit + 1) (idle limitBuffer [] limitBuffer) := by
  have writes := idle_writes longBuffer
  rw [longBuffer_take, longBuffer_length, Nat.min_eq_right (Nat.le_succ _)] at writes
  obtain ⟨after, outcome⟩ := pollWrite_written (idle_drained [] []) writes (by decide)
  rw [pushRecords_blocked limitBuffer_ne_nil] at after outcome
  rw [longBuffer_length] at outcome
  exact Prod.ext outcome after

/-- `write_all` ends well on the long buffer, and its last byte is lost. -/
theorem writeAll_longBuffer :
    (∃ after, pollWriteAll.Runs (idle [] [] [], longBuffer) () (after, []) ∧
        accepted after.conn = limitBuffer) ∧
      ¬ ∀ calls, accepted (run ([longBuffer].take calls) (idle [] [] [])).2.conn =
        accepted (idle [] [] []).conn ++ (run ([longBuffer].take calls) (idle [] [] [])).1 := by
  constructor
  · refine ⟨idle limitBuffer [] limitBuffer, pollWriteAll_runs longBuffer_ne_nil ?_, rfl⟩
    rw [longBuffer_length]
    exact pollWrite_longBuffer
  · intro accounts
    have wrote : pollWrite longBuffer (idle [] [] []) =
        (.ready (bufferLimit + 1), idle limitBuffer [] limitBuffer) := pollWrite_longBuffer
    have once := run_accounts_first accounts
    rw [wrote] at once
    have same : limitBuffer = [] ++ longBuffer.take (bufferLimit + 1) := once
    rw [List.nil_append, List.take_of_length_le (Nat.le_of_eq longBuffer_length)] at same
    have lengths := limitBuffer_length.symm.trans ((congrArg List.length same).trans longBuffer_length)
    exact absurd lengths (Nat.ne_of_lt (Nat.lt_succ_self bufferLimit))

end Example

end TlsStream

end TptAsync.Tls
