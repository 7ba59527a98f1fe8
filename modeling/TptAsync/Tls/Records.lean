import TptAsync.Io.Pipe
import TptAsync.Lib.Transition
import TptAsync.Tls.Duplex

set_option autoImplicit false

/-!
# Accounting for ciphertext

What the transport has accepted against what has been pulled from rustls. Both keep a log.
-/

namespace TptAsync.Tls

open Lib Io Async

structure Logged (α : Type) where
  inner : α
  log : Bytes

namespace Logged

variable {ε α β ω ρ : Type}

def onInner (action : Async ε α β) : Async ε (Logged α) β :=
  Async.zoom Logged.inner (fun logged inner => { logged with inner }) action

/-- What is recorded of the value is logged. -/
def logging (record : β → Bytes) (action : Async ε α β) : Async ε (Logged α) β := do
  let value ← onInner action
  Async.modify fun logged => { logged with log := logged.log ++ record value }
  pure value

/-- The bytes that the transport has accepted. -/
instance [Transport ω] : Transport (Logged ω) where
  pollRead room := onInner (AsyncRead.pollRead room)
  pollWrite buf := logging buf.take (AsyncWrite.pollWrite buf)
  pollFlush := onInner Transport.pollFlush
  pollShutdown := onInner Transport.pollShutdown

def call (inner : α → Except ε β × α) (logged : Logged α) : Except ε β × Logged α :=
  ((inner logged.inner).1, { logged with inner := (inner logged.inner).2 })

/-- The records that have been pulled. -/
instance [Session ρ] : Session (Logged ρ) where
  write buf := onInner (Connection.write buf)
  writeTls := logging id Connection.writeTls
  wantsWrite conn := Session.wantsWrite conn.inner
  wantsRead conn := Session.wantsRead conn.inner
  isHandshaking conn := Session.isHandshaking conn.inner
  readTls buf := call (Session.readTls buf)
  processNewPackets := call Session.processNewPackets
  read room := call (Session.read room)
  sendCloseNotify conn := { conn with inner := Session.sendCloseNotify conn.inner }

def recorded (record : β → Bytes) : Outcome ε β → Bytes
  | .ready value => record value
  | .failed _ | .pending => []

theorem logging_ends {record : β → Bytes} {action : Async ε α β} {logged after : Logged α}
    {outcome : Outcome ε β} (ends : logging record action logged = (outcome, after)) :
    after.log = logged.log ++ recorded record outcome := by
  rcases bind_ends ends with ⟨value, middle, runs, ends⟩ | ⟨waits, rfl⟩ | ⟨error, fails, rfl⟩
  · obtain ⟨_, _, rfl⟩ := runs.of_zoom
    cases ends
    rfl
  · obtain ⟨_, _, rfl⟩ := zoom_ends waits
    exact (List.append_nil _).symm
  · obtain ⟨_, _, rfl⟩ := zoom_ends fails
    exact (List.append_nil _).symm

end Logged

variable {ω ρ : Type}

/-- Every byte pulled has been accepted, or stands in `writeBuf` behind those that have. -/
structure TlsStream.Accounted (stream : TlsStream (Logged ω) (Logged ρ)) : Prop where
  sent : stream.io.log ++ stream.writeBuf.drop stream.writePos = stream.conn.log
  within : stream.writePos ≤ stream.writeBuf.length

namespace TlsStream

variable {stream after : TlsStream (Logged ω) (Logged ρ)}

theorem Accounted.pullTlsRecords [Session ρ] {outcome : Outcome IoError Unit} (accounted : stream.Accounted)
    (ends : pullTlsRecords stream = (outcome, after)) : after.Accounted := by
  rcases bind_ends ends with ⟨records, middle, runs, ends⟩ | ⟨waits, rfl⟩ | ⟨error, fails, rfl⟩
  · obtain ⟨conn, pulls, rfl⟩ := runs.of_zoom
    cases ends
    refine ⟨?_, ?_⟩
    · simp only [List.drop_append_of_le_length accounted.within, Logged.logging_ends pulls, ← accounted.sent,
        List.append_assoc]
      rfl
    · exact Nat.le_trans accounted.within (List.length_append ▸ Nat.le_add_right _ _)
  · obtain ⟨conn, pulls, rfl⟩ := zoom_ends waits
    exact ⟨accounted.sent.trans ((Logged.logging_ends pulls).trans (List.append_nil _)).symm, accounted.within⟩
  · obtain ⟨conn, pulls, rfl⟩ := zoom_ends fails
    exact ⟨accounted.sent.trans ((Logged.logging_ends pulls).trans (List.append_nil _)).symm, accounted.within⟩

theorem Accounted.flushLoop [Transport ω] {fuel : Nat} {outcome : Outcome IoError Unit}
    (sent : stream.io.log ++ stream.writeBuf.drop stream.writePos = stream.conn.log)
    (enough : stream.writeBuf.length - stream.writePos < fuel)
    (ends : flushLoop fuel stream = (outcome, after)) : after.Accounted := by
  induction fuel generalizing stream with
  | zero => exact absurd enough (Nat.not_lt_zero _)
  | succ fuel ih =>
      rw [TlsStream.flushLoop, (Runs.get stream).bind_eq] at ends
      split at ends
      · next more =>
          rcases bind_ends ends with ⟨n, middle, runs, ends⟩ | ⟨waits, rfl⟩ | ⟨error, fails, rfl⟩
          · obtain ⟨io, writes, rfl⟩ := runs.of_zoom
            have accepts : io.log = stream.io.log ++ (stream.writeBuf.drop stream.writePos).take n :=
              Logged.logging_ends writes
            split at ends
            · next none =>
                cases ends
                refine ⟨?_, Nat.le_of_lt more⟩
                rw [none, List.take_zero, List.append_nil] at accepts
                exact accepts ▸ sent
            · next some =>
                refine ih ?_ ?_ ends
                · change io.log ++ stream.writeBuf.drop (stream.writePos + n) = _
                  rw [accepts, List.append_assoc, ← List.drop_drop, List.take_append_drop]
                  exact sent
                · change stream.writeBuf.length - (stream.writePos + n) < fuel
                  omega
          · obtain ⟨io, writes, rfl⟩ := zoom_ends waits
            have kept : io.log = stream.io.log := (Logged.logging_ends writes).trans (List.append_nil _)
            exact ⟨kept ▸ sent, Nat.le_of_lt more⟩
          · obtain ⟨io, writes, rfl⟩ := zoom_ends fails
            have kept : io.log = stream.io.log := (Logged.logging_ends writes).trans (List.append_nil _)
            exact ⟨kept ▸ sent, Nat.le_of_lt more⟩
      · next all =>
          cases ends
          refine ⟨?_, Nat.le_refl _⟩
          rw [List.drop_eq_nil_of_le (Nat.le_of_not_lt all), List.append_nil] at sent
          exact (List.append_nil _).trans sent

theorem pullTlsRecords_accounted [Session ρ] :
    Moves (Under Accounted) (Under Accounted) (pullTlsRecords (ω := Logged ω) (ρ := Logged ρ)) :=
  Moves.same_iff.mpr fun _ accounted => accounted.pullTlsRecords rfl

theorem pollFlushWriteBuf_accounted [Transport ω] :
    Moves (Under Accounted) (Under Accounted) (pollFlushWriteBuf (ω := Logged ω) (ρ := Logged ρ)) :=
  Moves.same_iff.mpr fun _ accounted =>
    Accounted.flushLoop accounted.sent (Nat.lt_succ_of_le (Nat.sub_le _ _)) rfl

theorem pollWrite_accounted [Transport ω] [Session ρ] (buf : Bytes) :
    Moves (Under Accounted) (Under Accounted) (pollWrite (ω := Logged ω) (ρ := Logged ρ) buf) := by
  refine .bind pollFlushWriteBuf_accounted fun _ => .bind ?_ fun n => ?_
  · exact Moves.same_iff.mpr fun _ accounted => ⟨accounted.sent, accounted.within⟩
  · split
    · exact .fail _
    · refine .bind pullTlsRecords_accounted fun _ => .bind pollFlushWriteBuf_accounted.outcome fun outcome => ?_
      cases outcome with
      | pending | ready value => exact .pure _
      | failed error => exact .fail _

end TlsStream

namespace Duplex

variable {ε α : Type}

/-- Whatever comes of the action, the records stay accounted for. -/
def Accounts (action : Async ε (Duplex (Logged ω) (Logged ρ)) α) : Prop :=
  Moves (Under fun stream => stream.Accounted) (Under fun stream => stream.Accounted) action

theorem onWrites_accounts {action : Async IoError (TlsStream (Logged ω) (Logged ρ)) α}
    (moves : Moves (Under TlsStream.Accounted) (Under TlsStream.Accounted) action) : Accounts (onWrites action) :=
  Moves.zoom moves (fun _ _ => id) (fun _ _ => id)

theorem onIo_accounts {action : Async IoError ω α} :
    Accounts (ρ := ρ) (onIo (Logged.onInner action)) :=
  Moves.same_iff.mpr fun _ accounted => ⟨accounted.sent, accounted.within⟩

theorem onSession_accounts (call : ρ → Except ε α × ρ) :
    Accounts (ω := ω) (onSession (Logged.call call)) := by
  refine Moves.same_iff.mpr fun stream accounted => ?_
  unfold onSession Logged.call
  cases (call stream.conn.inner).1 <;> exact ⟨accounted.sent, accounted.within⟩

variable [Transport ω] [Session ρ]

omit [Transport ω] in
theorem pullTlsRecords_accounts : Accounts (pullTlsRecords (ω := Logged ω) (ρ := Logged ρ)) :=
  (onWrites_accounts TlsStream.pullTlsRecords_accounted).mapError

omit [Session ρ] in
theorem pollFlushWriteBuf_accounts : Accounts (pollFlushWriteBuf (ω := Logged ω) (ρ := Logged ρ)) :=
  (onWrites_accounts TlsStream.pollFlushWriteBuf_accounted).mapError

omit [Transport ω] in
theorem pullWanted_accounts : Accounts (pullWanted (ω := Logged ω) (ρ := Logged ρ)) := by
  refine .bind .get fun stream => ?_
  split
  · exact pullTlsRecords_accounts
  · exact .pure _

theorem pollDrivePendingWrites_accounts :
    Accounts (pollDrivePendingWrites (ω := Logged ω) (ρ := Logged ρ)) := by
  refine .bind pullWanted_accounts fun _ => .bind .get fun stream => ?_
  split
  · exact .pure _
  · exact pollFlushWriteBuf_accounts

omit [Transport ω] in
theorem feedIncomingToRustls_accounts :
    Accounts (feedIncomingToRustls (ω := Logged ω) (ρ := Logged ρ)) := by
  refine .bind .get fun stream => ?_
  split
  · exact .pure _
  · refine .bind (onSession_accounts _).mapError fun consumed => .bind (.modify fun _ => id) fun _ => ?_
    exact .bind (onSession_accounts _).mapError fun _ => .pure _

theorem readRound_accounts (room : Nat) : Accounts (readRound (ω := Logged ω) (ρ := Logged ρ) room) := by
  refine .bind pollDrivePendingWrites_accounts.mapError fun _ => ?_
  refine .bind (onSession_accounts _).attempt fun result => ?_
  cases result with
  | ok plaintext => exact .pure _
  | error error =>
      dsimp only
      split
      · refine .bind .get fun stream => ?_
        split
        · exact .bind feedIncomingToRustls_accounts.mapError fun _ => .pure _
        · refine .bind onIo_accounts fun filled => ?_
          split
          · exact .fail _
          · exact .bind (.modify fun _ => id) fun _ => .pure _
      · exact .fail _

omit [Session ρ] in
theorem pollFlush_accounts : Accounts (pollFlush (ω := Logged ω) (ρ := Logged ρ)) :=
  .bind pollFlushWriteBuf_accounts.mapError fun _ => onIo_accounts

theorem pollShutdown_accounts : Accounts (pollShutdown (ω := Logged ω) (ρ := Logged ρ)) := by
  refine .bind (.modify fun _ accounted => ⟨accounted.sent, accounted.within⟩) fun _ => ?_
  refine .bind pullTlsRecords_accounts.mapError fun _ => ?_
  exact .bind pollFlushWriteBuf_accounts.mapError fun _ => onIo_accounts

variable {stream after : Duplex (Logged ω) (Logged ρ)}

omit [Session ρ] in
theorem sendAll_sends {polls fuel written : Nat}
    (sent : stream.io.log ++ stream.writeBuf.drop written = stream.conn.log)
    (runs : (sendAll polls fuel written).Runs stream () after) : after.io.log = after.conn.log := by
  induction fuel generalizing stream written with
  | zero => cases runs
  | succ fuel ih =>
      rw [sendAll, Runs, (Runs.get stream).bind_eq] at runs
      split at runs
      · next more =>
          obtain ⟨n, middle, writes, runs⟩ := Runs.of_bind runs
          obtain ⟨io, polls, rfl⟩ := onIo_ends writes.of_mapError
          -- The polls that were pending have sent nothing.
          obtain ⟨ready, same, accepts⟩ := await_ends (fun io => io.log = stream.io.log) polls
            (fun same pending => ((Logged.logging_ends pending).trans (List.append_nil _)).trans same) rfl
          have log : io.log = stream.io.log ++ (stream.writeBuf.drop written).take n :=
            (Logged.logging_ends accepts).trans (congrArg (· ++ _) same)
          split at runs
          · cases runs
          · refine ih ?_ runs
            change io.log ++ stream.writeBuf.drop (written + n) = _
            rw [log, List.append_assoc, ← List.drop_drop, List.take_append_drop]
            exact sent
      · next all =>
          cases runs
          rw [List.drop_eq_nil_of_le (Nat.le_of_not_lt all), List.append_nil] at sent
          exact sent

omit [Transport ω] [Session ρ] in
theorem await_onInner {action : Async IoError ω α} {polls : Nat} {io after : Logged ω} {value : α}
    (runs : ((Logged.onInner action).await polls).Runs io value after) : after.log = io.log := by
  obtain ⟨ready, same, last⟩ := await_ends (fun state => state.log = io.log) runs
    (fun same pending => by
      obtain ⟨inner, _, rfl⟩ := zoom_ends pending
      exact same) rfl
  obtain ⟨inner, _, rfl⟩ := last.of_zoom
  exact same

omit [Session ρ] in
theorem sendPending_accounts {polls : Nat} {sent : Bool} (accounted : stream.Accounted)
    (runs : (sendPending polls).Runs stream sent after) : after.Accounted := by
  rw [sendPending, Runs, (Runs.get stream).bind_eq] at runs
  split at runs
  · obtain ⟨_, middle, sends, runs⟩ := Runs.of_bind runs
    obtain ⟨_, cleared, clears, runs⟩ := Runs.of_bind runs
    cases clears
    obtain ⟨_, flushed, flushes, runs⟩ := Runs.of_bind runs
    cases runs
    obtain ⟨io, polls, rfl⟩ := onIo_ends flushes.of_mapError
    refine ⟨?_, Nat.le_refl _⟩
    have all : middle.io.log = middle.conn.log := sendAll_sends accounted.sent sends
    exact (List.append_nil _).trans ((await_onInner polls).trans all)
  · cases runs
    exact accounted

theorem handshakeRound_accounts {polls : Nat} {done : Option Unit} (accounted : stream.Accounted)
    (runs : (handshakeRound polls).Runs stream done after) : after.Accounted := by
  obtain ⟨consumed, fed, feeds, runs⟩ := runs.of_bind
  obtain ⟨_, pulled, pulls, runs⟩ := runs.of_bind
  obtain ⟨sent, flushed, sends, runs⟩ := runs.of_bind
  have kept := sendPending_accounts (pullWanted_accounts.of_runs pulls
    (feedIncomingToRustls_accounts.of_runs feeds accounted)) sends
  rw [Runs, (Runs.get flushed).bind_eq] at runs
  split at runs
  · cases runs
    exact kept
  · split at runs
    · obtain ⟨filled, read, reads, runs⟩ := Runs.of_bind runs
      obtain ⟨io, polls, rfl⟩ := onIo_ends reads.of_mapError
      have same : io.log = flushed.io.log := await_onInner polls
      split at runs
      · cases runs
      · obtain ⟨_, extended, grows, runs⟩ := Runs.of_bind runs
        cases grows
        obtain ⟨_, last, feeds, runs⟩ := Runs.of_bind runs
        cases runs
        exact feedIncomingToRustls_accounts.of_runs feeds ⟨same ▸ kept.sent, kept.within⟩
    · cases runs
      exact kept

theorem handshake_accounts {polls rounds : Nat} (accounted : stream.Accounted)
    (shakes : handshake polls rounds stream = some (.ready (), after)) : after.Accounted := by
  obtain ⟨state, before, last⟩ := loop_ends shakes
  exact handshakeRound_accounts
    (before.invariant (fun state => state.Accounted) handshakeRound_accounts accounted) last

theorem step_accounts {call : Call} (accounted : stream.Accounted)
    (steps : stream.step call = some after) : after.Accounted := by
  cases call with
  | read room rounds =>
      obtain ⟨⟨outcome, state⟩, reads, rfl⟩ := Option.map_eq_some_iff.mp steps
      obtain ⟨middle, before, last⟩ := loop_ends reads
      have round := Moves.same_iff.mp (readRound_accounts room) middle
        (before.invariant (fun state => state.Accounted)
          (fun kept goes => (readRound_accounts room).of_runs goes kept) accounted)
      rw [last] at round
      exact round
  | write buf =>
      cases steps
      exact Moves.same_iff.mp (onWrites_accounts (TlsStream.pollWrite_accounted buf)) stream accounted
  | flush =>
      cases steps
      exact Moves.same_iff.mp pollFlush_accounts stream accounted
  | shutdown =>
      cases steps
      exact Moves.same_iff.mp pollShutdown_accounts stream accounted

omit [Transport ω] [Session ρ] in
theorem new_accounted (io : ω) (conn : ρ) : (new ⟨io, []⟩ ⟨conn, []⟩ : Duplex (Logged ω) (Logged ρ)).Accounted :=
  ⟨rfl, Nat.le_refl _⟩

/-- Behind a handshake that has been completed and any calls, what the transport has accepted and
what is still in `writeBuf` is what has been pulled. -/
theorem ciphertext_accounted {io : ω} {conn : ρ} {polls rounds : Nat} {calls : List Call}
    (shakes : handshake polls rounds (new ⟨io, []⟩ ⟨conn, []⟩) = some (.ready (), stream))
    (runs : run step calls stream = some after) :
    after.io.log ++ after.writeBuf.drop after.writePos = after.conn.log := by
  have accounted : after.Accounted :=
    Reachable.invariant step_accounts ⟨calls, runs⟩ (handshake_accounts (new_accounted io conn) shakes)
  exact accounted.sent

section Example

/-- A session whose records stand for themselves. So many bytes are moved by one pull. -/
structure PlainSession where
  pull : Nat
  queued : Bytes
  taken : Bytes
  plaintext : Bytes

def closeNotify : Bytes := [21]

instance : Session PlainSession where
  write buf conn := (.ready buf.length, { conn with queued := conn.queued ++ buf })
  writeTls conn := (.ready (conn.queued.take conn.pull), { conn with queued := conn.queued.drop conn.pull })
  wantsWrite conn := !conn.queued.isEmpty
  wantsRead _ := true
  isHandshaking _ := false
  readTls buf conn := (.ok buf.length, { conn with taken := conn.taken ++ buf })
  processNewPackets conn := (.ok (), { conn with plaintext := conn.plaintext ++ conn.taken, taken := [] })
  read room conn :=
    if conn.plaintext.isEmpty then (.error ⟨.wouldBlock, ""⟩, conn)
    else (.ok (conn.plaintext.take room), { conn with plaintext := conn.plaintext.drop room })
  sendCloseNotify conn := { conn with queued := conn.queued ++ closeNotify }

/-- A stream over pipes that three bytes fit in, behind the handshake: it has sent a greeting. -/
def greeted : Duplex (Logged PipeEnd) (Logged PlainSession) :=
  ⟨⟨⟨⟨.empty 3, ⟨3, [22], false⟩⟩, [22]⟩, ⟨⟨8, [], [], []⟩, [22]⟩, [], 0⟩, []⟩

/-- Two of three bytes have found room. -/
def blocked : Duplex (Logged PipeEnd) (Logged PlainSession) :=
  ⟨⟨⟨⟨.empty 3, ⟨3, [22, 1, 2], false⟩⟩, [22, 1, 2]⟩, ⟨⟨8, [], [], []⟩, [22, 1, 2, 3]⟩, [1, 2, 3], 2⟩, []⟩

theorem greeted_shakes :
    handshake 1 1 (new ⟨⟨.empty 3, .empty 3⟩, []⟩ ⟨⟨8, [22], [], []⟩, []⟩) = some (.ready (), greeted) := by
  rfl

theorem ciphertext_accounted_blocked :
    run step [.write [1, 2, 3], .flush] greeted = some blocked ∧
      blocked.io.log ++ blocked.writeBuf.drop blocked.writePos = blocked.conn.log := by
  have wrote : step greeted (.write [1, 2, 3]) = some blocked := by rfl
  have flushed : step blocked .flush = some blocked := by rfl
  have runs : run step [.write [1, 2, 3], .flush] greeted = some blocked := by
    rw [run, wrote, Option.bind_some, run, flushed, Option.bind_some, run]
  exact ⟨runs, ciphertext_accounted greeted_shakes runs⟩

end Example

end Duplex

end TptAsync.Tls
