import TptAsync.Ws.Violations

set_option autoImplicit false

/-!
# Keepalive

A Ping is outstanding until some timed read comes to its end, in the call that has written it or
in a later one. A wait that runs out is answered with a Ping when none is outstanding, and else
with an error.
-/

namespace TptAsync.Ws

open Lib Http

/-! ## The timed reads of some calls, the last one first -/

namespace TimedRead

def pinged (read : TimedRead) : Bool :=
  match read.outcome with
  | .ready .pinged => true
  | _ => false

def timedOut (read : TimedRead) : Bool :=
  match read.outcome with
  | .failed .timedOut => true
  | _ => false

/-- The bytes that have been read. -/
def data (read : TimedRead) : Bytes :=
  match read.outcome with
  | .ready (.arrived data) => data
  | _ => []

end TimedRead

/-- A Ping has been written, and every wait since has run out. -/
def Outstanding : List TimedRead → Prop
  | [] => False
  | read :: earlier => read.pinged = true ∨ read.expired = true ∧ Outstanding earlier

/-- The bytes that have been read since the last Ping. -/
def sincePing : List TimedRead → Bytes
  | [] => []
  | read :: earlier => if read.pinged then [] else sincePing earlier ++ read.data

/-- What becomes of a timed read, by those before it. -/
structure Lawful (policy : KeepAlive) (earlier : List TimedRead) (read : TimedRead) : Prop where
  wait : Outstanding earlier ∧ read.wait = policy.timeout ∨
    ¬ Outstanding earlier ∧ read.wait = policy.interval
  pinged : read.pinged = true ↔ read.expired = true ∧ ¬ Outstanding earlier
  timedOut : read.timedOut = true ↔ read.expired = true ∧ Outstanding earlier
  /-- Before its wait runs out, a read ends with what the transport has. -/
  ended : read.expired = false →
    (∃ data, read.outcome = .ready (.arrived data)) ∨ ∃ error, read.outcome = .failed (.io error)

section Reads

variable {policy : KeepAlive} {reads earlier between : List TimedRead} {read : TimedRead}

theorem Lawful.unread (lawful : Lawful policy earlier read) (expired : read.expired = true) : read.data = [] := by
  have ends : read.pinged = true ∨ read.timedOut = true := by
    by_cases outstanding : Outstanding earlier
    · exact .inr (lawful.timedOut.mpr ⟨expired, outstanding⟩)
    · exact .inl (lawful.pinged.mpr ⟨expired, outstanding⟩)
  unfold TimedRead.pinged TimedRead.timedOut at ends
  unfold TimedRead.data
  cases outcome : read.outcome with
  | pending | failed error => rfl
  | ready waiting =>
      cases waiting with
      | pinged => rfl
      | arrived data =>
          rw [outcome] at ends
          obtain ⟨⟨⟩⟩ | ⟨⟨⟩⟩ := ends

/-- No byte has been read since a Ping that is outstanding. -/
theorem sincePing_outstanding (lawful : ∀ read earlier, read :: earlier <:+ reads → Lawful policy earlier read)
    (outstanding : Outstanding reads) : sincePing reads = [] := by
  induction reads with
  | nil => rfl
  | cons read earlier ih =>
      rw [sincePing]
      split
      · rfl
      · next silent =>
          obtain pinged | ⟨expired, outstanding⟩ := outstanding
          · exact absurd pinged silent
          · rw [(lawful read earlier List.suffix_rfl).unread expired, List.append_nil]
            exact ih (fun read rest within => lawful read rest (within.trans (List.suffix_cons _ _))) outstanding

theorem outstanding_append (expired : ∀ read ∈ between, read.expired = true) (pinged : read.pinged = true) :
    Outstanding (between ++ read :: earlier) := by
  induction between with
  | nil => exact .inl pinged
  | cons last between ih =>
      obtain ⟨ran, expired⟩ := List.forall_mem_cons.mp expired
      exact .inr ⟨ran, ih expired⟩

/-- Between two Pings some timed read has come to its end. -/
theorem spaced {first second : TimedRead} (lawful : Lawful policy (between ++ first :: earlier) second)
    (pinged : first.pinged = true) (again : second.pinged = true) : ∃ read ∈ between, read.expired = false := by
  by_contra none
  refine (lawful.pinged.mp again).2 (outstanding_append (fun read member => ?_) pinged)
  by_contra ended
  exact none ⟨read, member, Bool.eq_false_iff.mpr ended⟩

end Reads

/-- The Pings among some frames. -/
def pingsOf (log : List Frame) : List Frame := log.filter fun frame => frame.opcode = .ping

namespace WebSocketStream

variable {κ : Type} {ws middle after : WebSocketStream κ} {policy : KeepAlive} {assembly : Assembly}

/-- What is known of a keepalive is still so, and no Ping has been written. -/
structure Steady (before after : WebSocketStream κ) : Prop where
  keepalive : after.keepalive = before.keepalive
  outstanding : after.pingOutstanding = before.pingOutstanding
  silent : ∃ log, Logs log before after ∧ pingsOf log = []

theorem Steady.of_same (outbound : after.conn.io.outbound = ws.conn.io.outbound) (role : after.role = ws.role)
    (keepalive : after.keepalive = ws.keepalive) (outstanding : after.pingOutstanding = ws.pingOutstanding) :
    Steady ws after :=
  ⟨keepalive, outstanding, [], .of_same outbound role, rfl⟩

theorem pingsOf_append (log more : List Frame) : pingsOf (log ++ more) = pingsOf log ++ pingsOf more :=
  List.filter_append ..

theorem Steady.trans (first : Steady ws middle) (second : Steady middle after) : Steady ws after := by
  obtain ⟨log, logs, none⟩ := first.silent
  obtain ⟨log', logs', none'⟩ := second.silent
  refine ⟨second.keepalive.trans first.keepalive, second.outstanding.trans first.outstanding,
    log ++ log', logs.trans logs', ?_⟩
  rw [pingsOf_append, none, none', List.append_nil]

/-- What a timed read under a policy leaves of the stream, by what has become of it. -/
inductive Awaited (policy : KeepAlive) (ws after : WebSocketStream κ) : TimedRead → Prop where
  | timedOut (outstanding : ws.pingOutstanding = true) (steady : Steady ws after) :
      Awaited policy ws after ⟨policy.timeout, true, .failed .timedOut⟩
  | pinged (settled : ws.pingOutstanding = false) (keepalive : after.keepalive = ws.keepalive)
      (outstanding : after.pingOutstanding = true) (logs : Logs [.whole .ping []] ws after) :
      Awaited policy ws after ⟨policy.interval, true, .ready .pinged⟩
  | ended {outcome : Outcome WsError Waiting} (keepalive : after.keepalive = ws.keepalive)
      (settled : after.pingOutstanding = false) (logs : Logs [] ws after)
      (ends : (∃ data, outcome = .ready (.arrived data)) ∨ ∃ error, outcome = .failed (.io error)) :
      Awaited policy ws after ⟨ws.waitFor policy, false, outcome⟩

theorem Awaited.keepalive {read : TimedRead} (awaited : Awaited policy ws after read) :
    after.keepalive = ws.keepalive := by
  cases awaited with
  | timedOut _ steady => exact steady.keepalive
  | pinged _ keepalive => exact keepalive
  | ended keepalive => exact keepalive

theorem Awaited.congr {read : TimedRead} (awaited : Awaited policy ws middle read) (conn : after.conn = middle.conn)
    (role : after.role = middle.role) (keepalive : after.keepalive = middle.keepalive)
    (outstanding : after.pingOutstanding = middle.pingOutstanding) : Awaited policy ws after read := by
  have logs : Logs [] middle after := .of_same (by rw [conn]) role
  cases awaited with
  | timedOut waiting steady =>
      exact .timedOut waiting (steady.trans ⟨keepalive, outstanding, [], logs, rfl⟩)
  | pinged settled keepalive' outstanding' logs' =>
      exact .pinged settled (keepalive.trans keepalive') (outstanding.trans outstanding') (logs'.trans logs)
  | ended keepalive' settled logs' ends =>
      exact .ended (keepalive.trans keepalive') (outstanding.trans settled) (logs'.trans logs) ends

/-- What has become of a timed read is what its law says. -/
theorem Awaited.lawful {read : TimedRead} {earlier : List TimedRead} (awaited : Awaited policy ws after read)
    (flag : ws.pingOutstanding = true ↔ Outstanding earlier) :
    Lawful policy earlier read ∧ (after.pingOutstanding = true ↔ Outstanding (read :: earlier)) := by
  cases awaited with
  | timedOut outstanding steady =>
      have waiting := flag.mp outstanding
      refine ⟨⟨.inl ⟨waiting, rfl⟩, ?_, iff_of_true rfl ⟨rfl, waiting⟩, nofun⟩, ?_⟩
      · exact iff_of_false Bool.false_ne_true fun settled => settled.2 waiting
      · exact iff_of_true (steady.outstanding.trans outstanding) (.inr ⟨rfl, waiting⟩)
  | pinged settled _ outstanding _ =>
      have quiet : ¬ Outstanding earlier := fun waiting => Bool.noConfusion (settled.symm.trans (flag.mpr waiting))
      refine ⟨⟨.inr ⟨quiet, rfl⟩, iff_of_true rfl ⟨rfl, quiet⟩, ?_, nofun⟩, iff_of_true outstanding (.inl rfl)⟩
      exact iff_of_false Bool.false_ne_true fun waiting => quiet waiting.2
  | @ended outcome _ settled _ ends =>
      obtain ⟨notPinged, notLate⟩ : TimedRead.pinged ⟨ws.waitFor policy, false, outcome⟩ = false ∧
          TimedRead.timedOut ⟨ws.waitFor policy, false, outcome⟩ = false := by
        obtain ⟨data, rfl⟩ | ⟨error, rfl⟩ := ends
        · exact ⟨rfl, rfl⟩
        · exact ⟨rfl, rfl⟩
      refine ⟨⟨?_, ?_, ?_, fun _ => ends⟩, ?_⟩
      · by_cases waiting : Outstanding earlier
        · exact .inl ⟨waiting, if_pos (flag.mpr waiting)⟩
        · exact .inr ⟨waiting, if_neg (waiting ∘ flag.mp)⟩
      · exact iff_of_false (Bool.eq_false_iff.mp notPinged) fun ran => Bool.noConfusion ran.1
      · exact iff_of_false (Bool.eq_false_iff.mp notLate) fun ran => Bool.noConfusion ran.1
      · refine iff_of_false (Bool.eq_false_iff.mp settled) ?_
        rintro (pinged | ⟨⟨⟩, _⟩)
        exact Bool.noConfusion (notPinged.symm.trans pinged)

/-- The Pings that a timed read is answered with. -/
theorem Awaited.written {read : TimedRead} (awaited : Awaited policy ws after read) :
    ∃ log, Logs log ws after ∧ (pingsOf log).length = read.pinged.toNat := by
  cases awaited with
  | timedOut _ steady =>
      obtain ⟨log, logs, none⟩ := steady.silent
      exact ⟨log, logs, congrArg List.length none⟩
  | pinged _ _ _ logs => exact ⟨_, logs, rfl⟩
  | ended _ _ logs ends =>
      refine ⟨[], logs, ?_⟩
      obtain ⟨data, rfl⟩ | ⟨error, rfl⟩ := ends
      · rfl
      · rfl

theorem readRaw_logs {capacity : Nat} {outcome : Outcome HttpError Bytes} {conn : HttpConnection}
    (reads : HttpConnection.readRaw capacity ws.conn = (outcome, conn)) (same : after.conn = conn)
    (role : after.role = ws.role) : Logs [] ws after := by
  have only := Async.Moves.same_iff.mp (HttpConnection.readRaw_onlyReads capacity) ws.conn
  rw [reads] at only
  exact .of_same (by rw [same, only.outbound]) role

section Turns

variable [DeflateCodec κ] {outcome : Outcome WsError Progress}

theorem readAhead_found (found : decode ws.frameBuf ws.role ≠ .ok none) : ws.readAhead = none := by
  unfold readAhead
  split
  · rfl
  · next missing _ _ => exact absurd missing found
  · rfl

theorem readAhead_pending (waits : (timedRead 8192 ws).1 = .pending) : ws.readAhead = none := by
  rw [readAhead, waits]

theorem readAhead_missing (missing : decode ws.frameBuf ws.role = .ok none) (keepalive : ws.keepalive = some policy)
    (ends : (timedRead 8192 ws).1 ≠ .pending) :
    ws.readAhead = some ⟨ws.waitFor policy, ws.expiries 0 (ws.waitFor policy), (timedRead 8192 ws).1⟩ := by
  rw [readAhead, missing, keepalive]
  cases outcome : (timedRead 8192 ws).1 with
  | pending => exact absurd outcome ends
  | ready waiting | failed error => rfl

/-- What a timed read that is over has come to. -/
theorem timedRead_awaited {result : Outcome WsError Waiting} (keepalive : ws.keepalive = some policy)
    (timed : timedRead 8192 ws = (result, after)) (ends : result ≠ .pending) :
    Awaited policy ws after ⟨ws.waitFor policy, ws.expiries 0 (ws.waitFor policy), result⟩ := by
  have ended := timedRead_timed keepalive 8192
  rw [timed] at ended
  cases ended with
  | timedOut expired outstanding =>
      rw [expired, waitFor, if_pos outstanding]
      exact .timedOut outstanding (.of_same rfl rfl rfl rfl)
  | pinged expired settled masks key =>
      rw [expired, waitFor, if_neg (Bool.eq_false_iff.mp settled)]
      exact .pinged settled rfl rfl ⟨⟨_, rfl, .single key⟩, rfl⟩
  | arrived prompt reads =>
      rw [prompt]
      exact .ended rfl rfl (readRaw_logs reads rfl rfl) (.inl ⟨_, rfl⟩)
  | failed prompt fails =>
      rw [prompt]
      obtain ⟨io, rfl⟩ := readRaw_fails fails
      exact .ended rfl rfl (readRaw_logs fails rfl rfl) (.inr ⟨io, rfl⟩)
  | waits => exact absurd rfl ends

theorem timedRead_waits (keepalive : ws.keepalive = some policy) (timed : timedRead 8192 ws = (.pending, after)) :
    Steady ws after := by
  have ended := timedRead_timed keepalive 8192
  rw [timed] at ended
  cases ended with
  | waits prompt reads => exact ⟨rfl, rfl, [], readRaw_logs reads rfl rfl, rfl⟩

theorem handleFrame_steady {frame : Frame} (handled : handleFrame assembly frame ws = (outcome, after)) :
    Steady ws after := by
  have kept := @handleFrame_keeps κ _ _ (fun ws => (ws.keepalive, ws.pingOutstanding))
    (fun _ _ _ _ _ _ => rfl) assembly frame ws
  rw [handled] at kept
  simp only [Prod.mk.injEq] at kept
  obtain ⟨keepalive, outstanding⟩ := kept
  refine ⟨keepalive, outstanding, ?_⟩
  cases handleFrame_handled handled with
  | silent logs => exact ⟨[], logs, rfl⟩
  | ponged logs => exact ⟨_, logs, rfl⟩
  | echoed _ logs => exact ⟨_, logs, rfl⟩

theorem failConnection_steady (reason : String) (ws : WebSocketStream κ) :
    Steady ws (failConnection reason ws).2 := by
  have kept := @failConnection_keeps κ _ _ (fun ws => (ws.keepalive, ws.pingOutstanding))
    (fun _ _ _ _ _ _ => rfl) reason ws
  simp only [Prod.mk.injEq] at kept
  obtain ⟨keepalive, outstanding⟩ := kept
  refine ⟨keepalive, outstanding, ?_⟩
  obtain ⟨same, _⟩ | ⟨_, _, logs⟩ := failConnection_writes reason ws
  · rw [same]
    exact ⟨[], .of_same rfl rfl, rfl⟩
  · exact ⟨_, logs, rfl⟩

/-- What a turn does is one timed read, or has nothing to do with the keepalive. -/
theorem turn_keepalive [ViolatedCodec κ] (keepalive : ws.keepalive = some policy)
    (turns : turn assembly ws = (outcome, after)) :
    ws.readAhead = none ∧ Steady ws after ∧ outcome ≠ .failed .timedOut ∨
      (∀ reason, outcome ≠ .failed (.protocol reason)) ∧ ∃ read, ws.readAhead = some read ∧
        Awaited policy ws after read ∧ (outcome = .failed .timedOut ↔ read.timedOut = true) := by
  have spent : ∀ {result middle}, decode ws.frameBuf ws.role = .ok none → timedRead 8192 ws = (result, middle) →
      result ≠ .pending →
        ws.readAhead = some ⟨ws.waitFor policy, ws.expiries 0 (ws.waitFor policy), result⟩ := by
    intro result middle missing timed ends
    have ahead := readAhead_missing missing keepalive (by rw [timed]; exact ends)
    rwa [timed] at ahead
  cases turn_turned turns with
  | refused refused =>
      refine .inl ⟨readAhead_found (by rw [refused]; nofun), .of_same rfl rfl rfl rfl, fun same => ?_⟩
      cases same
      obtain ⟨_, same, _⟩ := decode_unrelated refused
      cases same
  | @took _ consumed _ _ decoded handled =>
      refine .inl ⟨readAhead_found (by rw [decoded]; nofun), ?_, fun same => ?_⟩
      · have dropped : Steady ws { ws with frameBuf := ws.frameBuf.drop consumed } := .of_same rfl rfl rfl rfl
        exact dropped.trans (handleFrame_steady handled)
      · cases same
        obtain ⟨⟨_, same, _⟩, _⟩ | ⟨same, _⟩ := handleFrame_fails handled
        · cases same
        · cases same
  | waits missing timed =>
      exact .inl ⟨readAhead_pending (congrArg Prod.fst timed), timedRead_waits keepalive timed, nofun⟩
  | failed missing timed =>
      obtain rfl | ⟨io, rfl⟩ := timedRead_fails timed
      · exact .inr ⟨nofun, _, spent missing timed nofun, timedRead_awaited keepalive timed nofun, iff_of_true rfl rfl⟩
      · exact .inr ⟨nofun, _, spent missing timed nofun, timedRead_awaited keepalive timed nofun,
          iff_of_false (by rintro ⟨⟩) (by rintro ⟨⟩)⟩
  | pinged missing timed =>
      exact .inr ⟨nofun, _, spent missing timed nofun, timedRead_awaited keepalive timed nofun,
        iff_of_false (by rintro ⟨⟩) (by rintro ⟨⟩)⟩
  | appended missing timed some =>
      exact .inr ⟨nofun, _, spent missing timed nofun, (timedRead_awaited keepalive timed nofun).congr rfl rfl rfl rfl,
        iff_of_false (by rintro ⟨⟩) (by rintro ⟨⟩)⟩
  | ended missing timed received =>
      exact .inr ⟨nofun, _, spent missing timed nofun, timedRead_awaited keepalive timed nofun,
        iff_of_false (by rintro ⟨⟩) (by rintro ⟨⟩)⟩
  | lost missing timed received =>
      exact .inr ⟨nofun, _, spent missing timed nofun, timedRead_awaited keepalive timed nofun,
        iff_of_false (by rintro ⟨⟩) (by rintro ⟨⟩)⟩

end Turns

end WebSocketStream

namespace Receiver

open WebSocketStream

variable {κ : Type} [DeflateCodec κ] {policy : KeepAlive} {start after : WebSocketStream κ}
  {receiver next : Receiver κ} {call : Receiving κ} {read : TimedRead}

def isTimedOut : Except WsError (Option Message) → Bool
  | .error .timedOut => true
  | _ => false

/-- How a policy is kept, over all the calls since it was set. -/
structure Disciplined (policy : KeepAlive) (start : WebSocketStream κ) (receiver : Receiver κ) : Prop where
  /-- One Ping has been written for each timed read that is answered with one. -/
  written : ∃ log, Logs log start receiver.ws ∧ (pingsOf log).length = receiver.reads.countP TimedRead.pinged
  pinged : ∀ read earlier, read :: earlier <:+ receiver.reads →
    (read.pinged = true ↔ read.expired = true ∧ read.wait = policy.interval ∧ ¬ Outstanding earlier)
  /-- Between two Pings a timed read has ended before its wait has run out. -/
  spaced : ∀ second between first earlier, second :: (between ++ first :: earlier) <:+ receiver.reads →
    second.pinged = true → first.pinged = true → ∃ read ∈ between, read.expired = false ∧
      ((∃ data, read.outcome = .ready (.arrived data)) ∨ ∃ error, read.outcome = .failed (.io error))
  timedOut : ∀ read earlier, read :: earlier <:+ receiver.reads →
    (read.timedOut = true ↔ read.expired = true ∧ read.wait = policy.timeout ∧ Outstanding earlier ∧
      sincePing earlier = [])
  /-- One call has failed for each timed read that is answered with the error. -/
  failed : receiver.returned.countP isTimedOut = receiver.reads.countP TimedRead.timedOut

/-- The invariant behind that. -/
structure Keeping (policy : KeepAlive) (start : WebSocketStream κ) (receiver : Receiver κ) : Prop where
  keepalive : receiver.ws.keepalive = some policy
  outstanding : receiver.ws.pingOutstanding = true ↔ Outstanding receiver.reads
  written : ∃ log, Logs log start receiver.ws ∧ (pingsOf log).length = receiver.reads.countP TimedRead.pinged
  lawful : ∀ read earlier, read :: earlier <:+ receiver.reads → Lawful policy earlier read
  failed : receiver.returned.countP isTimedOut = receiver.reads.countP TimedRead.timedOut

theorem Keeping.disciplined {κ : Type} {start : WebSocketStream κ} {receiver : Receiver κ}
    (keeping : Keeping policy start receiver) : Disciplined policy start receiver where
  written := keeping.written
  pinged read earlier within := by
    have lawful := keeping.lawful read earlier within
    rw [lawful.pinged]
    refine and_congr_right fun _ => ⟨fun settled => ⟨?_, settled⟩, And.right⟩
    exact (lawful.wait.resolve_left fun waits => settled waits.1).2
  spaced second between first earlier within again pinged := by
    obtain ⟨read, member, prompt⟩ := spaced (keeping.lawful _ _ within) pinged again
    obtain ⟨before, behind, split⟩ := List.append_of_mem member
    refine ⟨read, member, prompt, (keeping.lawful read (behind ++ first :: earlier) ?_).ended prompt⟩
    refine List.IsSuffix.trans ?_ within
    rw [split]
    exact ⟨second :: before, by simp⟩
  timedOut read earlier within := by
    have lawful := keeping.lawful read earlier within
    rw [lawful.timedOut]
    refine and_congr_right fun _ => ⟨fun outstanding => ⟨?_, outstanding, ?_⟩, fun late => late.2.1⟩
    · exact (lawful.wait.resolve_right fun waits => waits.1 outstanding).2
    · refine sincePing_outstanding (fun read rest within' => keeping.lawful read rest ?_) outstanding
      exact within'.trans ((List.suffix_cons _ _).trans within)
  failed := keeping.failed

/-- A step without a timed read. -/
theorem Keeping.steady {κ : Type} {start : WebSocketStream κ} {receiver next : Receiver κ}
    (keeping : Keeping policy start receiver) (steady : Steady receiver.ws next.ws)
    (reads : next.reads = receiver.reads)
    (returned : next.returned.countP isTimedOut = receiver.returned.countP isTimedOut) :
    Keeping policy start next where
  keepalive := steady.keepalive.trans keeping.keepalive
  outstanding := by rw [steady.outstanding, reads, keeping.outstanding]
  written := by
    obtain ⟨log, logs, count⟩ := keeping.written
    obtain ⟨more, logs', none⟩ := steady.silent
    refine ⟨log ++ more, logs.trans logs', ?_⟩
    rw [pingsOf_append, none, List.append_nil, reads, count]
  lawful := by
    rw [reads]
    exact keeping.lawful
  failed := by rw [returned, reads, keeping.failed]

/-- A step with one. -/
theorem Keeping.awaited {κ : Type} {start : WebSocketStream κ} {receiver next : Receiver κ}
    (keeping : Keeping policy start receiver) (awaited : Awaited policy receiver.ws next.ws read)
    (reads : next.reads = read :: receiver.reads)
    (returned : next.returned.countP isTimedOut = receiver.returned.countP isTimedOut + read.timedOut.toNat) :
    Keeping policy start next where
  keepalive := awaited.keepalive.trans keeping.keepalive
  outstanding := by
    rw [reads]
    exact (awaited.lawful keeping.outstanding).2
  written := by
    obtain ⟨log, logs, count⟩ := keeping.written
    obtain ⟨more, logs', count'⟩ := awaited.written
    refine ⟨log ++ more, logs.trans logs', ?_⟩
    rw [pingsOf_append, List.length_append, count, count', reads, List.countP_cons]
    cases read.pinged <;> rfl
  lawful := by
    rw [reads]
    intro other earlier within
    obtain same | within := List.suffix_cons_iff.mp within
    · cases same
      exact (awaited.lawful keeping.outstanding).1
    · exact keeping.lawful other earlier within
  failed := by
    rw [returned, reads, List.countP_cons, keeping.failed]
    cases read.timedOut <;> rfl

theorem settle_steady (receiver : Receiver κ) (call : Receiving κ) (outcome : Outcome WsError Progress)
    (after : WebSocketStream κ) : Steady after (receiver.settle call (outcome, after)).ws := by
  cases outcome with
  | pending => exact .of_same rfl rfl rfl rfl
  | ready progress => cases progress <;> exact .of_same rfl rfl rfl rfl
  | failed error =>
      cases error with
      | protocol reason => exact failConnection_steady reason after
      | io | connectionClosed | handshake | timedOut => exact .of_same rfl rfl rfl rfl

theorem settle_reads (receiver : Receiver κ) (call : Receiving κ) (outcome : Outcome WsError Progress)
    (after : WebSocketStream κ) : (receiver.settle call (outcome, after)).reads = receiver.reads := by
  cases outcome with
  | pending => rfl
  | ready progress => cases progress <;> rfl
  | failed error => cases error <;> rfl

theorem settle_ws {outcome : Outcome WsError Progress} (other : ∀ reason, outcome ≠ .failed (.protocol reason)) :
    (receiver.settle call (outcome, after)).ws = after := by
  cases outcome with
  | pending => rfl
  | ready progress => cases progress <;> rfl
  | failed error =>
      cases error with
      | protocol reason => exact absurd rfl (other reason)
      | io | connectionClosed | handshake | timedOut => rfl

theorem settle_failed (receiver : Receiver κ) (call : Receiving κ) {outcome : Outcome WsError Progress}
    (late : Bool) (fails : outcome = .failed .timedOut ↔ late = true) (after : WebSocketStream κ) :
    (receiver.settle call (outcome, after)).returned.countP isTimedOut =
      receiver.returned.countP isTimedOut + late.toNat := by
  cases late with
  | true =>
      cases fails.mpr rfl
      exact List.countP_cons_of_pos rfl
  | false =>
      have other : outcome ≠ .failed .timedOut := fun same => Bool.false_ne_true (fails.mp same)
      cases outcome with
      | pending => rfl
      | ready progress => cases progress <;> rfl
      | failed error =>
          cases error with
          | timedOut => exact absurd rfl other
          | io | protocol | connectionClosed | handshake => rfl

theorem step_keeping [ViolatedCodec κ] {event : Event} (keeping : Keeping policy start receiver)
    (steps : step receiver event = some next) : Keeping policy start next := by
  cases step_stepped steps with
  | began | dropped | arrived => exact keeping.steady (.of_same rfl rfl rfl rfl) rfl rfl
  | @polled call called _ =>
      rw [poll]
      cases turns : turn call.assembly receiver.ws with
      | mk outcome after =>
          obtain ⟨none, steady, other⟩ | ⟨other, read, ahead, awaited, late⟩ :=
            turn_keepalive keeping.keepalive turns
          · rw [none]
            refine keeping.steady (steady.trans (settle_steady ..)) (settle_reads ..) ?_
            exact settle_failed _ _ false (iff_of_false other Bool.false_ne_true) after
          · rw [ahead]
            refine keeping.awaited ?_ (settle_reads ..) (settle_failed _ _ _ late after)
            rw [settle_ws other]
            exact awaited

/-- Whatever arrives, whichever waits run out and however the calls are made or dropped, since a
policy was set. -/
theorem keepalive_disciplined {γ δ : Type} [Rounds] [Deflate γ] [Inflate δ] {policy : KeepAlive}
    {before start : WebSocketStream (FullCodec γ δ)} {receiver : Receiver (FullCodec γ δ)}
    (sets : (setKeepalive (some policy)).Runs before () start) (reached : Reachable step (idle start) receiver) :
    Disciplined policy start receiver := by
  cases sets
  refine (reached.invariant step_keeping ?_).disciplined
  refine ⟨rfl, iff_of_false Bool.false_ne_true id, ⟨[], .of_same rfl rfl, rfl⟩, fun read earlier within => ?_, rfl⟩
  cases List.suffix_nil.mp within

/-- A client whose peer sends nothing, and all of whose waits run out. -/
def silentPeer : WebSocketStream (FullCodec Unit Unit) :=
  fromConn (.new ⟨[], .pending, []⟩) .client (fun _ => ⟨0, 0, 0, 0⟩) fun _ _ => true

/-- The Ping is written in a call that is dropped, and its time runs out in the next one. -/
theorem keepalive_disciplined_silent :
    letI : Rounds := ⟨1⟩
    ∃ start receiver, (setKeepalive (some ⟨20, 200⟩)).Runs silentPeer () start ∧
      Lib.run step [.recv, .poll, .drop, .recv, .poll] (idle start) = some receiver ∧
        receiver.returned = [.error .timedOut] ∧ Disciplined ⟨20, 200⟩ start receiver := by
  let rounds : Rounds := ⟨1⟩
  obtain ⟨start, receiver, sets, runs, returned⟩ : ∃ start receiver,
      (setKeepalive (some ⟨20, 200⟩)).Runs silentPeer () start ∧
        Lib.run step [.recv, .poll, .drop, .recv, .poll] (idle start) = some receiver ∧
          receiver.returned = [.error .timedOut] := ⟨_, _, rfl, rfl, rfl⟩
  exact ⟨start, receiver, sets, runs, returned, keepalive_disciplined sets ⟨_, runs⟩⟩

end Receiver

end TptAsync.Ws
