import TptAsync.Http.Draining
import TptAsync.Ws.Endpoint
import TptAsync.Ws.Negotiation

set_option autoImplicit false

/-!
# The receiving task

Calls of `recv` on one stream, one after the other, from one turn of their loops to the next: a
frame that is taken from the buffer, or one timed read. A call may wait for the transport, or
be dropped, behind every turn.
-/

namespace TptAsync.Ws

open Lib Http

/-- How many rounds the loops of a codec are given. -/
class Rounds where
  rounds : Nat

instance {γ δ : Type} [Rounds] [Deflate γ] [Inflate δ] : DeflateCodec (FullCodec γ δ) where
  compress := FullCodec.compress Rounds.rounds
  decompress := FullCodec.decompress Rounds.rounds

/-- What one turn of `read_with_keepalive` comes to. -/
inductive Waiting where
  | pinged
  | arrived (data : Bytes)
  deriving DecidableEq

/-- A timed read that is over. -/
structure TimedRead where
  wait : Nat
  expired : Bool
  outcome : Outcome WsError Waiting

namespace WebSocketStream

variable {κ : Type}

/-- How long the next read under a policy may take. -/
def waitFor (policy : KeepAlive) (ws : WebSocketStream κ) : Nat :=
  if ws.pingOutstanding then policy.timeout else policy.interval

variable [DeflateCodec κ]

/-- One turn of `readWithKeepalive`. -/
def timedRead (capacity : Nat) : Async WsError (WebSocketStream κ) Waiting := do
  let ws ← Async.get
  match ws.keepalive with
  | none =>
      let data ← onConn (HttpConnection.readRaw capacity)
      pure (.arrived data)
  | some policy =>
      Async.modify fun ws => { ws with expiries := fun n => ws.expiries (n + 1) }
      if ws.expiries 0 (ws.waitFor policy) then
        if ws.pingOutstanding then Async.fail .timedOut
        else
          send (.ping [])
          Async.modify fun ws => { ws with pingOutstanding := true }
          pure .pinged
      else
        let result ← (onConn (HttpConnection.readRaw capacity)).attempt
        Async.modify fun ws => { ws with pingOutstanding := false }
        let data ← Async.ofExcept result
        pure (.arrived data)

/-- The next frame of the buffer, if it is whole. -/
def takeFrame : Async WsError (WebSocketStream κ) (Option Frame) := do
  let ws ← Async.get
  match ← Async.ofExcept (decode ws.frameBuf ws.role) with
  | some (frame, consumed) =>
      Async.set { ws with frameBuf := ws.frameBuf.drop consumed }
      pure (some frame)
  | none => pure none

/-- Wait for more bytes; false when the peer has closed before. -/
def awaitMore : Async WsError (WebSocketStream κ) Bool := do
  match ← timedRead 8192 with
  | .pinged => pure true
  | .arrived chunk =>
      if chunk.length = 0 then
        if (← Async.get).closeReceived then pure false else Async.fail .connectionClosed
      else
        Async.modify fun ws => { ws with frameBuf := ws.frameBuf ++ chunk }
        pure true

/-- One turn of the loops of `recv_message`. -/
def turn (assembly : Assembly) : Async WsError (WebSocketStream κ) Progress := do
  match ← takeFrame with
  | some frame => handleFrame assembly frame
  | none => if ← awaitMore then pure (.more assembly) else pure (.done none)

/-- What is done with a frame, or without one. -/
def handleFound (assembly : Assembly) : Option Frame → Async WsError (WebSocketStream κ) Progress
  | none => pure (.done none)
  | some frame => handleFrame assembly frame

/-- The frame that the next turn takes. -/
def frameAhead (ws : WebSocketStream κ) : Option Frame :=
  match decode ws.frameBuf ws.role with
  | .ok (some (frame, _)) => some frame
  | _ => none

/-- The timed read that the next turn is done with. -/
def readAhead (ws : WebSocketStream κ) : Option TimedRead :=
  match decode ws.frameBuf ws.role, ws.keepalive, (timedRead 8192 ws).1 with
  | _, _, .pending => none
  | .ok none, some policy, outcome =>
      some ⟨ws.waitFor policy, ws.expiries 0 (ws.waitFor policy), outcome⟩
  | _, _, _ => none

end WebSocketStream

/-- A call of `recv` in progress. -/
structure Receiving (κ : Type) where
  /-- The stream as the call found it. -/
  began : WebSocketStream κ
  /-- The frames that the call has taken. -/
  frames : List Frame
  assembly : Assembly

structure Receiver (κ : Type) where
  ws : WebSocketStream κ
  call : Option (Receiving κ)
  /-- What the calls have returned, the last one first. -/
  returned : List (Except WsError (Option Message))
  /-- The timed reads, the last one first. -/
  reads : List TimedRead

namespace WebSocketStream

variable {κ : Type} {ws : WebSocketStream κ} {policy : KeepAlive} {capacity : Nat}

/-- The stream when it has been found out whether a wait runs out. -/
def waited (ws : WebSocketStream κ) : WebSocketStream κ := { ws with expiries := fun n => ws.expiries (n + 1) }

/-- What a timed read under a policy can do. -/
inductive Timed (policy : KeepAlive) (capacity : Nat) (ws : WebSocketStream κ) :
    Outcome WsError Waiting → WebSocketStream κ → Prop where
  | timedOut (expired : ws.expiries 0 (ws.waitFor policy) = true) (outstanding : ws.pingOutstanding = true) :
      Timed policy capacity ws (.failed .timedOut) ws.waited
  | pinged (expired : ws.expiries 0 (ws.waitFor policy) = true) (settled : ws.pingOutstanding = false)
      (masks : Nat → MaskKey) (key : MaskKey) :
      Timed policy capacity ws (.ready .pinged)
        { ws.waited.written masks (encode (.whole .ping []) (peerMask ws.role.peer key)) with
          pingOutstanding := true }
  | arrived {data : Bytes} {conn : HttpConnection} (prompt : ws.expiries 0 (ws.waitFor policy) = false)
      (reads : (HttpConnection.readRaw capacity).Runs ws.conn data conn) :
      Timed policy capacity ws (.ready (.arrived data)) { ws.waited with conn, pingOutstanding := false }
  | failed {error : HttpError} {conn : HttpConnection} (prompt : ws.expiries 0 (ws.waitFor policy) = false)
      (fails : HttpConnection.readRaw capacity ws.conn = (.failed error, conn)) :
      Timed policy capacity ws (.failed (.ofHttp error)) { ws.waited with conn, pingOutstanding := false }
  | waits {conn : HttpConnection} (prompt : ws.expiries 0 (ws.waitFor policy) = false)
      (waits : HttpConnection.readRaw capacity ws.conn = (.pending, conn)) :
      Timed policy capacity ws .pending { ws.waited with conn }

theorem Timed.outstanding {after : WebSocketStream κ}
    (timed : Timed policy capacity ws (.ready .pinged) after) :
    ws.pingOutstanding = false ∧ after.pingOutstanding = true ∧ after.frameBuf = ws.frameBuf ∧
      after.role = ws.role ∧ after.keepalive = ws.keepalive := by
  cases timed with
  | pinged _ settled => exact ⟨settled, rfl, rfl, rfl, rfl⟩

theorem wrote_ping (ws : WebSocketStream κ) (masks : Nat → MaskKey) (bytes : Bytes) :
    ws.wrote .ping masks bytes = ws.written masks bytes := by
  rw [wrote, written]
  simp

/-- How an action on the connection ends, on the stream. -/
theorem onConn_ends {α : Type} {action : Async HttpError HttpConnection α}
    {outcome : Outcome HttpError α} {conn : HttpConnection} (ends : action ws.conn = (outcome, conn)) :
    onConn action ws = (Async.endsWith .ofHttp outcome, { ws with conn }) := by
  rw [onConn, Async.zoom, Async.mapError_ends ends]

variable [DeflateCodec κ]

theorem timedRead_untimed (untimed : ws.keepalive = none) :
    timedRead capacity ws = (do
      let data ← onConn (HttpConnection.readRaw capacity)
      pure (.arrived data) : Async WsError (WebSocketStream κ) Waiting) ws := by
  rw [timedRead, (Async.Runs.get ws).bind_eq]
  simp only [untimed]

theorem timedRead_silent (untimed : ws.keepalive = none) :
    (timedRead capacity ws).1 ≠ .ready .pinged := by
  intro pinged
  have ends : (timedRead capacity ws) = (.ready .pinged, (timedRead capacity ws).2) := Prod.ext pinged rfl
  obtain ⟨data, _, _, last⟩ := Async.Runs.of_bind ((timedRead_untimed untimed).symm.trans ends)
  cases last

theorem timedRead_policy (keepalive : ws.keepalive = some policy) (capacity : Nat) :
    timedRead capacity ws =
      (if ws.expiries 0 (ws.waitFor policy) then
        if ws.pingOutstanding then Async.fail .timedOut
        else do
          send (.ping [])
          Async.modify fun ws => { ws with pingOutstanding := true }
          pure .pinged
      else do
        let result ← (onConn (HttpConnection.readRaw capacity)).attempt
        Async.modify fun ws => { ws with pingOutstanding := false }
        let data ← Async.ofExcept result
        pure (.arrived data) : Async WsError (WebSocketStream κ) Waiting) ws.waited := by
  rw [timedRead, (Async.Runs.get ws).bind_eq]
  simp only [keepalive]
  rw [(Async.Runs.modify _ ws).bind_eq]
  rfl

theorem timedRead_timed (keepalive : ws.keepalive = some policy) (capacity : Nat) :
    Timed policy capacity ws (timedRead capacity ws).1 (timedRead capacity ws).2 := by
  have timed := timedRead_policy keepalive capacity
  by_cases expired : ws.expiries 0 (ws.waitFor policy) = true
  · rw [if_pos expired] at timed
    by_cases outstanding : ws.pingOutstanding = true
    · rw [if_pos outstanding] at timed
      rw [timed]
      exact .timedOut expired outstanding
    · obtain ⟨masks, key, sends⟩ := @send_runs _ ws.waited _ (.ping []) .ping [] rfl nofun
      rw [if_neg outstanding, sends.bind_eq, wrote_ping] at timed
      rw [timed]
      exact .pinged expired (Bool.eq_false_iff.mpr outstanding) masks key
  · rw [if_neg expired] at timed
    have prompt : ws.expiries 0 (ws.waitFor policy) = false := Bool.eq_false_iff.mpr expired
    cases reads : HttpConnection.readRaw capacity ws.conn with
    | mk outcome conn =>
        have ends := @onConn_ends κ ws.waited _ (HttpConnection.readRaw capacity) outcome conn reads
        cases outcome with
        | ready data =>
            rw [(Async.Runs.attempt ends).bind_eq] at timed
            rw [timed]
            exact .arrived prompt reads
        | failed error =>
            rw [(Async.Runs.attempt_failed ends).bind_eq] at timed
            rw [timed]
            exact .failed prompt reads
        | pending =>
            rw [Async.bind_pending (Async.attempt_pending.mpr ends)] at timed
            rw [timed]
            exact .waits prompt reads

theorem timedRead_outstanding (keepalive : ws.keepalive = some policy) (outstanding : ws.pingOutstanding = true) :
    (timedRead capacity ws).1 ≠ .ready .pinged := by
  intro pinged
  have timed := timedRead_timed keepalive capacity
  rw [pinged] at timed
  exact Bool.noConfusion (outstanding.symm.trans timed.outstanding.1)

/-- The data of a read, or of the next one. -/
def orAgain (again : Async WsError (WebSocketStream κ) Bytes) :
    Waiting → Async WsError (WebSocketStream κ) Bytes
  | .pinged => again
  | .arrived data => pure data

theorem readTimed_turn (keepalive : ws.keepalive = some policy) (rounds : Nat) :
    readTimed policy capacity (rounds + 1) ws =
      (timedRead capacity >>= orAgain (readTimed policy capacity rounds)) ws := by
  have loop : readTimed policy capacity (rounds + 1) ws =
      (if ws.expiries 0 (ws.waitFor policy) then
        if ws.pingOutstanding then Async.fail .timedOut
        else do
          send (.ping [])
          Async.modify fun ws => { ws with pingOutstanding := true }
          readTimed policy capacity rounds
      else do
        let result ← (onConn (HttpConnection.readRaw capacity)).attempt
        Async.modify fun ws => { ws with pingOutstanding := false }
        Async.ofExcept result : Async WsError (WebSocketStream κ) Bytes) ws.waited := by
    rw [readTimed, (Async.Runs.get ws).bind_eq]
    rfl
  rw [loop, Async.bind_congr_first (timedRead_policy keepalive capacity)]
  by_cases expired : ws.expiries 0 (ws.waitFor policy) = true
  · rw [if_pos expired, if_pos expired]
    by_cases outstanding : ws.pingOutstanding = true
    · rw [if_pos outstanding, if_pos outstanding]
      rfl
    · rw [if_neg outstanding, if_neg outstanding, Async.bind_assoc]
      rfl
  · rw [if_neg expired, if_neg expired, Async.bind_assoc]
    refine congrFun (congrArg (Async.bind _) (funext fun result => ?_)) _
    cases result <;> rfl

/-- What a turn can do. -/
inductive Turned (assembly : Assembly) (ws : WebSocketStream κ) :
    Outcome WsError Progress → WebSocketStream κ → Prop where
  | refused {error : WsError} (refused : decode ws.frameBuf ws.role = .error error) :
      Turned assembly ws (.failed error) ws
  | took {frame : Frame} {consumed : Nat} {outcome : Outcome WsError Progress} {after : WebSocketStream κ}
      (decoded : decode ws.frameBuf ws.role = .ok (some (frame, consumed)))
      (handled : handleFrame assembly frame { ws with frameBuf := ws.frameBuf.drop consumed } = (outcome, after)) :
      Turned assembly ws outcome after
  | waits {after : WebSocketStream κ} (missing : decode ws.frameBuf ws.role = .ok none)
      (timed : timedRead 8192 ws = (.pending, after)) : Turned assembly ws .pending after
  | failed {error : WsError} {after : WebSocketStream κ} (missing : decode ws.frameBuf ws.role = .ok none)
      (timed : timedRead 8192 ws = (.failed error, after)) : Turned assembly ws (.failed error) after
  | pinged {after : WebSocketStream κ} (missing : decode ws.frameBuf ws.role = .ok none)
      (timed : (timedRead 8192).Runs ws .pinged after) : Turned assembly ws (.ready (.more assembly)) after
  | appended {chunk : Bytes} {middle : WebSocketStream κ} (missing : decode ws.frameBuf ws.role = .ok none)
      (timed : (timedRead 8192).Runs ws (.arrived chunk) middle) (some : chunk ≠ []) :
      Turned assembly ws (.ready (.more assembly)) { middle with frameBuf := middle.frameBuf ++ chunk }
  | ended {after : WebSocketStream κ} (missing : decode ws.frameBuf ws.role = .ok none)
      (timed : (timedRead 8192).Runs ws (.arrived []) after) (received : after.closeReceived = true) :
      Turned assembly ws (.ready (.done none)) after
  | lost {after : WebSocketStream κ} (missing : decode ws.frameBuf ws.role = .ok none)
      (timed : (timedRead 8192).Runs ws (.arrived []) after) (received : after.closeReceived = false) :
      Turned assembly ws (.failed .connectionClosed) after

theorem frameAhead_decoded {κ : Type} {ws : WebSocketStream κ} {frame : Frame} {consumed : Nat}
    (decoded : decode ws.frameBuf ws.role = .ok (some (frame, consumed))) : ws.frameAhead = some frame := by
  rw [frameAhead, decoded]

theorem frameAhead_missing {κ : Type} {ws : WebSocketStream κ} (missing : decode ws.frameBuf ws.role = .ok none) :
    ws.frameAhead = none := by
  rw [frameAhead, missing]

theorem turn_decoded {assembly : Assembly} {frame : Frame} {consumed : Nat}
    (decoded : decode ws.frameBuf ws.role = .ok (some (frame, consumed))) :
    turn assembly ws = handleFrame assembly frame { ws with frameBuf := ws.frameBuf.drop consumed } := by
  have taken : takeFrame.Runs ws (some frame) { ws with frameBuf := ws.frameBuf.drop consumed } := by
    rw [Async.Runs, takeFrame, (Async.Runs.get ws).bind_eq, decoded]
    rfl
  rw [turn, taken.bind_eq]

theorem turn_missing {assembly : Assembly} (missing : decode ws.frameBuf ws.role = .ok none) :
    turn assembly ws = (do
      if ← awaitMore then pure (.more assembly) else pure (.done none) : Async WsError _ Progress) ws := by
  have taken : takeFrame.Runs ws none ws := by
    rw [Async.Runs, takeFrame, (Async.Runs.get ws).bind_eq, missing]
    rfl
  rw [turn, taken.bind_eq]

theorem turn_turned {assembly : Assembly} {outcome : Outcome WsError Progress} {after : WebSocketStream κ}
    (turns : turn assembly ws = (outcome, after)) : Turned assembly ws outcome after := by
  cases decoded : decode ws.frameBuf ws.role with
  | error error =>
      have fails : takeFrame ws = (.failed error, ws) := by
        rw [takeFrame, (Async.Runs.get ws).bind_eq, decoded]
        rfl
      cases turns.symm.trans (Async.bind_failed fails)
      exact .refused decoded
  | ok found =>
      cases found with
      | some found => exact .took decoded ((turn_decoded decoded).symm.trans turns)
      | none =>
          rw [turn_missing decoded, awaitMore, Async.bind_assoc] at turns
          cases timed : timedRead 8192 ws with
          | mk result middle =>
              cases result with
              | pending =>
                  cases turns.symm.trans (Async.bind_pending timed)
                  exact .waits decoded timed
              | failed error =>
                  cases turns.symm.trans (Async.bind_failed timed)
                  exact .failed decoded timed
              | ready waiting =>
                  rw [Async.Runs.bind_eq timed] at turns
                  cases waiting with
                  | pinged =>
                      cases turns
                      exact .pinged decoded timed
                  | arrived chunk =>
                      cases chunk with
                      | cons first rest =>
                          cases turns
                          exact .appended decoded timed (List.cons_ne_nil _ _)
                      | nil =>
                          simp only [List.length_nil, if_true, Async.bind_assoc] at turns
                          rw [(Async.Runs.get middle).bind_eq] at turns
                          cases received : middle.closeReceived with
                          | true =>
                              rw [if_pos received] at turns
                              cases turns
                              exact .ended decoded timed received
                          | false =>
                              rw [if_neg (Bool.eq_false_iff.mp received)] at turns
                              cases turns
                              exact .lost decoded timed received

theorem timedRead_pings (capacity : Nat) :
    Async.Moves Pings Pings (timedRead capacity : Async _ (WebSocketStream κ) _) := by
  refine .bind .get fun ws => ?_
  split
  · exact .bind (readRaw_pings capacity) fun _ => .pure _
  · refine .bind (modify_waits_pings fun _ => rfl) fun _ => ?_
    generalize ws.expiries 0 _ = expired
    split
    · split
      · exact .fail _
      · exact .bind send_ping_pings fun _ => .bind (modify_waits_pings fun _ => rfl) fun _ => .pure _
    · refine .bind (readRaw_pings capacity).attempt fun result => ?_
      exact .bind (modify_waits_pings fun _ => rfl) fun _ => .bind (.ofExcept _) fun _ => .pure _

theorem timedRead_frameBuf (capacity : Nat) :
    (timedRead capacity).Keeps (WebSocketStream.frameBuf (κ := κ)) := by
  refine .bind .get fun ws => ?_
  split
  · exact .bind (.zoom fun _ => rfl) fun _ => .pure _
  · refine .bind (.modify fun _ => rfl) fun _ => ?_
    split
    · split
      · exact .fail _
      · exact .bind (send_keeps (fun _ _ _ _ _ _ => rfl) _) fun _ => .bind (.modify fun _ => rfl) fun _ => .pure _
    · refine .bind (Async.Keeps.attempt (.zoom fun _ => rfl)) fun result => ?_
      exact .bind (.modify fun _ => rfl) fun _ => .bind (.ofExcept _) fun _ => .pure _

theorem timedRead_le {chunk : Bytes} {after : WebSocketStream κ}
    (reads : (timedRead capacity).Runs ws (.arrived chunk) after) : chunk.length ≤ capacity := by
  cases keepalive : ws.keepalive with
  | none =>
      obtain ⟨data, middle, arrives, last⟩ :=
        Async.Runs.of_bind ((timedRead_untimed keepalive).symm.trans reads)
      obtain ⟨conn, within, rfl⟩ := arrives.of_zoom
      cases last
      exact (HttpConnection.readRaw_took within.of_mapError).1
  | some policy =>
      have timed := timedRead_timed keepalive capacity
      rw [reads] at timed
      cases timed with
      | arrived _ within => exact (HttpConnection.readRaw_took within).1

end WebSocketStream

namespace Receiver

open WebSocketStream

variable {κ : Type} [DeflateCodec κ]

inductive Event where
  | recv
  | poll
  | drop
  | arrives (segments : List Bytes) (ending : Ending)

def idle (ws : WebSocketStream κ) : Receiver κ := ⟨ws, none, [], []⟩

/-- What a turn of a call leads to: `recv` answers a violation, and returns. -/
def settle (receiver : Receiver κ) (call : Receiving κ) :
    Outcome WsError Progress × WebSocketStream κ → Receiver κ
  | (.pending, ws) => { receiver with ws, call := some call }
  | (.ready (.more assembly), ws) => { receiver with ws, call := some { call with assembly } }
  | (.ready (.done message), ws) =>
      { receiver with ws, call := none, returned := .ok message :: receiver.returned }
  | (.failed (.protocol reason), ws) =>
      { receiver with
        ws := (failConnection reason ws).2
        call := none
        returned := .error (.protocol reason) :: receiver.returned }
  | (.failed error, ws) =>
      { receiver with ws, call := none, returned := .error error :: receiver.returned }

/-- One turn of the call. -/
def poll (receiver : Receiver κ) (call : Receiving κ) : Receiver κ :=
  { receiver with reads := receiver.ws.readAhead.toList ++ receiver.reads }.settle
    { call with frames := call.frames ++ receiver.ws.frameAhead.toList }
    (turn call.assembly receiver.ws)

def step (receiver : Receiver κ) : Event → Option (Receiver κ)
  | .recv =>
      match receiver.call with
      | none => some { receiver with call := some ⟨receiver.ws, [], .start⟩ }
      | some _ => none
  | .poll =>
      match receiver.call with
      | none => none
      | some call =>
          match (turn call.assembly receiver.ws).1, receiver.ws.frameAhead with
          -- Just the transport is waited for.
          | .pending, some _ => none
          | _, _ => some (receiver.poll call)
  | .drop => receiver.call.map fun _ => { receiver with call := none }
  | .arrives segments ending =>
      match receiver.ws.conn.io.ending with
      | .pending => some { receiver with ws := receiver.ws.arrive segments ending }
      | _ => none

theorem settle_failure (receiver : Receiver κ) (call : Receiving κ) (error : WsError) (ws : WebSocketStream κ) :
    (receiver.settle call (.failed error, ws)).returned = .error error :: receiver.returned := by
  cases error <;> rfl

section Turns

variable {receiver after : Receiver κ} {call : Receiving κ} {ws : WebSocketStream κ} {assembly : Assembly}

theorem step_poll (called : receiver.call = some call)
    (ends : (turn call.assembly receiver.ws).1 ≠ .pending) :
    step receiver .poll = some (receiver.poll call) := by
  rw [step, called]
  dsimp only
  cases outcome : (turn call.assembly receiver.ws).1 with
  | pending => exact absurd outcome ends
  | ready progress | failed error => rfl

/-- A step that polls is a turn of the call. -/
theorem polled_of_step {next : Receiver κ} (steps : step receiver .poll = some next) :
    ∃ call, receiver.call = some call ∧ next = receiver.poll call ∧
      ((turn call.assembly receiver.ws).1 = .pending → receiver.ws.frameAhead = none) := by
  rw [step] at steps
  split at steps
  · cases steps
  · next call called =>
      refine ⟨call, called, ?_⟩
      cases outcome : (turn call.assembly receiver.ws).1 with
      | pending =>
          rw [outcome] at steps
          cases ahead : receiver.ws.frameAhead with
          | none =>
              rw [ahead] at steps
              exact ⟨(Option.some.inj steps).symm, fun _ => rfl⟩
          | some frame =>
              rw [ahead] at steps
              cases steps
      | ready progress | failed error =>
          rw [outcome] at steps
          exact ⟨(Option.some.inj steps).symm, nofun⟩

/-- What a step can do. -/
inductive Stepped (receiver : Receiver κ) : Receiver κ → Prop where
  | began (free : receiver.call = none) : Stepped receiver { receiver with call := some ⟨receiver.ws, [], .start⟩ }
  | polled {call : Receiving κ} (called : receiver.call = some call)
      (takes : (turn call.assembly receiver.ws).1 = .pending → receiver.ws.frameAhead = none) :
      Stepped receiver (receiver.poll call)
  | dropped : Stepped receiver { receiver with call := none }
  | arrived (segments : List Bytes) (ending : Ending) :
      Stepped receiver { receiver with ws := receiver.ws.arrive segments ending }

theorem step_stepped {event : Event} {next : Receiver κ} (steps : step receiver event = some next) :
    Stepped receiver next := by
  cases event with
  | recv =>
      rw [step] at steps
      split at steps
      · next free =>
          cases steps
          exact .began free
      · cases steps
  | poll =>
      obtain ⟨call, called, rfl, takes⟩ := polled_of_step steps
      exact .polled called takes
  | drop =>
      obtain ⟨_, _, rfl⟩ := Option.map_eq_some_iff.mp steps
      exact .dropped
  | arrives segments ending =>
      rw [step] at steps
      split at steps
      · cases steps
        exact .arrived segments ending
      · cases steps

/-- One turn without a frame. -/
theorem poll_more (ready : turn call.assembly receiver.ws = (.ready (.more call.assembly), ws))
    (missing : decode receiver.ws.frameBuf receiver.ws.role = .ok none) :
    receiver.poll call = { receiver with
      ws, call := some call, reads := receiver.ws.readAhead.toList ++ receiver.reads } := by
  rw [poll, ready, frameAhead_missing missing, Option.toList_none, List.append_nil]
  rfl

theorem run_poll {count : Nat} (called : receiver.call = some call)
    (ends : (turn call.assembly receiver.ws).1 ≠ .pending) :
    Lib.run step (List.replicate (count + 1) .poll) receiver =
      Lib.run step (List.replicate count .poll) (receiver.poll call) := by
  rw [List.replicate_succ, Lib.run, step_poll called ends]
  rfl

/-- Some turns of the call, none of which takes a frame, lead to the one that ends the loop. -/
def Reaches (receiver : Receiver κ) (call : Receiving κ)
    (loop : Async WsError (WebSocketStream κ) (Option Frame)) : Prop :=
  ∃ count after, Lib.run step (List.replicate count .poll) receiver = some after ∧
    after.call = some call ∧ after.returned = receiver.returned ∧
      (turn call.assembly after.ws = (loop >>= handleFound call.assembly) receiver.ws ∨
        loop receiver.ws = (.pending, after.ws))

theorem Reaches.later {loop further : Async WsError (WebSocketStream κ) (Option Frame)}
    (called : receiver.call = some call) (missing : decode receiver.ws.frameBuf receiver.ws.role = .ok none)
    (ready : turn call.assembly receiver.ws = (.ready (.more call.assembly), ws))
    (same : loop receiver.ws = further ws)
    (rest : Reaches { receiver with
      ws, call := some call, reads := receiver.ws.readAhead.toList ++ receiver.reads } call further) :
    Reaches receiver call loop := by
  obtain ⟨count, after, runs, still, returned, ends⟩ := rest
  refine ⟨count + 1, after, ?_, still, returned, ?_⟩
  · rw [run_poll called (by rw [ready]; nofun), poll_more ready missing]
    exact runs
  · exact ends.imp (fun ends => ends.trans (Async.bind_congr_first same).symm) same.trans

/-- The loop behind a timed read that is no Ping. -/
theorem reaches_arrived {fuel : Nat} {again : Async WsError (WebSocketStream κ) Bytes}
    {loop : Async WsError (WebSocketStream κ) (Option Frame)}
    (called : receiver.call = some call) (missing : decode receiver.ws.frameBuf receiver.ws.role = .ok none)
    (shape : loop receiver.ws = (timedRead 8192 >>= orAgain again >>= topUp fuel) receiver.ws)
    (silent : (timedRead 8192 receiver.ws).1 ≠ .ready .pinged)
    (further : ∀ (receiver : Receiver κ), receiver.call = some call →
      Reaches receiver call (nextFrameLoop fuel)) : Reaches receiver call loop := by
  have turns := @turn_missing κ receiver.ws _ call.assembly missing
  rw [awaitMore, Async.bind_assoc] at turns
  rw [Async.bind_assoc] at shape
  cases timed : timedRead 8192 receiver.ws with
  | mk outcome middle =>
      cases outcome with
      | pending =>
          refine ⟨0, receiver, rfl, called, rfl, .inl ?_⟩
          rw [turns, Async.bind_pending timed, Async.bind_pending (shape.trans (Async.bind_pending timed))]
      | failed error =>
          refine ⟨0, receiver, rfl, called, rfl, .inl ?_⟩
          rw [turns, Async.bind_failed timed, Async.bind_failed (shape.trans (Async.bind_failed timed))]
      | ready waited =>
          cases waited with
          | pinged => exact absurd (congrArg Prod.fst timed) silent
          | arrived chunk =>
              rw [Async.Runs.bind_eq timed] at shape turns
              have same : loop receiver.ws = topUp fuel chunk middle := shape
              by_cases ended : chunk.length = 0
              · refine ⟨0, receiver, rfl, called, rfl, .inl ?_⟩
                rw [turns, Async.bind_congr_first same]
                simp only [topUp, if_pos ended, Async.bind_assoc]
                rw [(Async.Runs.get middle).bind_eq, (Async.Runs.get middle).bind_eq]
                split <;> rfl
              · simp only [if_neg ended, Async.bind_assoc] at turns
                simp only [topUp, if_neg ended] at same
                rw [(Async.Runs.modify _ middle).bind_eq] at turns same
                exact .later called missing turns same (further _ rfl)

theorem nextFrameLoop_turns (fuel : Nat) (called : receiver.call = some call) :
    Reaches receiver call (nextFrameLoop fuel) := by
  induction fuel generalizing receiver with
  | zero => exact ⟨0, receiver, rfl, called, rfl, .inr rfl⟩
  | succ fuel ih =>
      cases decoded : decode receiver.ws.frameBuf receiver.ws.role with
      | error error =>
          refine ⟨0, receiver, rfl, called, rfl, .inl ?_⟩
          rw [turn, takeFrame, nextFrameLoop, Async.bind_assoc, (Async.Runs.get _).bind_eq,
            Async.bind_assoc (Async.get), (Async.Runs.get _).bind_eq, decoded]
          rfl
      | ok found =>
          cases found with
          | some found =>
              refine ⟨0, receiver, rfl, called, rfl, .inl ?_⟩
              rw [turn, takeFrame, nextFrameLoop, Async.bind_assoc, (Async.Runs.get _).bind_eq,
                Async.bind_assoc (Async.get), (Async.Runs.get _).bind_eq, decoded]
              rfl
          | none =>
              have shape := nextFrameLoop_missing fuel decoded
              cases keepalive : receiver.ws.keepalive with
              | none =>
                  have read := @timedRead_untimed κ receiver.ws 8192 _ keepalive
                  refine @reaches_arrived κ _ _ _ fuel Async.wait _ called decoded ?_ ?_ fun _ => ih
                  · rw [shape, Async.bind_assoc, Async.bind_congr_first read, readWithKeepalive,
                      Async.bind_assoc, Async.bind_assoc, (Async.Runs.get _).bind_eq]
                    simp only [keepalive]
                    rfl
                  · exact timedRead_silent keepalive
              | some policy =>
                  have read : readWithKeepalive 8192 receiver.ws =
                      (timedRead 8192 >>= orAgain (readTimed policy 8192 1)) receiver.ws := by
                    rw [readWithKeepalive, (Async.Runs.get _).bind_eq]
                    simp only [keepalive]
                    exact readTimed_turn keepalive 1
                  rw [Async.bind_congr_first read] at shape
                  by_cases silent : (timedRead 8192 receiver.ws).1 = .ready .pinged
                  · have ready : (timedRead 8192).Runs receiver.ws .pinged (timedRead 8192 receiver.ws).2 :=
                      Prod.ext silent rfl
                    have timed := timedRead_timed keepalive 8192
                    have decoded' := decoded
                    rw [silent] at timed
                    generalize (timedRead 8192 receiver.ws).2 = middle at ready timed
                    have turns : turn call.assembly receiver.ws = (.ready (.more call.assembly), middle) := by
                      rw [turn_missing decoded, awaitMore, Async.bind_assoc, ready.bind_eq]
                      rfl
                    have same : nextFrameLoop (fuel + 1) receiver.ws =
                        (readTimed policy 8192 1 >>= topUp fuel) middle := by
                      rw [shape, Async.bind_assoc, ready.bind_eq]
                      rfl
                    obtain ⟨-, outstanding, frameBuf, role, still⟩ := timed.outstanding
                    rw [← frameBuf, ← role] at decoded'
                    rw [← still] at keepalive
                    refine .later called decoded turns same (reaches_arrived rfl decoded'
                      (Async.bind_congr_first (readTimed_turn keepalive 0)) ?_ fun _ => ih)
                    exact timedRead_outstanding keepalive outstanding
                  · exact reaches_arrived called decoded shape silent fun _ => ih

/-- What `recv` makes of the end of its loop. -/
def answered : Outcome WsError (Option Message) × WebSocketStream κ →
    Outcome WsError (Option Message) × WebSocketStream κ
  | (.failed (.protocol reason), ws) => failConnection reason ws
  | ended => ended

theorem recv_eq (ws : WebSocketStream κ) :
    recv ws = answered (recvLoop (ws.stream.length + 1) .start ws) := by
  have same : recvMessage ws = recvLoop (ws.stream.length + 1) .start ws := rfl
  rw [recv]
  cases ends : recvLoop (ws.stream.length + 1) .start ws with
  | mk outcome after =>
      rw [ends] at same
      cases outcome with
      | ready message => exact (Async.Runs.attempt same).bind_eq
      | pending => exact Async.bind_pending (Async.attempt_pending.mpr same)
      | failed error =>
          rw [(Async.Runs.attempt_failed same).bind_eq]
          cases error <;> rfl

/-- How a call that comes to this leaves the receiver. A call that waits has a turn that waits
ahead. -/
def Leaves (returned : List (Except WsError (Option Message))) (after : Receiver κ) :
    Outcome WsError (Option Message) × WebSocketStream κ → Prop
  | (.ready message, ws) => after.ws = ws ∧ after.call = none ∧ after.returned = .ok message :: returned
  | (.failed error, ws) => after.ws = ws ∧ after.call = none ∧ after.returned = .error error :: returned
  | (.pending, ws) =>
      after.returned = returned ∧ ∃ call, after.call = some call ∧
        (turn call.assembly after.ws = (.pending, ws) ∨ after.ws = ws)

theorem leaves_failed {returned : List (Except WsError (Option Message))}
    {ended : Outcome WsError (Option Message) × WebSocketStream κ} {error : WsError}
    (fails : ended.1 = .failed error) (same : after.ws = ended.2) (free : after.call = none)
    (more : after.returned = .error error :: returned) : Leaves returned after ended := by
  obtain ⟨outcome, ws⟩ := ended
  cases fails
  exact ⟨same, free, more⟩

theorem round_eq (assembly : Assembly) (ws : WebSocketStream κ) :
    round assembly ws = (nextFrameLoop (ws.stream.length + 1) >>= handleFound assembly) ws := by
  rw [WebSocketStream.round, nextFrame, Async.bind_assoc, (Async.Runs.get ws).bind_eq]
  refine congrFun (congrArg (Async.bind _) (funext fun found => ?_)) _
  cases found <;> rfl

/-- The turns of a call come to what the call does. -/
theorem recvLoop_turns (fuel : Nat) (called : receiver.call = some call) :
    ∃ count after, Lib.run step (List.replicate count .poll) receiver = some after ∧
      Leaves receiver.returned after (answered (recvLoop fuel call.assembly receiver.ws)) := by
  induction fuel generalizing receiver call with
  | zero => exact ⟨0, receiver, rfl, rfl, call, called, .inr rfl⟩
  | succ fuel ih =>
      rw [recvLoop_round]
      obtain ⟨count, middle, runs, still, returned, same | waits⟩ :=
        nextFrameLoop_turns (receiver.ws.stream.length + 1) called
      · rw [← round_eq] at same
        -- The turn that takes the frame.
        have last : ∀ {count'}, (turn call.assembly middle.ws).1 ≠ .pending →
            Lib.run step (List.replicate (count + (count' + 1)) .poll) receiver =
              Lib.run step (List.replicate count' .poll) (middle.poll call) := by
          intro count' ends
          rw [List.replicate_add, run_append runs, run_poll still ends]
        cases ends : round call.assembly receiver.ws with
        | mk outcome ws =>
            rw [ends] at same
            rw [← returned]
            cases outcome with
            | pending =>
                rw [Async.bind_pending ends]
                exact ⟨count, middle, runs, rfl, call, still, .inl same⟩
            | failed error =>
                rw [Async.bind_failed ends]
                refine ⟨_, _, @last 0 (by rw [same]; nofun), ?_⟩
                rw [poll, same]
                cases error with
                | protocol reason =>
                    exact leaves_failed (failConnection_fails reason ws) rfl rfl rfl
                | io | connectionClosed | handshake | timedOut => exact ⟨rfl, rfl, rfl⟩
            | ready progress =>
                rw [Async.Runs.bind_eq ends]
                cases progress with
                | done message =>
                    refine ⟨_, _, @last 0 (by rw [same]; nofun), ?_⟩
                    rw [poll, same]
                    exact ⟨rfl, rfl, rfl⟩
                | more next =>
                    have stepped : middle.poll call = { middle with
                        ws
                        call := some { call with
                          frames := call.frames ++ middle.ws.frameAhead.toList, assembly := next }
                        reads := middle.ws.readAhead.toList ++ middle.reads } := by
                      rw [poll, same]
                      rfl
                    obtain ⟨more, after, further, leaves⟩ := @ih (middle.poll call) _ (by rw [stepped])
                    refine ⟨_, after, (last (by rw [same]; nofun)).trans further, ?_⟩
                    rw [stepped] at leaves
                    exact leaves
      · rw [Async.bind_pending ((round_eq _ _).trans (Async.bind_pending waits))]
        exact ⟨count, middle, runs, returned, call, still, .inr rfl⟩

/-- What `recv` does is what the turns of one call do. -/
theorem recv_turns (free : receiver.call = none) :
    ∃ count after, Lib.run step (.recv :: List.replicate count .poll) receiver = some after ∧
      Leaves receiver.returned after (recv receiver.ws) := by
  rw [recv_eq]
  have starts : step receiver .recv = some { receiver with call := some ⟨receiver.ws, [], .start⟩ } := by
    rw [step, free]
  obtain ⟨count, after, runs, leaves⟩ := @recvLoop_turns κ _ { receiver with
    call := some ⟨receiver.ws, [], .start⟩ } _ (receiver.ws.stream.length + 1) rfl
  refine ⟨count, after, ?_, leaves⟩
  rw [Lib.run, starts]
  exact runs

end Turns

end Receiver

end TptAsync.Ws
