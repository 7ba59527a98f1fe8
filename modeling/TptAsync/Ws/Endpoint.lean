import TptAsync.Lib.Transition
import TptAsync.Ws.Transmission

set_option autoImplicit false

/-!
# One end of a connection

An endpoint sends some messages, and then receives, until it stops or calls `close`. It runs
from one frame to the next; a call that waits for the transport goes on where it is.
-/

namespace TptAsync.Ws

open Lib Http

/-- Where the task of an endpoint is: between two calls, with some messages still to send, in
`recv`, or in the `recv` of a `close`. -/
inductive Phase where
  | idle (messages : List Message)
  | receiving (assembly : Assembly)
  | closing (assembly : Assembly)
  | finished (result : Except WsError Unit)

structure Endpoint (κ : Type) where
  ws : WebSocketStream κ
  phase : Phase

inductive Turn where
  | send
  | recv
  | close (code : UInt16)
  | poll

def Assembly.start : Assembly := ⟨none, [], false⟩

namespace WebSocketStream

variable {κ : Type} [DeflateCodec κ]

/-- One round of `recvLoop`. -/
def round (assembly : Assembly) : Async WsError (WebSocketStream κ) Progress := do
  match ← nextFrame with
  | none => pure (.done none)
  | some frame => handleFrame assembly frame

/-- What `close` does before it receives. -/
def startClose (code : UInt16) : Async WsError (WebSocketStream κ) Unit := do
  if (← Async.get).closeSent then pure ()
  else
    send (.close (some (code, [])))
    Async.modify fun ws => { ws with closeSent := true }

theorem recvLoop_round (fuel : Nat) (assembly : Assembly) :
    (recvLoop (fuel + 1) assembly : Async WsError (WebSocketStream κ) _) = (do
      match ← round assembly with
      | .done message => pure message
      | .more assembly => recvLoop fuel assembly) := by
  rw [recvLoop_succ, round, Async.bind_assoc]
  congr 1
  funext found
  cases found <;> rfl

theorem close_eq (code : UInt16) :
    (close code : Async WsError (WebSocketStream κ) Unit) = (do
      startClose code
      drainLoop ((← Async.get).stream.length + 1)) := by
  funext ws
  rw [close, startClose, Async.bind_assoc, (Async.Runs.get ws).bind_eq, (Async.Runs.get ws).bind_eq]
  dsimp only
  split
  · rfl
  · rw [Async.bind_assoc]

end WebSocketStream

namespace Endpoint

open WebSocketStream

variable {κ : Type} [DeflateCodec κ]

/-- Where a call is behind a round: it is resumed while it waits, and a violation is answered. -/
def settle (returned : Phase) (resumed : Assembly → Phase) (assembly : Assembly) :
    Outcome WsError Progress × WebSocketStream κ → Endpoint κ
  | (.pending, ws) => ⟨ws, resumed assembly⟩
  | (.ready (.more assembly), ws) => ⟨ws, resumed assembly⟩
  | (.ready (.done (some _)), ws) => ⟨ws, returned⟩
  | (.ready (.done none), ws) => ⟨ws, .finished (.ok ())⟩
  | (.failed (.protocol reason), ws) =>
      ⟨(failConnection reason ws).2, .finished (.error (.protocol reason))⟩
  | (.failed error, ws) => ⟨ws, .finished (.error error)⟩

/-- What a call that does not wait leads to. -/
def proceed (next : Phase) : Outcome WsError Unit × WebSocketStream κ → Option (Endpoint κ)
  | (.ready _, ws) => some ⟨ws, next⟩
  | (.failed error, ws) => some ⟨ws, .finished (.error error)⟩
  | (.pending, _) => none

def act (endpoint : Endpoint κ) : Turn → Option (Endpoint κ)
  | .send =>
      match endpoint.phase with
      | .idle (message :: messages) => proceed (.idle messages) (send message endpoint.ws)
      | _ => none
  | .recv =>
      match endpoint.phase with
      | .idle [] => some ⟨endpoint.ws, .receiving .start⟩
      | _ => none
  | .close code =>
      match endpoint.phase with
      | .idle [] =>
          if isValidCloseCode code then proceed (.closing .start) (startClose code endpoint.ws) else none
      | _ => none
  | .poll =>
      match endpoint.phase with
      | .receiving assembly =>
          some (settle (.idle []) .receiving assembly (round assembly endpoint.ws))
      | .closing assembly =>
          some (settle (.closing .start) .closing assembly (round assembly endpoint.ws))
      | _ => none

/-- What a call comes to, as the last of its rounds. -/
def ended (call : Outcome WsError (Option Message) × WebSocketStream κ) :
    Outcome WsError Progress × WebSocketStream κ :=
  match call with
  | (.ready message, ws) => (.ready (.done message), ws)
  | (.failed error, ws) => (.failed error, ws)
  | (.pending, ws) => (.pending, ws)

/-- The rounds of a call come to what the call does. -/
theorem recvLoop_polls {returned : Phase} {resumed : Assembly → Phase}
    (polls : ∀ (ws : WebSocketStream κ) assembly, act ⟨ws, resumed assembly⟩ .poll =
      some (settle returned resumed assembly (round assembly ws)))
    (fuel : Nat) (assembly : Assembly) (ws : WebSocketStream κ) :
    ∃ rounds last, Lib.run act (List.replicate rounds .poll) ⟨ws, resumed assembly⟩ =
      some (settle returned resumed last (ended (recvLoop fuel assembly ws))) := by
  induction fuel generalizing assembly ws with
  | zero => exact ⟨0, assembly, rfl⟩
  | succ fuel ih =>
      rw [recvLoop_round]
      cases rounds : round assembly ws with
      | mk outcome after =>
          have one : Lib.run act (List.replicate 1 .poll) ⟨ws, resumed assembly⟩ =
              some (settle returned resumed assembly (outcome, after)) := by
            rw [List.replicate_one, Lib.run, polls, rounds]
            rfl
          cases outcome with
          | pending => exact ⟨1, assembly, by rw [Async.bind_pending rounds, one]; rfl⟩
          | failed error => exact ⟨1, assembly, by rw [Async.bind_failed rounds, one]; rfl⟩
          | ready progress =>
              rw [Async.Runs.bind_eq rounds]
              cases progress with
              | done message => exact ⟨1, assembly, one⟩
              | more next =>
                  obtain ⟨count, last, further⟩ := ih next after
                  refine ⟨count + 1, last, ?_⟩
                  rw [List.replicate_succ, Lib.run, polls, rounds]
                  exact further

/-- What `recv` does is what its rounds do, from one wait for the transport to the next. -/
theorem recv_polls (ws : WebSocketStream κ) :
    ∃ rounds phase, Lib.run act (List.replicate rounds .poll) ⟨ws, .receiving .start⟩ =
        some ⟨(recv ws).2, phase⟩ ∧
      match (recv ws).1 with
      | .ready (some _) => phase = .idle []
      | .ready none => phase = .finished (.ok ())
      | .failed error => phase = .finished (.error error)
      | .pending => ∃ assembly, phase = .receiving assembly := by
  obtain ⟨rounds, last, runs⟩ :=
    @recvLoop_polls κ _ (.idle []) .receiving (fun _ _ => rfl) (ws.stream.length + 1) .start ws
  cases receives : recvMessage ws with
  | mk outcome after =>
      have loops : recvLoop (ws.stream.length + 1) .start ws = (outcome, after) := receives
      rw [loops] at runs
      cases outcome with
      | ready message =>
          have result : recv ws = (.ready message, after) := recv_of_done receives
          rw [result]
          cases message with
          | none => exact ⟨rounds, _, runs, rfl⟩
          | some message => exact ⟨rounds, _, runs, rfl⟩
      | pending =>
          have result : recv ws = (.pending, after) :=
            Async.bind_pending (by rw [Async.attempt, receives])
          rw [result]
          exact ⟨rounds, _, runs, last, rfl⟩
      | failed error =>
          rw [recv, (Async.Runs.attempt_failed receives).bind_eq]
          cases error with
          | protocol reason =>
              have fails := failConnection_fails reason after
              dsimp only
              rw [fails]
              exact ⟨rounds, _, runs, rfl⟩
          | io | connectionClosed | handshake | timedOut => exact ⟨rounds, _, runs, rfl⟩

end Endpoint

end TptAsync.Ws
