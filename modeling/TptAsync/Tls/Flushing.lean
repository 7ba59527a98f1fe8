import TptAsync.Tls.Records
import TptAsync.Tls.StreamProperties

set_option autoImplicit false

/-!
# What a flush guarantees

Records may stay behind inside rustls, in `writeBuf`, or in the transport. A flush sees to the
last two.
-/

namespace TptAsync.Tls

open Lib Io Async

variable {ω ρ : Type} [Transport ω]

theorem TlsStream.flushLoop_drains {fuel : Nat} {stream after : TlsStream ω ρ}
    (runs : (flushLoop fuel).Runs stream () after) : after.writeBuf = [] := by
  induction fuel generalizing stream with
  | zero => cases runs
  | succ fuel ih =>
      rw [flushLoop, Runs, (Runs.get stream).bind_eq] at runs
      split at runs
      · obtain ⟨n, middle, writes, runs⟩ := Runs.of_bind runs
        split at runs
        · cases runs
        · obtain ⟨_, moved, _, runs⟩ := Runs.of_bind runs
          exact ih runs
      · cases runs
        rfl

namespace Duplex

variable [Session ρ] {stream after : Duplex ω ρ}

/-- Every record is handed to the transport: rustls has none left, nor has the stream. -/
structure Delivered (stream : Duplex ω ρ) : Prop where
  conn : Session.wantsWrite stream.conn = false
  writeBuf : stream.writeBuf = []

/-- A flush that returns, or a shutdown, has delivered. -/
def Guaranteed (stream : Duplex ω ρ) : Call → Prop
  | .flush => ∀ after, pollFlush.Runs stream () after → after.Delivered
  | .shutdown => ∀ after, pollShutdown.Runs stream () after → after.Delivered
  | .read _ _ | .write _ => True

/-- A stream that has asked for `close_notify`. -/
def closing (stream : Duplex ω ρ) : Duplex ω ρ :=
  { stream with conn := Session.sendCloseNotify stream.conn }

/-- If the transport takes all of `writeBuf`, then rustls wants no write; for a shutdown, behind
its one pull. -/
def Exhausted (stream : Duplex ω ρ) : Call → Prop
  | .flush => ∀ drained flushed, pollFlushWriteBuf.Runs stream () drained →
      (onIo Transport.pollFlush).Runs drained () flushed → Session.wantsWrite stream.conn = false
  | .shutdown => ∀ pulled drained shut, pullTlsRecords.Runs stream.closing () pulled →
      pollFlushWriteBuf.Runs pulled () drained → (onIo Transport.pollShutdown).Runs drained () shut →
      Session.wantsWrite pulled.conn = false
  | .read _ _ | .write _ => True

omit [Session ρ] in
theorem pollFlushWriteBuf_drains (runs : pollFlushWriteBuf.Runs stream () after) :
    after.writeBuf = [] ∧ after.conn = stream.conn := by
  rw [pollFlushWriteBuf, onWrites] at runs
  obtain ⟨writes, drains, rfl⟩ := runs.of_mapError.of_zoom
  exact ⟨TlsStream.flushLoop_drains drains, TlsStream.pollFlushWriteBuf_keeps.of_runs drains⟩

omit [Transport ω] [Session ρ] in
theorem onIo_keeps {action : Async IoError ω Unit} (runs : (onIo action).Runs stream () after) :
    after.writeBuf = stream.writeBuf ∧ after.conn = stream.conn := by
  obtain ⟨io, _, rfl⟩ := onIo_ends runs
  exact ⟨rfl, rfl⟩

/-- What has been drained, and then leaves the transport alone, is delivered if rustls has nothing. -/
theorem delivered_iff {action : Async IoError ω Unit} {drained : Duplex ω ρ}
    (drains : pollFlushWriteBuf.Runs stream () drained) (ends : (onIo action).Runs drained () after) :
    after.Delivered ↔ Session.wantsWrite stream.conn = false := by
  obtain ⟨empty, same⟩ := pollFlushWriteBuf_drains drains
  obtain ⟨keeps, kept⟩ := onIo_keeps ends
  rw [← same, ← kept]
  exact ⟨Delivered.conn, fun exhausted => ⟨exhausted, keeps.trans empty⟩⟩

theorem guaranteed_flush_iff : stream.Guaranteed .flush ↔ stream.Exhausted .flush := by
  constructor
  · intro guaranteed drained flushed drains flushes
    exact (delivered_iff drains flushes).mp (guaranteed _ (drains.mapError.bind flushes))
  · intro exhausted after runs
    obtain ⟨_, drained, drains, flushes⟩ := Runs.of_bind runs
    exact (delivered_iff drains.of_mapError flushes).mpr (exhausted _ _ drains.of_mapError flushes)

theorem guaranteed_shutdown_iff : stream.Guaranteed .shutdown ↔ stream.Exhausted .shutdown := by
  constructor
  · intro guaranteed pulled drained shut pulls drains shuts
    refine (delivered_iff drains shuts).mp (guaranteed _ ?_)
    exact (Runs.modify _ _).bind (pulls.mapError.bind (drains.mapError.bind shuts))
  · intro exhausted after runs
    obtain ⟨_, closing, asks, runs⟩ := Runs.of_bind runs
    obtain ⟨_, pulled, pulls, runs⟩ := Runs.of_bind runs
    obtain ⟨_, drained, drains, shuts⟩ := Runs.of_bind runs
    cases asks
    exact (delivered_iff drains.of_mapError shuts).mpr
      (exhausted _ _ _ pulls.of_mapError drains.of_mapError shuts)

theorem guaranteed_iff {call : Call} : stream.Guaranteed call ↔ stream.Exhausted call := by
  cases call with
  | flush => exact guaranteed_flush_iff
  | shutdown => exact guaranteed_shutdown_iff
  | read room rounds => exact Iff.rfl
  | write buf => exact Iff.rfl

/-- In every run, every flush and every shutdown keeps its guarantee exactly when each of them finds
rustls exhausted. -/
theorem calls_guaranteed_iff (calls : List Call) (stream : Duplex ω ρ) :
    AllAllowed step Guaranteed calls stream ↔ AllAllowed step Exhausted calls stream := by
  have keeps : ∀ {state : Duplex ω ρ} {call next}, True → step state call = some next → True :=
    fun _ _ => trivial
  exact allAllowed_congr (fun _ => True) keeps (fun _ _ => guaranteed_iff) trivial

section Example

/-- A stream over pipes that eight bytes fit in. One pull moves one byte. -/
def started : Duplex PipeEnd PlainSession := new ⟨.empty 8, .empty 8⟩ ⟨1, [], [], []⟩

/-- One byte of two is sent, and the other one is still with rustls. -/
def halfWritten : Duplex PipeEnd PlainSession :=
  new ⟨.empty 8, ⟨8, [1], false⟩⟩ ⟨1, [2], [], []⟩

/-- So is the `close_notify` that has been asked for. -/
def halfClosed : Duplex PipeEnd PlainSession :=
  new ⟨.empty 8, ⟨8, [1, 2], true⟩⟩ ⟨1, closeNotify, [], []⟩

theorem started_writes : started.step (.write [1, 2]) = some halfWritten := by rfl

theorem halfWritten_flushes : pollFlush.Runs halfWritten () halfWritten := by rfl

theorem halfWritten_shuts : pollShutdown.Runs halfWritten () halfClosed := by rfl

/-- A flush leaves a record behind, and a shutdown its own. -/
theorem not_calls_guaranteed :
    (started.step (.write [1, 2]) = some halfWritten ∧ pollFlush.Runs halfWritten () halfWritten ∧
        Session.wantsWrite halfWritten.conn = true ∧ ¬ AllAllowed step Guaranteed [.write [1, 2], .flush] started) ∧
      pollShutdown.Runs halfWritten () halfClosed ∧ halfClosed.conn.queued = closeNotify ∧
        ¬ AllAllowed step Guaranteed [.write [1, 2], .shutdown] started := by
  refine ⟨⟨started_writes, halfWritten_flushes, rfl, fun all => ?_⟩, halfWritten_shuts, rfl, fun all => ?_⟩
  · obtain ⟨_, all⟩ := all halfWritten started_writes
    have delivered := (all halfWritten rfl).1 halfWritten halfWritten_flushes
    cases delivered.conn
  · obtain ⟨_, all⟩ := all halfWritten started_writes
    have delivered := (all halfClosed rfl).1 halfClosed halfWritten_shuts
    cases delivered.conn

end Example

end Duplex

end TptAsync.Tls
