import TptAsync.Tls.Records

set_option autoImplicit false

/-!
# When a reader waits

A read first pushes what there is to send, and waits if the transport does not take it. Two
streams may wait for each other so.
-/

namespace TptAsync.Tls

open Lib Io Async

/-- A transport whose reads wait only where nothing has come in. -/
class ReadableTransport (ω : Type) [Transport ω] where
  inbound : ω → Bytes
  waits {room : Nat} {io after : ω} (pending : AsyncRead.pollRead room io = (.pending, after)) :
    inbound after = []

/-- A rustls connection that would block only where it has decrypted all that it has given. -/
class ReadableSession (ρ : Type) [Session ρ] where
  plaintext : ρ → Bytes
  blocks {room : Nat} {conn after : ρ} {error : IoError}
    (fails : Session.read room conn = (.error error, after)) (kind : error.kind = .wouldBlock) :
    plaintext after = []

variable {ω ρ α : Type} [Transport ω] [Session ρ] [ReadableTransport ω] [ReadableSession ρ]

namespace Duplex

/-- There is nothing to read, in rustls, in the stream or in the transport. -/
structure Dry (stream : Duplex ω ρ) : Prop where
  plaintext : ReadableSession.plaintext stream.conn = []
  readBuf : stream.readBuf = []
  inbound : ReadableTransport.inbound stream.io = []

/-- A read that waits has nothing to read. -/
def Prompt (room : Nat) (stream : Duplex ω ρ) : Prop :=
  ∀ rounds after, pollRead room rounds stream = some (.pending, after) → after.Dry

/-- In no round of a read does the push of what there is to send wait while there is something to
read. -/
def Unblocked (room : Nat) (stream : Duplex ω ρ) : Prop :=
  ∀ state after, Rounds (readRound room) stream state →
    pollDrivePendingWrites state = (.pending, after) → after.Dry

variable {stream after : Duplex ω ρ}

omit [Transport ω] [Session ρ] [ReadableTransport ω] [ReadableSession ρ] in
theorem onSession_returns {ε : Type} {call : ρ → Except ε α × ρ} : onSession call stream ≠ (.pending, after) := by
  unfold onSession
  split <;> simp

omit [Transport ω] [Session ρ] [ReadableTransport ω] [ReadableSession ρ] in
theorem onSession_failed {ε : Type} {call : ρ → Except ε α × ρ} {error : ε}
    (fails : onSession call stream = (.failed error, after)) :
    ∃ conn, call stream.conn = (.error error, conn) ∧ after = { stream with conn } := by
  unfold onSession at fails
  split at fails
  · cases fails
  · next conn goes =>
      cases fails
      exact ⟨conn, goes, rfl⟩

omit [Transport ω] [ReadableTransport ω] [ReadableSession ρ] in
theorem feedIncomingToRustls_returns : feedIncomingToRustls stream ≠ (.pending, after) := by
  intro waits
  rw [feedIncomingToRustls, (Runs.get stream).bind_eq] at waits
  split at waits
  · cases waits
  · rcases bind_ends waits with ⟨consumed, taken, takes, waits⟩ | ⟨waits, _⟩ | ⟨_, _, other⟩
    · rw [(Runs.modify _ taken).bind_eq] at waits
      rcases bind_ends waits with ⟨_, processed, processes, waits⟩ | ⟨waits, _⟩ | ⟨_, _, other⟩
      · cases waits
      · exact onSession_returns (mapError_pending.mp waits)
      · cases other
    · exact onSession_returns (mapError_pending.mp waits)
    · cases other

/-- A round of a read waits in one of two places. -/
theorem readRound_pending {room : Nat} (waits : readRound room stream = (.pending, after)) :
    pollDrivePendingWrites stream = (.pending, after) ∨ after.Dry := by
  rcases bind_ends waits with ⟨_, driven, drives, waits⟩ | ⟨waits, _⟩ | ⟨_, _, other⟩
  · rcases bind_ends waits with ⟨result, read, reads, waits⟩ | ⟨waits, _⟩ | ⟨_, _, other⟩
    · cases result with
      | ok plaintext => cases waits
      | error error =>
          obtain ⟨conn, fails, rfl⟩ := onSession_failed reads.of_attempt_error
          dsimp only at waits
          split at waits
          · next kind =>
              rw [(Runs.get _).bind_eq] at waits
              split at waits
              · rcases bind_ends waits with ⟨_, fed, _, waits⟩ | ⟨waits, _⟩ | ⟨_, _, other⟩
                · cases waits
                · exact absurd (mapError_pending.mp waits) feedIncomingToRustls_returns
                · cases other
              · next empty =>
                  rcases bind_ends waits with ⟨filled, polled, _, waits⟩ | ⟨waits, _⟩ | ⟨_, _, other⟩
                  · split at waits <;> cases waits
                  · obtain ⟨io, pending, rfl⟩ := onIo_ends waits
                    exact .inr ⟨ReadableSession.blocks fails kind, not_not.mp empty, ReadableTransport.waits pending⟩
                  · cases other
          · cases waits
    · exact absurd (attempt_pending.mp waits) onSession_returns
    · cases other
  · exact .inl (mapError_pending.mp waits)
  · cases other

theorem prompt_iff {room : Nat} : stream.Prompt room ↔ stream.Unblocked room := by
  constructor
  · intro prompt state after rounds blocks
    have waits : readRound room state = (.pending, after) := bind_pending (mapError_pending.mpr blocks)
    have last : readRound room state = (Outcome.pending.map some, after) := waits
    obtain ⟨count, ends⟩ := rounds.ends last
    exact prompt count after ends
  · intro unblocked count after ends
    obtain ⟨state, rounds, waits⟩ := loop_ends ends
    exact (readRound_pending waits).elim (unblocked state after rounds) id

def PromptAt (stream : Duplex ω ρ) : Call → Prop
  | .read room _ => stream.Prompt room
  | .write _ | .flush | .shutdown => True

def UnblockedAt (stream : Duplex ω ρ) : Call → Prop
  | .read room _ => stream.Unblocked room
  | .write _ | .flush | .shutdown => True

theorem promptAt_iff {call : Call} : stream.PromptAt call ↔ stream.UnblockedAt call := by
  cases call with
  | read room rounds => exact prompt_iff
  | write buf | flush | shutdown => exact Iff.rfl

theorem calls_prompt_iff (calls : List Call) (stream : Duplex ω ρ) :
    AllAllowed step PromptAt calls stream ↔ AllAllowed step UnblockedAt calls stream := by
  have keeps : ∀ {state : Duplex ω ρ} {call next}, True → step state call = some next → True :=
    fun _ _ => trivial
  exact allAllowed_congr (fun _ => True) keeps (fun _ _ => promptAt_iff) trivial

end Duplex

/-- The other end of the same pipes. -/
def otherEnd (io : PipeEnd) : PipeEnd := ⟨io.outbound, io.inbound⟩

/-- Two streams joined by pipes. -/
structure Joined (ρ : Type) where
  left : Duplex PipeEnd ρ
  right : Duplex PipeEnd ρ

inductive Side
  | left
  | right

namespace Joined

omit [ReadableSession ρ]

def new (capacity : Nat) (left right : ρ) : Joined ρ :=
  ⟨.new ⟨.empty capacity, .empty capacity⟩ left, .new ⟨.empty capacity, .empty capacity⟩ right⟩

/-- A call of one side moves bytes that the other one has at its ends of the pipes. -/
def step (joined : Joined ρ) : Side × Duplex.Call → Option (Joined ρ)
  | (.left, call) => do
      let left ← joined.left.step call
      some ⟨left, { joined.right with io := otherEnd left.io }⟩
  | (.right, call) => do
      let right ← joined.right.step call
      some ⟨{ joined.left with io := otherEnd right.io }, right⟩

/-- A poll for reading waits, and leaves everything as it was. -/
def Waits (stream : Duplex PipeEnd ρ) : Prop :=
  ∃ room rounds, stream.pollRead room rounds = some (.pending, stream)

/-- Both sides wait while bytes sit in a pipe. -/
structure Wedged (joined : Joined ρ) : Prop where
  left : Waits joined.left
  right : Waits joined.right
  bytes : joined.left.io.inbound.bytes ≠ [] ∨ joined.right.io.inbound.bytes ≠ []

end Joined

instance : ReadableTransport PipeEnd where
  inbound io := io.inbound.bytes
  waits {room io after} pending := by
    obtain ⟨inbound, reads, rfl⟩ := zoom_ends pending
    unfold Pipe.pollRead at reads
    split at reads
    · cases reads
    · next empty =>
        split at reads
        · cases reads
        · cases reads
          exact not_not.mp empty

namespace Joined

theorem Waits.inbound {stream : Duplex PipeEnd ρ} (waits : Waits stream)
    (unblocked : ∀ room, stream.Unblocked room) : stream.io.inbound.bytes = [] := by
  obtain ⟨room, rounds, pending⟩ := waits
  exact (Duplex.prompt_iff.mpr (unblocked room) rounds stream pending).inbound

theorem not_wedged {joined : Joined ρ} (left : ∀ room, joined.left.Unblocked room)
    (right : ∀ room, joined.right.Unblocked room) : ¬ joined.Wedged := by
  intro wedged
  rcases wedged.bytes with bytes | bytes
  · exact bytes (wedged.left.inbound left)
  · exact bytes (wedged.right.inbound right)

end Joined

/-- In every run of a stream the reads wait only for something to read exactly when none of them is
blocked by what there is to send; and two streams joined by pipes that are not blocked so are
never wedged. -/
theorem reads_prompt_iff :
    (∀ (calls : List Duplex.Call) (stream : Duplex ω ρ),
      AllAllowed Duplex.step Duplex.PromptAt calls stream ↔
        AllAllowed Duplex.step Duplex.UnblockedAt calls stream) ∧
      ∀ (start joined : Joined ρ), Reachable Joined.step start joined →
        (∀ room, joined.left.Unblocked room) → (∀ room, joined.right.Unblocked room) → ¬ joined.Wedged :=
  ⟨Duplex.calls_prompt_iff, fun _ _ _ left right => Joined.not_wedged left right⟩

section Example

open Duplex

instance : ReadableSession PlainSession where
  plaintext := PlainSession.plaintext
  blocks {room conn after error} fails kind := by
    change (if conn.plaintext.isEmpty then _ else _) = _ at fails
    split at fails
    · next empty =>
        cases fails
        exact List.isEmpty_iff.mp empty
    · cases fails

/-- Both sides of pipes that one byte fits in have written two, of which one is sent. -/
def stuck : Joined PlainSession :=
  let left : Duplex PipeEnd PlainSession := ⟨⟨⟨⟨1, [3], false⟩, ⟨1, [1], false⟩⟩, ⟨8, [], [], []⟩, [1, 2], 1⟩, []⟩
  let right : Duplex PipeEnd PlainSession := ⟨⟨⟨⟨1, [1], false⟩, ⟨1, [3], false⟩⟩, ⟨8, [], [], []⟩, [3, 4], 1⟩, []⟩
  ⟨left, right⟩

/-- The left side has written. -/
def written : Joined PlainSession :=
  let left : Duplex PipeEnd PlainSession := ⟨⟨⟨.empty 1, ⟨1, [1], false⟩⟩, ⟨8, [], [], []⟩, [1, 2], 1⟩, []⟩
  let right : Duplex PipeEnd PlainSession := ⟨⟨⟨⟨1, [1], false⟩, .empty 1⟩, ⟨8, [], [], []⟩, [], 0⟩, []⟩
  ⟨left, right⟩

theorem stuck_reached :
    run Joined.step [(.left, .write [1, 2]), (.right, .write [3, 4])]
      (.new 1 ⟨8, [], [], []⟩ ⟨8, [], [], []⟩) = some stuck := by
  have left : Joined.step (.new 1 ⟨8, [], [], []⟩ ⟨8, [], [], []⟩) (.left, .write [1, 2]) = some written := by
    rfl
  have right : Joined.step written (.right, .write [3, 4]) = some stuck := by rfl
  rw [run, left, Option.bind_some, run, right, Option.bind_some, run]

theorem stuck_left : stuck.left.pollRead 8 1 = some (.pending, stuck.left) := by rfl

theorem stuck_right : stuck.right.pollRead 8 1 = some (.pending, stuck.right) := by rfl

/-- Each side polls for reading behind a write that was accepted, and they wait for each other. -/
theorem not_reads_prompt :
    Reachable Joined.step (.new 1 ⟨8, [], [], []⟩ ⟨8, [], [], []⟩) stuck ∧ stuck.Wedged ∧
      ¬ stuck.left.Prompt 8 := by
  refine ⟨⟨_, stuck_reached⟩, ⟨⟨8, 1, stuck_left⟩, ⟨8, 1, stuck_right⟩, ?_⟩, fun prompt => ?_⟩
  · left
    intro empty
    cases empty
  · cases (prompt 1 stuck.left stuck_left).inbound

def fresh : Duplex PipeEnd PlainSession := new ⟨.empty 8, .empty 8⟩ ⟨8, [], [], []⟩

theorem fresh_waits : readRound 8 fresh = (.pending, fresh) := by rfl

theorem fresh_drives : pollDrivePendingWrites.Runs fresh () fresh := by rfl

theorem reads_prompt_fresh : AllAllowed step PromptAt [.read 8 1] fresh := by
  have unblocked : fresh.Unblocked 8 := by
    intro state after rounds blocks
    have same : state = fresh := by
      refine rounds.invariant (fun state => state = fresh) (fun same goes => ?_) rfl
      cases (same ▸ goes : (readRound 8).Runs fresh none _).symm.trans fresh_waits
    rw [same, fresh_drives] at blocks
    cases blocks
  have all : AllAllowed step UnblockedAt [.read 8 1] fresh := fun _ _ => ⟨unblocked, trivial⟩
  exact (reads_prompt_iff.1 [.read 8 1] fresh).mpr all

end Example

end TptAsync.Tls
