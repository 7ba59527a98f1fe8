import TptAsync.Io.Error
import TptAsync.Lib.Async
import TptAsync.Lib.Bytes

set_option autoImplicit false

/-! Writers that are polled (`write.rs`). A poll that is not ready stays pending. -/

namespace TptAsync.Io

open Lib

class AsyncWrite (ω : Type) where
  pollWrite : Bytes → Async IoError ω Nat

/-- The `WriteAll` future polled with the bytes that are left; it is left with the bytes of
the second part of its state. A write that is ready takes at least one byte. -/
def writeAllLoop {ω : Type} [AsyncWrite ω] : Nat → Async IoError (ω × Bytes) Unit
  | 0 => Async.wait
  | fuel + 1 => do
      let (_, buf) ← Async.get
      if buf ≠ [] then
        let n ← Async.zoom Prod.fst (fun state writer => (writer, state.2)) (AsyncWrite.pollWrite buf)
        if n = 0 then Async.fail IoError.writeZero
        else
          Async.modify fun (writer, buf) => (writer, buf.drop n)
          writeAllLoop fuel
      else pure ()

/-- One poll of `WriteAll`. -/
def pollWriteAll {ω : Type} [AsyncWrite ω] : Async IoError (ω × Bytes) Unit := do
  let (_, buf) ← Async.get
  writeAllLoop (buf.length + 1)

/-- A poll ends at once when the writer takes all that is left. -/
theorem pollWriteAll_runs {ω : Type} [AsyncWrite ω] {writer after : ω} {buf : Bytes}
    (nonempty : buf ≠ []) (takes : (AsyncWrite.pollWrite buf).Runs writer buf.length after) :
    pollWriteAll.Runs (writer, buf) () (after, []) := by
  have positive := List.length_pos_of_ne_nil nonempty
  have wrote : (Async.zoom Prod.fst (fun state writer => (writer, state.2))
      (AsyncWrite.pollWrite buf)).Runs (writer, buf) buf.length (after, buf) := .zoom takes
  have advanced : (Async.modify fun (writer, rest) => (writer, List.drop buf.length rest)).Runs
      (ε := IoError) (after, buf) () (after, []) := by
    rw [← List.drop_length]
    exact .modify _ _
  obtain ⟨fuel, length⟩ := Nat.exists_eq_add_one_of_ne_zero (Nat.ne_of_gt positive)
  rw [Async.Runs, pollWriteAll, (Async.Runs.get _).bind_eq]
  change writeAllLoop (buf.length + 1) (writer, buf) = _
  rw [writeAllLoop, (Async.Runs.get _).bind_eq]
  simp only [ne_eq, nonempty, not_false_eq_true, if_true]
  rw [wrote.bind_eq, if_neg (Nat.ne_of_gt positive), advanced.bind_eq, length, writeAllLoop,
    (Async.Runs.get _).bind_eq]
  rfl

end TptAsync.Io
