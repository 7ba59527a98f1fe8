import TptAsync.Ws.Deflate

set_option autoImplicit false

/-!
# When decompression comes to an end

An inflate machine reads its input to the end of the stream, to the end of the input, or to
a byte that is not valid. The loop comes to an end unless the first of these happens before
the last byte.
-/

namespace TptAsync.Ws

open Lib

inductive Stop where
  | ended
  | starved
  | corrupt
  deriving DecidableEq

/-- What a machine makes of an input in the long run: the bytes that it takes, the output,
and why it stops there. -/
structure Reading where
  used : Nat
  output : Bytes
  stop : Stop

/-- A call that appends `appended` and takes `taken` bytes leaves `next` of a reading. -/
structure Reading.Advances (reading : Reading) (available spare : Nat) (status : Status)
    (appended : Bytes) (taken : Nat) (next : Reading) : Prop where
  inside : taken ≤ available
  room : appended.length ≤ spare
  used : reading.used = taken + next.used
  output : reading.output = appended ++ next.output
  stop : next.stop = reading.stop
  /-- The end of the stream is reported when it has been reached, and from then on. -/
  streamEnd : status = .streamEnd ↔ reading.stop = .ended ∧ next.used = 0 ∧ next.output = []
  /-- Only a call that cannot make progress makes none, and it does not report success. -/
  progress : 0 < spare → taken = 0 → appended = [] →
    next.used = 0 ∧ next.output = [] ∧ status ≠ .ok
  /-- Output is held back for want of input or of room only. -/
  eager : taken = available → appended.length < spare → next.output = []

/-- The machine behaves as its documentation says. -/
class LawfulInflate (δ : Type) [Inflate δ] where
  read : δ → Bytes → Reading
  within (machine : δ) (input : Bytes) : (read machine input).used ≤ input.length
  advances {machine after : δ} {input appended : Bytes} {spare : Nat} {status : Status}
    (call : Inflate.decompressVec machine input spare = (some (status, appended), after)) :
    ∃ taken, Inflate.totalIn after = Inflate.totalIn machine + taken ∧
      (read machine input).Advances input.length spare status appended taken
        (read after (input.drop taken))
  fails {machine after : δ} {input : Bytes} {spare : Nat}
    (call : Inflate.decompressVec machine input spare = (none, after)) :
    (read machine input).stop = .corrupt

open LawfulInflate (read)

theorem lt_reserve (length capacity : Nat) : length < reserve length capacity 4096 := by
  unfold reserve
  split <;> omega

namespace Codec

variable {δ : Type} [Inflate δ] [LawfulInflate δ]

/-- The loop has come to an end, with the whole output or an error. -/
def Settled (output : Bytes) (max : Nat) : Outcome WsError Bytes → Prop
  | .ready out => out = output ∧ out.length ≤ max
  | .failed _ => True
  | .pending => False

/-- The decompressed bytes, or an error, after finitely many rounds. -/
def Settles (codec : Codec δ) (data : Bytes) (max : Nat) : Prop :=
  ∃ rounds, Settled (read codec.decompressor (data ++ syncTail)).output max
    (decompress rounds data max codec).1

/-- The stream ends in front of the last byte, with no more than `max` bytes of output. -/
def EndsEarly (codec : Codec δ) (data : Bytes) (max : Nat) : Prop :=
  let reading := read codec.decompressor (data ++ syncTail)
  reading.stop = .ended ∧ reading.used < (data ++ syncTail).length ∧ reading.output.length ≤ max

/-- Where the loop stands in the reading of its input. -/
structure Standing (input : Bytes) (start : Nat) (whole : Reading) (consumed : Nat) (out : Bytes)
    (codec : Codec δ) : Prop where
  total : Inflate.totalIn codec.decompressor = start + consumed
  within : consumed ≤ input.length
  used : whole.used = consumed + (read codec.decompressor (input.drop consumed)).used
  output : whole.output = out ++ (read codec.decompressor (input.drop consumed)).output
  stop : (read codec.decompressor (input.drop consumed)).stop = whole.stop

variable {codec : Codec δ} {input out : Bytes} {start max capacity consumed : Nat} {whole : Reading}

/-- A call fails on a corrupt stream, or takes the loop further in the reading. -/
theorem Standing.call (standing : Standing input start whole consumed out codec) (spare : Nat) :
    (∃ after, decompressVec (input.drop consumed) spare codec =
        (.failed (.protocol "invalid deflate stream"), after) ∧ whole.stop = .corrupt) ∨
      ∃ status appended taken after,
        (decompressVec (input.drop consumed) spare).Runs codec (status, appended) after ∧
        Standing input start whole (consumed + taken) (out ++ appended) after ∧
        (read codec.decompressor (input.drop consumed)).Advances (input.length - consumed) spare status
          appended taken (read after.decompressor (input.drop (consumed + taken))) := by
  cases shape : Inflate.decompressVec codec.decompressor (input.drop consumed) spare with
  | mk result decompressor =>
      cases result with
      | none =>
          left
          refine ⟨{ codec with decompressor }, ?_, ?_⟩
          · rw [decompressVec, shape]
          · rw [← standing.stop]
            exact LawfulInflate.fails shape
      | some result =>
          right
          obtain ⟨status, appended⟩ := result
          obtain ⟨taken, total, advances⟩ := LawfulInflate.advances shape
          rw [List.drop_drop, List.length_drop] at advances
          refine ⟨status, appended, taken, { codec with decompressor }, ?_, ?_, advances⟩
          · rw [Async.Runs, decompressVec, shape]
          · have within := standing.within
            have inside := advances.inside
            exact {
              total := by rw [total, standing.total, Nat.add_assoc]
              within := by omega
              used := by rw [standing.used, advances.used, Nat.add_assoc]
              output := by rw [standing.output, advances.output, List.append_assoc]
              stop := advances.stop.trans standing.stop }

omit [LawfulInflate δ] in
/-- One round, after a call that did not fail. -/
theorem decompressLoop_succ {rounds taken : Nat} {status : Status} {appended : Bytes}
    {after : Codec δ}
    (call : (decompressVec (input.drop consumed) (reserve out.length capacity 4096 - out.length)).Runs
      codec (status, appended) after)
    (total : Inflate.totalIn after.decompressor = start + (consumed + taken)) :
    decompressLoop input start max (rounds + 1) capacity consumed out codec =
      if max < (out ++ appended).length then
        (.failed (.protocol "decompressed message exceeds 16 MiB limit"), after)
      else if consumed + taken = input.length ∧
          (out ++ appended).length < reserve out.length capacity 4096 then
        (.ready (out ++ appended), after)
      else if taken = 0 ∧ appended = [] ∧ status = .bufError then
        (.failed (.protocol "invalid deflate stream"), after)
      else
        decompressLoop input start max rounds (reserve out.length capacity 4096) (consumed + taken)
          (out ++ appended) after := by
  have counted : Inflate.totalIn after.decompressor - start = consumed + taken := by omega
  have still : consumed + taken = consumed ↔ taken = 0 := by omega
  have empty : (out ++ appended).length = out.length ↔ appended = [] := by
    rw [List.length_append, ← List.length_eq_zero_iff]
    omega
  rw [decompressLoop, call.bind_eq]
  change ((Async.get >>= _) : Async WsError (Codec δ) Bytes) after = _
  rw [(Async.Runs.get after).bind_eq]
  simp only [counted, still, empty]
  split
  · rfl
  · split
    · rfl
    · split <;> rfl

/-- Every round makes progress, or ends the loop unless the stream has ended early. -/
theorem decompressLoop_settled {rounds : Nat} (standing : Standing input start whole consumed out codec)
    (late : ¬ (whole.stop = .ended ∧ whole.used < input.length ∧ whole.output.length ≤ max))
    (enough : whole.used + whole.output.length < consumed + out.length + rounds) :
    Settled whole.output max (decompressLoop input start max rounds capacity consumed out codec).1 := by
  induction rounds generalizing capacity consumed out codec with
  | zero =>
      have used := standing.used
      have output := congrArg List.length standing.output
      rw [List.length_append] at output
      omega
  | succ rounds ih =>
      have room := lt_reserve out.length capacity
      rcases standing.call (reserve out.length capacity 4096 - out.length) with
        ⟨after, fails, _⟩ | ⟨status, appended, taken, after, call, next, advances⟩
      · rw [decompressLoop, Async.bind_failed fails]
        trivial
      · rw [decompressLoop_succ call next.total]
        split
        · trivial
        · next small =>
            split
            · next complete =>
                refine ⟨?_, Nat.not_lt.mp small⟩
                have drained := advances.eager (by omega) (by
                  have grown := complete.2
                  rw [List.length_append] at grown
                  omega)
                rw [next.output, drained, List.append_nil]
            · next incomplete =>
                split
                · trivial
                · next goesOn =>
                    have lengths := @List.length_append _ out appended
                    refine ih next ?_
                    by_cases still : taken = 0 ∧ appended = []
                    · obtain ⟨rfl, rfl⟩ := still
                      obtain ⟨usedUp, drained, notOk⟩ := advances.progress (by omega) rfl rfl
                      have atEnd : status = .streamEnd := by
                        cases status with
                        | ok => exact absurd rfl notOk
                        | bufError => exact absurd ⟨rfl, rfl, rfl⟩ goesOn
                        | streamEnd => rfl
                      have output := next.output
                      have used := next.used
                      have within := next.within
                      rw [drained, List.append_nil] at output
                      rw [List.append_nil] at output small incomplete
                      refine absurd ⟨?_, ?_, output ▸ Nat.not_lt.mp small⟩ late
                      · exact standing.stop ▸ (advances.streamEnd.mp atEnd).1
                      · by_contra long
                        exact incomplete ⟨by omega, room⟩
                    · have progress : 0 < taken + appended.length := by
                        rw [← List.length_eq_zero_iff] at still
                        omega
                      omega

/-- A stream that has ended early keeps the loop going round. -/
theorem decompressLoop_pending {rounds : Nat} (standing : Standing input start whole consumed out codec)
    (ended : whole.stop = .ended) (early : whole.used < input.length)
    (small : whole.output.length ≤ max) :
    (decompressLoop input start max rounds capacity consumed out codec).1 = .pending := by
  induction rounds generalizing capacity consumed out codec with
  | zero => rfl
  | succ rounds ih =>
      have room := lt_reserve out.length capacity
      rcases standing.call (reserve out.length capacity 4096 - out.length) with
        ⟨_, _, corrupt⟩ | ⟨status, appended, taken, after, call, next, advances⟩
      · rw [ended] at corrupt
        cases corrupt
      · have output := congrArg List.length next.output
        have used := next.used
        rw [List.length_append] at output
        rw [decompressLoop_succ call next.total, if_neg (by omega), if_neg (by omega), if_neg ?_]
        · exact ih next
        · rintro ⟨none, nothing, buffer⟩
          obtain ⟨usedUp, drained, _⟩ := advances.progress (by omega) none nothing
          have atEnd := advances.streamEnd.mpr ⟨standing.stop.trans ended, usedUp, drained⟩
          rw [buffer] at atEnd
          cases atEnd

theorem standing_start (codec : Codec δ) (input : Bytes) :
    Standing input (Inflate.totalIn codec.decompressor) (read codec.decompressor input) 0 [] codec where
  total := rfl
  within := Nat.zero_le _
  used := (Nat.zero_add _).symm
  output := rfl
  stop := rfl

omit [LawfulInflate δ] in
theorem decompress_outcome (rounds : Nat) (data : Bytes) (max : Nat) (codec : Codec δ) :
    (decompress rounds data max codec).1 =
      (decompressLoop (data ++ syncTail) (Inflate.totalIn codec.decompressor) max rounds 0 0 [] codec).1 := by
  rw [decompress, (Async.Runs.get codec).bind_eq]
  cases shape : decompressLoop (data ++ syncTail) (Inflate.totalIn codec.decompressor) max rounds 0 0 []
      codec with
  | mk outcome after =>
      cases outcome with
      | ready out =>
          have runs : Async.Runs _ codec out after := shape
          rw [runs.bind_eq]
          rfl
      | failed error => rw [Async.bind_failed shape]
      | pending => rw [Async.bind_pending shape]

theorem decompress_pending {data : Bytes} (early : EndsEarly codec data max) (rounds : Nat) :
    (decompress rounds data max codec).1 = .pending := by
  rw [decompress_outcome]
  exact decompressLoop_pending (standing_start codec _) early.1 early.2.1 early.2.2

/-- Decompression comes to an end exactly when the stream does not end early. -/
theorem settles_iff (codec : Codec δ) (data : Bytes) (max : Nat) :
    Settles codec data max ↔ ¬ EndsEarly codec data max := by
  constructor
  · rintro ⟨rounds, settled⟩ early
    rw [decompress_pending early] at settled
    exact settled
  · intro late
    refine ⟨(read codec.decompressor (data ++ syncTail)).used +
      (read codec.decompressor (data ++ syncTail)).output.length + 1, ?_⟩
    rw [decompress_outcome]
    refine decompressLoop_settled (standing_start codec _) late ?_
    rw [List.length_nil]
    omega

end Codec

section Stored

/-- A machine for streams of stored blocks: where it stands in a block. -/
inductive StoredPhase where
  | header
  | lengths (final : Bool) (seen : Bytes)
  | copying (final : Bool) (remaining : Nat)
  | ended
  | corrupt

namespace StoredPhase

/-- The phase behind the four bytes of the lengths, the second being the complement of the first. -/
def ofLengths (final : Bool) : Bytes → StoredPhase
  | [low, high, lowComplement, highComplement] =>
      if low ^^^ lowComplement = 0xFF ∧ high ^^^ highComplement = 0xFF then
        match low.toNat + 256 * high.toNat, final with
        | 0, true => ended
        | 0, false => header
        | remaining, _ => copying final remaining
      else corrupt
  | seen => lengths final seen

/-- What a byte leads to, and whether it is output. A block starts at a byte, with a final bit
and the type 0. -/
def step : StoredPhase → UInt8 → StoredPhase × Bool
  | header, byte => (if byte &&& 0x06 = 0 then lengths (byte &&& 0x01 ≠ 0) [] else corrupt, false)
  | lengths final seen, byte => (ofLengths final (seen ++ [byte]), false)
  | copying final remaining, _ =>
      (match remaining, final with
        | 0, true | 1, true => ended
        | 0, false | 1, false => header
        | remaining + 2, _ => copying final (remaining + 1), true)
  | ended, _ => (ended, false)
  | corrupt, _ => (corrupt, false)

def stop : StoredPhase → Stop
  | ended => .ended
  | corrupt => .corrupt
  | _ => .starved

/-- The phase after an input, the bytes that it took, and what it appended. -/
def run (phase : StoredPhase) : Bytes → Nat → StoredPhase × Nat × Bytes
  | [], _ => (phase, 0, [])
  | byte :: input, spare =>
      if phase.stop ≠ .starved then (phase, 0, [])
      else
        let (next, outputs) := phase.step byte
        if outputs ∧ spare = 0 then (phase, 0, [])
        else
          let (last, taken, appended) := run next input (if outputs then spare - 1 else spare)
          (last, taken + 1, if outputs then byte :: appended else appended)

/-- What a phase makes of an input. -/
def reading (phase : StoredPhase) : Bytes → Reading
  | [] => ⟨0, [], phase.stop⟩
  | byte :: input =>
      if phase.stop ≠ .starved then ⟨0, [], phase.stop⟩
      else
        let (next, outputs) := phase.step byte
        let rest := reading next input
        ⟨rest.used + 1, if outputs then byte :: rest.output else rest.output, rest.stop⟩

end StoredPhase

/-- The machine with its count of bytes. -/
structure StoredInflate where
  phase : StoredPhase
  totalIn : Nat

instance : Inflate StoredInflate where
  totalIn := StoredInflate.totalIn
  decompressVec machine input spare :=
    let (phase, taken, appended) := machine.phase.run input spare
    let after : StoredInflate := ⟨phase, machine.totalIn + taken⟩
    match phase.stop with
    | .corrupt => (none, after)
    | .ended => (some (.streamEnd, appended), after)
    | .starved => (some (if taken = 0 ∧ appended = [] then .bufError else .ok, appended), after)
  reset _ := ⟨.header, 0⟩

namespace StoredPhase

theorem reading_used_le (phase : StoredPhase) (input : Bytes) : (phase.reading input).used ≤ input.length := by
  induction input generalizing phase with
  | nil => exact Nat.le_refl _
  | cons byte input ih =>
      rw [reading]
      split
      · exact Nat.zero_le _
      · exact Nat.succ_le_succ (ih _)

theorem reading_stopped {phase : StoredPhase} (stopped : phase.stop ≠ .starved) (input : Bytes) :
    phase.reading input = ⟨0, [], phase.stop⟩ := by
  cases input with
  | nil => rfl
  | cons byte input => rw [reading, if_pos stopped]

theorem reading_unused {phase : StoredPhase} {input : Bytes} (unused : (phase.reading input).used = 0) :
    phase.reading input = ⟨0, [], phase.stop⟩ := by
  cases input with
  | nil => rfl
  | cons byte input =>
      rw [reading] at unused ⊢
      split at unused
      · next stopped => rw [if_pos stopped]
      · cases unused

/-- A run takes the start of the reading, and holds nothing back without need. -/
structure RunsTo (phase : StoredPhase) (input : Bytes) (spare : Nat) (last : StoredPhase)
    (taken : Nat) (appended : Bytes) : Prop where
  inside : taken ≤ input.length
  room : appended.length ≤ spare
  used : (phase.reading input).used = taken + (last.reading (input.drop taken)).used
  output : (phase.reading input).output = appended ++ (last.reading (input.drop taken)).output
  stop : (last.reading (input.drop taken)).stop = (phase.reading input).stop
  progress : 0 < spare → taken = 0 → (phase.reading input).used = 0

theorem run_spec (phase : StoredPhase) (input : Bytes) (spare : Nat) :
    RunsTo phase input spare (phase.run input spare).1 (phase.run input spare).2.1
      (phase.run input spare).2.2 := by
  induction input generalizing phase spare with
  | nil => exact ⟨Nat.zero_le _, Nat.zero_le _, (Nat.zero_add _).symm, rfl, rfl, fun _ _ => rfl⟩
  | cons byte input ih =>
      have halts : (0 < spare → (phase.reading (byte :: input)).used = 0) →
          RunsTo phase (byte :: input) spare phase 0 [] := fun unused =>
        ⟨Nat.zero_le _, Nat.zero_le _, (Nat.zero_add _).symm, rfl, rfl, fun room _ => unused room⟩
      by_cases stopped : phase.stop ≠ .starved
      · simp only [run, if_pos stopped]
        exact halts fun _ => congrArg Reading.used (reading_stopped stopped (byte :: input))
      · by_cases full : (phase.step byte).2 = true ∧ spare = 0
        · simp only [run, if_neg stopped, if_pos full]
          exact halts fun room => absurd full.2 (Nat.ne_of_gt room)
        · have spec := ih (phase.step byte).1 (if (phase.step byte).2 then spare - 1 else spare)
          generalize shape : (phase.step byte).1.run input _ = result at spec
          obtain ⟨last, taken, appended⟩ := result
          simp only [run, if_neg stopped, if_neg full, shape]
          obtain ⟨inside, room, used, output, stop, _⟩ := spec
          refine ⟨Nat.succ_le_succ inside, ?_, ?_, ?_, ?_, nofun⟩
          · cases outputs : (phase.step byte).2 with
            | false => simpa [outputs] using room
            | true =>
                simp only [outputs, if_true, true_and] at room full ⊢
                rw [List.length_cons]
                omega
          · simp only [reading, if_neg stopped, List.drop_succ_cons, used]
            omega
          · simp only [reading, if_neg stopped, List.drop_succ_cons, output]
            cases (phase.step byte).2 <;> rfl
          · simp only [reading, if_neg stopped, List.drop_succ_cons, stop]

end StoredPhase

theorem stored_advances {phase last : StoredPhase} {input appended : Bytes} {spare taken : Nat}
    {status : Status} (spec : StoredPhase.RunsTo phase input spare last taken appended)
    (ended : status = .streamEnd ↔ last.stop = .ended)
    (stalled : status = .ok → ¬ (taken = 0 ∧ appended = [])) :
    (phase.reading input).Advances input.length spare status appended taken
      (last.reading (input.drop taken)) where
  inside := spec.inside
  room := spec.room
  used := spec.used
  output := spec.output
  stop := spec.stop
  streamEnd := by
    rw [ended, ← spec.stop]
    constructor
    · intro atEnd
      rw [StoredPhase.reading_stopped (by rw [atEnd]; nofun)]
      exact ⟨atEnd, rfl, rfl⟩
    · rintro ⟨stop, unused, _⟩
      rw [← stop, StoredPhase.reading_unused unused]
  progress := by
    intro room none nothing
    have unused := spec.progress room none
    have nextUnused : (last.reading (input.drop taken)).used = 0 := by
      have used := spec.used
      omega
    refine ⟨nextUnused, ?_, fun ok => stalled ok ⟨none, nothing⟩⟩
    rw [StoredPhase.reading_unused nextUnused]
  eager := by
    intro all _
    rw [all, List.drop_length]
    rfl

instance : LawfulInflate StoredInflate where
  read machine input := machine.phase.reading input
  within machine input := machine.phase.reading_used_le input
  advances := by
    intro machine after input appended spare status call
    have spec := machine.phase.run_spec input spare
    simp only [Inflate.decompressVec] at call
    generalize machine.phase.run input spare = result at call spec
    obtain ⟨last, taken, out⟩ := result
    refine ⟨taken, ?_⟩
    cases stop : last.stop with
    | corrupt => simp [stop] at call
    | ended =>
        simp only [stop, Prod.mk.injEq, Option.some.injEq] at call
        obtain ⟨⟨rfl, rfl⟩, rfl⟩ := call
        exact ⟨rfl, stored_advances spec (by simp [stop]) nofun⟩
    | starved =>
        simp only [stop, Prod.mk.injEq, Option.some.injEq] at call
        obtain ⟨⟨rfl, rfl⟩, rfl⟩ := call
        refine ⟨rfl, stored_advances spec ?_ ?_⟩
        · split <;> simp [stop]
        · intro ok stalled
          simp [if_pos stalled] at ok
  fails := by
    intro machine after input spare call
    have spec := machine.phase.run_spec input spare
    simp only [Inflate.decompressVec] at call
    generalize machine.phase.run input spare = result at call spec
    obtain ⟨last, taken, out⟩ := result
    cases stop : last.stop with
    | corrupt =>
        have stopped := spec.stop
        rw [StoredPhase.reading_stopped (by rw [stop]; nofun)] at stopped
        exact stopped.symm.trans stop
    | ended => simp [stop] at call
    | starved => simp [stop] at call

/-- A codec in front of its first message. -/
def freshCodec : Codec StoredInflate := ⟨⟨.header, 0⟩, true⟩

/-- The message of one byte is followed by its tail, which is what is left of an empty block. -/
theorem settles_openBlock : Codec.Settles freshCodec [0x00, 0x01, 0x00, 0xFE, 0xFF, 0x61, 0x00] 16 :=
  (Codec.settles_iff freshCodec [0x00, 0x01, 0x00, 0xFE, 0xFF, 0x61, 0x00] 16).mpr (by
    rintro ⟨ended, _⟩
    revert ended
    decide)

/-- An empty final block in front of the tail keeps the loop going round. -/
theorem not_settles_finalBlock :
    (∀ rounds, (Codec.decompress rounds [0x01, 0x00, 0x00, 0xFF, 0xFF] maxPayload freshCodec).1 = .pending) ∧
      ¬ Codec.Settles freshCodec [0x01, 0x00, 0x00, 0xFF, 0xFF] maxPayload := by
  have early : Codec.EndsEarly freshCodec [0x01, 0x00, 0x00, 0xFF, 0xFF] maxPayload :=
    ⟨by decide, by decide, by decide⟩
  have pending := Codec.decompress_pending early
  refine ⟨pending, ?_⟩
  rintro ⟨rounds, settled⟩
  rw [pending rounds] at settled
  exact settled

end Stored

end TptAsync.Ws
