import TptAsync.Ws.Negotiation

set_option autoImplicit false

/-!
# Where compression stops

The loop of `compress` takes a sync marker at the end of its output for the end of the flush.
A marker inside the compressed data looks the same when a call happens to end behind it.
-/

namespace TptAsync.Ws

open Lib

variable {γ δ : Type} [Deflate γ]

/-- The machine has one output in mind for what is left of a message, and writes it bit by bit: a
call takes some of its input, and appends as much of the output as it likes and as there is room
for. -/
class LawfulDeflate (γ : Type) [Deflate γ] where
  output : γ → Bytes → Bytes
  advances {machine after : γ} {input appended : Bytes} {spare : Nat}
    (call : Deflate.compressVec machine input spare = (some appended, after)) :
    ∃ taken, taken ≤ input.length ∧ Deflate.totalIn after = Deflate.totalIn machine + taken ∧
      appended.length ≤ spare ∧ output machine input = appended ++ output after (input.drop taken)

namespace FullCodec

/-- The loop of `compress` with any amounts of room behind its reservations. -/
def compressLoopIn (data : Bytes) (start : Nat) :
    Nat → (Nat → Nat) → Nat → Bytes → Async WsError (FullCodec γ δ) Bytes
  | 0, _, _, _ => Async.wait
  | rounds + 1, spares, consumed, out => do
      let appended ← compressVec (data.drop consumed) (spares 0)
      let total := Deflate.totalIn (← Async.get).compressor - start
      let grown := out ++ appended
      if total = data.length ∧ syncTail.isSuffixOf grown then pure grown
      else if total = consumed ∧ grown.length = out.length then
        Async.fail (.protocol "deflate sync flush stalled")
      else compressLoopIn data start rounds (fun round => spares (round + 1)) total grown

/-- `compress`, whatever room the allocator gives it. -/
def compressIn (rounds : Nat) (spares : Nat → Nat) (data : Bytes) :
    Async WsError (FullCodec γ δ) Bytes := do
  let start := Deflate.totalIn (← Async.get).compressor
  let out ← compressLoopIn data start rounds spares 0 []
  Async.modify fun codec =>
    if codec.resetCompressor then { codec with compressor := Deflate.reset codec.compressor } else codec
  pure (if syncTail.isSuffixOf out then out.take (out.length - syncTail.length) else out)

variable {codec : FullCodec γ δ} {data out : Bytes} {start consumed rounds : Nat} {spares : Nat → Nat}

section Refinement

theorem le_reserve (length capacity : Nat) {additional : Nat} (some : 0 < additional) :
    additional ≤ reserve length capacity additional - length := by
  unfold reserve
  split <;> omega

/-- An allocator that doubles gives some room, from 256 on. -/
theorem compressLoop_room (data : Bytes) (start rounds capacity consumed : Nat) (out : Bytes)
    (codec : FullCodec γ δ) : ∃ spares, (∀ round, 256 ≤ spares round) ∧
      compressLoop data start rounds capacity consumed out codec =
        compressLoopIn data start rounds spares consumed out codec := by
  induction rounds generalizing capacity consumed out codec with
  | zero => exact ⟨fun _ => 256, fun _ => le_rfl, rfl⟩
  | succ rounds ih =>
      have room := le_reserve out.length capacity (show 0 < 256 by decide)
      let grown := reserve out.length capacity 256
      cases call : compressVec (data.drop consumed) (grown - out.length) codec with
      | mk outcome after =>
          cases outcome with
          | failed error =>
              refine ⟨fun _ => grown - out.length, fun _ => room, ?_⟩
              rw [compressLoop, compressLoopIn, Async.bind_failed call, Async.bind_failed call]
          | pending =>
              refine ⟨fun _ => grown - out.length, fun _ => room, ?_⟩
              rw [compressLoop, compressLoopIn, Async.bind_pending call, Async.bind_pending call]
          | ready appended =>
              have runs : Async.Runs _ codec appended after := call
              obtain ⟨later, rooms, same⟩ := ih grown (Deflate.totalIn after.compressor - start)
                (out ++ appended) after
              refine ⟨fun round => Nat.casesOn round (grown - out.length) later, ?_, ?_⟩
              · rintro (_ | round)
                · exact room
                · exact rooms round
              · rw [compressLoop, compressLoopIn, runs.bind_eq]
                refine Eq.trans ?_ runs.bind_eq.symm
                rw [(Async.Runs.get after).bind_eq, (Async.Runs.get after).bind_eq]
                dsimp only
                split
                · rfl
                · split
                  · rfl
                  · exact same

/-- The source's `compress` is `compressIn` with some such room. -/
theorem compress_room (rounds : Nat) (data : Bytes) (codec : FullCodec γ δ) :
    ∃ spares, (∀ round, 256 ≤ spares round) ∧
      compress rounds data codec = compressIn rounds spares data codec := by
  obtain ⟨spares, rooms, same⟩ := compressLoop_room data (Deflate.totalIn codec.compressor) rounds
    (data.length / 2 + 64) 0 [] codec
  refine ⟨spares, rooms, ?_⟩
  rw [compress, compressIn, (Async.Runs.get codec).bind_eq, (Async.Runs.get codec).bind_eq]
  exact Async.bind_congr_first same

end Refinement

section Calls

/-- Where the loop stands: the machine, how much input it has taken, and what it has written. -/
structure Writing (γ : Type) where
  machine : γ
  consumed : Nat
  out : Bytes

/-- A call with some room that takes or writes something. -/
structure Writing.Call (data : Bytes) (spare : Nat) (before after : Writing γ) (taken : Nat)
    (appended : Bytes) : Prop where
  answers : Deflate.compressVec before.machine (data.drop before.consumed) spare =
    (some appended, after.machine)
  counts : Deflate.totalIn after.machine = Deflate.totalIn before.machine + taken
  consumed : after.consumed = before.consumed + taken
  out : after.out = before.out ++ appended
  progress : ¬ (taken = 0 ∧ appended = [])

inductive Writing.Calls (data : Bytes) : (Nat → Nat) → Writing γ → Writing γ → Prop
  | none {spares : Nat → Nat} {writing : Writing γ} : Calls data spares writing writing
  | more {spares : Nat → Nat} {before middle after : Writing γ} {taken : Nat} {appended : Bytes}
      (call : before.Call data (spares 0) middle taken appended)
      (later : Calls data (fun round => spares (round + 1)) middle after) :
      Calls data spares before after

/-- All input is taken when a call ends behind a marker that is not the end of the output. -/
def Writing.EarlyMarker (data : Bytes) (spares : Nat → Nat) (whole : Bytes) (writing : Writing γ) : Prop :=
  ∃ last rest, Writing.Calls data spares writing last ∧ last.consumed = data.length ∧
    syncTail <:+ last.out ∧ rest ≠ [] ∧ whole = last.out ++ rest

/-- The output of the whole message, in what is written and what the machine has in mind. -/
structure Writing.Standing [LawfulDeflate γ] (data : Bytes) (start : Nat) (whole : Bytes)
    (writing : Writing γ) : Prop where
  total : Deflate.totalIn writing.machine = start + writing.consumed
  within : writing.consumed ≤ data.length
  whole : whole = writing.out ++ LawfulDeflate.output writing.machine (data.drop writing.consumed)

variable [LawfulDeflate γ] {whole : Bytes} {writing : Writing γ}

/-- A call fails, or takes the loop further in the output. -/
theorem Writing.Standing.call (standing : writing.Standing data start whole)
    (same : codec.compressor = writing.machine) (spare : Nat) :
    (∃ error after, compressVec (data.drop writing.consumed) spare codec = (.failed error, after)) ∨
      ∃ appended taken after, (compressVec (data.drop writing.consumed) spare).Runs codec appended after ∧
        Writing.Standing data start whole
          ⟨after.compressor, writing.consumed + taken, writing.out ++ appended⟩ ∧
        (¬ (taken = 0 ∧ appended = []) → writing.Call data spare
          ⟨after.compressor, writing.consumed + taken, writing.out ++ appended⟩ taken appended) := by
  cases answers : Deflate.compressVec writing.machine (data.drop writing.consumed) spare with
  | mk result machine =>
      cases result with
      | none =>
          refine .inl ⟨.protocol "deflate compression failed", { codec with compressor := machine }, ?_⟩
          rw [compressVec, same, answers]
      | some appended =>
          obtain ⟨taken, inside, counts, _, output⟩ := LawfulDeflate.advances answers
          rw [List.length_drop] at inside
          rw [List.drop_drop] at output
          have within := standing.within
          refine .inr ⟨appended, taken, { codec with compressor := machine }, ?_, ⟨?_, ?_, ?_⟩, ?_⟩
          · rw [Async.Runs, compressVec, same, answers]
          · rw [counts, standing.total, Nat.add_assoc]
          · dsimp only
            omega
          · rw [standing.whole, output, List.append_assoc]
          · exact fun progress => ⟨answers, counts, rfl, rfl, progress⟩

omit [LawfulDeflate γ] in
/-- One round, after a call that did not fail. -/
theorem compressLoopIn_succ {taken : Nat} {appended : Bytes} {after : FullCodec γ δ}
    (call : (compressVec (data.drop consumed) (spares 0)).Runs codec appended after)
    (total : Deflate.totalIn after.compressor = start + (consumed + taken)) :
    compressLoopIn data start (rounds + 1) spares consumed out codec =
      if consumed + taken = data.length ∧ syncTail <:+ out ++ appended then (.ready (out ++ appended), after)
      else if taken = 0 ∧ appended = [] then
        (.failed (.protocol "deflate sync flush stalled"), after)
      else
        compressLoopIn data start rounds (fun round => spares (round + 1)) (consumed + taken)
          (out ++ appended) after := by
  have counted : Deflate.totalIn after.compressor - start = consumed + taken := by omega
  have still : consumed + taken = consumed ↔ taken = 0 := by omega
  have empty : (out ++ appended).length = out.length ↔ appended = [] := by
    rw [List.length_append, ← List.length_eq_zero_iff]
    omega
  rw [compressLoopIn, call.bind_eq, (Async.Runs.get after).bind_eq]
  simp only [counted, still, empty, List.isSuffixOf_iff_suffix]
  split
  · rfl
  · split <;> rfl

omit [LawfulDeflate γ] in
theorem Writing.Calls.initial {last : Writing γ} (calls : Writing.Calls data spares writing last) :
    writing.out <+: last.out := by
  induction calls with
  | none => exact List.prefix_refl _
  | more call _ ih => exact (call.out ▸ List.prefix_append _ _).trans ih

/-- The loop has come to an end, with the whole output or an error. -/
def Exact (result : Bytes) : Outcome WsError Bytes → Prop
  | .ready out => out = result
  | .failed _ => True
  | .pending => False

/-- Every round makes progress until the whole output is there. -/
theorem compressLoopIn_exact (standing : writing.Standing data start whole)
    (same : codec.compressor = writing.machine) (quiet : ¬ writing.EarlyMarker data spares whole)
    (enough : data.length + whole.length < writing.consumed + writing.out.length + rounds) :
    Exact whole (compressLoopIn data start rounds spares writing.consumed writing.out codec).1 := by
  induction rounds generalizing writing spares codec with
  | zero =>
      have lengths := congrArg List.length standing.whole
      have within := standing.within
      rw [List.length_append] at lengths
      omega
  | succ rounds ih =>
      rcases standing.call same (spares 0) with
        ⟨error, after, fails⟩ | ⟨appended, taken, after, call, next, progresses⟩
      · rw [compressLoopIn, Async.bind_failed fails]
        trivial
      · rw [compressLoopIn_succ call next.total]
        split
        · next complete =>
            change writing.out ++ appended = whole
            by_contra short
            refine quiet ?_
            have rest : LawfulDeflate.output after.compressor
                (data.drop (writing.consumed + taken)) ≠ [] := by
              intro empty
              have all := next.whole
              rw [empty, List.append_nil] at all
              exact short all.symm
            by_cases still : taken = 0 ∧ appended = []
            · obtain ⟨rfl, rfl⟩ := still
              have all := next.whole
              simp only [Nat.add_zero, List.append_nil] at complete all rest
              exact ⟨writing, _, .none, complete.1, complete.2, rest, all⟩
            · exact ⟨_, _, .more (progresses still) .none, complete.1, complete.2, rest, next.whole⟩
        · split
          · trivial
          · next goesOn =>
              refine ih next rfl ?_ ?_
              · rintro ⟨last, rest, calls, marker⟩
                exact quiet ⟨last, rest, .more (progresses goesOn) calls, marker⟩
              · have progress : 0 < taken + appended.length := by
                  rw [← List.length_eq_zero_iff] at goesOn
                  omega
                dsimp only
                rw [List.length_append]
                omega

omit [LawfulDeflate γ] in
/-- An early marker ends the loop, at the latest there. -/
theorem compressLoopIn_early {last : Writing γ} {rest : Bytes}
    (calls : Writing.Calls data spares writing last) (same : codec.compressor = writing.machine)
    (total : Deflate.totalIn writing.machine = start + writing.consumed)
    (taken : last.consumed = data.length) (marker : syncTail <:+ last.out)
    (goesOn : ¬ (writing.consumed = data.length ∧ syncTail <:+ writing.out)) (left : rest ≠ []) :
    ¬ Exact (last.out ++ rest)
      (compressLoopIn data start rounds spares writing.consumed writing.out codec).1 := by
  induction calls generalizing rounds codec with
  | none => exact absurd ⟨taken, marker⟩ goesOn
  | @more spares before middle last taken' appended call later ih =>
      cases rounds with
      | zero => exact id
      | succ rounds =>
          have runs : (compressVec (data.drop before.consumed) (spares 0)).Runs codec appended
              { codec with compressor := middle.machine } := by
            rw [Async.Runs, compressVec, same, call.answers]
          have counted : Deflate.totalIn middle.machine = start + (before.consumed + taken') := by
            rw [call.counts, total, Nat.add_assoc]
          rw [compressLoopIn_succ runs counted, if_neg call.progress]
          rw [← call.consumed, ← call.out]
          split
          · intro whole
            have lengths := congrArg List.length (show middle.out = last.out ++ rest from whole)
            have longer := later.initial.length_le
            rw [List.length_append] at lengths
            exact left (List.length_eq_zero_iff.mp (by omega))
          · next incomplete =>
              exact ih rfl (by rw [counted, call.consumed]) taken marker incomplete

omit [LawfulDeflate γ] in
theorem compressLoopIn_marker {result : Bytes} {after : FullCodec γ δ}
    (runs : (compressLoopIn data start rounds spares consumed out).Runs codec result after) :
    syncTail <:+ result := by
  induction rounds generalizing spares consumed out codec with
  | zero => cases runs
  | succ rounds ih =>
      obtain ⟨appended, middle, _, runs⟩ := Async.Runs.of_bind runs
      obtain ⟨_, _, gets, runs⟩ := Async.Runs.of_bind runs
      cases gets
      dsimp only at runs
      split at runs
      · next complete =>
          cases runs
          exact List.isSuffixOf_iff_suffix.mp complete.2
      · split at runs
        · cases runs
        · exact ih runs

end Calls

section Messages

/-- What comes of the message is what comes of the loop, without the marker. -/
theorem compressIn_exact_iff (rounds : Nat) (spares : Nat → Nat) (data result : Bytes)
    (codec : FullCodec γ δ) :
    Exact result (compressIn rounds spares data codec).1 ↔
      Exact (result ++ syncTail)
        (compressLoopIn data (Deflate.totalIn codec.compressor) rounds spares 0 [] codec).1 := by
  rw [compressIn, (Async.Runs.get codec).bind_eq]
  cases ends : compressLoopIn data (Deflate.totalIn codec.compressor) rounds spares 0 [] codec with
  | mk outcome after =>
      cases outcome with
      | failed error => rw [Async.bind_failed ends]; exact Iff.rfl
      | pending => rw [Async.bind_pending ends]; exact Iff.rfl
      | ready out =>
          have runs : Async.Runs _ codec out after := ends
          obtain ⟨front, rfl⟩ := compressLoopIn_marker runs
          rw [runs.bind_eq, (Async.Runs.modify _ after).bind_eq]
          have suffix : syncTail.isSuffixOf (front ++ syncTail) = true :=
            List.isSuffixOf_iff_suffix.mpr (List.suffix_append _ _)
          have cut : (front ++ syncTail).take ((front ++ syncTail).length - syncTail.length) = front := by
            rw [List.length_append, Nat.add_sub_cancel, List.take_left]
          simp only [suffix, if_true, cut]
          exact (List.append_left_inj syncTail).symm

/-- Whatever room the allocator gives, what comes of a message is its output without the marker at
the end, or an error, exactly if no call before ends behind a marker with all input taken. -/
theorem compress_exact_iff [LawfulDeflate γ] (codec : FullCodec γ δ) (data result : Bytes)
    (spares : Nat → Nat)
    (whole : LawfulDeflate.output codec.compressor data = result ++ syncTail) :
    (∀ rounds, data.length + (result ++ syncTail).length < rounds →
        Exact result (compressIn rounds spares data codec).1) ↔
      ¬ Writing.EarlyMarker data spares (result ++ syncTail) ⟨codec.compressor, 0, []⟩ := by
  have standing : Writing.Standing data (Deflate.totalIn codec.compressor) (result ++ syncTail)
      ⟨codec.compressor, 0, []⟩ := ⟨rfl, Nat.zero_le _, whole.symm⟩
  constructor
  · rintro exact ⟨last, rest, calls, taken, marker, left, shape⟩
    have ended := (compressIn_exact_iff _ _ _ _ _).mp (exact _ (Nat.lt_succ_self _))
    rw [shape] at ended
    refine compressLoopIn_early calls rfl rfl taken marker ?_ left ended
    exact fun complete => absurd (List.suffix_nil.mp complete.2) (by decide)
  · intro quiet rounds enough
    rw [compressIn_exact_iff]
    exact compressLoopIn_exact standing rfl quiet (by simpa using enough)

end Messages

section Draining

/-- A machine that takes its input at once, and fills the room it is given. -/
structure Draining where
  left : Bytes
  taken : Nat

instance : Deflate Draining where
  new := ⟨[], 0⟩
  totalIn := Draining.taken
  compressVec machine input spare :=
    (some (machine.left.take spare), ⟨machine.left.drop spare, machine.taken + input.length⟩)
  reset machine := { machine with taken := 0 }

instance : LawfulDeflate Draining where
  output machine _ := machine.left
  advances {machine after input appended spare} call := by
    cases call
    exact ⟨input.length, le_rfl, rfl, List.length_take_le _ _, (List.take_append_drop _ _).symm⟩

/-- A message of one byte whose output is three bytes and the marker. -/
theorem compress_exact_small :
    Exact [1, 2, 3] (compressIn 9 (fun _ => 256) [7]
      (⟨⟨(), true⟩, ⟨[1, 2, 3] ++ syncTail, 0⟩, true⟩ : FullCodec Draining Unit)).1 := by
  refine (compress_exact_iff _ [7] [1, 2, 3] (fun _ => 256) rfl).mpr ?_ 9 (by decide)
  rintro ⟨last, rest, calls, taken, marker, left, shape⟩
  cases calls with
  | none => exact absurd (List.suffix_nil.mp marker) (by decide)
  | more call later =>
      -- The first call writes all seven bytes, so nothing is left behind them.
      have written := call.out
      rw [← Option.some.inj (congrArg Prod.fst call.answers)] at written
      have all := later.initial.length_le
      have lengths : 7 = (last.out ++ rest).length := congrArg List.length shape
      rw [written] at all
      rw [List.length_append] at lengths
      refine left (List.length_eq_zero_iff.mp ?_)
      have seven : 7 ≤ last.out.length := all
      omega

set_option maxRecDepth 8000 in
/-- The first call takes the message and fills its 256 bytes, which happen to end with a marker. -/
theorem compress_truncates :
    let machine : Draining := ⟨List.replicate 252 1 ++ syncTail ++ [2, 3] ++ syncTail, 0⟩
    LawfulDeflate.output machine [7] = (List.replicate 252 1 ++ syncTail ++ [2, 3]) ++ syncTail ∧
      (compress 300 [7] (⟨⟨(), true⟩, machine, true⟩ : FullCodec Draining Unit)).1 =
        .ready (List.replicate 252 1) ∧
      List.replicate 252 1 ≠ List.replicate 252 (1 : UInt8) ++ syncTail ++ [2, 3] := by
  refine ⟨rfl, rfl, fun same => ?_⟩
  have lengths := congrArg List.length same
  rw [List.append_assoc, List.length_append] at lengths
  exact absurd (Nat.left_eq_add.mp lengths) (by decide)

end Draining

end FullCodec

end TptAsync.Ws
