import Mathlib.Order.Nat
import TptAsync.Io.Read

set_option autoImplicit false

/-!
# What the futures of readers and writers transfer

A transport whose answers are taped shows which bytes it has taken or given. Each future is
polled as often as it likes to be, and the transport may change in between as it likes.
-/

namespace TptAsync.Io

open Lib Async

variable {ω : Type}

/-- A transport with the bytes it has transferred and its last answer. -/
structure Taped (ω : Type) where
  transport : ω
  bytes : Bytes
  last : Option (Outcome IoError Nat)
  deriving DecidableEq

namespace Taped

def start (transport : ω) : Taped ω where
  transport := transport
  bytes := []
  last := none

def answered (taped : Taped ω) (transport : ω) (answer : Outcome IoError Nat) (data : Bytes) :
    Taped ω where
  transport := transport
  bytes := taped.bytes ++ data
  last := some answer

instance [AsyncWrite ω] : AsyncWrite (Taped ω) where
  pollWrite buf := fun taped =>
    match AsyncWrite.pollWrite buf taped.transport with
    | (.ready n, transport) => (.ready n, taped.answered transport (.ready n) (buf.take n))
    | (.failed error, transport) => (.failed error, taped.answered transport (.failed error) [])
    | (.pending, transport) => (.pending, taped.answered transport .pending [])

instance [AsyncReadBuf ω] : AsyncReadBuf (Taped ω) where
  pollRead rb taped :=
    match AsyncReadBuf.pollRead rb taped.transport with
    | (.ready (), after, transport) =>
        let data := after.filled.drop rb.cursor
        (.ready (), after, taped.answered transport (.ready data.length) data)
    | (.failed error, after, transport) =>
        (.failed error, after, taped.answered transport (.failed error) [])
    | (.pending, after, transport) => (.pending, after, taped.answered transport .pending [])

end Taped

/-- How a future ends when its transport stops: as the transport answers, or with `zero` when it
has transferred nothing. -/
def stopped (zero : Outcome IoError Unit) : Outcome IoError Nat → Outcome IoError Unit
  | .ready _ => zero
  | .failed error => .failed error
  | .pending => .pending

/-- The transport's last answer was no transfer, and the future ended accordingly. -/
def Stops (taped : Taped ω) (zero outcome : Outcome IoError Unit) : Prop :=
  ∃ answer, taped.last = some answer ∧ outcome = stopped zero answer ∧ ∀ n, answer = .ready n → n = 0

/-- How a round of a future ends: it is done, it goes on, or it stops. -/
def Round (done going : Prop) (stops : Outcome IoError Unit → Prop) : Outcome IoError (Option Unit) → Prop
  | .ready (some ()) => done
  | .ready none => going
  | .failed error => stops (.failed error)
  | .pending => stops .pending

theorem Round.last {done going : Prop} {stops : Outcome IoError Unit → Prop} {outcome : Outcome IoError Unit}
    (round : Round done going stops (outcome.map some)) :
    outcome = .ready () ∧ done ∨ outcome ≠ .ready () ∧ stops outcome := by
  cases outcome with
  | ready value => exact .inl ⟨rfl, round⟩
  | failed error => exact .inr ⟨by simp, round⟩
  | pending => exact .inr ⟨by simp, round⟩

/-- What happens to a transport between two polls is nothing to its tape. -/
def Taped.Changes (before after : Taped ω) : Prop :=
  after.bytes = before.bytes ∧ after.last = before.last

section WriteAll

/-- One round of `WriteAll::poll`. A writer takes no more than it is offered. -/
def writeAllRound [AsyncWrite ω] : Async IoError (ω × Bytes) (Option Unit) := fun (writer, buf) =>
  if buf = [] then (.ready (some ()), writer, buf)
  else
    match AsyncWrite.pollWrite buf writer with
    | (.ready n, writer) =>
        if n = 0 then (.failed .writeZero, writer, buf) else (.ready none, writer, buf.drop n)
    | (.failed error, writer) => (.failed error, writer, buf)
    | (.pending, writer) => (.pending, writer, buf)

variable [AsyncWrite ω] {whole : Bytes} {state after : Taped ω × Bytes} {outcome : Outcome IoError Unit}

/-- What the transport has taken and what is left make up the whole. -/
def WritesOut (whole : Bytes) (state : Taped ω × Bytes) : Prop :=
  state.1.bytes ++ state.2 = whole

theorem writeAllRound_keeps (accounts : WritesOut whole state) :
    WritesOut whole (writeAllRound state).2 ∧
    Round ((writeAllRound state).2.2 = []) ((writeAllRound state).2.2.length < state.2.length)
      (fun outcome => (writeAllRound state).2.2 ≠ [] ∧
        Stops (writeAllRound state).2.1 (.failed .writeZero) outcome) (writeAllRound state).1 := by
  obtain ⟨writer, buf⟩ := state
  simp only [WritesOut] at accounts
  by_cases empty : buf = []
  · simp only [writeAllRound, if_pos empty]
    exact ⟨accounts, empty⟩
  · simp only [writeAllRound, if_neg empty, AsyncWrite.pollWrite]
    cases polled : AsyncWrite.pollWrite buf writer.transport with
    | mk answer transport =>
        cases answer with
        | pending =>
            refine ⟨?_, empty, _, rfl, rfl, by simp⟩
            simpa [WritesOut, Taped.answered] using accounts
        | failed error =>
            refine ⟨?_, empty, _, rfl, rfl, by simp⟩
            simpa [WritesOut, Taped.answered] using accounts
        | ready n =>
            by_cases zero : n = 0
            · subst zero
              refine ⟨?_, empty, _, rfl, rfl, by simp⟩
              simpa [WritesOut, Taped.answered] using accounts
            · simp only [if_neg zero]
              refine ⟨?_, ?_⟩
              · simpa [WritesOut, Taped.answered] using accounts
              · have := List.length_pos_of_ne_nil empty
                change (buf.drop n).length < buf.length
                rw [List.length_drop]
                omega

/-- How `write_all` ends, and what the transport has taken then. -/
structure Written (whole : Bytes) (outcome : Outcome IoError Unit) (after : Taped ω × Bytes) : Prop where
  accounts : after.1.bytes ++ after.2 = whole
  complete : outcome = .ready () ↔ after.1.bytes = whole
  stops : outcome ≠ .ready () → Stops after.1 (.failed .writeZero) outcome

theorem WritesOut.ends (accounts : WritesOut whole state) (ends : Ends writeAllRound state outcome after) :
    Written whole outcome after := by
  obtain ⟨last, held, round⟩ :=
    ends.last (WritesOut whole) (fun held => (writeAllRound_keeps held).1) accounts
  have kept := writeAllRound_keeps held
  rw [round] at kept
  obtain ⟨accounts, ended⟩ := kept
  have whole_iff : after.1.bytes = whole ↔ after.2 = [] := by
    rw [← show after.1.bytes ++ after.2 = whole from accounts]
    simp
  rcases ended.last with ⟨rfl, done⟩ | ⟨unready, rest, stops⟩
  · exact ⟨accounts, iff_of_true rfl (whole_iff.mpr done), fun unready => absurd rfl unready⟩
  · exact ⟨accounts, iff_of_false unready fun same => rest (whole_iff.mp same), fun _ => stops⟩

end WriteAll

section Reading

variable [AsyncReadBuf ω] {outcome : Outcome IoError Unit}

/-- What a poll with a new buffer puts on the tape: what it has filled, or nothing. -/
structure Reads (taped : Taped ω) (polled : Outcome IoError Unit) {capacity : Nat}
    (rb : ReadBuf capacity) (after : Taped ω) : Prop where
  bytes : after.bytes = taped.bytes ++ if polled = .ready () then rb.filled else []
  last : after.last = some (match polled with
    | .ready () => .ready rb.filled.length
    | .failed error => .failed error
    | .pending => .pending)

theorem Taped.pollRead_reads (taped : Taped ω) (buf : Bytes) :
    ∃ polled rb after, AsyncReadBuf.pollRead (.new buf) taped = (polled, rb, after) ∧
      Reads taped polled rb after := by
  simp only [AsyncReadBuf.pollRead]
  cases AsyncReadBuf.pollRead (ReadBuf.new buf) taped.transport with
  | mk polled rest =>
      obtain ⟨rb, transport⟩ := rest
      cases polled with
      | ready value =>
          refine ⟨_, rb, _, rfl, ?_, ?_⟩
          · simp [answered, ReadBuf.new]
          · simp [answered, ReadBuf.new]
      | failed error => exact ⟨_, rb, _, rfl, by simp [answered], rfl⟩
      | pending => exact ⟨_, rb, _, rfl, by simp [answered], rfl⟩

/-- What has been read fills the buffer up to the position. -/
structure FillsUp (size : Nat) (state : ReadExact (Taped ω)) : Prop where
  sized : state.buf.length = size
  within : state.pos ≤ size
  filled : state.buf.take state.pos = state.reader.bytes

omit [AsyncReadBuf ω] in
theorem FillsUp.pos_eq {size : Nat} {state : ReadExact (Taped ω)} (fills : FillsUp size state) :
    state.reader.bytes.length = state.pos := by
  rw [← fills.filled, List.length_take, fills.sized]
  exact Nat.min_eq_left fills.within

theorem ReadExact.round_keeps {size : Nat} {state : ReadExact (Taped ω)} (fills : FillsUp size state) :
    FillsUp size (ReadExact.round state).2 ∧
    Round ((ReadExact.round state).2.pos = size) (state.pos < (ReadExact.round state).2.pos)
      (fun outcome => (ReadExact.round state).2.pos < size ∧
        Stops (ReadExact.round state).2.reader (.failed .unexpectedEof) outcome)
      (ReadExact.round state).1 := by
  obtain ⟨sized, within, filled⟩ := fills
  by_cases full : state.buf.length ≤ state.pos
  · simp only [ReadExact.round, if_pos full]
    exact ⟨⟨sized, within, filled⟩, le_antisymm within (sized ▸ full)⟩
  · simp only [ReadExact.round, if_neg full]
    obtain ⟨polled, rb, reader, polls, bytes, last⟩ :=
      state.reader.pollRead_reads (state.buf.drop state.pos)
    rw [polls]
    have room : state.pos < size := sized ▸ Nat.not_le.mp full
    have before : (state.buf.take state.pos).length = state.pos := by
      rw [List.length_take, sized]
      exact Nat.min_eq_left within
    have sized' : (state.buf.take state.pos ++ rb.buf).length = size := by
      rw [List.length_append, before, rb.sized, List.length_drop, sized]
      omega
    have kept : (state.buf.take state.pos ++ rb.buf).take state.pos = state.reader.bytes := by
      rw [List.take_append_of_le_length before.ge, List.take_of_length_le before.le, filled]
    have unread (same : reader.bytes = state.reader.bytes) :
        FillsUp size { state with reader, buf := state.buf.take state.pos ++ rb.buf } :=
      ⟨sized', within, kept.trans same.symm⟩
    cases polled with
    | pending => exact ⟨unread (by simpa using bytes), room, _, last, rfl, by simp⟩
    | failed error => exact ⟨unread (by simpa using bytes), room, _, last, rfl, by simp⟩
    | ready value =>
        simp only [if_true] at bytes
        simp only [ReadBuf.length_filled] at last ⊢
        by_cases zero : rb.cursor = 0
        · have same : reader.bytes = state.reader.bytes := by simpa [ReadBuf.filled, zero] using bytes
          simp only [if_pos zero]
          exact ⟨unread same, room, _, last, rfl, by simp [zero]⟩
        · simp only [if_neg zero]
          have capacity : rb.cursor ≤ size - state.pos :=
            rb.within.trans_eq (List.length_drop.trans (congrArg (· - state.pos) sized))
          have fits : state.pos + rb.cursor ≤ size := by omega
          refine ⟨⟨sized', fits, ?_⟩, Nat.lt_add_of_pos_right (Nat.pos_of_ne_zero zero)⟩
          rw [bytes, ← filled, List.take_append, before, List.take_take, ReadBuf.filled]
          congr 2
          · exact Nat.min_eq_right (Nat.le_add_right _ _)
          · exact Nat.add_sub_cancel_left _ _

/-- How `read_exact` ends, and what it has read then. -/
structure ReadFully (size : Nat) (outcome : Outcome IoError Unit) (after : ReadExact (Taped ω)) : Prop where
  consumed : after.reader.bytes.length ≤ size
  stored : after.reader.bytes <+: after.buf
  complete : outcome = .ready () ↔ after.reader.bytes.length = size
  exact : outcome = .ready () → after.buf = after.reader.bytes
  stops : outcome ≠ .ready () → Stops after.reader (.failed .unexpectedEof) outcome

theorem FillsUp.ends {size : Nat} {state after : ReadExact (Taped ω)} (fills : FillsUp size state)
    (ends : Ends ReadExact.round state outcome after) : ReadFully size outcome after := by
  obtain ⟨last, held, round⟩ :=
    ends.last (FillsUp size) (fun held => (ReadExact.round_keeps held).1) fills
  have kept := ReadExact.round_keeps held
  rw [round] at kept
  obtain ⟨fills, ended⟩ := kept
  have length := fills.pos_eq
  have consumed : after.reader.bytes.length ≤ size := length.trans_le fills.within
  have stored : after.reader.bytes <+: after.buf := fills.filled ▸ List.take_prefix _ _
  rcases ended.last with ⟨rfl, done⟩ | ⟨unready, room, stops⟩
  · refine ⟨consumed, stored, iff_of_true rfl (length.trans done), fun _ => ?_, fun unready => absurd rfl unready⟩
    exact (stored.eq_of_length ((length.trans done).trans fills.sized.symm)).symm
  · exact ⟨consumed, stored, iff_of_false unready (length.trans_lt room).ne, fun ready => absurd ready unready,
      fun _ => stops⟩

theorem FillsUp.goes {size : Nat} {state next : ReadExact (Taped ω)} (fills : FillsUp size state)
    (goes : ReadExact.round.Runs state none next) : FillsUp size next ∧ state.pos < next.pos := by
  have kept := ReadExact.round_keeps fills
  rwa [goes] at kept

/-- What has been read stands behind what was there. -/
def Appends (original : Bytes) (state : ReadToEnd (Taped ω)) : Prop :=
  state.out = original ++ state.reader.bytes

theorem ReadToEnd.round_keeps {original : Bytes} {state : ReadToEnd (Taped ω)}
    (appends : Appends original state) :
    Appends original (ReadToEnd.round state).2 ∧
    Round (Stops (ReadToEnd.round state).2.reader (.ready ()) (.ready ()))
      (state.reader.bytes.length < (ReadToEnd.round state).2.reader.bytes.length)
      (Stops (ReadToEnd.round state).2.reader (.ready ())) (ReadToEnd.round state).1 := by
  have base : (state.out ++ List.replicate readToEndChunk (0 : UInt8)).take state.out.length = state.out :=
    List.take_left
  simp only [ReadToEnd.round, base]
  obtain ⟨polled, rb, reader, polls, bytes, last⟩ := state.reader.pollRead_reads
    ((state.out ++ List.replicate readToEndChunk 0).drop state.out.length)
  rw [polls]
  cases polled with
  | pending =>
      have same : reader.bytes = state.reader.bytes := by simpa using bytes
      refine ⟨?_, _, last, rfl, by simp⟩
      rw [Appends, same, List.take_left, appends]
  | failed error =>
      have same : reader.bytes = state.reader.bytes := by simpa using bytes
      refine ⟨?_, _, last, rfl, by simp⟩
      rw [Appends, same, List.take_left, appends]
  | ready value =>
      simp only [if_true] at bytes
      simp only [ReadBuf.length_filled] at last ⊢
      refine ⟨?_, ?_⟩
      · rw [Appends, bytes, List.take_length_add_append]
        exact (congrArg (· ++ rb.filled) appends).trans (List.append_assoc _ _ _)
      · by_cases zero : rb.cursor = 0
        · simp only [if_pos zero]
          exact ⟨_, last, rfl, by simp [zero]⟩
        · simp only [if_neg zero, Round, bytes, List.length_append, ReadBuf.length_filled]
          omega

/-- How `read_to_end` ends, and what it has read then. -/
structure ReadOut (original : Bytes) (outcome : Outcome IoError Unit) (after : ReadToEnd (Taped ω)) : Prop where
  appends : after.out = original ++ after.reader.bytes
  stops : Stops after.reader (.ready ()) outcome

theorem Appends.ends {original : Bytes} {state after : ReadToEnd (Taped ω)} (appends : Appends original state)
    (ends : Ends ReadToEnd.round state outcome after) : ReadOut original outcome after := by
  obtain ⟨last, held, round⟩ :=
    ends.last (Appends original) (fun held => (ReadToEnd.round_keeps held).1) appends
  have kept := ReadToEnd.round_keeps held
  rw [round] at kept
  obtain ⟨appends, ended⟩ := kept
  rcases ended.last with ⟨rfl, done⟩ | ⟨_, stops⟩
  · exact ⟨appends, done⟩
  · exact ⟨appends, stops⟩

theorem Appends.goes {original : Bytes} {state next : ReadToEnd (Taped ω)} (appends : Appends original state)
    (goes : ReadToEnd.round.Runs state none next) :
    Appends original next ∧ state.reader.bytes.length < next.reader.bytes.length := by
  have kept := ReadToEnd.round_keeps appends
  rwa [goes] at kept

end Reading

section Example

/-- A transport that is told how many bytes to move at each poll, or to wait. -/
structure Paced where
  paces : List (Option Nat)
  inbound : Bytes
  deriving DecidableEq

instance : AsyncWrite Paced where
  pollWrite buf := fun paced =>
    let next : Paced := { paced with paces := paced.paces.tail }
    match paced.paces.head?.join with
    | none => (.pending, next)
    | some pace => (.ready (min pace buf.length), next)

instance : AsyncReadBuf Paced where
  pollRead rb paced :=
    let next : Paced := { paced with paces := paced.paces.tail }
    match paced.paces.head?.join with
    | none => (.pending, rb, next)
    | some pace =>
        let count := min pace rb.remaining
        (.ready (), rb.putSlice (paced.inbound.take count)
            ((List.length_take_le _ _).trans (Nat.min_le_right _ _)),
          { next with inbound := paced.inbound.drop count })

/-- Two bytes, a wait, and what is left. -/
def paced : Paced := ⟨[some 2, none, some 5, some 5], [104, 105, 33]⟩

end Example

end TptAsync.Io
