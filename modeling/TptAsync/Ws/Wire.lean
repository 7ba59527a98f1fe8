import TptAsync.Ws.FrameProperties

set_option autoImplicit false

/-!
# Frames on their way

The bytes of several frames, each with a masking key of its own, as the side that reads them
expects them.
-/

namespace TptAsync.Ws

open Lib

def Role.peer : Role → Role
  | .client => .server
  | .server => .client

@[simp] theorem Role.peer_peer (role : Role) : role.peer.peer = role := by
  cases role <;> rfl

/-- The masking of the peer of a side with `role`. -/
def peerMask (role : Role) (key : MaskKey) : Option MaskKey :=
  match role with
  | .client => none
  | .server => some key

/-- A frame that is not part of a longer message. -/
def Frame.whole (opcode : Opcode) (payload : Bytes) : Frame := ⟨true, false, opcode, payload⟩

@[simp] theorem Frame.whole_opcode (opcode : Opcode) (payload : Bytes) :
    (Frame.whole opcode payload).opcode = opcode := rfl

@[simp] theorem Frame.whole_payload (opcode : Opcode) (payload : Bytes) :
    (Frame.whole opcode payload).payload = payload := rfl

/-- The encoding of frames by the peer, with a key for each. -/
def wire (role : Role) : (Nat → MaskKey) → List Frame → Bytes
  | _, [] => []
  | keys, frame :: frames =>
      encode frame (peerMask role (keys 0)) ++ wire role (fun n => keys (n + 1)) frames

theorem length_le_wire (role : Role) (keys : Nat → MaskKey) (frames : List Frame) :
    frames.length ≤ (wire role keys frames).length := by
  induction frames generalizing keys with
  | nil => exact Nat.zero_le _
  | cons frame frames ih =>
      have rest := ih fun n => keys (n + 1)
      rw [wire, encode_eq, List.length_append, List.length_cons, List.length_cons]
      omega

theorem acceptable_peerMask {role : Role} {frame : Frame} {key : MaskKey}
    (size : frame.payload.length ≤ maxPayload)
    (control : frame.opcode.isControl = true → frame.payload.length ≤ 125) :
    Acceptable role frame (peerMask role key) :=
  ⟨size, control, by cases role <;> simp [peerMask]⟩

@[simp] theorem wire_nil (role : Role) (keys : Nat → MaskKey) : wire role keys [] = [] := rfl

theorem wire_append (role : Role) (keys : Nat → MaskKey) (frames more : List Frame) :
    wire role keys (frames ++ more) =
      wire role keys frames ++ wire role (fun n => keys (n + frames.length)) more := by
  induction frames generalizing keys with
  | nil => rfl
  | cons frame frames ih =>
      rw [List.cons_append, wire, wire, ih, List.append_assoc, List.length_cons]
      simp only [Nat.add_assoc]

theorem wire_congr {role : Role} {keys keys' : Nat → MaskKey} {frames : List Frame}
    (same : ∀ n < frames.length, keys n = keys' n) : wire role keys frames = wire role keys' frames := by
  induction frames generalizing keys keys' with
  | nil => rfl
  | cons frame frames ih =>
      have rest := @ih (fun n => keys (n + 1)) (fun n => keys' (n + 1))
        fun n inside => same (n + 1) (Nat.succ_lt_succ inside)
      rw [wire, wire, same 0 (Nat.succ_pos _), rest]

/-- Some bytes are these frames, under some keys. -/
def Carries (role : Role) (frames : List Frame) (bytes : Bytes) : Prop :=
  ∃ keys, bytes = wire role keys frames

namespace Carries

variable {role : Role} {frame : Frame} {frames more : List Frame} {bytes rest : Bytes}

theorem nil : Carries role [] [] := ⟨fun _ => ⟨0, 0, 0, 0⟩, rfl⟩

theorem single (key : MaskKey) : Carries role [frame] (encode frame (peerMask role key)) :=
  ⟨fun _ => key, by rw [wire, wire_nil, List.append_nil]⟩

theorem append (first : Carries role frames bytes) (second : Carries role more rest) :
    Carries role (frames ++ more) (bytes ++ rest) := by
  obtain ⟨keys, rfl⟩ := first
  obtain ⟨keys', rfl⟩ := second
  refine ⟨fun n => if n < frames.length then keys n else keys' (n - frames.length), ?_⟩
  rw [wire_append]
  congr 1
  · exact wire_congr fun n inside => (if_pos inside).symm
  · refine wire_congr fun n _ => ?_
    rw [if_neg (Nat.not_lt.mpr (Nat.le_add_left _ _)), Nat.add_sub_cancel]

theorem eq_nil (carried : Carries role frames []) : frames = [] := by
  obtain ⟨keys, empty⟩ := carried
  have count := length_le_wire role keys frames
  rw [← empty, List.length_nil] at count
  exact List.length_eq_zero_iff.mp (Nat.le_zero.mp count)

theorem of_cons (carried : Carries role (frame :: frames) bytes) :
    ∃ key rest, bytes = encode frame (peerMask role key) ++ rest ∧ Carries role frames rest := by
  obtain ⟨keys, rfl⟩ := carried
  exact ⟨keys 0, _, rfl, fun n => keys (n + 1), rfl⟩

/-- Bytes are small frames in one way only. -/
theorem unique (carried : Carries role frames bytes) (carried' : Carries role more bytes)
    (small : ∀ frame ∈ frames, frame.payload.length ≤ 125)
    (small' : ∀ frame ∈ more, frame.payload.length ≤ 125) : frames = more := by
  induction frames generalizing more bytes with
  | nil =>
      obtain ⟨_, rfl⟩ := carried
      exact carried'.eq_nil.symm
  | cons frame frames ih =>
      obtain ⟨key, rest, rfl, carries⟩ := carried.of_cons
      cases more with
      | nil =>
          obtain ⟨_, empty⟩ := carried'
          rw [wire_nil, encode_eq] at empty
          cases empty
      | cons other more =>
          obtain ⟨key', rest', same, carries'⟩ := carried'.of_cons
          have whole : ∀ {found : Frame} (key : MaskKey) (rest : Bytes), found.payload.length ≤ 125 →
              decode (encode found (peerMask role key) ++ rest) role =
                .ok (some (found, (encode found (peerMask role key)).length)) :=
            fun key rest within => decode_whole
              (acceptable_peerMask (Nat.le_trans within (by decide)) fun _ => within) rest
          have found := whole key rest (small frame (.head _))
          rw [same, whole key' rest' (small' other (.head _))] at found
          simp only [Except.ok.injEq, Option.some.injEq, Prod.mk.injEq] at found
          obtain ⟨rfl, length⟩ := found
          have tails : rest = rest' := (List.append_inj same length.symm).2
          subst tails
          rw [ih carries carries' (fun frame member => small frame (.tail _ member))
            fun frame member => small' frame (.tail _ member)]

/-- The decoder finds the first of the frames. -/
theorem decoded_cons (carried : Carries role (frame :: frames) bytes)
    (size : frame.payload.length ≤ maxPayload)
    (control : frame.opcode.isControl = true → frame.payload.length ≤ 125) :
    ∃ consumed, decode bytes role = .ok (some (frame, consumed)) ∧
      Carries role frames (bytes.drop consumed) := by
  obtain ⟨key, rest, rfl, carries⟩ := carried.of_cons
  have whole := decode_whole (@acceptable_peerMask role frame key size control) rest
  exact ⟨_, whole, by rwa [List.drop_left]⟩

theorem decoded {consumed : Nat} (carried : Carries role frames bytes) (small : bytes.length ≤ 125)
    (found : decode bytes role = .ok (some (frame, consumed))) :
    ∃ later, frames = frame :: later ∧ Carries role later (bytes.drop consumed) := by
  cases frames with
  | nil =>
      obtain ⟨_, rfl⟩ := carried
      cases found
  | cons first later =>
      have within : first.payload.length ≤ 125 := by
        obtain ⟨key, rest, rfl, _⟩ := carried.of_cons
        rw [List.length_append, length_encode] at small
        omega
      obtain ⟨_, whole, carries⟩ := carried.decoded_cons (Nat.le_trans within (by decide)) fun _ => within
      rw [whole] at found
      cases found
      exact ⟨later, rfl, carries⟩

end Carries

end TptAsync.Ws
