import TptAsync.Ws.Calls

set_option autoImplicit false

/-!
# Behind a Close

Whatever the peer does, and in whatever order the calls are made: who does not send messages
behind a Close writes nothing but Pings and Pongs behind it, and no second Close.
-/

namespace TptAsync.Ws

open Lib Http

namespace WebSocketStream

variable {κ : Type} {ws before middle after : WebSocketStream κ} {log more : List Frame}

section AfterClose

variable [DeflateCodec κ] {start : WebSocketStream κ} {events : List Event}

/-- At most one Close, and no part of a message behind it. -/
structure ClosesLast (log : List Frame) : Prop where
  once : (log.filter fun frame => frame.opcode = .close).length ≤ 1
  behind : ∀ front close back, log = front ++ close :: back → close.opcode = .close →
    ∀ frame ∈ back, frame.opcode.isControl = true

/-- Behind a Close there are only Pings and Pongs. -/
theorem replies_of_foldlM {closeSent : Bool} (may : log.foldlM afterFrame true = some closeSent) :
    ∀ frame ∈ log, frame.opcode = .ping ∨ frame.opcode = .pong := by
  induction log with
  | nil => simp
  | cons frame log ih =>
      rw [List.foldlM_cons] at may
      obtain ⟨middle, first, rest⟩ := Option.bind_eq_some_iff.mp may
      cases afterFrame_mono first rfl
      intro other member
      cases member with
      | tail _ later => exact ih rest other later
      | head =>
          unfold afterFrame at first
          split at first <;> simp_all

theorem closesLast_of_foldlM {closeSent : Bool} (may : log.foldlM afterFrame false = some closeSent) :
    ClosesLast log := by
  induction log with
  | nil => exact ⟨Nat.zero_le _, by simp⟩
  | cons frame log ih =>
      rw [List.foldlM_cons, afterFrame] at may
      by_cases closes : frame.opcode = .close
      · have replies := @replies_of_foldlM log _ (by simpa [closes] using may)
        have none : log.filter (fun frame => frame.opcode = .close) = [] := by
          rw [List.filter_eq_nil_iff]
          intro other member
          cases replies other member <;> simp_all
        refine ⟨by simp [closes, none], fun front close back shape isClose other member => ?_⟩
        cases front with
        | nil =>
            cases shape
            cases replies other member <;> simp_all [Opcode.isControl]
        | cons first front =>
            cases shape
            cases replies close (by simp) <;> simp_all
      · have rest := ih (by simpa [closes] using may)
        refine ⟨by simpa [closes] using rest.once, fun front close back shape isClose => ?_⟩
        cases front with
        | nil =>
            cases shape
            exact absurd isClose closes
        | cons first front =>
            cases shape
            exact rest.behind front close back rfl isClose

/-- Behind its Close, the user sends nothing but Pings and Pongs. -/
def Considerate (ws : WebSocketStream κ) : Event → Prop
  | .call (.send (.ping _)) | .call (.send (.pong _)) => True
  | .call (.send _) => ws.closeSent = false
  | _ => True

theorem send_behaves {message : Message} (considerate : Considerate ws (.call (.send message))) :
    Async.MovesAt Behaves Behaves (send message) ws := by
  cases message with
  | text string => exact send_data rfl rfl considerate
  | binary bytes => exact send_data rfl rfl considerate
  | ping payload => exact send_ping payload ws
  | pong payload => exact send_pong payload ws
  | close info => exact send_close info considerate

theorem considerate_closesLast (opened : start.Opened)
    (considerate : AllAllowed step Considerate events start)
    (ends : Lib.run step events start = some ws) :
    ∃ log, Logs log start ws ∧ ClosesLast log := by
  have behaves : Behaves start ws := by
    refine @AllAllowed.relates _ _ _ (fun _ => True) _ _ (Std.Refl.refl (r := Behaves))
      (fun first second => Trans.trans first second) ?_ _ _ _ _ trivial considerate
      (List.prefix_refl events) ends
    intro state event next _ steps may
    refine ⟨trivial, (step_behaves steps).elim id fun ⟨message, shape⟩ => ?_⟩
    subst shape
    cases Option.some.inj steps
    refine Async.MovesAt.same_iff.mp (.bind (send_behaves may) fun _ middle _ => ?_)
    exact .pure none middle
  obtain ⟨log, logs, may⟩ := behaves.log
  rw [opened.fresh] at may
  exact ⟨log, logs, closesLast_of_foldlM may⟩

/-- A server behind the opening handshake, with nothing received yet. -/
def accepted : WebSocketStream Empty :=
  fromConn (.new ⟨[], .pending, []⟩) .server (fun _ => ⟨0, 0, 0, 0⟩) fun _ _ => false

theorem accepted_opened : accepted.Opened := ⟨⟨by simp [accepted, fromConn, HttpConnection.new], rfl⟩, rfl⟩

theorem considerate_closesLast_ping :
    ∃ ws, Lib.run step [.call (.send (.close none)), .call (.send (.ping []))] accepted = some ws ∧
      ∃ log, Logs log accepted ws ∧ ClosesLast log := by
  have considerate : AllAllowed step Considerate
      [.call (.send (.close none)), .call (.send (.ping []))] accepted :=
    fun _ _ => ⟨rfl, fun _ _ => ⟨trivial, trivial⟩⟩
  exact ⟨_, rfl, considerate_closesLast accepted_opened considerate rfl⟩

/-- A text that is sent behind a Close is written behind it. -/
theorem text_after_close :
    ∃ ws, Lib.run step [.call (.send (.close none)), .call (.send (.text ['a']))] accepted = some ws ∧
      ¬ ∃ log, Logs log accepted ws ∧ ClosesLast log := by
  refine ⟨_, rfl, ?_⟩
  rintro ⟨log, logs, closesLast⟩
  obtain ⟨bytes, outbound, carries⟩ := logs.outbound
  have wire : [0x88, 0, 0x81, 1, 97] = bytes := outbound
  subst wire
  obtain ⟨later, rfl, behind⟩ :=
    @Carries.decoded _ ⟨true, false, .close, []⟩ _ _ 2 carries (by decide) (by decide)
  obtain ⟨last, rfl, _⟩ :=
    @Carries.decoded _ ⟨true, false, .text, [97]⟩ _ _ 3 behind (by decide) (by decide)
  have control := closesLast.behind [] _ _ rfl rfl _ (.head _)
  cases control

end AfterClose

end WebSocketStream

end TptAsync.Ws
