set_option autoImplicit false

/-! Sequences of steps that may fail. -/

namespace TptAsync.Lib

variable {ε α β : Type}

theorem except_bind_ok {source : Except ε α} {next : α → Except ε β} {result : β}
    (success : (source >>= next) = .ok result) :
    ∃ value, source = .ok value ∧ next value = .ok result := by
  cases source with
  | error error => cases success
  | ok value => exact ⟨value, rfl, success⟩

theorem except_bind_error {source : Except ε α} {next : α → Except ε β} {error : ε}
    (failure : (source >>= next) = .error error) :
    source = .error error ∨ ∃ value, source = .ok value ∧ next value = .error error := by
  cases source with
  | error other => cases failure; exact .inl rfl
  | ok value => exact .inr ⟨value, rfl, failure⟩

end TptAsync.Lib
