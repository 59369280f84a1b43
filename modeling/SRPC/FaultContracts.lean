import Mathlib.Init

/-!
# Contracts of computations that may stop

A computation returns a result with some property, or stops with an error.
-/

namespace SRPC.FaultContracts

variable {ε α β : Type}

/-- The property holds of a result, and an error is a tolerated one. -/
def Ensures (tolerated : ε → Prop) (result : Except ε α) (post : α → Prop) : Prop :=
  match result with
  | .ok value => post value
  | .error fault => tolerated fault

variable {tolerated : ε → Prop} {first : Except ε α} {post middle : α → Prop}

theorem Ensures.bind {next : α → Except ε β} {last : β → Prop}
    (ensures : Ensures tolerated first middle)
    (later : ∀ value, middle value → Ensures tolerated (next value) last) :
    Ensures tolerated (first >>= next) last := by
  cases first with
  | ok value => exact later value ensures
  | error fault => exact ensures

theorem Ensures.imp (ensures : Ensures tolerated first middle)
    (stronger : ∀ value, middle value → post value) : Ensures tolerated first post := by
  cases first with
  | ok value => exact stronger value ensures
  | error fault => exact ensures

theorem Ensures.returns (ensures : Ensures tolerated first post)
    (fits : ∀ fault, first = .error fault → ¬ tolerated fault) :
    ∃ value, first = .ok value ∧ post value := by
  cases first with
  | ok value => exact ⟨value, rfl, ensures⟩
  | error fault => exact absurd ensures (fits fault rfl)

end SRPC.FaultContracts
