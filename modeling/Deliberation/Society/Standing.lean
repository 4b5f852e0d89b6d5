import Deliberation.Number.Scalar

/-!
The standing of an agent in its population, and the bias that it gives to plan scores.
-/

namespace Deliberation

/-- The consistency score of an agent. -/
structure Standing (α : Type) where
  value : α
  /-- Whether the last round could not score the agent; the value is then an older one. -/
  stale : Bool
  /-- Whether the value was ever computed. -/
  computed : Bool

namespace Standing

variable {α : Type} [Scalar α]

/-- The standing before the first round. -/
def pending : Standing α := ⟨0, true, false⟩

/-- What plan scores are multiplied with: `(1 - bias) + bias · value`, or nothing to speak of
without a fresh score. -/
def factor (bias : α) (standing : Option (Standing α)) : α :=
  match standing with
  | some s => if s.stale then 1 else Scalar.mulAdd bias s.value (1 - bias)
  | none => 1

end Standing
end Deliberation
