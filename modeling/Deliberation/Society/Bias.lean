import Deliberation.Number.Decimal
import Deliberation.Plan.Library
import Deliberation.Society.Standing

/-!
Plan scores that are biased by the consistency of the agent.
-/

namespace Deliberation

/-- A scorer whose scores are multiplied with the factor of the agent's standing. A bias outside of
`[0, 1]` is taken as the nearest one inside. -/
def Scorer.biased {σ : Type} [Scalar σ] (bias : σ) (standing? : AgentId → Option (Standing σ))
    (inner : Scorer σ) : Scorer σ := fun p context =>
  inner p context * Standing.factor (Scalar.clampUnit bias) (standing? context.agent)

/-- The text that stands for a biased scorer. -/
def describeBias (bias : Float) : String :=
  "ConsistencyBiasedScorer \x7b bias: " ++
    Decimal.inspectLayout.text (Scalar.clampUnit bias) ++ ", .. \x7d"

end Deliberation
