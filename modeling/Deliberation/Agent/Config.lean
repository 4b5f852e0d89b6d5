import Deliberation.Degree

/-!
The settings of an agent.
-/

namespace Deliberation

structure AgentConfig where
  name : String
  /-- The fold for plan scores and for the degrees of a frame. -/
  aggregation : Aggregation
  /-- The degree from which on tests, guards and actions count as success. -/
  successThreshold : Float
  /-- How many pending triggers are nothing unusual. None is ever dropped. -/
  maxPendingEvents : Nat
  /-- How many reports are kept; the oldest go first. -/
  reportCapacity : Nat
  /-- The weight of the consistency score in plan scores. -/
  consistencyBias : Float

namespace AgentConfig

def default : AgentConfig where
  name := "agent"
  aggregation := .mean
  successThreshold := defaultThreshold
  maxPendingEvents := 1024
  reportCapacity := 256
  consistencyBias := 0.5

instance : Inhabited AgentConfig := ⟨default⟩

def validate (c : AgentConfig) : Except ValidationError Unit :=
  if !isDegree c.successThreshold then
    .error (.invalidConfig
      ("success_threshold " ++ Decimal.messageLayout.text c.successThreshold ++ " not in [0, 1]"))
  else if !isDegree c.consistencyBias then
    .error (.invalidConfig
      ("consistency_bias " ++ Decimal.messageLayout.text c.consistencyBias ++ " not in [0, 1]"))
  else if c.reportCapacity = 0 then
    .error (.invalidConfig "report_capacity must be positive")
  else .ok ()

end AgentConfig
end Deliberation
