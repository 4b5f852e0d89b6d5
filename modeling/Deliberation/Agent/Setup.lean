import Deliberation.Agent.Cycle

/-!
Setting an agent up.
-/

namespace Deliberation

/-- What an agent is made from. -/
structure AgentSpec where
  id : AgentId
  config : AgentConfig
  library : PlanLibrary
  actions : ActionRegistry
  scorer : Scorer Float
  hearing : Option Hearing
  /-- The beliefs at the start. -/
  beliefs : List Literal
  /-- The goals at the start. -/
  goals : List Literal

namespace AgentSpec

/-- The first action that a plan calls and the registry does not have. -/
def undefinedAction? (spec : AgentSpec) : Option (Plan × String) :=
  spec.library.plans.findSome? fun p =>
    (p.actions.find? fun name => !spec.actions.contains name).map (p, ·)

/-- The agent before it has any goals. -/
def blank (spec : AgentSpec) (beliefs : BeliefBase) : Agent where
  id := spec.id
  config := spec.config
  library := spec.library
  actions := spec.actions
  scorer := spec.scorer
  hearing := spec.hearing
  beliefs
  pending := []
  frames := .empty
  intentions := []
  nextIntention := 0
  statistics := List.replicate spec.library.size .zero
  reports := []
  cycle := 0
  sleep := none
  terminated := false
  fresh := 0
  snapshot := .blank spec.id spec.config.name

/-- Sets an agent up: the settings have to be in range, every action that a plan calls has to be
registered, and the first beliefs have to be ground. -/
def build (spec : AgentSpec) : Except EngineError Agent := do
  spec.config.validate.mapError .validation
  match spec.undefinedAction? with
  | some (p, action) => throw (.setup (.undefinedAction p.trigger.render action))
  | none => pure ()
  let beliefs ← spec.beliefs.foldlM
    (fun (b : BeliefBase) l => ((b.add l).map (·.2)).mapError EngineError.validation)
    BeliefBase.empty
  spec.goals.foldlM
    (fun (a : Agent) goal => (a.achieve goal).mapError EngineError.validation) (spec.blank beliefs)

end AgentSpec
end Deliberation
