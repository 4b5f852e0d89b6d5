import Deliberation.Agent.Snapshot

/-!
What of an agent's state takes part in a comparison.
-/

namespace Deliberation

inductive Observation where
  /-- Beliefs and running plans. -/
  | all
  /-- The beliefs whose functor starts with one of the paths; without paths, all beliefs. -/
  | beliefs (paths : List Path)
  | running
  deriving DecidableEq, Inhabited

/-- The literals of a snapshot that are looked at. -/
def Observation.view (o : Observation) (s : Snapshot) : List Literal :=
  match o with
  | .all => s.beliefs ++ s.running
  | .beliefs [] => s.beliefs
  | .beliefs paths => s.beliefs.filter fun l => paths.any l.functor.startsWith
  | .running => s.running

end Deliberation
