import Deliberation.Logic.Term
import Deliberation.Agent.Id
import Deliberation.Text.Blake3

/-!
What an agent lets others see of its state after a tick.
-/

namespace Deliberation

structure Snapshot where
  agent : AgentId
  name : String
  cycle : Nat
  /-- The beliefs, in the order of their functors. -/
  beliefs : List Literal
  /-- What the frames of all intentions were started for, under their bindings. -/
  running : List Literal

namespace Snapshot

/-- The state before the first tick. -/
def blank (agent : AgentId) (name : String) : Snapshot :=
  ⟨agent, name, 0, [], []⟩

/-- Beliefs and running plans, one to a line. -/
def text (s : Snapshot) : String :=
  String.join (s.beliefs.map fun l => l.render ++ "\n") ++ "--\n" ++
    String.join (s.running.map fun l => l.render ++ "\n")

/-- A digest by which changes are noticed. -/
def fingerprint (s : Snapshot) : String :=
  Blake3.hex s.text

end Snapshot
end Deliberation
