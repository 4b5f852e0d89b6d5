import Deliberation.Logic.Term

/-!
The log of changes of a belief base.
-/

namespace Deliberation

inductive BeliefChange where
  | add
  | remove
  | update
  deriving DecidableEq, Repr, Inhabited

def BeliefChange.symbol : BeliefChange → String
  | .add => "+"
  | .remove => "-"
  | .update => "-+"

/-- One change of a belief base. -/
structure BeliefEvent where
  change : BeliefChange
  /-- The belief that came or went; for an update, the one that came. -/
  literal : Literal
  /-- The belief that an update replaced. -/
  previous : Option Literal
  /-- The number of the event; a base counts its events from one on. -/
  sequence : Nat
  deriving Inhabited

namespace BeliefEvent

def render (e : BeliefEvent) : String :=
  "#" ++ toString e.sequence ++ " " ++ e.change.symbol ++ e.literal.render

instance : ToString BeliefEvent := ⟨render⟩

end BeliefEvent
end Deliberation
