import Deliberation.Belief.Base
import Deliberation.Degree

/-!
Actions: operations from outside that plans can call.

An action sees who calls it, the bindings of the caller and its belief base, which it may change. It
reports through a degree how far it succeeded; an error is for a call that makes no sense.

An action may keep a state of its own or look at the world outside, so the same call may be answered
in another way later. An agent makes at most one call in a tick, so whatever an action keeps or
sees, its answers in a run are a function of the tick and of the call.
-/

namespace Deliberation

/-- What an action sees when it is called. -/
structure ActionContext where
  agent : AgentId
  beliefs : BeliefBase
  bindings : Substitution
  /-- Whether the caller asked for the action to run beside others. -/
  parallel : Bool
  arguments : List Term
  annotations : List Literal

/-- What an action leaves behind. -/
structure ActionResult where
  outcome : Except InstructionError (Graded Bool)
  returns : List Term
  beliefs : BeliefBase

structure Action where
  name : String
  /-- The fewest arguments that it takes. -/
  minimalArguments : Nat
  /-- The answer to a call in the tick with a number. -/
  run : (tick : Nat) → ActionContext → ActionResult

def Action.describe (a : Action) : String :=
  "FnAction \x7b name: " ++ Text.quoted a.name ++ ", minimal_arguments: " ++
    toString a.minimalArguments ++ ", .. \x7d"

/-- Actions by name. -/
structure ActionRegistry where
  actions : SortedMap String Action

namespace ActionRegistry

def empty : ActionRegistry := ⟨.empty⟩

instance : Inhabited ActionRegistry := ⟨empty⟩

def contains (r : ActionRegistry) (name : String) : Bool :=
  r.actions.contains name

def find? (r : ActionRegistry) (name : String) : Option Action :=
  r.actions.find? name

/-- The registry with an action more; its name must be new. -/
def register (r : ActionRegistry) (a : Action) : Except SetupError ActionRegistry :=
  if r.contains a.name then .error (.duplicateAction a.name)
  else .ok ⟨r.actions.insert a.name a⟩

/-- The names of the actions, in order. -/
def names (r : ActionRegistry) : List String :=
  r.actions.entries.map (·.1)

def size (r : ActionRegistry) : Nat :=
  r.actions.size

def isEmpty (r : ActionRegistry) : Bool :=
  r.actions.isEmpty

def describe (r : ActionRegistry) : String :=
  "ActionRegistry \x7b actions: [" ++ ", ".intercalate (r.names.map Text.quoted) ++ "] \x7d"

end ActionRegistry
end Deliberation
