import Deliberation.Belief.Event

/-!
Triggers: what makes an agent look for a plan.

On a plan the literal is a pattern; on something that happened it may still have variables, which
are then renamed apart from those of plans.
-/

namespace Deliberation

inductive TriggerKind where
  | addBelief
  | removeBelief
  | updateBelief
  | addGoal
  | removeGoal
  | testGoal
  deriving DecidableEq, Repr, Inhabited

namespace TriggerKind

/-- Whether this is about a goal; a goal without a plan is a failure. -/
def isGoal : TriggerKind → Bool
  | .addGoal | .removeGoal | .testGoal => true
  | .addBelief | .removeBelief | .updateBelief => false

def symbol : TriggerKind → String
  | .addBelief => "+"
  | .removeBelief => "-"
  | .updateBelief => "-+"
  | .addGoal => "+!"
  | .removeGoal => "-!"
  | .testGoal => "+?"

/-- The place of a kind in their order. -/
def rank : TriggerKind → Nat
  | .addBelief => 0
  | .removeBelief => 1
  | .updateBelief => 2
  | .addGoal => 3
  | .removeGoal => 4
  | .testGoal => 5

theorem rank_injective {a b : TriggerKind} (h : a.rank = b.rank) : a = b := by
  cases a <;> cases b <;> simp_all [rank]

def ofChange : BeliefChange → TriggerKind
  | .add => .addBelief
  | .remove => .removeBelief
  | .update => .updateBelief

end TriggerKind

structure Trigger where
  kind : TriggerKind
  literal : Literal
  deriving Inhabited

namespace Trigger

/-- The trigger that a change of beliefs raises. -/
def ofEvent (e : BeliefEvent) : Trigger :=
  ⟨.ofChange e.change, e.literal⟩

def render (t : Trigger) : String :=
  t.kind.symbol ++ t.literal.render

instance : ToString Trigger := ⟨render⟩

end Trigger
end Deliberation
