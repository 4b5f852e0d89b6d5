import Deliberation.Plan.Expression
import Deliberation.Plan.Trigger

/-!
Plans: for a trigger, under a guard, a list of instructions.
-/

namespace Deliberation

inductive Increment where
  | increment
  | decrement
  deriving DecidableEq, Repr, Inhabited

/-- A call of an action. -/
structure ActionCall where
  name : String
  arguments : List Term
  /-- The variables that the results are unified with, from left to right. -/
  returns : List String
  parallel : Bool
  annotations : List Literal

inductive Instruction where
  | addBelief (pattern : Literal)
  | removeBelief (pattern : Literal)
  /-- Replaces the first belief that unifies with `old`. -/
  | updateBelief (old new : Literal)
  /-- Suspends the plan until a sub-goal is done. -/
  | achieve (goal : Literal)
  /-- Raises a trigger that is handled on its own. -/
  | post (trigger : Trigger)
  /-- Asks the beliefs, or else pursues the question as a sub-goal. -/
  | testGoal (pattern : Literal)
  | assign (name : String) (expression : Expression)
  | unary (name : String) (operator : Increment)
  /-- Fails if the expression does not hold to the degree of the threshold. -/
  | test (expression : Expression)
  | action (call : ActionCall)

namespace Instruction

def actionName? : Instruction → Option String
  | .action call => some call.name
  | _ => none

def subgoal? : Instruction → Option Literal
  | .achieve goal => some goal
  | _ => none

def render : Instruction → String
  | .addBelief l => "+" ++ l.render
  | .removeBelief l => "-" ++ l.render
  | .updateBelief _ new => "-+" ++ new.render
  | .achieve l => "!" ++ l.render
  | .post t => "post " ++ t.render
  | .testGoal l => "?" ++ l.render
  | .assign name e => name ++ " = " ++ e.render
  | .unary name .increment => name ++ "++"
  | .unary name .decrement => name ++ "--"
  | .test e => e.render
  | .action call => call.name ++ "(" ++ ", ".intercalate (call.arguments.map Term.render) ++ ")"

end Instruction

structure Plan where
  trigger : Trigger
  guard : Option Expression
  body : List Instruction
  /-- Whether the rest of the body is still run after an instruction failed; the plan has failed
  then all the same. -/
  atomic : Bool

namespace Plan

/-- The actions that the body calls. -/
def actions (p : Plan) : List String :=
  p.body.filterMap Instruction.actionName?

/-- The goals that the body pursues. -/
def subgoals (p : Plan) : List Literal :=
  p.body.filterMap Instruction.subgoal?

def render (p : Plan) : String :=
  p.trigger.render ++
    (match p.guard with
     | none => ""
     | some g => " : " ++ g.render) ++
    " <- " ++ "; ".intercalate (p.body.map Instruction.render)

instance : ToString Plan := ⟨render⟩

end Plan

/-- The place of a plan in its library. -/
structure PlanId where
  index : Nat
  deriving DecidableEq, Repr, Inhabited

def PlanId.render (id : PlanId) : String :=
  "plan#" ++ toString id.index

instance : ToString PlanId := ⟨PlanId.render⟩

/-- How often a plan ended in success and in failure. -/
structure PlanStatistic where
  successful : Nat
  failed : Nat
  deriving DecidableEq, Repr, Inhabited

namespace PlanStatistic

def zero : PlanStatistic := ⟨0, 0⟩

def record (s : PlanStatistic) (success : Bool) : PlanStatistic :=
  if success then { s with successful := s.successful + 1 } else { s with failed := s.failed + 1 }

def count (s : PlanStatistic) : Nat :=
  s.successful + s.failed

/-- The share of successes; zero before the first run. -/
def successRatio (s : PlanStatistic) : Float :=
  if s.count = 0 then 0 else s.successful.toFloat / s.count.toFloat

/-- The share of failures; zero before the first run. -/
def failRatio (s : PlanStatistic) : Float :=
  if s.count = 0 then 0 else s.failed.toFloat / s.count.toFloat

end PlanStatistic
end Deliberation
