import Deliberation.Agent.Basic

/-!
The execution of single instructions.

An instruction may change the beliefs, the queue of triggers and the bindings of its frame. It
either lets the frame go on, with a degree, or suspends it for a sub-goal.
-/

namespace Deliberation

/-- What a frame does after an instruction. -/
inductive Step where
  /-- Goes on; the instruction held to this degree. -/
  | proceed (degree : Float)
  /-- Waits for a plan that was chosen for a sub-goal. The goal is in the frame's own variables, the
  trigger has them renamed. -/
  | suspend (goal : Literal) (trigger : Trigger) (selection : Selection Float)

/-- The result of an instruction. -/
structure Executed where
  outcome : Except InstructionError Step
  bindings : Substitution
  agent : Agent

/-- The number that a variable has. -/
def Substitution.numberOf (s : Substitution) (name : String) : Except InstructionError Float :=
  match s.value? name with
  | none | some (.variable _) => .error (.unboundVariable name)
  | some (.number x) => .ok x
  | some t => .error (.typeMismatch "number" t.render)

/-- An instruction that needs a ground literal has no use for another. -/
def Literal.grounded (l : Literal) : Except InstructionError Literal :=
  if l.isGround then .ok l else .error (.nonGround l.render)

/-- A literal that the belief base refused. -/
def refused (e : ValidationError) : InstructionError :=
  .typeMismatch "belief literal" (EngineError.validation e).message

namespace Agent

/-- The instruction failed and changed nothing. -/
def fails (a : Agent) (s : Substitution) (e : InstructionError) : Executed :=
  ⟨.error e, s, a⟩

/-- The instruction held fully. -/
def succeeds (a : Agent) (s : Substitution) : Executed :=
  ⟨.ok (.proceed 1), s, a⟩

/-- Adds a belief. -/
def executeAdd (a : Agent) (s : Substitution) (pattern : Literal) : Executed :=
  match (s.applyLiteral pattern).grounded with
  | .error e => a.fails s e
  | .ok l =>
    match a.beliefs.add l with
    | .error e => a.fails s (refused e)
    | .ok (_, beliefs) => { a with beliefs }.succeeds s

/-- Removes the first belief that unifies with a pattern. That there is none is no failure. -/
def executeRemove (a : Agent) (s : Substitution) (pattern : Literal) : Executed :=
  match a.beliefs.unifyQuery (s.applyLiteral pattern) s with
  | [] => a.succeeds s
  | (found, extended) :: _ => { a with beliefs := (a.beliefs.remove found).2 }.succeeds extended

/-- Replaces the first belief that unifies with a pattern, or adds the new one if none does. -/
def executeUpdate (a : Agent) (s : Substitution) (old new : Literal) : Executed :=
  match a.beliefs.unifyQuery (s.applyLiteral old) s with
  | [] => a.executeAdd s new
  | (previous, extended) :: _ =>
    match (extended.applyLiteral new).grounded with
    | .error e => a.fails s e
    | .ok replacement =>
      match a.beliefs.update previous replacement with
      | .error e => a.fails s (refused e)
      | .ok (_, beliefs) => { a with beliefs }.succeeds extended

/-- Looks for a plan for a sub-goal. -/
def executeAchieve (a : Agent) (s : Substitution) (pattern : Literal) : Executed :=
  let goal := s.applyLiteral pattern
  let (renamed, fresh) := goal.freshen a.fresh
  let a := { a with fresh }
  let t : Trigger := ⟨.addGoal, renamed⟩
  match a.select? t with
  | none => a.fails s (.noApplicablePlan t.render)
  | some selection => ⟨.ok (.suspend goal t selection), s, a⟩

/-- Raises a trigger. One about beliefs has to be ground. -/
def executePost (a : Agent) (s : Substitution) (posted : Trigger) : Executed :=
  let literal := s.applyLiteral posted.literal
  match if posted.kind.isGoal then .ok literal else literal.grounded with
  | .error e => a.fails s e
  | .ok l =>
    let (renamed, fresh) := l.freshen a.fresh
    ({ a with fresh }.enqueue ⟨posted.kind, renamed⟩).succeeds s

/-- Asks the beliefs, or else looks for a plan that answers the question. -/
def executeTestGoal (a : Agent) (s : Substitution) (pattern : Literal) : Executed :=
  let question := s.applyLiteral pattern
  match a.beliefs.unifyQuery question s with
  | (_, extended) :: _ => a.succeeds extended
  | [] =>
    let (renamed, fresh) := question.freshen a.fresh
    let a := { a with fresh }
    let t : Trigger := ⟨.testGoal, renamed⟩
    match a.select? t with
    | some selection => ⟨.ok (.suspend question t selection), s, a⟩
    | none => a.fails s (.unificationFailed ("?" ++ question.render))

def executeAssign (a : Agent) (s : Substitution) (name : String) (e : Expression) : Executed :=
  match e.evaluate a.beliefs s with
  | (.error err, s') => a.fails s' err
  | (.ok v, s') => a.succeeds (s'.assign name v.toTerm)

def executeUnary (a : Agent) (s : Substitution) (name : String) (op : Increment) : Executed :=
  match s.numberOf name with
  | .error e => a.fails s e
  | .ok x =>
    let next := match op with
      | .increment => x + 1
      | .decrement => x - 1
    a.succeeds (s.assign name (.number next))

/-- Compares the degree of an expression with the threshold. -/
def executeTest (a : Agent) (s : Substitution) (e : Expression) : Executed :=
  match e.truth a.beliefs s with
  | (.error err, s') => a.fails s' err
  | (.ok degree, s') =>
    if degree < a.config.successThreshold then a.fails s' (.testFailed e.render degree)
    else ⟨.ok (.proceed degree), s', a⟩

/-- Unifies variables with results, from left to right, as far as there are both. The bindings that
were found before a failure stay. -/
def bindReturns : List (String × Term) → Substitution → Except InstructionError Unit × Substitution
  | [], s => (.ok (), s)
  | (name, value) :: rest, s =>
    match unify (.variable name) value s with
    | .error _ => (.error (.unificationFailed (name ++ " with " ++ value.render)), s)
    | .ok s' => bindReturns rest s'

/-- What an action sees that is called under some bindings. -/
def actionContext (a : Agent) (s : Substitution) (call : ActionCall) : ActionContext where
  agent := a.id
  beliefs := a.beliefs
  bindings := s
  parallel := call.parallel
  arguments := call.arguments.map s.apply
  annotations := call.annotations.map s.applyLiteral

/-- Calls an action. What it did to the beliefs stays, whatever comes of it. -/
def executeAction (a : Agent) (s : Substitution) (call : ActionCall) : Executed :=
  match a.actions.find? call.name with
  | none => a.fails s (.unknownAction call.name)
  | some action =>
    let context := a.actionContext s call
    if context.arguments.length < action.minimalArguments then
      a.fails s (.argumentCount call.name action.minimalArguments context.arguments.length)
    else
      let result := action.run a.cycle context
      let a := { a with beliefs := result.beliefs }
      match result.outcome with
      | .error e => a.fails s e
      | .ok outcome =>
        if !outcome.isSuccess a.config.successThreshold then
          a.fails s (.actionFailed call.name
            ("truth " ++ Decimal.fixed 3 outcome.truth ++ " below threshold"))
        else
          match bindReturns (call.returns.zip result.returns) s with
          | (.error e, s') => a.fails s' e
          | (.ok (), s') => ⟨.ok (.proceed outcome.truth), s', a⟩

/-- Runs one instruction under the bindings of its frame. -/
def execute (a : Agent) (s : Substitution) : Instruction → Executed
  | .addBelief pattern => a.executeAdd s pattern
  | .removeBelief pattern => a.executeRemove s pattern
  | .updateBelief old new => a.executeUpdate s old new
  | .achieve goal => a.executeAchieve s goal
  | .post posted => a.executePost s posted
  | .testGoal pattern => a.executeTestGoal s pattern
  | .assign name e => a.executeAssign s name e
  | .unary name op => a.executeUnary s name op
  | .test e => a.executeTest s e
  | .action call => a.executeAction s call

end Agent
end Deliberation
