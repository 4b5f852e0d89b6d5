import Deliberation.Exchange.Json.Parser
import Deliberation.Exchange.Logic
import Deliberation.Plan.Library

/-!
Documents of expressions, triggers, instructions and plans, and plan libraries from bundles.

Expressions and instructions are objects with their kind under `kind` and their content under
`value`. A bundle is a list of plans.
-/

namespace Deliberation

namespace UnaryOperator

def name : UnaryOperator → String
  | .not => "not"
  | .negate => "negate"

def toJson (op : UnaryOperator) : Json :=
  .text op.name

def ofJson? : Json → Option UnaryOperator :=
  Json.choice? ([.not, .negate].map fun op => (op.name, op))

instance : Documented UnaryOperator := ⟨toJson, ofJson?⟩

end UnaryOperator

namespace BinaryOperator

def name : BinaryOperator → String
  | .add => "add"
  | .subtract => "subtract"
  | .multiply => "multiply"
  | .divide => "divide"
  | .modulo => "modulo"
  | .power => "power"
  | .equal => "equal"
  | .notEqual => "not_equal"
  | .less => "less"
  | .lessEqual => "less_equal"
  | .greater => "greater"
  | .greaterEqual => "greater_equal"
  | .and => "and"
  | .or => "or"
  | .xor => "xor"

def all : List BinaryOperator :=
  [.add, .subtract, .multiply, .divide, .modulo, .power, .equal, .notEqual, .less, .lessEqual,
    .greater, .greaterEqual, .and, .or, .xor]

/-- The operator with a name. -/
def ofName? (name : String) : Option BinaryOperator :=
  all.find? fun op => op.name == name

def toJson (op : BinaryOperator) : Json :=
  .text op.name

def ofJson? : Json → Option BinaryOperator :=
  Json.choice? (all.map fun op => (op.name, op))

instance : Documented BinaryOperator := ⟨toJson, ofJson?⟩

end BinaryOperator

namespace Increment

def name : Increment → String
  | .increment => "increment"
  | .decrement => "decrement"

def toJson (op : Increment) : Json :=
  .text op.name

def ofJson? : Json → Option Increment :=
  Json.choice? ([.increment, .decrement].map fun op => (op.name, op))

instance : Documented Increment := ⟨toJson, ofJson?⟩

end Increment

namespace TriggerKind

def name : TriggerKind → String
  | .addBelief => "add_belief"
  | .removeBelief => "remove_belief"
  | .updateBelief => "update_belief"
  | .addGoal => "add_goal"
  | .removeGoal => "remove_goal"
  | .testGoal => "test_goal"

def all : List TriggerKind :=
  [.addBelief, .removeBelief, .updateBelief, .addGoal, .removeGoal, .testGoal]

/-- The kind with a symbol. -/
def ofSymbol? (symbol : String) : Option TriggerKind :=
  all.find? fun kind => kind.symbol == symbol

def toJson (kind : TriggerKind) : Json :=
  .text kind.name

def ofJson? : Json → Option TriggerKind :=
  Json.choice? (all.map fun kind => (kind.name, kind))

instance : Documented TriggerKind := ⟨toJson, ofJson?⟩

end TriggerKind

namespace Trigger

def toJson (t : Trigger) : Json :=
  .object [("kind", t.kind.toJson), ("literal", t.literal.toJson)]

def ofJson? (j : Json) : Option Trigger := do
  let fields ← j.known? ["kind", "literal"]
  let kind ← Json.required? fields "kind" TriggerKind.ofJson?
  let literal ← Json.required? fields "literal" Literal.ofJson?
  return ⟨kind, literal⟩

instance : Documented Trigger := ⟨toJson, ofJson?⟩

end Trigger

namespace Expression

def toJson : Expression → Json
  | .term t => .ofTagged "kind" "value" "term" t.toJson
  | .unary op e =>
    .ofTagged "kind" "value" "unary"
      (.object [("operator", op.toJson), ("operand", toJson e)])
  | .binary op l r =>
    .ofTagged "kind" "value" "binary"
      (.object [("operator", op.toJson), ("left", toJson l), ("right", toJson r)])
  | .belief l => .ofTagged "kind" "value" "belief" l.toJson

/-- Reads an expression whose document is not nested deeper than a bound. -/
def ofJsonWithin? : (bound : Nat) → Json → Option Expression
  | 0, _ => none
  | bound + 1, j => do
    let (name, value) ← j.tagged? "kind" "value"
    match name with
    | "term" => (Term.ofJson? value).map .term
    | "unary" =>
      let fields ← value.known? ["operator", "operand"]
      let op ← Json.required? fields "operator" UnaryOperator.ofJson?
      let e ← Json.required? fields "operand" (ofJsonWithin? bound)
      return .unary op e
    | "binary" =>
      let fields ← value.known? ["operator", "left", "right"]
      let op ← Json.required? fields "operator" BinaryOperator.ofJson?
      let l ← Json.required? fields "left" (ofJsonWithin? bound)
      let r ← Json.required? fields "right" (ofJsonWithin? bound)
      return .binary op l r
    | "belief" => (Literal.ofJson? value).map .belief
    | _ => none

def ofJson? (j : Json) : Option Expression :=
  ofJsonWithin? j.depth j

instance : Documented Expression := ⟨toJson, ofJson?⟩

end Expression

namespace ActionCall

def toJson (c : ActionCall) : Json :=
  .object
    [("name", .text c.name), ("arguments", .list (c.arguments.map Term.toJson)),
      ("returns", .ofTexts c.returns), ("parallel", .bool c.parallel),
      ("annotations", .list (c.annotations.map Literal.toJson))]

def ofJson? (j : Json) : Option ActionCall := do
  let fields ← j.known? ["name", "arguments", "returns", "parallel", "annotations"]
  let name ← Json.required? fields "name" Json.text?
  let arguments ← Json.optional? fields "arguments" [] (Json.list? Term.ofJson?)
  let returns ← Json.optional? fields "returns" [] (Json.list? Json.text?)
  let parallel ← Json.optional? fields "parallel" false Json.bool?
  let annotations ← Json.optional? fields "annotations" [] (Json.list? Literal.ofJson?)
  return { name, arguments, returns, parallel, annotations }

instance : Documented ActionCall := ⟨toJson, ofJson?⟩

end ActionCall

namespace Instruction

def toJson : Instruction → Json
  | .addBelief l => .ofTagged "kind" "value" "add_belief" l.toJson
  | .removeBelief l => .ofTagged "kind" "value" "remove_belief" l.toJson
  | .updateBelief old new =>
    .ofTagged "kind" "value" "update_belief" (.object [("old", old.toJson), ("new", new.toJson)])
  | .achieve l => .ofTagged "kind" "value" "achieve" l.toJson
  | .post t => .ofTagged "kind" "value" "post" t.toJson
  | .testGoal l => .ofTagged "kind" "value" "test_goal" l.toJson
  | .assign x e =>
    .ofTagged "kind" "value" "assign" (.object [("variable", .text x), ("expression", e.toJson)])
  | .unary x op =>
    .ofTagged "kind" "value" "unary" (.object [("variable", .text x), ("operator", op.toJson)])
  | .test e => .ofTagged "kind" "value" "test" e.toJson
  | .action call => .ofTagged "kind" "value" "action" call.toJson

def ofJson? (j : Json) : Option Instruction := do
  let (name, value) ← j.tagged? "kind" "value"
  match name with
  | "add_belief" => (Literal.ofJson? value).map .addBelief
  | "remove_belief" => (Literal.ofJson? value).map .removeBelief
  | "update_belief" =>
    let fields ← value.known? ["old", "new"]
    let old ← Json.required? fields "old" Literal.ofJson?
    let new ← Json.required? fields "new" Literal.ofJson?
    return .updateBelief old new
  | "achieve" => (Literal.ofJson? value).map .achieve
  | "post" => (Trigger.ofJson? value).map .post
  | "test_goal" => (Literal.ofJson? value).map .testGoal
  | "assign" =>
    let fields ← value.known? ["variable", "expression"]
    let x ← Json.required? fields "variable" Json.text?
    let e ← Json.required? fields "expression" Expression.ofJson?
    return .assign x e
  | "unary" =>
    let fields ← value.known? ["variable", "operator"]
    let x ← Json.required? fields "variable" Json.text?
    let op ← Json.required? fields "operator" Increment.ofJson?
    return .unary x op
  | "test" => (Expression.ofJson? value).map .test
  | "action" => (ActionCall.ofJson? value).map .action
  | _ => none

instance : Documented Instruction := ⟨toJson, ofJson?⟩

end Instruction

namespace Plan

/-- A guard is left out if there is none. -/
def toJson (p : Plan) : Json :=
  .object <|
    [("trigger", p.trigger.toJson)] ++ Json.optionalField "guard" Expression.toJson p.guard ++
      [("body", .list (p.body.map Instruction.toJson)), ("atomic", .bool p.atomic)]

def ofJson? (j : Json) : Option Plan := do
  let fields ← j.known? ["trigger", "guard", "body", "atomic"]
  let trigger ← Json.required? fields "trigger" Trigger.ofJson?
  let guard ← Json.optional? fields "guard" none (Json.option? Expression.ofJson?)
  let body ← Json.optional? fields "body" [] (Json.list? Instruction.ofJson?)
  let atomic ← Json.optional? fields "atomic" false Json.bool?
  return { trigger, guard, body, atomic }

instance : Documented Plan := ⟨toJson, ofJson?⟩

end Plan

namespace PlanId

def toJson (id : PlanId) : Json :=
  .whole id.index

def ofJson? (j : Json) : Option PlanId :=
  j.nat?.map PlanId.mk

instance : Documented PlanId := ⟨toJson, ofJson?⟩

end PlanId

namespace PlanStatistic

def toJson (s : PlanStatistic) : Json :=
  .object [("successful", .whole s.successful), ("failed", .whole s.failed)]

def ofJson? (j : Json) : Option PlanStatistic := do
  let fields ← j.known? ["successful", "failed"]
  let successful ← Json.required? fields "successful" Json.nat?
  let failed ← Json.required? fields "failed" Json.nat?
  return { successful, failed }

instance : Documented PlanStatistic := ⟨toJson, ofJson?⟩

end PlanStatistic

namespace PlanLibrary

/-- The document of all plans, in the order of their ids. -/
def toJson (lib : PlanLibrary) : Json :=
  .list (lib.plans.map Plan.toJson)

def ofJson? (j : Json) : Option PlanLibrary :=
  (j.list? Plan.ofJson?).map ofPlans

/-- The library of the plans in the text of a bundle. -/
def ofBundle (text : String) : Except EngineError PlanLibrary :=
  match (Json.parse text).bind ofJson? with
  | some lib => .ok lib
  | none => .error (.validation (.invalidConfig "plan bundle: not a list of plans"))

instance : Documented PlanLibrary := ⟨toJson, ofJson?⟩

end PlanLibrary
end Deliberation
