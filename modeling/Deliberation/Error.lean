import Deliberation.Agent.Id
import Deliberation.Number.Decimal

/-!
What can go wrong, and the messages that say so.

Terms and expressions are held in an error as the text they were shown with.
-/

namespace Deliberation

/-- A value or a configuration was refused. -/
inductive ValidationError where
  | degreeOutOfRange (value : Float)
  | emptyFunctor
  | nonGroundLiteral (literal : String)
  | invalidConfig (reason : String)

/-- An instruction of a plan failed. -/
inductive InstructionError where
  | unboundVariable (name : String)
  | typeMismatch (expected found : String)
  | divisionByZero
  | nonGround (literal : String)
  | unificationFailed (context : String)
  | noApplicablePlan (trigger : String)
  | actionFailed (name reason : String)
  | unknownAction (name : String)
  | argumentCount (name : String) (minimum actual : Nat)
  | testFailed (expression : String) (degree : Float)

/-- An agent could not be set up. -/
inductive SetupError where
  | undefinedAction (plan action : String)
  | duplicateAction (name : String)

/-- The consistency of a population could not be told. -/
inductive ConsistencyError where
  | metricFailed (metric reason : String)
  | unknownAgent (id : AgentId)

/-- A queue between threads of work could not be used. -/
inductive QueueError where
  | full (pool : String) (capacity : Nat)
  | disconnected (pool : String)
  | timeout (milliseconds : Nat)

inductive EngineError where
  | validation (cause : ValidationError)
  | instruction (cause : InstructionError)
  | setup (cause : SetupError)
  | consistency (cause : ConsistencyError)
  | queue (cause : QueueError)
  | internal (message : String)

/-- The name of the cause. -/
def ValidationError.name : ValidationError → String
  | .degreeOutOfRange _ => "FuzzyOutOfRange"
  | .emptyFunctor => "EmptyFunctor"
  | .nonGroundLiteral _ => "NonGroundLiteral"
  | .invalidConfig _ => "InvalidConfig"

def ValidationError.message : ValidationError → String
  | .degreeOutOfRange x =>
    "Fuzzy degree " ++ Decimal.messageLayout.text x ++ " is out of range [0.0, 1.0]"
  | .emptyFunctor => "Functor cannot be empty"
  | .nonGroundLiteral l => "Literal '" ++ l ++ "' is not ground"
  | .invalidConfig reason => "Invalid configuration: " ++ reason

/-- The name of the cause. -/
def InstructionError.name : InstructionError → String
  | .unboundVariable _ => "UnboundVariable"
  | .typeMismatch _ _ => "TypeMismatch"
  | .divisionByZero => "DivisionByZero"
  | .nonGround _ => "NonGround"
  | .unificationFailed _ => "UnificationFailed"
  | .noApplicablePlan _ => "NoApplicablePlan"
  | .actionFailed _ _ => "ActionFailed"
  | .unknownAction _ => "UnknownAction"
  | .argumentCount _ _ _ => "ArgumentCount"
  | .testFailed _ _ => "TestFailed"

def InstructionError.message : InstructionError → String
  | .unboundVariable name => "Variable '" ++ name ++ "' is unbound"
  | .typeMismatch expected found =>
    "Type mismatch: expected " ++ expected ++ ", found '" ++ found ++ "'"
  | .divisionByZero => "Division by zero"
  | .nonGround l => "Literal '" ++ l ++ "' is not ground"
  | .unificationFailed context => "Unification failed: " ++ context
  | .noApplicablePlan trigger => "No applicable plan for '" ++ trigger ++ "'"
  | .actionFailed name reason => "Action '" ++ name ++ "' failed: " ++ reason
  | .unknownAction name => "Action '" ++ name ++ "' is not registered"
  | .argumentCount name minimum actual =>
    "Action '" ++ name ++ "' needs at least " ++ toString minimum ++ " arguments, got " ++
      toString actual
  | .testFailed expression degree =>
    "Test '" ++ expression ++ "' failed with degree " ++ Decimal.messageLayout.text degree

/-- The degree that a failed instruction counts with: a test counts with what it came to. -/
def InstructionError.truth : InstructionError → Float
  | .testFailed _ degree => degree
  | _ => 0

/-- The name of the cause. -/
def SetupError.name : SetupError → String
  | .undefinedAction _ _ => "UndefinedAction"
  | .duplicateAction _ => "DuplicateAction"

def SetupError.message : SetupError → String
  | .undefinedAction plan action =>
    "Plan '" ++ plan ++ "' references undefined action '" ++ action ++ "'"
  | .duplicateAction name => "Action '" ++ name ++ "' is registered twice"

/-- The name of the cause. -/
def ConsistencyError.name : ConsistencyError → String
  | .metricFailed _ _ => "MetricFailed"
  | .unknownAgent _ => "UnknownAgent"

def ConsistencyError.message : ConsistencyError → String
  | .metricFailed metric reason => "Metric '" ++ metric ++ "' failed: " ++ reason
  | .unknownAgent id => "Agent " ++ id.render ++ " is not part of the population"

/-- The name of the cause. -/
def QueueError.name : QueueError → String
  | .full _ _ => "QueueFull"
  | .disconnected _ => "Disconnected"
  | .timeout _ => "Timeout"

def QueueError.message : QueueError → String
  | .full pool capacity =>
    "Queue '" ++ pool ++ "' is full (capacity " ++ toString capacity ++ ")"
  | .disconnected pool => "Channel '" ++ pool ++ "' disconnected"
  | .timeout milliseconds => "Timed out after " ++ toString milliseconds ++ "ms"

namespace EngineError

/-- The name of the cause. -/
def name : EngineError → String
  | .validation e => e.name
  | .instruction e => e.name
  | .setup e => e.name
  | .consistency e => e.name
  | .queue e => e.name
  | .internal _ => "Internal"

def message : EngineError → String
  | .validation e => "Validation error: " ++ e.message
  | .instruction e => "Instruction error: " ++ e.message
  | .setup e => "Fatal configuration error: " ++ e.message
  | .consistency e => "Consistency error: " ++ e.message
  | .queue e => "Runtime error: " ++ e.message
  | .internal text => "Internal error: " ++ text

def isValidation : EngineError → Bool
  | .validation _ => true
  | _ => false

def isInstruction : EngineError → Bool
  | .instruction _ => true
  | _ => false

/-- Whether the error ends the set-up of an agent. -/
def isFatal : EngineError → Bool
  | .setup _ => true
  | _ => false

def isInternal : EngineError → Bool
  | .internal _ => true
  | _ => false

/-- Whether the same call may succeed later. -/
def isRetryable : EngineError → Bool
  | .queue (.full _ _) | .queue (.timeout _) => true
  | _ => false

end EngineError
end Deliberation
