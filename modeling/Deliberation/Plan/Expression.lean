import Deliberation.Belief.Base

/-!
Expressions of guards and plan bodies.

An expression is evaluated under bindings and a belief base. Asking for a belief binds the variables
of the question to the first belief that matches, and there is no way back to a second one. The
right side of an operator sees what the left side bound, and what was bound before an error stays
bound.
-/

namespace Deliberation

inductive Value where
  | number (x : Float)
  | boolean (b : Bool)
  | term (t : Term)

namespace Value

/-- The value of a term: numbers and truth values stand for themselves. -/
def ofTerm (t : Term) : Value :=
  match t with
  | .number x => .number x
  | t =>
    match t.boolean? with
    | some b => .boolean b
    | none => .term t

def toTerm : Value → Term
  | .number x => .number x
  | .boolean b => .boolean b
  | .term t => t

def render : Value → String
  | .number x => numberText x
  | .boolean b => if b then "true" else "false"
  | .term t => t.render

/-- Equality of values; numbers are compared as numbers, so what is no number equals nothing. -/
def beq : Value → Value → Bool
  | .number x, .number y => x == y
  | .boolean a, .boolean b => a == b
  | .term t, .term u => t == u
  | _, _ => false

instance : BEq Value := ⟨beq⟩

def toNumber : Value → Except InstructionError Float
  | .number x => .ok x
  | v => .error (.typeMismatch "number" v.render)

def toBoolean : Value → Except InstructionError Bool
  | .boolean b => .ok b
  | v => .error (.typeMismatch "boolean" v.render)

/-- How far a value holds: a truth value fully or not at all, a number in `[0, 1]` to that
degree. -/
def truth : Value → Except InstructionError Float
  | .boolean b => .ok (if b then 1 else 0)
  | .number x =>
    if 0 ≤ x && x ≤ 1 then .ok x
    else .error (.typeMismatch "truth value" (Value.number x).render)
  | v => .error (.typeMismatch "truth value" v.render)

end Value

inductive UnaryOperator where
  | not
  | negate
  deriving DecidableEq, Repr, Inhabited

inductive BinaryOperator where
  | add
  | subtract
  | multiply
  | divide
  | modulo
  | power
  | equal
  | notEqual
  | less
  | lessEqual
  | greater
  | greaterEqual
  | and
  | or
  | xor
  deriving DecidableEq, Repr, Inhabited

namespace UnaryOperator

def symbol : UnaryOperator → String
  | .not => "~"
  | .negate => "-"

def apply (op : UnaryOperator) (v : Value) : Except InstructionError Value :=
  match op with
  | .not => return .boolean (!(← v.toBoolean))
  | .negate => return .number (-(← v.toNumber))

end UnaryOperator

namespace BinaryOperator

def symbol : BinaryOperator → String
  | .add => "+"
  | .subtract => "-"
  | .multiply => "*"
  | .divide => "/"
  | .modulo => "%"
  | .power => "**"
  | .equal => "=="
  | .notEqual => "\\=="
  | .less => "<"
  | .lessEqual => "<="
  | .greater => ">"
  | .greaterEqual => ">="
  | .and => "&&"
  | .or => "||"
  | .xor => "^"

/-- The result if the left side already decides it. -/
def decidedBy (op : BinaryOperator) (left : Value) : Except InstructionError (Option Value) :=
  match op with
  | .and => return if ← left.toBoolean then none else some (.boolean false)
  | .or => return if ← left.toBoolean then some (.boolean true) else none
  | _ => return none

/-- Both sides as numbers, the left one first. -/
def onNumbers (f : Float → Float → Value) (left right : Value) : Except InstructionError Value := do
  let x ← left.toNumber
  let y ← right.toNumber
  return f x y

/-- Both sides as numbers, the divisor first. -/
def onQuotient (f : Float → Float → Float) (left right : Value) :
    Except InstructionError Value := do
  let divisor ← right.toNumber
  if divisor == 0 then throw .divisionByZero
  let x ← left.toNumber
  return .number (f x divisor)

/-- The result for the values of both sides. -/
def apply (op : BinaryOperator) (left right : Value) : Except InstructionError Value :=
  match op with
  | .add => onNumbers (fun x y => .number (x + y)) left right
  | .subtract => onNumbers (fun x y => .number (x - y)) left right
  | .multiply => onNumbers (fun x y => .number (x * y)) left right
  | .divide => onQuotient (· / ·) left right
  | .modulo => onQuotient euclideanRemainder left right
  | .power => onNumbers (fun x y => .number (Float.pow x y)) left right
  | .equal => return .boolean (left == right)
  | .notEqual => return .boolean (!(left == right))
  | .less => onNumbers (fun x y => .boolean (x < y)) left right
  | .lessEqual => onNumbers (fun x y => .boolean (x ≤ y)) left right
  | .greater => onNumbers (fun x y => .boolean (y < x)) left right
  | .greaterEqual => onNumbers (fun x y => .boolean (y ≤ x)) left right
  | .and | .or => return .boolean (← right.toBoolean)
  | .xor => do
    let a ← left.toBoolean
    let b ← right.toBoolean
    return .boolean (a != b)

end BinaryOperator

inductive Expression where
  | term (t : Term)
  | unary (operator : UnaryOperator) (operand : Expression)
  | binary (operator : BinaryOperator) (left right : Expression)
  /-- Whether some belief unifies with a literal. -/
  | belief (pattern : Literal)
  deriving Inhabited

namespace Expression

/-- The value of an expression, and the bindings after it was found or an error came up. -/
def evaluate (beliefs : BeliefBase) :
    Expression → Substitution → Except InstructionError Value × Substitution
  | .term t, s =>
    match s.apply t with
    | .variable name => (.error (.unboundVariable name), s)
    | resolved => (.ok (.ofTerm resolved), s)
  | .unary op operand, s =>
    match operand.evaluate beliefs s with
    | (.error e, s₁) => (.error e, s₁)
    | (.ok v, s₁) => (op.apply v, s₁)
  | .binary op left right, s =>
    match left.evaluate beliefs s with
    | (.error e, s₁) => (.error e, s₁)
    | (.ok l, s₁) =>
      match op.decidedBy l with
      | .error e => (.error e, s₁)
      | .ok (some v) => (.ok v, s₁)
      | .ok none =>
        match right.evaluate beliefs s₁ with
        | (.error e, s₂) => (.error e, s₂)
        | (.ok r, s₂) => (op.apply l r, s₂)
  | .belief pattern, s =>
    match beliefs.unifyQuery pattern s with
    | [] => (.ok (.boolean false), s)
    | (_, extended) :: _ => (.ok (.boolean true), extended)

/-- How far an expression holds, and the bindings afterwards. -/
def truth (beliefs : BeliefBase) (e : Expression) (s : Substitution) :
    Except InstructionError Float × Substitution :=
  match e.evaluate beliefs s with
  | (.error err, s') => (.error err, s')
  | (.ok v, s') => (v.truth, s')

def render : Expression → String
  | .term t => t.render
  | .unary op operand => op.symbol ++ "(" ++ operand.render ++ ")"
  | .binary op left right => "(" ++ left.render ++ " " ++ op.symbol ++ " " ++ right.render ++ ")"
  | .belief pattern => pattern.render

instance : ToString Expression := ⟨render⟩

end Expression
end Deliberation
