import Deliberation.Error
import Deliberation.Number.Scalar

/-!
Degrees of truth.

A `Graded` value carries a degree in `[0, 1]`. For a truth value the degree says how far it holds,
and only a comparison with a threshold turns it into success or failure. An `Aggregation` folds
several degrees into one.
-/

namespace Deliberation

/-- Whether a number is a degree. -/
def isDegree (x : Float) : Bool :=
  0 ≤ x && x ≤ 1

/-- The degree from which on something counts as a success, unless said otherwise. -/
def defaultThreshold : Float := 0.5

structure Graded (α : Type) where
  value : α
  degree : Float
  isDegree : isDegree degree = true

namespace Graded

variable {α β : Type}

def of (value : α) (degree : Float) : Except ValidationError (Graded α) :=
  if h : Deliberation.isDegree degree = true then .ok ⟨value, degree, h⟩
  else .error (.degreeOutOfRange degree)

/-- The value with full degree. -/
def full (value : α) : Graded α :=
  ⟨value, 1, by decide⟩

def map (f : α → β) (g : Graded α) : Graded β :=
  ⟨f g.value, g.degree, g.isDegree⟩

/-- How far a graded truth value holds. -/
def truth (g : Graded Bool) : Float :=
  if g.value then g.degree else 1 - g.degree

def isSuccess (g : Graded Bool) (threshold : Float) : Bool :=
  threshold ≤ g.truth

/-- The value, and its degree with two places. -/
def render [ToString α] (g : Graded α) : String :=
  toString g.value ++ " (" ++ Decimal.fixed 2 g.degree ++ ")"

end Graded

/-- A way to fold degrees into one. -/
inductive Aggregation where
  | mean
  | min
  | max
  | product
  deriving DecidableEq, Repr, Inhabited

namespace Aggregation

def name : Aggregation → String
  | .mean => "mean"
  | .min => "min"
  | .max => "max"
  | .product => "product"

/-- The fold of some degrees, brought into `[0, 1]`. No degree at all is full truth. -/
def aggregate (a : Aggregation) (degrees : List Float) : Float :=
  match degrees with
  | [] => 1
  | _ :: _ =>
    Scalar.clampUnit <|
      match a with
      | .mean => Scalar.sum degrees / degrees.length.toFloat
      | .min => degrees.foldl Scalar.smaller (1 / 0)
      | .max => degrees.foldl Scalar.larger (-1 / 0)
      | .product => degrees.foldl (· * ·) 1

end Aggregation
end Deliberation
