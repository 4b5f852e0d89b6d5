import Deliberation.Number.Exact

/-!
The arithmetic that scores, distances and statistics are computed in.

Programs run it on `Float`. The definitions that use it do so through the operations of this class
only, so that they can also be read in exact arithmetic.
-/

namespace Deliberation

class Scalar (α : Type) extends Zero α, One α, Add α, Sub α, Mul α, Div α, LT α, BEq α where
  /-- A count as a number. -/
  ofCount : Nat → α
  abs : α → α
  /-- The larger of two numbers; of two equal ones the first. -/
  larger : α → α → α
  /-- The smaller of two numbers; of two equal ones the first. -/
  smaller : α → α → α
  /-- `x * y + z`, rounded once. -/
  mulAdd : α → α → α → α
  /-- Whether this is a proper number. -/
  isFinite : α → Bool
  /-- The number to rank by: what is not a number counts as zero. -/
  ranked : α → α
  decidableLT : DecidableLT α

namespace Scalar

variable {α : Type} [Scalar α]

instance (priority := low) instDecidableLT : DecidableLT α := Scalar.decidableLT

/-- The sum from left to right, without a start value. -/
def sum : List α → α
  | [] => 0
  | x :: xs => xs.foldl (· + ·) x

/-- The nearest number in `[0, 1]`. -/
def clampUnit (x : α) : α :=
  if x < 0 then 0 else if 1 < x then 1 else x

end Scalar

/-- What is not a number gives way to the other operand. -/
instance : Scalar Float where
  ofCount n := n.toFloat
  abs := Float.abs
  larger x y := if x.isNaN then y else if x < y then y else x
  smaller x y := if x.isNaN then y else if y < x then y else x
  mulAdd := mulAdd
  isFinite := Float.isFinite
  ranked x := if x.isNaN then 0 else x
  decidableLT := inferInstance

end Deliberation
