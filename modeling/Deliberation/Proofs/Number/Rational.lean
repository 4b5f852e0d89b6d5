import Deliberation.Number.Scalar
import Mathlib.Algebra.Order.Field.Rat

/-!
Exact arithmetic: the rational numbers as scalars.

Every rational is a proper number, and `x * y + z` needs no rounding.
-/

namespace Deliberation

instance : Scalar ℚ where
  ofCount n := n
  abs x := |x|
  larger x y := if x < y then y else x
  smaller x y := if y < x then y else x
  mulAdd x y z := x * y + z
  isFinite _ := true
  ranked x := x
  decidableLT := inferInstance

end Deliberation
