import Deliberation.Number.Scalar
import Mathlib.Algebra.Order.Field.Basic

/-!
Exact arithmetic with the exceptional values of floating point.

Beside the numbers of an ordered field there are two infinities and a value for what is not a
number. They behave as the exceptional floats do, and no operation on numbers is rounded. There is
one zero only, and it counts as positive when something is divided by it.
-/

namespace Deliberation

inductive Extended (K : Type) where
  | number (x : K)
  | infinite (negative : Bool)
  /-- Not a number. -/
  | undefined

namespace Extended

variable {K : Type} [Field K] [LinearOrder K]

def neg : Extended K → Extended K
  | .number x => .number (-x)
  | .infinite negative => .infinite !negative
  | .undefined => .undefined

/-- Two infinities of different signs have no sum. -/
def add : Extended K → Extended K → Extended K
  | .number x, .number y => .number (x + y)
  | .infinite a, .infinite b => if a = b then .infinite a else .undefined
  | .infinite a, .number _ => .infinite a
  | .number _, .infinite b => .infinite b
  | .undefined, _ => .undefined
  | _, .undefined => .undefined

/-- An infinity times a number: nothing for zero, else an infinity with the sign of the product. -/
def scale (negative : Bool) (x : K) : Extended K :=
  if x = 0 then .undefined else .infinite (negative ^^ decide (x < 0))

def mul : Extended K → Extended K → Extended K
  | .number x, .number y => .number (x * y)
  | .infinite a, .infinite b => .infinite (a ^^ b)
  | .infinite a, .number y => scale a y
  | .number x, .infinite b => scale b x
  | .undefined, _ => .undefined
  | _, .undefined => .undefined

def div : Extended K → Extended K → Extended K
  | .number x, .number y => if y = 0 then scale false x else .number (x / y)
  | .infinite a, .number y => .infinite (a ^^ decide (y < 0))
  | .number _, .infinite _ => .number 0
  | .infinite _, .infinite _ => .undefined
  | .undefined, _ => .undefined
  | _, .undefined => .undefined

/-- What is not a number is neither below nor above anything. -/
def below : Extended K → Extended K → Bool
  | .number x, .number y => x < y
  | .infinite a, .infinite b => a && !b
  | .infinite a, .number _ => a
  | .number _, .infinite b => !b
  | .undefined, _ => false
  | _, .undefined => false

def same : Extended K → Extended K → Bool
  | .number x, .number y => x = y
  | .infinite a, .infinite b => a = b
  | _, _ => false

def isUndefined : Extended K → Bool
  | .undefined => true
  | .number _ | .infinite _ => false

instance : Zero (Extended K) := ⟨.number 0⟩
instance : One (Extended K) := ⟨.number 1⟩
instance : Add (Extended K) := ⟨add⟩
instance : Sub (Extended K) := ⟨fun x y => x.add y.neg⟩
instance : Mul (Extended K) := ⟨mul⟩
instance : Div (Extended K) := ⟨div⟩
instance : LT (Extended K) := ⟨fun x y => x.below y = true⟩
instance : BEq (Extended K) := ⟨same⟩
instance : DecidableLT (Extended K) := fun x y => inferInstanceAs (Decidable (x.below y = true))

instance : Scalar (Extended K) where
  ofCount n := .number n
  abs
    | .number x => .number |x|
    | .infinite _ => .infinite false
    | .undefined => .undefined
  larger x y := if x.isUndefined then y else if x < y then y else x
  smaller x y := if x.isUndefined then y else if y < x then y else x
  mulAdd x y z := x * y + z
  isFinite
    | .number _ => true
    | .infinite _ | .undefined => false
  ranked x := if x.isUndefined then 0 else x
  decidableLT := inferInstance

/-! ### Numbers -/

theorem ofCount_eq (n : Nat) : (Scalar.ofCount n : Extended K) = number (n : K) := rfl

theorem abs_number (x : K) : Scalar.abs (number x) = number |x| := rfl

theorem number_div (x : K) {y : K} (hy : y ≠ 0) : number x / number y = number (x / y) :=
  if_neg hy

omit [LinearOrder K] in
theorem zero_eq : (0 : Extended K) = number 0 := rfl

omit [LinearOrder K] in
theorem one_eq : (1 : Extended K) = number 1 := rfl

omit [LinearOrder K] in
theorem number_add (x y : K) : number x + number y = number (x + y) := rfl

omit [LinearOrder K] in
theorem number_sub (x y : K) : number x - number y = number (x - y) :=
  congrArg number (sub_eq_add_neg x y).symm

theorem number_mul (x y : K) : number x * number y = number (x * y) := rfl

omit [Field K] in
theorem number_lt {x y : K} : number x < number y ↔ x < y :=
  decide_eq_true_iff

/-! ### Sums in any order -/

instance : Std.Commutative (α := Extended K) (· + ·) where
  comm a b := by
    change add a b = add b a
    rcases a with x | (_ | _) | _ <;> rcases b with y | (_ | _) | _ <;> simp [add, add_comm]

instance : Std.Associative (α := Extended K) (· + ·) where
  assoc a b c := by
    change add (add a b) c = add a (add b c)
    rcases a with x | (_ | _) | _ <;> rcases b with y | (_ | _) | _ <;>
      rcases c with z | (_ | _) | _ <;> simp [add, add_assoc]

end Extended
end Deliberation
