import Deliberation.Proofs.Number.Extended
import Deliberation.Proofs.Number.Rational
import Mathlib.Algebra.BigOperators.Group.List.Basic

/-!
Arithmetic that is exact on numbers.

The scalars of a kind may be more than numbers, and they may be rounded elsewhere. They are exact on
the numbers of an ordered field if the operations do there what the field does. A quotient by zero
is left open: whatever holds for all kinds of exact scalars does not depend on any.
-/

namespace Deliberation
namespace Scalar

variable {K : Type} [Field K] [LinearOrder K] {α : Type} [Scalar α] {number : K → α}

/-- On these numbers nothing is rounded. -/
structure ExactOn (number : K → α) : Prop where
  zero : (0 : α) = number 0
  one : (1 : α) = number 1
  add : ∀ x y, number x + number y = number (x + y)
  sub : ∀ x y, number x - number y = number (x - y)
  mul : ∀ x y, number x * number y = number (x * y)
  div : ∀ x y, y ≠ 0 → number x / number y = number (x / y)
  lt_iff : ∀ x y, number x < number y ↔ x < y
  beq_iff : ∀ x y, (number x == number y) = true ↔ x = y
  ofCount : ∀ n : Nat, Scalar.ofCount n = number n
  abs : ∀ x, Scalar.abs (number x) = number |x|
  larger : ∀ x y, Scalar.larger (number x) (number y) = number (max x y)
  smaller : ∀ x y, Scalar.smaller (number x) (number y) = number (min x y)
  mulAdd : ∀ x y z, Scalar.mulAdd (number x) (number y) (number z) = number (x * y + z)

namespace ExactOn

theorem injective (h : ExactOn number) : Function.Injective number := by
  intro x y hxy
  rw [← h.beq_iff, hxy, h.beq_iff]

/-! ### Sums -/

theorem foldl_add (h : ExactOn number) (x : K) (xs : List K) :
    (xs.map number).foldl (· + ·) (number x) = number (x + xs.sum) := by
  induction xs generalizing x with
  | nil => simp
  | cons y rest ih =>
      rw [List.map_cons, List.foldl_cons, h.add, ih, List.sum_cons, add_assoc]

/-- The sum of numbers is the number that is their sum. -/
theorem sum (h : ExactOn number) (xs : List K) : Scalar.sum (xs.map number) = number xs.sum := by
  cases xs with
  | nil => exact h.zero
  | cons x rest => rw [List.map_cons, Scalar.sum, h.foldl_add, List.sum_cons]

end ExactOn
end Scalar

/-! ### Kinds of exact scalars -/

namespace Extended

variable {K : Type} [Field K] [LinearOrder K]

theorem exactOn : Scalar.ExactOn (number : K → Extended K) where
  zero := rfl
  one := rfl
  add := number_add
  sub := number_sub
  mul := number_mul
  div x _ := number_div x
  lt_iff _ _ := number_lt
  beq_iff _ _ := decide_eq_true_iff
  ofCount := ofCount_eq
  abs := abs_number
  larger x y := by
    have hlarger : Scalar.larger (number x) (number y) =
      if number x < number y then number y else number x := rfl
    simp only [hlarger, number_lt, max_def_lt, apply_ite number]
  smaller x y := by
    have hsmaller : Scalar.smaller (number x) (number y) =
      if number y < number x then number y else number x := rfl
    simp only [hsmaller, number_lt, min_comm x, min_def_lt, apply_ite number]
  mulAdd _ _ _ := rfl

end Extended

theorem exactOn_rational : Scalar.ExactOn (id : ℚ → ℚ) where
  zero := rfl
  one := rfl
  add _ _ := rfl
  sub _ _ := rfl
  mul _ _ := rfl
  div _ _ _ := rfl
  lt_iff _ _ := Iff.rfl
  beq_iff _ _ := beq_iff_eq
  ofCount _ := rfl
  abs _ := rfl
  larger x y := (max_def_lt x y).symm
  smaller x y := ((min_comm x y).trans (min_def_lt y x)).symm
  mulAdd _ _ _ := rfl

end Deliberation
