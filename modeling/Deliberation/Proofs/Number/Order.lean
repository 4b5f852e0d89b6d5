import Deliberation.Number.Scalar
import Mathlib.Algebra.Order.Group.Int
import Mathlib.Data.Prod.Lex

/-!
The order of the numbers that scores are ranked by.

Floats that are not numbers are neither below nor above anything, so `<` does not order all floats.
The others stand in a line: between the infinities by sign, by exponent and by mantissa, with both
zeros at one place. Ranking puts what is not a number at the place of zero, and then every two
floats compare as their places do.
-/

namespace Deliberation

open Float.Model

/-- The place of a float in the line of numbers; what is not a number stands at zero. -/
def UnpackedFloat.place : UnpackedFloat → ℤ ×ₗ ℤ ×ₗ ℤ
  | .infinity .negative => toLex (-2, toLex (0, 0))
  | .finite .negative mantissa exponent _ => toLex (-1, toLex (-exponent, -mantissa))
  | .zero _ | .notANumber => toLex (0, toLex (0, 0))
  | .finite .positive mantissa exponent _ => toLex (1, toLex (exponent, mantissa))
  | .infinity .positive => toLex (2, toLex (0, 0))

theorem compare_then_eq_lt {e f : ℤ} {m n : ℕ} :
    (compare e f).then (compare m n) = .lt ↔ e < f ∨ e = f ∧ m < n := by
  rw [Ordering.then_eq_lt, compare_lt_iff_lt, compare_eq_iff_eq, compare_lt_iff_lt]

theorem compare_then_eq_gt {e f : ℤ} {m n : ℕ} :
    (compare e f).then (compare m n) = .gt ↔ f < e ∨ e = f ∧ n < m := by
  rw [Ordering.then_eq_gt, compare_gt_iff_gt, compare_eq_iff_eq, compare_gt_iff_gt]

theorem UnpackedFloat.lt_iff_of_compare {a b : UnpackedFloat} {o : Ordering}
    (h : a.compare b = some o) : a.lt b = true ↔ o = .lt := by
  change (a.compare b == some .lt) = true ↔ o = .lt
  rw [h, beq_iff_eq, Option.some.injEq]

theorem UnpackedFloat.ne_notANumber {a : UnpackedFloat} (h : a.isNaN = false) :
    a ≠ .notANumber := by
  rintro rfl
  exact Bool.eq_false_iff.1 h rfl

theorem UnpackedFloat.lt_iff {a b : UnpackedFloat} (ha : a.isNaN = false) (hb : b.isNaN = false) :
    a.lt b = true ↔ place a < place b := by
  replace ha := ne_notANumber ha
  replace hb := ne_notANumber hb
  rcases a with (_ | _) | _ | _ | ⟨_ | _, m, e, _⟩ <;>
    rcases b with (_ | _) | _ | _ | ⟨_ | _, n, f, _⟩ <;>
    try contradiction
  all_goals
    refine (lt_iff_of_compare rfl).trans ?_
    change _ ↔ toLex (_, toLex (_, _)) < toLex (_, toLex (_, _))
    simp [Prod.Lex.toLex_lt_toLex, compare_then_eq_lt, compare_then_eq_gt]
  -- Of the two infinities, which compare by their signs, one is below the other.
  rfl

/-- The place of a float. -/
def place (x : Float) : ℤ ×ₗ ℤ ×ₗ ℤ :=
  UnpackedFloat.place x.toModel.unpack

theorem isNaN_ranked (x : Float) : (Scalar.ranked x).isNaN = false := by
  by_cases hx : x.isNaN = true
  · have hzero : Scalar.ranked x = 0 := if_pos hx
    rw [hzero]
    decide +kernel
  · have hsame : Scalar.ranked x = x := if_neg hx
    rw [hsame]
    simpa using hx

/-- Ranked floats compare as their places. -/
theorem ranked_lt_ranked_iff {x y : Float} :
    Scalar.ranked x < Scalar.ranked y ↔ place (Scalar.ranked x) < place (Scalar.ranked y) := by
  rw [place, place, ← UnpackedFloat.lt_iff (isNaN_ranked x) (isNaN_ranked y)]
  exact decide_eq_true_iff

end Deliberation
