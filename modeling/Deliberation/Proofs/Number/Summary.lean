import Deliberation.Number.Statistics
import Deliberation.Proofs.Lists
import Deliberation.Proofs.Number.Arithmetic
import Mathlib.Algebra.BigOperators.Ring.List
import Mathlib.Algebra.Order.BigOperators.Group.List
import Mathlib.Tactic.FieldSimp
import Mathlib.Tactic.LinearCombination
import Mathlib.Tactic.NormNum
import Mathlib.Tactic.Ring

/-!
What running statistics are the statistics of.

They are corrected with each value, by the mean before it and the mean after it. In exact arithmetic
they are at all times what their definitions give for the values since they were last cleared,
however these were handed in, and so their order does not matter.
-/

namespace Deliberation

variable {K : Type} [Field K]

/-! ### Statistics of a list -/

/-- The mean of some numbers; of none it is zero, as every quotient by zero is. -/
def average (xs : List K) : K :=
  xs.sum / xs.length

/-- The sum of the squared deviations from the mean. -/
def squaredDeviation (xs : List K) : K :=
  (xs.map fun x => (x - average xs) ^ 2).sum

/-- The sample variance; zero for fewer than two numbers. -/
def sampleVariance (xs : List K) : K :=
  if xs.length < 2 then 0 else squaredDeviation xs / (xs.length - 1 : Nat)

theorem sum_sq_sub (xs : List K) (c : K) :
    (xs.map fun x => (x - c) ^ 2).sum =
      (xs.map (· ^ 2)).sum - 2 * c * xs.sum + xs.length * c ^ 2 := by
  induction xs with
  | nil => simp
  | cons x rest ih =>
      simp only [List.map_cons, List.sum_cons, List.length_cons, Nat.cast_add, Nat.cast_one, ih]
      ring

section Ordered

variable [LinearOrder K] [IsStrictOrderedRing K]

theorem length_mul_average (xs : List K) : xs.length * average xs = xs.sum := by
  rcases eq_or_ne xs [] with rfl | hne
  · simp
  · have hlength : (xs.length : K) ≠ 0 := by simpa using hne
    rw [average, mul_div_cancel₀ _ hlength]

theorem average_append_singleton (xs : List K) (x : K) :
    average (xs ++ [x]) = average xs + (x - average xs) / (xs.length + 1 : Nat) := by
  have hcount : ((xs.length + 1 : Nat) : K) ≠ 0 := Nat.cast_ne_zero.2 (Nat.succ_ne_zero _)
  have hsum := length_mul_average xs
  rw [average, List.sum_append, List.sum_singleton, List.length_append,
    List.length_singleton, ← hsum]
  field_simp
  push_cast
  ring

/-- A new value adds the product of its deviations from the mean before it and from the mean after
it. -/
theorem squaredDeviation_append_singleton (xs : List K) (x : K) :
    squaredDeviation (xs ++ [x]) =
      squaredDeviation xs + (x - average xs) * (x - average (xs ++ [x])) := by
  have hbefore := length_mul_average xs
  have hafter := length_mul_average (xs ++ [x])
  simp only [List.length_append, List.length_singleton, List.sum_append, List.sum_singleton,
    Nat.cast_add, Nat.cast_one] at hafter
  rw [squaredDeviation, squaredDeviation, sum_sq_sub, sum_sq_sub]
  simp only [List.length_append, List.length_singleton, List.sum_append, List.sum_singleton,
    Nat.cast_add, Nat.cast_one, List.map_append, List.map_cons, List.map_nil]
  linear_combination (average (xs ++ [x]) - average xs) * (hbefore + hafter)

theorem squaredDeviation_nonneg (xs : List K) : 0 ≤ squaredDeviation xs := by
  refine List.sum_nonneg fun y hy => ?_
  obtain ⟨x, _, rfl⟩ := List.mem_map.1 hy
  exact sq_nonneg _

theorem sampleVariance_nonneg (xs : List K) : 0 ≤ sampleVariance xs := by
  rw [sampleVariance]
  split
  · exact le_rfl
  · exact div_nonneg (squaredDeviation_nonneg xs) (Nat.cast_nonneg _)

end Ordered

/-! ### Statistics that are carried along -/

namespace RunningStatistics

variable [LinearOrder K] {α : Type} [Scalar α] {number : K → α} {s t : RunningStatistics α}
  {xs ys : List K}

/-- The running statistics are those of these numbers. -/
structure Summarizes (number : K → α) (s : RunningStatistics α) (xs : List K) : Prop where
  count : s.count = xs.length
  mean : s.mean = number (average xs)
  squares : s.squares = number (squaredDeviation xs)
  sum : s.sum = number xs.sum
  min : s.min = xs.min?.map number
  max : s.max = xs.max?.map number

theorem summarizes_empty (hexact : Scalar.ExactOn number) : Summarizes number empty [] where
  count := rfl
  mean := by simp [empty, average, hexact.zero]
  squares := by simp [empty, squaredDeviation, hexact.zero]
  sum := by simp [empty, hexact.zero]
  min := rfl
  max := rfl

omit [Scalar α] in
theorem Summarizes.eq (h : Summarizes number s xs) (h' : Summarizes number t xs) : s = t := by
  obtain ⟨_, _, _, _, _, _⟩ := s
  obtain ⟨_, _, _, _, _, _⟩ := t
  simp only [mk.injEq]
  exact ⟨h.count.trans h'.count.symm, h.mean.trans h'.mean.symm, h.squares.trans h'.squares.symm,
    h.sum.trans h'.sum.symm, h.min.trans h'.min.symm, h.max.trans h'.max.symm⟩

omit [Scalar α] in
/-- The order of the numbers does not matter. -/
theorem Summarizes.perm (h : Summarizes number s xs) (hperm : xs.Perm ys) :
    Summarizes number s ys := by
  have haverage : average xs = average ys := by
    rw [average, average, hperm.sum_eq, hperm.length_eq]
  have hmin : xs.min? = ys.min? := by
    ext m
    simp only [List.min?_eq_some_iff, hperm.mem_iff]
  have hmax : xs.max? = ys.max? := by
    ext m
    simp only [List.max?_eq_some_iff, hperm.mem_iff]
  refine ⟨h.count.trans hperm.length_eq, haverage ▸ h.mean, ?_, hperm.sum_eq ▸ h.sum,
    hmin ▸ h.min, hmax ▸ h.max⟩
  rw [h.squares, squaredDeviation, squaredDeviation, haverage, (hperm.map _).sum_eq]

theorem Summarizes.variance [IsStrictOrderedRing K] (hexact : Scalar.ExactOn number)
    (h : Summarizes number s xs) : s.variance = number (sampleVariance xs) := by
  rw [RunningStatistics.variance, sampleVariance, h.count]
  split
  · exact hexact.zero
  · have hcount : ((xs.length - 1 : Nat) : K) ≠ 0 := Nat.cast_ne_zero.2 (by omega)
    have hnonneg : 0 ≤ squaredDeviation xs / ((xs.length - 1 : Nat) : K) :=
      div_nonneg (squaredDeviation_nonneg xs) (Nat.cast_nonneg _)
    rw [h.squares, hexact.ofCount, hexact.div _ _ hcount, hexact.zero, hexact.larger,
      max_eq_left hnonneg]

/-- One more number. -/
theorem Summarizes.add [IsStrictOrderedRing K] (hexact : Scalar.ExactOn number)
    (h : Summarizes number s xs) (x : K) : Summarizes number (s.add (number x)) (xs ++ [x]) := by
  have hcount : ((xs.length + 1 : Nat) : K) ≠ 0 := Nat.cast_ne_zero.2 (Nat.succ_ne_zero _)
  have hmean : (s.add (number x)).mean = number (average (xs ++ [x])) := by
    have hadd : (s.add (number x)).mean =
      s.mean + (number x - s.mean) / Scalar.ofCount (s.count + 1) := rfl
    rw [hadd, h.count, h.mean, hexact.sub, hexact.ofCount, hexact.div _ _ hcount, hexact.add,
      average_append_singleton]
  refine ⟨?_, hmean, ?_, ?_, ?_, ?_⟩
  · rw [List.length_append, List.length_singleton, ← h.count]
    rfl
  · have hadd : (s.add (number x)).squares =
      s.squares + (number x - s.mean) * (number x - (s.add (number x)).mean) := rfl
    rw [hadd, hmean, h.squares, h.mean, hexact.sub, hexact.sub, hexact.mul, hexact.add,
      squaredDeviation_append_singleton]
  · rw [List.sum_append, List.sum_singleton, ← hexact.add, ← h.sum]
    rfl
  · have hmin := h.min
    cases hleast : xs.min? <;>
      simp [RunningStatistics.add, List.min?_append_singleton, hmin, hleast, hexact.smaller]
  · have hmax := h.max
    cases hmost : xs.max? <;>
      simp [RunningStatistics.add, List.max?_append_singleton, hmax, hmost, hexact.larger]

theorem Summarizes.addAll [IsStrictOrderedRing K] (hexact : Scalar.ExactOn number)
    (h : Summarizes number s xs) (ys : List K) :
    Summarizes number (s.addAll (ys.map number)) (xs ++ ys) := by
  induction ys generalizing s xs with
  | nil =>
      rw [List.append_nil]
      exact h
  | cons y rest ih =>
      rw [List.append_cons]
      exact ih (h.add hexact y)

end RunningStatistics

/-! ### Values in any grouping -/

/-- What can be done to running statistics. -/
inductive StatisticsOperation (β : Type) where
  | add (x : β)
  | addAll (xs : List β)
  | clear

namespace StatisticsOperation

def map {β γ : Type} (f : β → γ) : StatisticsOperation β → StatisticsOperation γ
  | .add x => .add (f x)
  | .addAll xs => .addAll (xs.map f)
  | .clear => .clear

/-- The values since the last clearing, with those of one more operation. -/
def keep {β : Type} (xs : List β) : StatisticsOperation β → List β
  | .add x => xs ++ [x]
  | .addAll ys => xs ++ ys
  | .clear => []

/-- The values since the last clearing; the first ones were there from the start. -/
def kept {β : Type} (first : List β) (operations : List (StatisticsOperation β)) : List β :=
  operations.foldl keep first

end StatisticsOperation

namespace RunningStatistics

variable {α : Type} [Scalar α]

def perform (s : RunningStatistics α) : StatisticsOperation α → RunningStatistics α
  | .add x => s.add x
  | .addAll xs => s.addAll xs
  | .clear => empty

def performAll (s : RunningStatistics α) (operations : List (StatisticsOperation α)) :
    RunningStatistics α :=
  operations.foldl perform s

variable [LinearOrder K] [IsStrictOrderedRing K] {number : K → α} {s : RunningStatistics α}
  {xs : List K}

theorem Summarizes.perform (hexact : Scalar.ExactOn number) (h : Summarizes number s xs)
    (op : StatisticsOperation K) :
    Summarizes number (s.perform (op.map number)) (op.keep xs) := by
  cases op with
  | add x => exact h.add hexact x
  | addAll ys => exact h.addAll hexact ys
  | clear => exact summarizes_empty hexact

theorem Summarizes.performAll (hexact : Scalar.ExactOn number) (h : Summarizes number s xs)
    (operations : List (StatisticsOperation K)) :
    Summarizes number (s.performAll (operations.map (·.map number)))
      (StatisticsOperation.kept xs operations) := by
  induction operations generalizing s xs with
  | nil => exact h
  | cons op rest ih => exact ih (h.perform hexact op)

/-- After any operations the statistics are those of the values since the last clearing: their
number, sum, least and greatest, their mean and the sum of their squared deviations from it. The
variance is the sample variance, which is not below zero. And the same values in another order,
however handed in, leave the same statistics. -/
theorem summarizes_kept (hexact : Scalar.ExactOn number) (first : List K)
    (operations : List (StatisticsOperation K)) :
    let s := (ofList (first.map number)).performAll (operations.map (·.map number))
    let xs := StatisticsOperation.kept first operations
    Summarizes number s xs ∧ s.variance = number (sampleVariance xs) ∧ 0 ≤ sampleVariance xs ∧
      ∀ first' operations', (StatisticsOperation.kept first' operations').Perm xs →
        (ofList (first'.map number)).performAll (operations'.map (·.map number)) = s := by
  intro s xs
  have hrun (first : List K) (operations : List (StatisticsOperation K)) :
      Summarizes number ((ofList (first.map number)).performAll (operations.map (·.map number)))
        (StatisticsOperation.kept first operations) :=
    ((summarizes_empty hexact).addAll hexact first).performAll hexact operations
  have hs : Summarizes number s xs := hrun first operations
  refine ⟨hs, hs.variance hexact, sampleVariance_nonneg xs, fun first' operations' hperm => ?_⟩
  exact ((hrun first' operations').perm hperm).eq hs

/-- Eight values in four portions, after others that were cleared away. -/
theorem summarizes_kept_portions :
    let number : ℚ → Extended ℚ := .number
    let operations : List (StatisticsOperation ℚ) :=
      [.add 100, .clear, .addAll [2, 4, 4], .add 4, .addAll [5, 5, 7], .add 9]
    let s := (ofList ([1, 2].map number)).performAll (operations.map (·.map number))
    Scalar.ExactOn number ∧ s.count = 8 ∧ s.mean = number 5 ∧ s.variance = number (32 / 7) ∧
      s.min = some (number 2) ∧ s.max = some (number 9) ∧
      ofList ([9, 7, 5, 5, 4, 4, 4, 2].map number) = s := by
  intro number operations s
  have hexact : Scalar.ExactOn number := Extended.exactOn
  obtain ⟨hs, hvariance, _, horder⟩ := summarizes_kept hexact [1, 2] operations
  have hvalues : StatisticsOperation.kept [1, 2] operations = [2, 4, 4, 4, 5, 5, 7, 9] := rfl
  rw [hvalues] at hs hvariance horder
  have hmean : average ([2, 4, 4, 4, 5, 5, 7, 9] : List ℚ) = 5 := by norm_num [average]
  have hsample : sampleVariance ([2, 4, 4, 4, 5, 5, 7, 9] : List ℚ) = 32 / 7 := by
    norm_num [sampleVariance, squaredDeviation, hmean]
  refine ⟨hexact, hs.count, hmean ▸ hs.mean, hsample ▸ hvariance, ?_, ?_, ?_⟩
  · exact hs.min.trans (by norm_num [List.min?_cons'])
  · exact hs.max.trans (by norm_num [List.max?_cons'])
  · exact horder [9, 7, 5, 5, 4, 4, 4, 2] [] (by decide)

end RunningStatistics
end Deliberation
