import Deliberation.Number.Scalar

/-!
Running statistics: count, mean, variance and extremes, updated one value at a time.

The sum of squared deviations from the mean is carried along and corrected with each value, so no
value has to be kept.
-/

namespace Deliberation

structure RunningStatistics (α : Type) where
  count : Nat
  mean : α
  /-- The sum of squared deviations from the mean. -/
  squares : α
  sum : α
  min : Option α
  max : Option α

namespace RunningStatistics

variable {α : Type} [Scalar α]

def empty : RunningStatistics α := ⟨0, 0, 0, 0, none, none⟩

def add (s : RunningStatistics α) (x : α) : RunningStatistics α :=
  let count := s.count + 1
  let delta := x - s.mean
  let mean := s.mean + delta / Scalar.ofCount count
  { count
    mean
    squares := s.squares + delta * (x - mean)
    sum := s.sum + x
    min := some (match s.min with
      | none => x
      | some m => Scalar.smaller m x)
    max := some (match s.max with
      | none => x
      | some m => Scalar.larger m x) }

def addAll (s : RunningStatistics α) (xs : List α) : RunningStatistics α :=
  xs.foldl add s

def ofList (xs : List α) : RunningStatistics α :=
  empty.addAll xs

/-- The sample variance; zero for fewer than two values. -/
def variance (s : RunningStatistics α) : α :=
  if s.count < 2 then 0
  else Scalar.larger (s.squares / Scalar.ofCount (s.count - 1)) 0

end RunningStatistics

/-- The standard deviation of a sample. -/
def RunningStatistics.deviation (s : RunningStatistics Float) : Float :=
  s.variance.sqrt

end Deliberation
