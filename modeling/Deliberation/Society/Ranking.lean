import Deliberation.Error
import Deliberation.Number.Scalar

/-!
Consistency scores from a matrix of distances.

Each row of the matrix is scaled to sum one and read as the chances of a walk to step from one agent
to another. The walk spends most of its time with those that are far from the others. The share of
time, subtracted from one and scaled again, is the score.
-/

namespace Deliberation

/-- How long the walk goes on. -/
inductive Algorithm (α : Type) where
  /-- A number of steps. -/
  | fixPoint (iterations : Nat)
  /-- Until a step changes less than the tolerance. -/
  | converge (tolerance : α) (maxIterations : Nat)

structure ConsistencyConfig (α : Type) where
  algorithm : Algorithm α
  /-- The chance of staying. -/
  epsilon : α

namespace ConsistencyConfig

variable {α : Type} [Scalar α]

def validate (c : ConsistencyConfig α) : Except ValidationError Unit :=
  if 0 < c.epsilon ∧ c.epsilon < 1 then
    match c.algorithm with
    | .fixPoint 0 | .converge _ 0 => .error (.invalidConfig "iteration count must be positive")
    | .converge tolerance _ =>
      if tolerance < 0 || tolerance == 0 then
        .error (.invalidConfig "tolerance must be positive")
      else .ok ()
    | .fixPoint _ => .ok ()
  else .error (.invalidConfig "epsilon must lie in (0, 1)")

def default : ConsistencyConfig Float := ⟨.fixPoint 8, 0.001⟩

end ConsistencyConfig

namespace Algorithm

def describe : Algorithm Float → String
  | .fixPoint n => "FixPoint \x7b iterations: " ++ toString n ++ " \x7d"
  | .converge tolerance n =>
    "Converge \x7b tolerance: " ++ Decimal.inspectLayout.text tolerance ++
      ", max_iterations: " ++ toString n ++ " \x7d"

end Algorithm

def ConsistencyConfig.describe (c : ConsistencyConfig Float) : String :=
  "ConsistencyConfig \x7b algorithm: " ++ c.algorithm.describe ++ ", epsilon: " ++
    Decimal.inspectLayout.text c.epsilon ++ " \x7d"

namespace Ranking

variable {α : Type} [Scalar α]

/-- The values scaled so that their sizes sum to one. If all are zero they become equal. -/
def normalize (values : List α) : List α :=
  let total := Scalar.sum (values.map Scalar.abs)
  if 0 < total then values.map (· / total)
  else values.map fun _ => 1 / Scalar.ofCount values.length

/-- Whether all distances between different agents are zero. -/
def agrees (matrix : List (List α)) : Bool :=
  matrix.zipIdx.all fun (row, i) => row.zipIdx.all fun (d, j) => i == j || d == 0

/-- The chances of a step: each row scaled, with the chance of staying on the diagonal. -/
def transitions (epsilon : α) (matrix : List (List α)) : List (List α) :=
  matrix.zipIdx.map fun (row, i) => (normalize (row.set i 0)).set i epsilon

/-- The distribution after a step. -/
def advance (matrix : List (List α)) (current : List α) : List α :=
  normalize <|
    (current.zip matrix).foldl
      (fun next entry => next.zipWith (fun target p => target + entry.1 * p) entry.2)
      (current.map fun _ => 0)

/-- The sum of the changes from one distribution to another. -/
def change (next current : List α) : α :=
  Scalar.sum (next.zipWith (fun a b => Scalar.abs (a - b)) current)

/-- The distribution after some steps, fewer if a step changes less than the tolerance. -/
def walk (matrix : List (List α)) (tolerance : Option α) : (steps : Nat) → List α → List α
  | 0, current => current
  | steps + 1, current =>
    let next := advance matrix current
    let settled := match tolerance with
      | some t => decide (change next current < t)
      | none => false
    if settled then next else walk matrix tolerance steps next

/-- The share of time that the walk spends with each agent. -/
def stationary (algorithm : Algorithm α) (matrix : List (List α)) : List α :=
  let start := matrix.map fun _ => 1 / Scalar.ofCount matrix.length
  match algorithm with
  | .fixPoint iterations => walk matrix none iterations start
  | .converge tolerance maxIterations => walk matrix (some tolerance) maxIterations start

/-- The score of each agent. One agent alone has score one. -/
def scores (config : ConsistencyConfig α) (matrix : List (List α)) : List α :=
  match matrix with
  | [] => []
  | [_] => [1]
  | _ =>
    let shares :=
      if agrees matrix then matrix.map fun _ => 0
      else stationary config.algorithm (transitions config.epsilon matrix)
    normalize (shares.map (1 - ·))

/-- Which agents take part in the most failed pairs, if there are any. -/
def worst (n : Nat) (failed : List (Nat × Nat)) : List Nat :=
  let count (i : Nat) : Nat := failed.countP (fun pair => pair.1 == i) +
    failed.countP (fun pair => pair.2 == i)
  let most := (List.range n).foldl (fun m i => max m (count i)) 0
  (List.range n).filter fun i => count i == most

/-- The agents to leave out so that no failed pair is left: time and again those that take part in
the most. Each turn does away with a pair at least, so as many turns as there are pairs suffice. -/
def blameWithin (n : Nat) : (turns : Nat) → (failed : List (Nat × Nat)) → List Nat
  | 0, _ => []
  | turns + 1, failed =>
    match failed with
    | [] => []
    | _ :: _ =>
      let out := worst n failed
      out ++ blameWithin n turns (failed.filter fun pair =>
        !out.contains pair.1 && !out.contains pair.2)

/-- Whether each of `n` agents has to be left out for the failed pairs. -/
def blame (n : Nat) (failed : List (Nat × Nat)) : List Bool :=
  let out := blameWithin n failed.length failed
  (List.range n).map out.contains

end Ranking
end Deliberation
