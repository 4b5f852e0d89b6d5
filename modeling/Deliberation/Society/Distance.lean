import Deliberation.Error
import Deliberation.Logic.Term
import Deliberation.Number.Scalar

/-!
Distances between two observed states.

All of them take their arguments as sets: how often and in which order a literal stands there does
not matter. Two states that agree have the symmetric difference zero.
-/

namespace Deliberation

/-- A distance between states; it may fail. -/
structure Metric (α : Type) where
  name : String
  distance : List Literal → List Literal → Except ConsistencyError α

namespace Distance

/-- The different literals of a list. -/
def distinct : List Literal → List Literal
  | [] => []
  | l :: rest => l :: (distinct rest).filter fun m => !(l == m)

/-- The different literals of the first list that the second has not. -/
def missing (left right : List Literal) : List Literal :=
  (distinct left).filter fun l => !right.contains l

/-- The different literals that both lists have. -/
def common (left right : List Literal) : List Literal :=
  (distinct left).filter right.contains

/-- The number of literals that only one of the lists has. -/
def differenceCount (left right : List Literal) : Nat :=
  (missing left right).length + (missing right left).length

/-- The number of literals that at least one of the lists has. -/
def unionCount (left right : List Literal) : Nat :=
  (distinct left).length + (missing right left).length

variable {α : Type} [Scalar α]

/-- `|A △ B|`. -/
def symmetric (left right : List Literal) : α :=
  Scalar.ofCount (differenceCount left right)

/-- `4 · |A ∪ B| + |A △ B| / |A ∩ B|`, or `|A △ B|` if nothing is common. -/
def weighted (left right : List Literal) : α :=
  let difference : α := Scalar.ofCount (differenceCount left right)
  match (common left right).length with
  | 0 => difference
  | n + 1 =>
    Scalar.mulAdd (Scalar.ofCount 4) (Scalar.ofCount (unionCount left right))
      (difference / Scalar.ofCount (n + 1))

end Distance

/-- A container for compressed text. -/
inductive Compression where
  | deflate
  | gzip
  | zlib
  deriving DecidableEq, Repr, Inhabited

namespace Distance

/-- The different texts of the literals in order, one to a line. -/
def canonicalText (literals : List Literal) : String :=
  let lines := (literals.map Literal.render).mergeSort fun a b => !decide (b < a)
  "\n".intercalate lines.eraseDups

variable {α : Type} [Scalar α]

/-- How much of the longer text the shorter one does not explain:
`(C(xy) - min(C(x), C(y))) / max(C(x), C(y))`, where `C` is the compressed length. What cannot be
compressed has no distance, and the reason is handed on. -/
def compression (compressedLength : String → Except String Nat) (left right : List Literal) :
    Except String α := do
  let x := canonicalText left
  let y := canonicalText right
  if x = y then return 0
  let cx ← compressedLength x
  let cy ← compressedLength y
  let joined ← compressedLength (x ++ "\n" ++ y)
  if max cx cy = 0 then return 0
  return Scalar.larger
    ((Scalar.ofCount joined - Scalar.ofCount (min cx cy)) / Scalar.ofCount (max cx cy)) 0

end Distance

namespace Metric

variable {α : Type} [Scalar α]

def symmetric : Metric α :=
  ⟨"symmetric_difference", fun left right => .ok (Distance.symmetric left right)⟩

def weighted : Metric α :=
  ⟨"weighted_difference", fun left right => .ok (Distance.weighted left right)⟩

/-- The distance by compression. The compressor stands outside: `compressedLength` gives the number
of bytes of a text in a container, or the reason why there is none. -/
def compression (compressedLength : Compression → String → Except String Nat) (c : Compression) :
    Metric α where
  name := "compression_distance"
  distance left right :=
    (Distance.compression (compressedLength c) left right).mapError
      (.metricFailed "compression_distance")

end Metric
end Deliberation
