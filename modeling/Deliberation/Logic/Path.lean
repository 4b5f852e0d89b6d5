import Deliberation.SortedMap
import Deliberation.Text.Blank

/-!
Hierarchical names.

A path is a list of segments, written with a slash between them. Reading a text trims each segment
and drops the empty ones, so the text `" a // b "` is the path with the segments `a` and `b`.
-/

namespace Deliberation

/-- A hierarchical name. The path without segments is the root. -/
structure Path where
  segments : List String
  deriving DecidableEq, Repr, Inhabited, Hashable

namespace Path

/-- The pieces between slashes; there is always at least one. -/
def splitSlashes : List Char → List (List Char)
  | [] => [[]]
  | c :: rest =>
    match splitSlashes rest with
    | [] => [[c]]
    | piece :: pieces => if c = '/' then [] :: piece :: pieces else (c :: piece) :: pieces

/-- The path that a text spells. -/
def parse (s : String) : Path :=
  ⟨(((splitSlashes s.toList).map Text.trim).filter (· ≠ [])).map String.ofList⟩

/-- The path with the given segments; empty ones are dropped. -/
def ofSegments (segments : List String) : Path :=
  ⟨segments.filter (· ≠ "")⟩

/-- The path with one segment more; an empty segment changes nothing. -/
def push (p : Path) (segment : String) : Path :=
  if segment = "" then p else ⟨p.segments ++ [segment]⟩

def length (p : Path) : Nat :=
  p.segments.length

def isEmpty (p : Path) : Bool :=
  p.segments.isEmpty

/-- The last segment. -/
def suffix? (p : Path) : Option String :=
  p.segments.getLast?

/-- Whether the segments of `start` come first in `p`. -/
def startsWith (p start : Path) : Bool :=
  start.segments.isPrefixOf p.segments

/-- The segments with a slash between them. -/
def render (p : Path) : String :=
  "/".intercalate p.segments

instance : ToString Path := ⟨render⟩

/-- Paths are ordered segment by segment. -/
instance : LT Path := ⟨fun p q => p.segments < q.segments⟩

instance : DecidableLT Path := fun p q =>
  inferInstanceAs (Decidable (p.segments < q.segments))

instance : KeyOrder Path where
  decidableLT := inferInstance
  decidableEq := inferInstance
  irrefl p := List.lt_irrefl p.segments
  trans h₁ h₂ := List.lt_trans h₁ h₂
  connected {p q} hpq hqp := by
    have h : p.segments = q.segments :=
      List.le_antisymm (List.not_lt.1 hqp) (List.not_lt.1 hpq)
    cases p
    cases q
    simpa using h

/-- The paths in order. -/
def sort (paths : List Path) : List Path :=
  paths.mergeSort fun p q => !decide (q < p)

end Path
end Deliberation
