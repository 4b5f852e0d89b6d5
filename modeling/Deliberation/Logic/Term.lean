import Deliberation.Logic.Path
import Deliberation.Number.Decimal
import Deliberation.Text.Quoted

/-!
Terms and literals of the agent language.

A term is an atom, a number, a text, a sequence, a literal or a variable. A literal has a path as
its functor, may be negated, and carries arguments and annotations. Two literals are equal if
functor, negation and arguments are; `Literal.identical` also compares the annotations.
-/

namespace Deliberation

mutual

inductive Term where
  | atom (name : String)
  | number (value : Float)
  | text (content : String)
  | sequence (items : List Term)
  | literal (content : Literal)
  | variable (name : String)
  /-- A variable that carries its value. -/
  | bound (name : String) (value : Term)

structure Literal where
  functor : Path
  negated : Bool
  arguments : List Term
  annotations : List Literal

end

instance : Inhabited Term := ⟨.atom ""⟩

instance : Inhabited Literal := ⟨⟨⟨[]⟩, false, [], []⟩⟩

/-- The name of the variable that stands for anything and is never bound. -/
def anonymousName : String := "_"

/-- The word by which numbers are compared: zero has one sign, and there is one non-number. -/
def numberKey (x : Float) : UInt64 :=
  if x == 0 then 0 else if x.isNaN then 0x7ff8000000000000 else x.toBits

/-! ### Equality -/

mutual

/-- Equality of terms; annotations do not count. -/
def Term.beq : Term → Term → Bool
  | .atom a, .atom b => a == b
  | .number a, .number b => numberKey a == numberKey b
  | .text a, .text b => a == b
  | .sequence xs, .sequence ys => Term.beqAll xs ys
  | .literal l, .literal m => Literal.beq l m
  | .variable x, .variable y => x == y
  | .bound x v, .bound y w => x == y && Term.beq v w
  | _, _ => false

/-- Equality of two lists of terms. -/
def Term.beqAll : List Term → List Term → Bool
  | [], [] => true
  | x :: xs, y :: ys => Term.beq x y && Term.beqAll xs ys
  | _, _ => false

/-- Equality of literals: functor, negation and arguments. -/
def Literal.beq : Literal → Literal → Bool
  | ⟨f, n, xs, _⟩, ⟨g, m, ys, _⟩ => f == g && n == m && Term.beqAll xs ys

end

instance : BEq Term := ⟨Term.beq⟩

instance : BEq Literal := ⟨Literal.beq⟩

mutual

/-- Equality that compares the annotations too: there are equally many, and each of the first
literal's has one identical to it in the second. -/
def Literal.identical : Literal → Literal → Bool
  | ⟨f, n, xs, annotations⟩, other =>
    Literal.beq ⟨f, n, xs, []⟩ other && annotations.length == other.annotations.length &&
      Literal.eachIdenticalIn annotations other.annotations

/-- Whether each literal of a list has one identical to it in another list. -/
def Literal.eachIdenticalIn : List Literal → List Literal → Bool
  | [], _ => true
  | a :: rest, others => others.any (Literal.identical a) && Literal.eachIdenticalIn rest others

end

/-! ### Hashing -/

/-- One item of the data that a hash is computed from. -/
inductive HashItem where
  | word (value : UInt64)
  | flag (value : Bool)
  | text (value : String)
  deriving DecidableEq, Hashable

def Path.hashItems (p : Path) : List HashItem :=
  .word p.segments.length.toUInt64 :: p.segments.map .text

mutual

/-- The data that stands for a term in a hash. -/
def Term.hashItems : Term → List HashItem
  | .atom a => [.word 0, .text a]
  | .number x => [.word 1, .word (numberKey x)]
  | .text s => [.word 2, .text s]
  | .sequence xs => .word 3 :: .word xs.length.toUInt64 :: Term.hashItemsAll xs
  | .literal l => .word 4 :: Literal.hashItems l
  | .variable x => [.word 5, .text x, .word 0]
  | .bound x v => .word 5 :: .text x :: .word 1 :: Term.hashItems v

def Term.hashItemsAll : List Term → List HashItem
  | [] => []
  | x :: xs => Term.hashItems x ++ Term.hashItemsAll xs

/-- The data that stands for a literal in a hash; annotations do not take part. -/
def Literal.hashItems : Literal → List HashItem
  | ⟨f, n, xs, _⟩ =>
    f.hashItems ++ .flag n :: .word xs.length.toUInt64 :: Term.hashItemsAll xs

end

instance : Hashable Term := ⟨fun t => hash t.hashItems⟩

instance : Hashable Literal := ⟨fun l => hash l.hashItems⟩

/-! ### Variables -/

mutual

/-- Whether no variable without a value occurs, annotations included. -/
def Term.isGround : Term → Bool
  | .atom _ | .number _ | .text _ => true
  | .sequence xs => Term.allGround xs
  | .literal l => Literal.isGround l
  | .variable _ => false
  | .bound _ v => Term.isGround v

def Term.allGround : List Term → Bool
  | [] => true
  | x :: xs => Term.isGround x && Term.allGround xs

def Literal.isGround : Literal → Bool
  | ⟨_, _, xs, annotations⟩ => Term.allGround xs && Literal.allGround annotations

def Literal.allGround : List Literal → Bool
  | [] => true
  | a :: rest => Literal.isGround a && Literal.allGround rest

end

mutual

/-- The names of the variables without a value, one for each occurrence outside annotations; the
anonymous variable has none. -/
def Term.names : Term → List String
  | .atom _ | .number _ | .text _ => []
  | .sequence xs => Term.namesAll xs
  | .literal l => Literal.names l
  | .variable x => if x = anonymousName then [] else [x]
  | .bound _ v => Term.names v

def Term.namesAll : List Term → List String
  | [] => []
  | x :: xs => Term.names x ++ Term.namesAll xs

def Literal.names : Literal → List String
  | ⟨_, _, xs, _⟩ => Term.namesAll xs

end

namespace Term

def boolean (b : Bool) : Term :=
  .atom (if b then "true" else "false")

/-- The names of the variables without a value, in the order of their first occurrence. -/
def freeNames (t : Term) : List String :=
  t.names.eraseDups

def number? : Term → Option Float
  | .number x => some x
  | _ => none

def literal? : Term → Option Literal
  | .literal l => some l
  | _ => none

/-- The truth values are the atoms `true` and `false`. -/
def boolean? : Term → Option Bool
  | .atom "true" => some true
  | .atom "false" => some false
  | _ => none

/-- The name of the kind of term. -/
def kind : Term → String
  | .atom _ => "atom"
  | .number _ => "number"
  | .text _ => "text"
  | .sequence _ => "sequence"
  | .literal _ => "literal"
  | .variable _ | .bound _ _ => "variable"

/-- Whether this is the anonymous variable without a value. -/
def isAnonymous : Term → Bool
  | .variable x => x = anonymousName
  | _ => false

end Term

namespace Literal

/-- The positive literal with the functor that a text spells. -/
def of (functor : String) (arguments : List Term) : Literal :=
  ⟨Path.parse functor, false, arguments, []⟩

/-- A literal without arguments. -/
def atom (functor : String) : Literal :=
  of functor []

def negate (l : Literal) : Literal :=
  { l with negated := !l.negated }

/-- The literal with an annotation more, unless it has an identical one. -/
def annotate (l note : Literal) : Literal :=
  if l.annotations.any (·.identical note) then l
  else { l with annotations := l.annotations ++ [note] }

def arity (l : Literal) : Nat :=
  l.arguments.length

/-- The first annotation whose functor ends in `name`. -/
def noteNamed? (l : Literal) (name : String) : Option Literal :=
  l.annotations.find? fun a => a.functor.suffix? == some name

/-- The names of the variables without a value in the arguments, in the order of their first
occurrence. -/
def freeNames (l : Literal) : List String :=
  l.names.eraseDups

/-- Whether functor, negation and arity agree. -/
def sameSignature (l m : Literal) : Bool :=
  l.functor == m.functor && l.negated == m.negated && l.arity == m.arity

end Literal

/-! ### Text -/

/-- Numbers are shown without the sign of zero. -/
def numberText (x : Float) : String :=
  if x == 0 then "0" else Decimal.messageLayout.text x

mutual

def Term.render : Term → String
  | .atom a => a
  | .number x => numberText x
  | .text s => Text.quoted s
  | .sequence xs => "[" ++ ", ".intercalate (Term.renderAll xs) ++ "]"
  | .literal l => Literal.render l
  | .variable x => x
  | .bound _ v => Term.render v

def Term.renderAll : List Term → List String
  | [] => []
  | x :: xs => Term.render x :: Term.renderAll xs

/-- A literal is shown as `~functor(arguments)[annotations]`, without what is empty. -/
def Literal.render : Literal → String
  | ⟨f, n, xs, annotations⟩ =>
    (if n then "~" else "") ++ f.render ++
      (if xs.isEmpty then "" else "(" ++ ", ".intercalate (Term.renderAll xs) ++ ")") ++
      (if annotations.isEmpty then ""
       else "[" ++ ", ".intercalate (Literal.renderAll annotations) ++ "]")

def Literal.renderAll : List Literal → List String
  | [] => []
  | a :: rest => Literal.render a :: Literal.renderAll rest

end

instance : ToString Term := ⟨Term.render⟩

instance : ToString Literal := ⟨Literal.render⟩

end Deliberation
