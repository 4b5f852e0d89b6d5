import Deliberation.Logic.Term

/-!
Substitutions: what variables are bound to.

Bindings are triangular: a value may mention other bound variables, and `Substitution.apply`
resolves them through and through. A path of look-ups without a circle meets each bound name at
most once, so `apply` follows at most as many look-ups one below the other as there are bindings.
-/

namespace Deliberation

mutual

/-- The term with each variable replaced that `σ` has a value for. A variable that carries its value
gives way to it, and the anonymous variable stays. -/
def Term.replace (σ : String → Option Term) : Term → Term
  | .atom a => .atom a
  | .number x => .number x
  | .text s => .text s
  | .sequence xs => .sequence (Term.replaceAll σ xs)
  | .literal l => .literal (Literal.replace σ l)
  | .variable x => if x = anonymousName then .variable x else (σ x).getD (.variable x)
  | .bound _ v => Term.replace σ v

def Term.replaceAll (σ : String → Option Term) : List Term → List Term
  | [] => []
  | x :: xs => Term.replace σ x :: Term.replaceAll σ xs

/-- The literal with arguments and annotations replaced. -/
def Literal.replace (σ : String → Option Term) : Literal → Literal
  | ⟨f, n, xs, annotations⟩ =>
    ⟨f, n, Term.replaceAll σ xs, Literal.replaceAll σ annotations⟩

def Literal.replaceAll (σ : String → Option Term) : List Literal → List Literal
  | [] => []
  | a :: rest => Literal.replace σ a :: Literal.replaceAll σ rest

end

/-- Bindings of variables, in the order of their names. -/
structure Substitution where
  bindings : SortedMap String Term

namespace Substitution

def empty : Substitution := ⟨.empty⟩

instance : EmptyCollection Substitution := ⟨empty⟩

instance : Inhabited Substitution := ⟨empty⟩

/-- The substitution with the listed bindings; later ones win. -/
def ofList (bindings : List (String × Term)) : Substitution :=
  ⟨.ofList bindings⟩

def toList (s : Substitution) : List (String × Term) :=
  s.bindings.entries

def size (s : Substitution) : Nat :=
  s.bindings.size

def isEmpty (s : Substitution) : Bool :=
  s.bindings.isEmpty

/-- What a name is bound to, not resolved further. -/
def find? (s : Substitution) (name : String) : Option Term :=
  s.bindings.find? name

def contains (s : Substitution) (name : String) : Bool :=
  s.bindings.contains name

/-- Binds a name, whatever it was bound to before. -/
def bind (s : Substitution) (name : String) (t : Term) : Substitution :=
  ⟨s.bindings.insert name t⟩

/-- The value of a name, resolved through at most `depth` look-ups one below the other. -/
def resolve? (s : Substitution) : (depth : Nat) → (name : String) → Option Term
  | 0, _ => none
  | depth + 1, name => (s.find? name).map (Term.replace (s.resolve? depth))

/-- The term with every bound variable resolved. -/
def apply (s : Substitution) (t : Term) : Term :=
  t.replace (s.resolve? s.size)

/-- The literal with every bound variable resolved, in arguments and annotations. -/
def applyLiteral (s : Substitution) (l : Literal) : Literal :=
  l.replace (s.resolve? s.size)

/-- The resolved value of a bound name. -/
def value? (s : Substitution) (name : String) : Option Term :=
  (s.find? name).map s.apply

/-- The last name on the chain of variables that starts at `name` and is followed for at most
`steps` steps. -/
def aliasEnd (s : Substitution) : (steps : Nat) → (name : String) → String
  | 0, name => name
  | steps + 1, name =>
    match s.find? name with
    | some (.variable next) =>
      if next ≠ anonymousName ∧ next ≠ name then s.aliasEnd steps next else name
    | _ => name

/-- Gives a name a value. A name that stands for another variable passes the value on to the end of
the chain, so that every name on it sees the value. -/
def assign (s : Substitution) (name : String) (t : Term) : Substitution :=
  s.bind (s.aliasEnd (s.size + 1) name) t

/-- Both substitutions together, this one's bindings first, with every value resolved. -/
def compose (s other : Substitution) : Substitution :=
  let merged : Substitution := ⟨s.bindings.union other.bindings⟩
  ⟨merged.bindings.mapValues merged.apply⟩

/-- The resolved bindings of some names. -/
def restrict (s : Substitution) (names : List String) : Substitution :=
  ofList (names.filterMap fun name => (s.value? name).map (name, ·))

/-- One step of resolving: the value that a variable carries or is bound to. -/
def follow? (s : Substitution) : Term → Option Term
  | .bound _ v => some v
  | .variable x => if x = anonymousName then none else s.find? x
  | _ => none

/-- Bindings are shown as `{X -> a, Y -> b}`. -/
def render (s : Substitution) : String :=
  "\x7b" ++ ", ".intercalate (s.toList.map fun b => b.1 ++ " -> " ++ b.2.render) ++ "\x7d"

instance : ToString Substitution := ⟨render⟩

end Substitution
end Deliberation
