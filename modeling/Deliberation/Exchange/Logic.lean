import Deliberation.Exchange.Json
import Deliberation.Logic.Substitution

/-!
Documents of paths, terms, literals and substitutions.

A term is an object with its kind under `type` and its content under `value`. Readers recurse on the
depth of the document.
-/

namespace Deliberation

namespace Path

def toJson (p : Path) : Json :=
  .ofTexts p.segments

/-- Reads a path as it stands there; empty segments are kept. -/
def ofJson? (j : Json) : Option Path :=
  (j.list? Json.text?).map Path.mk

instance : Documented Path := ⟨toJson, ofJson?⟩

end Path

mutual

def Term.toJson : Term → Json
  | .atom a => .ofTagged "type" "value" "atom" (.text a)
  | .number x => .ofTagged "type" "value" "number" (.ofFloat x)
  | .text s => .ofTagged "type" "value" "text" (.text s)
  | .sequence xs => .ofTagged "type" "value" "sequence" (.list (Term.listToJson xs))
  | .literal l => .ofTagged "type" "value" "literal" (Literal.toJson l)
  | .variable x => .ofTagged "type" "value" "variable" (.object [("name", .text x)])
  | .bound x v =>
    .ofTagged "type" "value" "variable" (.object [("name", .text x), ("value", Term.toJson v)])

def Term.listToJson : List Term → List Json
  | [] => []
  | t :: rest => Term.toJson t :: Term.listToJson rest

/-- Annotations are left out if there are none. -/
def Literal.toJson : Literal → Json
  | ⟨f, n, xs, annotations⟩ =>
    .object <|
      [("functor", f.toJson), ("negated", .bool n), ("arguments", .list (Term.listToJson xs))] ++
        match annotations with
        | [] => []
        | l :: rest => [("annotations", .list (Literal.listToJson (l :: rest)))]

def Literal.listToJson : List Literal → List Json
  | [] => []
  | l :: rest => Literal.toJson l :: Literal.listToJson rest

end

mutual

/-- Reads a term whose document is not nested deeper than a bound. -/
def Term.ofJsonWithin? : (bound : Nat) → Json → Option Term
  | 0, _ => none
  | bound + 1, j => do
    let (name, value) ← j.tagged? "type" "value"
    match name with
    | "atom" => value.text?.map .atom
    | "number" => value.float?.map .number
    | "text" => value.text?.map .text
    | "sequence" => (value.list? (Term.ofJsonWithin? bound)).map .sequence
    | "literal" => (Literal.ofJsonWithin? bound value).map .literal
    | "variable" =>
      let fields ← value.known? ["name", "value"]
      let x ← Json.required? fields "name" Json.text?
      let v ← Json.optional? fields "value" none (Json.option? (Term.ofJsonWithin? bound))
      return match v with
        | none => .variable x
        | some v => .bound x v
    | _ => none

/-- Reads a literal whose document is not nested deeper than a bound. -/
def Literal.ofJsonWithin? : (bound : Nat) → Json → Option Literal
  | 0, _ => none
  | bound + 1, j => do
    let fields ← j.known? ["functor", "negated", "arguments", "annotations"]
    let functor ← Json.required? fields "functor" Path.ofJson?
    let negated ← Json.optional? fields "negated" false Json.bool?
    let arguments ← Json.optional? fields "arguments" [] (Json.list? (Term.ofJsonWithin? bound))
    let annotations ←
      Json.optional? fields "annotations" [] (Json.list? (Literal.ofJsonWithin? bound))
    return ⟨functor, negated, arguments, annotations⟩

end

def Term.ofJson? (j : Json) : Option Term :=
  Term.ofJsonWithin? j.depth j

def Literal.ofJson? (j : Json) : Option Literal :=
  Literal.ofJsonWithin? j.depth j

instance : Documented Term := ⟨Term.toJson, Term.ofJson?⟩

instance : Documented Literal := ⟨Literal.toJson, Literal.ofJson?⟩

namespace Substitution

def toJson (s : Substitution) : Json :=
  .object (s.toList.map fun (name, t) => (name, t.toJson))

/-- Reads an object of terms by name; of two terms with one name the later one counts. -/
def ofJson? : Json → Option Substitution
  | .object fields => do
    let bindings ← fields.mapM fun (name, j) => (Term.ofJson? j).map (name, ·)
    return .ofList bindings
  | _ => none

instance : Documented Substitution := ⟨toJson, ofJson?⟩

end Substitution
end Deliberation
