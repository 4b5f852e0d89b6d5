/-!
JSON documents as values, and the steps of which readers of documents are made.

A reader takes a document to a value of its type, or refuses it. Objects are read by field names:
fields that a reader does not know are passed over, and a field that it knows must not stand there
twice.
-/

namespace Deliberation

inductive Json where
  | null
  | bool (b : Bool)
  /-- A number that was written without fraction and exponent. -/
  | whole (n : Nat)
  /-- The number `-(n + 1)`, written without fraction and exponent. -/
  | negative (n : Nat)
  | decimal (x : Float)
  | text (s : String)
  | list (items : List Json)
  | object (fields : List (String × Json))
  /-- What is well-formed but stands for no value: a number that is too large, half of a surrogate
  pair, or too deep nesting. It can be passed over, but no reader takes it. -/
  | unreadable
  deriving Inhabited

namespace Json

mutual

/-- How deep lists and objects are nested. -/
def depth : Json → Nat
  | .list items => depthOfList items + 1
  | .object fields => depthOfFields fields + 1
  | _ => 0

def depthOfList : List Json → Nat
  | [] => 0
  | j :: rest => max (depth j) (depthOfList rest)

def depthOfFields : List (String × Json) → Nat
  | [] => 0
  | (_, j) :: rest => max (depth j) (depthOfFields rest)

end

mutual

/-- Whether no part is unreadable. -/
def isReadable : Json → Bool
  | .unreadable => false
  | .list items => allReadable items
  | .object fields => fieldsReadable fields
  | _ => true

def allReadable : List Json → Bool
  | [] => true
  | j :: rest => isReadable j && allReadable rest

def fieldsReadable : List (String × Json) → Bool
  | [] => true
  | (_, j) :: rest => isReadable j && fieldsReadable rest

end

/-- The document with all lists and objects made unreadable that are nested too deep. -/
def limitDepth : (limit : Nat) → Json → Json
  | 0, .list _ | 0, .object _ => .unreadable
  | limit + 1, .list items => .list (items.map (limitDepth limit))
  | limit + 1, .object fields => .object (fields.map fun (name, j) => (name, limitDepth limit j))
  | _, j => j

/-! ### Writing -/

/-- A number as a document; what is not finite has no form of its own. -/
def ofFloat (x : Float) : Json :=
  if x.isFinite then .decimal x else .null

def ofTexts (texts : List String) : Json :=
  .list (texts.map .text)

def ofOption {α : Type} (write : α → Json) : Option α → Json
  | none => .null
  | some a => write a

/-- The field of an optional value, which is left out without a value. -/
def optionalField {α : Type} (name : String) (write : α → Json) :
    Option α → List (String × Json)
  | none => []
  | some a => [(name, write a)]

/-- An object of a tag and what belongs to it. -/
def ofTagged (tag content name : String) (value : Json) : Json :=
  .object [(tag, .text name), (content, value)]

/-! ### Reading -/

def bool? : Json → Option Bool
  | .bool b => some b
  | _ => none

/-- A count of at most 64 bits. -/
def nat? : Json → Option Nat
  | .whole n => some n
  | _ => none

/-- A number in any of its forms. -/
def float? : Json → Option Float
  | .whole n => some n.toFloat
  | .negative n => some (-(n + 1).toFloat)
  | .decimal x => some x
  | _ => none

def text? : Json → Option String
  | .text s => some s
  | _ => none

def list? {α : Type} (read : Json → Option α) : Json → Option (List α)
  | .list items => items.mapM read
  | _ => none

/-- A value or nothing at all. -/
def option? {α : Type} (read : Json → Option α) : Json → Option (Option α)
  | .null => some none
  | j => (read j).map some

/-- A bare name: a text, or an object whose only field has that name and no value. -/
def name? : Json → Option String
  | .text s => some s
  | .object [(name, .null)] => some name
  | _ => none

/-- One of several named values. -/
def choice? {α : Type} (choices : List (String × α)) (j : Json) : Option α :=
  j.name?.bind fun name => choices.lookup name

/-- The fields of an object that are known, as long as none of them stands there twice. -/
def known? (names : List String) : Json → Option (List (String × Json))
  | .object fields =>
    let known := fields.filter fun f => names.contains f.1
    if names.all fun name => known.countP (fun f => f.1 == name) ≤ 1 then some known else none
  | _ => none

/-- A field that has to be there. -/
def required? {α : Type} (fields : List (String × Json)) (name : String) (read : Json → Option α) :
    Option α :=
  (fields.lookup name).bind read

/-- A field that has a default. -/
def optional? {α : Type} (fields : List (String × Json)) (name : String) (default : α)
    (read : Json → Option α) : Option α :=
  match fields.lookup name with
  | none => some default
  | some j => read j

/-- The name and the value of a tagged object. A value that stands before its tag has to be readable
in all its parts, since it is not known yet which parts are passed over. -/
def tagged? (tag content : String) (j : Json) : Option (String × Json) := do
  let fields ← j.known? [tag, content]
  let name ← required? fields tag name?
  let value ← fields.lookup content
  let first := (fields.head?.map (·.1)).getD tag
  if first == tag || value.isReadable then some (name, value) else none

/-- The name of an object that has its tag among the other fields, and all its fields. It has to be
readable in all its parts. -/
def selfTagged? (tag : String) (j : Json) : Option (String × Json) := do
  let fields ← j.known? [tag]
  let name ← required? fields tag text?
  if j.isReadable then some (name, j) else none

end Json

/-- Types whose values can be written as documents and read from them. -/
class Documented (α : Type) where
  toJson : α → Json
  ofJson? : Json → Option α

end Deliberation
