import Deliberation.Exchange.Json
import Deliberation.Number.Decimal

/-!
The text of a document, without any blanks.
-/

namespace Deliberation.Json

/-- The last hexadecimal digit of a number. -/
def hexDigit (n : Nat) : Char :=
  Nat.digitChar (n % 16)

/-- A character inside of quotes. Only quotes, backslashes and control characters are escaped. -/
def escape (c : Char) : String :=
  match c with
  | '"' => "\\\""
  | '\\' => "\\\\"
  | '\n' => "\\n"
  | '\r' => "\\r"
  | '\t' => "\\t"
  | '\x08' => "\\b"
  | '\x0c' => "\\f"
  | c =>
    if c.toNat < 32 then
      "\\u00" ++ String.ofList [hexDigit (c.toNat / 16), hexDigit c.toNat]
    else c.toString

def quote (s : String) : String :=
  "\"" ++ String.join (s.toList.map escape) ++ "\""

mutual

/-- The text of a document. What is unreadable is written as nothing at all. -/
def print : Json → String
  | .null | .unreadable => "null"
  | .bool b => if b then "true" else "false"
  | .whole n => toString n
  | .negative n => "-" ++ toString (n + 1)
  | .decimal x => if x.isFinite then Decimal.documentLayout.text x else "null"
  | .text s => quote s
  | .list items => "[" ++ ",".intercalate (printAll items) ++ "]"
  | .object fields => "\x7b" ++ ",".intercalate (printFields fields) ++ "\x7d"

def printAll : List Json → List String
  | [] => []
  | j :: rest => print j :: printAll rest

def printFields : List (String × Json) → List String
  | [] => []
  | (name, j) :: rest => (quote name ++ ":" ++ print j) :: printFields rest

end

end Deliberation.Json
