import Deliberation.Exchange.Json

/-!
Reading the text of a document.

Each function reads a part of the text and gives what it read with the text that follows, or nothing
if the text is not well-formed. Numbers are read into a significand of 64 bits and a power of ten;
the value is their product in floating-point arithmetic.
-/

namespace Deliberation.Json

def isBlank (c : Char) : Bool :=
  c == ' ' || c == '\n' || c == '\t' || c == '\r'

def skipBlanks (s : List Char) : List Char :=
  s.dropWhile isBlank

/-- The text after a word. -/
def expect? (word s : List Char) : Option (List Char) :=
  if word.isPrefixOf s then some (s.drop word.length) else none

/-! ### Numbers -/

def digit? (c : Char) : Option Nat :=
  if c.isDigit then some (c.toNat - '0'.toNat) else none

/-- The largest significand. -/
def largestSignificand : Nat := 18446744073709551615

/-- A number as it was written: `significand * 10 ^ exponent`. -/
structure Numeral where
  negative : Bool
  significand : Nat
  exponent : Int
  /-- Whether there is neither a fraction nor an exponent, and no digit is left out. -/
  plain : Bool

namespace Numeral

/-- The largest power of ten among the numbers. -/
def largestPower : Nat := 308

def power (n : Nat) : Float :=
  Float.ofScientific 1 false n

/-- Division by a power of ten, in steps that are not larger than the largest power. -/
def divide (x : Float) (exponent : Nat) : Float :=
  if exponent ≤ largestPower then x / power exponent
  else if x == 0 then x
  else divide (x / power largestPower) (exponent - largestPower)
termination_by exponent
decreasing_by
  simp only [largestPower] at *
  omega

/-- The size of a number; none if it is too large. -/
def size? (n : Numeral) : Option Float :=
  let x := n.significand.toFloat
  match n.exponent with
  | .ofNat e =>
    if e ≤ largestPower then
      let y := x * power e
      if y.isInf then none else some y
    else if x == 0 then some x
    else none
  | .negSucc e => some (divide x (e + 1))

/-- The document of a number. Plain numbers of 64 bits are whole, but for the negative zero. -/
def toJson (n : Numeral) : Json :=
  if n.plain && !n.negative then .whole n.significand
  else if n.plain && 0 < n.significand && n.significand ≤ 9223372036854775808 then
    .negative (n.significand - 1)
  else
    match n.size? with
    | some x => .decimal (if n.negative then -x else x)
    | none => .unreadable

end Numeral

/-- Reads digits into a significand as long as it does not become too large. The result has the
significand, the number of digits in it and the text that follows. -/
def absorb (significand : Nat) : List Char → Nat × Nat × List Char
  | [] => (significand, 0, [])
  | c :: rest =>
    match digit? c with
    | none => (significand, 0, c :: rest)
    | some d =>
      if largestSignificand < significand * 10 + d then (significand, 0, c :: rest)
      else
        let (result, count, rest) := absorb (significand * 10 + d) rest
        (result, count + 1, rest)

/-- Reads an exponent, if there is one. -/
def exponent? (s : List Char) : Option (Option Int × List Char) :=
  match s with
  | c :: rest =>
    if c == 'e' || c == 'E' then
      let (minus, rest) :=
        match rest with
        | '-' :: rest => (true, rest)
        | '+' :: rest => (false, rest)
        | rest => (false, rest)
      let digits := rest.takeWhile Char.isDigit
      if digits.isEmpty then none
      else
        let size : Int := digits.foldl (fun n c => n * 10 + (c.toNat - '0'.toNat)) 0
        some (some (if minus then -size else size), rest.dropWhile Char.isDigit)
    else some (none, s)
  | [] => some (none, [])

/-- The numeral with the exponent that follows. -/
def withExponent? (n : Numeral) (s : List Char) : Option (Numeral × List Char) :=
  match exponent? s with
  | none => none
  | some (none, rest) => some (n, rest)
  | some (some e, rest) => some ({ n with exponent := n.exponent + e, plain := false }, rest)

/-- The numeral with the fraction and exponent that follow. A fraction has a digit at least; the
digits that do not fit into the significand do not count. -/
def withFraction? (n : Numeral) (s : List Char) : Option (Numeral × List Char) :=
  match s with
  | '.' :: rest =>
    match rest.takeWhile Char.isDigit with
    | [] => none
    | _ :: _ =>
      let (significand, count, _) := absorb n.significand rest
      withExponent?
        { n with significand, exponent := n.exponent - count, plain := false }
        (rest.dropWhile Char.isDigit)
  | s => withExponent? n s

/-- Reads a number without its sign. There is no zero in front of other digits; the digits that do
not fit into the significand raise the exponent. -/
def unsigned? (minus : Bool) (s : List Char) : Option (Numeral × List Char) :=
  match s.takeWhile Char.isDigit with
  | [] => none
  | '0' :: _ :: _ => none
  | digits@(_ :: _) =>
    let (significand, _, left) := absorb 0 digits
    withFraction? ⟨minus, significand, left.length, left.isEmpty⟩ (s.dropWhile Char.isDigit)

def number? (s : List Char) : Option (Json × List Char) :=
  let numeral := match s with
    | '-' :: rest => unsigned? true rest
    | s => unsigned? false s
  numeral.map fun (n, rest) => (n.toJson, rest)

/-! ### Texts -/

def hexValue? (c : Char) : Option Nat :=
  if c.isDigit then some (c.toNat - '0'.toNat)
  else if 'a' ≤ c && c ≤ 'f' then some (c.toNat - 'a'.toNat + 10)
  else if 'A' ≤ c && c ≤ 'F' then some (c.toNat - 'A'.toNat + 10)
  else none

/-- The code that four hexadecimal digits give. -/
def hexCode? (digits : List Char) : Option Nat :=
  digits.foldlM (fun n c => (hexValue? c).map (n * 16 + ·)) 0

/-- Reads the rest of a quoted text, as the codes that stand there. A surrogate can only come from
an escape. -/
def codes? : List Char → Option (List Nat × List Char)
  | [] => none
  | '"' :: rest => some ([], rest)
  | '\\' :: 'u' :: a :: b :: c :: d :: rest => do
    let code ← hexCode? [a, b, c, d]
    let (codes, rest) ← codes? rest
    return (code :: codes, rest)
  | '\\' :: c :: rest => do
    let code ← match c with
      | '"' | '\\' | '/' => some c.toNat
      | 'b' => some 8
      | 'f' => some 12
      | 'n' => some 10
      | 'r' => some 13
      | 't' => some 9
      | _ => none
    let (codes, rest) ← codes? rest
    return (code :: codes, rest)
  | c :: rest =>
    if c.toNat < 32 then none
    else do
      let (codes, rest) ← codes? rest
      return (c.toNat :: codes, rest)

/-- The characters of some codes; none if half of a surrogate pair stands alone. -/
def characters? : List Nat → Option (List Char)
  | [] => some []
  | code :: rest =>
    if 0xD800 ≤ code && code ≤ 0xDBFF then
      match rest with
      | low :: rest =>
        if 0xDC00 ≤ low && low ≤ 0xDFFF then
          (characters? rest).map
            (Char.ofNat (0x10000 + (code - 0xD800) * 0x400 + (low - 0xDC00)) :: ·)
        else none
      | [] => none
    else if 0xDC00 ≤ code && code ≤ 0xDFFF then none
    else (characters? rest).map (Char.ofNat code :: ·)

/-- Reads a text after its first quote. The inner result is none if the text is well-formed but has
no characters. -/
def quoted? (s : List Char) : Option (Option String × List Char) :=
  (codes? s).map fun (codes, rest) => ((characters? codes).map String.ofList, rest)

/-! ### Documents -/

/-- An object of fields; without the name of each field it is unreadable. -/
def ofFields (fields : List (Option String × Json)) : Json :=
  match fields.mapM fun (name, j) => name.map (·, j) with
  | some fields => .object fields
  | none => .unreadable

mutual

/-- Reads a document. The fuel has to exceed twice the length of the text. -/
def value? : (fuel : Nat) → List Char → Option (Json × List Char)
  | 0, _ => none
  | fuel + 1, s =>
    match skipBlanks s with
    | [] => none
    | '"' :: rest =>
      (quoted? rest).map fun (content, rest) => ((content.map .text).getD .unreadable, rest)
    | '[' :: rest =>
      match skipBlanks rest with
      | ']' :: rest => some (.list [], rest)
      | rest => (items? fuel rest).map fun (items, rest) => (.list items, rest)
    | '\x7b' :: rest =>
      match skipBlanks rest with
      | '\x7d' :: rest => some (.object [], rest)
      | rest => (fields? fuel rest).map fun (fields, rest) => (ofFields fields, rest)
    | 'n' :: rest => (expect? ['u', 'l', 'l'] rest).map (.null, ·)
    | 't' :: rest => (expect? ['r', 'u', 'e'] rest).map (.bool true, ·)
    | 'f' :: rest => (expect? ['a', 'l', 's', 'e'] rest).map (.bool false, ·)
    | s => number? s

/-- Reads the items of a list up to its end. -/
def items? : (fuel : Nat) → List Char → Option (List Json × List Char)
  | 0, _ => none
  | fuel + 1, s =>
    match value? fuel s with
    | none => none
    | some (j, rest) =>
      match skipBlanks rest with
      | ']' :: rest => some ([j], rest)
      | ',' :: rest => (items? fuel rest).map fun (items, rest) => (j :: items, rest)
      | _ => none

/-- Reads the fields of an object up to its end. -/
def fields? : (fuel : Nat) → List Char → Option (List (Option String × Json) × List Char)
  | 0, _ => none
  | fuel + 1, s =>
    match skipBlanks s with
    | '"' :: rest =>
      match quoted? rest with
      | none => none
      | some (name, rest) =>
        match skipBlanks rest with
        | ':' :: rest =>
          match value? fuel rest with
          | none => none
          | some (j, rest) =>
            match skipBlanks rest with
            | '\x7d' :: rest => some ([(name, j)], rest)
            | ',' :: rest =>
              (fields? fuel rest).map fun (fields, rest) => ((name, j) :: fields, rest)
            | _ => none
        | _ => none
    | _ => none

end

/-- How deep lists and objects may be nested. -/
def deepestNesting : Nat := 127

/-- Reads a text that holds one document and nothing but blanks around it. -/
def parse (text : String) : Option Json := do
  let s := text.toList
  let (j, rest) ← value? (2 * s.length + 2) s
  if (skipBlanks rest).isEmpty then some (j.limitDepth deepestNesting) else none

end Deliberation.Json
