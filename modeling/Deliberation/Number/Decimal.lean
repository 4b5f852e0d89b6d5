import Deliberation.Number.Exact

/-!
Decimal texts of floating point numbers.

`Decimal.shortest` finds the fewest decimal digits that read back to the same number, and of those
the nearest ones; a `Decimal.Layout` says how the digits are laid out. `Decimal.fixed` writes a
given number of places after the point.
-/

namespace Deliberation

/-- The decimal fraction `coefficient · 10 ^ exponent`. -/
structure Decimal where
  coefficient : Nat
  exponent : Int
  deriving DecidableEq, Repr

namespace Decimal

/-- How many decimal digits a number has; zero has none. -/
def digitCount (n : Nat) : Nat :=
  if n = 0 then 0 else (Nat.toDigits 10 n).length

/-- The power of ten with `10 ^ p ≤ num / den < 10 ^ (p + 1)`. -/
def magnitude (num den : Nat) : Int :=
  if den ≤ num then digitCount (num / den) - 1
  else -(digitCount ((den + num - 1) / num - 1))

/-- A quotient of natural numbers, taken apart from the power of two in it. -/
structure Ratio where
  num : Nat
  den : Nat

namespace Ratio

/-- The ratio `m · 2 ^ e`. -/
def ofScaled (m : Nat) (e : Int) : Ratio :=
  if 0 ≤ e then ⟨m * pow2 e.toNat, 1⟩ else ⟨m, pow2 (-e).toNat⟩

/-- The ratio measured in units of `10 ^ p`. -/
def inUnits (r : Ratio) (p : Int) : Ratio :=
  if 0 ≤ p then ⟨r.num, r.den * pow10 p.toNat⟩ else ⟨r.num * pow10 (-p).toNat, r.den⟩

end Ratio

/-- The numbers that round to one floating point number: an interval around it, whose ends belong to
it if the significand is even. -/
structure Interval where
  low : Ratio
  high : Ratio
  closed : Bool

/-- The interval of a positive number. Below a power of two the grid is finer, so the lower end is
nearer there, except at the bottom of the range. -/
def roundingInterval (m : Nat) (e : Int) : Interval :=
  { low := if m = pow2 52 ∧ -1074 < e then .ofScaled (4 * m - 1) (e - 2)
           else .ofScaled (2 * m - 1) (e - 1)
    high := .ofScaled (2 * m + 1) (e - 1)
    closed := m % 2 = 0 }

/-- Whether `n` units of `10 ^ p` lie in an interval. -/
def Interval.holds (i : Interval) (p : Int) (n : Nat) : Bool :=
  let low := i.low.inUnits p
  let high := i.high.inUnits p
  if i.closed then low.num ≤ n * low.den && n * high.den ≤ high.num
  else low.num < n * low.den && n * high.den < high.num

/-- The nearer of the two neighbours of a value on the grid `10 ^ p` that lie in its interval. Two
that are equally near are told apart by `up`: the upper one, or else the even one. -/
def onGrid (up : Bool) (value : Ratio) (i : Interval) (p : Int) : Option Nat :=
  let v := value.inUnits p
  let low := v.num / v.den
  let rest := 2 * (v.num % v.den)
  match 0 < low && i.holds p low, i.holds p (low + 1) with
  | true, true =>
    if rest < v.den then some low
    else if v.den < rest then some (low + 1)
    else if up || low % 2 = 1 then some (low + 1)
    else some low
  | true, false => some low
  | false, true => some (low + 1)
  | false, false => none

/-- The first of `count` grids, each ten times finer than the one before, that has a point in the
interval. -/
def searchGrids (up : Bool) (value : Ratio) (i : Interval) :
    (count : Nat) → (p : Int) → Option Decimal
  | 0, _ => none
  | count + 1, p =>
    match onGrid up value i p with
    -- the upper neighbour may be the next power of ten
    | some n => some (if n = 10 then ⟨1, p + 1⟩ else ⟨n, p⟩)
    | none => searchGrids up value i count (p - 1)

/-- The fewest digits that read back to the finite number `m · 2 ^ e`. Seventeen always do. -/
def shortest (up : Bool) (m : Nat) (e : Int) : Decimal :=
  let value := Ratio.ofScaled m e
  let first := magnitude value.num value.den
  (searchGrids up value (roundingInterval m e) 17 first).getD ⟨m, 0⟩

/-- How a number is written. -/
structure Layout where
  /-- The exponents, of the form with one digit before the point, that are written without an
  exponent; `none` stands for all of them. -/
  plain : Option (Int × Int)
  /-- Whether a whole number written without an exponent ends in `.0`. -/
  pointZero : Bool
  /-- Whether a positive exponent has a sign. -/
  plusSign : Bool
  /-- Whether of two equally near shortest forms the upper one is taken, or else the even one. -/
  tieUp : Bool

/-- The digits without an exponent: `123`, `1200`, `1.23`, `0.0012`. -/
def plainText (digits : List Char) (exponent : Int) (pointZero : Bool) : String :=
  let tail := if pointZero then ".0" else ""
  if 0 ≤ exponent then
    String.ofList (digits ++ List.replicate exponent.toNat '0') ++ tail
  else
    let places := (-exponent).toNat
    if places < digits.length then
      String.ofList (digits.take (digits.length - places)) ++ "." ++
        String.ofList (digits.drop (digits.length - places))
    else
      "0." ++ String.ofList (List.replicate (places - digits.length) '0' ++ digits)

/-- The digits with an exponent: `1e-7`, `1.25e+16`. -/
def scientificText (digits : List Char) (exponent : Int) (plusSign : Bool) : String :=
  let mantissa :=
    match digits with
    | [] => "0"
    | [d] => String.singleton d
    | d :: rest => String.singleton d ++ "." ++ String.ofList rest
  mantissa ++ "e" ++
    (if 0 ≤ exponent then (if plusSign then "+" else "") ++ toString exponent.toNat
     else "-" ++ toString (-exponent).toNat)

/-- The text of a number under a layout. -/
def Layout.text (layout : Layout) (x : Float) : String :=
  if x.isNaN then "NaN"
  else
    let f := BinaryFraction.ofFloat x
    let sign := if f.negative then "-" else ""
    if !x.isFinite then sign ++ "inf"
    else if f.significand = 0 then sign ++ plainText ['0'] 0 layout.pointZero
    else
      let d := shortest layout.tieUp f.significand f.exponent
      let digits := Nat.toDigits 10 d.coefficient
      let leading := d.exponent + digits.length - 1
      let positional := match layout.plain with
        | none => true
        | some (low, high) => low ≤ leading && leading ≤ high
      sign ++
        if positional then plainText digits d.exponent layout.pointZero
        else scientificText digits leading layout.plusSign

/-- Numbers in messages: never an exponent, no `.0`. -/
def messageLayout : Layout := ⟨none, false, false, true⟩

/-- Numbers in descriptions of a value's inside: an exponent below `10⁻⁴` and from `10¹⁶` on. -/
def inspectLayout : Layout := ⟨some (-4, 15), true, false, true⟩

/-- Numbers in documents: an exponent below `10⁻⁵` and from `10¹⁶` on, always with a sign, and ties
to even. -/
def documentLayout : Layout := ⟨some (-5, 15), true, true, false⟩

/-- The number with `places` digits after the point; the exact value is rounded, a half going to the
even neighbour. -/
def fixed (places : Nat) (x : Float) : String :=
  if x.isNaN then "NaN"
  else
    let f := BinaryFraction.ofFloat x
    let sign := if f.negative then "-" else ""
    if !x.isFinite then sign ++ "inf"
    else
      let r := Ratio.ofScaled (f.significand * pow10 places) f.exponent
      let low := r.num / r.den
      let rest := 2 * (r.num % r.den)
      let units :=
        if rest < r.den then low
        else if r.den < rest then low + 1
        else low + low % 2
      let digits := Nat.toDigits 10 units
      let padded := List.replicate (places + 1 - digits.length) '0' ++ digits
      sign ++ plainText padded (-(places : Int)) false

end Decimal
end Deliberation
