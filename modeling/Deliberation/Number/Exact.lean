/-!
Finite floating point numbers as exact binary fractions.

A finite number is `± significand · 2 ^ exponent`. The operations that have to round once, or not
at all, are computed on such fractions in integer arithmetic and rounded at the end.
-/

namespace Deliberation

/-- `2 ^ k`. -/
abbrev pow2 (k : Nat) : Nat := Nat.pow 2 k

/-- `10 ^ k`. -/
abbrev pow10 (k : Nat) : Nat := Nat.pow 10 k

/-- The fraction `± significand · 2 ^ exponent`. -/
structure BinaryFraction where
  negative : Bool
  significand : Nat
  exponent : Int
  deriving DecidableEq, Repr

namespace BinaryFraction

/-- The value of a finite number; its significand has at most 53 binary digits. -/
def ofFloat (x : Float) : BinaryFraction :=
  let bits := x.toBits.toNat
  let field : Nat := bits / pow2 52 % pow2 11
  let fraction := bits % pow2 52
  { negative := bits / pow2 63 = 1
    significand := if field = 0 then fraction else fraction + pow2 52
    exponent := if field = 0 then -1074 else Int.ofNat field - 1075 }

/-- The integer nearest to `n / 2 ^ k`, a half going to the even neighbour. -/
def halveToEven (n k : Nat) : Nat :=
  let low := n / pow2 k
  let rest := 2 * (n % pow2 k)
  if rest < pow2 k then low
  else if pow2 k < rest then low + 1
  else low + low % 2

/-- The number nearest to a fraction, a half going to the even neighbour. The grid of the result is
`2 ^ target`; a significand that rounds up to the next power of two carries into the exponent
field by itself, and a field past the last one is infinity. -/
def toFloat (f : BinaryFraction) : Float :=
  let width : Int := if f.significand = 0 then 0 else f.significand.log2 + 1
  let target := max (f.exponent + width - 53) (-1074)
  let rounded :=
    if target ≤ f.exponent then f.significand * pow2 (f.exponent - target).toNat
    else halveToEven f.significand (target - f.exponent).toNat
  let magnitude :=
    if rounded = 0 then 0
    else min ((target + 1074).toNat * pow2 52 + rounded) (2047 * pow2 52)
  Float.ofBits (UInt64.ofNat (magnitude + if f.negative then pow2 63 else 0))

/-- The significand of a fraction on the grid `2 ^ grid`, which is at least as fine, with its
sign. -/
def scaled (f : BinaryFraction) (grid : Int) : Int :=
  let magnitude := f.significand * pow2 (f.exponent - grid).toNat
  if f.negative then -(magnitude : Int) else magnitude

def mul (a b : BinaryFraction) : BinaryFraction :=
  { negative := a.negative != b.negative
    significand := a.significand * b.significand
    exponent := a.exponent + b.exponent }

/-- The exact sum. A zero sum has no sign. -/
def add (a b : BinaryFraction) : BinaryFraction :=
  let grid := min a.exponent b.exponent
  let total := a.scaled grid + b.scaled grid
  { negative := total < 0, significand := total.natAbs, exponent := grid }

/-- The remainder of the division toward zero; it has the sign of the dividend. -/
def rem (a b : BinaryFraction) : BinaryFraction :=
  let grid := min a.exponent b.exponent
  { negative := a.negative
    significand := (a.scaled grid).natAbs % (b.scaled grid).natAbs
    exponent := grid }

end BinaryFraction

/-- `x * y + z` with a single rounding. -/
def mulAdd (x y z : Float) : Float :=
  if x.isFinite && y.isFinite then
    if z.isFinite then
      let total :=
        ((BinaryFraction.ofFloat x).mul (BinaryFraction.ofFloat y)).add (BinaryFraction.ofFloat z)
      -- a sum that is exactly zero takes its sign from the operands
      if total.significand = 0 then x * y + z else total.toFloat
    else z
  else x * y + z

/-- The remainder of the division toward zero. -/
def remainder (x y : Float) : Float :=
  if !x.isFinite || y.isNaN || y == 0 then 0 / 0
  else if !y.isFinite then x
  else ((BinaryFraction.ofFloat x).rem (BinaryFraction.ofFloat y)).toFloat

/-- The remainder brought into `[0, |y|)`. -/
def euclideanRemainder (x y : Float) : Float :=
  let r := remainder x y
  if r < 0 then r + y.abs else r

end Deliberation
