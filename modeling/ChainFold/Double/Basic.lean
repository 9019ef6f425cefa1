/-!
# Binary floating point

A double is kept as its 64 bits.  A finite one stands for
`(-1)^s * mantissa * 2^exponent`; every other quantity of the library is computed
from these naturals and integers, exactly.
-/

namespace ChainFold

/-- A binary64 number, as its bits. -/
structure Double where
  bits : UInt64
  deriving DecidableEq, Repr, Inhabited

namespace Double

def isNegative (d : Double) : Bool := d.bits.toNat / Nat.pow 2 63 == 1

/-- The eleven exponent bits. -/
def exponentField (d : Double) : Nat := d.bits.toNat / Nat.pow 2 52 % Nat.pow 2 11

/-- The 52 fraction bits. -/
def fractionField (d : Double) : Nat := d.bits.toNat % Nat.pow 2 52

/-- Neither an infinity nor a NaN. -/
def isFinite (d : Double) : Bool := d.exponentField != 2047

def isNaN (d : Double) : Bool := d.exponentField == 2047 && d.fractionField != 0

/-- The integer mantissa of a finite double. -/
def mantissa (d : Double) : Nat :=
  if d.exponentField == 0 then d.fractionField else d.fractionField + Nat.pow 2 52

/-- The power of two that goes with `mantissa`. -/
def exponent (d : Double) : Int :=
  if d.exponentField == 0 then -1074 else (d.exponentField : Int) - 1075

/-- A double with sign `negative` and the given lower 63 bits. -/
def ofMagnitude (negative : Bool) (magnitude : Nat) : Double :=
  ⟨UInt64.ofNat (magnitude + if negative then Nat.pow 2 63 else 0)⟩

def zero (negative : Bool) : Double := ofMagnitude negative 0

def infinity (negative : Bool) : Double := ofMagnitude negative (2047 * Nat.pow 2 52)

/-- The quiet NaN with a clear payload. -/
def nan : Double := ofMagnitude false (2047 * Nat.pow 2 52 + Nat.pow 2 51)

/-- The natural number nearest to `num / den`; a half goes to the even neighbour. -/
def roundRatio (num den : Nat) : Nat :=
  let q := num / den
  let r := num % den
  if 2 * r < den then q
  else if den < 2 * r then q + 1
  else q + q % 2

/-- The ratio `num / den` divided by `2 ^ e`, as a numerator and a denominator. -/
def scaled (num den : Nat) (e : Int) : Nat × Nat :=
  if 0 ≤ e then (num, den * Nat.pow 2 e.toNat) else (num * Nat.pow 2 (-e).toNat, den)

/--
The double nearest to `num / den`, a tie going to the even mantissa, with
overflow to infinity.  The quotient is scaled to a mantissa of 53 bits, or fewer
below the normal range; a mantissa rounded up to `2 ^ 53` carries into the
exponent by addition.
-/
def ofRatio (negative : Bool) (num den : Nat) : Double :=
  if num == 0 || den == 0 then zero negative
  else
    let guess : Int := max ((Nat.log2 num : Int) - (Nat.log2 den : Int) - 53) (-1074)
    let (n, d) := scaled num den guess
    let e : Int := if Nat.pow 2 53 ≤ n / d then guess + 1 else guess
    let (n, d) := scaled num den e
    let m := roundRatio n d
    let magnitude := if m < Nat.pow 2 52 then m else (e + 1074).toNat * Nat.pow 2 52 + m
    if 2047 * Nat.pow 2 52 ≤ magnitude then infinity negative else ofMagnitude negative magnitude

/--
The double nearest to `digits * 10 ^ exp`.  Exponents far outside the range of
doubles are settled by the number of digits, without forming the power.
-/
def ofDecimal (negative : Bool) (digits : Nat) (exp : Int) : Double :=
  if digits == 0 then zero negative
  else if 400 < exp then infinity negative
  else if exp + (Nat.log2 digits / 3 : Nat) + 1 < -400 then zero negative
  else if 0 ≤ exp then ofRatio negative (digits * Nat.pow 10 exp.toNat) 1
  else ofRatio negative digits (Nat.pow 10 (-exp).toNat)

def ofInt (n : Int) : Double := ofRatio (n < 0) n.natAbs 1

/-- The value of a finite double as an integer over a power of two. -/
def numerator (d : Double) : Int :=
  let m : Int := d.mantissa * Nat.pow 2 d.exponent.toNat
  if d.isNegative then -m else m

def denominator (d : Double) : Nat := Nat.pow 2 (-d.exponent).toNat

/-- A finite double cut to an integer, toward zero. -/
def truncate (d : Double) : Int := d.numerator.tdiv d.denominator

end Double

end ChainFold

/-!
## Sums and products

The sum and the product of two doubles: the exact number, rounded once.
-/

namespace ChainFold.Double

/-- The product of two doubles; zero times an infinity is no number. -/
def mul (a b : Double) : Double :=
  let negative := a.isNegative != b.isNegative
  if a.isNaN || b.isNaN then nan
  else if a.isFinite && b.isFinite then
    ofRatio negative (a.numerator * b.numerator).natAbs (a.denominator * b.denominator)
  else if a.mantissa == 0 || b.mantissa == 0 then nan
  else infinity negative

/-- The sum of two doubles; infinities of different signs have none. -/
def add (a b : Double) : Double :=
  if a.isNaN || b.isNaN then nan
  else if a.isFinite && b.isFinite then
    let sum := a.numerator * b.denominator + b.numerator * a.denominator
    let negative := if sum == 0 then a.isNegative && b.isNegative else sum < 0
    ofRatio negative sum.natAbs (a.denominator * b.denominator)
  else if a.isFinite then b
  else if b.isFinite || a == b then a
  else nan

end ChainFold.Double
