import ChainFold.Double.Basic
import ChainFold.Double.Decimal
/-!
# Doubles in columns

The text of a double in a column of texts, and the numbers of higher precision that its
digits are worked out with.
-/

/-!
## Extended numbers

Numbers that are not negative and have 64 bits of precision, eleven more than a double.
Every operation gives the exact result, rounded once.
-/

namespace ChainFold

/-- The number `mantissa * 2 ^ exponent`; 64 bits are kept of the mantissa. -/
structure Extended where
  mantissa : Nat
  exponent : Int
  deriving DecidableEq, Repr

namespace Extended

/-- A number as an integer over a power of two. -/
def numerator (x : Extended) : Nat := x.mantissa * Nat.pow 2 x.exponent.toNat

def denominator (x : Extended) : Nat := Nat.pow 2 (-x.exponent).toNat

/-- The number nearest to `num / den`, a tie going to the even mantissa. -/
def ofRatio (num den : Nat) : Extended :=
  if num == 0 || den == 0 then ⟨0, 0⟩
  else
    let guess : Int := (Nat.log2 num : Int) - (Nat.log2 den : Int) - 64
    let (n, d) := Double.scaled num den guess
    let e : Int := if Nat.pow 2 64 ≤ n / d then guess + 1 else guess
    let (n, d) := Double.scaled num den e
    ⟨Double.roundRatio n d, e⟩

def ofNat (n : Nat) : Extended := ofRatio n 1

/-- The absolute value of a finite double. -/
def ofDouble (d : Double) : Extended := ofRatio d.numerator.natAbs d.denominator

def add (x y : Extended) : Extended :=
  ofRatio (x.numerator * y.denominator + y.numerator * x.denominator)
    (x.denominator * y.denominator)

def mul (x y : Extended) : Extended :=
  ofRatio (x.numerator * y.numerator) (x.denominator * y.denominator)

def div (x y : Extended) : Extended :=
  ofRatio (x.numerator * y.denominator) (x.denominator * y.numerator)

def isAtMost (x y : Extended) : Bool :=
  x.numerator * y.denominator ≤ y.numerator * x.denominator

def floor (x : Extended) : Nat := x.numerator / x.denominator

/-- What is left of a number behind its integer. -/
def fraction (x : Extended) : Extended := ofRatio (x.numerator % x.denominator) x.denominator

end Extended

end ChainFold

/-!
## Fifteen significant digits

The text of a double in a column of texts: at most fifteen digits, without zeros at
the end but for one behind the point.  The number is brought between one and ten and
half a unit of the last digit is added, all with 64 bits of precision; then the digits
are taken off one by one.  What looks like a tie can therefore go either way.
-/

namespace ChainFold.Double

/-- The most digits that are written. -/
def maxSignificant : Nat := 15

/-- A double as an extended number: `digits * 10 ^ exp`, rounded to a double first. -/
def constant (digits : Nat) (exp : Int) : Extended := .ofDouble (ofDecimal false digits exp)

/-- Half a unit of the last digit of a number between one and ten. -/
def halfUnit : Extended := .ofDouble ((ofDecimal false 5 (-5)).mul (ofDecimal false 1 (-10)))

/-- A positive number with a power of ten that it is to be divided by, or was multiplied with. -/
structure Shifted where
  value : Extended
  power : Int

/-- The greatest scale by steps of `10 ^ step` that is at most a number. -/
def raiseScale (x : Extended) (step : Nat) : (fuel : Nat) → Shifted → Shifted
  | 0, s => s
  | fuel + 1, s =>
    let next := (constant 1 step).mul s.value
    if next.isAtMost x then raiseScale x step fuel ⟨next, s.power + step⟩ else s

/-- A number multiplied with `10 ^ step` while it is below a bound. -/
def lift (bound : Extended) (step : Nat) : (fuel : Nat) → Shifted → Shifted
  | 0, s => s
  | fuel + 1, s =>
    if bound.isAtMost s.value then s
    else lift bound step fuel ⟨s.value.mul (constant 1 step), s.power - step⟩

/-- A positive number as one between one and ten, times a power of ten. -/
def normalized (x : Extended) : Shifted :=
  let scale := [100, 10, 1].foldl (fun s step => raiseScale x step 10 s) ⟨.ofNat 1, 0⟩
  let s : Shifted := ⟨x.div scale.value, scale.power⟩
  lift (.ofNat 1) 1 10 (lift (constant 1 (-8)) 8 50 s)

/-- The leading digits of a number below ten. -/
def leadingDigits : (count : Nat) → Extended → List Char
  | 0, _ => []
  | count + 1, x =>
    Char.ofNat ('0'.toNat + x.floor) :: leadingDigits count (x.fraction.mul (.ofNat 10))

/-- A finite double rounded to the digits that are written, for its absolute value. -/
def rounded (d : Double) : Digits :=
  if d.mantissa == 0 then ⟨['0'], 0⟩
  else
    let s := normalized (.ofDouble d)
    let x := s.value.add halfUnit
    let carries := (Extended.ofNat 10).isAtMost x
    let s : Shifted := if carries then ⟨x.mul (constant 1 (-1)), s.power + 1⟩ else ⟨x, s.power⟩
    let ds := leadingDigits maxSignificant s.value
    ⟨(ds.reverse.dropWhile (· == '0')).reverse, s.power⟩

/-- Positional from `0.0001` to below `10 ^ 15`, else an exponent. -/
def significantLayout : Layout := ⟨-4, 15, 2⟩

/-- Digits with an exponent, at least one of them behind the point. -/
def Digits.pointed (l : Layout) (x : Digits) : List Char :=
  Digits.scientific l
    { x with digits := if x.digits.length = 1 then x.digits ++ ['0'] else x.digits }

/-- The text of a double in a column, none for NaN. -/
def columnText? (d : Double) : Option String :=
  if d.isNaN then none
  else
    let l := significantLayout
    let x := d.rounded
    let body :=
      if !d.isFinite then "Inf".toList
      else if l.positionalFrom ≤ x.exponent && x.exponent < l.positionalUntil then x.positional
      else x.pointed l
    some (String.ofList (if d.isNegative && d.mantissa != 0 then '-' :: body else body))

end ChainFold.Double
