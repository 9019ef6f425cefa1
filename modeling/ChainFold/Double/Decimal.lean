import ChainFold.Double.Basic
import ChainFold.Text.Characters
import ChainFold.Text.Integer
/-!
# Doubles as decimal text

The fewest digits that a double can be told by, and the free form in which one is read.
-/

/-!
## Shortest decimal text

The fewest decimal digits that read back as the same double, and of those the
nearest to it.  The digits come from exact arithmetic on the interval of numbers
that round to the double; how they are laid out is the record `Layout`.
-/

namespace ChainFold.Double

/-- The interval of numbers that round to a double, over a common denominator. -/
structure Interval where
  /-- The double itself. -/
  value : Nat
  /-- The lower end. -/
  lower : Nat
  /-- The upper end. -/
  upper : Nat
  /-- The denominator of the three. -/
  denominator : Nat
  /-- Whether the ends belong to the interval. -/
  closed : Bool
  deriving Repr

/-- The interval of a finite double that is not zero, for its absolute value. -/
def interval (d : Double) : Interval :=
  let below := if d.fractionField == 0 && 1 < d.exponentField then 1 else 2
  let shift := d.exponent - 2
  let up := Nat.pow 2 shift.toNat
  { value := 4 * d.mantissa * up
    lower := (4 * d.mantissa - below) * up
    upper := (4 * d.mantissa + 2) * up
    denominator := Nat.pow 2 (-shift).toNat
    closed := d.mantissa % 2 == 0 }

def Interval.contains (i : Interval) (num den : Nat) : Bool :=
  let l := i.lower * den
  let x := num * i.denominator
  let u := i.upper * den
  if i.closed then l ≤ x && x ≤ u else l < x && x < u

/-- Raise `p` while `10 ^ (p + 1) ≤ num / den`, at most `fuel` times. -/
def raisePower (num den : Nat) : (fuel : Nat) → (p : Int) → Int
  | 0, p => p
  | fuel + 1, p =>
    let next := p + 1
    if den * Nat.pow 10 next.toNat ≤ num * Nat.pow 10 (-next).toNat then
      raisePower num den fuel next
    else p

/-- The exponent of the highest decimal digit of `num / den`. -/
def leadingPower (num den : Nat) : Int :=
  let guess := (((Nat.log2 num : Int) - (Nat.log2 den : Int)) * 30103).fdiv 100000
  raisePower num den 4 (guess - 2)

/-- Decimal digits with the exponent of the first: `d.ddd * 10 ^ exponent`. -/
structure Digits where
  digits : List Char
  exponent : Int
  deriving Repr

def significant (n : Nat) : List Char :=
  ((Text.decimal n).reverse.dropWhile (· == '0')).reverse

/--
The multiple of `10 ^ step` that reads back as the double, if one of the two
around it does: the nearer, or the even one when both are equally near.
-/
def onGrid? (i : Interval) (step : Int) : Option Nat :=
  let up := Nat.pow 10 step.toNat
  let down := Nat.pow 10 (-step).toNat
  let num := i.value * down
  let den := i.denominator * up
  let c := num / den
  let hit (n : Nat) : Bool := i.contains (n * up) down
  let below := 2 * (num % den)
  match hit c, hit (c + 1) with
  | true, true =>
    if below < den then some c
    else if den < below then some (c + 1)
    else some (c + c % 2)
  | true, false => some c
  | false, true => some (c + 1)
  | false, false => none

/-- The first grid with a hit, starting from `count` digits. -/
def firstHit (i : Interval) (power : Int) : (fuel : Nat) → (count : Nat) → Digits
  | 0, _ => ⟨['0'], 0⟩
  | fuel + 1, count =>
    let step := power - (count : Int) + 1
    match onGrid? i step with
    | none => firstHit i power fuel (count + 1)
    | some n => ⟨significant n, step + (Text.decimal n).length - 1⟩

/-- The shortest digits of a finite double, for its absolute value. -/
def shortest (d : Double) : Digits :=
  if d.mantissa == 0 then ⟨['0'], 0⟩
  else
    let i := interval d
    firstHit i (leadingPower i.value i.denominator) 17 1

structure Layout where
  /-- The least exponent written positionally. -/
  positionalFrom : Int
  /-- The first exponent no longer written positionally. -/
  positionalUntil : Int
  /-- The fewest digits of an exponent. -/
  exponentWidth : Nat

/-- Positional from `0.0001` to below `10 ^ 16`, else an exponent with a sign and two digits. -/
def layout : Layout := ⟨-4, 16, 2⟩

/-- Digits in positional notation, with at least one digit on each side of the point. -/
def Digits.positional (x : Digits) : List Char :=
  if x.exponent < 0 then
    '0' :: '.' :: List.replicate ((-x.exponent).toNat - 1) '0' ++ x.digits
  else
    let whole := x.exponent.toNat + 1
    let fraction := x.digits.drop whole
    x.digits.take whole ++ List.replicate (whole - x.digits.length) '0' ++
      '.' :: if fraction.isEmpty then ['0'] else fraction

def Digits.scientific (l : Layout) (x : Digits) : List Char :=
  let rest := x.digits.drop 1
  let power := Text.decimal x.exponent.natAbs
  x.digits.take 1 ++ (if rest.isEmpty then [] else '.' :: rest) ++
    'e' :: (if x.exponent < 0 then '-' else '+') ::
    List.replicate (l.exponentWidth - power.length) '0' ++ power

/-- Digits laid out as `l` says. -/
def Digits.toText (l : Layout) (x : Digits) : List Char :=
  if l.positionalFrom ≤ x.exponent && x.exponent < l.positionalUntil then x.positional
  else x.scientific l

/-- The texts of the doubles that have no digits. -/
structure Words where
  nan : String
  infinity : String

/-- The text of a double, with the given words for NaN and infinity. -/
def toText (w : Words) (d : Double) : List Char :=
  if d.isNaN then w.nan.toList
  else
    let body := if d.isFinite then (shortest d).toText layout else w.infinity.toList
    if d.isNegative then '-' :: body else body

def jsonWords : Words := ⟨"NaN", "Infinity"⟩

def displayWords : Words := ⟨"nan", "inf"⟩

/-!
## Reading a double

The free form of a setting: blanks around it, a sign, single underscores between
digits, a point at either end of the digits, an exponent, or a word for infinity
or NaN.
-/

/-- A run of digits with single underscores between them; `none` for a stray underscore. -/
def digitRun? (cs : List Char) : Option (List Nat) :=
  if cs.isEmpty then some [] else Text.digitValues? 10 cs

/-- The exponent part behind the mantissa: empty, or `e`, a sign and digits. -/
def exponentPart? : List Char → Option Int
  | [] => some 0
  | _ :: rest => do
    let (negative, body) := Text.splitSign rest
    let ds ← Text.digitValues? 10 body
    let n : Int := Text.ofDigits 10 ds
    pure (if negative then -n else n)

def readUnsigned? (negative : Bool) (cs : List Char) : Option Double := do
  let isE (c : Char) : Bool := c == 'e' || c == 'E'
  let body := cs.takeWhile (!isE ·)
  let exp ← exponentPart? (cs.dropWhile (!isE ·))
  let whole ← digitRun? (body.takeWhile (· != '.'))
  let fraction ← digitRun? ((body.dropWhile (· != '.')).drop 1)
  if whole.isEmpty && fraction.isEmpty then none
  else some (ofDecimal negative (Text.ofDigits 10 (whole ++ fraction)) (exp - fraction.length))

/-- Read a double; `none` if the text is not one. -/
def read? (text : String) : Option Double :=
  let (negative, cs) := Text.splitSign (Text.trimBoth Text.isNumeralBlank text.toList)
  let word := Text.lower (String.ofList cs)
  if word == "inf" || word == "infinity" then some (infinity negative)
  else if word == "nan" then some nan
  else readUnsigned? negative cs

end ChainFold.Double
