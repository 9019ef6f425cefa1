import ChainFold.Double.Decimal
import ChainFold.Store.Backend
/-!
# Numbers in columns

What a backend takes a text for where it is compared with a number or a boolean, or
asked to be one: an integer of so many bits, a double, or a truth value.  Only
characters of ASCII count, with blanks around a numeral.
-/

namespace ChainFold.Numeral

/-- A text without the ASCII blanks in front; `none` if it has other than ASCII characters. -/
def body? (text : String) : Option (List Char) :=
  let cs := text.toList
  if cs.all fun c => c.toNat < 128 then some (cs.dropWhile Shape.isGap) else none

/-- A number in decimal: its digits times a power of ten. -/
structure Decimal where
  digits : Nat
  power : Int
  /-- The number of digits that were written. -/
  width : Nat

/-- A run of digits, with single underscores between them if that is allowed, and the rest. -/
def digitRun (bars : Bool) (base : Nat) : List Char → List Nat × List Char
  | [] => ([], [])
  | c :: rest =>
    match Text.digit? base c with
    | none => ([], c :: rest)
    | some d =>
      match rest with
      | '_' :: x :: more =>
        if bars && (Text.digit? base x).isSome then
          let (ds, rest) := digitRun bars base (x :: more)
          (d :: ds, rest)
        else ([d], rest)
      | rest =>
        let (ds, rest) := digitRun bars base rest
        (d :: ds, rest)

/-- The exponent behind a mantissa, which may be missing, and the rest. -/
def exponent? (bars : Bool) : List Char → Option (Int × List Char)
  | e :: rest =>
    if e == 'e' || e == 'E' then
      let (negative, rest) := Text.splitSign rest
      match digitRun bars 10 rest with
      | ([], _) => none
      | (ds, rest) =>
        let n : Int := Text.ofDigits 10 ds
        some (if negative then -n else n, rest)
    else some (0, e :: rest)
  | [] => some (0, [])

/--
An unsigned decimal numeral up to the end: digits with a point among them or at either
end, and an exponent.  Nothing but blanks may follow.
-/
def decimal? (bars : Bool) (cs : List Char) : Option Decimal := do
  let (whole, rest) := digitRun bars 10 cs
  let (fraction, rest) := match rest with
    | '.' :: rest => digitRun bars 10 rest
    | rest => ([], rest)
  if whole.isEmpty && fraction.isEmpty then none
  let (exp, rest) ← exponent? bars rest
  let ds := whole ++ fraction
  if rest.all Shape.isGap then
    some ⟨Text.ofDigits 10 ds, exp - fraction.length, ds.length⟩
  else none

def Decimal.toDouble (negative : Bool) (x : Decimal) : Double :=
  Double.ofDecimal negative x.digits x.power

/-- The most digits of an integer that are of interest. -/
def maxDigits : Nat := 40

/-- The integer nearest to a decimal number, a half away from zero; `none` for a very large one. -/
def Decimal.toNat? (x : Decimal) : Option Nat :=
  if x.digits = 0 || x.power + x.width < 0 then some 0
  else if maxDigits < x.power then none
  else if 0 ≤ x.power then some (x.digits * Nat.pow 10 x.power.toNat)
  else
    let unit := Nat.pow 10 (-x.power).toNat
    some ((2 * x.digits + unit) / (2 * unit))

/-- A numeral in base 16 or 2 behind a mark, up to the end. -/
def marked? (cs : List Char) : Option Nat :=
  let inBase (base : Nat) (cs : List Char) : Option Nat :=
    match digitRun true base cs with
    | (d :: ds, []) => some (Text.ofDigits base (d :: ds))
    | _ => none
  match cs with
  | '0' :: 'x' :: rest | '0' :: 'X' :: rest => inBase 16 rest
  | '0' :: 'b' :: rest | '0' :: 'B' :: rest => inBase 2 rest
  | _ => none

/-- The integer that a text stands for: a numeral in base 16 or 2, or a decimal one, rounded. -/
def integer? (text : String) : Option Int := do
  let cs ← body? text
  match marked? cs with
  | some n => pure n
  | none =>
    let (negative, cs) := Text.splitSign cs
    let n : Int ← (← decimal? true cs).toNat?
    pure (if negative then -n else n)

def double? (text : String) : Option Double := do
  let (negative, cs) := Text.splitSign (← body? text)
  let word := Text.lower (String.ofList (Text.trimBoth Shape.isGap cs))
  if word == "inf" || word == "infinity" then some (Double.infinity negative)
  else if word == "nan" then some Double.nan
  else (decimal? true cs).map (Decimal.toDouble negative)

/-- The words for true, and those for false. -/
def truthWords : List String × List String :=
  (["true", "t", "1", "yes", "y"], ["false", "f", "0", "no", "n"])

/-- The truth value that a text stands for. -/
def truth? (text : String) : Option Bool :=
  let word := Text.lower text
  if truthWords.1.contains word then some true
  else if truthWords.2.contains word then some false
  else none

/-- The double that a plain decimal numeral stands for: without underscores and words. -/
def plain? (text : String) : Option Double := do
  let (negative, cs) := Text.splitSign (← body? text)
  (decimal? false cs).map (Decimal.toDouble negative)

/-- The integer that a plain numeral without point and exponent stands for. -/
def plainInteger? (text : String) : Option Int := do
  let (negative, cs) := Text.splitSign (← body? text)
  match digitRun false 10 cs with
  | ([], _) => none
  | (ds, rest) =>
    let n : Int := Text.ofDigits 10 ds
    if rest.all Shape.isGap then some (if negative then -n else n) else none

end ChainFold.Numeral
