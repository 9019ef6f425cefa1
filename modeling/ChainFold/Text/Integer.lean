import ChainFold.Text.Characters
import ChainFold.Text.Quoted
/-!
# Reading integers

A numeral is an optional sign and digits of any script, with single underscores
allowed between digits and blanks around the whole.  In base 16 a zero and an `x`
may lead the digits.
-/

namespace ChainFold.Text

/-- Why a text is not read as an integer. -/
inductive NumeralFault where
  /-- The text is not a numeral of the base. -/
  | notANumeral (base : Nat) (text : String)
  /-- The numeral has more digits than are converted. -/
  | tooManyDigits (count : Nat)
  deriving DecidableEq, Repr

/-- The most decimal digits that are converted to an integer. -/
def maxDecimalDigits : Nat := 4300

/-- The wording for an integer that has too many digits to be written. -/
def tooLongToWrite : String :=
  s!"Exceeds the limit ({maxDecimalDigits} digits) for integer string conversion; " ++
    "use sys.set_int_max_str_digits() to increase the limit"

/-- Whether an integer has more digits than are written. -/
def isTooLong (n : Int) : Bool := Nat.pow 10 maxDecimalDigits ≤ n.natAbs

/-- The most characters of a quoted text that a message repeats. -/
def maxQuotedInMessage : Nat := 200

def NumeralFault.message : NumeralFault → String
  | .notANumeral base text =>
    s!"invalid literal for int() with base {base}: " ++
      String.ofList ((quoted text).toList.take maxQuotedInMessage)
  | .tooManyDigits count =>
    s!"Exceeds the limit ({maxDecimalDigits} digits) for integer string conversion: " ++
      s!"value has {count} digits; use sys.set_int_max_str_digits() to increase the limit"

/--
The values of digits separated by at most one underscore each; `none` unless
the characters start and end with a digit.
-/
def digitValues? (base : Nat) : List Char → Option (List Nat)
  | [] => none
  | [c] => (digit? base c).map ([·])
  | c :: '_' :: rest => do
    let d ← digit? base c
    let ds ← digitValues? base rest
    pure (d :: ds)
  | c :: rest => do
    let d ← digit? base c
    let ds ← digitValues? base rest
    pure (d :: ds)

/-- The number whose digits, highest first, are `ds`. -/
def ofDigits (base : Nat) (ds : List Nat) : Nat :=
  ds.foldl (fun n d => n * base + d) 0

/-- The characters without an underscore in front. -/
def dropBar : List Char → List Char
  | '_' :: rest => rest
  | cs => cs

/-- The characters after a base mark, a zero and an `x`, and after one underscore behind it. -/
def dropBaseMark : List Char → List Char
  | z :: x :: rest =>
    if decimalDigit? z == some 0 && (x == 'x' || x == 'X') then dropBar rest else z :: x :: rest
  | cs => cs

def splitSign : List Char → Bool × List Char
  | '-' :: rest => (true, rest)
  | '+' :: rest => (false, rest)
  | cs => (false, cs)

/--
Read an integer in base 10 or 16.  The digits at the front are counted before
what follows them is looked at, so a numeral that is too long is reported as
such even when it does not end well.
-/
def readInteger (base : Nat) (text : String) : Except NumeralFault Int :=
  let (negative, body) := splitSign (trimBoth isNumeralBlank text.toList)
  let body := if base == 16 then dropBaseMark body else body
  let inRun (c : Char) : Bool := c == '_' || (digit? base c).isSome
  match digitValues? base (body.takeWhile inRun) with
  | none => .error (.notANumeral base text)
  | some ds =>
    if base == 10 && maxDecimalDigits < ds.length then .error (.tooManyDigits ds.length)
    else if !(body.dropWhile inRun).isEmpty then .error (.notANumeral base text)
    else
      let n : Int := ofDigits base ds
      .ok (if negative then -n else n)

end ChainFold.Text
