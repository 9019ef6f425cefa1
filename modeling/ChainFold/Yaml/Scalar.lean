import ChainFold.Double.Basic
import ChainFold.Double.Decimal
import ChainFold.Yaml.Moment
/-!
# YAML scalars

The value of an untagged plain scalar follows from its form: null, a boolean, an
integer in one of several bases, a double, a moment, or else the text itself.  A tag
asks for one of these whatever the form is.
-/

namespace ChainFold.Yaml

/-- What a scalar is read as. -/
inductive Kind where
  | null
  | bool
  | int
  | double
  | moment
  | str
  /-- The mark of a mapping to be merged into the one around it. -/
  | merge
  /-- The mark of a default value, a text as a key and nothing elsewhere. -/
  | default
  deriving DecidableEq

namespace Kind

def nullWords : List String := ["", "~", "null", "Null", "NULL"]

def trueWords : List String :=
  ["yes", "Yes", "YES", "true", "True", "TRUE", "on", "On", "ON"]

def falseWords : List String :=
  ["no", "No", "NO", "false", "False", "FALSE", "off", "Off", "OFF"]

/-- Whether a character is an underscore or a digit of a base. -/
def isDigitOrBar (base : Nat) (c : Char) : Bool :=
  c == '_' || (c.toNat < 128 && (Text.digit? base c).isSome)

/-- Whether characters are digits of a base or underscores, and at least one. -/
def isRun (base : Nat) (cs : List Char) : Bool := !cs.isEmpty && cs.all (isDigitOrBar base)

/-- Whether a part behind a colon is a number below sixty. -/
def isSixtieth : List Char → Bool
  | [a] => a.isDigit
  | [a, b] => '0' ≤ a && a ≤ '5' && b.isDigit
  | _ => false

/-- The parts of a text between its colons. -/
def colonParts (cs : List Char) : List (List Char) := cs.splitOn ':'

/-- Whether a number is written in base sixty, with colons. -/
def isSexagesimal (cs : List Char) : Bool :=
  match colonParts cs with
  | first :: second :: rest =>
    first.head?.any Char.isDigit && isRun 10 first && (second :: rest).all isSixtieth
  | _ => false

/-- Whether an unsigned text has the form of an integer. -/
def isNatural : List Char → Bool
  | ['0'] => true
  | '0' :: 'b' :: rest => isRun 2 rest
  | '0' :: 'x' :: rest => isRun 16 rest
  | '0' :: rest => isRun 8 rest
  | '_' :: _ => false
  | cs => isRun 10 cs || isSexagesimal cs

/-- Whether characters are nothing or an exponent, which must have a sign. -/
def isExponent : List Char → Bool
  | [] => true
  | e :: s :: rest =>
    (e == 'e' || e == 'E') && (s == '+' || s == '-') && !rest.isEmpty && rest.all Char.isDigit
  | _ => false

/-- Whether characters are the digits behind a point and perhaps an exponent. -/
def isFraction (cs : List Char) : Bool := isExponent (cs.dropWhile (isDigitOrBar 10))

/-- Whether an unsigned text has the form of a double that starts with a digit. -/
def isDecimal (cs : List Char) : Bool :=
  let whole := cs.takeWhile (· != '.')
  match cs.dropWhile (· != '.') with
  | '.' :: rest =>
    whole.head?.any Char.isDigit &&
      ((isRun 10 whole && isFraction rest) || (isSexagesimal whole && rest.all (isDigitOrBar 10)))
  | _ => false

/-- Whether a text has the form of a double; one that starts with a point has no sign. -/
def isDouble (cs : List Char) : Bool :=
  let body := (Text.splitSign cs).2
  isDecimal body || [".inf", ".Inf", ".INF"].contains (String.ofList body) ||
    [".nan", ".NaN", ".NAN"].contains (String.ofList cs) ||
    (match cs with
      | '.' :: c :: rest => c.isDigit && isFraction rest
      | _ => false)

/-- The kind of an untagged plain scalar. -/
def ofForm (text : String) : Kind :=
  let cs := text.toList
  if nullWords.contains text then .null
  else if trueWords.contains text || falseWords.contains text then .bool
  else if isNatural (Text.splitSign cs).2 then .int
  else if isDouble cs then .double
  else if (Moment.read? cs).isSome then .moment
  else if text == "<<" then .merge
  else if text == "=" then .default
  else .str

end Kind

namespace Scalar

/-- A text without underscores, which must have a character. -/
def bare (text : String) : Except Defect (List Char) :=
  match text.toList.filter (· != '_') with
  | [] => .error .noItems
  | cs => .ok cs

/-- A numeral in a base. -/
def numeral (base : Nat) (cs : List Char) : Except Defect Int :=
  match Text.readInteger base (String.ofList cs) with
  | .ok n => .ok n
  | .error _ => .error .badValue

/-- The number with these digits in base sixty, the highest first. -/
def inSixties (parts : List Int) : Int := parts.foldl (fun n d => n * 60 + d) 0

/-- An unsigned integer in the base that its beginning names. -/
def natural (cs : List Char) : Except Defect Int :=
  match cs with
  | [] => .error .noItems
  | ['0'] => .ok 0
  | '0' :: 'b' :: rest => numeral 2 rest
  | '0' :: 'x' :: rest => numeral 16 rest
  | '0' :: _ => numeral 8 cs
  | _ =>
    if cs.contains ':' then inSixties <$> (Kind.colonParts cs).mapM (numeral 10)
    else numeral 10 cs

def integer (text : String) : Except Defect Int := do
  let (negative, body) := Text.splitSign (← bare text)
  let n ← natural body
  pure (if negative then -n else n)

/--
The sum of doubles in base sixty, the lowest first, added one by one; the power of
sixty must be in the range of doubles itself.
-/
def sumSixties : (power : Nat) → (sum : Double) → List Double → Except Defect Double
  | _, sum, [] => .ok sum
  | power, sum, d :: rest =>
    let scale := Double.ofInt (Int.pow 60 power)
    if scale.isFinite then sumSixties (power + 1) (sum.add (d.mul scale)) rest
    else .error .tooLarge

/-- A double, by the form that it has outside YAML. -/
def part (cs : List Char) : Except Defect Double :=
  match Double.read? (String.ofList cs) with
  | some d => .ok d
  | none => .error .badValue

def negated (d : Double) : Double :=
  Double.ofMagnitude (!d.isNegative) (d.bits.toNat % Nat.pow 2 63)

def double (text : String) : Except Defect Double := do
  let (negative, body) := Text.splitSign ((← bare text).map Char.toLower)
  let word := String.ofList body
  if word == ".inf" then pure (Double.infinity negative)
  else if word == ".nan" then pure Double.nan
  else
    let d ← if body.contains ':' then do
        let parts ← (Kind.colonParts body).mapM part
        sumSixties 0 (Double.zero false) parts.reverse
      else part body
    pure (if negative then negated d else d)

/-- A boolean, in any case of its letters. -/
def bool (text : String) : Except Defect Bool :=
  let word := Text.lower text
  if Kind.trueWords.contains word then .ok true
  else if Kind.falseWords.contains word then .ok false
  else .error (.missingKey word)

/-- An octet between quotes. -/
def octetText (quote : Char) (b : UInt8) : List Char :=
  if b.toNat < 0x80 then Text.quotedChar quote (Char.ofNat b.toNat)
  else '\\' :: 'x' :: Text.hexDigits 2 b.toNat

def octets (text : String) : Except Defect Value :=
  match Text.Base64.decode text.toList with
  | .error _ => .error (.notYaml .values)
  | .ok bs =>
    let quote := Text.quoteOf (bs.map fun b => Char.ofNat b.toNat)
    let shown := String.ofList ('b' :: quote :: (bs.flatMap (octetText quote) ++ [quote]))
    .ok (.foreign shown shown)

def value (text : String) : Kind → Except Defect Value
  | .null => .ok .null
  | .bool => .bool <$> bool text
  | .int => .int <$> integer text
  | .double => .double <$> double text
  | .moment =>
    match Moment.read? text.toList with
    | some m => m.value
    | none => .error .noSuchPart
  | .str => .ok (.str text)
  | .merge | .default => .error (.notYaml .values)

/-- What the tags of the core schema start with. -/
def coreTag (name : String) : String := "tag:yaml.org,2002:" ++ name

def kindOfTag? (tag : String) : Option Kind :=
  ([("null", Kind.null), ("bool", .bool), ("int", .int), ("float", .double),
    ("timestamp", .moment), ("str", .str)].find? fun p => coreTag p.1 == tag).map (·.2)

def kind? (tag : Option String) (plain : Bool) (text : String) : Option Kind :=
  match tag with
  | some tag => kindOfTag? tag
  | none => some (if plain then Kind.ofForm text else .str)

end Scalar

end ChainFold.Yaml
