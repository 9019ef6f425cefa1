import ChainFold.Json.Basic
import ChainFold.Text.Codes
import ChainFold.Text.Integer
/-!
# Reading JSON text

A reader by descent over the characters.  Besides the standard grammar it takes
the words `NaN`, `Infinity` and `-Infinity`; of repeated keys the last value
counts, at the place of the first.  The first fault met from the left is the
answer.
-/

namespace ChainFold.Json

/-- Why a text is not read as JSON. -/
inductive ReadFault where
  /-- The text is not JSON. -/
  | malformed
  /-- An integer has more digits than are converted. -/
  | hugeInteger
  deriving DecidableEq, Repr

/-- The four characters that may stand between tokens. -/
def isGap (c : Char) : Bool := c == ' ' || c == '\t' || c == '\n' || c == '\r'

/-- The text after leading gaps. -/
def skipGap (cs : List Char) : List Char := cs.dropWhile isGap

def hex? (c : Char) : Option Nat :=
  if '0' ≤ c && c ≤ '9' then some (c.toNat - '0'.toNat)
  else if 'a' ≤ c && c ≤ 'f' then some (c.toNat - 'a'.toNat + 10)
  else if 'A' ≤ c && c ≤ 'F' then some (c.toNat - 'A'.toNat + 10)
  else none

/-- The code unit written by four hexadecimal digits. -/
def unit? (a b c d : Char) : Option Nat := do
  pure (((← hex? a) * 16 + (← hex? b)) * 256 + ((← hex? c) * 16 + (← hex? d)))

/-- The first half of a pair of code units. -/
def isLead (n : Nat) : Bool := 0xd800 ≤ n && n < 0xdc00

/-- The second half of a pair of code units. -/
def isTrail (n : Nat) : Bool := 0xdc00 ≤ n && n < 0xe000

/-- The character that a backslash and one letter stand for. -/
def shortEscape? (c : Char) : Option Char :=
  if c == '"' || c == '\\' || c == '/' then some c
  else if c == 'n' then some '\n'
  else if c == 'r' then some '\r'
  else if c == 't' then some '\t'
  else if c == 'b' then some '\x08'
  else if c == 'f' then some '\x0c'
  else none

/-- Put a character in front of what was read. -/
def consRead (c : Char) :
    Except ReadFault (List Char × List Char) → Except ReadFault (List Char × List Char)
  | .ok (cs, rest) => .ok (c :: cs, rest)
  | .error f => .error f

/--
Read the rest of a string, after its opening quote.  A string is a text of characters, so a
code unit that is half of a pair must be escaped together with the other half.
-/
def readString : List Char → Except ReadFault (List Char × List Char)
  | [] => .error .malformed
  | '"' :: rest => .ok ([], rest)
  | '\\' :: 'u' :: a :: b :: c :: d :: rest =>
    match unit? a b c d with
    | none => .error .malformed
    | some n =>
      if isLead n then
        match rest with
        | '\\' :: 'u' :: e :: f :: g :: h :: rest' =>
          match unit? e f g h with
          | none => .error .malformed
          | some m =>
            if isTrail m then
              consRead (Char.ofNat (0x10000 + (n - 0xd800) * 0x400 + (m - 0xdc00)))
                (readString rest')
            else .error .malformed
        | _ => .error .malformed
      else if isTrail n then .error .malformed
      else consRead (Char.ofNat n) (readString rest)
  | '\\' :: e :: rest =>
    match shortEscape? e with
    | none => .error .malformed
    | some c => consRead c (readString rest)
  | c :: rest =>
    if c.toNat < 0x20 || c == '\\' then .error .malformed else consRead c (readString rest)

def digitValue (c : Char) : Nat := c.toNat - '0'.toNat

def ofDigits (ds : List Char) : Nat := Text.ofDigits 10 (ds.map digitValue)

/-- The digits of a fraction with the text behind them; none without a point and a digit. -/
def splitFraction : List Char → List Char × List Char
  | '.' :: rest =>
    let ds := rest.takeWhile Char.isDigit
    if ds.isEmpty then ([], '.' :: rest) else (ds, rest.dropWhile Char.isDigit)
  | cs => ([], cs)

/-- An exponent with the text behind it; none without a mark and a digit. -/
def splitExponent (cs : List Char) : Option Int × List Char :=
  match cs with
  | [] => (none, cs)
  | e :: rest =>
    if e == 'e' || e == 'E' then
      let (negative, body) := Text.splitSign rest
      let ds := body.takeWhile Char.isDigit
      if ds.isEmpty then (none, cs)
      else
        let n : Int := ofDigits ds
        (some (if negative then -n else n), body.dropWhile Char.isDigit)
    else (none, cs)

/-- The digits of an unsigned integer: a zero alone, or digits that start with none. -/
def splitWhole : List Char → List Char × List Char
  | '0' :: rest => (['0'], rest)
  | cs => (cs.takeWhile Char.isDigit, cs.dropWhile Char.isDigit)

/-- Read a number whose sign has been taken off. -/
def readUnsigned (negative : Bool) (cs : List Char) : Except ReadFault (Json × List Char) :=
  let (whole, rest) := splitWhole cs
  if whole.isEmpty then .error .malformed
  else
    let (fraction, rest) := splitFraction rest
    let (exp?, rest) := splitExponent rest
    if fraction.isEmpty && exp?.isNone then
      if Text.maxDecimalDigits < whole.length then .error .hugeInteger
      else
        let n : Int := ofDigits whole
        .ok (.int (if negative then -n else n), rest)
    else
      let exp := exp?.getD 0 - fraction.length
      .ok (.double (Double.ofDecimal negative (ofDigits (whole ++ fraction)) exp), rest)

def readScalar : List Char → Except ReadFault (Json × List Char)
  | 'n' :: 'u' :: 'l' :: 'l' :: rest => .ok (.null, rest)
  | 't' :: 'r' :: 'u' :: 'e' :: rest => .ok (.bool true, rest)
  | 'f' :: 'a' :: 'l' :: 's' :: 'e' :: rest => .ok (.bool false, rest)
  | 'N' :: 'a' :: 'N' :: rest => .ok (.double Double.nan, rest)
  | 'I' :: 'n' :: 'f' :: 'i' :: 'n' :: 'i' :: 't' :: 'y' :: rest =>
    .ok (.double (Double.infinity false), rest)
  | '-' :: 'I' :: 'n' :: 'f' :: 'i' :: 'n' :: 'i' :: 't' :: 'y' :: rest =>
    .ok (.double (Double.infinity true), rest)
  | '-' :: rest => readUnsigned true rest
  | cs => readUnsigned false cs

mutual

/-- Read a value from a text without leading gaps; `fuel` bounds the depth of the descent. -/
def readValue : (fuel : Nat) → List Char → Except ReadFault (Json × List Char)
  | 0, _ => .error .malformed
  | fuel + 1, cs =>
    match cs with
    | '"' :: rest => do
      let (s, rest) ← readString rest
      pure (.str (String.ofList s), rest)
    | '[' :: rest =>
      match skipGap rest with
      | ']' :: rest => .ok (.arr [], rest)
      | rest => do
        let (items, rest) ← readItems fuel rest
        pure (.arr items, rest)
    | '\x7b' :: rest =>
      match skipGap rest with
      | '\x7d' :: rest => .ok (.obj [], rest)
      | rest => do
        let (pairs, rest) ← readMembers fuel rest
        pure (.obj (Members.ofPairs pairs), rest)
    | cs => readScalar cs

def readItems : (fuel : Nat) → List Char → Except ReadFault (List Json × List Char)
  | 0, _ => .error .malformed
  | fuel + 1, cs => do
    let (j, rest) ← readValue fuel cs
    match skipGap rest with
    | ',' :: rest => do
      let (js, rest) ← readItems fuel (skipGap rest)
      pure (j :: js, rest)
    | ']' :: rest => pure ([j], rest)
    | _ => .error .malformed

def readMembers : (fuel : Nat) → List Char → Except ReadFault (List (String × Json) × List Char)
  | 0, _ => .error .malformed
  | fuel + 1, cs =>
    match cs with
    | '"' :: rest => do
      let (k, rest) ← readString rest
      match skipGap rest with
      | ':' :: rest => do
        let (j, rest) ← readValue fuel (skipGap rest)
        match skipGap rest with
        | ',' :: rest => do
          let (ms, rest) ← readMembers fuel (skipGap rest)
          pure ((String.ofList k, j) :: ms, rest)
        | '\x7d' :: rest => pure ([(String.ofList k, j)], rest)
        | _ => .error .malformed
      | _ => .error .malformed
    | _ => .error .malformed

end

/-- Read a text that holds one value and gaps. -/
def read (cs : List Char) : Except ReadFault Json := do
  let (j, rest) ← readValue (2 * cs.length + 2) (skipGap cs)
  if (skipGap rest).isEmpty then pure j else .error .malformed

def readText (s : String) : Except ReadFault Json := read s.toList

/-- Read the JSON text in a byte string; bytes that are not UTF-8 are malformed. -/
def readBytes (bs : Bytes) : Except ReadFault Json :=
  match Text.ofUtf8? bs with
  | none => .error .malformed
  | some s => readText s

end ChainFold.Json
