import ChainFold.Json.Reader
import ChainFold.Yaml.Cursor
/-!
# Quoted scalars

Texts between single or double quotes.  A line break inside is folded into a space,
and empty lines into line breaks; only double quotes allow escapes.
-/

namespace ChainFold.Yaml.Scan

/-- The character of a one-letter escape between double quotes. -/
def escape? (c : Char) : Option Char :=
  if c == '0' then some '\x00'
  else if c == 'a' then some '\x07'
  else if c == 'b' then some '\x08'
  else if c == 't' || c == '\t' then some '\t'
  else if c == 'n' then some '\n'
  else if c == 'v' then some '\x0b'
  else if c == 'f' then some '\x0c'
  else if c == 'r' then some '\r'
  else if c == 'e' then some '\x1b'
  else if c == ' ' || c == '"' || c == '\\' || c == '/' then some c
  else if c == 'N' then some '\u0085'
  else if c == '_' then some '\u00a0'
  else if c == 'L' then some '\u2028'
  else if c == 'P' then some '\u2029'
  else none

/-- The number of digits behind the letter of a numeric escape. -/
def escapeWidth? (c : Char) : Option Nat :=
  if c == 'x' then some 2
  else if c == 'u' then some 4
  else if c == 'U' then some 8
  else none

/--
The character of a code point, which has 31 bits; there is none for a surrogate or beyond
the last plane.
-/
def codePoint (n : Nat) : Scan Char :=
  if n < 0xd800 || (0xe000 ≤ n && n < 0x110000) then pure (Char.ofNat n)
  else if n < Nat.pow 2 31 then throw .badValue
  else throw .tooLarge

/-- A numeric escape with so many digits. -/
def numericEscape (width : Nat) : Scan Char := do
  let cs := (← get).rest.take width
  let ds := cs.filterMap Json.hex?
  need (ds.length == width)
  let c ← codePoint (Text.ofDigits 16 ds)
  forward width
  pure c

/-- Line breaks with blanks in front of them; a document must not end among them. -/
def quotedBreaks : (fuel : Nat) → Scan (List Char)
  | 0 => pure []
  | fuel + 1 => do
    need !(← get).atSeparator
    let _ ← takeWhile fun c => c == ' ' || c == '\t'
    match ← lineBreak with
    | [] => pure []
    | cs => return cs ++ (← quotedBreaks fuel)

/-- What folded lines are read as: a first line break, and further ones behind it. -/
def folded (first further : List Char) : List Char :=
  if first != ['\n'] then first ++ further
  else if further.isEmpty then [' ']
  else further

def escape (fuel : Nat) : Scan (List Char) := do
  match ← peek with
  | none => stray
  | some c =>
    match escape? c, escapeWidth? c with
    | some x, _ => do
      forward 1
      pure [x]
    | none, some width => do
      forward 1
      return [← numericEscape width]
    | none, none => do
      need (isBreak c)
      let _ ← lineBreak
      quotedBreaks fuel

/-- Whether a character is read as it is between quotes of either kind. -/
def isPlainInQuotes (c : Char) : Bool :=
  !(c == '\'' || c == '"' || c == '\\' || c == ' ' || c == '\t' || isBreak c)

/-- The characters between quotes up to a blank or the end. -/
def quotedWord (double : Bool) : (fuel : Nat) → Scan (List Char)
  | 0 => pure []
  | fuel + 1 => do
    let cs ← takeWhile isPlainInQuotes
    let c ← get
    if !double && c.isAt '\'' && c.peekAt 1 == some '\'' then do
      forward 2
      return cs ++ '\'' :: (← quotedWord double fuel)
    else if double && c.isAt '\'' then do
      forward 1
      return cs ++ '\'' :: (← quotedWord double fuel)
    else if !double && (c.isAt '"' || c.isAt '\\') then do
      forward 1
      return cs ++ c.rest.take 1 ++ (← quotedWord double fuel)
    else if double && c.isAt '\\' then do
      forward 1
      let xs ← escape fuel
      return cs ++ xs ++ (← quotedWord double fuel)
    else pure cs

/-- Blanks between quotes, folded if they end a line. -/
def quotedBlanks (fuel : Nat) : Scan (List Char) := do
  let blanks ← takeWhile fun c => c == ' ' || c == '\t'
  match ← peek with
  | none => stray
  | some _ =>
    match ← lineBreak with
    | [] => pure blanks
    | first => return folded first (← quotedBreaks fuel)

/-- The rest of a quoted scalar behind its first quote. -/
def quotedRest (double : Bool) (quote : Char) : (fuel : Nat) → Scan (List Char)
  | 0 => stray
  | fuel + 1 => do
    let cs ← quotedWord double (fuel + 1)
    if (← get).isAt quote then do
      forward 1
      pure cs
    else
      let blanks ← quotedBlanks (fuel + 1)
      return cs ++ blanks ++ (← quotedRest double quote fuel)

def quoted : Scan String := do
  let c ← get
  forward 1
  let quote := if c.isAt '"' then '"' else '\''
  return String.ofList (← quotedRest (c.isAt '"') quote (c.rest.length + 1))

end ChainFold.Yaml.Scan
