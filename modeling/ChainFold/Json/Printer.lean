import ChainFold.Double.Decimal
import ChainFold.Json.Basic
import ChainFold.Text.Quoted
/-!
# Writing JSON text

One printer with a record that says how characters are escaped and what stands
between parts.  Order is not the printer's concern: the canonical and archived
forms print the value with its keys sorted.
-/

namespace ChainFold.Json

/-- How values are laid out as text. -/
structure Style where
  /-- Whether characters above U+007E are escaped. -/
  ascii : Bool
  /-- What follows an item that is not the last. -/
  separator : List Char
  /-- What follows a key. -/
  colon : List Char

/-- No blanks, and characters as they are. -/
def compact : Style := ⟨false, [','], [':']⟩

/-- No blanks, and ASCII only. -/
def compactAscii : Style := ⟨true, [','], [':']⟩

/-- A blank after each mark, and ASCII only. -/
def spacedAscii : Style := ⟨true, [',', ' '], [':', ' ']⟩

def unitEscape (n : Nat) : List Char := '\\' :: 'u' :: Text.hexDigits 4 n

def escapeChar (ascii : Bool) (c : Char) : List Char :=
  if c == '"' then ['\\', '"']
  else if c == '\\' then ['\\', '\\']
  else if c == '\n' then ['\\', 'n']
  else if c == '\r' then ['\\', 'r']
  else if c == '\t' then ['\\', 't']
  else if c == '\x08' then ['\\', 'b']
  else if c == '\x0c' then ['\\', 'f']
  else if c.toNat < 0x20 then unitEscape c.toNat
  else if !ascii || c.toNat < 0x7f then [c]
  else if c.toNat < 0x10000 then unitEscape c.toNat
  else
    let n := c.toNat - 0x10000
    unitEscape (0xd800 + n / 0x400) ++ unitEscape (0xdc00 + n % 0x400)

def stringText (ascii : Bool) (s : String) : List Char :=
  '"' :: (s.toList.flatMap (escapeChar ascii) ++ ['"'])

mutual

def print (st : Style) : Json → List Char
  | .null => ['n', 'u', 'l', 'l']
  | .bool true => ['t', 'r', 'u', 'e']
  | .bool false => ['f', 'a', 'l', 's', 'e']
  | .int n => Text.integer n
  | .double d => d.toText Double.jsonWords
  | .str s => stringText st.ascii s
  | .arr items => '[' :: (printItems st items ++ [']'])
  | .obj members => '\x7b' :: (printMembers st members ++ ['\x7d'])

def printItems (st : Style) : List Json → List Char
  | [] => []
  | [j] => print st j
  | j :: rest => print st j ++ (st.separator ++ printItems st rest)

def printMembers (st : Style) : List (String × Json) → List Char
  | [] => []
  | [(k, j)] => stringText st.ascii k ++ (st.colon ++ print st j)
  | (k, j) :: rest =>
    stringText st.ascii k ++ (st.colon ++ (print st j ++ (st.separator ++ printMembers st rest)))

end

/-- The canonical text: sorted keys, no blanks, characters as they are. -/
def canonical (j : Json) : String := String.ofList (print compact j.sortKeys)

/-- The archived text: sorted keys, no blanks, ASCII only. -/
def archived (j : Json) : String := String.ofList (print compactAscii j.sortKeys)

/-- The text of a log line: keys as they come, blanks after marks, ASCII only. -/
def logged (j : Json) : String := String.ofList (print spacedAscii j)

/-!
## Displayed values

The text of a value inside a message: a string as it is, anything else in a
notation of its own, with quotes around the strings inside arrays and objects.
-/

mutual

/-- The text of a value inside another. -/
def inner : Json → List Char
  | .null => "None".toList
  | .bool true => "True".toList
  | .bool false => "False".toList
  | .int n => Text.integer n
  | .double d => d.toText Double.displayWords
  | .str s => (Text.quoted s).toList
  | .arr items => '[' :: (innerItems items ++ [']'])
  | .obj members => '\x7b' :: (innerMembers members ++ ['\x7d'])

def innerItems : List Json → List Char
  | [] => []
  | [j] => inner j
  | j :: rest => inner j ++ ',' :: ' ' :: innerItems rest

def innerMembers : List (String × Json) → List Char
  | [] => []
  | [(k, j)] => (Text.quoted k).toList ++ ':' :: ' ' :: inner j
  | (k, j) :: rest =>
    (Text.quoted k).toList ++ ':' :: ' ' :: (inner j ++ ',' :: ' ' :: innerMembers rest)

end

def display : Json → String
  | .str s => s
  | j => String.ofList (inner j)

/-- The text of a value as it stands inside another: a string in quotes. -/
def shown (j : Json) : String := String.ofList (inner j)

end ChainFold.Json
