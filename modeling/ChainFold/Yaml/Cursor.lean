import ChainFold.Failure
/-!
# Cursors

A place in a text: what is left of it, and the line and column that have been
reached.  The text holds no carriage returns.
-/

namespace ChainFold.Yaml

/-- Whether a character ends a line. -/
def isBreak (c : Char) : Bool := c == '\n' || c == '\u0085' || c == '\u2028' || c == '\u2029'

/-- Whether the text or the line ends here. -/
def endsLine (c : Option Char) : Bool := c.all isBreak

/-- Whether the text, the line or a word before a space ends here. -/
def endsField (c : Option Char) : Bool := c.all fun c => c == ' ' || isBreak c

/-- Whether the text, the line or a word before a space or tab ends here. -/
def endsWord (c : Option Char) : Bool := c.all fun c => c == ' ' || c == '\t' || isBreak c

/-- A letter, digit, hyphen or underscore. -/
def isNameChar (c : Char) : Bool := c.isAlphanum || c == '-' || c == '_'

/-- A place in a text. -/
structure Cursor where
  rest : List Char
  index : Nat
  line : Nat
  column : Nat

namespace Cursor

def start (cs : List Char) : Cursor := ⟨cs, 0, 0, 0⟩

def peek (c : Cursor) : Option Char := c.rest.head?

/-- The character some places ahead. -/
def peekAt (c : Cursor) (n : Nat) : Option Char := c.rest[n]?

def isAt (c : Cursor) (x : Char) : Bool := c.peek == some x

/-- One place ahead; a byte order mark takes no column. -/
def next (c : Cursor) : Cursor :=
  match c.rest with
  | [] => c
  | x :: rest =>
    if isBreak x then ⟨rest, c.index + 1, c.line + 1, 0⟩
    else if x == '\ufeff' then ⟨rest, c.index + 1, c.line, c.column⟩
    else ⟨rest, c.index + 1, c.line, c.column + 1⟩

def forward : (n : Nat) → Cursor → Cursor
  | 0, c => c
  | n + 1, c => forward n c.next

/-- The characters from here that satisfy `p`, and the place behind them. -/
def takeWhile (p : Char → Bool) (c : Cursor) : List Char × Cursor :=
  let cs := c.rest.takeWhile p
  (cs, c.forward cs.length)

/-- The place behind the characters that satisfy `p`. -/
def skipWhile (p : Char → Bool) (c : Cursor) : Cursor := (c.takeWhile p).2

def skipSpaces (c : Cursor) : Cursor := c.skipWhile (· == ' ')

/-- The place at the end of a comment, if one starts here. -/
def skipComment (c : Cursor) : Cursor := if c.isAt '#' then c.skipWhile (!isBreak ·) else c

/-- The characters that a line break here is read as, and the place behind it. -/
def lineBreak (c : Cursor) : List Char × Cursor :=
  match c.peek with
  | some '\n' | some '\u0085' => (['\n'], c.next)
  | some '\u2028' => (['\u2028'], c.next)
  | some '\u2029' => (['\u2029'], c.next)
  | _ => ([], c)

/-- Whether a mark that ends or starts a document is here, if the line starts here. -/
def atSeparator (c : Cursor) : Bool :=
  (c.rest.take 3 == ['-', '-', '-'] || c.rest.take 3 == ['.', '.', '.']) && endsWord (c.peekAt 3)

end Cursor

/-- A step of reading characters, which moves a cursor. -/
abbrev Scan (α : Type) := StateT Cursor (Except Defect) α

namespace Scan

/-- The characters here make up no token. -/
def stray {α : Type} : Scan α := throw (.notYaml .tokens)

def need (b : Bool) : Scan Unit := if b then pure () else stray

def peek : Scan (Option Char) := return (← get).peek

def forward (n : Nat) : Scan Unit := modify (Cursor.forward n)

def takeWhile (p : Char → Bool) : Scan (List Char) := modifyGet (Cursor.takeWhile p)

def skipSpaces : Scan Unit := modify Cursor.skipSpaces

/-- Move behind a line break, if there is one. -/
def lineBreak : Scan (List Char) := modifyGet Cursor.lineBreak

/-- Move to the next line over spaces and a comment; nothing else may be in between. -/
def restOfLine : Scan Unit := do
  skipSpaces
  modify Cursor.skipComment
  need (endsLine (← peek))
  let _ ← lineBreak

/-- A name of at least one letter, digit, hyphen or underscore. -/
def name : Scan (List Char) := do
  let cs ← takeWhile isNameChar
  need !cs.isEmpty
  pure cs

end Scan

end ChainFold.Yaml
