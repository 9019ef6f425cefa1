import ChainFold.Double.Decimal
import ChainFold.Double.Significant
import ChainFold.Failure
import ChainFold.Json.Basic
import ChainFold.Text.Characters
/-!
# Backends

Where tables are kept.  In memory every value is kept as it is.  A relational backend
keeps identifiers in columns of texts and JSON as text: it turns what it can into a
text, refuses the rest, and reads JSON back with the members of objects in the order
of their keys.
-/

/-!
## Collections in columns

A backend that keeps an array or an object in a column of texts first gives its parts
a common shape: booleans become numbers among numbers, integers become doubles among
doubles, and anything becomes a text among texts.  Then it writes the parts between
brackets or braces, a text between quotes only where it would be misread.
-/

namespace ChainFold

/-- What the parts of a collection have in common. -/
inductive Shape where
  /-- Nulls only. -/
  | nothing
  | bool
  | int
  | double
  | text
  | list (item : Shape)
  | record (fields : List (String × Shape))
  deriving Inhabited

namespace Shape

def isNested : Shape → Bool
  | .list _ | .record _ => true
  | _ => false

mutual

/-- The common shape of two shapes; a collection has none with a single value but a text. -/
def join : Shape → Shape → Option Shape
  | .nothing, s | s, .nothing => some s
  | .text, _ | _, .text => some .text
  | .list s, .list t => (join s t).map .list
  | .record fs, .record gs => (joinFields fs gs).map fun hs =>
      .record (hs ++ gs.filter fun g => (fs.lookup g.1).isNone)
  | .list _, _ | _, .list _ | .record _, _ | _, .record _ => none
  | .double, _ | _, .double => some .double
  | .int, _ | _, .int => some .int
  | .bool, .bool => some .bool

/-- The fields of a record, joined with those of the same names in another. -/
def joinFields : List (String × Shape) → List (String × Shape) → Option (List (String × Shape))
  | [], _ => some []
  | (k, s) :: fs, gs => do
    let t ← match gs.lookup k with
      | none => some s
      | some t => join s t
    pure ((k, t) :: (← joinFields fs gs))

end

def joinAll (shapes : List Shape) : Option Shape := shapes.foldlM join .nothing

/-- Whether an integer has 128 bits. -/
def isWide (n : Int) : Bool := -Int.pow 2 127 ≤ n && n < Int.pow 2 127

mutual

/-- The shape of a value, if its integers are in range and its parts have a common one. -/
def ofJson? : Json → Option Shape
  | .null => some .nothing
  | .bool _ => some .bool
  | .int n => if isWide n then some .int else none
  | .double _ => some .double
  | .str _ => some .text
  | .arr items => do
    let shapes ← ofItems? items
    (joinAll shapes).map .list
  | .obj members => (ofMembers? members).map .record

def ofItems? : List Json → Option (List Shape)
  | [] => some []
  | j :: rest => do pure ((← ofJson? j) :: (← ofItems? rest))

def ofMembers? : List (String × Json) → Option (List (String × Shape))
  | [] => some []
  | (k, j) :: rest => do pure ((k, ← ofJson? j) :: (← ofMembers? rest))

end

/-- Whether a character is misread in a collection unless it stands between quotes. -/
def isMark (c : Char) : Bool :=
  ['"', '\'', '(', ')', ',', ':', '=', '[', '\\', ']', '\x7b', '\x7d'].contains c

/-- Whether a character is a blank of ASCII. -/
def isGap (c : Char) : Bool := c == ' ' || (9 ≤ c.toNat && c.toNat ≤ 13)

/-- Whether a text is misread in a collection unless it stands between quotes. -/
def needsQuotes (cs : List Char) : Bool :=
  cs.isEmpty || cs.head?.any isGap || cs.getLast?.any isGap || cs.any isMark ||
    cs.map Char.toLower == "null".toList

/-- A text between single quotes. -/
def inQuotes (cs : List Char) : List Char :=
  '\'' :: (cs.flatMap (fun c => if c == '\'' || c == '\\' then ['\\', c] else [c]) ++ ['\''])

/-- The text of a part of a shape, between quotes if it needs them. -/
def part (s : Shape) (j : Json) (text : List Char) : List Char :=
  if j != .null && !s.isNested && needsQuotes text then inQuotes text else text

def separated (texts : List (List Char)) : List Char := [',', ' '].intercalate texts

/-- The fields of a record, each with the text of its member, or null. -/
def fieldText (texts : List (String × List Char)) (name : String) : List Char :=
  inQuotes name.toList ++ ':' :: ' ' :: (texts.lookup name).getD "NULL".toList

mutual

/-- The text of a value in a given shape; in any but its own kind of shape, in its own. -/
def write (s : Shape) : Json → List Char
  | .null => "NULL".toList
  | .bool b =>
    match s with
    | .int => Text.decimal b.toNat
    | .double => (Double.ofInt b.toNat).toText Double.displayWords
    | _ => (toString b).toList
  | .int n =>
    match s with
    | .double => (Double.ofInt n).toText Double.displayWords
    | _ => Text.integer n
  | .double d => d.toText Double.displayWords
  | .str t => t.toList
  | .arr items =>
    let item := match s with
      | .list item => item
      | _ => (((ofItems? items).bind joinAll).getD .nothing)
    '[' :: (separated (itemTexts item items) ++ [']'])
  | .obj members =>
    let fields := match s with
      | .record fields => fields
      | _ => (ofMembers? members).getD []
    let texts := memberTexts fields members
    '\x7b' :: (separated (fields.map fun f => fieldText texts f.1) ++ ['\x7d'])

def itemTexts (s : Shape) : List Json → List (List Char)
  | [] => []
  | j :: rest => part s j (write s j) :: itemTexts s rest

/-- The texts of members by name, in the shapes of fields. -/
def memberTexts (fields : List (String × Shape)) :
    List (String × Json) → List (String × List Char)
  | [] => []
  | (k, j) :: rest =>
    let s := (fields.lookup k).getD .nothing
    (k, part s j (write s j)) :: memberTexts fields rest

end

end Shape

/-! ## Backends -/

/-- Where the tables are kept. -/
inductive Backend where
  | memory
  | sqlite
  | duckdb
  deriving DecidableEq, Repr

namespace Backend

def name : Backend → String
  | .memory => "memory"
  | .sqlite => "sqlite"
  | .duckdb => "duckdb"

/-- The name of a backend at the start of a sentence. -/
def title : Backend → String
  | .memory => "Memory"
  | .sqlite => "SQLite"
  | .duckdb => "DuckDB"

def all : List Backend := [.memory, .sqlite, .duckdb]

def ofName? (name : String) : Option Backend := all.find? (·.name == name)

/-- The failure of a transaction that the backend refuses. -/
def refusal (b : Backend) : Failure := .storage s!"{b.name}_transaction" .null

/-- Whether the backend keeps values in columns. -/
def isRelational (b : Backend) : Bool := b != .memory

/-- Whether an integer has 64 bits. -/
def isWord (n : Int) : Bool := -Int.pow 2 63 ≤ n && n < Int.pow 2 63

/--
What a column of texts keeps of a value: a text, or null.  One backend takes words and
doubles in its own spelling and no collections; the other takes integers of twice as
many bits, and collections whose parts have a common shape.
-/
def column (b : Backend) (j : Json) : Except Failure Json :=
  match b, j with
  | .memory, j => .ok j
  | _, .null => .ok .null
  | _, .str s => .ok (.str s)
  | .sqlite, .int n => if isWord n then .ok (toString n) else .error (.defect .tooLarge)
  | .sqlite, .bool c => .ok (toString c.toNat)
  | .sqlite, .double d => .ok (Json.ofText? d.columnText?)
  | .sqlite, _ => .error (refusal .sqlite)
  | .duckdb, j =>
    match Shape.ofJson? j with
    | some s => .ok (String.ofList (s.write j))
    | none => .error (refusal .duckdb)

end Backend

end ChainFold
