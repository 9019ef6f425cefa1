import ChainFold.Store.Backend
import ChainFold.Store.Numeral
import ChainFold.Store.Table
/-!
# Conditions on rows

Which rows have certain values in certain columns.  In memory values are compared as
they are.  In a column of texts null equals nothing, and what is compared with a text
is turned into one, or else the text is turned into a number; a text that is none then
fails the whole query.
-/

namespace ChainFold

/-- The rows must have a value in a column. -/
structure Condition (α : Type) where
  wanted : Json
  get : α → Json

/-- How a text in a column is compared with a value. -/
inductive Comparison where
  /-- No text equals null. -/
  | never
  /-- The texts must be the same. -/
  | text (s : Json)
  /-- The texts are turned into integers in a range. -/
  | int (n least most : Int)
  /-- The texts are turned into doubles. -/
  | double (d : Double)
  /-- The texts are turned into truth values. -/
  | truth (b : Bool)

namespace Comparison

/-- The comparison with an integer: texts are turned into integers of as many bits as it needs. -/
def ofInt (n : Int) : Comparison :=
  if -Int.pow 2 31 ≤ n && n < Int.pow 2 31 then .int n (-Int.pow 2 31) (Int.pow 2 31 - 1)
  else if Backend.isWord n then .int n (-Int.pow 2 63) (Int.pow 2 63 - 1)
  else if 0 ≤ n && n < Int.pow 2 64 then .int n 0 (Int.pow 2 64 - 1)
  else .int n (-Int.pow 2 127) (Int.pow 2 127 - 1)

/-- Whether two doubles are the same number; here NaN equals itself. -/
def sameDouble (c d : Double) : Bool :=
  c.isNaN && d.isNaN || (Json.Quantity.ofDouble c).same (.ofDouble d)

/-- Whether a text compares as equal; `none` if it cannot be turned into what is compared. -/
def holds? (c : Comparison) (s : String) : Option Bool :=
  match c with
  | .never => some false
  | .text t => some (.str s == t)
  | .int n least most => do
    let m ← Numeral.integer? s
    if least ≤ m && m ≤ most then some (m == n) else none
  | .double d => (Numeral.double? s).map (sameDouble d)
  | .truth b => (Numeral.truth? s).map (· == b)

/-- Whether the comparison leaves texts as they are. -/
def isPlain : Comparison → Bool
  | .never | .text _ => true
  | _ => false

end Comparison

namespace Backend

/-- How a relational backend compares the texts in a column with a value. -/
def comparison (b : Backend) (wanted : Json) : Except Failure Comparison := do
  match ← b.column wanted, b, wanted with
  | .null, _, _ => pure .never
  | _, .duckdb, .int n => pure (.ofInt n)
  | _, .duckdb, .double d => pure (.double d)
  | _, .duckdb, .bool c => pure (.truth c)
  | t, _, _ => pure (.text t)

/-- The rows of a list for which a comparison holds; a column without a text holds for none. -/
def compared {α : Type} (c : Comparison) (get : α → Json) : List α → Except Failure (List α)
  | [] => .ok []
  | row :: rest =>
    match get row with
    | .str s =>
      match c.holds? s with
      | none => .error (refusal .duckdb)
      | some found => (fun rows => if found then row :: rows else rows) <$> compared c get rest
    | _ => compared c get rest

/-- The rows for which all of several comparisons hold, one after another. -/
def comparedAll {α : Type} (rows : List α) (cs : List (Comparison × (α → Json))) :
    Except Failure (List α) :=
  cs.foldlM (fun rows c => compared c.1 c.2 rows) rows

/--
The rows that meet all of several conditions.  A relational backend first takes all the
values that are asked for, and compares texts as they are before it turns any into
numbers.
-/
def select {α : Type} (b : Backend) (conditions : List (Condition α)) (rows : List α) :
    Except Failure (List α) :=
  if !b.isRelational then
    .ok (rows.filter fun row => conditions.all fun c => (c.get row).looselySame c.wanted)
  else do
    let cs ← conditions.mapM fun c => do pure (← b.comparison c.wanted, c.get)
    let rows ← comparedAll rows (cs.filter (·.1.isPlain))
    comparedAll rows (cs.filter (!·.1.isPlain))

/-- The value that a key of a relational table has in its column. -/
def keyColumn : Key → Json
  | .text s => .str s
  | _ => .null

/-- The row of a table under an identifier. -/
def seek {α : Type} (b : Backend) (t : Table α) (id : Json) : Except Failure (Option α) :=
  match b, id with
  | _, .str s => .ok (t.get? (.text s))
  | .memory, _ =>
    match id.key? with
    | some k => .ok (t.get? k)
    | none => .error (.defect .wrongKind)
  | _, _ =>
    match b.select [⟨id, fun row => keyColumn row.1⟩] t.rows with
    | .ok rows => .ok (rows.head?.map (·.2))
    | .error f => .error f

/-- The key under which a row is kept, which must not be missing from its column. -/
def keyOf (b : Backend) (id : Json) : Except Failure Key :=
  match b, id with
  | .memory, _ =>
    match id.key? with
    | some k => .ok k
    | none => .error (.defect .wrongKind)
  | _, .str s => .ok (.text s)
  | _, _ => .error b.refusal

/-- The rows of a table in the order of their keys; without a common order there is none. -/
def ordered {α : Type} (t : Table α) : Except Failure (List α) :=
  match t.sorted? with
  | some rows => .ok rows
  | none => .error (.defect .wrongKind)

end Backend

end ChainFold
