import ChainFold.Failure
import ChainFold.Json.Comparison
import ChainFold.Json.Key
import ChainFold.Json.Printer
/-!
# YAML values

What a YAML text stands for.  Unlike JSON, a mapping can have keys of any kind but
sequences and mappings, and there are values, such as dates, that JSON has no room
for.  A value can be displayed, and it can be written as JSON: then the entries of a
mapping are in the order of their keys as values, a number before a greater one, and
what is met first that cannot be written is the defect.
-/

namespace ChainFold.Yaml

inductive Value where
  | null
  | bool (b : Bool)
  | int (n : Int)
  | double (d : Double)
  | str (s : String)
  /-- A value that JSON has no room for, with its text by itself and inside another value. -/
  | foreign (text inner : String)
  | seq (items : List Value)
  /-- An entry in a sequence of entries. -/
  | pair (key value : Value)
  | set (items : List Value)
  | map (entries : List (Value × Value))
  /-- A sequence or a mapping that is met again inside itself. -/
  | loop (isMapping : Bool)
  deriving Inhabited

namespace Value

/-- The value in JSON of anything but a collection that JSON has room for. -/
def scalar? : Value → Option Json
  | .null => some .null
  | .bool b => some (.bool b)
  | .int n => some (.int n)
  | .double d => some (.double d)
  | .str s => some (.str s)
  | _ => none

mutual

def ofJson : Json → Value
  | .null => .null
  | .bool b => .bool b
  | .int n => .int n
  | .double d => .double d
  | .str s => .str s
  | .arr items => .seq (ofItems items)
  | .obj members => .map (ofMembers members)

def ofItems : List Json → List Value
  | [] => []
  | j :: rest => ofJson j :: ofItems rest

def ofMembers : List (String × Json) → List (Value × Value)
  | [] => []
  | (k, j) :: rest => (.str k, ofJson j) :: ofMembers rest

end

/-! ## Display -/

mutual

/-- The text of a value inside another. -/
def inner : Value → List Char
  | .null => Json.inner .null
  | .bool b => Json.inner (.bool b)
  | .int n => Json.inner (.int n)
  | .double d => Json.inner (.double d)
  | .str s => Json.inner (.str s)
  | .foreign _ s => s.toList
  | .seq items => '[' :: (innerItems items ++ [']'])
  | .pair k v => '(' :: (inner k ++ ',' :: ' ' :: (inner v ++ [')']))
  | .set [] => "set()".toList
  | .set items => '\x7b' :: (innerItems items ++ ['\x7d'])
  | .map entries => '\x7b' :: (innerEntries entries ++ ['\x7d'])
  | .loop false => "[...]".toList
  | .loop true => ['\x7b', '.', '.', '.', '\x7d']

def innerItems : List Value → List Char
  | [] => []
  | [v] => inner v
  | v :: rest => inner v ++ ',' :: ' ' :: innerItems rest

def innerEntries : List (Value × Value) → List Char
  | [] => []
  | [(k, v)] => inner k ++ ':' :: ' ' :: inner v
  | (k, v) :: rest => inner k ++ ':' :: ' ' :: (inner v ++ ',' :: ' ' :: innerEntries rest)

end

mutual

/-- Whether there is an integer in a value that is too long to be written. -/
def isTooLong : Value → Bool
  | .int n => Text.isTooLong n
  | .seq items | .set items => anyTooLong items
  | .pair k v => isTooLong k || isTooLong v
  | .map entries => anyEntryTooLong entries
  | _ => false

def anyTooLong : List Value → Bool
  | [] => false
  | v :: rest => isTooLong v || anyTooLong rest

def anyEntryTooLong : List (Value × Value) → Bool
  | [] => false
  | (k, v) :: rest => isTooLong k || isTooLong v || anyEntryTooLong rest

end

/-- The displayed text of a value: a string as it is; integers must not be too long. -/
def display : Value → Except Defect String
  | .str s => .ok s
  | .foreign s _ => .ok s
  | v => if v.isTooLong then .error .badValue else .ok (String.ofList (inner v))

/-! ## JSON -/

/-- The key that a value is in a mapping, unless JSON has no room for it. -/
def key? (v : Value) : Option Key := v.scalar?.bind Json.key?

/-- Whether a key of a mapping is less than another; `none` if the two have no order. -/
def keyLess? (k l : Value) : Option Bool :=
  match k.scalar?, l.scalar? with
  | some a, some b => a.less? b
  | _, _ => none

/-- The key in JSON of a key of a mapping: numbers and words become texts. -/
def keyText : Value → Except Defect String
  | .null => .ok "null"
  | .bool b => .ok (toString b)
  | .int n => if Text.isTooLong n then .error .badValue else .ok (toString n)
  | .double d => .ok (String.ofList (d.toText Double.jsonWords))
  | .str s => .ok s
  | _ => .error .wrongKind

def member (key : Value) (value : Except Defect Json) : Except Defect (String × Json) :=
  match key.keyText, value with
  | .error d, _ => .error d
  | .ok _, .error d => .error d
  | .ok k, .ok j => .ok (k, j)

/-- An object in JSON, its members in the order of the keys that stand for them. -/
def object (entries : List (Value × Except Defect Json)) : Except Defect Json :=
  match Ranking.sort? (fun a b => keyLess? a.1 b.1) entries with
  | none => .error .wrongKind
  | some es => .obj <$> es.mapM fun e => member e.1 e.2

mutual

/-- The value as JSON, the members of objects in order. -/
def toJson : Value → Except Defect Json
  | .null => .ok .null
  | .bool b => .ok (.bool b)
  | .int n => if Text.isTooLong n then .error .badValue else .ok (.int n)
  | .double d => .ok (.double d)
  | .str s => .ok (.str s)
  | .foreign _ _ | .set _ => .error .wrongKind
  | .loop _ => .error .badValue
  | .seq items => .arr <$> itemsToJson items
  | .pair k v =>
    match toJson k, toJson v with
    | .error d, _ | .ok _, .error d => .error d
    | .ok a, .ok b => .ok (.arr [a, b])
  | .map entries => object (entriesToJson entries)

def itemsToJson : List Value → Except Defect (List Json)
  | [] => .ok []
  | v :: rest =>
    match toJson v with
    | .error d => .error d
    | .ok j => (j :: ·) <$> itemsToJson rest

def entriesToJson : List (Value × Value) → List (Value × Except Defect Json)
  | [] => []
  | (k, v) :: rest => (k, toJson v) :: entriesToJson rest

end

/-- The canonical text of a value: see `Json.canonical`. -/
def canonical (v : Value) : Except Defect String :=
  (fun j => String.ofList (Json.print Json.compact j)) <$> v.toJson

/-! ## Parts -/

def entries? : Value → Option (List (Value × Value))
  | .map es => some es
  | _ => none

def text? : Value → Option String
  | .str s => some s
  | _ => none

/-- The entries of a mapping under texts. -/
def textMembers? (v : Value) : Option (List (String × Value)) :=
  v.entries?.map fun es => es.filterMap fun e => e.1.text?.map (·, e.2)

/-- The parts met when a value is walked over: characters, items or keys. -/
def parts? : Value → Option (List Value)
  | .str s => some (s.toList.map fun c => .str (String.singleton c))
  | .seq items | .set items => some items
  | .map es => some (es.map (·.1))
  | _ => none

/-- Whether a value counts as present; see `Json.isPresent`. -/
def isPresent : Value → Bool
  | .seq items | .set items => !items.isEmpty
  | .map es => !es.isEmpty
  | v => v.scalar?.all Json.isPresent

end Value

end ChainFold.Yaml
