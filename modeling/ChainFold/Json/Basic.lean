import ChainFold.Double.Basic
/-!
# JSON values

Objects keep the order in which their members were written; integers are
unbounded and distinct from doubles.  Two values are equal here only if they agree
in all of that; coarser relations are defined on top.
-/

namespace ChainFold

inductive Json where
  | null
  | bool (b : Bool)
  | int (n : Int)
  | double (d : Double)
  | str (s : String)
  | arr (items : List Json)
  | obj (members : List (String × Json))
  deriving Inhabited

/-- A text stands for the string value with that text. -/
instance : Coe String Json := ⟨.str⟩

/-- The members of an object, in order. -/
abbrev Members := List (String × Json)

namespace Members

def get? (key : String) : Members → Option Json
  | [] => none
  | (k, v) :: rest => if k = key then some v else get? key rest

def has (key : String) (ms : Members) : Bool := (ms.get? key).isSome

/-- Set a key: in its place if present, else at the end. -/
def put (key : String) (value : Json) : Members → Members
  | [] => [(key, value)]
  | (k, v) :: rest => if k = key then (key, value) :: rest else (k, v) :: put key value rest

def erase (key : String) (ms : Members) : Members := ms.filter (·.1 ≠ key)

/-- Members one after another, a later value of a key replacing an earlier one in its place. -/
def ofPairs (pairs : Members) : Members := pairs.foldl (fun ms p => ms.put p.1 p.2) []

/-- The members of `second` set on top of those of `first`. -/
def merge (first second : Members) : Members := second.foldl (fun ms p => ms.put p.1 p.2) first

def keys (ms : Members) : List String := ms.map (·.1)

/-- Put a member before the first one with a greater key. -/
def insertByKey (m : String × Json) : Members → Members
  | [] => [m]
  | n :: rest => if m.1 < n.1 then m :: n :: rest else n :: insertByKey m rest

/-- The members in the order of their keys. -/
def sortByKey (ms : Members) : Members := ms.foldr insertByKey []

end Members

namespace Json

mutual

/-- Equality of values is decided member by member. -/
def decideEq : (a b : Json) → Decidable (a = b)
  | .null, .null => isTrue rfl
  | .bool a, .bool b => if h : a = b then isTrue (by rw [h]) else isFalse (by simp [h])
  | .int a, .int b => if h : a = b then isTrue (by rw [h]) else isFalse (by simp [h])
  | .double a, .double b => if h : a = b then isTrue (by rw [h]) else isFalse (by simp [h])
  | .str a, .str b => if h : a = b then isTrue (by rw [h]) else isFalse (by simp [h])
  | .arr a, .arr b =>
    match decideEqItems a b with
    | isTrue h => isTrue (by rw [h])
    | isFalse h => isFalse (by simp [h])
  | .obj a, .obj b =>
    match decideEqMembers a b with
    | isTrue h => isTrue (by rw [h])
    | isFalse h => isFalse (by simp [h])
  | .null, .bool _ | .null, .int _ | .null, .double _ | .null, .str _ | .null, .arr _
  | .null, .obj _ | .bool _, .null | .bool _, .int _ | .bool _, .double _ | .bool _, .str _
  | .bool _, .arr _ | .bool _, .obj _ | .int _, .null | .int _, .bool _ | .int _, .double _
  | .int _, .str _ | .int _, .arr _ | .int _, .obj _ | .double _, .null | .double _, .bool _
  | .double _, .int _ | .double _, .str _ | .double _, .arr _ | .double _, .obj _
  | .str _, .null | .str _, .bool _ | .str _, .int _ | .str _, .double _ | .str _, .arr _
  | .str _, .obj _ | .arr _, .null | .arr _, .bool _ | .arr _, .int _ | .arr _, .double _
  | .arr _, .str _ | .arr _, .obj _ | .obj _, .null | .obj _, .bool _ | .obj _, .int _
  | .obj _, .double _ | .obj _, .str _ | .obj _, .arr _ => isFalse nofun

def decideEqItems : (a b : List Json) → Decidable (a = b)
  | [], [] => isTrue rfl
  | [], _ :: _ | _ :: _, [] => isFalse nofun
  | a :: as, b :: bs =>
    match decideEq a b, decideEqItems as bs with
    | isTrue h, isTrue h' => isTrue (by rw [h, h'])
    | isFalse h, _ => isFalse (by simp [h])
    | _, isFalse h => isFalse (by simp [h])

def decideEqMembers : (a b : List (String × Json)) → Decidable (a = b)
  | [], [] => isTrue rfl
  | [], _ :: _ | _ :: _, [] => isFalse nofun
  | (k, a) :: as, (l, b) :: bs =>
    match instDecidableEqString k l, decideEq a b, decideEqMembers as bs with
    | isTrue h, isTrue h', isTrue h'' => isTrue (by rw [h, h', h''])
    | isFalse h, _, _ => isFalse (by simp [h])
    | _, isFalse h, _ => isFalse (by simp [h])
    | _, _, isFalse h => isFalse (by simp [h])

end

instance : DecidableEq Json := decideEq

/-- The word for the kind of a value in messages. -/
def kindName : Json → String
  | .null => "NoneType"
  | .bool _ => "bool"
  | .int _ => "int"
  | .double _ => "float"
  | .str _ => "str"
  | .arr _ => "list"
  | .obj _ => "dict"

/-- Null, false, zero and whatever is empty count as absent; all else is present. -/
def isPresent : Json → Bool
  | .null => false
  | .bool b => b
  | .int n => n != 0
  | .double d => d.mantissa != 0 || !d.isFinite
  | .str s => s != ""
  | .arr items => !items.isEmpty
  | .obj members => !members.isEmpty

/-- A text, or null for none. -/
def ofText? : Option String → Json
  | none => .null
  | some s => .str s

def text? : Json → Option String
  | .str s => some s
  | _ => none

def members? : Json → Option Members
  | .obj ms => some ms
  | _ => none

def isObject (j : Json) : Bool := j.members?.isSome

/-- The value of a key of an object, null when it is missing. -/
def field (key : String) (ms : Members) : Json := (ms.get? key).getD .null

/-- The parts met when a value is walked over: characters, items or keys. -/
def parts? : Json → Option (List Json)
  | .str s => some (s.toList.map fun c => .str (String.singleton c))
  | .arr items => some items
  | .obj ms => some (ms.map fun m => .str m.1)
  | _ => none

/-- `none` for null, and any other value as it is. -/
def nonNull : Json → Option Json
  | .null => none
  | j => some j

mutual

/-- The value with the members of every object in the order of their keys. -/
def sortKeys : Json → Json
  | .arr items => .arr (sortItems items)
  | .obj members => .obj (Members.sortByKey (sortMembers members))
  | j => j

def sortItems : List Json → List Json
  | [] => []
  | j :: rest => sortKeys j :: sortItems rest

def sortMembers : List (String × Json) → List (String × Json)
  | [] => []
  | (k, j) :: rest => (k, sortKeys j) :: sortMembers rest

end

mutual

/-- Whether every double in the value is finite. -/
def isFinite : Json → Bool
  | .double d => d.isFinite
  | .arr items => allFinite items
  | .obj members => allFiniteMembers members
  | _ => true

def allFinite : List Json → Bool
  | [] => true
  | j :: rest => isFinite j && allFinite rest

def allFiniteMembers : List (String × Json) → Bool
  | [] => true
  | (_, j) :: rest => isFinite j && allFiniteMembers rest

end

end Json

end ChainFold
