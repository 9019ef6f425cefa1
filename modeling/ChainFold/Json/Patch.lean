import ChainFold.Json.Basic
import ChainFold.Json.Comparison
/-!
# Patches

JSON Patch, as RFC 6902 has it: places inside a value, and operations that change what
stands there.  Where readers of patches differ the standard decides: a test finds a boolean
equal to booleans only, the whole value can be copied and replaced but not removed, nothing
is moved into itself, the digits of an index have no leading zero, and members of an
operation that it does not know are not looked at.
-/

/-!
## Places inside a value

A pointer is a list of steps; each names a member of an object or an item of an
array.  Writing follows the pointer to the value that holds the last step and
rebuilds the values passed on the way.
-/

namespace ChainFold.Json

/-- The steps from a value to one inside it. -/
abbrev Pointer := List String

namespace Pointer

/-- A step without its escapes; a tilde must be followed by 0 or 1. -/
def unescape? : List Char → Option (List Char)
  | [] => some []
  | '~' :: '0' :: rest => (unescape? rest).map ('~' :: ·)
  | '~' :: '1' :: rest => (unescape? rest).map ('/' :: ·)
  | '~' :: _ => none
  | c :: rest => (unescape? rest).map (c :: ·)

/-- The parts of a text between slashes. -/
def splitSlash : List Char → List (List Char)
  | [] => [[]]
  | c :: rest =>
    match splitSlash rest with
    | [] => [[c]]
    | part :: parts => if c == '/' then [] :: part :: parts else (c :: part) :: parts

/-- Read a pointer: the empty text, or steps that each start with a slash. -/
def read? (s : String) : Option Pointer :=
  match s.toList with
  | [] => some []
  | '/' :: rest => (splitSlash rest).mapM fun part => (unescape? part).map String.ofList
  | _ => none

/-- The position that a step names in an array: digits without a leading zero. -/
def index? (step : String) : Option Nat :=
  match step.toList with
  | ['0'] => some 0
  | c :: cs =>
    if (c :: cs).all Char.isDigit && c != '0' then
      some ((c :: cs).foldl (fun n d => n * 10 + (d.toNat - '0'.toNat)) 0)
    else none
  | [] => none

end Pointer

/-- The value one step inside an array or object. -/
def child? (step : String) : Json → Option Json
  | .arr items => (Pointer.index? step).bind (items[·]?)
  | .obj members => Members.get? step members
  | _ => none

def at? : Pointer → Json → Option Json
  | [], j => some j
  | step :: rest, j => (j.child? step).bind (at? rest)

/-- Replace a child that exists. -/
def setChild (step : String) (value : Json) : Json → Option Json
  | .arr items => do
    let i ← Pointer.index? step
    if i < items.length then pure (.arr (items.set i value)) else none
  | .obj members =>
    if Members.has step members then some (.obj (Members.put step value members)) else none
  | _ => none

/-- Insert a child: at or behind an array's items, or as a member of an object. -/
def addChild (step : String) (value : Json) : Json → Option Json
  | .arr items =>
    if step == "-" then some (.arr (items ++ [value]))
    else do
      let i ← Pointer.index? step
      if i ≤ items.length then pure (.arr (items.insertIdx i value)) else none
  | .obj members => some (.obj (Members.put step value members))
  | _ => none

def removeChild (step : String) : Json → Option Json
  | .arr items => do
    let i ← Pointer.index? step
    if i < items.length then pure (.arr (items.eraseIdx i)) else none
  | .obj members =>
    if Members.has step members then some (.obj (Members.erase step members)) else none
  | _ => none

/-- Change the value that holds the last step of a pointer. -/
def changeHolder (change : String → Json → Option Json) : Pointer → Json → Option Json
  | [], _ => none
  | [step], j => change step j
  | step :: rest, j => do
    let inside ← j.child? step
    let inside' ← changeHolder change rest inside
    setChild step inside' j

/-- Add a value at a pointer; the empty pointer takes the place of the whole. -/
def addAt (j : Json) (path : Pointer) (value : Json) : Option Json :=
  if path.isEmpty then some value else changeHolder (fun step => addChild step value) path j

/-- Remove the value at a pointer, which is not the whole. -/
def removeAt (j : Json) (path : Pointer) : Option Json := changeHolder removeChild path j

def replaceAt (j : Json) (path : Pointer) (value : Json) : Option Json :=
  if path.isEmpty then some value else changeHolder (fun step => setChild step value) path j

end ChainFold.Json

/-!
## Patches

A patch is a list of JSON Patch operations, applied one after another to a
value.  If one cannot be read or applied, there is no result.
-/

namespace ChainFold.Json.Patch

inductive Operation where
  | add (path : Pointer) (value : Json)
  | remove (path : Pointer)
  | replace (path : Pointer) (value : Json)
  | move (source path : Pointer)
  | copy (source path : Pointer)
  | test (path : Pointer) (value : Json)

def pointer? (key : String) (ms : Members) : Option Pointer := do
  Pointer.read? (← (← ms.get? key).text?)

def Operation.read? (j : Json) : Option Operation := do
  let ms ← j.members?
  let op ← (← ms.get? "op").text?
  let path ← pointer? "path" ms
  match op with
  | "add" => pure (.add path (← ms.get? "value"))
  | "remove" => pure (.remove path)
  | "replace" => pure (.replace path (← ms.get? "value"))
  | "move" => pure (.move (← pointer? "from" ms) path)
  | "copy" => pure (.copy (← pointer? "from" ms) path)
  | "test" => pure (.test path (← ms.get? "value"))
  | _ => none

/--
Apply an operation.  A value is not moved into itself, not even the whole one, and a move to
its own place changes nothing.  A copy may be of the whole.
-/
def Operation.result? (doc : Json) : Operation → Option Json
  | .add path value => doc.addAt path value
  | .remove path => doc.removeAt path
  | .replace path value => doc.replaceAt path value
  | .move source path => do
    let value ← doc.at? source
    if source = path then pure doc
    else if source.isPrefixOf path then none
    else (← doc.removeAt source).addAt path value
  | .copy source path => do doc.addAt path (← doc.at? source)
  | .test path value => do
    if strictlySame (← doc.at? path) value then pure doc else none

def resultOfAll? : List Operation → Json → Option Json
  | [], doc => some doc
  | op :: ops, doc => (op.result? doc).bind (resultOfAll? ops)

def result? (patch : List Json) (doc : Json) : Option Json := do
  resultOfAll? (← patch.mapM Operation.read?) doc

end ChainFold.Json.Patch
