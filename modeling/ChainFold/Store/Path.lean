import ChainFold.Json.Printer
import ChainFold.Text.Integer
/-!
# Paths into stored JSON

One backend looks a key up in stored text by a path: labels behind points, plain or
between double quotes, and indices between brackets.  Labels are compared with the
text of a key as it is stored, escapes and all, and a quote ends a label whatever is
in front of it.  Older versions of SQLite, such as 3.40, compare labels so; newer ones,
such as 3.46, resolve the escapes of a stored key first, so that a label with control
characters or characters outside of ASCII meets its key there.
-/

namespace ChainFold.Path

/-- The path to a key at the top of a stored object. -/
def ofKey (key : String) : List Char :=
  let escaped := key.toList.flatMap fun c => if c == '"' then ['\\', '"'] else [c]
  ('.' :: '"' :: escaped ++ ['"']).takeWhile (· != '\x00')

/-- A key as it is stored, without its quotes. -/
def storedLabel (key : String) : List Char := ((Json.stringText true key).drop 1).dropLast

/-- A label and the rest of the path behind it; `none` if there is none or it does not end. -/
def label? : List Char → Option (List Char × List Char)
  | '"' :: rest =>
    match rest.dropWhile (· != '"') with
    | [] => none
    | _ :: behind => some (rest.takeWhile (· != '"'), behind)
  | cs =>
    let isInside (c : Char) : Bool := c != '.' && c != '['
    let label := cs.takeWhile isInside
    if label.isEmpty then none else some (label, cs.dropWhile isInside)

/-- The member of an object with a label, compared as older versions do. -/
def member? (label : List Char) (ms : Members) : Option Json :=
  (ms.find? fun m => storedLabel m.1 == label).map (·.2)

/-- A number and the rest of the path behind it. -/
def digits (cs : List Char) : Nat × List Char :=
  (Text.ofDigits 10 ((cs.takeWhile Char.isDigit).filterMap (Text.digit? 10)),
    cs.dropWhile Char.isDigit)

/-- Where an index points in an array, if anywhere, and the rest of the path behind it. -/
def index? (length : Nat) : List Char → Option (Option Nat × List Char)
  | '#' :: '-' :: d :: rest =>
    if d.isDigit then
      match digits (d :: rest) with
      | (n, ']' :: behind) => some (if n ≤ length then some (length - n) else none, behind)
      | _ => none
    else none
  | '#' :: ']' :: rest => some (some length, rest)
  | d :: rest =>
    if d.isDigit then
      match digits (d :: rest) with
      | (n, ']' :: behind) => some (some n, behind)
      | _ => none
    else none
  | [] => none

inductive Fault where
  | malformed
  deriving DecidableEq

/--
What a path leads to, if anything.  A path is read as far as it can be followed; only
what is read must be well formed.
-/
def follow : (fuel : Nat) → List Char → Json → Except Fault (Option Json)
  | _, [], j => .ok (some j)
  | 0, _, _ => .error .malformed
  | fuel + 1, '.' :: rest, j =>
    match j with
    | .obj ms =>
      match label? rest with
      | none => .error .malformed
      | some (label, behind) =>
        match member? label ms with
        | none => .ok none
        | some value => follow fuel behind value
    | _ => .ok none
  | fuel + 1, '[' :: rest, j =>
    match j with
    | .arr items =>
      match index? items.length rest with
      | none => .error .malformed
      | some (none, _) => .ok none
      | some (some n, behind) =>
        match items[n]? with
        | none => .ok none
        | some value => follow fuel behind value
    | _ =>
      match rest with
      | '#' :: _ => .ok none
      | _ => if (index? 0 rest).isSome then .ok none else .error .malformed
  | _ + 1, _ :: _, _ => .error .malformed

/-- Whether something other than null is found under a key of stored JSON. -/
def finds (key : String) (stored : Json) : Except Fault Bool :=
  let path := ofKey key
  (fun j => (j.bind Json.nonNull).isSome) <$> follow (path.length + 1) path stored

end ChainFold.Path
