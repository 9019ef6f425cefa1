import ChainFold.Failure
import ChainFold.Json.Comparison
import ChainFold.Json.Reader
import ChainFold.Text.Codes
/-!
# Signals

A signal is a small object that stands for a stream in look-ups.  It is found in
the content of the stream, directly or behind options that may be encoded; it is
matched by containment.
-/

namespace ChainFold.Signal

/-- The object in base64 JSON text, if that is what the text is. -/
def decodeWith (decoder : List Char → Except Text.Base64.Fault Bytes) (cs : List Char) :
    Option Members :=
  match decoder cs with
  | .error _ => none
  | .ok bs =>
    match Json.readBytes bs with
    | .ok j => j.members?
    | .error _ => none

/-- A text with padding up to a multiple of four characters. -/
def padded (cs : List Char) : List Char :=
  cs ++ List.replicate ((4 - cs.length % 4) % 4) '='

/-- The members of options: an object, or one encoded in either alphabet of base64. -/
def options? : Json → Option Members
  | .obj ms => some ms
  | .str s =>
    if s = "" then none
    else
      let cs := padded s.toList
      (decodeWith Text.Base64.decode cs).or (decodeWith Text.Base64.decodeUrlSafe cs)
  | _ => none

/-- The signal among members: an object under the key `signal`. -/
def among? (ms : Members) : Option Json :=
  (ms.get? "signal").filter Json.isObject

/-- The signal of a content: its own, or else the one of its options. -/
def ofContent? : Json → Option Json
  | .obj ms => (among? ms).or ((options? (Json.field "options" ms)).bind among?)
  | _ => none

mutual

/-- Whether every part of `wanted` is present in a value. -/
def contains : (signal wanted : Json) → Bool
  | signal, .obj ws =>
    match signal with
    | .obj ms => containsMembers ms ws
    | _ => false
  | signal, .arr ws =>
    match signal with
    | .arr items => containsItems items ws
    | _ => false
  | signal, wanted => Json.sameScalar false signal wanted

/-- Each wanted member is present and contained. -/
def containsMembers : (ms ws : List (String × Json)) → Bool
  | _, [] => true
  | ms, (k, w) :: ws =>
    (match Members.get? k ms with
      | some j => contains j w
      | none => false) && containsMembers ms ws

/-- Each wanted item is contained in some item. -/
def containsItems : (items ws : List Json) → Bool
  | _, [] => true
  | items, w :: ws => items.any (fun j => contains j w) && containsItems items ws

end

def isWithin (part : List Char) : List Char → Bool
  | [] => part.isEmpty
  | c :: cs => part.isPrefixOf (c :: cs) || isWithin part cs

/-- Whether a key is one of an object, a part of a text, or equal to an item of an array. -/
def mentions (key : Json) : (signal : Json) → Except Defect Bool
  | .obj ms =>
    match key with
    | .arr _ | .obj _ => .error .wrongKind
    | .str s => .ok (Members.has s ms)
    | _ => .ok false
  | .arr items => .ok (items.any key.sameWithin)
  | .str s =>
    match key with
    | .str part => .ok (isWithin part.toList s.toList)
    | _ => .error .wrongKind
  | _ => .error .wrongKind

/-- What a look-up asks of a signal. -/
inductive Predicate where
  /-- Containment of a value, which must be an object. -/
  | contains (wanted : Json)
  /-- A test of the caller's. -/
  | passes (test : Json → Except Defect Bool)

/-- Whether a signal satisfies a predicate; without a signal none is satisfied. -/
def satisfies (signal : Option Json) (p : Predicate) : Except Defect Bool :=
  match signal with
  | none => .ok false
  | some j =>
    match p with
    | .passes test => test j
    | .contains wanted =>
      if wanted.isObject then .ok (contains j wanted)
      else .error (Defect.wrongPredicate wanted.kindName)

end ChainFold.Signal
