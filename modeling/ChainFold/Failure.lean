import ChainFold.Json.Printer
import ChainFold.Text.Characters
import ChainFold.Text.Codes
import ChainFold.Uuid
/-!
# Failures

A `Failure` is a cause that the library reports in its own words, with details by
name.  Whatever it speaks of is kept as it was given, of any kind.  A `Defect` is an
argument that an operation cannot take at all; it is passed on as it is.
-/

/-!
## Stages of reading YAML

A YAML text is read in stages, and a text that cannot be read is refused by one of
them.
-/

namespace ChainFold.Yaml

/-- The stage that refuses a text. -/
inductive Stage where
  /-- The text holds a character that must not occur. -/
  | characters
  /-- The characters make up no tokens. -/
  | tokens
  /-- The tokens make up no nodes. -/
  | nodes
  /-- The nodes make up no graph of one document. -/
  | graph
  /-- The graph stands for no value. -/
  | values
  deriving DecidableEq, Repr

end ChainFold.Yaml

/-! ## Failures -/

namespace ChainFold

/-- An argument that an operation cannot take. -/
inductive Defect where
  /-- A value of a kind that has no meaning here. -/
  | wrongKind
  /-- A predicate that is neither an object nor a function. -/
  | wrongPredicate (kind : String)
  /-- A value that lacks the part asked of it. -/
  | noSuchPart
  /-- An object that lacks a key. -/
  | missingKey (key : Json)
  /-- A text that is not JSON. -/
  | notJson
  /-- A value of the right kind that cannot be used. -/
  | badValue
  /-- Base64 with an incomplete last group. -/
  | badBase64
  /-- A number beyond the range of its use. -/
  | tooLarge
  /-- More octets than there is room for. -/
  | tooMuch
  /-- A list without items, of which one is needed. -/
  | noItems
  /-- A stream needs the cid of its genesis event. -/
  | emptyGenesis
  /-- A fold needs at least one event. -/
  | emptyChain
  /-- Room for at least one entry is needed. -/
  | noRoom (maxEntries : Json)
  /-- A text that is not YAML. -/
  | notYaml (stage : Yaml.Stage)
  /-- A file stands where a new one is to be made. -/
  | fileExists
  /-- A part of a path is a file and no directory. -/
  | notADirectory
  deriving DecidableEq

def Defect.message? : Defect → Option String
  | .wrongPredicate kind => some s!"predicate must be a dict or callable, got {kind}"
  | .missingKey key => some key.shown
  | .emptyGenesis => some "genesis cid must not be empty"
  | .emptyChain => some "Cannot project an empty chain"
  | .noRoom n => some s!"max_entries must be >= 1, got {n.display}"
  | _ => none

/-- Why an operation failed. -/
inductive Failure where
  /-- A failure with a wording of its own. -/
  | general (message : Json) (details : Members)
  /-- An event is not well formed. -/
  | malformedEvent (cid reason : Json)
  /-- An event does not extend a known chain. -/
  | brokenChain (cid reason prev genesis : Json)
  /-- An event belongs to a stream without a row. -/
  | unknownStream (stream cid : Json)
  /-- An event was stored and not applied. -/
  | tipConflict (stream cid expectedPrev currentTip : Json)
  /-- No stream has this id. -/
  | streamNotFound (stream : Json)
  /-- No event has this cid. -/
  | eventNotFound (cid stream : Json)
  /-- No model has this id. -/
  | modelNotFound (model : Json)
  /-- A storage operation failed. -/
  | storage (operation path : Json)
  /-- A store cannot be opened. -/
  | connection (endpoint : Json)
  /-- An argument or setting is not valid. -/
  | invalid (field reason value : Json)
  /-- An argument cannot be taken at all. -/
  | defect (d : Defect)
  deriving DecidableEq

namespace Failure

/-- A detail under a key, unless it is absent. -/
def detail (key : String) (j : Json) : Members := if j.isPresent then [(key, j)] else []

/-- What an event is called that may lack a cid. -/
def nameOf (cid : Json) : String := if cid.isPresent then cid.display else "<unknown>"

/-- The wording of a failure; a defect may have none. -/
def message : Failure → String
  | .general message _ => message.display
  | .malformedEvent cid reason => s!"Malformed event {nameOf cid}: {reason.display}"
  | .brokenChain cid reason _ _ =>
    s!"Chain integrity error for event {cid.display}: {reason.display}"
  | .unknownStream stream cid => s!"Unknown stream {stream.display} for event {cid.display}"
  | .tipConflict stream cid _ currentTip =>
    s!"Event {cid.display} not applied to stream {stream.display}: tip is {currentTip.display}"
  | .streamNotFound stream => s!"Stream not found: {stream.display}"
  | .eventNotFound cid _ => s!"Event not found: {cid.display}"
  | .modelNotFound model => s!"Model not found: {model.display}"
  | .storage operation path =>
    if path.isPresent then s!"Storage I/O error during {operation.display}: {path.display}"
    else s!"Storage I/O error during {operation.display}"
  | .connection endpoint => s!"Connection failed to {endpoint.display}"
  | .invalid field reason _ => s!"Validation failed for {field.display}: {reason.display}"
  | .defect d => d.message?.getD ""

def details : Failure → Members
  | .general _ details => details
  | .malformedEvent cid reason => ("reason", reason) :: detail "cid" cid
  | .brokenChain cid reason prev genesis =>
    [("cid", cid), ("reason", reason)] ++ detail "prev" prev ++ detail "genesis" genesis
  | .unknownStream stream cid => [("stream_id", stream), ("cid", cid)]
  | .tipConflict stream cid expectedPrev currentTip =>
    [("stream_id", stream), ("cid", cid), ("current_tip", currentTip)] ++
      detail "expected_prev" expectedPrev
  | .streamNotFound stream => [("stream_id", stream)]
  | .eventNotFound cid stream => ("cid", cid) :: detail "stream_id" stream
  | .modelNotFound model => [("model_id", model)]
  | .storage operation path => ("operation", operation) :: detail "path" path
  | .connection endpoint => [("endpoint", endpoint)]
  | .invalid field reason value =>
    [("field", field), ("reason", reason)] ++ (if value = .null then [] else [("value", value)])
  | .defect _ => []

/-- The name under which a failure is known; a defect has none. -/
def name? : Failure → Option String
  | .general .. => some "StreamStoreError"
  | .malformedEvent .. => some "MalformedEventError"
  | .brokenChain .. => some "ChainIntegrityError"
  | .unknownStream .. => some "UnknownStreamError"
  | .tipConflict .. => some "TipConflictError"
  | .streamNotFound .. => some "StreamNotFoundError"
  | .eventNotFound .. => some "EventNotFoundError"
  | .modelNotFound .. => some "ModelNotFoundError"
  | .storage .. => some "StorageIOError"
  | .connection .. => some "StorageConnectionError"
  | .invalid .. => some "ValidationError"
  | .defect _ => none

/-- The details that a value gives: none if it is absent. -/
def detailsOf (j : Json) : Except Defect Members :=
  if !j.isPresent then .ok []
  else
    match j with
    | .obj ms => .ok ms
    | _ => .error .noSuchPart

/-- The failure of a name with its parts in order; the cause of a failure is not kept. -/
def ofParts (name : String) (parts : List Json) : Except Defect Failure :=
  match name, parts with
  | "StreamStoreError", [message, details] => .general message <$> detailsOf details
  | "MalformedEventError", [cid, reason] => .ok (.malformedEvent cid reason)
  | "ChainIntegrityError", [cid, reason, prev, genesis] =>
    .ok (.brokenChain cid reason prev genesis)
  | "UnknownStreamError", [stream, cid] => .ok (.unknownStream stream cid)
  | "TipConflictError", [stream, cid, expectedPrev, currentTip] =>
    .ok (.tipConflict stream cid expectedPrev currentTip)
  | "StreamNotFoundError", [stream] => .ok (.streamNotFound stream)
  | "EventNotFoundError", [cid, stream] => .ok (.eventNotFound cid stream)
  | "ModelNotFoundError", [model] => .ok (.modelNotFound model)
  | "StorageIOError", [operation, path, _] => .ok (.storage operation path)
  | "StorageConnectionError", [endpoint, _] => .ok (.connection endpoint)
  | "ValidationError", [field, reason, value] => .ok (.invalid field reason value)
  | _, _ => .error .wrongKind

end Failure

def Defect.ofBase64 : Text.Base64.Fault → Defect
  | .notAscii => .badValue
  | .truncated => .badBase64

end ChainFold
