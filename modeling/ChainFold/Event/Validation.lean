import ChainFold.Digest.Sha256
import ChainFold.Event.Basic
import ChainFold.Failure
import ChainFold.Json.Comparison
import ChainFold.Text.Codes
/-!
# Validation

What a value must be like to serve as an identifier, and an event to be stored.
-/

/-!
## Identifiers

Cids and other identifiers are texts of bounded length.  The id of a stream is
derived from the cid of its genesis event: `k` and the base32 digest of the cid.
-/

namespace ChainFold.Ident

/-- The most characters of a cid, a stream id or a model id. -/
def maxLength : Amount := .ofNat 70

def maxAccountLength : Amount := .ofNat 100

/-- The reason why a value is not usable as an identifier of at most `limit` characters. -/
def fault? (allowNull : Bool) (limit : Amount) (value : Json) : Option String :=
  match value with
  | .null => if allowNull then none else some "must not be null"
  | .str s =>
    if s = "" then some "must not be empty"
    else if limit.isBelow s.length then some s!"exceeds {limit.given.display} characters"
    else none
  | j => some s!"must be a string, got {j.kindName}"

/--
As `fault?`, under a limit that may be no number; such a limit is a defect as soon as
a length is compared with it.
-/
def faultUnder (allowNull : Bool) (limit value : Json) : Except Defect (Option String) :=
  match Amount.of? limit with
  | some limit => .ok (fault? allowNull limit value)
  | none =>
    match value with
    | .str s => if s = "" then .ok (some "must not be empty") else .error .wrongKind
    | value => .ok (fault? allowNull (.ofNat 0) value)

/-- The id of the stream that starts at a genesis event with this cid. -/
def streamId (genesis : String) : String :=
  String.ofList ('k' :: Text.Base32.encode (Digest.sha256Text genesis))

/--
The id of the stream of a genesis cid.  A cid that is absent is refused in words, and
one that is no text has no characters to derive an id from.
-/
def streamIdOf (genesis : Json) : Except Defect String :=
  if !genesis.isPresent then .error .emptyGenesis
  else
    match genesis with
    | .str s => .ok (streamId s)
    | _ => .error .noSuchPart

/-- Whether a text has the shape of a stream id: `k` and 52 base32 characters. -/
def isStreamIdText (s : String) : Bool :=
  match s.toList with
  | 'k' :: rest => rest.length == 52 && rest.all Text.Base32.alphabet.contains
  | _ => false

def isStreamId : Json → Bool
  | .str s => isStreamIdText s
  | _ => false

end ChainFold.Ident

/-!
## Well-formed events

The checks that an event must pass before anything is stored.  The first rule that
is broken is the answer.  The identifiers of an event that breaks none are texts, and
its blocks are bytes.
-/

namespace ChainFold.Event

/-- The fault of one block at a position, under a limit on its size. -/
def blockFault? (limit : Option Amount) (index : Nat) : Block → Option String
  | .absent => some s!"block {index} is null"
  | .other j => some s!"block {index} is {j.kindName}, expected bytes"
  | .bytes bs =>
    match limit with
    | none => none
    | some n =>
      if n.isBelow bs.length then some s!"block {index} exceeds {n.given.display} bytes" else none

/-- The first fault of blocks that start at a position. -/
def firstBlockFault? (limit : Option Amount) : (index : Nat) → List Block → Option String
  | _, [] => none
  | i, b :: rest =>
    match blockFault? limit i b with
    | some reason => some reason
    | none => firstBlockFault? limit (i + 1) rest

/-- The fault of the identifiers, taken one by one. -/
def idFault? (e : Event) : Option String :=
  match Ident.fault? false Ident.maxLength e.cid with
  | some reason => some s!"cid {reason}"
  | none =>
    match Ident.fault? false Ident.maxLength e.genesis with
    | some reason => some s!"genesis {reason}"
    | none => (Ident.fault? true Ident.maxLength e.prev).map fun reason => s!"prev {reason}"

def blocksFault? (limit : Option Amount) (e : Event) : Option String :=
  if e.blocks.isEmpty then some "blocks must not be empty" else firstBlockFault? limit 0 e.blocks

/-- The fault of the links between the identifiers. -/
def linkFault? (e : Event) : Option String :=
  if e.prev = .null then
    if e.genesis = e.cid then none else some "event without prev must be its own genesis"
  else if e.cid = e.genesis then some "genesis event must not have prev"
  else if e.prev = e.cid then some "event references itself as prev"
  else none

/-- The first broken rule. -/
def fault? (limit : Option Amount) (e : Event) : Option String :=
  ((idFault? e).or (blocksFault? limit e)).or (linkFault? e)

/-- The event itself if it is well formed. -/
def validate (limit : Option Amount) (e : Event) : Except Failure Event :=
  match fault? limit e with
  | some reason => .error (.malformedEvent e.cidText reason)
  | none => .ok e

/--
As `validate`, under a limit that may be no number; such a limit is a defect as soon as
the size of a block is compared with it.
-/
def validateUnder (limit : Json) (e : Event) : Except Failure Event :=
  match Amount.of? limit with
  | some n => validate (some n) e
  | none =>
    match limit, idFault? e, e.blocks with
    | .null, _, _ => validate none e
    | _, none, .bytes _ :: _ => .error (.defect .wrongKind)
    | _, _, _ => validate none e

end ChainFold.Event
