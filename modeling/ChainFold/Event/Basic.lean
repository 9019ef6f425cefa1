import ChainFold.Failure
import ChainFold.Json.Comparison
import ChainFold.Json.Printer
import ChainFold.Json.Reader
/-!
# Events

An event is one immutable entry of a chain: it names itself by its cid, its
predecessor by `prev`, and the first entry of the chain by `genesis`.  Nothing is
known about the kinds of its parts until it has been validated, so each of them can
be any value.
-/

namespace ChainFold

inductive Block where
  | bytes (bs : Bytes)
  | absent
  /-- A value that is not binary. -/
  | other (j : Json)
  deriving DecidableEq

/-- An entry of a chain. -/
structure Event where
  cid : Json
  prev : Json
  genesis : Json
  blocks : List Block
  deriving DecidableEq

namespace Block

/-- Whether two blocks are equal by value. -/
def same : Block → Block → Bool
  | .bytes as, .bytes bs => as == bs
  | .absent, .absent => true
  | .other a, .other b => a.sameWithin b
  | _, _ => false

def allSame : List Block → List Block → Bool
  | [], [] => true
  | a :: as, b :: bs => a.same b && allSame as bs
  | _, _ => false

def octet? : Json → Except Defect UInt8
  | .int n => if 0 ≤ n && n < 256 then .ok (UInt8.ofNat n.toNat) else .error .badValue
  | .bool b => .ok (UInt8.ofNat b.toNat)
  | _ => .error .wrongKind

/-- The count that stands in the place of octets. -/
def count? : Block → Option Int
  | .other (.int n) => some n
  | .other (.bool b) => some b.toNat
  | _ => none

/-- The largest count of octets that can be addressed. -/
def maxCount : Int := Int.pow 2 63 - 34

/-- The largest count of octets that there is room for. -/
def maxRoom : Int := Int.pow 2 36

/-- The number of zero octets that a count stands for. -/
def zeros (count : Int) : Except Defect Nat :=
  if count < -Int.pow 2 63 || maxCount < count then .error .tooLarge
  else if count < 0 then .error .badValue
  else if maxRoom < count then .error .tooMuch
  else .ok count.toNat

/--
The octets that a block is read as, `none` for a missing block.  A count stands for so
many zero octets, and a list of numbers or the like for the octets that they name.
-/
def octets (b : Block) : Except Defect (Option Bytes) :=
  match b with
  | .bytes bs => .ok (some bs)
  | .absent => .ok none
  | .other (.arr items) => some <$> items.mapM octet?
  | b =>
    match b.count? with
    | some n => (fun k => some (List.replicate k 0)) <$> zeros n
    | none => .error .wrongKind

/-- The octets that a block is stored as; a missing block has none. -/
def stored (b : Block) : Except Defect Bytes := do
  match ← b.octets with
  | some bs => pure bs
  | none => .error .wrongKind

end Block

namespace Event

def isGenesis (e : Event) : Bool := e.prev == .null && e.cid.looselySame e.genesis

/-- Whether two events are equal by value in all their parts. -/
def same (a b : Event) : Bool :=
  a.cid.sameWithin b.cid && a.prev.sameWithin b.prev && a.genesis.sameWithin b.genesis &&
    Block.allSame a.blocks b.blocks

/-- The cid of an event if it is a text, else null. -/
def cidText (e : Event) : Json := Json.ofText? e.cid.text?

end Event

/-!
## Envelopes

An event as a JSON object with its blocks in base64, and the bytes under which it
is archived.
-/

def base64Json (bs : Bytes) : Json := .str (String.ofList (Text.Base64.encode bs))

/-- A block in base64, null for a missing one; a block that is not binary has no such form. -/
def Block.toJson : Block → Except Defect Json
  | .bytes bs => .ok (base64Json bs)
  | .absent => .ok .null
  | .other _ => .error .wrongKind

/-- A block read from base64 or null. -/
def Block.ofJson : Json → Except Defect Block
  | .null => .ok .absent
  | .str s =>
    match Text.Base64.decode s.toList with
    | .ok bs => .ok (.bytes bs)
    | .error fault => .error (.ofBase64 fault)
  | _ => .error .wrongKind

/-- The value of a key that an object must have. -/
def Members.require (key : String) (ms : Members) : Except Defect Json :=
  match ms.get? key with
  | some j => .ok j
  | none => .error (.missingKey key)

namespace Event

def toJson (e : Event) : Except Defect Json := do
  let blocks ← e.blocks.mapM Block.toJson
  pure (.obj [("cid", e.cid), ("prev", e.prev), ("genesis", e.genesis), ("blocks", .arr blocks)])

/-- The blocks in an object: none if it has no such key. -/
def blocksOf (ms : Members) : Except Defect (List Block) :=
  match ((ms.get? "blocks").getD (.arr [])).parts? with
  | some parts => parts.mapM Block.ofJson
  | none => .error .wrongKind

def ofJson : Json → Except Defect Event
  | .obj ms => do
    let cid ← Members.require "cid" ms
    let genesis ← Members.require "genesis" ms
    let blocks ← blocksOf ms
    pure ⟨cid, Json.field "prev" ms, genesis, blocks⟩
  | _ => .error .wrongKind

/-- The bytes under which an event is archived. -/
def envelope (e : Event) : Except Defect Bytes :=
  (fun j => Text.utf8 j.archived) <$> e.toJson

/-- Read an event from archived bytes; every defect is a failure of the archive. -/
def ofEnvelope (bs : Bytes) : Except Failure Event :=
  match Json.readBytes bs with
  | .error _ => .error (.storage "decode_envelope" .null)
  | .ok j =>
    match ofJson j with
    | .error _ => .error (.storage "decode_envelope" .null)
    | .ok e => .ok e

end Event

end ChainFold
