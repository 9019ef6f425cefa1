import ChainFold.Event.Basic
import ChainFold.Json.Printer
import ChainFold.Json.Reader
/-!
# Payloads

The first block of an event may hold a JSON object.  The first event of a chain
carries a header and the initial content, a later one a patch.  A block that is no
JSON is a payload without meaning.
-/

namespace ChainFold

/-- What the first event of a chain says about it. -/
structure Header where
  model : Option Json
  controllers : List Json
  deriving DecidableEq

namespace Header

/-- The header that says nothing. -/
def blank : Header := ⟨none, []⟩

/-- The owning account: the first controller, null if there is none. -/
def account (h : Header) : Json := h.controllers.head?.getD .null

/-- The controllers in a header: one text, or the displayed parts of a collection. -/
def controllersOf (j : Json) : Except Defect (List Json) :=
  if !j.isPresent then .ok []
  else
    match j with
    | .str s => .ok [.str s]
    | j =>
      match j.parts? with
      | some parts => .ok (parts.map fun part => .str part.display)
      | none => .error .wrongKind

/-- Read a header; an absent one says nothing, and one that is no object has no parts. -/
def ofJson (j : Json) : Except Defect Header :=
  if !j.isPresent then .ok blank
  else
    match j with
    | .obj ms => do
      let controllers ← controllersOf (Json.field "controllers" ms)
      pure ⟨(Json.field "model" ms).nonNull, controllers⟩
    | _ => .error .noSuchPart

/-- A header as an object, the model only if there is one. -/
def toJson (h : Header) : Json :=
  .obj (("controllers", .arr h.controllers) ::
    (match h.model with
      | none => []
      | some model => [("model", model)]))

end Header

/-- The decoded first block of an event. -/
structure Payload where
  /-- The header, in the first event of a chain. -/
  header : Option Header
  /-- The initial content or the patch, if any. -/
  data : Option Json
  /-- Whether the block is not JSON at all. -/
  unread : Bool
  deriving DecidableEq

namespace Payload

/-- The payload of a block that is not JSON. -/
def unreadable : Payload := ⟨none, none, true⟩

/-- The payload of an object, for the first event of a chain or a later one. -/
def ofMembers (cid : Json) (atGenesis : Bool) (ms : Members) : Except Failure Payload :=
  let data := Json.field "data" ms
  let header := Json.field "header" ms
  if header ≠ .null ∧ ¬ header.isObject then
    .error (.malformedEvent cid "payload header must be an object")
  else if atGenesis then
    if data ≠ .null ∧ ¬ data.isObject then
      .error (.malformedEvent cid "genesis data must be a JSON object")
    else
      match Header.ofJson header with
      | .ok h => .ok ⟨some h, data.nonNull, false⟩
      | .error d => .error (.defect d)
  else
    match data with
    | .null => .ok ⟨none, none, false⟩
    | .arr items => .ok ⟨none, some (.arr items), false⟩
    | _ => .error (.malformedEvent cid "update data must be a JSON Patch list")

def ofBytes (cid : Json) (atGenesis : Bool) (bs : Bytes) : Except Failure Payload :=
  match Json.readBytes bs with
  | .error .malformed => .ok unreadable
  | .error .hugeInteger => .error (.defect .badValue)
  | .ok (.obj ms) => ofMembers cid atGenesis ms
  | .ok _ => .error (.malformedEvent cid "payload must be a JSON object")

/--
Read the payload from the first block of an event.  Zero octets are no JSON, so a count
of them is never spelled out.
-/
def read (cid : Json) (atGenesis : Bool) (first : Option Block) : Except Failure Payload :=
  match first with
  | none => .error (.malformedEvent cid "missing payload block")
  | some b =>
    match b.count? with
    | some n =>
      match Block.zeros n with
      | .ok _ => .ok unreadable
      | .error d => .error (.defect d)
    | none =>
      match b.octets with
      | .ok (some bs) => ofBytes cid atGenesis bs
      | .ok none => .error (.malformedEvent cid "missing payload block")
      | .error d => .error (.defect d)

/-- The items that controllers are given as: none if absent, else the parts of the value. -/
def controllerItems (controllers : Json) : Except Defect (List Json) :=
  if !controllers.isPresent then .ok []
  else
    match controllers.parts? with
    | some parts => .ok parts
    | none => .error .wrongKind

/-- The bytes of a payload; a header is written only if it says something. -/
def encode (data model controllers : Json) : Except Defect Bytes := do
  let items ← controllerItems controllers
  let header : Members :=
    if model = .null && items.isEmpty then []
    else [("header", (Header.mk model.nonNull items).toJson)]
  let data : Members := if data = .null then [] else [("data", data)]
  pure (Text.utf8 (Json.obj (header ++ data)).archived)

end Payload

def Event.payload (e : Event) : Except Failure Payload :=
  Payload.read e.cid e.isGenesis e.blocks.head?

end ChainFold
