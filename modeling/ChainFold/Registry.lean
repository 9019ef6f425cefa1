import ChainFold.Failure
import ChainFold.Json.Key
import ChainFold.Yaml.Value
/-!
# Registered models

A model belongs to an owner and has a name and a version.  Models are kept by
their ids in the order of first registration; the last registration of an id is
the one that counts.
-/

namespace ChainFold

structure Model where
  id : String
  name : String
  owner : Uuid
  encryptable : List Yaml.Value
  version : Int

namespace Model

/-- Why an entry is not read as a model. -/
inductive Fault where
  | missing (key : String)
  | badValue (reason : String)
  | defect (d : Defect)

def textOf (v : Yaml.Value) : Except Fault String :=
  match v.display with
  | .ok s => .ok s
  | .error .badValue => .error (.badValue Text.tooLongToWrite)
  | .error d => .error (.defect d)

def partsOf (v : Yaml.Value) : Except Fault (List Yaml.Value) :=
  if !v.isPresent then .ok []
  else
    match v.parts? with
    | some parts => .ok parts
    | none => .error (.defect .wrongKind)

/-- A version as an integer: cut from a double, or read from a text. -/
def versionOf : Yaml.Value → Except Fault Int
  | .int n => .ok n
  | .bool b => .ok b.toNat
  | .double d =>
    if d.isFinite then .ok d.truncate
    else if d.isNaN then .error (.badValue "cannot convert float NaN to integer")
    else .error (.defect .tooLarge)
  | .str s =>
    match Text.readInteger 10 s with
    | .ok n => .ok n
    | .error fault => .error (.badValue fault.message)
  | _ => .error (.defect .wrongKind)

def ownerOf (v : Yaml.Value) : Except Fault Uuid := do
  match Uuid.read (← textOf v) with
  | .ok u => pure u
  | .error fault => throw (.badValue fault.message)

def needed (key : String) (es : List (String × Yaml.Value)) : Except Fault Yaml.Value :=
  match es.lookup key with
  | some v => .ok v
  | none => .error (.missing key)

/-- Read a model from the members of an entry, the fields in order. -/
def ofEntries (es : List (String × Yaml.Value)) : Except Fault Model := do
  let owner ← needed "dapp_id" es
  let id ← needed "model_id" es
  let idText ← textOf id
  let name ← textOf ((es.lookup "name").getD id)
  let uuid ← ownerOf owner
  let encryptable ← partsOf ((es.lookup "encryptable").getD .null)
  let version ← versionOf ((es.lookup "version").getD (.int 0))
  pure ⟨idText, name, uuid, encryptable, version⟩

/-- The failure that a fault is reported as; a bad value is told with the owner, if that can be. -/
def Fault.failure (owner : Yaml.Value) : Fault → Failure
  | .missing key => .invalid key "missing in model entry" .null
  | .badValue reason =>
    match owner.display with
    | .ok text => .invalid "dapp_id" reason (.str text)
    | .error d => .defect d
  | .defect d => .defect d

/-- Read a model from an entry of a document; only mappings can become models. -/
def ofValue (v : Yaml.Value) : Except Failure Model :=
  match v.textMembers? with
  | none => .error (.defect .wrongKind)
  | some es =>
    match ofEntries es with
    | .ok m => .ok m
    | .error fault => .error (fault.failure ((es.lookup "dapp_id").getD .null))

def ofJson (j : Json) : Except Failure Model := ofValue (.ofJson j)

def toValue (m : Model) : Yaml.Value :=
  .map [(.str "model_id", .str m.id), (.str "name", .str m.name),
    (.str "dapp_id", .str m.owner.toText), (.str "encryptable", .seq m.encryptable),
    (.str "version", .int m.version)]

def precedes (a b : Model) : Bool := a.name < b.name || (a.name == b.name && a.version ≤ b.version)

/-- Put a model before the first one that it precedes. -/
def insertOrdered (m : Model) : List Model → List Model
  | [] => [m]
  | n :: rest => if m.precedes n then m :: n :: rest else n :: insertOrdered m rest

/-- The later of two models, the first if their versions are equal. -/
def newer (a b : Model) : Model := if a.version < b.version then b else a

end Model

/-- Models in the order of first registration, each id once. -/
structure Registry where
  models : List Model

namespace Registry

def empty : Registry := ⟨[]⟩

def place (m : Model) : List Model → List Model
  | [] => [m]
  | n :: rest => if n.id = m.id then m :: rest else n :: place m rest

def register (r : Registry) (m : Model) : Registry := ⟨place m r.models⟩

def ofModels (models : List Model) : Registry := models.foldl register empty

def find? (r : Registry) (id : String) : Option Model := r.models.find? (·.id == id)

/-- The model of an id that may be any value; arrays and objects cannot be looked up. -/
def seek (r : Registry) (id : Json) : Except Defect (Option Model) :=
  match id.key? with
  | none => .error .wrongKind
  | some (.text s) => .ok (r.find? s)
  | some _ => .ok none

def has (r : Registry) (id : Json) : Except Defect Bool := Option.isSome <$> r.seek id

def get (r : Registry) (id : Json) : Except Failure Model :=
  match r.seek id with
  | .ok (some m) => .ok m
  | .ok none => .error (.modelNotFound id)
  | .error d => .error (.defect d)

/-- The models of an owner, in the order of registration. -/
def owned (r : Registry) (owner : Uuid) : List Model := r.models.filter (·.owner == owner)

/-- The models of an owner by name and version, ties in the order of registration. -/
def listOwned (r : Registry) (owner : Uuid) : List Model :=
  (r.owned owner).foldr Model.insertOrdered []

/-- The latest version of an owner's model of a name, the first registered of equal ones. -/
def latest (r : Registry) (owner : Uuid) (name : Json) : Except Failure Model :=
  match (r.owned owner).filter (Json.str ·.name == name) with
  | [] => .error (.modelNotFound s!"{owner.toText}/{name.display}")
  | m :: rest => .ok (rest.foldl Model.newer m)

def ownerOf (r : Registry) (id : Json) : Except Failure Uuid :=
  match r.get id with
  | .ok m => .ok m.owner
  | .error f => .error f

def size (r : Registry) : Nat := r.models.length

/-- The entries in a document: the value under `models`, nothing in other documents. -/
def entries (v : Yaml.Value) : Except Failure (List Yaml.Value) :=
  match v.textMembers? with
  | none => .ok []
  | some ms =>
    match ms.lookup "models" with
    | none => .ok []
    | some models =>
      match models.parts? with
      | some parts => .ok parts
      | none => .error (.defect .wrongKind)

/-- The registry of a document; the first entry that is no model is reported. -/
def ofDocument (v : Yaml.Value) : Except Failure Registry := do
  let models ← (← entries v).mapM Model.ofValue
  pure (ofModels models)

end Registry

end ChainFold
