import ChainFold.Event.Basic
import ChainFold.Json.Comparison
import ChainFold.Store.Condition
import ChainFold.Store.Path
import ChainFold.Uuid
/-!
# What is stored

Three tables: the events by their cids, the streams by their ids, and one index
folder for each stream.  A backend decides which values it takes and how it keeps
them; what its operations mean is the same for all of them.
-/

/-!
## Streams and folders

The current state of a stream, and its entry in the index.  Nothing but the owner of a
stream has to be of a certain kind.
-/

namespace ChainFold

structure Stream where
  id : Json
  owner : Uuid
  tip : Json
  account : Json
  model : Json
  content : Json
  deriving DecidableEq

/-- The index entry of a stream. -/
structure Folder where
  stream : Json
  tip : Json
  signal : Option Json
  deriving DecidableEq

/-- Which streams are listed; a null stands for any value, or for no limit. -/
structure Filter where
  model : Json
  account : Json
  owner : Option String
  limit : Json

namespace Stream

def parsed (text : String) : Except Defect Json :=
  match Json.readText text with
  | .ok j => .ok j
  | .error .malformed => .error .notJson
  | .error .hugeInteger => .error .badValue

/-- A content, given as a value or as the JSON text of one; null stands for an empty object. -/
def contentOf (j : Json) : Except Defect Json := do
  let value ← match j with
    | .str s => parsed s
    | value => .ok value
  pure (value.nonNull.getD (.obj []))

def ownerOf (j : Json) : Except Defect Uuid :=
  match Uuid.read j.display with
  | .ok u => .ok u
  | .error _ => .error .badValue

/-- Read a stream; the owner's key is looked for first, then the content is read. -/
def ofJson : Json → Except Defect Stream
  | .obj ms => do
    let named ← Members.require "dapp_id" ms
    let content ← contentOf (Json.field "content" ms)
    let id ← Members.require "stream_id" ms
    let owner ← ownerOf named
    let tip ← Members.require "tip" ms
    pure ⟨id, owner, tip, Json.field "account" ms, Json.field "model_id" ms, content⟩
  | _ => .error .wrongKind

def toJson (s : Stream) : Json :=
  .obj [("stream_id", s.id), ("dapp_id", .str s.owner.toText), ("tip", s.tip),
    ("account", s.account), ("model_id", s.model), ("content", s.content)]

end Stream

/-! ## What is stored -/

namespace Backend

/-- An event as the backend keeps it: with every block as octets. -/
def keptEvent (b : Backend) (e : Event) : Except Failure Event :=
  if !b.isRelational then .ok e
  else
    match e.blocks.mapM Block.stored with
    | .error d => .error (.defect d)
    | .ok blocks => do
      let cid ← b.column e.cid
      let prev ← b.column e.prev
      let genesis ← b.column e.genesis
      pure ⟨cid, prev, genesis, blocks.map .bytes⟩

/-- Whether the row of an event is complete: it must have a genesis cid and a block. -/
def isCompleteEvent (b : Backend) (e : Event) : Bool :=
  !b.isRelational || (e.genesis != .null && !e.blocks.isEmpty)

/--
Whether a row is refused.  One backend looks at every row that is to be inserted, the
other only at those whose place is not taken.
-/
def refusesRow (b : Backend) (complete taken : Bool) : Bool :=
  !complete && (b != .duckdb || !taken)

/-- Whether the backend takes a content: one of them has no room for NaN and infinities. -/
def takes (b : Backend) (content : Json) : Bool := b != .sqlite || content.isFinite

def keptJson (b : Backend) (j : Json) : Json := if b.isRelational then j.sortKeys else j

def keptStream (b : Backend) (s : Stream) : Except Failure Stream :=
  if !b.isRelational then .ok s
  else do
    let id ← b.column s.id
    let tip ← b.column s.tip
    let account ← b.column s.account
    let model ← b.column s.model
    pure ⟨id, s.owner, tip, account, model, s.content.sortKeys⟩

/-- Whether the row of a stream is complete: it must have a tip and a content that is taken. -/
def isCompleteStream (b : Backend) (s : Stream) : Bool :=
  !b.isRelational || (s.tip != .null && b.takes s.content)

/--
The content that is read back: null is an empty object in a relational backend, and
one of them takes a text for the JSON text of a content.
-/
def readContent (b : Backend) (content : Json) : Except Failure Json :=
  match b with
  | .memory => .ok content
  | .sqlite => .ok (content.nonNull.getD (.obj []))
  | .duckdb =>
    match Stream.contentOf content with
    | .ok j => .ok j
    | .error d => .error (.defect d)

def readStream (b : Backend) (s : Stream) : Except Failure Stream :=
  match b.readContent s.content with
  | .ok content => .ok { s with content := content }
  | .error f => .error f

def keptFolder (b : Backend) (f : Folder) : Except Failure Folder :=
  if !b.isRelational then .ok f
  else do
    let stream ← b.column f.stream
    let tip ← b.column f.tip
    if tip = .null then .error b.refusal
    else .ok ⟨stream, tip, f.signal.map Json.sortKeys⟩

end Backend

structure Tables where
  events : Table Event
  streams : Table Stream
  folders : Table Folder
  deriving DecidableEq

namespace Tables

def empty : Tables := ⟨.empty, .empty, .empty⟩

def event? (b : Backend) (t : Tables) (cid : Json) : Except Failure (Option Event) :=
  b.seek t.events cid

/-- Store an event, unless its cid is taken; says whether it was stored. -/
def insertEvent (b : Backend) (t : Tables) (e : Event) : Except Failure (Bool × Tables) := do
  let e ← b.keptEvent e
  let k ← b.keyOf e.cid
  let taken := t.events.has k
  if b.refusesRow (b.isCompleteEvent e) taken then throw b.refusal
  if taken then pure (false, t) else pure (true, { t with events := t.events.insert k e })

def eventsOf (b : Backend) (t : Tables) (genesis : Json) : Except Failure (List Event) :=
  b.select [⟨genesis, Event.genesis⟩] t.events.values

def row? (b : Backend) (t : Tables) (id : Json) : Except Failure (Option Stream) :=
  b.seek t.streams id

def stream? (b : Backend) (t : Tables) (id : Json) : Except Failure (Option Stream) := do
  match ← row? b t id with
  | none => pure none
  | some s => some <$> b.readStream s

def setStream (t : Tables) (k : Key) (s : Stream) : Tables :=
  { t with streams := t.streams.insert k s }

/-- Store a stream, unless its id is taken; says whether it was stored. -/
def insertStream (b : Backend) (t : Tables) (s : Stream) : Except Failure (Bool × Tables) := do
  let s ← b.keptStream s
  let k ← b.keyOf s.id
  let taken := t.streams.has k
  if b.refusesRow (b.isCompleteStream s) taken then throw b.refusal
  if taken then pure (false, t) else pure (true, t.setStream k s)

/-- The tip that a row is moved to, as the backend keeps it. -/
def newTip (b : Backend) (tip content : Json) : Except Failure Json :=
  if tip = .null && b.isRelational || !b.takes content then .error b.refusal else .ok tip

/--
Move a stream from one tip to another with new content, if it still has the first
tip; says whether it moved.
-/
def swapTip (b : Backend) (t : Tables) (id expected new content : Json) :
    Except Failure (Bool × Tables) := do
  let new ← b.column new
  match ← b.select [⟨id, Stream.id⟩, ⟨expected, Stream.tip⟩] t.streams.values with
  | [] => pure (false, t)
  | s :: _ => do
    let tip ← newTip b new content
    let k ← b.keyOf s.id
    pure (true, t.setStream k { s with tip := tip, content := b.keptJson content })

/-- Whether a filter lets a value through: one that asks for nothing does. -/
def admits (wanted found : Json) : Bool := wanted == .null || found.looselySame wanted

/-- Whether a stream has the owner written in a filter. -/
def ownedAs (s : Stream) (owner : String) : Bool := s.owner.toText == owner

/-- Whether a stream in memory passes a filter. -/
def passes (f : Filter) (s : Stream) : Bool :=
  admits f.model s.model && admits f.account s.account && f.owner.all (ownedAs s)

/-- Whether so many rows reach a limit; only a number can be reached. -/
def reaches (limit : Json) (count : Nat) : Except Failure Bool :=
  if limit = .null then .ok false
  else
    match Amount.of? limit with
    | some n => .ok (n.isAtMost count)
    | none => .error (.defect .wrongKind)

/-- Take rows that pass a filter until the limit is reached, at least one if any passes. -/
def collect (f : Filter) : (taken : Nat) → List Stream → Except Failure (List Stream)
  | _, [] => .ok []
  | n, s :: rest =>
    if !passes f s then collect f n rest
    else
      match reaches f.limit (n + 1) with
      | .error e => .error e
      | .ok true => .ok [s]
      | .ok false => (s :: ·) <$> collect f (n + 1) rest

/-- The integer that a double is, if it is strictly between the bounds of 64 bits. -/
def wordOf? (d : Double) : Option Int :=
  match Key.ofDouble d with
  | .whole n => if -Int.pow 2 63 < n && n < Int.pow 2 63 - 1 then some n else none
  | _ => none

/-- The integer that a text is in a query of the first relational backend. -/
def wordOfText? (s : String) : Option Int :=
  ((Numeral.plainInteger? s).filter Backend.isWord).or ((Numeral.plain? s).bind wordOf?)

/-- The limit in a query of the first relational backend: an integer, or none. -/
def sqliteLimit (limit : Json) : Except Failure (Option Int) :=
  let orRefused (n : Option Int) : Except Failure (Option Int) :=
    if n.isSome then .ok n else .error Backend.sqlite.refusal
  match limit with
  | .null => .ok none
  | .int n => if Backend.isWord n then .ok (some n) else .error (.defect .tooLarge)
  | .bool b => .ok (some b.toNat)
  | .double d => orRefused (wordOf? d)
  | .str s => orRefused (wordOfText? s)
  | _ => .error Backend.sqlite.refusal

/-- The limit in a query of the second relational backend: a count, or none. -/
def duckdbLimit (limit : Json) : Except Failure (Option Int) := do
  let n ← match limit with
    | .null => return none
    | .int n => pure n
    | .bool b => pure (b.toNat : Int)
    | .double d =>
      if d.isFinite then pure d.truncate
      else if d.isNaN then throw (.defect .badValue)
      else throw (.defect .tooLarge)
    | .str s =>
      match Text.readInteger 10 s with
      | .ok n => pure n
      | .error _ => throw (.defect .badValue)
    | _ => throw (.defect .wrongKind)
  if n < 0 || !Backend.isWord n then throw Backend.duckdb.refusal
  pure (some n)

/-- The first rows of a list; a negative limit is none. -/
def cut (limit : Option Int) (found : List Stream) : List Stream :=
  match limit with
  | none => found
  | some n => if n < 0 then found else found.take n.toNat

/-- The conditions of a filter on columns of texts. -/
def conditions (f : Filter) : List (Condition Stream) :=
  [⟨f.model, Stream.model⟩, ⟨f.account, Stream.account⟩].filter (·.wanted != .null)

/--
The rows that pass a filter, whatever its limit.  One backend reads what is asked for as
an owner: it looks at the owners first, but if there is no such owner the query fails
once there is a row to compare it with.
-/
def passing (b : Backend) (f : Filter) (rows : List Stream) : Except Failure (List Stream) :=
  match f.owner with
  | none => b.select (conditions f) rows
  | some text =>
    if b != .duckdb then do pure ((← b.select (conditions f) rows).filter (ownedAs · text))
    else
      match Uuid.readStrict? text with
      | some u => b.select (conditions f) (rows.filter (·.owner == u))
      | none => do
        if (← b.select (conditions f) rows).isEmpty then pure [] else throw b.refusal

def queryStreams (b : Backend) (t : Tables) (f : Filter) : Except Failure (List Stream) := do
  let limit ← if b == .sqlite then pure none else duckdbLimit f.limit
  let _ ← (conditions f).mapM fun c => b.column c.wanted
  if limit = some 0 then return []
  let found ← passing b f t.streams.values
  let limit ← if b == .sqlite then sqliteLimit f.limit else pure limit
  (cut limit found).mapM b.readStream

def listStreams (b : Backend) (t : Tables) (f : Filter) : Except Failure (List Stream) :=
  if b.isRelational then queryStreams b t f
  else do collect f 0 (← Backend.ordered t.streams)

/-- The value of a key of an object; what is no text is the key of nothing. -/
def fieldOf (key content : Json) : Except Failure Json :=
  match content with
  | .obj ms =>
    match key with
    | .str k => .ok (Json.field k ms)
    | .arr _ | .obj _ => .error (.defect .wrongKind)
    | _ => .ok .null
  | _ => .error (.defect .noSuchPart)

/-- The first stream of a list whose content has a value under a key, as it is read back. -/
def findAmong (b : Backend) (key value : Json) : List Stream → Except Failure (Option Stream)
  | [] => .ok none
  | s :: rest => do
    let s ← b.readStream s
    if (← fieldOf key s.content).looselySame value then pure (some s)
    else findAmong b key value rest

/-- The rows of a list in whose stored content a key has a value other than null. -/
def withKey (key : String) : List Stream → Except Failure (List Stream)
  | [] => .ok []
  | s :: rest =>
    match Path.finds key s.content with
    | .error _ => .error Backend.sqlite.refusal
    | .ok found => (fun rows => if found then s :: rows else rows) <$> withKey key rest

/--
The first stream of a model whose content has a value under a key.  One backend first
looks for the key in the stored text of every stream of the model.
-/
def findStream (b : Backend) (t : Tables) (model key value : Json) :
    Except Failure (Option Stream) :=
  match b with
  | .memory => do
    findAmong b key value ((← Backend.ordered t.streams).filter (·.model.looselySame model))
  | .duckdb => do findAmong b key value (← b.select [⟨model, Stream.model⟩] t.streams.values)
  | .sqlite =>
    match key with
    | .str k => do
      let found ← b.select [⟨model, Stream.model⟩] t.streams.values
      findAmong b key value (← withKey k found)
    | _ => .error (.defect .noSuchPart)

def folder? (b : Backend) (t : Tables) (id : Json) : Except Failure (Option Folder) :=
  b.seek t.folders id

def putFolder (b : Backend) (t : Tables) (f : Folder) : Except Failure Tables := do
  let f ← b.keptFolder f
  let k ← b.keyOf f.stream
  pure { t with folders := t.folders.insert k f }

def signalFolders (t : Tables) : Except Failure (List Folder) :=
  (·.filter (·.signal.isSome)) <$> Backend.ordered t.folders

end Tables

end ChainFold
