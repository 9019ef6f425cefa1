import ChainFold.Store.Tables
/-!
# Calls inside a transaction

The operations of a transaction as data, and their two meanings: on the tables
themselves, and on tables with staged writes.  A transaction is a list of calls;
its writes are kept if every call is answered and it is not abandoned.
-/

/-!
## Staged writes

A transaction in memory: the writes are staged beside the tables and published
together at its end, so that dropping the stage leaves no trace.  Reads look at
the stage first.
-/

namespace ChainFold

/-- Tables with the writes of an open transaction beside them. -/
structure Staged where
  base : Tables
  stage : Tables

namespace Staged

def begin (t : Tables) : Staged := ⟨t, .empty⟩

def publish (s : Staged) : Tables :=
  { events := s.base.events.merge s.stage.events
    streams := s.base.streams.merge s.stage.streams
    folders := s.base.folders.merge s.stage.folders }

/-- The key of an identifier; arrays and objects have none. -/
def keyOf (id : Json) : Except Failure Key := Backend.memory.keyOf id

def eventAt? (s : Staged) (k : Key) : Option Event :=
  (s.stage.events.get? k).or (s.base.events.get? k)

def event? (s : Staged) (cid : Json) : Except Failure (Option Event) :=
  s.eventAt? <$> keyOf cid

/-- Stage an event, unless its cid is taken; says whether it was staged. -/
def insertEvent (s : Staged) (e : Event) : Except Failure (Bool × Staged) := do
  let k ← keyOf e.cid
  if (s.eventAt? k).isSome then pure (false, s)
  else pure (true, { s with stage := { s.stage with events := s.stage.events.insert k e } })

/-- The rows of a table under the keys that another one has not. -/
def besides {α : Type} (base stage : Table α) : List α :=
  (base.rows.filter fun row => !stage.has row.1).map (·.2)

/-- The events of a chain's genesis cid, those in the tables before those staged. -/
def eventsOf (s : Staged) (genesis : Json) : List Event :=
  (besides s.base.events s.stage.events ++ s.stage.events.values).filter
    (·.genesis.looselySame genesis)

def streamAt? (s : Staged) (k : Key) : Option Stream :=
  (s.stage.streams.get? k).or (s.base.streams.get? k)

def stream? (s : Staged) (id : Json) : Except Failure (Option Stream) :=
  s.streamAt? <$> keyOf id

def setStream (s : Staged) (k : Key) (row : Stream) : Staged :=
  { s with stage := s.stage.setStream k row }

/-- Stage a stream, unless its id is taken; says whether it was staged. -/
def insertStream (s : Staged) (row : Stream) : Except Failure (Bool × Staged) := do
  let k ← keyOf row.id
  if (s.streamAt? k).isSome then pure (false, s) else pure (true, s.setStream k row)

/-- Move a stream from one tip to another, if it still has the first; says whether it moved. -/
def swapTip (s : Staged) (id expected new content : Json) : Except Failure (Bool × Staged) := do
  let k ← keyOf id
  match s.streamAt? k with
  | none => pure (false, s)
  | some row =>
    if row.tip.looselySame expected then
      pure (true, s.setStream k { row with tip := new, content := content })
    else pure (false, s)

/-- All streams by their ids, staged rows on top. -/
def streams (s : Staged) : Table Stream := s.base.streams.merge s.stage.streams

/-- All folders by their streams, staged rows on top. -/
def folders (s : Staged) : Table Folder := s.base.folders.merge s.stage.folders

/-- The streams that pass a filter, in the order of their ids. -/
def listStreams (s : Staged) (f : Filter) : Except Failure (List Stream) := do
  Tables.collect f 0 (← Backend.ordered s.streams)

def findStream (s : Staged) (model key value : Json) : Except Failure (Option Stream) := do
  let rows ← Backend.ordered s.streams
  Tables.findAmong .memory key value (rows.filter (·.model.looselySame model))

def folder? (s : Staged) (id : Json) : Except Failure (Option Folder) :=
  s.folders.get? <$> keyOf id

def putFolder (s : Staged) (f : Folder) : Except Failure Staged := do
  let k ← keyOf f.stream
  pure { s with stage := { s.stage with folders := s.stage.folders.insert k f } }

/-- The folders that have a signal, in the order of their streams. -/
def signalFolders (s : Staged) : Except Failure (List Folder) :=
  (·.filter (·.signal.isSome)) <$> Backend.ordered s.folders

end Staged

/-! ## Calls inside a transaction -/

inductive Call where
  | event? (cid : Json)
  | insertEvent (e : Event)
  | eventsOf (genesis : Json)
  | stream? (id : Json)
  | insertStream (s : Stream)
  | swapTip (id expected new content : Json)
  | listStreams (f : Filter)
  | findStream (model key value : Json)
  | folder? (id : Json)
  | putFolder (f : Folder)
  | signalFolders

inductive Answer where
  | done
  | flag (b : Bool)
  | event (e : Option Event)
  | events (es : List Event)
  | stream (s : Option Stream)
  | streams (ss : List Stream)
  | folder (f : Option Folder)
  | folders (fs : List Folder)
  deriving DecidableEq

namespace Tables

def call (b : Backend) (t : Tables) (c : Call) : Except Failure (Answer × Tables) :=
  let flagged := Except.map fun (r : Bool × Tables) => (Answer.flag r.1, r.2)
  match c with
  | .event? cid => (fun e => (.event e, t)) <$> t.event? b cid
  | .insertEvent e => flagged (t.insertEvent b e)
  | .eventsOf genesis => (fun es => (.events es, t)) <$> t.eventsOf b genesis
  | .stream? id => (fun s => (.stream s, t)) <$> t.stream? b id
  | .insertStream s => flagged (t.insertStream b s)
  | .swapTip id expected new content => flagged (t.swapTip b id expected new content)
  | .listStreams f => (fun ss => (.streams ss, t)) <$> t.listStreams b f
  | .findStream model key value => (fun s => (.stream s, t)) <$> t.findStream b model key value
  | .folder? id => (fun f => (.folder f, t)) <$> t.folder? b id
  | .putFolder f => (fun t => (.done, t)) <$> t.putFolder b f
  | .signalFolders => (fun fs => (.folders fs, t)) <$> t.signalFolders

end Tables

namespace Staged

def call (s : Staged) (c : Call) : Except Failure (Answer × Staged) :=
  let flagged := Except.map fun (r : Bool × Staged) => (Answer.flag r.1, r.2)
  match c with
  | .event? cid => (fun e => (.event e, s)) <$> s.event? cid
  | .insertEvent e => flagged (s.insertEvent e)
  | .eventsOf genesis => .ok (.events (s.eventsOf genesis), s)
  | .stream? id => (fun row => (.stream row, s)) <$> s.stream? id
  | .insertStream row => flagged (s.insertStream row)
  | .swapTip id expected new content => flagged (s.swapTip id expected new content)
  | .listStreams f => (fun rows => (.streams rows, s)) <$> s.listStreams f
  | .findStream model key value => (fun row => (.stream row, s)) <$> s.findStream model key value
  | .folder? id => (fun f => (.folder f, s)) <$> s.folder? id
  | .putFolder f => (fun s => (.done, s)) <$> s.putFolder f
  | .signalFolders => (fun fs => (.folders fs, s)) <$> s.signalFolders

end Staged

/-- An open transaction: staged in memory, or on a copy of the tables of a backend. -/
inductive Session where
  | staged (s : Staged)
  | direct (b : Backend) (t : Tables)

namespace Session

def begin (b : Backend) (t : Tables) : Session :=
  match b with
  | .memory => .staged (.begin t)
  | b => .direct b t

def call (s : Session) (c : Call) : Except Failure (Answer × Session) :=
  match s with
  | .staged st =>
    match st.call c with
    | .ok (a, st') => .ok (a, .staged st')
    | .error f => .error f
  | .direct b t =>
    match t.call b c with
    | .ok (a, t') => .ok (a, .direct b t')
    | .error f => .error f

def commit : Session → Tables
  | .staged s => s.publish
  | .direct _ t => t

end Session

end ChainFold
