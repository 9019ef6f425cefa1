import ChainFold.Archive
import ChainFold.Engine.Resolution
import ChainFold.Event.Validation
import ChainFold.Log
import ChainFold.Registry
import ChainFold.Store.Tables
/-!
# Engines

An engine is a store with an archive, a registry of models and a desk.  What a
transaction changes is kept only if it succeeds; the desk keeps what has happened
in any case.
-/

/-!
## Stores

A store is a backend that is open or closed, with what it holds.  Closing a
relational store that is not kept in a file loses its tables.
-/

namespace ChainFold

/-- A backend with what it holds. -/
structure Store where
  backend : Backend
  /-- The path of the data file, or the word for none. -/
  path : String
  isOpen : Bool
  tables : Tables

namespace Store

/-- The path that stands for a store without a file. -/
def noFile : String := ":memory:"

def closed (b : Backend) (path : String) : Store := ⟨b, path, false, .empty⟩

/-- Whether the tables survive when the store is closed. -/
def outlivesClose (s : Store) : Bool := s.backend == .memory || s.path != noFile

def openedLine (s : Store) : Log.Line :=
  let place := if s.backend == .memory then "" else s!": {s.path}"
  ⟨Log.info, s!"dataverse_streams.backends.{s.backend.name}",
    s!"{s.backend.title} backend initialized{place}", none, []⟩

/-- Open a store; an open relational one is left as it is. -/
def opened (s : Store) : Store × List Log.Line :=
  if s.isOpen && s.backend != .memory then (s, [])
  else ({ s with isOpen := true }, [s.openedLine])

def shut (s : Store) : Store :=
  { s with isOpen := false, tables := if s.outlivesClose then s.tables else .empty }

end Store

/-! ## Engines -/

structure Engine where
  store : Store
  archive : Archive
  registry : Registry
  desk : Desk
  extract : Extractor
  maxBlockBytes : Option Amount

namespace Engine

def logger : String := "dataverse_streams.engine"

def backend (en : Engine) : Backend := en.store.backend

/-- The id of the stream that an event belongs to. -/
def streamOf (e : Event) : Except Failure String :=
  match Ident.streamIdOf e.genesis with
  | .ok id => .ok id
  | .error d => .error (.defect d)

/-- What a transaction can change. -/
structure Holdings where
  tables : Tables
  archive : Archive

def tables (en : Engine) : Tables := en.store.tables

/-- What a transaction finds. -/
def holdings (en : Engine) : Holdings := ⟨en.tables, en.archive⟩

def withHoldings (en : Engine) (h : Holdings) : Engine :=
  { en with store := { en.store with tables := h.tables }, archive := h.archive }

/-- A store must be open for a transaction. -/
def checkOpen (en : Engine) : Except Failure Unit :=
  if en.store.isOpen then .ok () else .error en.backend.refusal

/-- Run a computation that may change the holdings; a failure leaves them as they are. -/
def commit {α : Type} (en : Engine) (w : Work (α × Holdings)) : Except Failure α × Engine :=
  let (r, desk) := (w.run).run en.desk
  match r with
  | .ok (a, h) => (.ok a, { en with desk := desk }.withHoldings h)
  | .error f => (.error f, { en with desk := desk })

/-- Run a computation that leaves the holdings as they are. -/
def observe {α : Type} (en : Engine) (w : Work α) : Except Failure α × Engine :=
  let (r, desk) := (w.run).run en.desk
  (r, { en with desk := desk })

/-- A transaction on the tables of an open store. -/
def transaction {α : Type} (en : Engine) (body : Tables → Work (α × Tables)) :
    Work (α × Holdings) := do
  Work.ofExcept en.checkOpen
  let (a, t) ← body en.tables
  pure (a, ⟨t, en.archive⟩)

def reading {α : Type} (en : Engine) (body : Tables → Work α) : Work α := do
  Work.ofExcept en.checkOpen
  body en.tables

def noted (en : Engine) (lines : List Log.Line) : Engine :=
  { en with desk := { en.desk with log := lines.reverse ++ en.desk.log } }

/-- The lines logged so far at a level or above, in order, and the engine with an empty log. -/
def takeLog (en : Engine) (level : Int) : List Log.Line × Engine :=
  ((en.desk.log.filter fun l => level ≤ l.level).reverse,
    { en with desk := { en.desk with log := [] } })

end Engine

end ChainFold

/-!
## Archiving

Bytes are archived under cids, within a submission or on their own; a new file is
noted in the log.
-/

namespace ChainFold.Engine

def archiveLogger : String := "dataverse_streams.blockstore.file"

/-- Note that a new file holds a block. -/
def noteKept (a : Archive) (cid : Json) (size : Nat) : Work Unit := do
  if a.isFiles then
    Work.note Log.debug archiveLogger s!"Stored block {cid.display} ({size} bytes)" []

/-- Archive bytes, with a log line for a new file. -/
def keep (a : Archive) (cid : Json) (bs : Bytes) : Work (Bool × Archive) := do
  let (written, a) ← Work.ofExcept (a.put cid bs)
  if written then noteKept a cid bs.length
  pure (written, a)

/-- The number of octets that a block is stored as. -/
def sizeOf (b : Block) : Nat := (b.stored.toOption.map List.length).getD 0

/-- Archive a block outside any submission; says whether it was written. -/
def archiveBlock (en : Engine) (cid : Json) (b : Block) : Except Failure Bool × Engine :=
  let (r, a) := en.archive.putBlock cid b
  let en := { en with archive := a }
  match r with
  | .ok true => en.observe do
    noteKept a cid (sizeOf b)
    pure true
  | r => (r, en)

/-- The bytes under which an event is archived. -/
def envelopeOf (e : Event) : Except Failure Bytes :=
  match e.envelope with
  | .ok bs => .ok bs
  | .error d => .error (.defect d)

/-- Archive an event under its cid outside any submission. -/
def archiveEvent (en : Engine) (e : Event) : Except Failure Bool × Engine :=
  match envelopeOf e with
  | .ok bs => en.archiveBlock e.cid (.bytes bs)
  | .error f => (.error f, en)

end ChainFold.Engine
