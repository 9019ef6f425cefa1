import ChainFold.Chain
import ChainFold.Engine.Basic
import ChainFold.Engine.Resolution
import ChainFold.Store.Call
/-!
# Transactions of a caller

A caller may run steps of its own in one transaction: calls of the store, and the
two operations of the index.  What the caller makes of a reply belongs to the
transaction too.  The first step that fails ends the transaction and undoes it, and so
does a caller that abandons it.
-/

namespace ChainFold.Engine

/-- One step of a caller's transaction. -/
inductive Step where
  | call (c : Call)
  | refresh (stream tip content : Json)
  | query (p : Signal.Predicate)

/-- What a step is answered. -/
inductive Reply where
  | answer (a : Answer)
  | ids (ids : List Json)
  deriving DecidableEq

/-- A step that the caller may fail to put together, and what it makes of the reply. -/
structure Request (α : Type) where
  step : Except Failure Step
  make : Reply → Except Failure α

/-- A step whose reply is taken as it is. -/
def Request.ofStep (step : Step) : Request Reply := ⟨.ok step, .ok⟩

def reply (extract : Extractor) (s : Session) : Step → Work (Reply × Session)
  | .call c => do
    let (a, s) ← Work.ofExcept (s.call c)
    pure (.answer a, s)
  | .refresh stream tip content => do
    let f ← Work.ofExcept (Index.folderOf extract stream tip content)
    let (_, s) ← Work.ofExcept (s.call (.putFolder f))
    Index.noteWritten f
    pure (.answer (.folder (some f)), s)
  | .query p => do
    let (a, s) ← Work.ofExcept (s.call .signalFolders)
    match a with
    | .folders fs =>
      let ids ← Work.ofExcept (Index.matching p fs)
      pure (.ids ids, s)
    | _ => throw (.defect .noSuchPart)

def fulfil {α : Type} (extract : Extractor) (s : Session) (r : Request α) : Work (α × Session) := do
  let step ← Work.ofExcept r.step
  let (a, s) ← reply extract s step
  pure (← Work.ofExcept (r.make a), s)

/-- What a transaction of a caller leaves: results, the failure that ended it, and the tables. -/
structure Outcome (α : Type) where
  results : List α
  failure : Option Failure
  tables : Tables

/-- Carry out requests until one fails. -/
def fulfilAll {α : Type} (extract : Extractor) (s : Session) :
    List (Request α) → Desk → List α × Option Failure × Session × Desk
  | [], d => ([], none, s, d)
  | r :: rest, d =>
    match ((fulfil extract s r).run).run d with
    | (.error f, d) => ([], some f, s, d)
    | (.ok (a, s), d) =>
      let (as, f, s, d) := fulfilAll extract s rest d
      (a :: as, f, s, d)

/-- Run a caller's transaction; its writes stay if no step fails and it is not abandoned. -/
def transact {α : Type} (en : Engine) (requests : List (Request α)) (abandoned : Bool) :
    Outcome α × Engine :=
  match en.checkOpen with
  | .error f => (⟨[], some f, en.tables⟩, en)
  | .ok () =>
    let start := Session.begin en.backend en.tables
    let (as, f, s, d) := fulfilAll en.extract start requests en.desk
    let t := if f.isNone && !abandoned then s.commit else en.tables
    (⟨as, f, t⟩, { en with desk := d }.withHoldings ⟨t, en.archive⟩)

def linkage (en : Engine) (e : Event) : Except Failure Linkage × Engine :=
  en.observe (en.reading fun t => Linkage.link en.backend t e)

def createStream (en : Engine) (e : Event) (id : Json) (owner : Uuid) :
    Except Failure Receipt × Engine :=
  en.commit (en.transaction fun t =>
    Resolution.createStream en.backend en.extract t e id owner)

/-- Apply an event to a stream as a caller remembers it. -/
def advanceFrom (en : Engine) (e : Event) (row : Stream) : Except Failure Receipt × Engine :=
  en.commit (en.transaction fun t => Resolution.advance en.backend en.extract t e row)

end ChainFold.Engine
