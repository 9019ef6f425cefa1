import ChainFold.Chain
import ChainFold.Engine.Basic
/-!
# Reading and rebuilding

Streams, events, folders and chains as they are stored; states of any branch; and
the rebuilding of a stream from its chain.
-/

namespace ChainFold.Engine

/-- A stream id must have the shape of one to be looked up. -/
def checkShape (id : Json) : Except Failure Unit :=
  if Ident.isStreamId id then .ok () else .error (.streamNotFound id)

/-- What was looked up under a stream id, which must be there. -/
def found {α : Type} (id : Json) : Option α → Except Failure α
  | some a => .ok a
  | none => .error (.streamNotFound id)

def readStream (en : Engine) (id : Json) : Work Stream := do
  Work.ofExcept (checkShape id)
  en.reading fun t => Work.ofExcept do found id (← t.stream? en.backend id)

def readFolder (en : Engine) (id : Json) : Work Folder := do
  Work.ofExcept (checkShape id)
  en.reading fun t => Work.ofExcept do found id (← t.folder? en.backend id)

/-- The event with a cid, from the tables or else from the archive. -/
def readEvent (en : Engine) (cid : Json) : Work Event := do
  match ← en.reading fun t => Work.ofExcept (t.event? en.backend cid) with
  | some e => pure e
  | none =>
    match ← Work.ofExcept (en.archive.getEvent cid) with
    | none => throw (.eventNotFound cid .null)
    | some e =>
      Work.note Log.debug logger s!"Event {cid.display} served from block store" []
      pure e

/-- The event from which a chain of a stream is walked back. -/
def startOf (b : Backend) (t : Tables) (id cid : Json) : Except Failure Event := do
  match ← t.event? b cid with
  | none => throw (.eventNotFound cid id)
  | some e => if id = .str (← streamOf e) then pure e else throw (.eventNotFound cid id)

/-- The chain of a stream up to a tip, by default the tip of the stream. -/
def chainOf (b : Backend) (t : Tables) (id tip : Json) : Except Failure (List Event) := do
  let row ← found id (← t.stream? b id)
  let start ← startOf b t id (if tip.isPresent then tip else row.tip)
  Chain.toTip (← t.eventsOf b start.genesis) start.genesis start.cid

def readChain (en : Engine) (id tip : Json) : Work (List Event) := do
  Work.ofExcept (checkShape id)
  en.reading fun t => Work.ofExcept (chainOf en.backend t id tip)

def readBranch (en : Engine) (id tip : Json) : Work Fold.State := do
  Fold.project (← en.readChain id tip)

def readStreams (en : Engine) (f : Filter) : Work (List Stream) :=
  en.reading fun t => Work.ofExcept (t.listStreams en.backend f)

def readByContent (en : Engine) (model key value : Json) : Work (Option Stream) :=
  en.reading fun t => Work.ofExcept (t.findStream en.backend model key value)

def readBySignal (en : Engine) (p : Signal.Predicate) : Work (List Json) :=
  en.reading fun t => Work.ofExcept (Index.query t p)

def readSignals (en : Engine) : Work (List Folder) :=
  en.reading fun t => Work.ofExcept t.signalFolders

/-- Fold a stream again from its chain and write its content and folder at its tip. -/
def rebuilding (en : Engine) (id : Json) : Work (Stream × Holdings) := do
  Work.ofExcept (checkShape id)
  let ((row, chain), h) ← en.transaction fun t => do
    let chain ← Work.ofExcept (chainOf en.backend t id .null)
    let s ← Fold.projectAfresh chain
    let row ← Work.ofExcept do found id (← t.stream? en.backend id)
    let (moved, t) ← Work.ofExcept (t.swapTip en.backend id s.tip s.tip s.content)
    if moved then
      let t ← Index.refresh en.backend en.extract t id s.tip s.content
      pure (({ row with content := s.content }, chain), t)
    else throw (.brokenChain s.tip "tip moved during rebuild" .null .null)
  Work.note Log.info logger s!"Rebuilt stream from {chain.length} events" [("stream_id", id)]
  pure (row, h)

def getStream (en : Engine) (id : Json) : Except Failure Stream × Engine :=
  en.observe (en.readStream id)

def getFolder (en : Engine) (id : Json) : Except Failure Folder × Engine :=
  en.observe (en.readFolder id)

def getEvent (en : Engine) (cid : Json) : Except Failure Event × Engine :=
  en.observe (en.readEvent cid)

/-- The events of a stream up to a tip, by default the tip of the stream. -/
def loadEvents (en : Engine) (id tip : Json) : Except Failure (List Event) × Engine :=
  en.observe (en.readChain id tip)

/-- The state that a stream would have with another tip. -/
def branch (en : Engine) (id tip : Json) : Except Failure Fold.State × Engine :=
  en.observe (en.readBranch id tip)

def listStreams (en : Engine) (f : Filter) : Except Failure (List Stream) × Engine :=
  en.observe (en.readStreams f)

/-- The first stream of a model whose content has a value under a key. -/
def findByContent (en : Engine) (model key value : Json) :
    Except Failure (Option Stream) × Engine :=
  en.observe (en.readByContent model key value)

def queryBySignal (en : Engine) (p : Signal.Predicate) :
    Except Failure (List Json) × Engine :=
  en.observe (en.readBySignal p)

def signals (en : Engine) : Except Failure (List Folder) × Engine := en.observe en.readSignals

def rebuild (en : Engine) (id : Json) : Except Failure Stream × Engine :=
  en.commit (en.rebuilding id)

end ChainFold.Engine
