import ChainFold.Event.Validation
import ChainFold.Failure
import ChainFold.Fold.Desk
import ChainFold.Signal
import ChainFold.Store.Tables
/-!
# Resolution

What becomes of an event that may be stored: the receipt it is answered with, the folder in
the index, and the tip of its stream.
-/

/-!
## Receipts

What a submission is answered: the event became the tip of its stream, was stored
beside it, or was stored before.
-/

namespace ChainFold

/-- What became of a submitted event. -/
inductive Status where
  | applied
  | notApplied
  | duplicate
  deriving DecidableEq, Repr

def Status.name : Status → String
  | .applied => "applied"
  | .notApplied => "not_applied"
  | .duplicate => "duplicate"

def Status.ofName? (name : String) : Option Status :=
  [Status.applied, .notApplied, .duplicate].find? (·.name == name)

/-- Why a stored event did not become the tip. -/
structure Conflict where
  stream : Json
  cid : Json
  expectedPrev : Json
  currentTip : Json
  deriving DecidableEq

/-- The failure that says the same as a conflict. -/
def Conflict.failure (c : Conflict) : Failure :=
  .tipConflict c.stream c.cid c.expectedPrev c.currentTip

/-- The answer to a submission. -/
structure Receipt where
  stream : Json
  cid : Json
  tip : Json
  status : Status
  conflict : Option Conflict
  deriving DecidableEq

namespace Receipt

def applied (r : Receipt) : Bool := r.status == .applied

/-- The receipt, or the failure that its conflict amounts to. -/
def orConflict (r : Receipt) : Except Failure Receipt :=
  match r.conflict with
  | none => .ok r
  | some c => .error c.failure

def toJson (r : Receipt) : Json :=
  .obj [("applied", .bool r.applied), ("tip", r.tip), ("stream_id", r.stream),
    ("event_cid", r.cid), ("status", .str r.status.name)]

end Receipt

/-!
## The index

Each stream has a folder with its tip and the signal of its content.  Folders are
written in the transaction that moves the tip.
-/

/-- How the signal of a stream is derived from its content. -/
abbrev Extractor := Json → Except Defect (Option Json)

namespace Index

/-- The extractor that is used when no other is given. -/
def ownSignal : Extractor := fun content => .ok (Signal.ofContent? content)

def logger : String := "dataverse_streams.index.maintainer"

def folderOf (extract : Extractor) (stream tip content : Json) : Except Failure Folder :=
  match extract content with
  | .ok signal => .ok ⟨stream, tip, signal⟩
  | .error d => .error (.defect d)

def noteWritten (f : Folder) : Work Unit :=
  Work.note Log.debug logger s!"Index folder for {f.stream.display} now at {f.tip.display}" []

def refresh (b : Backend) (extract : Extractor) (t : Tables) (stream tip content : Json) :
    Work Tables := do
  let f ← Work.ofExcept (folderOf extract stream tip content)
  let t ← Work.ofExcept (t.putFolder b f)
  noteWritten f
  pure t

/-- The streams of the folders whose signal satisfies a predicate. -/
def matching (p : Signal.Predicate) : List Folder → Except Failure (List Json)
  | [] => .ok []
  | f :: rest =>
    match Signal.satisfies f.signal p with
    | .error d => .error (.defect d)
    | .ok found =>
      match matching p rest with
      | .error d => .error d
      | .ok ids => .ok (if found then f.stream :: ids else ids)

/-- The streams whose signal satisfies a predicate, in the order of their ids. -/
def query (t : Tables) (p : Signal.Predicate) : Except Failure (List Json) := do
  matching p (← t.signalFolders)

end Index

end ChainFold

/-!
## Moving tips

A genesis event creates its stream.  Any other event is stored, and becomes the
tip if its predecessor is the tip at that moment; otherwise the answer names the
tip that stands.  A tip never moves back.
-/

namespace ChainFold.Resolution

def logger : String := "dataverse_streams.engine.resolver"

def appliedReceipt (stream : Json) (e : Event) : Receipt := ⟨stream, e.cid, e.cid, .applied, none⟩

def conflictReceipt (stream : Json) (e : Event) (tip : Json) : Receipt :=
  ⟨stream, e.cid, tip, .notApplied, some ⟨stream, e.cid, e.prev, tip⟩⟩

/-- Answer that an event was stored beside the tip. -/
def lost (stream : Json) (e : Event) (tip : Json) : Work Receipt := do
  Work.note Log.info logger
    (s!"Event {e.cid.display} stored but not applied to {stream.display}: " ++
      s!"prev {e.prev.display} is not tip {tip.display}") []
  pure (conflictReceipt stream e tip)

/-- The fault of a header whose model or first controller is not usable. -/
def headerFault? (s : Fold.State) : Option String :=
  match Ident.fault? true Ident.maxLength s.model with
  | some reason => some s!"header model {reason}"
  | none =>
    (Ident.fault? true Ident.maxAccountLength s.account).map fun reason =>
      s!"header controller {reason}"

def checkHeader (e : Event) (s : Fold.State) : Except Failure Unit :=
  match headerFault? s with
  | some reason => .error (.malformedEvent e.cid reason)
  | none => .ok ()

def newStream (id : Json) (owner : Uuid) (s : Fold.State) : Stream :=
  ⟨id, owner, s.tip, s.account, s.model, s.content⟩

/-- The tip of a stream that must exist. -/
def tipOf (b : Backend) (t : Tables) (id : Json) : Except Failure Json := do
  match ← t.stream? b id with
  | some s => pure s.tip
  | none => throw (.defect .noSuchPart)

def createStream (b : Backend) (extract : Extractor) (t : Tables) (e : Event) (id : Json)
    (owner : Uuid) : Work (Receipt × Tables) := do
  let s ← Fold.start e
  Work.ofExcept (checkHeader e s)
  let (created, t) ← Work.ofExcept (t.insertStream b (newStream id owner s))
  let (_, t) ← Work.ofExcept (t.insertEvent b e)
  if created then
    let t ← Index.refresh b extract t id e.cid s.content
    Work.note Log.info logger s!"Created stream {id.display} at {e.cid.display}" []
    pure (appliedReceipt id e, t)
  else
    let tip ← Work.ofExcept (tipOf b t id)
    let r ← lost id e tip
    pure (r, t)

/-- The state at the tip of a stream, as it is held or as the row gives it. -/
def currentState (row : Stream) : Work Fold.State := do
  match ← Fold.fetch row.tip with
  | some s => pure s
  | none => pure ⟨row.tip, row.content, row.model, row.account⟩

/-- Store an event of an existing stream and move the tip to it if it follows the tip. -/
def advance (b : Backend) (extract : Extractor) (t : Tables) (e : Event) (row : Stream) :
    Work (Receipt × Tables) := do
  let (_, t) ← Work.ofExcept (t.insertEvent b e)
  if !e.prev.looselySame row.tip then
    let r ← lost row.id e row.tip
    pure (r, t)
  else
    let current ← currentState row
    let s ← Fold.step current e
    let (moved, t) ← Work.ofExcept (t.swapTip b row.id e.prev e.cid s.content)
    if moved then
      let t ← Index.refresh b extract t row.id e.cid s.content
      Work.note Log.debug logger
        s!"Advanced stream {row.id.display} from {e.prev.display} to {e.cid.display}" []
      pure (appliedReceipt row.id e, t)
    else
      let tip ← Work.ofExcept (tipOf b t row.id)
      let r ← lost row.id e tip
      pure (r, t)

end ChainFold.Resolution
