import ChainFold.Chain
import ChainFold.Engine.Basic
import ChainFold.Engine.Resolution
import ChainFold.Event.Validation
/-!
# Submitting events

An event is checked, linked to what is stored, applied to its stream and archived,
all in one transaction.  What is refused leaves no trace in the tables and the
archive.
-/

namespace ChainFold.Engine

/-- The owner that a submission names. -/
inductive OwnerClaim where
  | none
  | uuid (u : Uuid)
  | text (s : String)
  deriving DecidableEq

/-- The owner of the model that the header of an event names. -/
def ownerByModel (reg : Registry) (model : Json) : Except Failure Uuid :=
  let missing := Failure.invalid "dapp_id"
    "required for a genesis event whose model is not registered" model
  if model = .null then .error missing
  else
    match reg.seek model with
    | .ok (some m) => .ok m.owner
    | .ok none => .error missing
    | .error d => .error (.defect d)

def ownerOf (reg : Registry) (e : Event) : OwnerClaim → Except Failure Uuid
  | .uuid u => .ok u
  | .text s =>
    match Uuid.read s with
    | .ok u => .ok u
    | .error _ => .error (.invalid "dapp_id" "not a UUID" (.str s))
  | .none =>
    match e.payload with
    | .error f => .error f
    | .ok p => ownerByModel reg ((p.header.bind Header.model).getD .null)

def validationLogger : String := "dataverse_streams.events.validator"

/-- Check an event and its payload. -/
def vet (limit : Option Amount) (e : Event) : Work Event := do
  let e ← Work.ofExcept (e.validate limit)
  Work.note Log.debug validationLogger
    s!"Validated event {e.cid.display} ({e.blocks.length} blocks)" []
  let _ ← Work.ofExcept e.payload
  pure e

/-- Apply a checked event to the tables. -/
def resolve (en : Engine) (t : Tables) (e : Event) (stream : Json) (claim : OwnerClaim) :
    Work (Receipt × Tables) := do
  let b := en.backend
  match ← Linkage.link b t e with
  | .genesis =>
    let owner ← Work.ofExcept (ownerOf en.registry e claim)
    Resolution.createStream b en.extract t e stream owner
  | .duplicate =>
    match ← Work.ofExcept (t.stream? b stream) with
    | none => throw (.unknownStream stream e.cid)
    | some row => pure (⟨stream, e.cid, row.tip, .duplicate, none⟩, t)
  | .extension =>
    match ← Work.ofExcept (t.stream? b stream) with
    | none => throw (.unknownStream stream e.cid)
    | some row => Resolution.advance b en.extract t e row

/-- Whether a failure in the transaction is a rejection of the event. -/
def isRejection : Failure → Bool
  | .brokenChain .. | .malformedEvent .. | .unknownStream .. | .invalid .. => true
  | _ => false

def isMalformed : Failure → Bool
  | .malformedEvent .. => true
  | _ => false

/-- Note a failure of some kinds on its way out. -/
def warnOn {α : Type} (kinds : Failure → Bool) (lead : String) (context : Members) (w : Work α) :
    Work α :=
  tryCatch w fun f => do
    if kinds f then Work.note Log.warning logger s!"{lead}: {f.message}" context
    throw f

def noteReceipt (context : Members) (r : Receipt) : Work Unit :=
  match r.status with
  | .applied => Work.note Log.debug logger s!"Applied event, tip is now {r.tip.display}" context
  | .duplicate => Work.note Log.debug logger "Duplicate submission ignored" context
  | .notApplied => pure ()

/-- The context of log lines about an event of a stream. -/
def eventContext (e : Event) (stream : Json) : Members :=
  [("event_cid", e.cid), ("stream_id", stream)]

def admitting (en : Engine) (e : Event) : Work Event :=
  warnOn isMalformed "Rejected malformed event" [("event_cid", e.cidText)]
    (vet en.maxBlockBytes e)

def contextOf (e : Event) : Except Failure Members := (eventContext e ·) <$> streamOf e

/-- Apply a checked event to the tables, the first half of its transaction. -/
def resolving (en : Engine) (e : Event) (claim : OwnerClaim) : Work (Receipt × Tables) := do
  let stream ← Work.ofExcept (streamOf e)
  warnOn isRejection "Rejected event" (eventContext e stream) do
    Work.ofExcept en.checkOpen
    en.resolve en.tables e stream claim

/-- Archive an event that has been applied, the second half of its transaction. -/
def settling (en : Engine) (e : Event) (r : Receipt) (t : Tables) : Work (Receipt × Holdings) := do
  let context ← Work.ofExcept (contextOf e)
  let bs ← Work.ofExcept (envelopeOf e)
  let (_, a) ← keep en.archive e.cid bs
  noteReceipt context r
  pure (r, ⟨t, a⟩)

/-- Submit an event that has been checked, in one transaction. -/
def accepting (en : Engine) (e : Event) (claim : OwnerClaim) : Work (Receipt × Holdings) := do
  let (r, t) ← en.resolving e claim
  en.settling e r t

def submitting (en : Engine) (e : Event) (claim : OwnerClaim) : Work (Receipt × Holdings) := do
  en.accepting (← en.admitting e) claim

/-- Submit an event: the answer, and the engine behind it. -/
def submit (en : Engine) (e : Event) (claim : OwnerClaim) : Except Failure Receipt × Engine :=
  en.commit (en.submitting e claim)

end ChainFold.Engine
