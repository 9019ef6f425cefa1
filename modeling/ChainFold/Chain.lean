import ChainFold.Event.Basic
import ChainFold.Fold.Desk
import ChainFold.Json.Key
import ChainFold.Store.Tables
/-!
# Linkage and chains

How an event joins what is stored, and how the chain of a stored event is walked back to
the event that it starts with.
-/

/-!
## How an event joins what is stored

An event starts a chain, extends a stored event of the same chain, or is stored
already.  Anything else breaks the chain and is refused.
-/

namespace ChainFold

/-- How an event relates to the stored ones. -/
inductive Linkage where
  | genesis
  | extension
  | duplicate
  deriving DecidableEq, Repr

namespace Linkage

def name : Linkage → String
  | .genesis => "genesis"
  | .extension => "extends"
  | .duplicate => "duplicate"

def logger : String := "dataverse_streams.events.linker"

def broken (e : Event) (reason : String) : Failure := .brokenChain e.cid reason e.prev e.genesis

/-- The linkage of an event that is not stored yet. -/
def ofNew (b : Backend) (t : Tables) (e : Event) : Except Failure Linkage := do
  if e.isGenesis then pure .genesis
  else
    match ← t.event? b e.prev with
    | none => throw (broken e "unknown prev")
    | some parent =>
      if parent.genesis.looselySame e.genesis then pure .extension
      else throw (broken e s!"genesis mismatch: prev belongs to {parent.genesis.display}")

/-- The linkage of an event to the stored ones. -/
def ofEvent (b : Backend) (t : Tables) (e : Event) : Except Failure Linkage := do
  match ← t.event? b e.cid with
  | some stored =>
    if stored.same e then pure .duplicate
    else throw (broken e "cid collision with a stored event of different content")
  | none => ofNew b t e

/-- The linkage of an event, with a log line for an extension. -/
def link (b : Backend) (t : Tables) (e : Event) : Work Linkage := do
  let linkage ← Work.ofExcept (ofEvent b t e)
  if linkage = .extension then
    Work.note Log.debug logger s!"Event {e.cid.display} extends {e.prev.display}" []
  pure linkage

end Linkage

end ChainFold

/-!
## Chains

Events that are linked by `prev` from a tip back to the first event of their
chain.  Walking back through a heap of events either reaches that event or meets
the first thing that is wrong.
-/

namespace ChainFold.Chain

/-- The last event of a list whose cid has this key. -/
def latest? (k : Key) (events : List Event) : Option Event :=
  events.reverse.find? (·.cid.key? == some k)

def broken (cid : Json) (reason : String) (genesis : Json) : Failure :=
  .brokenChain cid reason .null genesis

/--
Walk back from `cursor`.  `seen` holds the keys of the cids met so far and `above` the
events met so far, the earliest of the chain first; each step sees a new cid, so `fuel`
above the number of events is never used up.
-/
def walkBack (events : List Event) (genesis : Json) :
    (fuel : Nat) → (seen : List Key) → (above : List Event) → (cursor : Json) →
      Except Failure (List Event)
  | 0, _, _, cursor => .error (broken cursor "cycle in stored chain" genesis)
  | fuel + 1, seen, above, cursor =>
    match cursor.key? with
    | none => .error (.defect .wrongKind)
    | some k =>
      if k ∈ seen then .error (broken cursor "cycle in stored chain" genesis)
      else
        match latest? k events with
        | none => .error (broken cursor "missing event in stored chain" genesis)
        | some e =>
          if !e.genesis.looselySame genesis then
            .error (broken cursor "event belongs to another stream" genesis)
          else if e.prev ≠ .null then walkBack events genesis fuel (k :: seen) (e :: above) e.prev
          else if e.cid.looselySame genesis then .ok (e :: above)
          else .error (broken e.cid "chain does not end at genesis" genesis)

/--
The chain from the genesis event to `tip`, taken from a heap of events, all of which
must have cids that can be looked up.
-/
def toTip (events : List Event) (genesis tip : Json) : Except Failure (List Event) :=
  if !events.all (·.cid.key?.isSome) then .error (.defect .wrongKind)
  else if tip = .null then .error (.defect .noItems)
  else walkBack events genesis (events.length + 1) [] [] tip

end ChainFold.Chain
